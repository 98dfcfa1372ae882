import OctCommu.Communcation.DetachedReceive
import OctCommu.Network.TcpClient

/-! # A TCP link in either role

`TCPImp` owns a client and a server object for its whole life; `init` only picks
the one that later calls go to. The outcome of a system call, the poller that
accepts and the order of all events are inputs.
-/
namespace OctCommu.Communcation
open Memory Util Network Network.SockUtil Runs
variable {P : Type*}

def TT_SERVER : ℤ := 1
def TT_CLIENT : ℤ := 2

/-- The fields of `TCPInit` that decide more than an address. -/
structure TCPInit where
  tcp_type_ : ℤ
  target_ip_ : Text
  is_to_recv_ : Bool
  is_detach_recv_ : Bool

/-- `target_ip_.find(':')` finds nothing. -/
def TCPInit.is_ipv4_ (init_param : TCPInit) : Bool := !init_param.target_ip_.contains 58

/-- What a socket is waiting for or holds: no fd, an fd whose name is being resolved, one that
connects, one that is connected. -/
inductive ConnectPhase where
  | idle
  | resolving
  | connecting
  | connected
  deriving DecidableEq

/-- A client's socket: its connection timer, and the tasks its poller still has to run for it. -/
structure TcpSocket where
  phase : ConnectPhase
  _con_timer : Bool
  connectTasks : ℕ
  errTasks : ℕ
  deriving DecidableEq

namespace TcpSocket

def fresh : TcpSocket := ⟨.idle,false,0,0⟩

/-- An unfinished resolution is dropped as well. -/
def closeSock (k : TcpSocket) : TcpSocket := { k with phase := .idle, _con_timer := false }

/-- The attempt itself is a task. -/
def connect (k : TcpSocket) : TcpSocket := { k with connectTasks := k.connectTasks + 1 }

/-- While a name is being resolved there is no fd yet. -/
def hasFd (k : TcpSocket) : Bool := k.phase = .connecting ∨ k.phase = .connected

/-- The error handler runs in a task of its own. -/
def emitErr (k : TcpSocket) : TcpSocket :=
  if k.hasFd then { k.closeSock with errTasks := k.errTasks + 1 } else k

/-- The local `con_cb` of `connect_l` up to `con_cb_in`. -/
def con_cb (k : TcpSocket) (err : Bool) : TcpSocket :=
  { k with phase := if err then .idle else .connected, _con_timer := false }

end TcpSocket

/-- `SocketHelper::shutdown` -/
def SocketHelper.shutdown (_sock : Option TcpSocket) : Option TcpSocket := _sock.map TcpSocket.emitErr

/-- `TCPClientImp`: the pointers of its `TcpClient`, and the socket behind one of them. -/
structure TCPClientImp where
  client : TcpClient
  _sock : Option TcpSocket
  common : TCPCommon

/-- `TCPServerImp` with its `TcpServer`: which pollers listen, how many connections it serves, whether
`m_recvThreadPool` has its thread, and how many runs of `recvDataWorker` are queued there. It is a
session as well, of no socket. -/
structure TCPServerImp (P : Type*) where
  _sock : Option TcpSocket
  common : TCPCommon
  listening : P → Bool
  sessions : ℕ
  started : Bool
  tasks : ℕ

/-- How often an attempt to connect was made, a connection accepted, the callback called. -/
structure Activity where
  attempts : ℕ
  accepts : ℕ
  recvs : ℕ
  deriving DecidableEq

structure TCPImp (P : Type*) where
  tcp_type_ : ℤ
  tcp_client_imp_ : TCPClientImp
  tcp_server_imp_ : TCPServerImp P
  activity : Activity

/-- What `SockUtil::connect` comes to within `connect_l`. A name is left to another thread. -/
inductive ConnectResult where
  | resolving
  | connecting
  | failed
  deriving DecidableEq

/-- Where `Socket::listen` fails, or else which clones listen from then on. -/
inductive ListenResult (P : Type*) where
  | noSocket
  | noEvent
  | listens (clones : P → Bool)

inductive ClientEvent where
  | connect_l (result : ConnectResult)
  | resolved (connects : Bool)
  | onConnected (err : Bool)
  | conTimer
  /-- A read, a send or a flush fails. -/
  | emitErr
  | on_err
  | reConnectServer
  | onRecv (pdata : List UInt8) (addr : ℕ → UInt8)

inductive ServerEvent (P : Type*) where
  /-- Poller `q` accepts; the connection gets its callbacks when it is dispatched to the parent. -/
  | onAccept (q : P) (toParent : Bool)
  /-- `accept` fails on poller `q`. -/
  | emitErr (q : P)
  | MyonRecv (pdata : List UInt8) (addr : ℕ → UInt8)
  | sessionErr
  | recvDataWorker

inductive TCPAct (P : Type*) where
  | init (init_param : TCPInit) (result : ListenResult P)
  | shutdown
  | setOnReadFunc (cb : Bool)
  | client (e : ClientEvent)
  | server (e : ServerEvent P)

/-- An exception leaves the callback. -/
def throws (effects : List RecvEffect) : Bool :=
  effects.any fun e => match e with
    | .bad_function_call => true
    | _ => false

namespace TCPClientImp

/-- `tcp_init_` keeps its defaults, so a client is never detached. -/
def fresh : TCPClientImp := ⟨.fresh,none,⟨false,false,true,false,.fresh⟩⟩

/-- With the socket that `startConnect` replaces its tasks go, too. -/
def init (c : TCPClientImp) (init_param : TCPInit) : TCPClientImp where
  client := c.client.startConnect
  _sock := some TcpSocket.fresh.connect
  common := { c.common with
    is_to_recv_ := init_param.is_to_recv_
    is_ipv4_ := init_param.is_ipv4_ }

def shutdown (c : TCPClientImp) : TCPClientImp :=
  { c with client := c.client.shutdown, _sock := SocketHelper.shutdown c._sock }

/-- The connect callback ends in `onSockConnect`. -/
def connected (c : TCPClientImp) (k : TcpSocket) (err : Bool) : TCPClientImp :=
  { c with client := c.client.onSockConnect err, _sock := some (k.con_cb err) }

/-- The connection timer is set when everything else is done, even after a failure. -/
def connect_l (c : TCPClientImp) (k : TcpSocket) (result : ConnectResult) : TCPClientImp :=
  let k := { k.closeSock with connectTasks := k.connectTasks - 1 }
  match result with
  | .resolving => { c with _sock := some { k with phase := .resolving, _con_timer := true } }
  | .connecting => { c with _sock := some { k with phase := .connecting, _con_timer := true } }
  | .failed =>
    { c with
      client := c.client.onSockConnect true
      _sock := some { k.con_cb true with _con_timer := true } }

/-- The task `emitErr` left behind; it belongs to the current socket. -/
def on_err (c : TCPClientImp) (k : TcpSocket) : TCPClientImp :=
  { c with
    client := match c.client._sock with
      | some sock_ptr => c.client.onSockErr sock_ptr
      | none => c.client
    _sock := some { k with errTasks := k.errTasks - 1 } }

/-- Of the read callback: what it leaves behind, and how often the application was called. -/
def recv (inet_ntop6 : List UInt8 → Text) (c : TCPClientImp) (pdata : List UInt8)
    (addr : ℕ → UInt8) : TCPClientImp × ℕ :=
  let r := onRecv inet_ntop6 c.common pdata addr
  let c := { c with common := r.1 }
  (if throws r.2 then c.shutdown else c,(calledBytes r.2).length)

/-- The client after an event on its socket, with the attempts and calls the event made. -/
def sockEvent (inet_ntop6 : List UInt8 → Text) (c : TCPClientImp) (k : TcpSocket) :
    ClientEvent → Option (TCPClientImp × ℕ × ℕ)
  | .connect_l result => if 0 < k.connectTasks then some (c.connect_l k result,1,0) else none
  | .resolved connects =>
    if k.phase = .resolving then
      some (if connects then { c with _sock := some { k with phase := .connecting } }
        else c.connected k true,0,0)
    else none
  | .onConnected err => if k.phase = .connecting then some (c.connected k err,0,0) else none
  | .conTimer => if k._con_timer then some (c.connected k true,0,0) else none
  | .emitErr => if k.hasFd then some ({ c with _sock := some k.emitErr },0,0) else none
  | .on_err => if 0 < k.errTasks then some (c.on_err k,0,0) else none
  | .reConnectServer =>
    if c.client._timer_reconnect.isSome then
      some ({ c with client := c.client.reConnectServer, _sock := some k.connect },0,0)
    else none
  | .onRecv pdata addr =>
    if k.phase = .connected ∧ pdata ≠ [] then
      some ((c.recv inet_ntop6 pdata addr).1,0,(c.recv inet_ntop6 pdata addr).2)
    else none

end TCPClientImp

namespace TCPServerImp

def fresh : TCPServerImp P := ⟨none,⟨false,false,true,false,.fresh⟩,fun _ => false,0,false,0⟩

/-- A socket that could not be opened leaves the listening one alone; one that could not be
watched has replaced it. In both cases an exception comes before the clones are renewed. -/
def start_l [DecidableEq P] (_poller : P) (listening : P → Bool) : ListenResult P → P → Bool
  | .noSocket => listening
  | .noEvent => fun p => if p = _poller then false else listening p
  | .listens clones => fun p => if p = _poller then true else clones p

/-- The pool is never stopped, and starts before the server does. -/
def init [DecidableEq P] (_poller : P) (s : TCPServerImp P) (init_param : TCPInit)
    (result : ListenResult P) : TCPServerImp P :=
  { s with
    common := { s.common with
      is_to_recv_ := init_param.is_to_recv_
      is_detach_recv_ := init_param.is_detach_recv_
      is_ipv4_ := init_param.is_ipv4_ }
    started := s.started || (init_param.is_to_recv_ && init_param.is_detach_recv_)
    listening := start_l _poller s.listening result }

/-- `Session` inherits it from `SocketHelper`; the `TcpServer` hears nothing of it. -/
def shutdown (s : TCPServerImp P) : TCPServerImp P := { s with _sock := SocketHelper.shutdown s._sock }

/-- The server after an event, with the connections accepted and the calls made by it. -/
def event [DecidableEq P] (inet_ntop6 : List UInt8 → Text) (s : TCPServerImp P) :
    ServerEvent P → Option (TCPServerImp P × ℕ × ℕ)
  | .onAccept q toParent =>
    if s.listening q then
      some ({ s with sessions := if toParent then s.sessions + 1 else s.sessions },1,0)
    else none
  | .emitErr q =>
    if s.listening q then
      some ({ s with listening := fun p => if p = q then false else s.listening p },0,0)
    else none
  | .MyonRecv pdata addr =>
    if 0 < s.sessions ∧ pdata ≠ [] then
      let r := MyonRecv inet_ntop6 s.common pdata addr
      some ({ s with common := r.1, tasks := s.tasks + asyncCount r.2 },0,(calledBytes r.2).length)
    else none
  | .sessionErr => if 0 < s.sessions then some ({ s with sessions := s.sessions - 1 },0,0) else none
  | .recvDataWorker =>
    if s.started ∧ 0 < s.tasks then
      let r := recvDataWorker s.common
      some ({ s with common := r.1, tasks := s.tasks - 1 },0,(calledBytes r.2).length)
    else none

end TCPServerImp

namespace TCPImp

/-- The constructor. -/
def start : TCPImp P := ⟨0,.fresh,.fresh,⟨0,0,0⟩⟩

section
variable [DecidableEq P] (_poller : P) (inet_ntop6 : List UInt8 → Text)

/-- The other object is not told of the change. -/
def init (s : TCPImp P) (init_param : TCPInit) (result : ListenResult P) : TCPImp P :=
  let s := { s with tcp_type_ := init_param.tcp_type_ }
  if TT_CLIENT = s.tcp_type_ then
    { s with tcp_client_imp_ := s.tcp_client_imp_.init init_param }
  else { s with tcp_server_imp_ := s.tcp_server_imp_.init _poller init_param result }

def shutdown (s : TCPImp P) : TCPImp P :=
  if TT_CLIENT = s.tcp_type_ then { s with tcp_client_imp_ := s.tcp_client_imp_.shutdown }
  else { s with tcp_server_imp_ := s.tcp_server_imp_.shutdown }

def setOnReadFunc (s : TCPImp P) (cb : Bool) : TCPImp P :=
  if TT_CLIENT = s.tcp_type_ then
    { s with tcp_client_imp_ := { s.tcp_client_imp_ with
        common := Communcation.setOnReadFunc s.tcp_client_imp_.common cb } }
  else
    { s with tcp_server_imp_ := { s.tcp_server_imp_ with
        common := Communcation.setOnReadFunc s.tcp_server_imp_.common cb } }

def clientEvent (s : TCPImp P) (e : ClientEvent) : Option (TCPImp P) :=
  s.tcp_client_imp_._sock.bind fun k =>
    (s.tcp_client_imp_.sockEvent inet_ntop6 k e).map fun r => { s with
      tcp_client_imp_ := r.1
      activity := { s.activity with
        attempts := s.activity.attempts + r.2.1
        recvs := s.activity.recvs + r.2.2 } }

def serverEvent (s : TCPImp P) (e : ServerEvent P) : Option (TCPImp P) :=
  (s.tcp_server_imp_.event inet_ntop6 e).map fun r => { s with
    tcp_server_imp_ := r.1
    activity := { s.activity with
      accepts := s.activity.accepts + r.2.1
      recvs := s.activity.recvs + r.2.2 } }

def step (s : TCPImp P) : TCPAct P → Option (TCPImp P)
  | .init init_param result => some (s.init _poller init_param result)
  | .shutdown => some s.shutdown
  | .setOnReadFunc cb => some (s.setOnReadFunc cb)
  | .client e => s.clientEvent inet_ntop6 e
  | .server e => s.serverEvent inet_ntop6 e

end
end TCPImp
end OctCommu.Communcation
