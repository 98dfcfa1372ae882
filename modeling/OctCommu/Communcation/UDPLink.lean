import OctCommu.Communcation.DetachedReceive
import OctCommu.Communcation.UDPImp
import OctCommu.Thread.ThreadPool

/-! # A UDP link and the threads around it

Threads of the application call `init`, `send` and `shutdown`, all of them under
`m_send_mutex`; the poller thread reads datagrams; the one thread of
`m_recvThreadPool` runs `recvWorkerThread`. What is done under one lock is one
step, and so is all of `init` behind its `shutdown`, where it waits for nobody.
-/
namespace OctCommu.Communcation
open Memory Util Network.SockUtil Thread
variable {I : Type*}

/-- The longest payload that the length field of a UDP header admits. -/
def maxDatagram : ℕ := 65527

inductive UDPCall where
  | init (param : UDPInit) (os : OsAnswers)
  | shutdown

/-- Where a thread of the application is: in `send`, or in one of the calls that stop the pool.
These wait for `m_send_mutex`, hold it before `push_exit`, and then wait for the worker. -/
inductive AppPc where
  | idle
  | sending
  | locking (c : UDPCall)
  | stopping (c : UDPCall)
  | joining (c : UDPCall)

/-- The poller thread between `put` and the end of `async`. -/
inductive ReaderPc where
  | idle
  | emplacing
  | posting
  deriving DecidableEq

/-- The worker of the pool. In a callback it holds `m_recvDataFunxMtx`; `sending` is a reply that
waits for `m_send_mutex`. -/
inductive WorkerPc where
  | waiting
  | taking
  | running
  | calling
  | sending
  | exited
  deriving DecidableEq

/-- A link with its threads. `_on_read` tells that the socket's handler is `OnReadDataFunc`. The
last three fields record the parameters of each `init` that returned 0, and, since the latest one,
the datagrams that came while a callback was set and the calls of it (with whether the worker made
them). -/
structure UDPLink (I : Type*) where
  imp : UDPImp
  _on_read : Bool
  tasks : TaskQueue Unit
  worker : Option WorkerPc
  reader : ReaderPc
  m_send_mutex : Option I
  app : I → AppPc
  inits : List UDPInit
  arrived : List (List UInt8)
  calls : List (Bool × List UInt8)

inductive UDPAct (I : Type*) where
  | call (i : I) (c : UDPCall)
  | send (i : I)
  | lock (i : I)
  | push_exit (i : I)
  | join_all (i : I)
  | setOnRead (cb : Bool)
  | onRead (pdata : List UInt8) (addr : ℕ → UInt8)
  | emplace_back
  | post
  | wait
  | get_task
  | recvWorkerThread
  /-- The callback calls `send`. -/
  | callbackSend
  | sent
  /-- The callback returns, or throws. -/
  | callbackReturn

/-- An empty function is refused. -/
def UDPImp.setOnRead (u : UDPImp) (cb : Bool) : UDPImp × ℤ :=
  if cb then ({ u with m_recvDataFunc := true },0) else (u.setErrorMsg "cb param is nullptr",1)

/-- `init` stores its parameters before it shuts down. -/
def UDPCall.enter (u : UDPImp) : UDPCall → UDPImp
  | .init param _ => { u with m_udpIntParam := param }
  | .shutdown => u

namespace UDPLink

def fresh : UDPLink I where
  imp := .fresh
  _on_read := false
  tasks := ⟨[],0⟩
  worker := none
  reader := .idle
  m_send_mutex := none
  app := fun _ => .idle
  inits := []
  arrived := []
  calls := []

/-- `joinable` threads are waited for. -/
def joined (s : UDPLink I) : Bool :=
  match s.worker with
  | none | some .exited => true
  | some _ => false

/-- The worker holds the lock of the callback. -/
def inCallback (s : UDPLink I) : Bool :=
  match s.worker with
  | some .calling | some .sending => true
  | _ => false

section
variable [DecidableEq I] (inet_pton6 : Text → Option (Vector UInt8 16))
  (inet_ntop6 : List UInt8 → Text)

def setApp (s : UDPLink I) (i : I) (pc : AppPc) : UDPLink I :=
  { s with app := Function.update s.app i pc }

/-- What `initSocket` does behind `shutdown`. Only a link that receives binds its handler, and
only one that is detached as well starts the pool. -/
def initSocket (s : UDPLink I) (param : UDPInit) (os : OsAnswers) : UDPLink I :=
  let r := s.imp.init inet_pton6 param os
  if r.2 = 0 then { s with
    imp := r.1
    _on_read := s._on_read || param.is_to_recv_
    worker := if param.is_to_recv_ ∧ param.is_detach_recv_ then some .waiting else none
    inits := s.inits ++ [param]
    arrived := []
    calls := [] }
  else { s with imp := r.1, worker := none }

/-- The end of a call that has joined the pool. -/
def finish (s : UDPLink I) (i : I) (c : UDPCall) : UDPLink I :=
  let t := { s with m_send_mutex := none, app := Function.update s.app i .idle }
  match c with
  | .init param os => t.initSocket inet_pton6 param os
  | .shutdown => { t with worker := none }

/-- A datagram that `recvfrom` returned. -/
def read (s : UDPLink I) (pdata : List UInt8) (addr : ℕ → UInt8) : UDPLink I :=
  let s := if s.imp.m_recvDataFunc then { s with arrived := s.arrived ++ [pdata] } else s
  if s._on_read then
    let r := s.imp.OnReadDataFunc inet_ntop6 pdata addr
    { s with
      imp := r.1
      reader := if 0 < asyncCount r.2 then .emplacing else .idle
      calls := s.calls ++ (calledBytes r.2).map (false,·) }
  else s

def step (s : UDPLink I) : UDPAct I → Option (UDPLink I)
  | .call i c =>
    match s.app i with
    | .idle => some (s.setApp i (.locking c))
    | _ => none
  | .send i =>
    match s.app i with
    | .idle => some (s.setApp i .sending)
    | _ => none
  | .lock i =>
    match s.app i, s.m_send_mutex with
    | .sending, none => some (s.setApp i .idle)
    | .locking c, none =>
      some { s.setApp i (.stopping c) with
        imp := (c.enter s.imp).shutdown
        m_send_mutex := some i }
    | _, _ => none
  | .push_exit i =>
    match s.app i with
    | .stopping c => some { s.setApp i (.joining c) with tasks := s.tasks.post }
    | _ => none
  | .join_all i =>
    match s.app i with
    | .joining c => if s.joined then some (s.finish inet_pton6 i c) else none
    | _ => none
  | .setOnRead cb =>
    if s.inCallback then none else some { s with imp := (s.imp.setOnRead cb).1 }
  | .onRead pdata addr =>
    if s.reader = .idle ∧ s.imp._sock_fd ∧ s.imp._enable_recv ∧ 0 < pdata.length ∧
        pdata.length ≤ maxDatagram then
      some (s.read inet_ntop6 pdata addr)
    else none
  | .emplace_back =>
    match s.reader with
    | .emplacing => some { s with tasks := s.tasks.emplace_back (), reader := .posting }
    | _ => none
  | .post =>
    match s.reader with
    | .posting => some { s with tasks := s.tasks.post, reader := .idle }
    | _ => none
  | .wait =>
    match s.worker, s.tasks.wait with
    | some .waiting, some q => some { s with tasks := q, worker := some .taking }
    | _, _ => none
  | .get_task =>
    match s.worker with
    | some .taking =>
      match s.tasks.pop_front with
      | (none,_) => some { s with worker := some .exited }
      | (some _,q) => some { s with tasks := q, worker := some .running }
    | _ => none
  | .recvWorkerThread =>
    match s.worker with
    | some .running =>
      let r := s.imp.recvWorkerThread
      some { s with
        imp := r.1
        worker := some (if calledBytes r.2 = [] then .waiting else .calling)
        calls := s.calls ++ (calledBytes r.2).map (true,·) }
    | _ => none
  | .callbackSend =>
    match s.worker with
    | some .calling => some { s with worker := some .sending }
    | _ => none
  | .sent =>
    match s.worker, s.m_send_mutex with
    | some .sending, none => some { s with worker := some .calling }
    | _, _ => none
  | .callbackReturn =>
    match s.worker with
    | some .calling => some { s with worker := some .waiting }
    | _ => none

end
end UDPLink
end OctCommu.Communcation
