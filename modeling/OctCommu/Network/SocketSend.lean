import OctCommu.Lib.Runs
import OctCommu.Network.BufferSendMsg
import Mathlib.Logic.Function.Basic

/-! # The send side of a TCP `Socket`

Application threads append to `_send_buf_waiting` and flush under `_mtx_sock_fd`;
the poller thread flushes from `onWriteAble` without that lock. Every mutex
section, every `sendmsg` and every event arming is one step. User callbacks are
left out, as they touch none of this state.
-/
namespace OctCommu.Network
open Runs

/-- A byte with the number of connections that had been closed when it was queued. -/
structure Cell where
  byte : UInt8
  queuedAt : ℕ
  deriving DecidableEq

/-- The event mask of an fd in the poller, and whether its callback is that of `attachEvent`. -/
structure Registration where
  read : Bool
  write : Bool
  error : Bool
  attached : Bool

abbrev Packet := BufferSendMsg Cell

/-- The members `send` works on. Behind them the fds: their registrations, how many there have
been, how many connections were closed in all and before each fd, and what each was sent. -/
structure Socket where
  _sock_fd : Option ℕ
  _sendable : Bool
  _enable_recv : Bool
  _send_buf_waiting : List (List Cell)
  _send_buf_sending : List Packet
  events : ℕ → Registration
  fds : ℕ
  closed : ℕ
  openedAt : ℕ → ℕ
  wire : ℕ → List Cell
  appended : List (List UInt8)

namespace Socket

def fresh : Socket where
  _sock_fd := none
  _sendable := true
  _enable_recv := true
  _send_buf_waiting := []
  _send_buf_sending := []
  events := fun _ => ⟨false,false,false,false⟩
  fds := 0
  closed := 0
  openedAt := fun _ => 0
  wire := fun _ => []
  appended := []

def closeSock (s : Socket) : Socket :=
  { s with
    _sock_fd := none
    closed := if s._sock_fd.isSome then s.closed + 1 else s.closed }

/-- The end of `connect_l`: the new fd is watched for its connection and stored. -/
def install (s : Socket) : Socket :=
  let t := s.closeSock
  { t with
    _sock_fd := some s.fds
    events := Function.update s.events s.fds ⟨false,true,false,false⟩
    fds := s.fds + 1
    openedAt := Function.update s.openedAt s.fds t.closed }

def attachEvent (s : Socket) (sock : ℕ) : Socket :=
  { s with
    _enable_recv := true
    events := Function.update s.events sock ⟨true,true,true,true⟩ }

/-- `modifyEvent` with the flags of `startWriteAbleEvent` or `stopWriteAbleEvent`. -/
def modifyEvent (s : Socket) (sock : ℕ) (write : Bool) : Socket :=
  let r : Registration := { s.events sock with read := s._enable_recv, write := write, error := true }
  { s with events := Function.update s.events sock r }

def append (s : Socket) (buf : List UInt8) : Socket :=
  { s with
    _send_buf_waiting := s._send_buf_waiting ++ [buf.map fun b => ⟨b,s.closed⟩]
    appended := s.appended ++ [buf] }

def transmit (s : Socket) (sock : ℕ) (x : List Cell) : Socket :=
  { s with wire := Function.update s.wire sock (s.wire sock ++ x) }

end Socket

/-- Where a thread is in `flushData`, with its `send_buf_sending_tmp`; `remain_size` is the local of
`BufferSendMsg::send`. The last two are `stopWriteAbleEvent`, also when `onWriteAble` calls it. -/
inductive Flush where
  | takeSending
  | takeWaiting
  | sendLoop (tmp : List Packet) (remain_size : ℕ)
  | startSendable (tmp : List Packet)
  | startModify (tmp : List Packet)
  | rollback (tmp : List Packet)
  | stopSendable
  | stopModify

/-- A step without the kernel, or an answer of `sendmsg`. -/
inductive FlushAct where
  | go
  | accept (n : ℕ)
  | again
  | error
  deriving DecidableEq

inductive FlushOut where
  | next (pc : Flush)
  | ret (ok : Bool)
  /-- `emitErr`, then `return false`; the local packets are dropped. -/
  | emitErr

/-- The head of the send loop: the next packet, or what follows when all are sent. -/
def sendFrom (poller_thread : Bool) : List Packet → FlushOut
  | [] => if poller_thread then .next .takeSending else .ret true
  | p :: ps => .next (.sendLoop (p :: ps) p._remain_size)

/-- Behind a partial send. -/
def waitWriteAble (poller_thread : Bool) (tmp : List Packet) : FlushOut :=
  if poller_thread then .next (.rollback tmp) else .next (.startSendable tmp)

def flushData (poller_thread : Bool) (sock : ℕ) (s : Socket) :
    Flush → FlushAct → Option (Socket × FlushOut)
  | .takeSending, .go => some ({ s with _send_buf_sending := [] },
      match s._send_buf_sending with
      | [] => .next .takeWaiting
      | p :: ps => sendFrom poller_thread (p :: ps))
  | .takeWaiting, .go =>
    match s._send_buf_waiting with
    | [] => some (s,if poller_thread then .next .stopSendable else .ret true)
    | buf :: bufs => some ({ s with _send_buf_waiting := [] },
        sendFrom poller_thread [.create (buf :: bufs)])
  | .sendLoop (p :: ps) remain_size, .accept n =>
    if p._remain_size ≠ 0 ∧ 0 < n ∧ n ≤ p.offered.length then
      let q := (p.send_l n).1
      some (s.transmit sock (p.offered.take n),
        if q.empty then sendFrom poller_thread ps else .next (.sendLoop (q :: ps) remain_size))
    else none
  | .sendLoop (p :: ps) _, .again => some (s,waitWriteAble poller_thread (p :: ps))
  | .sendLoop (p :: ps) remain_size, .error =>
    -- an error behind a partial send is not looked at
    if p._remain_size < remain_size then some (s,waitWriteAble poller_thread (p :: ps))
    else some (s,.emitErr)
  | .startSendable tmp, .go => some ({ s with _sendable := false },.next (.startModify tmp))
  | .startModify tmp, .go => some (s.modifyEvent sock true,.next (.rollback tmp))
  | .rollback tmp, .go =>
    some ({ s with _send_buf_sending := tmp ++ s._send_buf_sending },.ret true)
  | .stopSendable, .go => some ({ s with _sendable := true },.next .stopModify)
  | .stopModify, .go => some (s.modifyEvent sock false,.ret true)
  | _, _ => none

/-! ### All threads -/

inductive Caller where
  | flushAll
  | send (size : ℕ)

def Caller.result : Caller → ℤ → ℤ
  | .flushAll, r => r
  | .send size, r => if r ≠ 0 then -1 else size

/-- An application thread: outside with its last result, or in `flushAll`. -/
inductive App where
  | idle (ret : Option ℤ)
  | flushAll (caller : Caller)

inductive Poller where
  | idle
  | checkWaiting (sock : ℕ)
  | checkSending (sock : ℕ) (empty_waiting : Bool)
  | flush (sock : ℕ) (pc : Flush)
  /-- In `emitErr`, before its two sections of `_mtx_sock_fd`. -/
  | emitErr
  | closing

/-- `holder` is the application thread inside `_mtx_sock_fd`, in `flushData` on its fd. -/
structure State (I : Type*) where
  socket : Socket
  app : I → App
  holder : Option (I × ℕ × Flush)
  poller : Poller

inductive Label (I : Type*) where
  /-- `send_l` up to the end of its own section. -/
  | send (i : I) (buf : List UInt8) (try_flush : Bool)
  | flushAll (i : I)
  /-- The lock of `flushAll`; `timeout` is what its clock says. -/
  | enter (i : I) (timeout : Bool)
  | app (a : FlushAct)
  | writeAble
  | poller (a : FlushAct)
  /-- `closeSock`, also from `emitErr`, by a thread that is not in `flushData`. -/
  | closeSock
  | install
  | onConnected

variable {I : Type*} [DecidableEq I]

def State.fresh : State I := ⟨.fresh,fun _ => .idle none,none,.idle⟩

/-- The step of `flushAll` that ends it. -/
def State.leave (s : State I) (i : I) (caller : Caller) (r : ℤ) (socket : Socket) : State I :=
  { s with
    socket := socket
    app := Function.update s.app i (.idle (some (caller.result r)))
    holder := none }

def step (s : State I) : Label I → Option (State I)
  | .send i buf try_flush =>
    match s.app i with
    | .idle _ =>
      if buf.length = 0 then some { s with app := Function.update s.app i (.idle (some 0)) }
      else some { s with
        socket := s.socket.append buf
        app := Function.update s.app i
          (if try_flush then .flushAll (.send buf.length) else .idle (some buf.length)) }
    | .flushAll _ => none
  | .flushAll i =>
    match s.app i with
    | .idle _ => some { s with app := Function.update s.app i (.flushAll .flushAll) }
    | .flushAll _ => none
  | .enter i timeout =>
    match s.holder, s.app i with
    | none, .flushAll caller =>
      match s.socket._sock_fd with
      | none => some (s.leave i caller (-1) s.socket)
      | some sock =>
        if s.socket._sendable then some { s with holder := some (i,sock,.takeSending) }
        else if timeout then some (s.leave i caller (-1) s.socket.closeSock)
        else some (s.leave i caller 0 s.socket)
    | _, _ => none
  | .app a =>
    match s.holder with
    | some (i,sock,pc) =>
      match s.app i, flushData false sock s.socket pc a with
      | .flushAll _, some (t,.next pc') => some { s with socket := t, holder := some (i,sock,pc') }
      | .flushAll caller, some (t,.ret ok) => some (s.leave i caller (if ok then 0 else -1) t)
      | .flushAll caller, some (t,.emitErr) => some (s.leave i caller (-1) t.closeSock)
      | _, _ => none
    | none => none
  | .writeAble =>
    match s.poller, s.socket._sock_fd with
    | .idle, some sock =>
      if (s.socket.events sock).attached ∧ (s.socket.events sock).write then
        some { s with poller := .checkWaiting sock }
      else none
    | _, _ => none
  | .poller a =>
    match s.poller, a with
    | .checkWaiting sock, .go =>
      some { s with poller := .checkSending sock s.socket._send_buf_waiting.isEmpty }
    | .checkSending sock empty_waiting, .go =>
      let empty_sending := s.socket._send_buf_sending.isEmpty
      some { s with
        poller := .flush sock (if empty_waiting ∧ empty_sending then .stopSendable else .takeSending) }
    | .flush sock pc, a =>
      match flushData true sock s.socket pc a with
      | some (t,.next pc') => some { s with socket := t, poller := .flush sock pc' }
      | some (t,.ret _) => some { s with socket := t, poller := .idle }
      | some (t,.emitErr) => some { s with socket := t, poller := .emitErr }
      | none => none
    | .emitErr, .go =>
      if s.holder.isSome then none
      else some { s with poller := if s.socket._sock_fd.isSome then .closing else .idle }
    | .closing, .go =>
      if s.holder.isSome then none
      else some { s with socket := s.socket.closeSock, poller := .idle }
    | _, _ => none
  | .closeSock => if s.holder.isSome then none else some { s with socket := s.socket.closeSock }
  | .install =>
    match s.holder, s.poller with
    | none, .idle => some { s with socket := s.socket.install }
    | _, _ => none
  | .onConnected =>
    match s.poller, s.socket._sock_fd with
    | .idle, some sock =>
      if (s.socket.events sock).attached then none
      else some { s with socket := s.socket.attachEvent sock }
    | _, _ => none

def State.opened : State I := { State.fresh with socket := (Socket.fresh.install).attachEvent 0 }

example : exec step (State.fresh : State I) [.install,.onConnected] = some .opened := rfl

end OctCommu.Network
