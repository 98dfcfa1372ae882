import OctCommu.Communcation.UDPReinit
import OctCommu.Network.RefusedSend

/-! # What a failed `init` of a UDP link leaves behind

`init` begins with a `shutdown`, and none of its exits behind that takes back what the
steps before it acquired. On the thread of the pool the `shutdown` cannot join, which
throws, and the thread goes on.
-/
namespace OctCommu.Communcation
open Memory Network.SockUtil Runs

namespace UDPImp
variable {inet_pton6 : Text → Option (Vector UInt8 16)}

/-! ### The steps of `initSocket` -/

theorem toSockAddress_m_hasInited (u : UDPImp) :
    (toSockAddress inet_pton6 u).1.m_hasInited = u.m_hasInited := by
  unfold toSockAddress
  dsimp only
  split
  · dsimp only
    split
    · rfl
    · rfl
  · rfl

/-- A failed `initSocket` is not initialised, and keeps the socket it has bound. -/
theorem initSocket_failed {u : UDPImp} {os : OsAnswers}
    (h : (initSocket inet_pton6 u os).2 ≠ 0) :
    (initSocket inet_pton6 u os).1.m_hasInited = false ∧
      ((initSocket inet_pton6 u os).1._sock_fd = false ↔ os.bindUdpSock = -1) := by
  have hs : (toSockAddress inet_pton6 u.shutdown).1.m_hasInited = false :=
    toSockAddress_m_hasInited u.shutdown
  unfold initSocket at h ⊢
  generalize (toSockAddress inet_pton6 u.shutdown).1 = s at h hs ⊢
  obtain ⟨_,hbind⟩ := s.bindSock_eq os
  by_cases hb : (s.bindSock os).2 = 0
  · obtain ⟨_,hcast⟩ := (s.bindSock os).1.initCast_eq os
    have hstate : ((s.bindSock os).1.initCast os).1.m_hasInited = false ∧
        (((s.bindSock os).1.initCast os).1._sock_fd = false ↔ os.bindUdpSock = -1) := by
      rw [hcast, hbind]
      exact ⟨hs,by simp⟩
    simp only [hb, ne_eq, not_true_eq_false, if_false] at h ⊢
    by_cases hc : ((s.bindSock os).1.initCast os).2 = 0
    · simp only [hc, not_true_eq_false, if_false] at h ⊢
      split at h
      · rename_i hpudp
        split at h
        · rename_i hattach
          rw [if_pos hpudp, if_pos hattach]
          exact hstate
        · exact absurd rfl h
      · exact absurd rfl h
    · simp only [hc, not_false_eq_true, if_true]
      exact hstate
  · simp only [hb, ne_eq, not_false_eq_true, if_true]
    rw [hbind]
    exact ⟨hs,by simp⟩

theorem init_sock_fd_of_null {u : UDPImp} (hu : u.m_pUDP = false) (param : UDPInit) (os : OsAnswers) :
    (u.init inet_pton6 param os).1._sock_fd = u._sock_fd := by
  rw [init_of_null hu]
  rfl

end UDPImp

namespace UDPFailedInit
open Network.RefusedSend

/-- The thread in the group of `m_recvThreadPool`; one that has left stays there until it is joined. -/
inductive Receiver where
  | none
  | running
  | left
  deriving DecidableEq

/-- On that thread `join_all` throws. -/
def Receiver.stop (r : Receiver) (onWorker : Bool) : Receiver := if onWorker then r else .none

/-- The pool has one thread. -/
def Receiver.start : Receiver → Receiver
  | .none => .running
  | r => r

/-- A link with its socket and the thread of its pool. -/
structure Link where
  imp : UDPImp
  socket : State
  receiver : Receiver
  same : imp._sock_fd = socket._sock_fd.isSome

/-- `newUdpSockWithBinding` closes the old socket whatever comes of the new one. -/
def rebind (sock : State) (bound : Bool) : State := if bound then sock.install true else sock.closeSock

theorem rebind_isSome (sock : State) (bound : Bool) : bound = (rebind sock bound)._sock_fd.isSome := by
  cases bound with
  | true => rfl
  | false => rfl

namespace Link
variable (inet_pton6 : Text → Option (Vector UInt8 16))

/-- What the constructor leaves; `createSocket` may fail. -/
def constructed (m_pUDP : Bool) : Link := ⟨{ UDPImp.fresh with m_pUDP := m_pUDP },.fresh,.none,rfl⟩

def setImp (s : Link) (imp : UDPImp) (h : imp._sock_fd = s.imp._sock_fd) : Link :=
  { s with imp := imp, same := h.trans s.same }

def setSocket (s : Link) (socket : State) : Link :=
  { s with
    imp := { s.imp with _sock_fd := socket._sock_fd.isSome }
    socket := socket
    same := rfl }

def setErrorMsg (s : Link) (str : String) : Link := s.setImp (s.imp.setErrorMsg str) rfl

/-- Only a callback runs on the worker. -/
def init (s : Link) (param : UDPInit) (os : OsAnswers) (onWorker : Bool) : Option (ℤ × Link) :=
  if onWorker ∧ s.receiver ≠ .running then none
  else
    let r := s.imp.init inet_pton6 param os
    if hpudp : s.imp.m_pUDP = false then
      some (r.2,s.setImp r.1 (UDPImp.init_sock_fd_of_null hpudp param os))
    else
      let stopped := s.receiver.stop onWorker
      some (r.2,{
        imp := r.1
        socket := rebind s.socket r.1._sock_fd
        receiver := if r.2 = 0 ∧ param.is_to_recv_ ∧ param.is_detach_recv_ then stopped.start else stopped
        same := rebind_isSome s.socket r.1._sock_fd })

def shutdown (s : Link) (onWorker : Bool) : Option Link :=
  if onWorker ∧ s.receiver ≠ .running then none
  else if hpudp : s.imp.m_pUDP then some {
    imp := s.imp.shutdown
    socket := s.socket.closeSock
    receiver := s.receiver.stop onWorker
    same := by simp [UDPImp.shutdown, hpudp, State.closeSock] }
  else some { s.setImp s.imp.shutdown (by simp [UDPImp.shutdown, hpudp]) with
    receiver := s.receiver.stop onWorker }

/-- A send that does not reach the socket. -/
def refuse (s : Link) (ret : ℤ) (str : String) (answers : List Answer) : Option (ℤ × Link) :=
  if answers.isEmpty then some (ret,s.setErrorMsg str) else none

/-- No `pdata` stands for `nullptr`, otherwise it is the `len` bytes. -/
def send (s : Link) (pdata : Option (List UInt8)) (timeout : Bool) (answers : List Answer) :
    Option (ℤ × Link) :=
  if s.imp.m_hasInited = false then
    s.refuse (-1) "Failed to send, please call [ init ] interface at first" answers
  else
    match pdata with
    | none | some [] => s.refuse (-2) "Failed to send, the param len is zero or pdata is nullptr" answers
    | some data => (spent (s.socket.send_l data true timeout answers)).map fun r =>
      let t := s.setSocket r.2
      if r.1 = -1 then (-3,t.setErrorMsg "Failed to send, socket is invalid")
      else if r.1 = 0 then (-5,t.setErrorMsg "Failed to send, the length of data is zero")
      else (toInt32 r.1,t)

end Link

inductive LinkAct where
  | init (param : UDPInit) (os : OsAnswers) (onWorker : Bool)
  | shutdown (onWorker : Bool)
  | send (pdata : Option (List UInt8)) (timeout : Bool) (answers : List Answer)
  | setOnRead (cb : Bool)
  | onRead (pdata : List UInt8) (addr : ℕ → UInt8)
  | recvWorkerThread
  /-- The worker finds a post and no task. -/
  | leave
  | onWriteAble (answers : List Answer)
  | emitErr

variable {inet_pton6 : Text → Option (Vector UInt8 16)} {inet_ntop6 : List UInt8 → Text}

section
variable (inet_pton6 : Text → Option (Vector UInt8 16)) (inet_ntop6 : List UInt8 → Text)

def step (s : Link) : LinkAct → Option Link
  | .init param os onWorker => (s.init inet_pton6 param os onWorker).map Prod.snd
  | .shutdown onWorker => s.shutdown onWorker
  | .send pdata timeout answers => (s.send pdata timeout answers).map Prod.snd
  | .setOnRead cb => some (s.setImp (s.imp.setOnRead cb).1 (by
      obtain ⟨_,_,h⟩ := s.imp.setOnRead_frame cb
      rw [h]))
  | .onRead pdata addr =>
    if s.imp._sock_fd ∧ s.imp._enable_recv then
      some (s.setImp (s.imp.OnReadDataFunc inet_ntop6 pdata addr).1 (by
        obtain ⟨_,h⟩ := s.imp.OnReadDataFunc_frame inet_ntop6 pdata addr
        rw [h]))
    else none
  | .recvWorkerThread =>
    if s.receiver = .running then some (s.setImp s.imp.recvWorkerThread.1 (by
      obtain ⟨_,h⟩ := s.imp.recvWorkerThread_frame
      rw [h]))
    else none
  | .leave => if s.receiver = .running then some { s with receiver := .left } else none
  | .onWriteAble answers => (spent (s.socket.onWriteAble answers)).map fun r => s.setSocket r.2
  | .emitErr => some (s.setSocket s.socket.closeSock)

end

/-- The link is as after `shutdown`. -/
structure Released (s : Link) : Prop where
  closed : s.socket._sock_fd = none
  uninitialised : s.imp.m_hasInited = false
  alone : s.receiver ≠ .running
  silent : ∀ pdata timeout answers ret t, s.send pdata timeout answers = some (ret,t) →
    ret ≤ 0 ∧ t.socket = s.socket

/-- A link without a `Socket` never got further than its constructor. -/
def Inv (s : Link) : Prop :=
  s.imp.m_pUDP = false → s.socket._sock_fd = none ∧ s.imp.m_hasInited = false ∧ s.receiver = .none

variable {inet_pton6 : Text → Option (Vector UInt8 16)} {inet_ntop6 : List UInt8 → Text}
  {s t : Link} {param : UDPInit} {os : OsAnswers} {onWorker : Bool} {ret : ℤ}

theorem Link.closed_iff (s : Link) : s.socket._sock_fd = none ↔ s.imp._sock_fd = false := by
  rw [s.same]
  cases s.socket._sock_fd with
  | none => simp
  | some fd => simp

/-- Everything `init` can do. -/
theorem init_cases (h : s.init inet_pton6 param os onWorker = some (ret,t)) :
    (onWorker = true → s.receiver = .running) ∧ s.imp.init inet_pton6 param os = (t.imp,ret) ∧
      ((s.imp.m_pUDP = false ∧ t.socket = s.socket ∧ t.receiver = s.receiver) ∨
      (s.imp.m_pUDP = true ∧ t.socket = rebind s.socket t.imp._sock_fd ∧ t.receiver =
        if ret = 0 ∧ param.is_to_recv_ ∧ param.is_detach_recv_ then (s.receiver.stop onWorker).start
        else s.receiver.stop onWorker)) := by
  unfold Link.init at h
  split at h
  · cases h
  rename_i hworker
  refine ⟨fun hw => ?_,?_⟩
  · by_contra hne
    exact hworker ⟨hw,hne⟩
  dsimp only at h
  split at h
  · rename_i hpudp
    cases h
    exact ⟨rfl,.inl ⟨hpudp,rfl,rfl⟩⟩
  · rename_i hpudp
    rw [Bool.not_eq_false] at hpudp
    cases h
    exact ⟨rfl,.inr ⟨hpudp,rfl,rfl⟩⟩

theorem refuse_eq_some {str : String} {answers : List Answer} {code : ℤ}
    (h : s.refuse code str answers = some (ret,t)) : ret = code ∧ t = s.setErrorMsg str := by
  unfold Link.refuse at h
  split at h
  · cases h
    exact ⟨rfl,rfl⟩
  · cases h

/-- A link that is not initialised sends nothing. -/
theorem send_refused (hs : s.imp.m_hasInited = false) {pdata : Option (List UInt8)} {timeout : Bool}
    {answers : List Answer} (h : s.send pdata timeout answers = some (ret,t)) :
    ret ≤ 0 ∧ ∃ str, t = s.setErrorMsg str := by
  unfold Link.send at h
  rw [if_pos hs] at h
  obtain ⟨rfl,ht⟩ := refuse_eq_some h
  exact ⟨by decide,_,ht⟩

theorem send_m_pUDP {pdata : Option (List UInt8)} {timeout : Bool} {answers : List Answer}
    (h : s.send pdata timeout answers = some (ret,t)) : t.imp.m_pUDP = s.imp.m_pUDP := by
  by_cases hs : s.imp.m_hasInited = false
  · obtain ⟨_,_,rfl⟩ := send_refused hs h
    rfl
  unfold Link.send at h
  rw [if_neg hs] at h
  split at h
  · obtain ⟨_,rfl⟩ := refuse_eq_some h
    rfl
  · obtain ⟨_,rfl⟩ := refuse_eq_some h
    rfl
  · obtain ⟨r,_,h⟩ := Option.map_eq_some_iff.mp h
    split at h
    · cases h
      rfl
    split at h
    · cases h
      rfl
    · cases h
      rfl

theorem inv_constructed (m_pUDP : Bool) : Inv (.constructed m_pUDP) := fun _ => ⟨rfl,rfl,rfl⟩

theorem Inv.setImp (hs : Inv s) {imp : UDPImp} (h : imp._sock_fd = s.imp._sock_fd)
    (hpudp : imp.m_pUDP = s.imp.m_pUDP) (hinit : imp.m_hasInited = s.imp.m_hasInited) :
    Inv (s.setImp imp h) := by
  intro ht
  obtain ⟨hfd,hinited,hreceiver⟩ := hs (hpudp.symm.trans ht)
  exact ⟨hfd,hinit.trans hinited,hreceiver⟩

/-- No socket is opened but in `init`. -/
theorem Inv.setSocket (hs : Inv s) {socket : State} (h : ∀ fd, socket._sock_fd = some fd →
    s.socket._sock_fd = some fd) : Inv (s.setSocket socket) := by
  intro ht
  obtain ⟨hfd,hinited,hreceiver⟩ := hs ht
  refine ⟨?_,hinited,hreceiver⟩
  rw [Option.eq_none_iff_forall_ne_some] at hfd ⊢
  exact fun fd hopen => hfd fd (h fd hopen)

theorem init_inv (hs : Inv s) (h : s.init inet_pton6 param os onWorker = some (ret,t)) : Inv t := by
  obtain ⟨_,himp,⟨hpudp,hsocket,hreceiver⟩ | ⟨hpudp,_⟩⟩ := init_cases h
  · rw [UDPImp.init_of_null hpudp] at himp
    obtain ⟨hfd,hinited,hnone⟩ := hs hpudp
    intro _
    refine ⟨hsocket ▸ hfd,?_,hreceiver ▸ hnone⟩
    rw [← (Prod.mk.inj himp).1]
    exact hinited
  · intro ht
    have hkept := (@UDPImp.init_frame inet_pton6 s.imp param os).1
    rw [himp, ht, hpudp] at hkept
    cases hkept

theorem shutdown_inv (hs : Inv s) (h : s.shutdown onWorker = some t) : Inv t := by
  unfold Link.shutdown at h
  split at h
  · cases h
  split at h
  · rename_i hpudp
    cases h
    intro ht
    have hnull : s.imp.m_pUDP = false := ht
    rw [hnull] at hpudp
    cases hpudp
  · cases h
    intro ht
    obtain ⟨hfd,_,hnone⟩ := hs ht
    refine ⟨hfd,rfl,?_⟩
    unfold Receiver.stop
    split
    · exact hnone
    · rfl

theorem step_inv {a : LinkAct} (hs : Inv s) (h : step inet_pton6 inet_ntop6 s a = some t) : Inv t := by
  cases a with
  | init param os onWorker =>
    obtain ⟨⟨ret,_⟩,hinit,rfl⟩ := Option.map_eq_some_iff.mp h
    exact init_inv hs hinit
  | shutdown onWorker => exact shutdown_inv hs h
  | send pdata timeout answers =>
    obtain ⟨⟨ret,_⟩,hsend,rfl⟩ := Option.map_eq_some_iff.mp h
    intro ht
    have hpudp : s.imp.m_pUDP = false := (send_m_pUDP hsend).symm.trans ht
    obtain ⟨hfd,hinited,hnone⟩ := hs hpudp
    obtain ⟨_,str,rfl⟩ := send_refused hinited hsend
    exact ⟨hfd,hinited,hnone⟩
  | setOnRead cb =>
    cases h
    obtain ⟨_,_,himp⟩ := s.imp.setOnRead_frame cb
    exact hs.setImp _ (by rw [himp]) (by rw [himp])
  | onRead pdata addr =>
    obtain ⟨_,⟨⟩⟩ := Option.ite_none_right_eq_some.mp h
    obtain ⟨_,himp⟩ := s.imp.OnReadDataFunc_frame inet_ntop6 pdata addr
    exact hs.setImp _ (by rw [himp]) (by rw [himp])
  | recvWorkerThread =>
    obtain ⟨_,⟨⟩⟩ := Option.ite_none_right_eq_some.mp h
    obtain ⟨_,himp⟩ := s.imp.recvWorkerThread_frame
    exact hs.setImp _ (by rw [himp]) (by rw [himp])
  | leave =>
    obtain ⟨hrunning,⟨⟩⟩ := Option.ite_none_right_eq_some.mp h
    intro ht
    have hnone := (hs ht).2.2
    rw [hrunning] at hnone
    cases hnone
  | onWriteAble answers =>
    obtain ⟨⟨ok,socket⟩,hflush,rfl⟩ := Option.map_eq_some_iff.mp h
    exact hs.setSocket (onWriteAble_flushed (spent_eq_some hflush)).fd
  | emitErr =>
    cases h
    exact hs.setSocket nofun

theorem exec_inv {m_pUDP : Bool} {as : List LinkAct}
    (h : exec (step inet_pton6 inet_ntop6) (.constructed m_pUDP) as = some s) : Inv s :=
  exec_preserves (fun _ _ _ hs ht => step_inv hs ht) h (inv_constructed m_pUDP)

/-- What `UDPLink` makes of an `init` by the application, for a link in the same state. -/
theorem init_initSocket {I : Type*} {l : UDPLink I} (hl : l.imp = s.imp) (hpudp : s.imp.m_pUDP = true)
    (h : s.init inet_pton6 param os false = some (ret,t)) :
    (l.initSocket inet_pton6 param os).imp = t.imp ∧
      ((l.initSocket inet_pton6 param os).joined = true ↔ t.receiver = .none) := by
  obtain ⟨_,himp,⟨hnull,_⟩ | ⟨_,_,hreceiver⟩⟩ := init_cases h
  · rw [hpudp] at hnull
    cases hnull
  rw [hreceiver, UDPLink.initSocket, hl, himp]
  by_cases hret : ret = 0
  · by_cases hdetach : param.is_to_recv_ = true ∧ param.is_detach_recv_ = true
    · simp [hret, hdetach, UDPLink.joined, Receiver.stop, Receiver.start]
    · simp [hret, hdetach, UDPLink.joined, Receiver.stop]
  · simp [hret, UDPLink.joined, Receiver.stop]

/-- Every exit of `init` behind the bind keeps the socket, and the worker is stopped before any of them. -/
theorem init_failed (hpudp : s.imp.m_pUDP = true)
    (h : s.init inet_pton6 param os onWorker = some (ret,t)) (hret : ret ≠ 0) :
    t.imp.m_hasInited = false ∧ (t.socket._sock_fd = none ↔ os.bindUdpSock = -1) ∧
      (t.receiver ≠ .running ↔ onWorker = false) := by
  obtain ⟨hworker,himp,⟨hnull,_⟩ | ⟨_,_,hreceiver⟩⟩ := init_cases h
  · rw [hpudp] at hnull
    cases hnull
  rw [UDPImp.init_of_socket hpudp] at himp
  have hfailed := @UDPImp.initSocket_failed inet_pton6 { s.imp with m_udpIntParam := param } os
    (by rw [himp]; exact hret)
  rw [himp] at hfailed
  refine ⟨hfailed.1,t.closed_iff.trans hfailed.2,?_⟩
  rw [hreceiver, if_neg fun hc => hret hc.1]
  cases onWorker with
  | true => simp [Receiver.stop, hworker rfl]
  | false => simp [Receiver.stop]

/-- In every reachable state a failed `init` leaves the link as after `shutdown` just when it had no
`Socket`, or nothing was bound and the caller was not the worker. -/
theorem failed_init_released_iff {m_pUDP : Bool} {as : List LinkAct}
    (hs : exec (step inet_pton6 inet_ntop6) (.constructed m_pUDP) as = some s)
    (h : s.init inet_pton6 param os onWorker = some (ret,t)) (hret : ret ≠ 0) :
    Released t ↔ s.imp.m_pUDP = false ∨ (os.bindUdpSock = -1 ∧ onWorker = false) := by
  have hsilent (hinited : t.imp.m_hasInited = false) : ∀ pdata timeout answers ret u,
      t.send pdata timeout answers = some (ret,u) → ret ≤ 0 ∧ u.socket = t.socket := by
    intro pdata timeout answers ret u hsend
    obtain ⟨hle,str,rfl⟩ := send_refused hinited hsend
    exact ⟨hle,rfl⟩
  cases hpudp : s.imp.m_pUDP with
  | false =>
    have ht : Inv t := init_inv (exec_inv hs) h
    have htpudp : t.imp.m_pUDP = false := by
      have hkept := (@UDPImp.init_frame inet_pton6 s.imp param os).1
      rw [(init_cases h).2.1] at hkept
      exact hkept.trans hpudp
    obtain ⟨hfd,hinited,hnone⟩ := ht htpudp
    refine iff_of_true ⟨hfd,hinited,?_,hsilent hinited⟩ (.inl rfl)
    rw [hnone]
    decide
  | true =>
    obtain ⟨hinited,hclosed,halone⟩ := init_failed hpudp h hret
    rw [or_iff_right (by decide), ← hclosed, ← halone]
    constructor
    · intro hr
      exact ⟨hr.closed,hr.alone⟩
    · rintro ⟨hfd,hrun⟩
      exact ⟨hfd,hinited,hrun,hsilent hinited⟩

/-- The port is taken. -/
theorem failed_init_released_bind : ∃ t, (Link.constructed true).init (fun _ => none)
      ⟨.CT_UNI,[],[],5000,true,true⟩ ⟨-1,0,0,0,0,0,false,0⟩ false = some (1,t) ∧ Released t := by
  have hinit : ∃ t, (Link.constructed true).init (fun _ => none) ⟨.CT_UNI,[],[],5000,true,true⟩
      ⟨-1,0,0,0,0,0,false,0⟩ false = some (1,t) := ⟨_,rfl⟩
  have hs : exec (step (fun _ => none) fun _ => []) (.constructed true) [] = some (.constructed true) := rfl
  obtain ⟨t,ht⟩ := hinit
  exact ⟨t,ht,(failed_init_released_iff hs ht (by decide)).mpr (.inr ⟨rfl,rfl⟩)⟩

/-- A group that cannot be joined: `init` returns 3 with the socket bound. And a callback of the worker
that calls `init` goes on after the failure. -/
theorem failed_init_unreleased :
    (∃ t, (Link.constructed true).init (fun _ => none) ⟨.CT_MULTI,[],[],5000,true,false⟩
      ⟨3,0,0,0,0,-1,false,0⟩ false = some (3,t) ∧ ¬ Released t) ∧
    ∃ s, exec (step (fun _ => none) fun _ => []) (.constructed true)
        [.setOnRead true,.init ⟨.CT_UNI,[],[],5000,true,true⟩ UDPImp.allAnswered false,
          .onRead [7] fun _ => 0,.recvWorkerThread] = some s ∧
      ∃ t, s.init (fun _ => none) ⟨.CT_UNI,[],[],5000,true,true⟩ ⟨-1,0,0,0,0,0,false,0⟩ true = some (1,t) ∧
        ¬ Released t := by
  constructor
  · refine ⟨_,rfl,?_⟩
    intro hr
    cases hr.closed
  · refine ⟨_,rfl,_,rfl,?_⟩
    intro hr
    exact hr.alone rfl

end UDPFailedInit
end OctCommu.Communcation
