import OctCommu.Communcation.UDPInitSound
import OctCommu.Communcation.UDPSteps

/-! # The lives of a UDP link

Every `init` begins another life of the object. It may come from the callback on
the worker: the pool cannot join the thread that asks for it, the exception is
caught, and that thread lives on. A callback on the poller thread that calls
`init` or `shutdown` is one more thread of the application.
-/
namespace OctCommu.Communcation
open Memory Util Network.SockUtil Thread Runs
variable {I : Type*} {inet_pton6 : Text → Option (Vector UInt8 16)}
  {inet_ntop6 : List UInt8 → Text}

/-! ### What the calls leave alone -/

namespace UDPImp

theorem toSockAddress_frame (u : UDPImp) : ∃ v6 len addr4 addr6 sendAddr msg,
    (toSockAddress inet_pton6 u).1 = { u with
      m_isIPV6 := v6
      m_sockAddrLen := len
      ipv4_ := addr4
      ipv6_ := addr6
      m_pSendAddr := sendAddr
      m_errorMsg := msg } := by
  unfold toSockAddress
  dsimp only
  split
  · dsimp only
    split
    · exact ⟨_,_,_,_,_,_,rfl⟩
    · exact ⟨_,_,_,_,_,_,rfl⟩
  · exact ⟨_,_,_,_,_,_,rfl⟩

/-- The socket object and the queued datagrams stay whatever the exit is. -/
theorem initSocket_frame (u : UDPImp) (os : OsAnswers) :
    (initSocket inet_pton6 u os).1.m_pUDP = u.m_pUDP ∧
      (initSocket inet_pton6 u os).1.block_queue_recv_buf_ = u.block_queue_recv_buf_ := by
  have hs : (toSockAddress inet_pton6 u.shutdown).1.m_pUDP = u.m_pUDP ∧
      (toSockAddress inet_pton6 u.shutdown).1.block_queue_recv_buf_ = u.block_queue_recv_buf_ := by
    obtain ⟨_,_,_,_,_,_,h⟩ := @toSockAddress_frame inet_pton6 u.shutdown
    rw [h]
    exact ⟨rfl,rfl⟩
  unfold initSocket
  generalize (toSockAddress inet_pton6 u.shutdown).1 = s at hs ⊢
  obtain ⟨_,hbind⟩ := s.bindSock_eq os
  obtain ⟨_,hcast⟩ := (s.bindSock os).1.initCast_eq os
  have hc : ((s.bindSock os).1.initCast os).1.m_pUDP = u.m_pUDP ∧
      ((s.bindSock os).1.initCast os).1.block_queue_recv_buf_ = u.block_queue_recv_buf_ := by
    rw [hcast, hbind]
    exact hs
  dsimp only
  split
  · rw [hbind]
    exact hs
  split
  · exact hc
  generalize ((s.bindSock os).1.initCast os).1 = c at hc ⊢
  have ha : (if c.m_pUDP = true then c.setAttach os else (c,0)).1.m_pUDP = u.m_pUDP ∧
      (if c.m_pUDP = true then c.setAttach os else (c,0)).1.block_queue_recv_buf_ =
        u.block_queue_recv_buf_ := by
    split
    · exact hc
    · exact hc
  generalize (if c.m_pUDP = true then c.setAttach os else (c,0)) = a at ha ⊢
  split
  · exact ha
  dsimp only
  split
  · exact ha
  · exact ha

theorem init_of_null {u : UDPImp} (hu : u.m_pUDP = false) (param : UDPInit) (os : OsAnswers) :
    u.init inet_pton6 param os =
      (u.setErrorMsg "Failed to initialze, it cannot create socket(system error)",-1) := by
  simp [init, hu]

theorem init_of_socket {u : UDPImp} (hu : u.m_pUDP = true) (param : UDPInit) (os : OsAnswers) :
    u.init inet_pton6 param os = initSocket inet_pton6 { u with m_udpIntParam := param } os := by
  rw [init, if_pos hu]

theorem init_frame (u : UDPImp) (param : UDPInit) (os : OsAnswers) :
    (u.init inet_pton6 param os).1.m_pUDP = u.m_pUDP ∧
      (u.init inet_pton6 param os).1.block_queue_recv_buf_ = u.block_queue_recv_buf_ := by
  cases hu : u.m_pUDP with
  | true =>
    rw [init_of_socket hu, (initSocket_frame _ os).1, (initSocket_frame _ os).2]
    exact ⟨hu,rfl⟩
  | false =>
    rw [init_of_null hu]
    exact ⟨hu,rfl⟩

theorem OnReadDataFunc_frame (inet_ntop6 : List UInt8 → Text) (u : UDPImp) (pdata : List UInt8)
    (addr : ℕ → UInt8) : ∃ queue,
      (u.OnReadDataFunc inet_ntop6 pdata addr).1 = { u with block_queue_recv_buf_ := queue } := by
  unfold OnReadDataFunc
  split
  · dsimp only
    split
    · exact ⟨_,rfl⟩
    · exact ⟨_,rfl⟩
  · exact ⟨_,rfl⟩

theorem setOnRead_frame (u : UDPImp) (cb : Bool) : ∃ set msg,
    (u.setOnRead cb).1 = { u with m_recvDataFunc := set, m_errorMsg := msg } := by
  cases cb with
  | true => exact ⟨_,_,rfl⟩
  | false => exact ⟨_,_,rfl⟩

end UDPImp

/-! ### Calls of the callback -/

/-- A step of the link, or a whole call that the callback on the worker makes. -/
inductive LifeAct (I : Type*) where
  | act (a : UDPAct I)
  | callbackInit (param : UDPInit) (os : OsAnswers)
  | callbackShutdown

namespace UDPLink

/-- `push_exit` has posted before `join_all` throws. -/
def callbackShutdown (s : UDPLink I) : UDPLink I :=
  { s with imp := s.imp.shutdown, tasks := s.tasks.post }

/-- `start` finds the thread in its group and makes no other. -/
def callbackInit (inet_pton6 : Text → Option (Vector UInt8 16)) (s : UDPLink I) (param : UDPInit)
    (os : OsAnswers) : UDPLink I :=
  let r := s.imp.init inet_pton6 param os
  let t := { s with imp := r.1, tasks := s.tasks.post }
  if r.2 = 0 then { t with
    _on_read := s._on_read || param.is_to_recv_
    inits := s.inits ++ [param]
    arrived := []
    calls := [] }
  else t

variable [DecidableEq I]

/-- The call waits for `m_send_mutex`, and for nobody once it has that. -/
def stepLife (inet_pton6 : Text → Option (Vector UInt8 16)) (inet_ntop6 : List UInt8 → Text)
    (s : UDPLink I) : LifeAct I → Option (UDPLink I)
  | .act a => step inet_pton6 inet_ntop6 s a
  | .callbackInit param os =>
    if s.worker = some .calling ∧ s.m_send_mutex = none then some (s.callbackInit inet_pton6 param os)
    else none
  | .callbackShutdown =>
    if s.worker = some .calling ∧ s.m_send_mutex = none then some s.callbackShutdown else none

omit [DecidableEq I] in
theorem callbackInit_frame (s : UDPLink I) (param : UDPInit) (os : OsAnswers) :
    ∃ on_read inits arrived calls, s.callbackInit inet_pton6 param os = { s with
      imp := (s.imp.init inet_pton6 param os).1
      _on_read := on_read
      tasks := s.tasks.post
      inits := inits
      arrived := arrived
      calls := calls } := by
  unfold callbackInit
  dsimp only
  split
  · exact ⟨_,_,_,_,rfl⟩
  · exact ⟨_,_,_,_,rfl⟩

/-! ### Every run keeps the posts -/

omit [DecidableEq I] in
/-- One more post does no harm. -/
theorem Held.post {s : UDPLink I} (h : s.Held) : Held { s with tasks := s.tasks.post } :=
  ⟨h.holder,h.spare.trans (by simp only [TaskQueue.post, taking, posting]; omega)⟩

theorem stepLife_held {s t : UDPLink I} {l : LifeAct I} (h : s.Held)
    (ht : stepLife inet_pton6 inet_ntop6 s l = some t) : t.Held := by
  cases l with
  | act a => exact step_held h ht
  | callbackInit param os =>
    obtain ⟨_,⟨⟩⟩ := Option.ite_none_right_eq_some.mp ht
    obtain ⟨_,_,_,_,he⟩ := @callbackInit_frame _ inet_pton6 s param os
    rw [he]
    exact ⟨h.post.holder,h.post.spare⟩
  | callbackShutdown =>
    obtain ⟨_,⟨⟩⟩ := Option.ite_none_right_eq_some.mp ht
    exact ⟨h.post.holder,h.post.spare⟩

/-! ### What earlier lives leave behind -/

/-- The read handler stays bound, and a worker lives only in a link that had one bound. -/
structure Recorded (s : UDPLink I) : Prop where
  handler : s._on_read = true ↔ ∃ q ∈ s.inits, q.is_to_recv_ = true
  bound : s.worker ≠ none → s._on_read = true
  chunks : ∀ fb ∈ s.imp.block_queue_recv_buf_.queue_, fb.buf.length ≠ 0

omit [DecidableEq I] in
theorem recorded_fresh : (fresh : UDPLink I).Recorded :=
  ⟨by simp [fresh],fun h => absurd rfl h,by simp [fresh, UDPImp.fresh, BlockingQueue.fresh]⟩

end UDPLink

/-- A copy of a datagram has its length. -/
theorem RecvBuffer.length_fill {pdata : List UInt8} (hle : pdata.length ≤ maxDatagram)
    (addr : ℕ → UInt8) (flag : Bool) :
    (RecvBuffer.fill inet_ntop6 pdata addr flag).buf.length = pdata.length := by
  have hlt : pdata.length < MAX_RECV_BUF_LEN := Nat.lt_of_le_of_lt hle (by decide)
  rw [(RecvBuffer.sane_fill inet_ntop6 pdata addr flag).length_eq, RecvBuffer.contents_fill, if_pos hlt]

namespace UDPImp

/-- What `OnReadDataFunc` queues is no shorter than what it was given. -/
theorem OnReadDataFunc_chunks {u : UDPImp} {pdata : List UInt8} (hpos : 0 < pdata.length)
    (hle : pdata.length ≤ maxDatagram) (addr : ℕ → UInt8)
    (h : ∀ fb ∈ u.block_queue_recv_buf_.queue_, fb.buf.length ≠ 0) :
    ∀ fb ∈ (u.OnReadDataFunc inet_ntop6 pdata addr).1.block_queue_recv_buf_.queue_,
      fb.buf.length ≠ 0 := by
  unfold OnReadDataFunc
  split
  · dsimp only
    split
    · intro fb hfb
      rw [BlockingQueue.queue_put] at hfb
      rcases List.mem_append.mp hfb with hold | hnew
      · exact h fb (List.mem_of_mem_drop hold)
      · rw [List.mem_singleton.mp hnew, recvBuf, RecvBuffer.length_fill hle]
        omega
    · exact h
  · exact h

/-- A run of the worker takes the front of the queue. -/
theorem recvWorkerThread_fst (u : UDPImp) : u.recvWorkerThread.1 = { u with
    block_queue_recv_buf_ := ⟨u.block_queue_recv_buf_.queue_.tail⟩ } := by
  unfold recvWorkerThread
  rw [BlockingQueue.take_eq]
  dsimp only
  split
  · exact rfl
  · split <;> exact rfl

theorem recvWorkerThread_frame (u : UDPImp) : ∃ queue,
    u.recvWorkerThread.1 = { u with block_queue_recv_buf_ := queue } :=
  ⟨_,u.recvWorkerThread_fst⟩

end UDPImp

namespace UDPLink
variable [DecidableEq I]

omit [DecidableEq I] in
theorem Recorded.read {s : UDPLink I} (h : s.Recorded) {pdata : List UInt8} (hpos : 0 < pdata.length)
    (hle : pdata.length ≤ maxDatagram) (addr : ℕ → UInt8) :
    (s.read inet_ntop6 pdata addr).Recorded := by
  obtain ⟨hhandler,hbound,hchunks⟩ := h
  have hread := @UDPImp.OnReadDataFunc_chunks inet_ntop6 s.imp pdata hpos hle addr hchunks
  unfold UDPLink.read
  split <;> dsimp only <;> split
  · exact ⟨hhandler,hbound,hread⟩
  · exact ⟨hhandler,hbound,hchunks⟩
  · exact ⟨hhandler,hbound,hread⟩
  · exact ⟨hhandler,hbound,hchunks⟩

theorem Recorded.finish {s : UDPLink I} (h : s.Recorded) (i : I) (c : UDPCall) :
    (s.finish inet_pton6 i c).Recorded := by
  obtain ⟨hhandler,hbound,hchunks⟩ := h
  cases c with
  | init param os =>
    have hq := (@UDPImp.init_frame inet_pton6 s.imp param os).2
    simp only [UDPLink.finish, initSocket]
    split
    · refine ⟨?_,?_,by rw [hq]; exact hchunks⟩
      · simp only [Bool.or_eq_true, List.mem_append, List.mem_singleton, or_and_right, exists_or,
          exists_eq_left, hhandler]
      · dsimp only
        split
        · rename_i hp
          intro _
          rw [hp.1, Bool.or_true]
        · exact fun hne => absurd rfl hne
    · exact ⟨hhandler,fun hne => absurd rfl hne,by rw [hq]; exact hchunks⟩
  | shutdown => exact ⟨hhandler,fun hne => absurd rfl hne,hchunks⟩

theorem step_recorded {s t : UDPLink I} {l : UDPAct I} (h : s.Recorded)
    (ht : step inet_pton6 inet_ntop6 s l = some t) : t.Recorded := by
  have hs := h
  obtain ⟨hhandler,hbound,hchunks⟩ := h
  cases steps_of_step ht with
  | join_all i c _ _ => exact hs.finish i c
  | onRead pdata addr _ _ _ hpos hle => exact hs.read hpos hle addr
  | lock i c _ _ => cases c <;> exact ⟨hhandler,hbound,hchunks⟩
  | setOnRead cb _ =>
    refine ⟨hhandler,hbound,?_⟩
    obtain ⟨_,_,he⟩ := s.imp.setOnRead_frame cb
    rw [he]
    exact hchunks
  | recvWorkerThread hw =>
    refine ⟨hhandler,fun _ => hbound (by rw [hw]; nofun),?_⟩
    rw [UDPImp.recvWorkerThread_fst]
    exact fun fb hfb => hchunks fb (List.mem_of_mem_tail hfb)
  | wait hw _ | exit hw _ | take _ hw _ | callbackSend hw | sent hw _ | callbackReturn hw =>
    exact ⟨hhandler,fun _ => hbound (by rw [hw]; nofun),hchunks⟩
  | call | send | lockSend | push_exit | emplace_back | post => exact ⟨hhandler,hbound,hchunks⟩

theorem stepLife_recorded {s t : UDPLink I} {l : LifeAct I} (h : s.Recorded)
    (ht : stepLife inet_pton6 inet_ntop6 s l = some t) : t.Recorded := by
  obtain ⟨hhandler,hbound,hchunks⟩ := h
  cases l with
  | act a => exact step_recorded ⟨hhandler,hbound,hchunks⟩ ht
  | callbackInit param os =>
    obtain ⟨_,⟨⟩⟩ := Option.ite_none_right_eq_some.mp ht
    have hq := (@UDPImp.init_frame inet_pton6 s.imp param os).2
    unfold callbackInit
    dsimp only
    split
    · refine ⟨?_,fun hne => by rw [hbound hne, Bool.true_or],by rw [hq]; exact hchunks⟩
      simp only [Bool.or_eq_true, List.mem_append, List.mem_singleton, or_and_right, exists_or,
        exists_eq_left, hhandler]
    · exact ⟨hhandler,hbound,by rw [hq]; exact hchunks⟩
  | callbackShutdown =>
    obtain ⟨_,⟨⟩⟩ := Option.ite_none_right_eq_some.mp ht
    exact ⟨hhandler,hbound,hchunks⟩

end UDPLink
end OctCommu.Communcation
