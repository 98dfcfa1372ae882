import OctCommu.Communcation.UDPLives

/-! # How things go on after an `init` of a UDP link

What a later datagram and a later run of the worker bring, and where such runs
can lead: the poller thread ends its `async`, the worker takes one more task or
leaves.
-/
namespace OctCommu.Communcation
open Memory Util Network.SockUtil Thread Runs
variable {I : Type*} {inet_pton6 : Text → Option (Vector UInt8 16)}
  {inet_ntop6 : List UInt8 → Text}

/-- The calls these parameters ask for: one for each datagram, on the worker if detached. -/
def UDPInit.asked (p : UDPInit) (arrived : List (List UInt8)) : List (Bool × List UInt8) :=
  if p.is_to_recv_ then arrived.map (p.is_detach_recv_,·) else []

/-- What goes on without a call of `init`, `shutdown` or `send` by the application. -/
def UDPAct.isLater : UDPAct I → Bool
  | .call .. | .send _ | .lock _ | .push_exit _ | .join_all _ => false
  | _ => true

/-- A step of the poller thread or of the worker that hands on what was read. -/
def UDPAct.isReceiving : UDPAct I → Bool
  | .emplace_back | .post | .wait | .get_task | .recvWorkerThread | .sent | .callbackReturn => true
  | _ => false

namespace UDPImp

/-- The members that `init` leaves for the read path. -/
structure Configured (p : UDPInit) (u : UDPImp) : Prop where
  param : u.m_udpIntParam = p
  open_ : u._sock_fd = true
  enabled : u._enable_recv = true

theorem init_configured {u : UDPImp} {p : UDPInit} {os : OsAnswers}
    (h : (u.init inet_pton6 p os).2 = 0) : (u.init inet_pton6 p os).1.Configured p := by
  unfold init at h ⊢
  split at h
  · rename_i hu
    rw [if_pos hu]
    have hu' : ({ u with m_udpIntParam := p } : UDPImp).m_pUDP = true := hu
    obtain ⟨_,_,_,hsame,hopen,hrecv⟩ := initSocket_zero hu' h
    exact ⟨hsame.param.trans (toSockAddress_param _).1,hopen,hrecv⟩
  · simp at h

/-- A datagram reaches the callback at once, and whole, or is queued. -/
theorem OnReadDataFunc_cases (u : UDPImp) (pdata : List UInt8) (addr : ℕ → UInt8)
    (hle : pdata.length ≤ maxDatagram) :
    (u.m_recvDataFunc = false ∧ u.OnReadDataFunc inet_ntop6 pdata addr = (u,[])) ∨
    (u.m_recvDataFunc = true ∧ u.m_udpIntParam.is_detach_recv_ = true ∧ ∃ queue,
      u.OnReadDataFunc inet_ntop6 pdata addr = ({ u with block_queue_recv_buf_ := queue },[.async])) ∨
    (u.m_recvDataFunc = true ∧ u.m_udpIntParam.is_detach_recv_ = false ∧ ∃ c : RecvCall,
      c.pdata = pdata ∧ u.OnReadDataFunc inet_ntop6 pdata addr = (u,[.called c])) := by
  unfold OnReadDataFunc
  cases hcb : u.m_recvDataFunc with
  | false => exact .inl ⟨rfl,rfl⟩
  | true =>
    cases hd : u.m_udpIntParam.is_detach_recv_ with
    | true => exact .inr (.inl ⟨rfl,rfl,_,rfl⟩)
    | false =>
      refine .inr (.inr ⟨rfl,rfl,_,?_,rfl⟩)
      have hwhole := (RecvBuffer.pdata_call
        (RecvBuffer.sane_fill inet_ntop6 pdata addr u.m_isIPV6)).1
      have hlt : pdata.length < MAX_RECV_BUF_LEN := Nat.lt_of_le_of_lt hle (by decide)
      rw [RecvBuffer.contents_fill, if_pos hlt] at hwhole
      exact hwhole

theorem recvWorkerThread_empty {u : UDPImp} (h : u.block_queue_recv_buf_.queue_ = []) :
    u.recvWorkerThread.2 = [] := by
  have hlen : (default : RecvBuffer).buf.length = 0 := rfl
  simp [recvWorkerThread, BlockingQueue.take_eq, h, hlen]

/-- With a callback the oldest datagram is handed over. -/
theorem recvWorkerThread_front {u : UDPImp} {fb : RecvBuffer} {rest : List RecvBuffer}
    (hcb : u.m_recvDataFunc = true) (hq : u.block_queue_recv_buf_.queue_ = fb :: rest)
    (hlen : fb.buf.length ≠ 0) : u.recvWorkerThread.2 = [.called (fb.call fb.buf.currentLen)] := by
  simp [recvWorkerThread, BlockingQueue.take_eq, hq, hlen, hcb]

end UDPImp

namespace UDPLink

/-- The poller thread and the worker have handed on all they had, as far as they ever will. -/
def AtRest [DecidableEq I] (inet_pton6 : Text → Option (Vector UInt8 16))
    (inet_ntop6 : List UInt8 → Text) (s : UDPLink I) : Prop :=
  ∀ l : UDPAct I, l.isReceiving = true → step inet_pton6 inet_ntop6 s l = none

/-- Since the `init` with `p` the callback was called as `p` asks, which for a detached link is
said of moments of rest with no more datagrams than its queue is made for. -/
structure AsAsked [DecidableEq I] (inet_pton6 : Text → Option (Vector UInt8 16))
    (inet_ntop6 : List UInt8 → Text) (p : UDPInit) (s : UDPLink I) : Prop where
  direct : p.is_detach_recv_ = false → s.calls = p.asked s.arrived
  detached : p.is_detach_recv_ = true → s.AtRest inet_pton6 inet_ntop6 → s.arrived.length ≤ 128 →
    s.calls = p.asked s.arrived

/-- The worker is on its way to no datagram that is queued already. -/
def Quiet (s : UDPLink I) : Prop :=
  s.imp.block_queue_recv_buf_.queue_ = [] ∨
    s.tasks._queue = [] ∧ s.reader ≠ .emplacing ∧ s.worker ≠ some .running

variable [DecidableEq I]

/-! ### Parameters that do not depend on the past -/

omit [DecidableEq I] in
/-- A link that is not detached queues nothing. -/
theorem read_direct {s : UDPLink I} {pdata : List UInt8} (hr : s.reader = .idle)
    (hd : s.imp.m_udpIntParam.is_detach_recv_ = false) (hle : pdata.length ≤ maxDatagram)
    (addr : ℕ → UInt8) : (s.read inet_ntop6 pdata addr).imp = s.imp ∧
      (s.read inet_ntop6 pdata addr).tasks = s.tasks ∧
      (s.read inet_ntop6 pdata addr).reader = .idle := by
  obtain ⟨hcb,he⟩ | ⟨_,hdet,_⟩ | ⟨hcb,_,c,_,he⟩ :=
    @UDPImp.OnReadDataFunc_cases inet_ntop6 s.imp pdata addr hle
  · cases hon : s._on_read with
    | false => simp [read, hcb, hon, hr]
    | true => simp [read, hcb, hon, he, asyncCount]
  · rw [hd] at hdet
    cases hdet
  · cases hon : s._on_read with
    | false => simp [read, hcb, hon, hr]
    | true => simp [read, hcb, hon, he, asyncCount]

omit [DecidableEq I] in
/-- What is heard of a datagram, and what is left as it was. -/
theorem read_spec {s : UDPLink I} {p : UDPInit} {pdata : List UInt8} (h : s.imp.Configured p)
    (hle : pdata.length ≤ maxDatagram) (addr : ℕ → UInt8) :
    (s.read inet_ntop6 pdata addr).imp.Configured p ∧
      (s.read inet_ntop6 pdata addr).worker = s.worker ∧
      (s.read inet_ntop6 pdata addr)._on_read = s._on_read ∧
      (s.read inet_ntop6 pdata addr).arrived =
        s.arrived ++ (if s.imp.m_recvDataFunc = true then [pdata] else []) ∧
      (s.read inet_ntop6 pdata addr).calls = s.calls ++
        (if s._on_read = true ∧ s.imp.m_recvDataFunc = true ∧ p.is_detach_recv_ = false then
          [(false,pdata)] else []) := by
  have hd := h.param
  obtain ⟨hcb,he⟩ | ⟨hcb,hdet,queue,he⟩ | ⟨hcb,hdet,c,hc,he⟩ :=
    @UDPImp.OnReadDataFunc_cases inet_ntop6 s.imp pdata addr hle
  · cases hon : s._on_read with
    | false => simp [read, hcb, hon, h]
    | true => simp [read, hcb, hon, he, h, calledBytes]
  · rw [hd] at hdet
    cases hon : s._on_read with
    | false => simp [read, hcb, hon, h]
    | true =>
      have hread : s.read inet_ntop6 pdata addr = { s with
          imp := { s.imp with block_queue_recv_buf_ := queue }
          reader := .emplacing
          arrived := s.arrived ++ [pdata]
          calls := s.calls } := by
        simp [read, hcb, hon, he, asyncCount, calledBytes]
      rw [hread]
      exact ⟨⟨hd,h.open_,h.enabled⟩,rfl,hon,by rw [if_pos hcb],by simp [hdet]⟩
  · rw [hd] at hdet
    cases hon : s._on_read with
    | false => simp [read, hcb, hon, h]
    | true => simp [read, hcb, hon, he, h, hdet, hc, calledBytes]

/-- A link that hears what `p` asks for, and has no worker or one that brings nothing. -/
structure Obedient (p : UDPInit) (s : UDPLink I) : Prop where
  conf : s.imp.Configured p
  idle : s.worker = none ∨ p.is_detach_recv_ = false ∧ s.Quiet
  handler : p.is_detach_recv_ = false → s._on_read = p.is_to_recv_
  apart : ¬ (p.is_to_recv_ = true ∧ p.is_detach_recv_ = true)
  calls : s.calls = p.asked s.arrived

theorem Obedient.later {p : UDPInit} {s t : UDPLink I} {l : UDPAct I} (h : s.Obedient p)
    (hl : l.isLater = true) (ht : step inet_pton6 inet_ntop6 s l = some t) : t.Obedient p := by
  obtain ⟨hconf,hidle,hhandler,hapart,hcalls⟩ := h
  cases steps_of_step ht with
  | call | send | lockSend | lock | push_exit | join_all => cases hl
  | setOnRead cb _ =>
    obtain ⟨_,_,he⟩ := s.imp.setOnRead_frame cb
    rw [he]
    exact ⟨⟨hconf.param,hconf.open_,hconf.enabled⟩,hidle,hhandler,hapart,hcalls⟩
  | emplace_back hr =>
    refine ⟨hconf,hidle.imp_right fun ⟨hd,hq⟩ => ⟨hd,hq.imp_right ?_⟩,hhandler,hapart,hcalls⟩
    exact fun h => absurd hr h.2.1
  | post _ =>
    refine ⟨hconf,hidle.imp_right fun ⟨hd,hq⟩ => ⟨hd,hq.imp_right ?_⟩,hhandler,hapart,hcalls⟩
    exact fun h => ⟨h.1,nofun,h.2.2⟩
  | onRead pdata addr hr _ _ _ hle =>
    obtain ⟨hconf',hworker,hon,harrived,hcalls'⟩ :=
      @read_spec _ inet_ntop6 _ _ _ hconf hle addr
    have hidle' : (s.read inet_ntop6 pdata addr).worker = none ∨
        p.is_detach_recv_ = false ∧ (s.read inet_ntop6 pdata addr).Quiet := by
      refine hidle.imp hworker.trans fun ⟨hd,hq⟩ => ⟨hd,?_⟩
      obtain ⟨himp,htasks,hreader⟩ :=
        @read_direct _ inet_ntop6 _ _ hr (by rw [hconf.param, hd]) hle addr
      unfold Quiet at hq ⊢
      rw [himp, htasks, hreader, hworker]
      exact hq.imp_right fun h => ⟨h.1,nofun,h.2.2⟩
    refine ⟨hconf',hidle',fun hd => hon.trans (hhandler hd),hapart,?_⟩
    rw [hcalls', harrived, hcalls]
    cases hrecv : p.is_to_recv_ with
    | true =>
      have hd : p.is_detach_recv_ = false := Bool.eq_false_iff.mpr fun hd => hapart ⟨hrecv,hd⟩
      have honr := hhandler hd
      rw [hrecv] at honr
      split <;> simp_all [UDPInit.asked]
    | false =>
      cases hd : p.is_detach_recv_ with
      | true => simp [UDPInit.asked, hrecv]
      | false =>
        have honr := hhandler hd
        rw [hrecv] at honr
        simp [UDPInit.asked, hrecv, honr]
  | take _ hw hq =>
    obtain ⟨hd,hquiet⟩ := hidle.resolve_left (by rw [hw]; nofun)
    have hnil := hquiet.resolve_right fun h => by
      rw [h.1] at hq
      cases hq
    exact ⟨hconf,.inr ⟨hd,.inl hnil⟩,hhandler,hapart,hcalls⟩
  | recvWorkerThread hw =>
    -- the worker finds the queue empty
    obtain ⟨hd,hquiet⟩ := hidle.resolve_left (by rw [hw]; nofun)
    have hnil := hquiet.resolve_right fun h => h.2.2 hw
    have hnone := UDPImp.recvWorkerThread_empty hnil
    refine ⟨?_,.inr ⟨hd,.inl ?_⟩,hhandler,hapart,?_⟩
    · rw [UDPImp.recvWorkerThread_fst]
      exact ⟨hconf.param,hconf.open_,hconf.enabled⟩
    · rw [UDPImp.recvWorkerThread_fst, hnil]
      rfl
    · rw [hnone, hcalls]
      exact List.append_nil _
  | wait hw _ | exit hw _ | callbackSend hw | sent hw _ | callbackReturn hw =>
    obtain ⟨hd,hquiet⟩ := hidle.resolve_left (by rw [hw]; nofun)
    exact ⟨hconf,.inr ⟨hd,hquiet.imp_right fun h => ⟨h.1,h.2.1,nofun⟩⟩,hhandler,hapart,hcalls⟩

theorem Obedient.asAsked {p : UDPInit} {s : UDPLink I} (h : s.Obedient p) :
    s.AsAsked inet_pton6 inet_ntop6 p :=
  ⟨fun _ => h.calls,fun _ _ _ => h.calls⟩

/-- What `init` leaves when it returns 0. -/
theorem finish_init (s : UDPLink I) (i : I) {p : UDPInit} {os : OsAnswers}
    (h : (s.imp.init inet_pton6 p os).2 = 0) : s.finish inet_pton6 i (.init p os) = { s with
      imp := (s.imp.init inet_pton6 p os).1
      _on_read := s._on_read || p.is_to_recv_
      worker := if p.is_to_recv_ ∧ p.is_detach_recv_ then some .waiting else none
      m_send_mutex := none
      app := Function.update s.app i .idle
      inits := s.inits ++ [p]
      arrived := []
      calls := [] } := by
  simp [finish, initSocket, h]

/-! ### Parameters that do -/

/-- Nothing that counts was changed: the poller thread is free, no datagram came, and the link is
configured as before. -/
structure Kept (s t : UDPLink I) : Prop where
  reader : t.reader = .idle
  mutex : t.m_send_mutex = s.m_send_mutex
  handler : t._on_read = s._on_read
  arrived : t.arrived = s.arrived
  imp : ∃ queue, t.imp = { s.imp with block_queue_recv_buf_ := queue }

omit [DecidableEq I] in
theorem Kept.trans {s t u : UDPLink I} (h : s.Kept t) (h' : t.Kept u) : s.Kept u := by
  obtain ⟨q,hq⟩ := h.imp
  obtain ⟨q',hq'⟩ := h'.imp
  refine ⟨h'.reader,h'.mutex.trans h.mutex,h'.handler.trans h.handler,h'.arrived.trans h.arrived,q',?_⟩
  rw [hq', hq]

omit [DecidableEq I] in
theorem Kept.configured {s t : UDPLink I} {p : UDPInit} (h : s.Kept t) (hs : s.imp.Configured p) :
    t.imp.Configured p := by
  obtain ⟨q,hq⟩ := h.imp
  rw [hq]
  exact ⟨hs.param,hs.open_,hs.enabled⟩

/-- A run of these labels leads from `s` to `t`. -/
def Leads (inet_pton6 : Text → Option (Vector UInt8 16)) (inet_ntop6 : List UInt8 → Text)
    (s t : UDPLink I) : Prop :=
  ∃ labels : List (UDPAct I), (∀ l ∈ labels, l.isLater = true) ∧
    exec (step inet_pton6 inet_ntop6) s labels = some t

theorem Leads.refl (s : UDPLink I) : Leads inet_pton6 inet_ntop6 s s := ⟨[],by simp,rfl⟩

theorem Leads.step {s t u : UDPLink I} {l : UDPAct I} (hst : Steps inet_pton6 inet_ntop6 s l t)
    (hl : l.isLater = true) (h : Leads inet_pton6 inet_ntop6 t u) :
    Leads inet_pton6 inet_ntop6 s u := by
  obtain ⟨labels,hlater,hexec⟩ := h
  exact ⟨l :: labels,by simpa [hl] using hlater,exec_cons hst.step hexec⟩

theorem Leads.trans {s t u : UDPLink I} (h : Leads inet_pton6 inet_ntop6 s t)
    (h' : Leads inet_pton6 inet_ntop6 t u) : Leads inet_pton6 inet_ntop6 s u := by
  obtain ⟨as,ha,hs⟩ := h
  obtain ⟨bs,hb,ht⟩ := h'
  refine ⟨as ++ bs,?_,by rw [exec_append, hs, Option.bind_some, ht]⟩
  intro l hl
  rcases List.mem_append.mp hl with hl | hl
  · exact ha l hl
  · exact hb l hl

theorem Leads.held {s t : UDPLink I} (h : Leads inet_pton6 inet_ntop6 s t) (hs : s.Held) : t.Held := by
  obtain ⟨labels,_,hexec⟩ := h
  exact exec_preserves (fun _ _ _ hr ht => step_held hr ht) hexec hs

/-- What goes on only adds to what was called back. -/
theorem calls_of_later {s t : UDPLink I} {l : UDPAct I} (hl : l.isLater = true)
    (ht : step inet_pton6 inet_ntop6 s l = some t) : s.calls <+: t.calls := by
  cases steps_of_step ht with
  | call | send | lockSend | lock | push_exit | join_all => cases hl
  | onRead pdata addr =>
    unfold read
    split <;> dsimp only <;> split <;> simp
  | recvWorkerThread => exact List.prefix_append ..
  | setOnRead | emplace_back | post | wait | exit | take | callbackSend | sent | callbackReturn =>
    exact List.prefix_rfl

theorem Leads.calls {s t : UDPLink I} (h : Leads inet_pton6 inet_ntop6 s t) : s.calls <+: t.calls := by
  obtain ⟨labels,hlater,hexec⟩ := h
  have hrun : EveryState (UDPLink.step inet_pton6 inet_ntop6) (fun u => s.calls <+: u.calls) s labels :=
    (everyStep_of_label s hlater).preserves (fun _ _ _ hu hl ht => hu.trans (calls_of_later hl ht))
      List.prefix_rfl
  exact hrun.last hexec

/-- The poller thread ends an `async` it is in. -/
theorem reader_ends (s : UDPLink I) : ∃ t, Leads inet_pton6 inet_ntop6 s t ∧ s.Kept t ∧
    t.worker = s.worker ∧ t.calls = s.calls ∧ t.imp = s.imp ∧
    t.tasks._queue = s.tasks._queue ++ if s.reader = .emplacing then [()] else [] := by
  cases hr : s.reader with
  | idle => exact ⟨s,.refl s,⟨hr,rfl,rfl,rfl,_,rfl⟩,rfl,rfl,rfl,(List.append_nil _).symm⟩
  | emplacing =>
    exact ⟨_,.step (.emplace_back hr) rfl (.step (.post rfl) rfl (.refl _)),
      ⟨rfl,rfl,rfl,rfl,_,rfl⟩,rfl,rfl,rfl,rfl⟩
  | posting =>
    exact ⟨_,.step (.post hr) rfl (.refl _),⟨rfl,rfl,rfl,rfl,_,rfl⟩,rfl,rfl,rfl,
      (List.append_nil _).symm⟩

/-- The worker runs the next task. -/
theorem worker_turns {s : UDPLink I} {queue : List Unit} (hr : s.reader = .idle)
    (hw : s.worker = some .waiting) (hsem : s.tasks._sem ≠ 0) (hq : s.tasks._queue = () :: queue) :
    ∃ t, Leads inet_pton6 inet_ntop6 s t ∧ s.Kept t ∧ t.worker = some .waiting ∧
      t.tasks._queue = queue ∧
      t.calls = s.calls ++ (calledBytes s.imp.recvWorkerThread.2).map (true,·) := by
  have himp := s.imp.recvWorkerThread_fst
  -- a task without a callback ends at once
  by_cases hcalls : calledBytes s.imp.recvWorkerThread.2 = []
  · refine ⟨_,.step (.wait hw hsem) rfl (.step (.take queue rfl hq) rfl
      (.step (.recvWorkerThread rfl) rfl (.refl _))),⟨hr,rfl,rfl,rfl,_,himp⟩,?_,rfl,rfl⟩
    simp only [hcalls, if_true]
  · have hcalling : some (if calledBytes s.imp.recvWorkerThread.2 = [] then WorkerPc.waiting
        else WorkerPc.calling) = some .calling := by rw [if_neg hcalls]
    exact ⟨_,.step (.wait hw hsem) rfl (.step (.take queue rfl hq) rfl
      (.step (.recvWorkerThread rfl) rfl (.step (.callbackReturn hcalling) rfl (.refl _)))),
      ⟨hr,rfl,rfl,rfl,_,himp⟩,rfl,rfl,rfl⟩

omit [DecidableEq I] in
theorem Held.sem_ne_zero {s : UDPLink I} (hs : s.Held) (hr : s.reader = .idle)
    (hw : s.worker = some .waiting) : s.tasks._sem ≠ 0 := by
  have hcounts : s.alive = 1 ∧ s.taking = 0 ∧ s.posting = 0 := by
    simp [alive, joined, taking, posting, hw, hr]
  have hspare := hs.spare
  rw [hcounts.1, hcounts.2.1, hcounts.2.2] at hspare
  omega

/-- The spare post of the last `shutdown` sends the worker home behind the tasks it finds. -/
theorem worker_leaves {s : UDPLink I} (hs : s.Held) (hm : s.m_send_mutex = none)
    (hr : s.reader = .idle) (hw : s.worker = some .waiting) :
    ∃ t, Leads inet_pton6 inet_ntop6 s t ∧ s.Kept t ∧ t.worker = some .exited := by
  have hsem := hs.sem_ne_zero hr hw
  generalize hn : s.tasks._queue = queue
  induction queue generalizing s with
  | nil => exact ⟨_,.step (.wait hw hsem) rfl (.step (.exit rfl hn) rfl (.refl _)),⟨hr,rfl,rfl,rfl,_,rfl⟩,rfl⟩
  | cons u queue ih =>
    obtain ⟨t,hst,hkept,hwt,hqt,_⟩ :=
      @worker_turns _ inet_pton6 inet_ntop6 _ s queue hr hw hsem hn
    have hheld := hst.held hs
    obtain ⟨v,htv,hkept',hv⟩ := ih hheld (hkept.mutex.trans hm) hkept.reader hwt
      (hheld.sem_ne_zero hkept.reader hwt) hqt
    exact ⟨v,hst.trans htv,hkept.trans hkept',hv⟩

/-- A worker with a task hands the oldest datagram to the callback. -/
theorem worker_calls {s : UDPLink I} (hs : s.Held) (hr : s.reader = .idle)
    (hw : s.worker = some .waiting) (hcb : s.imp.m_recvDataFunc = true) (htask : s.tasks._queue ≠ [])
    (hq : s.imp.block_queue_recv_buf_.queue_ ≠ [])
    (hlen : ∀ fb ∈ s.imp.block_queue_recv_buf_.queue_, fb.buf.length ≠ 0) :
    ∃ t, Leads inet_pton6 inet_ntop6 s t ∧ s.Kept t ∧ t.worker = some .waiting ∧
      ∃ bytes, t.calls = s.calls ++ [(true,bytes)] := by
  obtain ⟨u,queue,hqueue⟩ := List.exists_cons_of_ne_nil htask
  obtain ⟨fb,rest,hrest⟩ := List.exists_cons_of_ne_nil hq
  obtain ⟨t,hst,hkept,hwt,_,hcalls⟩ :=
    @worker_turns _ inet_pton6 inet_ntop6 _ s queue hr hw (hs.sem_ne_zero hr hw) hqueue
  have hfb : fb.buf.length ≠ 0 := hlen fb (by rw [hrest]; exact List.mem_cons_self)
  rw [UDPImp.recvWorkerThread_front hcb hrest hfb] at hcalls
  exact ⟨t,hst,hkept,hwt,_,hcalls⟩

theorem atRest_of_exited {s : UDPLink I} (hr : s.reader = .idle) (hw : s.worker = some .exited) :
    s.AtRest inet_pton6 inet_ntop6 := by
  intro l hl
  cases l with
  | call | send | lock | push_exit | join_all | setOnRead | onRead | callbackSend => cases hl
  | emplace_back | post => simp [step, hr]
  | wait | get_task | recvWorkerThread | sent | callbackReturn => simp [step, hw]

/-- A datagram comes while a callback is set. -/
theorem datagram_comes {s : UDPLink I} {p : UDPInit} (hconf : s.imp.Configured p)
    (hr : s.reader = .idle) (hon : s._on_read = true) (hcb : s.imp.m_recvDataFunc = true) :
    ∃ t, Leads inet_pton6 inet_ntop6 s t ∧ t.reader = .idle ∧ t.worker = s.worker ∧
      t.arrived = s.arrived ++ [[7]] ∧
      t.calls = s.calls ++ (if p.is_detach_recv_ = false then [(false,[7])] else []) := by
  have hle : [7].length ≤ maxDatagram := by decide
  obtain ⟨_,hworker,_,harrived,hcalls⟩ := @read_spec I inet_ntop6 s p [7] hconf hle fun _ => 0
  rw [if_pos hcb] at harrived
  simp only [hon, hcb, true_and] at hcalls
  obtain ⟨t,ht,hkept,hwt,hct,_⟩ :=
    @reader_ends _ inet_pton6 inet_ntop6 _ (s.read inet_ntop6 [7] fun _ => 0)
  refine ⟨t,?_,hkept.reader,hwt.trans hworker,hkept.arrived.trans harrived,hct.trans hcalls⟩
  exact .step (.onRead [7] (fun _ => 0) hr hconf.open_ hconf.enabled (by decide) hle) rfl ht

/-- The same with a callback that is set before. -/
theorem callback_hears {s : UDPLink I} {p : UDPInit} (hconf : s.imp.Configured p)
    (hr : s.reader = .idle) (hin : s.inCallback = false) (hon : s._on_read = true) :
    ∃ t, Leads inet_pton6 inet_ntop6 s t ∧ t.reader = .idle ∧ t.worker = s.worker ∧
      t.arrived = s.arrived ++ [[7]] ∧
      t.calls = s.calls ++ (if p.is_detach_recv_ = false then [(false,[7])] else []) := by
  have hconf' : (s.imp.setOnRead true).1.Configured p := ⟨hconf.param,hconf.open_,hconf.enabled⟩
  obtain ⟨t,ht,hrt,hwt,harr,hcalls⟩ := @datagram_comes _ inet_pton6 inet_ntop6 _
    { s with imp := (s.imp.setOnRead true).1 } p hconf' hr hon rfl
  exact ⟨t,.step (.setOnRead true hin) rfl ht,hrt,hwt,harr,hcalls⟩

theorem asAsked_of_leads {s t : UDPLink I} {p : UDPInit} (h : Leads inet_pton6 inet_ntop6 s t)
    (hall : ∀ later, (∀ l ∈ later, UDPAct.isLater l = true) →
      EveryState (step inet_pton6 inet_ntop6) (AsAsked inet_pton6 inet_ntop6 p) s later) :
    t.AsAsked inet_pton6 inet_ntop6 p := by
  obtain ⟨labels,hlater,hexec⟩ := h
  exact (hall labels hlater).last hexec

/-- What holds however things go on holds from any later moment. -/
theorem later_of_leads {s t : UDPLink I} {p : UDPInit} (h : Leads inet_pton6 inet_ntop6 s t)
    (hall : ∀ later, (∀ l ∈ later, UDPAct.isLater l = true) →
      EveryState (step inet_pton6 inet_ntop6) (AsAsked inet_pton6 inet_ntop6 p) s later) :
    ∀ later, (∀ l ∈ later, UDPAct.isLater l = true) →
      EveryState (step inet_pton6 inet_ntop6) (AsAsked inet_pton6 inet_ntop6 p) t later := by
  intro later hlater
  apply everyState_iff.mpr
  intro bs u hbs hu
  refine asAsked_of_leads (h.trans ⟨bs,?_,hu⟩) hall
  exact fun l hl => hlater l (hbs.subset hl)

end UDPLink
end OctCommu.Communcation
