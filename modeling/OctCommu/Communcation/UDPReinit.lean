import OctCommu.Communcation.UDPLater

/-! # What earlier lives of a UDP link leave to the next one

After an `init` that returned 0 the callback should hear what its parameters ask
for, whatever came before. The socket keeps its read handler, the pool keeps the
post of every stop that found no worker, and a worker that calls `init` itself
keeps the datagrams of its own life.
-/
namespace OctCommu.Communcation
open Memory Util Network.SockUtil Thread Runs
variable {I : Type*} {inet_pton6 : Text → Option (Vector UInt8 16)}
  {inet_ntop6 : List UInt8 → Text}

/-- The parameters that work out whatever the earlier ones were, or after those. A detached link
that receives is not among them: its worker leaves before it has anything to do. -/
def UDPInit.Independent (p : UDPInit) (earlier : List UDPInit) : Prop :=
  if p.is_to_recv_ then p.is_detach_recv_ = false
  else p.is_detach_recv_ = true ∨ ∀ q ∈ earlier, q.is_to_recv_ = false

namespace UDPLink

/-- The step ends an `init` with these parameters. -/
def Ends (s : UDPLink I) (p : UDPInit) (os : OsAnswers) : LifeAct I → Prop
  | .act (.join_all i) => s.app i = .joining (.init p os)
  | .callbackInit param answers => param = p ∧ answers = os
  | _ => False

/-- What the parameters must be like. A callback that calls `init` keeps its worker, which would go
on calling back what is queued and, of a link that does not receive, what comes. -/
def Independent (s : UDPLink I) (p : UDPInit) : LifeAct I → Prop
  | .callbackInit .. => p.is_to_recv_ = true ∧ p.is_detach_recv_ = false ∧ s.Quiet
  | _ => p.Independent s.inits

variable [DecidableEq I]

/-- Of a detached link that receives no datagram may reach the callback. -/
theorem detached_not_asAsked {s : UDPLink I} {p : UDPInit} (hs : s.Held) (hconf : s.imp.Configured p)
    (hm : s.m_send_mutex = none) (hw : s.worker = some .waiting) (hon : s._on_read = true)
    (harrived : s.arrived = []) (hp : p.is_to_recv_ = true ∧ p.is_detach_recv_ = true) :
    ¬ ∀ later, (∀ l ∈ later, UDPAct.isLater l = true) →
      EveryState (step inet_pton6 inet_ntop6) (AsAsked inet_pton6 inet_ntop6 p) s later := by
  intro hall
  obtain ⟨u,hsu,hkept,hwu,_,_,_⟩ := @reader_ends _ inet_pton6 inet_ntop6 _ s
  obtain ⟨v,huv,hkept',hwv⟩ := @worker_leaves _ inet_pton6 inet_ntop6 _ u (hsu.held hs)
    (hkept.mutex.trans hm) hkept.reader (hwu.trans hw)
  have hsv := hsu.trans huv
  have hv := hkept.trans hkept'
  have hvarr : v.arrived = [] := hv.arrived.trans harrived
  have hvcalls : v.calls = [] := by
    have h := (asAsked_of_leads hsv hall).detached hp.2 (atRest_of_exited hv.reader hwv)
      (by simp [hvarr])
    rw [h, hvarr]
    simp [UDPInit.asked]
  obtain ⟨w,hvw,hrw,hww,harr,hcalls⟩ := @callback_hears _ inet_pton6 inet_ntop6 _ v p
    (hv.configured hconf) hv.reader (by simp [inCallback, hwv]) (hv.handler.trans hon)
  rw [hvarr, List.nil_append] at harr
  rw [hvcalls, if_neg (by simp [hp.2]), List.append_nil] at hcalls
  have h := (asAsked_of_leads (hsv.trans hvw) hall).detached hp.2
    (atRest_of_exited hrw (hww.trans hwv)) (by simp [harr])
  rw [hcalls, harr] at h
  simp [UDPInit.asked, hp.1] at h

/-- The handler of an earlier life goes on calling back. -/
theorem bound_not_asAsked {s : UDPLink I} {p : UDPInit} (hconf : s.imp.Configured p)
    (hin : s.inCallback = false) (hon : s._on_read = true) (hcalls : s.calls = [])
    (hp : p.is_to_recv_ = false ∧ p.is_detach_recv_ = false) :
    ¬ ∀ later, (∀ l ∈ later, UDPAct.isLater l = true) →
      EveryState (step inet_pton6 inet_ntop6) (AsAsked inet_pton6 inet_ntop6 p) s later := by
  intro hall
  obtain ⟨u,hsu,hkept,hwu,hcu,_,_⟩ := @reader_ends _ inet_pton6 inet_ntop6 _ s
  have hinu : u.inCallback = false := by
    unfold inCallback at hin ⊢
    rw [hwu]
    exact hin
  obtain ⟨w,huw,_,_,_,hcw⟩ := @callback_hears _ inet_pton6 inet_ntop6 _ u p
    (hkept.configured hconf) hkept.reader hinu (hkept.handler.trans hon)
  have h := (asAsked_of_leads (hsu.trans huw) hall).direct hp.2
  rw [hcw, hcu, hcalls, if_pos hp.2] at h
  simp [UDPInit.asked, hp.1] at h

/-! ### A worker that calls `init` -/

/-- The worker goes on to a datagram of its own life. -/
theorem leftover_not_asAsked {s : UDPLink I} {p : UDPInit} (hs : s.Held) (hrec : s.Recorded)
    (hw : s.worker = some .waiting) (harrived : s.arrived = []) (hp : p.is_detach_recv_ = false)
    (hq : ¬ s.Quiet) :
    ¬ ∀ later, (∀ l ∈ later, UDPAct.isLater l = true) →
      EveryState (step inet_pton6 inet_ntop6) (AsAsked inet_pton6 inet_ntop6 p) s later := by
  intro hall
  obtain ⟨hqueue,htask⟩ := not_or.mp hq
  have hset : Leads inet_pton6 inet_ntop6 s { s with imp := (s.imp.setOnRead true).1 } :=
    .step (.setOnRead true (by simp [inCallback, hw])) rfl (.refl _)
  obtain ⟨u,hsu,hkept,hwu,_,himp,htasks⟩ := @reader_ends _ inet_pton6 inet_ntop6 _
    ({ s with imp := (s.imp.setOnRead true).1 } : UDPLink I)
  have hlead := hset.trans hsu
  have htasku : u.tasks._queue ≠ [] := by
    intro hnil
    rw [htasks] at hnil
    obtain ⟨hempty,hr⟩ := List.append_eq_nil_iff.mp hnil
    refine htask ⟨hempty,?_,by rw [hw]; nofun⟩
    intro hr'
    have hr' : ({ s with imp := (s.imp.setOnRead true).1 } : UDPLink I).reader = .emplacing := hr'
    rw [if_pos hr'] at hr
    cases hr
  obtain ⟨t,hut,hkept',_,bytes,hcalls⟩ := @worker_calls _ inet_pton6 inet_ntop6 _ u
    (hlead.held hs) hkept.reader (hwu.trans hw) (by rw [himp]; rfl) htasku (by rw [himp]; exact hqueue)
    (by rw [himp]; exact hrec.chunks)
  have h := (asAsked_of_leads (hlead.trans hut) hall).direct hp
  have harr : t.arrived = [] := (hkept'.arrived.trans hkept.arrived).trans harrived
  rw [hcalls, harr] at h
  simp [UDPInit.asked] at h

/-- The worker takes what the handler of its life queues. -/
theorem queued_not_asAsked {s : UDPLink I} {p : UDPInit} (hs : s.Held) (hrec : s.Recorded)
    (hconf : s.imp.Configured p) (hm : s.m_send_mutex = none) (hw : s.worker = some .waiting)
    (hon : s._on_read = true) (harrived : s.arrived = [])
    (hp : p.is_to_recv_ = false ∧ p.is_detach_recv_ = true) :
    ¬ ∀ later, (∀ l ∈ later, UDPAct.isLater l = true) →
      EveryState (step inet_pton6 inet_ntop6) (AsAsked inet_pton6 inet_ntop6 p) s later := by
  intro hall
  obtain ⟨u,hsu,hkept,hwu,_,himp,_⟩ := @reader_ends _ inet_pton6 inet_ntop6 _ s
  have hwu : u.worker = some .waiting := hwu.trans hw
  have hconfu := hkept.configured hconf
  -- a callback is set, and a datagram comes
  let v : UDPLink I := { u with imp := (u.imp.setOnRead true).1 }
  have hset : Leads inet_pton6 inet_ntop6 u v :=
    .step (.setOnRead true (by simp [inCallback, hwu])) rfl (.refl _)
  have hle : [7].length ≤ maxDatagram := by decide
  have hread : v.read inet_ntop6 [7] (fun _ => 0) = { v with
      imp := { v.imp with block_queue_recv_buf_ :=
        v.imp.block_queue_recv_buf_.put (v.imp.recvBuf inet_ntop6 [7] fun _ => 0) }
      reader := .emplacing
      arrived := v.arrived ++ [[7]] } := by
    have hcb : v.imp.m_recvDataFunc = true := rfl
    have hdet : v.imp.m_udpIntParam.is_detach_recv_ = true := by
      rw [← hp.2, ← hconfu.param]
      rfl
    have honv : v._on_read = true := hkept.handler.trans hon
    simp [read, UDPImp.OnReadDataFunc, hcb, hdet, honv, asyncCount, calledBytes]
  have hcome : Leads inet_pton6 inet_ntop6 v (v.read inet_ntop6 [7] fun _ => 0) :=
    .step (.onRead [7] (fun _ => 0) hkept.reader hconfu.open_ hconfu.enabled (by decide) hle) rfl
      (.refl _)
  obtain ⟨w,hvw,hkeptw,hww,_,himpw,htasksw⟩ :=
    @reader_ends _ inet_pton6 inet_ntop6 _ (v.read inet_ntop6 [7] fun _ => 0)
  rw [hread] at himpw htasksw hww
  have hsw := ((hsu.trans hset).trans hcome).trans hvw
  have hqueuew : w.imp.block_queue_recv_buf_.queue_ ≠ [] := by
    rw [himpw]
    simp [BlockingQueue.queue_put]
  have hlenw : ∀ fb ∈ w.imp.block_queue_recv_buf_.queue_, fb.buf.length ≠ 0 := by
    rw [himpw]
    have hu : ∀ fb ∈ v.imp.block_queue_recv_buf_.queue_, fb.buf.length ≠ 0 := by
      change ∀ fb ∈ u.imp.block_queue_recv_buf_.queue_, fb.buf.length ≠ 0
      rw [himp]
      exact hrec.chunks
    intro fb hfb
    rw [BlockingQueue.queue_put] at hfb
    rcases List.mem_append.mp hfb with hold | hnew
    · exact hu fb (List.mem_of_mem_drop hold)
    · rw [List.mem_singleton.mp hnew, UDPImp.recvBuf, RecvBuffer.length_fill hle]
      decide
  obtain ⟨x,hwx,hkeptx,hwx',bytes,hcalls⟩ := @worker_calls _ inet_pton6 inet_ntop6 _ w
    (hsw.held hs) hkeptw.reader (hww.trans hwu) (by rw [himpw]; rfl)
    (by rw [htasksw, if_pos rfl]; simp) hqueuew hlenw
  have hsx := hsw.trans hwx
  -- then the worker leaves
  have hmw : w.m_send_mutex = none := by
    have hmv : (v.read inet_ntop6 [7] fun _ => 0).m_send_mutex = s.m_send_mutex := by
      rw [hread]
      exact hkept.mutex
    exact (hkeptw.mutex.trans hmv).trans hm
  obtain ⟨y,hxy,hkepty,hwy⟩ := @worker_leaves _ inet_pton6 inet_ntop6 _ x (hsx.held hs)
    (hkeptx.mutex.trans hmw) hkeptx.reader hwx'
  have harr : y.arrived = [[7]] := by
    rw [hkepty.arrived, hkeptx.arrived, hkeptw.arrived, hread]
    change u.arrived ++ [[7]] = [[7]]
    rw [hkept.arrived, harrived]
    rfl
  have h := (asAsked_of_leads (hsx.trans hxy) hall).detached hp.2
    (atRest_of_exited hkepty.reader hwy) (by simp [harr])
  obtain ⟨rest,hrest⟩ := hxy.calls
  rw [hcalls] at hrest
  rw [← hrest] at h
  simp [UDPInit.asked, hp.1] at h

omit [DecidableEq I] in
/-- What `init` leaves when the callback calls it and it returns 0. -/
theorem callbackInit_zero (s : UDPLink I) {p : UDPInit} {os : OsAnswers}
    (h : (s.imp.init inet_pton6 p os).2 = 0) : s.callbackInit inet_pton6 p os = { s with
      imp := (s.imp.init inet_pton6 p os).1
      _on_read := s._on_read || p.is_to_recv_
      tasks := s.tasks.post
      inits := s.inits ++ [p]
      arrived := []
      calls := [] } := by
  simp [callbackInit, h]

/-- An `init` that the callback on the worker calls. -/
theorem asAsked_iff_callbackInit {s : UDPLink I} {p : UDPInit} {os : OsAnswers} (hs : s.Held)
    (hrec : s.Recorded) (hw : s.worker = some .calling) (hm : s.m_send_mutex = none)
    (hret : (s.imp.init inet_pton6 p os).2 = 0) :
    (∀ later, (∀ l ∈ later, UDPAct.isLater l = true) → EveryState (step inet_pton6 inet_ntop6)
      (AsAsked inet_pton6 inet_ntop6 p) (s.callbackInit inet_pton6 p os) later) ↔
    p.is_to_recv_ = true ∧ p.is_detach_recv_ = false ∧ s.Quiet := by
  have hstep : stepLife inet_pton6 inet_ntop6 s (.callbackInit p os) =
      some (s.callbackInit inet_pton6 p os) := if_pos ⟨hw,hm⟩
  have hheld := stepLife_held hs hstep
  have hrect := stepLife_recorded hrec hstep
  have hconf := UDPImp.init_configured hret
  have hqueue := (@UDPImp.init_frame inet_pton6 s.imp p os).2
  have hon : (s._on_read || p.is_to_recv_) = true := by
    rw [hrec.bound (by simp [hw]), Bool.true_or]
  rw [callbackInit_zero s hret] at hheld hrect ⊢
  generalize ht : ({ s with
    imp := (s.imp.init inet_pton6 p os).1
    _on_read := s._on_read || p.is_to_recv_
    tasks := s.tasks.post
    inits := s.inits ++ [p]
    arrived := []
    calls := [] } : UDPLink I) = t at hheld hrect ⊢
  have hconft : t.imp.Configured p := by
    rw [← ht]
    exact hconf
  have hquiet : t.Quiet ↔ s.Quiet := by
    rw [← ht]
    simp only [Quiet, hqueue, TaskQueue.post]
  have hwt : t.worker = some .calling := by
    rw [← ht]
    exact hw
  have hont : t._on_read = true := by
    rw [← ht]
    exact hon
  have hcallst : t.calls = [] := by rw [← ht]
  have harrivedt : t.arrived = [] := by rw [← ht]
  have hmt : t.m_send_mutex = none := by
    rw [← ht]
    exact hm
  constructor
  · intro hall
    -- the callback returns first
    have hreturn : Steps inet_pton6 inet_ntop6 t .callbackReturn { t with worker := some .waiting } :=
      .callbackReturn hwt
    have hallu := later_of_leads (.step hreturn rfl (.refl _)) hall
    have hheldu := step_held hheld hreturn.step
    have hrecu := step_recorded hrect hreturn.step
    cases hrecv : p.is_to_recv_ with
    | true =>
      cases hdet : p.is_detach_recv_ with
      | true =>
        exact absurd hallu (detached_not_asAsked hheldu hconft hmt rfl hont harrivedt ⟨hrecv,hdet⟩)
      | false =>
        refine ⟨rfl,rfl,hquiet.mp ?_⟩
        by_contra hq
        refine leftover_not_asAsked hheldu hrecu rfl harrivedt hdet ?_ hallu
        rintro (hnil | hidle)
        · exact hq (.inl hnil)
        · exact hq (.inr ⟨hidle.1,hidle.2.1,by simp [hwt]⟩)
    | false =>
      cases hdet : p.is_detach_recv_ with
      | true =>
        exact absurd hallu (queued_not_asAsked hheldu hrecu hconft hmt rfl hont harrivedt ⟨hrecv,hdet⟩)
      | false => exact absurd hallu (bound_not_asAsked hconft rfl hont hcallst ⟨hrecv,hdet⟩)
  · rintro ⟨hrecv,hdet,hq⟩ later hlater
    have hob : t.Obedient p := ⟨hconft,.inr ⟨hdet,hquiet.mpr hq⟩,fun _ => by rw [hont, hrecv],
      by simp [hdet],by rw [hcallst, harrivedt]; simp [UDPInit.asked]⟩
    exact ((everyStep_of_label _ hlater).preserves (fun _ _ _ hr hl hst => hr.later hl hst) hob).mono
      fun _ hr => hr.asAsked

theorem Recorded.obedient {s : UDPLink I} (hs : s.Recorded) (i : I) {p : UDPInit} {os : OsAnswers}
    (h : (s.imp.init inet_pton6 p os).2 = 0) (hp : p.Independent s.inits) :
    (s.finish inet_pton6 i (.init p os)).Obedient p := by
  have hconf := UDPImp.init_configured h
  rw [finish_init s i h]
  unfold UDPInit.Independent at hp
  cases hrecv : p.is_to_recv_ with
  | true =>
    rw [if_pos hrecv] at hp
    exact ⟨hconf,.inl (by simp [hp]),fun _ => by simp [hrecv],by simp [hp],by simp [UDPInit.asked, hrecv]⟩
  | false =>
    rw [hrecv, if_neg Bool.false_ne_true] at hp
    refine ⟨hconf,.inl (by simp),?_,by simp [hrecv],by simp [UDPInit.asked, hrecv]⟩
    intro hd
    have hnone := hp.resolve_left (by simp [hd])
    have hon : s._on_read = false := Bool.eq_false_iff.mpr fun hon => by
      obtain ⟨q,hq,hqr⟩ := hs.handler.mp hon
      rw [hnone q hq] at hqr
      cases hqr
    simp [hon, hrecv]

/-- An `init` that a thread of the application calls. -/
theorem asAsked_iff_joined {s : UDPLink I} {i : I} {p : UDPInit} {os : OsAnswers} (hrec : s.Recorded)
    (hheld : (s.finish inet_pton6 i (.init p os)).Held)
    (hret : (s.imp.init inet_pton6 p os).2 = 0) :
    (∀ later, (∀ l ∈ later, UDPAct.isLater l = true) → EveryState (step inet_pton6 inet_ntop6)
      (AsAsked inet_pton6 inet_ntop6 p) (s.finish inet_pton6 i (.init p os)) later) ↔
    p.Independent s.inits := by
  have hconf := UDPImp.init_configured hret
  rw [finish_init s i hret] at hheld ⊢
  constructor
  · intro h
    unfold UDPInit.Independent
    split
    · rename_i hrecv
      by_contra hd
      have hp : p.is_to_recv_ = true ∧ p.is_detach_recv_ = true := ⟨hrecv,by simpa using hd⟩
      exact detached_not_asAsked hheld hconf rfl (if_pos hp) (by simp [hrecv]) rfl hp h
    · rename_i hrecv
      by_contra hd
      obtain ⟨hdet,hq⟩ := not_or.mp hd
      have hp : p.is_to_recv_ = false ∧ p.is_detach_recv_ = false := ⟨by simpa using hrecv,by simpa using hdet⟩
      have hon : s._on_read = true := by
        apply hrec.handler.mpr
        by_contra hnone
        apply hq
        intro q hqs
        by_contra hqr
        exact hnone ⟨q,hqs,by simpa using hqr⟩
      have hin : (if p.is_to_recv_ = true ∧ p.is_detach_recv_ = true then some WorkerPc.waiting
          else none) = none := if_neg fun h => hrecv h.1
      exact bound_not_asAsked hconf (by simp [inCallback, hin]) (by simp [hon]) rfl hp h
  · intro hp later hlater
    have hob := hrec.obedient i hret hp
    rw [finish_init s i hret] at hob
    exact ((everyStep_of_label _ hlater).preserves (fun _ _ _ hr hl hst => hr.later hl hst) hob).mono
      fun _ hr => hr.asAsked

/-- After an `init` that returned 0, whoever called it, the callback is called as its parameters ask,
in whatever way things go on, for these parameters only. -/
theorem asAsked_iff_independent {labels : List (LifeAct I)} {s t : UDPLink I} {a : LifeAct I}
    {p : UDPInit} {os : OsAnswers} (hs : exec (stepLife inet_pton6 inet_ntop6) fresh labels = some s)
    (hcall : s.Ends p os a) (ht : stepLife inet_pton6 inet_ntop6 s a = some t)
    (hret : (s.imp.init inet_pton6 p os).2 = 0) :
    (∀ later, (∀ l ∈ later, UDPAct.isLater l = true) →
      EveryState (step inet_pton6 inet_ntop6) (AsAsked inet_pton6 inet_ntop6 p) t later) ↔
    s.Independent p a := by
  have hrec : s.Recorded :=
    exec_preserves (fun _ _ _ hr hst => stepLife_recorded hr hst) hs recorded_fresh
  have hheld : s.Held := exec_preserves (fun _ _ _ hr hst => stepLife_held hr hst) hs held_fresh
  cases a with
  | callbackShutdown => cases hcall
  | callbackInit param answers =>
    obtain ⟨rfl,rfl⟩ := hcall
    obtain ⟨⟨hw,hm⟩,⟨⟩⟩ := Option.ite_none_right_eq_some.mp ht
    exact asAsked_iff_callbackInit hheld hrec hw hm hret
  | act l =>
    have hheldt := stepLife_held hheld ht
    cases steps_of_step ht with
    | join_all i c happ _ =>
      have hc : c = .init p os := by
        have happ' : s.app i = .joining (.init p os) := hcall
        rw [happ] at happ'
        cases happ'
        rfl
      subst hc
      exact asAsked_iff_joined hrec hheldt hret
    | _ => cases hcall

/-- A link to 127.0.0.1 that calls back on the poller thread, or not at all. -/
def directInit (is_to_recv_ : Bool) : UDPInit :=
  ⟨.CT_UNI,[],[49,50,55,46,48,46,48,46,49],5000,is_to_recv_,false⟩

/-- The first `init` of a link that receives. -/
theorem asAsked_iff_independent_first : ∃ s t : UDPLink Unit,
    exec (stepLife (fun _ => none) fun _ => [58,58]) fresh
      [.act (.call () (.init (directInit true) UDPImp.allAnswered)),.act (.lock ()),
        .act (.push_exit ())] = some s ∧
    stepLife (fun _ => none) (fun _ => [58,58]) s (.act (.join_all ())) = some t ∧
    ((∀ later, (∀ l ∈ later, UDPAct.isLater l = true) →
      EveryState (step (fun _ => none) fun _ => [58,58])
        (AsAsked (fun _ => none) (fun _ => [58,58]) (directInit true)) t later) ↔
      s.Independent (directInit true) (.act (.join_all ()))) :=
  ⟨_,_,rfl,rfl,@asAsked_iff_independent Unit (fun _ => none) (fun _ => [58,58]) _
    [.act (.call () (.init (directInit true) UDPImp.allAnswered)),.act (.lock ()),.act (.push_exit ())]
    _ _ (.act (.join_all ())) (directInit true) UDPImp.allAnswered rfl rfl rfl (by decide)⟩

/-- A link that received once is initialised again without receiving, and calls back all the same. -/
theorem not_asAsked_second_life : ∃ s : UDPLink Unit,
    exec (step (fun _ => none) fun _ => [58,58]) fresh
      [.call () (.init (directInit true) UDPImp.allAnswered),.lock (),.push_exit (),.join_all (),
        .call () (.init (directInit false) UDPImp.allAnswered),.lock (),.push_exit (),
        .join_all ()] = some s ∧
    s.inits = [directInit true,directInit false] ∧
    ¬ EveryState (step (fun _ => none) fun _ => [58,58])
      (AsAsked (fun _ => none) (fun _ => [58,58]) (directInit false)) s
      [.setOnRead true,.onRead [7] fun _ => 0] := by
  refine ⟨_,rfl,rfl,?_⟩
  intro h
  have hl := (h.last rfl).direct rfl
  revert hl
  decide

end UDPLink
end OctCommu.Communcation
