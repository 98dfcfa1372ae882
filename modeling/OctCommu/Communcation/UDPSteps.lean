import OctCommu.Communcation.UDPLink
import OctCommu.Lib.Runs

/-! # Steps of a UDP link

What each step finds and does is said once. Every thread in `shutdown` holds
`m_send_mutex`, and each stop leaves a post that no task comes with.
-/
namespace OctCommu.Communcation
open Memory Util Network.SockUtil Thread Runs
variable {I : Type*} [DecidableEq I] {inet_pton6 : Text → Option (Vector UInt8 16)}
  {inet_ntop6 : List UInt8 → Text}

namespace UDPLink

inductive Steps (inet_pton6 : Text → Option (Vector UInt8 16)) (inet_ntop6 : List UInt8 → Text)
    (s : UDPLink I) : UDPAct I → UDPLink I → Prop
  | call (i : I) (c : UDPCall) : s.app i = .idle →
      Steps inet_pton6 inet_ntop6 s (.call i c) (s.setApp i (.locking c))
  | send (i : I) : s.app i = .idle → Steps inet_pton6 inet_ntop6 s (.send i) (s.setApp i .sending)
  | lockSend (i : I) : s.app i = .sending → s.m_send_mutex = none →
      Steps inet_pton6 inet_ntop6 s (.lock i) (s.setApp i .idle)
  | lock (i : I) (c : UDPCall) : s.app i = .locking c → s.m_send_mutex = none →
      Steps inet_pton6 inet_ntop6 s (.lock i)
        { s.setApp i (.stopping c) with imp := (c.enter s.imp).shutdown, m_send_mutex := some i }
  | push_exit (i : I) (c : UDPCall) : s.app i = .stopping c →
      Steps inet_pton6 inet_ntop6 s (.push_exit i)
        { s.setApp i (.joining c) with tasks := s.tasks.post }
  | join_all (i : I) (c : UDPCall) : s.app i = .joining c → s.joined = true →
      Steps inet_pton6 inet_ntop6 s (.join_all i) (s.finish inet_pton6 i c)
  | setOnRead (cb : Bool) : s.inCallback = false →
      Steps inet_pton6 inet_ntop6 s (.setOnRead cb) { s with imp := (s.imp.setOnRead cb).1 }
  | onRead (pdata : List UInt8) (addr : ℕ → UInt8) : s.reader = .idle → s.imp._sock_fd = true →
      s.imp._enable_recv = true → 0 < pdata.length → pdata.length ≤ maxDatagram →
      Steps inet_pton6 inet_ntop6 s (.onRead pdata addr) (s.read inet_ntop6 pdata addr)
  | emplace_back : s.reader = .emplacing → Steps inet_pton6 inet_ntop6 s .emplace_back
      { s with tasks := s.tasks.emplace_back (), reader := .posting }
  | post : s.reader = .posting → Steps inet_pton6 inet_ntop6 s .post
      { s with tasks := s.tasks.post, reader := .idle }
  | wait : s.worker = some .waiting → s.tasks._sem ≠ 0 → Steps inet_pton6 inet_ntop6 s .wait
      { s with tasks := { s.tasks with _sem := s.tasks._sem - 1 }, worker := some .taking }
  | exit : s.worker = some .taking → s.tasks._queue = [] →
      Steps inet_pton6 inet_ntop6 s .get_task { s with worker := some .exited }
  | take (queue : List Unit) : s.worker = some .taking → s.tasks._queue = () :: queue →
      Steps inet_pton6 inet_ntop6 s .get_task
        { s with tasks := { s.tasks with _queue := queue }, worker := some .running }
  | recvWorkerThread : s.worker = some .running →
      Steps inet_pton6 inet_ntop6 s .recvWorkerThread { s with
        imp := s.imp.recvWorkerThread.1
        worker := some (if calledBytes s.imp.recvWorkerThread.2 = [] then .waiting else .calling)
        calls := s.calls ++ (calledBytes s.imp.recvWorkerThread.2).map (true,·) }
  | callbackSend : s.worker = some .calling →
      Steps inet_pton6 inet_ntop6 s .callbackSend { s with worker := some .sending }
  | sent : s.worker = some .sending → s.m_send_mutex = none →
      Steps inet_pton6 inet_ntop6 s .sent { s with worker := some .calling }
  | callbackReturn : s.worker = some .calling →
      Steps inet_pton6 inet_ntop6 s .callbackReturn { s with worker := some .waiting }

theorem steps_of_step {s t : UDPLink I} {l : UDPAct I}
    (h : step inet_pton6 inet_ntop6 s l = some t) : Steps inet_pton6 inet_ntop6 s l t := by
  cases l with
  | call i c =>
    simp only [step] at h
    split at h <;> cases h
    exact .call i c ‹_›
  | send i =>
    simp only [step] at h
    split at h <;> cases h
    exact .send i ‹_›
  | lock i =>
    simp only [step] at h
    split at h <;> cases h
    · exact .lockSend i ‹_› ‹_›
    · exact .lock i _ ‹_› ‹_›
  | push_exit i =>
    simp only [step] at h
    split at h <;> cases h
    exact .push_exit i _ ‹_›
  | join_all i =>
    simp only [step] at h
    split at h
    · obtain ⟨hj,⟨⟩⟩ := Option.ite_none_right_eq_some.mp h
      exact .join_all i _ ‹_› hj
    · cases h
  | setOnRead cb =>
    simp only [step] at h
    split at h <;> cases h
    exact .setOnRead cb (Bool.eq_false_iff.mpr ‹_›)
  | onRead pdata addr =>
    obtain ⟨⟨hr,hfd,hen,hpos,hle⟩,⟨⟩⟩ := Option.ite_none_right_eq_some.mp h
    exact .onRead pdata addr hr hfd hen hpos hle
  | emplace_back =>
    simp only [step] at h
    split at h <;> cases h
    exact .emplace_back ‹_›
  | post =>
    simp only [step] at h
    split at h <;> cases h
    exact .post ‹_›
  | wait =>
    simp only [step] at h
    split at h
    · rename_i q hw hq
      cases h
      simp only [TaskQueue.wait] at hq
      split at hq <;> cases hq
      exact .wait hw ‹_›
    · cases h
  | get_task =>
    simp only [step] at h
    split at h
    · rename_i hw
      cases hq : s.tasks._queue with
      | nil =>
        simp only [TaskQueue.pop_front, hq] at h
        cases h
        exact .exit hw hq
      | cons u queue =>
        simp only [TaskQueue.pop_front, hq] at h
        cases h
        exact .take queue hw hq
    · cases h
  | recvWorkerThread =>
    simp only [step] at h
    split at h <;> cases h
    exact .recvWorkerThread ‹_›
  | callbackSend =>
    simp only [step] at h
    split at h <;> cases h
    exact .callbackSend ‹_›
  | sent =>
    simp only [step] at h
    split at h <;> cases h
    exact .sent ‹_› ‹_›
  | callbackReturn =>
    simp only [step] at h
    split at h <;> cases h
    exact .callbackReturn ‹_›

theorem Steps.step {s t : UDPLink I} {l : UDPAct I} (h : Steps inet_pton6 inet_ntop6 s l t) :
    step inet_pton6 inet_ntop6 s l = some t := by
  cases h with
  | call i c happ | send i happ => simp only [UDPLink.step, happ]
  | lockSend i happ hm | lock i c happ hm => simp only [UDPLink.step, happ, hm]
  | push_exit i c happ => simp only [UDPLink.step, happ]
  | join_all i c happ hj => simp only [UDPLink.step, happ, hj, if_true]
  | setOnRead cb hin => simp only [UDPLink.step, hin, Bool.false_eq_true, if_false]
  | onRead pdata addr hr hfd hen hpos hle => exact if_pos ⟨hr,hfd,hen,hpos,hle⟩
  | emplace_back hr | post hr => simp only [UDPLink.step, hr]
  | wait hw hsem => simp only [UDPLink.step, hw, TaskQueue.wait, if_neg hsem]
  | exit hw hq | take queue hw hq => simp only [UDPLink.step, hw, TaskQueue.pop_front, hq]
  | recvWorkerThread hw | callbackSend hw | callbackReturn hw => simp only [UDPLink.step, hw]
  | sent hw hm => simp only [UDPLink.step, hw, hm]

/-! ### The mutex and the posts -/

end UDPLink

/-- In `shutdown`, with `m_send_mutex` held. -/
def AppPc.stops : AppPc → Bool
  | .stopping _ | .joining _ => true
  | _ => false

def AppPc.posted : AppPc → ℕ
  | .joining _ => 1
  | _ => 0

namespace UDPLink

/-- Whether a thread waits in `join_all`. -/
def posted (s : UDPLink I) : ℕ :=
  match s.m_send_mutex with
  | some i => (s.app i).posted
  | none => 0

def alive (s : UDPLink I) : ℕ := if s.joined then 0 else 1

def taking (s : UDPLink I) : ℕ := if s.worker = some .taking then 1 else 0

def posting (s : UDPLink I) : ℕ := if s.reader = .posting then 1 else 0

/-- There is a post for each task, one more for the worker, and one for a stop under way: that of
the `shutdown` in front of every start has nobody to consume it. -/
structure Held (s : UDPLink I) : Prop where
  holder : ∀ i, (s.app i).stops = true ↔ s.m_send_mutex = some i
  spare : s.tasks._queue.length + s.alive + s.posted ≤ s.tasks._sem + s.taking + s.posting

omit [DecidableEq I] in
theorem held_fresh : (fresh : UDPLink I).Held :=
  ⟨fun _ => by simp [fresh, AppPc.stops],Nat.le_refl 0⟩

theorem finish_frame (s : UDPLink I) (i : I) (c : UDPCall) :
    (s.finish inet_pton6 i c).tasks = s.tasks ∧ (s.finish inet_pton6 i c).reader = s.reader ∧
      (s.finish inet_pton6 i c).m_send_mutex = none ∧
      (s.finish inet_pton6 i c).app = Function.update s.app i .idle ∧
      ((s.finish inet_pton6 i c).worker = none ∨
        (s.finish inet_pton6 i c).worker = some .waiting) := by
  cases c with
  | init param os =>
    simp only [finish, initSocket]
    split
    · refine ⟨rfl,rfl,rfl,rfl,?_⟩
      dsimp only
      split
      · exact .inr rfl
      · exact .inl rfl
    · exact ⟨rfl,rfl,rfl,rfl,.inl rfl⟩
  | shutdown => exact ⟨rfl,rfl,rfl,rfl,.inl rfl⟩

omit [DecidableEq I] in
theorem read_frame (s : UDPLink I) (pdata : List UInt8) (addr : ℕ → UInt8) (h : s.reader = .idle) :
    ∃ imp reader arrived calls, reader ≠ .posting ∧ s.read inet_ntop6 pdata addr =
      { s with imp := imp, reader := reader, arrived := arrived, calls := calls } := by
  unfold read
  split <;> dsimp only <;> split
  · refine ⟨_,_,_,_,?_,rfl⟩
    split <;> nofun
  · exact ⟨_,.idle,_,_,nofun,by rw [← h]⟩
  · refine ⟨_,_,_,_,?_,rfl⟩
    split <;> nofun
  · exact ⟨_,.idle,_,_,nofun,by rw [← h]⟩

/-- The holder stays the one thread in `shutdown` when thread `i` moves. -/
theorem holder_update {app : I → AppPc} {m m' : Option I} {i : I} {pc : AppPc}
    (h : ∀ j, (app j).stops = true ↔ m = some j) (hi : pc.stops = true ↔ m' = some i)
    (hother : ∀ j, j ≠ i → (m' = some j ↔ m = some j)) (j : I) :
    (Function.update app i pc j).stops = true ↔ m' = some j := by
  by_cases hj : j = i
  · subst hj
    rw [Function.update_self]
    exact hi
  · rw [Function.update_of_ne hj, hother j hj]
    exact h j

/-- A thread that moves outside of `shutdown` changes nobody's hold. -/
theorem Held.setApp {s : UDPLink I} (h : s.Held) {i : I} {pc : AppPc}
    (hold : (s.app i).stops = false) (hpc : pc.stops = false) : (s.setApp i pc).Held := by
  have hne : s.m_send_mutex ≠ some i := by
    intro he
    rw [(h.holder i).mpr he] at hold
    cases hold
  constructor
  · exact holder_update h.holder (iff_of_false (by simp [hpc]) hne) fun _ _ => Iff.rfl
  · have hposted : (s.setApp i pc).posted = s.posted := by
      unfold posted UDPLink.setApp
      dsimp only
      split
      · rename_i j hj
        rw [Function.update_of_ne (fun he => hne (by rw [hj, he]))]
      · rfl
    have hspare := h.spare
    rw [← hposted] at hspare
    exact hspare

/-- The thread that gets the lock owes a post. -/
theorem Held.lock {s : UDPLink I} (h : s.Held) {i : I} (c : UDPCall) (hm : s.m_send_mutex = none) :
    Held { s.setApp i (.stopping c) with
      imp := (c.enter s.imp).shutdown
      m_send_mutex := some i } := by
  obtain ⟨hholder,hspare⟩ := h
  constructor
  · exact holder_update hholder (by simp [AppPc.stops]) fun j hj => by simp [hm, Ne.symm hj]
  · have hposted : s.posted = 0 := by simp [posted, hm]
    have hnone : ({ s.setApp i (.stopping c) with
        imp := (c.enter s.imp).shutdown
        m_send_mutex := some i } : UDPLink I).posted = 0 := by
      simp [posted, UDPLink.setApp, AppPc.posted]
    rw [hposted] at hspare
    rw [hnone]
    exact hspare

theorem Held.push_exit {s : UDPLink I} (h : s.Held) {i : I} {c : UDPCall}
    (happ : s.app i = .stopping c) :
    Held { s.setApp i (.joining c) with tasks := s.tasks.post } := by
  obtain ⟨hholder,hspare⟩ := h
  have hm : s.m_send_mutex = some i := (hholder i).mp (by rw [happ]; rfl)
  constructor
  · exact holder_update hholder (iff_of_true rfl hm) fun _ _ => Iff.rfl
  · have hposted : s.posted = 0 := by simp [posted, hm, happ, AppPc.posted]
    rw [hposted] at hspare
    have hone : ({ s.setApp i (.joining c) with tasks := s.tasks.post } : UDPLink I).posted = 1 := by
      simp [posted, UDPLink.setApp, hm, AppPc.posted]
    rw [hone]
    simp only [TaskQueue.post]
    change _ + s.alive + 1 ≤ _ + 1 + s.taking + s.posting
    omega

/-- The post of a stop that is over is the spare one of the worker that is started. -/
theorem Held.finish {s : UDPLink I} (h : s.Held) {i : I} {c : UDPCall}
    (happ : s.app i = .joining c) (hj : s.joined = true) : (s.finish inet_pton6 i c).Held := by
  obtain ⟨hholder,hspare⟩ := h
  have hm : s.m_send_mutex = some i := (hholder i).mp (by rw [happ]; rfl)
  obtain ⟨htasks,hreader,hmutex,happ',hworker⟩ := @finish_frame _ _ inet_pton6 s i c
  constructor
  · rw [hmutex, happ']
    exact holder_update hholder (by simp [AppPc.stops]) fun j hj => by simp [hm, Ne.symm hj]
  · have hposted : s.posted = 1 := by simp [posted, hm, happ, AppPc.posted]
    have htaking : s.taking = 0 := by
      unfold taking
      split
      · rename_i hw
        simp [joined, hw] at hj
      · rfl
    rw [hposted, htaking] at hspare
    have hposting : (s.finish inet_pton6 i c).posting = s.posting := by simp only [posting, hreader]
    have halive : (s.finish inet_pton6 i c).alive ≤ 1 := by
      unfold alive
      split <;> omega
    have hnone : (s.finish inet_pton6 i c).posted = 0 := by simp only [posted, hmutex]
    rw [htasks, hposting, hnone]
    omega

theorem step_held {s t : UDPLink I} {l : UDPAct I} (h : s.Held)
    (ht : step inet_pton6 inet_ntop6 s l = some t) : t.Held := by
  have hheld := h
  obtain ⟨hholder,hspare⟩ := h
  cases steps_of_step ht with
  | call i c happ => exact hheld.setApp (by rw [happ]; rfl) rfl
  | send i happ => exact hheld.setApp (by rw [happ]; rfl) rfl
  | lockSend i happ hm => exact hheld.setApp (by rw [happ]; rfl) rfl
  | lock i c happ hm => exact hheld.lock c hm
  | push_exit i c happ => exact hheld.push_exit happ
  | join_all i c happ hj => exact hheld.finish happ hj
  | setOnRead cb _ => exact ⟨hholder,hspare⟩
  | onRead pdata addr hr _ _ _ _ =>
    obtain ⟨imp,reader,arrived,calls,hne,he⟩ := @read_frame _ inet_ntop6 s pdata addr hr
    rw [he]
    refine ⟨hholder,?_⟩
    have hposting : s.posting = 0 := by simp [posting, hr]
    rw [hposting] at hspare
    exact hspare.trans (Nat.le_add_right _ _)
  | emplace_back hr =>
    have hposting : s.posting = 0 := by simp [posting, hr]
    refine ⟨hholder,?_⟩
    rw [hposting] at hspare
    simp only [TaskQueue.emplace_back, List.length_append, List.length_singleton]
    change _ + 1 + s.alive + s.posted ≤ _ + s.taking + 1
    omega
  | post hr =>
    have hposting : s.posting = 1 := by simp [posting, hr]
    refine ⟨hholder,?_⟩
    rw [hposting] at hspare
    simp only [TaskQueue.post]
    change _ + s.alive + s.posted ≤ _ + 1 + s.taking + 0
    omega
  | wait hw hsem =>
    have hcounts : s.alive = 1 ∧ s.taking = 0 := by simp [alive, joined, taking, hw]
    refine ⟨hholder,?_⟩
    rw [hcounts.1, hcounts.2] at hspare
    change s.tasks._queue.length + 1 + s.posted ≤ s.tasks._sem - 1 + 1 + s.posting
    omega
  | exit hw hq =>
    have hcounts : s.alive = 1 ∧ s.taking = 1 := by simp [alive, joined, taking, hw]
    refine ⟨hholder,?_⟩
    rw [hcounts.1, hcounts.2] at hspare
    change s.tasks._queue.length + 0 + s.posted ≤ s.tasks._sem + 0 + s.posting
    omega
  | take queue hw hq =>
    have hcounts : s.alive = 1 ∧ s.taking = 1 := by simp [alive, joined, taking, hw]
    refine ⟨hholder,?_⟩
    rw [hcounts.1, hcounts.2, hq, List.length_cons] at hspare
    change queue.length + 1 + s.posted ≤ s.tasks._sem + 0 + s.posting
    omega
  | recvWorkerThread hw =>
    have hcounts : s.alive = 1 ∧ s.taking = 0 := by simp [alive, joined, taking, hw]
    refine ⟨hholder,?_⟩
    rw [hcounts.1, hcounts.2] at hspare
    split
    · exact hspare
    · exact hspare
  | callbackSend hw | callbackReturn hw =>
    have hcounts : s.alive = 1 ∧ s.taking = 0 := by simp [alive, joined, taking, hw]
    refine ⟨hholder,?_⟩
    rw [hcounts.1, hcounts.2] at hspare
    exact hspare
  | sent hw hm =>
    have hcounts : s.alive = 1 ∧ s.taking = 0 := by simp [alive, joined, taking, hw]
    refine ⟨hholder,?_⟩
    rw [hcounts.1, hcounts.2] at hspare
    exact hspare

end UDPLink
end OctCommu.Communcation
