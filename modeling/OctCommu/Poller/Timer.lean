import OctCommu.Lib.Runs
import OctCommu.Poller.DelayTask

/-! # `Timer`

A timer on its poller thread, among the tasks of others. A period is given in
milliseconds, as the code converts it; what the callback does is an input. A `begin`
without a poller reads a null pointer and ends the run.
-/
namespace OctCommu.Poller
open Runs

/-- What a task that runs comes to: the callback of this timer returns or throws, the task of
another returns the delay it wants. -/
inductive Outcome where
  | returned (again : Bool)
  | thrown
  | other (next_delay : ℕ)
  deriving DecidableEq

/-- The task `begin` makes: its period if the callback wants to be called again, or throws. The task
of someone else has no period here. -/
def nextDelay : Option ℕ → Outcome → Option ℕ
  | some period,.returned again => some (if again then period else 0)
  | some period,.thrown => some period
  | none,.other next_delay => some next_delay
  | _,_ => none

/-- The timer with its poller; the last three are what happened: no `begin` since the last `end`, the
destructor has run, the callback was invoked when it had been stopped. -/
structure Timer where
  poller : DelayPoller (Option ℕ)
  _tag : Option ℕ
  _poller : Bool
  timer_period_ : ℕ
  stopped : Bool
  destroyed : Bool
  lateCalled : Bool
  deriving DecidableEq

inductive TimerAct where
  /-- The period in milliseconds; `none` when `second` is not positive. -/
  | init (second : Option ℕ)
  | begin
  | end_
  | destroy
  /-- The clock advances. -/
  | tick (ms : ℕ)
  | getMinDelay
  | call
  | finish (outcome : Outcome)
  | merge
  /-- Another user of the poller schedules a task, or cancels one of those. -/
  | doDelayTask (delay_ms : ℕ)
  | cancel (i : ℕ)
  deriving DecidableEq

namespace Timer

def fresh : Timer := ⟨.fresh,none,false,3000,true,false,false⟩

/-- Whether the tag's task still exists makes no difference: a task without an entry is never called. -/
def end_ (s : Timer) : Timer :=
  { s with
    poller := match s._tag with
      | some i => s.poller.cancel i
      | none => s.poller
    stopped := true }

def init (s : Timer) (second : Option ℕ) : Timer × ℤ :=
  let s := s.end_
  match second with
  | none => (s,1)
  | some period => ({ s with timer_period_ := period, _poller := true },0)

def begin (s : Timer) : Timer :=
  { s with
    poller := s.poller.doDelayTask s.timer_period_ (some s.timer_period_)
    _tag := some s.poller.tasks.length
    stopped := false }

def destroy (s : Timer) : Timer := { s.end_ with destroyed := true }

/-- A schedule of this timer that was not cancelled. -/
def live (s : Timer) (i : ℕ) : Bool := s.poller.tasks[i]?.any fun t => t.strong && t.kind.isSome

def mine (s : Timer) (i : ℕ) : Bool := s.poller.tasks[i]?.any fun t => t.kind.isSome

/-- The delay that the running task returns. -/
def returns (s : Timer) (outcome : Outcome) : Option ℕ :=
  s.poller.running.bind fun i => s.poller.tasks[i]?.bind fun t => nextDelay t.kind outcome

/-- The owner's calls come from code on the poller thread. -/
def step (s : Timer) : TimerAct → Option Timer
  | .init second =>
    if s.poller.inCallback ∧ s.destroyed = false then some (s.init second).1 else none
  | .begin =>
    if s.poller.inCallback ∧ s.destroyed = false ∧ s._poller then some s.begin else none
  | .end_ => if s.poller.inCallback ∧ s.destroyed = false then some s.end_ else none
  | .destroy => if s.poller.inCallback ∧ s.destroyed = false then some s.destroy else none
  | .tick ms => some { s with poller := { s.poller with now := s.poller.now + ms } }
  | .getMinDelay => s.poller.getMinDelay.map fun p => { s with poller := p }
  | .call => s.poller.call.map fun r =>
    { s with
      poller := r.1
      lateCalled := s.lateCalled || (s.stopped && r.2.any s.live) }
  | .finish outcome =>
    (s.returns outcome).bind fun next_delay =>
      (s.poller.finish next_delay).map fun p => { s with poller := p }
  | .merge => s.poller.merge.map fun p => { s with poller := p }
  | .doDelayTask delay_ms =>
    if s.poller.inCallback then some { s with poller := s.poller.doDelayTask delay_ms none } else none
  | .cancel i =>
    if s.poller.inCallback ∧ s.mine i = false then some { s with poller := s.poller.cancel i }
    else none

/-- Not two schedules are live, none is when the timer was stopped, and then the callback was not
invoked either. -/
structure StopIsFinal (s : Timer) : Prop where
  one : ∀ i ∈ s.poller.scheduled, ∀ j ∈ s.poller.scheduled, s.live i → s.live j → i = j
  quiet : s.stopped = true → ∀ i ∈ s.poller.scheduled, ¬ s.live i
  late : s.lateCalled = false

/-- A `begin` finds no live schedule, and a callback that was begun again does not ask to be called
again. -/
def Exclusive (s : Timer) : TimerAct → Prop
  | .begin => ∀ i ∈ s.poller.scheduled, ¬ s.live i
  | .finish outcome => ∀ i, s.poller.running = some i → s.live i →
    s.returns outcome ≠ some 0 → s._tag = some i
  | _ => True

/-- The tag reaches every live schedule, and none is live when the timer was stopped. A callback that
runs was begun last, or was begun again or stopped since. -/
structure Inv (s : Timer) : Prop where
  lt : ∀ i ∈ s.poller.scheduled, i < s.poller.tasks.length
  runs : ∀ i, s.poller.running = some i → i < s.poller.tasks.length
  owned : ∀ i ∈ s.poller.scheduled, s.live i → s._tag = some i
  tagged : ∀ i, s._tag = some i → s.live i → s.stopped = false
  again : ∀ i, s.poller.running = some i → s.live i →
    s.stopped = true ∨ ∃ j, s._tag = some j ∧ (j = i ∨ (j ∈ s.poller.scheduled ∧ s.live j))
  late : s.lateCalled = false

theorem inv_fresh : fresh.Inv where
  lt := by simp [fresh, DelayPoller.fresh, DelayPoller.scheduled, DelayPoller.task_copy]
  runs := by simp [fresh, DelayPoller.fresh, DelayPoller.running]
  owned := by simp [fresh, DelayPoller.fresh, DelayPoller.scheduled, DelayPoller.task_copy]
  tagged := by simp [fresh]
  again := by simp [fresh, DelayPoller.fresh, DelayPoller.running]
  late := rfl

theorem Inv.stopIsFinal {s : Timer} (h : s.Inv) : s.StopIsFinal where
  one i hi j hj hli hlj := Option.some.inj ((h.owned i hi hli).symm.trans (h.owned j hj hlj))
  quiet hstop i hi hl := by
    have hrun := h.tagged i (h.owned i hi hl) hl
    rw [hstop] at hrun
    cases hrun
  late := h.late

section
variable {s : Timer} {q : DelayPoller (Option ℕ)}

theorem live_congr {t : Timer} (h : t.poller.tasks = s.poller.tasks) (i : ℕ) : t.live i = s.live i := by
  simp only [live, h]

/-- Only the poller moves: the schedules of this timer are those they were, and no task is entered. -/
theorem Inv.of_poller (h : s.Inv) (hlen : s.poller.tasks.length ≤ q.tasks.length)
    (hlt : ∀ i ∈ q.scheduled, i < q.tasks.length)
    (hlive : ∀ i, { s with poller := q }.live i = s.live i)
    (hsub : ∀ i ∈ q.scheduled, s.live i → i ∈ s.poller.scheduled)
    (hrun : ∀ i, q.running = some i → s.poller.running = some i ∧
      ∀ j ∈ s.poller.scheduled, j ∈ q.scheduled) : { s with poller := q }.Inv := by
  refine ⟨hlt,?_,?_,?_,?_,h.late⟩
  · intro i hi
    exact (h.runs i (hrun i hi).1).trans_le hlen
  · intro i hi hl
    rw [hlive] at hl
    exact h.owned i (hsub i hi hl) hl
  · intro i hi hl
    exact h.tagged i hi (hlive i ▸ hl)
  · intro i hi hl
    obtain ⟨hr,hkeep⟩ := hrun i hi
    rcases h.again i hr (hlive i ▸ hl) with hstop | ⟨j,htag,rfl | ⟨hj,hlj⟩⟩
    · exact .inl hstop
    · exact .inr ⟨_,htag,.inl rfl⟩
    · exact .inr ⟨j,htag,.inr ⟨hkeep j hj,(hlive j).trans hlj⟩⟩

/-- Nothing new is scheduled, and no task runs. -/
theorem Inv.fewer (h : s.Inv) (htasks : q.tasks = s.poller.tasks)
    (hsub : ∀ i ∈ q.scheduled, i ∈ s.poller.scheduled) (hrun : q.running = none) :
    { s with poller := q }.Inv := by
  apply h.of_poller
  · rw [htasks]
  · intro i hi
    exact htasks ▸ h.lt i (hsub i hi)
  · exact live_congr htasks
  · exact fun i hi _ => hsub i hi
  · intro i hi
    cases hrun.symm.trans hi

theorem live_cancel (k i : ℕ) :
    { s with poller := s.poller.cancel k }.live i = (s.live i && decide (i ≠ k)) := by
  by_cases hik : i = k
  · subst hik
    cases hi : s.poller.tasks[i]? with
    | none => simp [live, DelayPoller.cancel, hi]
    | some t => simp [live, DelayPoller.cancel, hi]
  · have hki : k ≠ i := fun h => hik h.symm
    simp [live, DelayPoller.cancel, hki, hik]

theorem live_doDelayTask (delay_ms : ℕ) (kind : Option ℕ) {i : ℕ} (hi : i < s.poller.tasks.length) :
    { s with poller := s.poller.doDelayTask delay_ms kind }.live i = s.live i := by
  simp only [live, DelayPoller.doDelayTask, List.getElem?_append_left hi]

theorem live_doDelayTask_new (delay_ms : ℕ) (kind : Option ℕ) :
    { s with poller := s.poller.doDelayTask delay_ms kind }.live s.poller.tasks.length = kind.isSome := by
  simp [live, DelayPoller.doDelayTask]

theorem Inv.end_ (h : s.Inv) : s.end_.Inv := by
  have hsched : s.end_.poller.scheduled = s.poller.scheduled ∧
      s.end_.poller.running = s.poller.running ∧
      s.end_.poller.tasks.length = s.poller.tasks.length := by
    cases htag : s._tag with
    | none => simp [Timer.end_, htag]
    | some k =>
      simp only [Timer.end_, htag]
      exact ⟨rfl,rfl,by simp [DelayPoller.cancel]⟩
  have hlive : ∀ i, s.end_.live i = true → s.live i = true ∧ s._tag ≠ some i := by
    intro i hi
    cases htag : s._tag with
    | none =>
      simp only [live, Timer.end_, htag] at hi
      exact ⟨hi,by simp⟩
    | some k =>
      have hc := live_cancel (s := s) k i
      have hi' : { s with poller := s.poller.cancel k }.live i = true := by
        simpa only [live, Timer.end_, htag] using hi
      rw [hc, Bool.and_eq_true, decide_eq_true_eq] at hi'
      exact ⟨hi'.1,fun he => hi'.2 (Option.some.inj he).symm⟩
  obtain ⟨hs,hr,hlen⟩ := hsched
  refine ⟨?_,?_,?_,?_,?_,h.late⟩
  · rw [hs, hlen]
    exact h.lt
  · rw [hr, hlen]
    exact h.runs
  · intro i hi hl
    rw [hs] at hi
    obtain ⟨hl,hne⟩ := hlive i hl
    exact absurd (h.owned i hi hl) hne
  · intro i hi hl
    exact absurd hi (hlive i hl).2
  · intro i _ _
    exact .inl rfl

theorem Inv.init (h : s.Inv) (second : Option ℕ) : (s.init second).1.Inv := by
  have he := h.end_
  cases second with
  | none => exact he
  | some period => exact ⟨he.lt,he.runs,he.owned,he.tagged,he.again,he.late⟩

theorem Inv.begin (h : s.Inv) (hc : s.Exclusive .begin) : s.begin.Inv := by
  have hperm := s.poller.scheduled_doDelayTask s.timer_period_ (some s.timer_period_)
  have hlen : s.begin.poller.tasks.length = s.poller.tasks.length + 1 :=
    s.poller.length_doDelayTask _ _
  have hold : ∀ {i}, i < s.poller.tasks.length → s.begin.live i = s.live i :=
    fun hi => live_doDelayTask _ _ hi
  have hnew : s.begin.live s.poller.tasks.length = true := live_doDelayTask_new _ _
  refine ⟨DelayPoller.scheduled_lt_doDelayTask h.lt _ _,?_,?_,?_,?_,h.late⟩
  · intro i hi
    rw [hlen]
    exact (h.runs i hi).trans (Nat.lt_succ_self _)
  · intro i hi hl
    rcases List.mem_cons.mp (hperm.mem_iff.mp hi) with rfl | hi
    · rfl
    · rw [hold (h.lt i hi)] at hl
      exact absurd hl (hc i hi)
  · intro i _ _
    rfl
  · intro i _ _
    exact .inr ⟨_,rfl,.inr ⟨hperm.mem_iff.mpr List.mem_cons_self,hnew⟩⟩

/-- Another user's task is no schedule of this timer. -/
theorem Inv.doDelayTask (h : s.Inv) (delay_ms : ℕ) :
    { s with poller := s.poller.doDelayTask delay_ms none }.Inv := by
  have hperm := s.poller.scheduled_doDelayTask delay_ms (none : Option ℕ)
  have hnone : s.live s.poller.tasks.length = false := by simp [live]
  apply h.of_poller
  · rw [DelayPoller.length_doDelayTask]
    exact Nat.le_succ _
  · exact DelayPoller.scheduled_lt_doDelayTask h.lt delay_ms none
  · intro i
    rcases Nat.lt_trichotomy i s.poller.tasks.length with hi | rfl | hi
    · exact live_doDelayTask _ _ hi
    · exact (live_doDelayTask_new _ _).trans hnone.symm
    · have hi' : ¬ i < s.poller.tasks.length + 1 := by omega
      simp [live, DelayPoller.doDelayTask, hi', hi.le]
  · intro i hi hl
    rcases List.mem_cons.mp (hperm.mem_iff.mp hi) with rfl | hi
    · rw [hnone] at hl
      cases hl
    · exact hi
  · exact fun i hi => ⟨hi,fun j hj => hperm.mem_iff.mpr (List.mem_cons_of_mem _ hj)⟩

theorem Inv.cancel (h : s.Inv) {k : ℕ} (hk : s.mine k = false) :
    { s with poller := s.poller.cancel k }.Inv := by
  have hdead : s.live k = false := by
    cases hi : s.poller.tasks[k]? with
    | none => simp [live, hi]
    | some t =>
      have hkind : t.kind.isSome = false := by simpa only [mine, hi, Option.any_some] using hk
      simp [live, hi, hkind]
  have hlen : (s.poller.cancel k).tasks.length = s.poller.tasks.length := by
    simp [DelayPoller.cancel]
  apply h.of_poller
  · exact hlen.ge
  · rw [hlen]
    exact h.lt
  · intro i
    rw [live_cancel]
    by_cases hi : i = k
    · rw [hi, hdead, Bool.false_and]
    · simp [hi]
  · exact fun i hi _ => hi
  · exact fun i hi => ⟨hi,fun j hj => hj⟩

theorem Inv.call (h : s.Inv) {r : Option ℕ} (hr : s.poller.call = some (q,r)) :
    { s with poller := q, lateCalled := s.lateCalled || (s.stopped && r.any s.live) }.Inv := by
  obtain ⟨i,hperm,_,htasks,hrun,hri⟩ := DelayPoller.call_spec hr
  have hsub : ∀ j ∈ q.scheduled, j ∈ s.poller.scheduled :=
    fun j hj => hperm.mem_iff.mpr (List.mem_cons_of_mem _ hj)
  have hi : i ∈ s.poller.scheduled := hperm.mem_iff.mpr List.mem_cons_self
  have hl : ∀ j, { s with poller := q }.live j = s.live j := live_congr htasks
  have hwho : ∀ j, r = some j → j = i := by
    intro j hj
    rw [hri] at hj
    split at hj
    · exact (Option.some.inj hj).symm
    · cases hj
  refine ⟨?_,?_,?_,?_,?_,?_⟩
  · intro j hj
    exact htasks ▸ h.lt j (hsub j hj)
  · intro j hj
    rw [hwho j (hrun.symm.trans hj)]
    exact htasks ▸ h.lt i hi
  · intro j hj hlj
    exact h.owned j (hsub j hj) (hl j ▸ hlj)
  · intro j hj hlj
    exact h.tagged j hj (hl j ▸ hlj)
  · intro j hj hlj
    obtain rfl := hwho j (hrun.symm.trans hj)
    exact .inr ⟨_,h.owned j hi (hl j ▸ hlj),.inl rfl⟩
  · rw [h.late, Bool.false_or]
    cases r with
    | none => exact Bool.and_false _
    | some j =>
      obtain rfl := hwho j rfl
      cases hlj : s.live j with
      | false => simp [hlj]
      | true => simp [h.tagged j (h.owned j hi hlj) hlj]

theorem finish_cases {t : Timer} {outcome : Outcome} (ht : step s (.finish outcome) = some t) :
    ∃ i next_delay q, s.poller.running = some i ∧ s.returns outcome = some next_delay ∧
      q.running = none ∧ q.tasks = s.poller.tasks ∧
      q.scheduled.Perm (if next_delay = 0 then s.poller.scheduled else i :: s.poller.scheduled) ∧
      t = { s with poller := q } := by
  obtain ⟨next_delay,hnext,ht⟩ := Option.bind_eq_some_iff.mp ht
  obtain ⟨q,hq,rfl⟩ := Option.map_eq_some_iff.mp ht
  obtain ⟨i,hi,hrun,htasks,hperm⟩ := DelayPoller.finish_spec hq
  exact ⟨i,next_delay,q,hi,hnext,hrun,htasks,hperm,rfl⟩

theorem Inv.finish {t : Timer} {outcome : Outcome} (h : s.Inv) (hc : s.Exclusive (.finish outcome))
    (ht : step s (.finish outcome) = some t) : t.Inv := by
  obtain ⟨i,next_delay,q,hi,hnext,hrun,htasks,hperm,rfl⟩ := finish_cases ht
  by_cases hz : next_delay = 0
  · rw [if_pos hz] at hperm
    exact h.fewer htasks (fun j hj => hperm.mem_iff.mp hj) hrun
  · rw [if_neg hz] at hperm
    have hl : ∀ j, { s with poller := q }.live j = s.live j := live_congr htasks
    refine ⟨?_,?_,?_,?_,?_,h.late⟩
    · intro j hj
      rw [htasks]
      rcases List.mem_cons.mp (hperm.mem_iff.mp hj) with rfl | hj
      · exact h.runs _ hi
      · exact h.lt j hj
    · intro j hj
      cases hrun.symm.trans hj
    · intro j hj hlj
      rw [hl] at hlj
      rcases List.mem_cons.mp (hperm.mem_iff.mp hj) with rfl | hj
      · exact hc _ hi hlj (by simpa [hnext] using hz)
      · exact h.owned j hj hlj
    · intro j hj hlj
      exact h.tagged j hj (hl j ▸ hlj)
    · intro j hj
      cases hrun.symm.trans hj

end

theorem step_good {s t : Timer} {a : TimerAct} (h : s.Inv) (hc : s.Exclusive a)
    (ht : step s a = some t) : t.Inv := by
  cases a with
  | init second =>
    obtain ⟨_,⟨⟩⟩ := Option.ite_none_right_eq_some.mp ht
    exact h.init second
  | begin =>
    obtain ⟨_,⟨⟩⟩ := Option.ite_none_right_eq_some.mp ht
    exact h.begin hc
  | end_ =>
    obtain ⟨_,⟨⟩⟩ := Option.ite_none_right_eq_some.mp ht
    exact h.end_
  | destroy =>
    obtain ⟨_,⟨⟩⟩ := Option.ite_none_right_eq_some.mp ht
    have he := h.end_
    exact ⟨he.lt,he.runs,he.owned,he.tagged,he.again,he.late⟩
  | tick ms =>
    cases ht
    exact ⟨h.lt,h.runs,h.owned,h.tagged,h.again,h.late⟩
  | getMinDelay =>
    obtain ⟨q,hq,rfl⟩ := Option.map_eq_some_iff.mp ht
    obtain ⟨hperm,hrun,_,htasks⟩ := DelayPoller.getMinDelay_spec hq
    exact h.fewer htasks (fun j hj => hperm.mem_iff.mp hj) hrun
  | call =>
    obtain ⟨r,hr,rfl⟩ := Option.map_eq_some_iff.mp ht
    exact h.call hr
  | finish outcome => exact h.finish hc ht
  | merge =>
    obtain ⟨q,hq,rfl⟩ := Option.map_eq_some_iff.mp ht
    obtain ⟨hperm,hrun,_,htasks⟩ := DelayPoller.merge_spec hq
    exact h.fewer htasks (fun j hj => hperm.mem_iff.mp hj) hrun
  | doDelayTask delay_ms =>
    obtain ⟨_,⟨⟩⟩ := Option.ite_none_right_eq_some.mp ht
    exact h.doDelayTask delay_ms
  | cancel k =>
    obtain ⟨hk,⟨⟩⟩ := Option.ite_none_right_eq_some.mp ht
    exact h.cancel hk.2

/-- A `begin` beside a live schedule makes a second one. A callback that was begun again and repeats
does too, or its schedule outlives the `end` that came after. -/
theorem step_bad {s t : Timer} {a : TimerAct} (h : s.Inv) (ht : step s a = some t)
    (hp : t.StopIsFinal) : s.Exclusive a := by
  cases a with
  | begin =>
    obtain ⟨_,⟨⟩⟩ := Option.ite_none_right_eq_some.mp ht
    intro i hi hl
    have hperm := s.poller.scheduled_doDelayTask s.timer_period_ (some s.timer_period_)
    have hli : s.begin.live i = true := (live_doDelayTask _ _ (h.lt i hi)).trans hl
    have hnew : s.begin.live s.poller.tasks.length = true := live_doDelayTask_new _ _
    have heq := hp.one i (hperm.mem_iff.mpr (List.mem_cons_of_mem _ hi)) _
      (hperm.mem_iff.mpr List.mem_cons_self) hli hnew
    exact absurd (h.lt i hi) (by omega)
  | finish outcome =>
    intro i hi hl hnz
    obtain ⟨k,next_delay,q,hk,hnext,_,htasks,hperm,rfl⟩ := finish_cases ht
    obtain rfl := Option.some.inj (hk.symm.trans hi)
    have hz : next_delay ≠ 0 := fun he => hnz (by rw [hnext, he])
    rw [if_neg hz] at hperm
    have hlq : ∀ j, { s with poller := q }.live j = s.live j := live_congr htasks
    have hin : k ∈ q.scheduled := hperm.mem_iff.mpr List.mem_cons_self
    rcases h.again k hi hl with hstop | ⟨j,htag,rfl | ⟨hj,hlj⟩⟩
    · exact absurd ((hlq k).trans hl) (hp.quiet hstop k hin)
    · exact htag
    · have heq := hp.one k hin j (hperm.mem_iff.mpr (List.mem_cons_of_mem _ hj)) ((hlq k).trans hl)
        ((hlq j).trans hlj)
      rw [heq]
      exact htag
  | init | end_ | destroy | tick | getMinDelay | call | merge | doDelayTask | cancel => trivial

/-- A stop is final just as long as no `begin` finds a live schedule, and no callback that was begun
again repeats. -/
theorem exclusive_iff_stopIsFinal (as : List TimerAct) :
    EveryStep step Exclusive fresh as ↔ EveryState step StopIsFinal fresh as := by
  apply everyStep_iff_everyState inv_fresh
  · intro s h
    exact h.stopIsFinal
  · intro s a t h hc ht
    exact step_good h hc ht
  · intro s a t h ht hp
    exact step_bad h ht hp

/-- Two `begin` calls and an `end`: the first schedule calls back all the same. -/
theorem not_stopIsFinal_second_begin : ¬ EveryState step StopIsFinal fresh
    [.init (some 5),.begin,.begin,.end_,.tick 5,.getMinDelay,.call] := by
  intro h
  exact absurd (h.last rfl).late (by decide)

end Timer
end OctCommu.Poller
