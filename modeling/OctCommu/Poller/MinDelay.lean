import OctCommu.Poller.FlushDelayTask

/-! # How long `EventPoller::runLoop` sleeps

`getMinDelay` runs the tasks that are due and returns the time to the next one, in the
`uint64_t` in which 0 says that there is none. `runLoop` hands it to `epoll_wait`, whose
timeout is an `int`.
-/
namespace OctCommu.Poller.Sleep
open Multimap
variable {K : Type*}

/-- The difference of two times in `uint64_t`. -/
def subTime (a b : ℕ) : ℕ := (a + 18446744073709551616 - b) % 18446744073709551616

/-- The end of `flushDelayTask`. -/
def nextDelay (m : List (ℕ × ℕ)) (now_time : ℕ) : ℕ :=
  match m with
  | [] => 0
  | e :: _ => subTime e.1 now_time

def getMinDelay (script : ℕ → TaskRun K) (p : DelayPoller K) : ℕ × Flushed K :=
  match p._delay_task_map with
  | [] => (0,⟨[],[],p⟩)
  | e :: _ =>
    if e.1 > p.now then (subTime e.1 p.now,⟨[],[],p⟩)
    else
      let f := p.flushDelayTask script p.now
      (nextDelay f.poller._delay_task_map p.now,f)

/-- What `minDelay ? minDelay : -1` is as an `int`; a negative timeout is none. -/
def timeout (minDelay : ℕ) : ℤ :=
  Int.bmod (if minDelay ≠ 0 then minDelay else 18446744073709551615) 4294967296

/-- With the clock at `clock`, the loop wakes up in time for the first entry. -/
structure WakesInTime (clock minDelay : ℕ) (m : List (ℕ × ℕ)) : Prop where
  zero : minDelay = 0 → m = []
  early : ∀ e ∈ m.head?, minDelay ≤ max 1 (e.1 - clock)
  bounded : m ≠ [] → 0 ≤ timeout minDelay

/-- The first entry is due in the next millisecond, or later if the clock has not moved, and the time to
it is not one that an `int` shows as negative. -/
def OnTime (clock now_time : ℕ) (entries : List (ℕ × ℕ)) : Prop :=
  ∀ e ∈ entries, (∀ x ∈ entries, e.1 ≤ x.1) → e.1 = addTime now_time 1 ∨
    (now_time < e.1 ∧ clock ≤ now_time ∧ (e.1 - now_time) % 4294967296 < 2147483648)

/-- The entries that the tasks of the given entries schedule when their turn comes, with the number of
tasks entered before. -/
def scheduled (script : ℕ → TaskRun K) (now_time : ℕ) :
    List (ℕ × ℕ) → ℕ → DelayPoller K → List (ℕ × ℕ)
  | [],_,_ => []
  | e :: rest,k,p =>
    if p.strong e.2 then
      TaskAct.entries (script k).acts p ++ (script k).again now_time e.2 ++
        scheduled script now_time rest (k + 1) ((script k).run now_time e.2 p)
    else scheduled script now_time rest k p

/-- What is not due, with what the tasks that are due schedule. -/
def pending (script : ℕ → TaskRun K) (p : DelayPoller K) : List (ℕ × ℕ) :=
  (p._delay_task_map.filter fun e => p.now < e.1) ++
    scheduled script p.now (p._delay_task_map.filter fun e => e.1 ≤ p.now) 0
      { p with _delay_task_map := [] }

theorem timeout_nonneg_iff {n : ℕ} (hn : n < 18446744073709551616) :
    0 ≤ timeout n ↔ n ≠ 0 ∧ n % 4294967296 < 2147483648 := by
  unfold timeout
  by_cases hz : n = 0
  · subst hz
    decide
  · rw [if_pos hz, Int.bmod_def]
    omega

theorem subTime_iff {d now_time clock : ℕ} (hd : d < 18446744073709551616)
    (hn : now_time < 18446744073709551616) (hc : now_time ≤ clock) :
    (subTime d now_time ≤ max 1 (d - clock) ∧ 0 ≤ timeout (subTime d now_time)) ↔
      d = addTime now_time 1 ∨
        (now_time < d ∧ clock ≤ now_time ∧ (d - now_time) % 4294967296 < 2147483648) := by
  have hlt : subTime d now_time < 18446744073709551616 := Nat.mod_lt _ (by decide)
  rw [timeout_nonneg_iff hlt]
  unfold subTime addTime
  omega

variable {p : DelayPoller K} (script : ℕ → TaskRun K)

theorem inserted_flushLoop (now_time : ℕ) {m : List (ℕ × ℕ)} (hm : Sorted m) (k : ℕ) (p : DelayPoller K) :
    (DelayPoller.flushLoop script now_time m k p).turns.flatMap (Turn.inserted now_time) =
      scheduled script now_time (m.filter fun e => e.1 ≤ now_time) k p := by
  have hdue {e : ℕ × ℕ} (he : e.1 ≤ now_time) (rest : List (ℕ × ℕ)) :
      ((e :: rest).filter fun e => e.1 ≤ now_time) = e :: rest.filter fun e => e.1 ≤ now_time :=
    List.filter_cons_of_pos (decide_eq_true he)
  induction m, k, p using DelayPoller.flushLoop_induction script now_time with
  | nil => rfl
  | entered e rest k p he hs ih =>
    have hrest := (List.pairwise_cons.mp hm).2
    rw [hdue he, scheduled]
    rw [DelayPoller.flushLoop_entered he hs, if_pos hs, List.flatMap_cons, ih hrest]
    rfl
  | cancelled e rest k p he hs ih =>
    have hrest := (List.pairwise_cons.mp hm).2
    rw [hdue he, scheduled]
    rw [DelayPoller.flushLoop_cancelled he hs, if_neg hs, List.flatMap_cons, ih hrest]
    rfl
  | notDue e rest k p he =>
    have hnone : ((e :: rest).filter fun e => e.1 ≤ now_time) = [] := by
      rw [List.filter_eq_nil_iff]
      intro x hx hle
      exact he ((hm.head_le rfl x hx).trans (of_decide_eq_true hle))
    rw [DelayPoller.flushLoop_notDue he, hnone]
    rfl

/-- The map on return, flushed or not, and the delay that is computed from it. -/
theorem getMinDelay_spec (hp : p.WellFormed) :
    (getMinDelay script p).2.poller._delay_task_map.Perm (pending script p) ∧
    (getMinDelay script p).2.poller.WellFormed ∧
    (getMinDelay script p).1 = nextDelay (getMinDelay script p).2.poller._delay_task_map p.now := by
  unfold getMinDelay
  cases hm : p._delay_task_map with
  | nil => simp [hm, nextDelay, pending, scheduled, hp]
  | cons e rest =>
    by_cases he : e.1 > p.now
    · have hkept : (p._delay_task_map.filter fun e => p.now < e.1) = p._delay_task_map := by
        rw [List.filter_eq_self]
        exact fun x hx => decide_eq_true (he.trans_le (hp.sorted.head_le hm x hx))
      have hdue : (p._delay_task_map.filter fun e => e.1 ≤ p.now) = [] := by
        rw [List.filter_eq_nil_iff]
        intro x hx hle
        exact not_lt.mpr (of_decide_eq_true hle) (he.trans_le (hp.sorted.head_le hm x hx))
      simp only [he, if_true]
      refine ⟨?_,hp,?_⟩
      · rw [pending, hkept, hdue, scheduled, List.append_nil]
      · rw [hm]
        rfl
    · simp only [he, if_false]
      have hmap := p.flushDelayTask_perm hp script p.now
      have hturns : (p.flushDelayTask script p.now).turns.flatMap (Turn.inserted p.now) =
          scheduled script p.now (p._delay_task_map.filter fun e => e.1 ≤ p.now) 0
            { p with _delay_task_map := [] } := inserted_flushLoop script p.now hp.sorted 0 _
      rw [hturns] at hmap
      exact ⟨hmap,p.flushDelayTask_wellFormed hp script p.now,trivial⟩

theorem getMinDelay_wakesInTime_iff (hp : p.WellFormed) (hn : p.now < 18446744073709551616) {clock : ℕ}
    (hc : p.now ≤ clock) :
    WakesInTime clock (getMinDelay script p).1 (getMinDelay script p).2.poller._delay_task_map ↔
      OnTime clock p.now (pending script p) := by
  obtain ⟨hperm,hwf,hret⟩ := getMinDelay_spec script hp
  rw [hret]
  cases hm : (getMinDelay script p).2.poller._delay_task_map with
  | nil =>
    rw [hm] at hperm
    rw [← hperm.nil_eq]
    constructor
    · exact fun _ e he => absurd he List.not_mem_nil
    · exact fun _ => ⟨fun _ => rfl,by simp,by simp⟩
  | cons e rest =>
    have hmem : e ∈ (getMinDelay script p).2.poller._delay_task_map := by simp [hm]
    have hmin := hwf.sorted.head_le hm
    rw [← hm]
    have honTime : OnTime clock p.now (pending script p) ↔
        e.1 = addTime p.now 1 ∨
          (p.now < e.1 ∧ clock ≤ p.now ∧ (e.1 - p.now) % 4294967296 < 2147483648) := by
      constructor
      · intro h
        exact h e (hperm.mem_iff.mp hmem) fun x hx => hmin x (hperm.mem_iff.mpr hx)
      · intro h x hx hall
        have hxe : x.1 = e.1 :=
          le_antisymm (hall e (hperm.mem_iff.mp hmem)) (hmin x (hperm.mem_iff.mpr hx))
        rwa [hxe]
    rw [honTime, ← subTime_iff (hwf.time e hmem) hn hc]
    have hnext : nextDelay (getMinDelay script p).2.poller._delay_task_map p.now =
        subTime e.1 p.now := by
      rw [hm]
      rfl
    rw [hnext]
    constructor
    · intro h
      exact ⟨h.early e (by simp [hm]),h.bounded (by simp [hm])⟩
    · rintro ⟨hearly,hbounded⟩
      refine ⟨?_,?_,fun _ => hbounded⟩
      · intro hz
        rw [hz] at hbounded
        exact absurd hbounded (by decide)
      · intro x hx
        obtain rfl : e = x := by simpa [hm] using hx
        exact hearly

/-- One of two tasks is due; it schedules another in two milliseconds. -/
theorem getMinDelay_wakesInTime_two :
    let p : DelayPoller Unit := ⟨5,[(5,0),(9,1)],none,[⟨true,()⟩,⟨true,()⟩]⟩
    let script : ℕ → TaskRun Unit := fun _ => ⟨[.doDelayTask 2 ()],some 0⟩
    WakesInTime 5 (getMinDelay script p).1 (getMinDelay script p).2.poller._delay_task_map := by
  intro p script
  have hp : p.WellFormed := ⟨by simp [p, Sorted],by decide,by decide⟩
  apply (getMinDelay_wakesInTime_iff script hp (by decide) (Nat.le_refl 5)).mpr
  have hpending : pending script p = [(9,1),(7,2)] := by decide
  rw [hpending]
  unfold OnTime
  decide

/-- The task that is due schedules one for now, and the clock has not moved. -/
theorem getMinDelay_sleeps :
    let p : DelayPoller Unit := ⟨5,[(5,0)],none,[⟨true,()⟩]⟩
    let script : ℕ → TaskRun Unit := fun _ => ⟨[.doDelayTask 0 ()],some 0⟩
    p.WellFormed ∧ (getMinDelay script p).2.poller.now = 5 ∧
    (getMinDelay script p).2.poller._delay_task_map = [(5,1)] ∧ (getMinDelay script p).1 = 0 ∧
    timeout (getMinDelay script p).1 = -1 ∧
    ¬ WakesInTime 5 (getMinDelay script p).1 (getMinDelay script p).2.poller._delay_task_map := by
  intro p script
  have hzero : (getMinDelay script p).1 = 0 := by decide
  have hmap : (getMinDelay script p).2.poller._delay_task_map = [(5,1)] := by decide
  refine ⟨⟨List.pairwise_singleton _ _,by decide,by decide⟩,by decide,hmap,hzero,by decide,?_⟩
  intro h
  have := h.zero hzero
  rw [hmap] at this
  cases this

end OctCommu.Poller.Sleep
