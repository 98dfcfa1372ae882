import OctCommu.Lib.Monitor
import OctCommu.Lib.Runs

/-! # `semaphore` and `CountDownLatch`

Both are a counter under a mutex with a condition variable. What a thread does under the
mutex is one step, but for the latch, where `setCount` takes no mutex and can come between.
-/
namespace OctCommu.Thread
open Monitor Runs

structure Semaphore where
  _count : ℕ
  waiters : Waiters
  /-- the units that were posted and the calls of `wait` that have returned -/
  posted : ℕ
  returned : ℕ

inductive SemaphoreAct
  | post (n : ℕ) (chosen : Option ℕ)
  | wait (t : ℕ)
  /-- a thread that was woken has the mutex again -/
  | resume (t : ℕ)
  | spurious (t : ℕ)

namespace Semaphore

def fresh (threads : ℕ) : Semaphore := ⟨0,List.replicate threads .away,0,0⟩

/-- A thread at the head of the loop of `wait`. -/
def look (s : Semaphore) (t : ℕ) (pc : Waiter) : Option Semaphore :=
  if s._count = 0 then (s.waiters.move t pc .asleep).map fun ws => { s with waiters := ws }
  else (s.waiters.move t pc .away).map fun ws =>
    { s with _count := s._count - 1, waiters := ws, returned := s.returned + 1 }

def step (s : Semaphore) : SemaphoreAct → Option Semaphore
  | .post n chosen =>
    (if n = 1 then s.waiters.notify_one chosen else some s.waiters.notify_all).map fun ws =>
      { s with _count := (s._count + n) % 18446744073709551616, waiters := ws, posted := s.posted + n }
  | .wait t => s.look t .away
  | .resume t => s.look t .woken
  | .spurious t => (s.waiters.move t .asleep .woken).map fun ws => { s with waiters := ws }

def Fits (s : Semaphore) : SemaphoreAct → Prop
  | .post n _ => s._count + n < 18446744073709551616
  | _ => True

structure Sound (s : Semaphore) : Prop where
  exact : s.posted = s._count + s.returned
  /-- while one sleeps there is a thread under way for every unit that is left -/
  awake : s.waiters.asleep ≠ 0 → s._count ≤ s.waiters.woken

variable {s t : Semaphore}

theorem Sound.look (h : s.Sound) {i : ℕ} {pc : Waiter} (hpc : pc ≠ .asleep) (ht : s.look i pc = some t) :
    t.Sound := by
  unfold Semaphore.look at ht
  split at ht
  · rename_i hzero
    obtain ⟨ws,hws,rfl⟩ := Option.map_eq_some_iff.mp ht
    exact ⟨h.exact,fun _ => by simp only [hzero]; exact Nat.zero_le _⟩
  · rename_i hpos
    obtain ⟨ws,hws,rfl⟩ := Option.map_eq_some_iff.mp ht
    obtain ⟨hasleep,hwoken⟩ := Waiters.move_counts hws
    rw [if_neg hpc, if_neg (by decide), Nat.add_zero, Nat.add_zero] at hasleep
    rw [if_neg (show ¬Waiter.away = .woken by decide), Nat.add_zero] at hwoken
    refine ⟨?_,?_⟩
    · have hexact := h.exact
      simp only
      omega
    · intro hne
      have hawake := h.awake (hasleep ▸ hne)
      simp only
      split at hwoken <;> omega

theorem Sound.step (h : s.Sound) {a : SemaphoreAct} (hfits : s.Fits a) (ht : s.step a = some t) : t.Sound := by
  cases a with
  | post n chosen =>
    obtain ⟨ws,hws,rfl⟩ := Option.map_eq_some_iff.mp ht
    have hmod : (s._count + n) % 18446744073709551616 = s._count + n := Nat.mod_eq_of_lt hfits
    have hexact := h.exact
    refine ⟨by simp only [hmod]; omega,?_⟩
    intro hne
    simp only [hmod] at hne ⊢
    split at hws
    · rename_i hone
      rcases Waiters.notify_one_counts hws with ⟨hzero,rfl⟩ | ⟨hasleep,hwoken⟩
      · exact absurd hzero hne
      · have hawake := h.awake (by omega)
        omega
    · obtain rfl := Option.some.inj hws
      exact absurd s.waiters.asleep_notify_all hne
  | wait i => exact h.look (by decide) ht
  | resume i => exact h.look (by decide) ht
  | spurious i =>
    obtain ⟨ws,hws,rfl⟩ := Option.map_eq_some_iff.mp ht
    obtain ⟨hasleep,hwoken⟩ := Waiters.move_counts hws
    simp only [if_true, reduceCtorEq, if_false] at hasleep hwoken
    refine ⟨h.exact,?_⟩
    intro hne
    have hawake := h.awake (by omega)
    simp only
    omega

/-- As many calls of `wait` return as units were taken, and none sleeps on a unit that no other thread is
about to take, exactly while the counter does not overflow. -/
theorem everyStep_fits_iff (threads : ℕ) (acts : List SemaphoreAct) :
    EveryStep step Fits (fresh threads) acts ↔ EveryState step Sound (fresh threads) acts := by
  have hfresh : (fresh threads).Sound := by
    refine ⟨rfl,?_⟩
    intro _
    exact Nat.zero_le _
  apply everyStep_iff_everyState hfresh (fun _ h => h) (fun _ _ _ h hfits ht => h.step hfits ht)
  intro s a t h ht hsound
  cases a with
  | post n chosen =>
    obtain ⟨ws,hws,rfl⟩ := Option.map_eq_some_iff.mp ht
    have hexact := h.exact
    have hafter := hsound.exact
    simp only at hafter
    by_contra hover
    have hlt := Nat.mod_lt (s._count + n) (show 0 < 18446744073709551616 by decide)
    have hge : 18446744073709551616 ≤ s._count + n := not_lt.mp hover
    omega
  | wait i => trivial
  | resume i => trivial
  | spurious i => trivial

end Semaphore

/-- What the thread that has the mutex of a latch is at: it has seen the count and goes to sleep, it has
read the count to decrease it, it has written it back. -/
inductive LatchHolder
  | waiting (t : ℕ) (pc : Waiter)
  | counting (count : ℤ)
  | counted

structure CountDownLatch where
  count_ : ℤ
  mutex_ : Option LatchHolder
  waiters : Waiters

inductive LatchAct
  | setCount (count : ℤ)
  | wait (t : ℕ)
  | resume (t : ℕ)
  | sleep
  | spurious (t : ℕ)
  | countDown
  | decrease
  | notify

namespace CountDownLatch

def fresh (threads : ℕ) : CountDownLatch := ⟨1,none,List.replicate threads .away⟩

/-- A thread at the head of the loop of `wait`, with the mutex. -/
def look (s : CountDownLatch) (t : ℕ) (pc : Waiter) : Option CountDownLatch :=
  if 0 < s.count_ then
    if s.waiters[t]? = some pc then some { s with mutex_ := some (.waiting t pc) } else none
  else (s.waiters.move t pc .away).map fun ws => { s with waiters := ws }

/-- There is no behaviour below the least `int`. -/
def step (s : CountDownLatch) : LatchAct → Option CountDownLatch
  | .setCount count => some { s with count_ := count }
  | .wait t => if s.mutex_.isNone then s.look t .away else none
  | .resume t => if s.mutex_.isNone then s.look t .woken else none
  | .sleep =>
    match s.mutex_ with
    | some (.waiting t pc) => (s.waiters.move t pc .asleep).map fun ws => { s with mutex_ := none, waiters := ws }
    | _ => none
  | .spurious t => (s.waiters.move t .asleep .woken).map fun ws => { s with waiters := ws }
  | .countDown =>
    if s.mutex_.isNone ∧ s.count_ ≠ -2147483648 then some { s with mutex_ := some (.counting s.count_) } else none
  | .decrease =>
    match s.mutex_ with
    | some (.counting count) => some { s with count_ := count - 1, mutex_ := some .counted }
    | _ => none
  | .notify =>
    match s.mutex_ with
    | some .counted => some { s with
        mutex_ := none
        waiters := if s.count_ ≤ 0 then s.waiters.notify_all else s.waiters }
    | _ => none

/-- A thread sleeps or goes to sleep. -/
def sleeps (s : CountDownLatch) : Bool :=
  s.waiters.asleep ≠ 0 || match s.mutex_ with
    | some (.waiting _ _) => true
    | _ => false

/-- A call of `countDown` has still to look at the count. -/
def counts (s : CountDownLatch) : Bool :=
  match s.mutex_ with
  | some (.counting _) | some .counted => true
  | _ => false

/-- The latch is not set open over the heads of those that sleep. -/
def InTime (s : CountDownLatch) : LatchAct → Prop
  | .setCount count => count ≤ 0 → s.sleeps = false ∨ s.counts = true
  | _ => True

/-- Nobody sleeps at an open latch, unless it is about to be woken. -/
def Sound (s : CountDownLatch) : Prop := s.sleeps = true → 0 < s.count_ ∨ s.counts = true

variable {s t : CountDownLatch}

theorem sound_look (h : s.Sound) {i : ℕ} {pc : Waiter} (hpc : pc ≠ .asleep) (hfree : s.mutex_ = none)
    (ht : s.look i pc = some t) : t.Sound := by
  unfold look at ht
  split at ht
  · rename_i hclosed
    obtain ⟨_,ht⟩ := Option.ite_none_right_eq_some.mp ht
    obtain rfl := Option.some.inj ht
    exact fun _ => Or.inl hclosed
  · rename_i hopen
    obtain ⟨ws,hws,rfl⟩ := Option.map_eq_some_iff.mp ht
    obtain ⟨hasleep,_⟩ := Waiters.move_counts hws
    simp only [if_neg hpc, reduceCtorEq, if_false, Nat.add_zero] at hasleep
    simpa only [Sound, sleeps, counts, hfree, hasleep] using h

theorem Sound.closed (h : s.Sound) {i : ℕ} {pc : Waiter} (hmutex : s.mutex_ = some (.waiting i pc)) :
    0 < s.count_ := by
  have hclosed := h (by simp [sleeps, hmutex])
  simpa [counts, hmutex] using hclosed

theorem sound_step (h : s.Sound) {a : LatchAct} (hintime : s.InTime a) (ht : s.step a = some t) : t.Sound := by
  cases a with
  | setCount count =>
    obtain rfl := Option.some.inj ht
    intro hsleeps
    by_cases hopen : count ≤ 0
    · rcases hintime hopen with hnone | hcounts
      · exact absurd (hnone.symm.trans hsleeps) Bool.false_ne_true
      · exact Or.inr hcounts
    · exact Or.inl (Int.not_le.mp hopen)
  | wait i =>
    obtain ⟨hfree,ht⟩ := Option.ite_none_right_eq_some.mp ht
    exact sound_look h (by decide) (Option.isNone_iff_eq_none.mp hfree) ht
  | resume i =>
    obtain ⟨hfree,ht⟩ := Option.ite_none_right_eq_some.mp ht
    exact sound_look h (by decide) (Option.isNone_iff_eq_none.mp hfree) ht
  | sleep =>
    simp only [step] at ht
    split at ht
    · rename_i i pc hmutex
      obtain ⟨ws,_,rfl⟩ := Option.map_eq_some_iff.mp ht
      have hclosed := h.closed hmutex
      exact fun _ => Or.inl hclosed
    · cases ht
  | spurious i =>
    obtain ⟨ws,hws,rfl⟩ := Option.map_eq_some_iff.mp ht
    obtain ⟨hasleep,_⟩ := Waiters.move_counts hws
    simp only [if_true, reduceCtorEq, if_false] at hasleep
    intro hsleeps
    refine h ?_
    simp only [sleeps, Bool.or_eq_true, decide_eq_true_eq] at hsleeps ⊢
    exact hsleeps.imp_left fun hne => by omega
  | countDown =>
    obtain ⟨_,ht⟩ := Option.ite_none_right_eq_some.mp ht
    obtain rfl := Option.some.inj ht
    exact fun _ => Or.inr rfl
  | decrease =>
    simp only [step] at ht
    split at ht
    · obtain rfl := Option.some.inj ht
      exact fun _ => Or.inr rfl
    · cases ht
  | notify =>
    simp only [step] at ht
    split at ht
    · obtain rfl := Option.some.inj ht
      intro hsleeps
      by_cases hopen : s.count_ ≤ 0
      · simp [sleeps, hopen, Waiters.asleep_notify_all] at hsleeps
      · exact Or.inl (Int.not_le.mp hopen)
    · cases ht

/-- In every run no thread sleeps at an open latch, or goes to sleep there, that no `countDown` is about to
wake, exactly while `setCount` opens it under no such thread. -/
theorem everyStep_noneSleeps_iff (threads : ℕ) (acts : List LatchAct) :
    EveryStep step InTime (fresh threads) acts ↔ EveryState step Sound (fresh threads) acts := by
  have hfresh : (fresh threads).Sound := fun _ => Or.inl Int.one_pos
  apply everyStep_iff_everyState hfresh (fun _ h => h) (fun _ _ _ h hintime ht => sound_step h hintime ht)
  intro s a t h ht hsound
  cases a with
  | setCount count =>
    obtain rfl := Option.some.inj ht
    intro hopen
    by_cases hsleeps : s.sleeps = true
    · exact Or.inr ((hsound hsleeps).resolve_left (Int.not_lt.mpr hopen))
    · exact Or.inl (by simpa using hsleeps)
  | _ => trivial

end CountDownLatch
end OctCommu.Thread
