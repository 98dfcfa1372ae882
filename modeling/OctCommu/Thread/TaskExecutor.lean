import OctCommu.Lib.Memory
import OctCommu.Lib.Runs
import Mathlib.Algebra.GroupWithZero.Nat
import Mathlib.Data.List.Infix

/-! # The load of an executor, and the choice of one

A poller's thread reports when it goes to sleep and when it wakes up; the load is the
share of the time it ran in. The stamp that is read does not go back. All times are
`uint64_t`.
-/
namespace OctCommu.Thread
open Runs Memory

structure TimeRecord where
  _time : ℕ
  _sleep : Bool
  deriving DecidableEq

def subStamp (a b : ℕ) : ℕ := (a + 18446744073709551616 - b) % 18446744073709551616

def totalTime (rs : List TimeRecord) : ℕ := (rs.map TimeRecord._time).sum

def totalRunTime (rs : List TimeRecord) : ℕ := (rs.map fun r => if r._sleep then 0 else r._time).sum

def totalSleepTime (rs : List TimeRecord) : ℕ := (rs.map fun r => if r._sleep then r._time else 0).sum

structure ThreadLoadCounter where
  _sleeping : Bool
  _last_sleep_time : ℕ
  _last_wake_time : ℕ
  _max_size : ℕ
  _max_usec : ℕ
  _time_list : List TimeRecord

namespace ThreadLoadCounter

def push (c : ThreadLoadCounter) (r : TimeRecord) : List TimeRecord :=
  if c._max_size < (c._time_list ++ [r]).length then (c._time_list ++ [r]).tail else c._time_list ++ [r]

def startSleep (c : ThreadLoadCounter) (now : ℕ) : ThreadLoadCounter :=
  { c with
    _sleeping := true
    _last_sleep_time := now
    _time_list := c.push ⟨subStamp now c._last_wake_time,false⟩ }

def sleepWakeUp (c : ThreadLoadCounter) (now : ℕ) : ThreadLoadCounter :=
  { c with
    _sleeping := false
    _last_wake_time := now
    _time_list := c.push ⟨subStamp now c._last_sleep_time,true⟩ }

/-- The `while` of `load`: what is left of the list, of the run time and of the total time. -/
def trim (max_size max_usec : ℕ) : List TimeRecord → ℕ → ℕ → List TimeRecord × ℕ × ℕ
  | [], run, total => ([],run,total)
  | r :: rs, run, total =>
    if max_usec < total ∨ max_size < (r :: rs).length then
      trim max_size max_usec rs (if r._sleep then run else subStamp run r._time) (subStamp total r._time)
    else (r :: rs,run,total)

def load (c : ThreadLoadCounter) (now : ℕ) : ℤ × ThreadLoadCounter :=
  let sleep := (totalSleepTime c._time_list + if c._sleeping then subStamp now c._last_sleep_time else 0) %
    18446744073709551616
  let run := (totalRunTime c._time_list + if c._sleeping then 0 else subStamp now c._last_wake_time) %
    18446744073709551616
  let r := trim c._max_size c._max_usec c._time_list run ((run + sleep) % 18446744073709551616)
  (if r.2.2 = 0 then 0 else toInt32 (r.2.1 * 100 % 18446744073709551616 / r.2.2 : ℕ),{ c with _time_list := r.1 })

end ThreadLoadCounter

/-- A counter and its thread, since the counter was made; the last three are what happened: whether the
thread is awake, since when, and all that it did before. -/
structure LoadedThread where
  counter : ThreadLoadCounter
  clock : ℕ
  awake : Bool
  since : ℕ
  history : List TimeRecord

inductive LoadAct where
  | tick (d : ℕ)
  | startSleep
  | sleepWakeUp
  | load

namespace LoadedThread

def fresh (max_size max_usec now : ℕ) : LoadedThread := ⟨⟨true,now,now,max_size,max_usec,[]⟩,now,true,now,[]⟩

def step (s : LoadedThread) : LoadAct → Option LoadedThread
  | .tick d => some { s with clock := s.clock + d }
  | .startSleep =>
    if s.awake then some { s with
      counter := s.counter.startSleep s.clock
      awake := false
      since := s.clock
      history := s.history ++ [⟨s.clock - s.since,false⟩] }
    else none
  | .sleepWakeUp =>
    if s.awake then none
    else some { s with
      counter := s.counter.sleepWakeUp s.clock
      awake := true
      since := s.clock
      history := s.history ++ [⟨s.clock - s.since,true⟩] }
  | .load => some { s with counter := (s.counter.load s.clock).2 }

/-- `w` is the most of the recent past that is in the bounds, the `d` since its end included. -/
structure Window (max_size max_usec : ℕ) (history : List TimeRecord) (d : ℕ) (w : List TimeRecord) : Prop where
  recent : w <:+ history
  size : w.length ≤ max_size
  time : w ≠ [] → totalTime w + d ≤ max_usec
  most : ∀ v, v <:+ history → v.length ≤ max_size → totalTime v + d ≤ max_usec → v <:+ w

/-- The share of the run time in hundredths, where the thread has slept or run for the last `d`. -/
def percent (w : List TimeRecord) (sleeping : Bool) (d : ℕ) : ℕ :=
  (totalRunTime w + if sleeping then 0 else d) * 100 / (totalTime w + d)

/-- What `load` returns depends on what the thread did, not on when it was asked before; a counter begins
as that of a sleeper, whatever its thread does before it first sleeps. -/
def Measured (s : LoadedThread) : Prop :=
  s.clock * 100 < 18446744073709551616 → ∃ w, Window s.counter._max_size s.counter._max_usec s.history
      (s.clock - s.since) w ∧
    (s.counter.load s.clock).1 = (if s.history = [] then 0 else percent w (!s.awake) (s.clock - s.since) : ℕ) ∧
    percent w (!s.awake) (s.clock - s.since) ≤ 100

structure Inv (s : LoadedThread) : Prop where
  since : s.since ≤ s.clock
  past : totalTime s.history + (s.clock - s.since) ≤ s.clock
  wake : s.awake = true → s.counter._last_wake_time = s.since
  asleep : s.awake = false → s.counter._sleeping = true
  sleep : s.counter._sleeping = true → s.counter._last_sleep_time = s.since
  woken : s.counter._sleeping = false → s.counter._last_wake_time = s.since
  first : s.history = [] → s.counter._sleeping = true
  later : s.history ≠ [] → s.counter._sleeping = !s.awake
  recent : s.counter._time_list <:+ s.history
  size : s.counter._time_list.length ≤ s.counter._max_size
  kept : ∀ v, v <:+ s.history → v.length ≤ s.counter._max_size →
    totalTime v + (s.clock - s.since) ≤ s.counter._max_usec → v <:+ s.counter._time_list

variable {rs v w : List TimeRecord} {r : TimeRecord}

theorem totalTime_eq (rs : List TimeRecord) : totalRunTime rs + totalSleepTime rs = totalTime rs := by
  induction rs with
  | nil => rfl
  | cons r rs ih =>
    simp only [totalRunTime, totalSleepTime, totalTime, List.map_cons, List.sum_cons] at ih ⊢
    split <;> omega

theorem totalTime_append (rs qs : List TimeRecord) : totalTime (rs ++ qs) = totalTime rs + totalTime qs := by
  simp [totalTime]

theorem totalTime_le_of_suffix (h : v <:+ w) : totalTime v ≤ totalTime w := by
  obtain ⟨q,rfl⟩ := h
  rw [totalTime_append]
  exact Nat.le_add_left _ _

theorem subStamp_of_le {a b : ℕ} (hab : b ≤ a) (ha : a < 18446744073709551616) : subStamp a b = a - b := by
  unfold subStamp
  omega

theorem percent_le (w : List TimeRecord) (sleeping : Bool) (d : ℕ) : percent w sleeping d ≤ 100 := by
  have htotal := totalTime_eq w
  apply Nat.div_le_of_le_mul
  apply Nat.mul_le_mul_right
  split <;> omega

/-- The loop drops what no window reaches, and takes it off both sums. -/
theorem trim_eq (max_size max_usec : ℕ) (rs : List TimeRecord) (hsize : rs.length ≤ max_size) {a d : ℕ}
    (hfit : totalTime rs + d < 18446744073709551616) (had : a ≤ d) :
    ∃ w, ThreadLoadCounter.trim max_size max_usec rs (totalRunTime rs + a) (totalTime rs + d) =
        (w,totalRunTime w + a,totalTime w + d) ∧
      w <:+ rs ∧ (w ≠ [] → totalTime w + d ≤ max_usec) ∧
      ∀ v, v <:+ rs → totalTime v + d ≤ max_usec → v <:+ w := by
  induction rs with
  | nil => exact ⟨[],rfl,List.suffix_rfl,fun h => absurd rfl h,fun _ h _ => h⟩
  | cons r rs ih =>
    rw [ThreadLoadCounter.trim]
    by_cases hlong : max_usec < totalTime (r :: rs) + d
    · rw [if_pos (Or.inl hlong)]
      have hrun : (if r._sleep then totalRunTime (r :: rs) + a else subStamp (totalRunTime (r :: rs) + a) r._time) =
          totalRunTime rs + a := by
        have htotal := totalTime_eq (r :: rs)
        split
        · rename_i hsleep
          simp [totalRunTime, hsleep]
        · rename_i hsleep
          have hcons : totalRunTime (r :: rs) = r._time + totalRunTime rs := by simp [totalRunTime, hsleep]
          rw [subStamp_of_le (by omega) (by omega)]
          omega
      have htotal : subStamp (totalTime (r :: rs) + d) r._time = totalTime rs + d := by
        have hcons : totalTime (r :: rs) = r._time + totalTime rs := by simp [totalTime]
        rw [subStamp_of_le (by omega) (by omega)]
        omega
      rw [hrun, htotal]
      have hcons : totalTime (r :: rs) = r._time + totalTime rs := by simp [totalTime]
      obtain ⟨w,heq,hsuffix,htime,hmost⟩ := ih (by rw [List.length_cons] at hsize; omega) (by omega)
      refine ⟨w,heq,hsuffix.trans (List.suffix_cons r rs),htime,?_⟩
      intro v hv hvtime
      rcases List.suffix_cons_iff.mp hv with rfl | hv
      · omega
      · exact hmost v hv hvtime
    · rw [if_neg (by omega)]
      exact ⟨r :: rs,rfl,List.suffix_rfl,fun _ => by omega,fun _ hv _ => hv⟩

variable {s t : LoadedThread}

theorem inv_fresh (max_size max_usec now : ℕ) : (fresh max_size max_usec now).Inv where
  since := le_rfl
  past := by simp [fresh, totalTime]
  wake _ := rfl
  asleep h := by cases h
  sleep _ := rfl
  woken h := by cases h
  first _ := rfl
  later h := absurd rfl h
  recent := List.suffix_rfl
  size := Nat.zero_le _
  kept _ h _ _ := h

/-- The open interval. -/
theorem Inv.sums (h : s.Inv) (hclock : s.clock * 100 < 18446744073709551616) :
    ((totalSleepTime s.counter._time_list +
      if s.counter._sleeping then subStamp s.clock s.counter._last_sleep_time else 0) % 18446744073709551616 =
        totalSleepTime s.counter._time_list + if s.counter._sleeping then s.clock - s.since else 0) ∧
    ((totalRunTime s.counter._time_list +
      if s.counter._sleeping then 0 else subStamp s.clock s.counter._last_wake_time) % 18446744073709551616 =
        totalRunTime s.counter._time_list + if s.counter._sleeping then 0 else s.clock - s.since) := by
  have htotal := totalTime_eq s.counter._time_list
  have hsuffix := totalTime_le_of_suffix h.recent
  have hpast := h.past
  have hsince := h.since
  cases hsleeping : s.counter._sleeping with
  | true =>
    simp only [if_true, h.sleep hsleeping]
    rw [subStamp_of_le hsince (by omega)]
    omega
  | false =>
    simp only [Bool.false_eq_true, if_false, h.woken hsleeping]
    rw [subStamp_of_le hsince (by omega)]
    omega

/-- What `load` returns and leaves. -/
theorem Inv.load_eq (h : s.Inv) (hclock : s.clock * 100 < 18446744073709551616) :
    ∃ w, Window s.counter._max_size s.counter._max_usec s.history (s.clock - s.since) w ∧
      s.counter.load s.clock =
        ((percent w s.counter._sleeping (s.clock - s.since) : ℤ),{ s.counter with _time_list := w }) ∧
      w <:+ s.counter._time_list := by
  have htotal := totalTime_eq s.counter._time_list
  have hsuffix := totalTime_le_of_suffix h.recent
  have hpast := h.past
  have hsince := h.since
  obtain ⟨hsleep,hrun⟩ := h.sums hclock
  have hboth : totalRunTime s.counter._time_list + (if s.counter._sleeping then 0 else s.clock - s.since) +
      (totalSleepTime s.counter._time_list + if s.counter._sleeping then s.clock - s.since else 0) =
        totalTime s.counter._time_list + (s.clock - s.since) := by
    split <;> omega
  obtain ⟨w,htrim,hw,htime,hmost⟩ := trim_eq s.counter._max_size s.counter._max_usec
    s.counter._time_list h.size (a := if s.counter._sleeping then 0 else s.clock - s.since) (d := s.clock - s.since)
    (by omega) (by split <;> omega)
  refine ⟨w,⟨hw.trans h.recent,hw.length_le.trans h.size,htime,fun v hv hlen hvtime =>
    hmost v (h.kept v hv hlen hvtime) hvtime⟩,?_,hw⟩
  unfold ThreadLoadCounter.load
  dsimp only
  rw [hsleep, hrun, hboth, Nat.mod_eq_of_lt (by omega), htrim]
  have hle := percent_le w s.counter._sleeping (s.clock - s.since)
  have hwtotal := totalTime_eq w
  have hwle := totalTime_le_of_suffix hw
  have hmod : (totalRunTime w + if s.counter._sleeping then 0 else s.clock - s.since) * 100 % 18446744073709551616 =
      (totalRunTime w + if s.counter._sleeping then 0 else s.clock - s.since) * 100 := by
    apply Nat.mod_eq_of_lt
    split <;> omega
  congr 1
  dsimp only
  rw [hmod]
  split
  · rename_i hzero
    rw [percent, hzero, Nat.div_zero]
    rfl
  · change toInt32 ((percent w s.counter._sleeping (s.clock - s.since) : ℕ) : ℤ) = _
    exact toInt32_of_lt (by omega) (by omega)

theorem Inv.measured (h : s.Inv) : s.Measured := by
  intro hclock
  obtain ⟨w,hwindow,heq,_⟩ := h.load_eq hclock
  refine ⟨w,hwindow,?_,percent_le _ _ _⟩
  rw [heq]
  split
  · rename_i hnone
    have hw := hwindow.recent
    rw [hnone, List.suffix_nil] at hw
    rw [hw, h.first hnone, percent]
    simp [totalRunTime]
  · rename_i hsome
    rw [h.later hsome]

/-- A record that is pushed ends the window, and what falls off the front was in none. -/
theorem Inv.push (h : s.Inv) (sleep : Bool) :
    s.counter.push ⟨s.clock - s.since,sleep⟩ <:+ s.history ++ [⟨s.clock - s.since,sleep⟩] ∧
    (s.counter.push ⟨s.clock - s.since,sleep⟩).length ≤ s.counter._max_size ∧
    ∀ v, v <:+ s.history ++ [⟨s.clock - s.since,sleep⟩] → v.length ≤ s.counter._max_size →
      totalTime v + (s.clock - s.clock) ≤ s.counter._max_usec → v <:+ s.counter.push ⟨s.clock - s.since,sleep⟩ := by
  have hsize := h.size
  have hrecent : s.counter._time_list ++ [⟨s.clock - s.since,sleep⟩] <:+
      s.history ++ [⟨s.clock - s.since,sleep⟩] := by
    obtain ⟨q,hq⟩ := h.recent
    exact ⟨q,by rw [← List.append_assoc, hq]⟩
  have hkept : ∀ v, v <:+ s.history ++ [⟨s.clock - s.since,sleep⟩] → v.length ≤ s.counter._max_size →
      totalTime v + (s.clock - s.clock) ≤ s.counter._max_usec →
      v <:+ s.counter._time_list ++ [⟨s.clock - s.since,sleep⟩] := by
    intro v hv hlen htime
    rcases List.suffix_concat_iff.mp hv with rfl | ⟨u,rfl,hu⟩
    · exact List.nil_suffix
    · rw [totalTime_append] at htime
      rw [List.length_append, List.length_singleton] at hlen
      obtain ⟨q,hq⟩ := h.kept u hu (by omega) (by simp [totalTime] at htime ⊢; omega)
      exact ⟨q,by rw [← List.append_assoc, hq]⟩
  unfold ThreadLoadCounter.push
  split
  · rename_i hlong
    refine ⟨(List.tail_suffix _).trans hrecent,?_,?_⟩
    · rw [List.length_tail, List.length_append, List.length_singleton]
      omega
    · intro v hv hlen htime
      obtain ⟨a,l,hl⟩ := List.exists_cons_of_ne_nil
        (List.append_ne_nil_of_right_ne_nil s.counter._time_list (List.cons_ne_nil ⟨s.clock - s.since,sleep⟩ []))
      have hv' := hkept v hv hlen htime
      rw [hl] at hv' hlong ⊢
      rcases List.suffix_cons_iff.mp hv' with rfl | hv'
      · omega
      · exact hv'
  · rename_i hshort
    exact ⟨hrecent,by omega,hkept⟩

theorem Inv.step (h : s.Inv) {a : LoadAct} (hclock : t.clock * 100 < 18446744073709551616)
    (ht : step s a = some t) : t.Inv := by
  have hsince := h.since
  have hpast := h.past
  cases a with
  | tick d =>
    obtain rfl := Option.some.inj ht
    refine ⟨?_,?_,h.wake,h.asleep,h.sleep,h.woken,h.first,h.later,h.recent,h.size,?_⟩
    · dsimp only
      omega
    · dsimp only
      omega
    · intro v hv hlen htime
      dsimp only at htime
      exact h.kept v hv hlen (by omega)
  | startSleep =>
    simp only [LoadedThread.step] at ht
    split at ht
    · rename_i hawake
      obtain rfl := Option.some.inj ht
      dsimp only at hclock
      obtain ⟨hrecent,hsize,hkept⟩ := h.push false
      have hrun : subStamp s.clock s.counter._last_wake_time = s.clock - s.since := by
        rw [h.wake hawake]
        exact subStamp_of_le hsince (by omega)
      refine ⟨le_rfl,?_,fun hc => (by cases hc),fun _ => rfl,fun _ => rfl,fun hc => (by cases hc),
        fun _ => rfl,fun _ => rfl,?_,?_,?_⟩
      · dsimp only
        rw [totalTime_append]
        simp only [totalTime, List.map_cons, List.map_nil, List.sum_cons, List.sum_nil] at hpast ⊢
        omega
      all_goals
        simp only [ThreadLoadCounter.startSleep, hrun]
        assumption
    · cases ht
  | sleepWakeUp =>
    simp only [LoadedThread.step] at ht
    split at ht
    · cases ht
    · rename_i hawake
      obtain rfl := Option.some.inj ht
      dsimp only at hclock
      obtain ⟨hrecent,hsize,hkept⟩ := h.push true
      have hsleep : subStamp s.clock s.counter._last_sleep_time = s.clock - s.since := by
        rw [h.sleep (h.asleep (by simpa using hawake))]
        exact subStamp_of_le hsince (by omega)
      refine ⟨le_rfl,?_,fun _ => rfl,fun hc => (by cases hc),fun hc => (by cases hc),fun _ => rfl,
        fun hc => absurd hc (List.append_ne_nil_of_right_ne_nil _ (List.cons_ne_nil _ _)),fun _ => rfl,?_,?_,?_⟩
      · dsimp only
        rw [totalTime_append]
        simp only [totalTime, List.map_cons, List.map_nil, List.sum_cons, List.sum_nil] at hpast ⊢
        omega
      all_goals
        simp only [ThreadLoadCounter.sleepWakeUp, hsleep]
        assumption
  | load =>
    obtain rfl := Option.some.inj ht
    dsimp only at hclock
    obtain ⟨w,hwindow,heq,hw⟩ := h.load_eq hclock
    rw [heq]
    exact ⟨hsince,hpast,h.wake,h.asleep,h.sleep,h.woken,h.first,h.later,hwindow.recent,hwindow.size,hwindow.most⟩

theorem clock_le_of_step {a : LoadAct} (ht : step s a = some t) : s.clock ≤ t.clock := by
  cases a with
  | tick d =>
    obtain rfl := Option.some.inj ht
    exact Nat.le_add_right _ _
  | startSleep | sleepWakeUp =>
    simp only [LoadedThread.step] at ht
    split at ht <;> cases ht
    exact le_rfl
  | load =>
    obtain rfl := Option.some.inj ht
    exact le_rfl

/-- In every run of reports and readings the load is the share of the run time in the recent past, from the
first sleep on. -/
theorem everyState_measured (max_size max_usec now : ℕ) (acts : List LoadAct) :
    EveryState step Measured (fresh max_size max_usec now) acts := by
  have hstep : ∀ (s : LoadedThread) (a : LoadAct) (t : LoadedThread),
      (s.clock * 100 < 18446744073709551616 → s.Inv) → step s a = some t →
      t.clock * 100 < 18446744073709551616 → t.Inv := by
    intro s a t h ht hclock
    have hle := clock_le_of_step ht
    exact (h (by omega)).step hclock ht
  exact (everyState_of_preserves hstep (fun _ => inv_fresh max_size max_usec now) acts).mono
    fun s h hclock => (h hclock).measured hclock

end LoadedThread

/-- `getExecutor` on its way: `reads` are the loads it has read, of which executor and what. -/
structure GetExecutor where
  thread_pos : ℕ
  executor_min_load : ℕ
  min_load : ℤ
  reads : List (ℕ × ℤ)

namespace GetExecutor

/-- One round of the loop, before `++thread_pos`; the loads may change from reading to reading. -/
def round (n : ℕ) (load : ℕ → ℕ → ℤ) (g : GetExecutor) : GetExecutor :=
  let pos := if n ≤ g.thread_pos then 0 else g.thread_pos
  let l := load g.reads.length pos
  { thread_pos := pos
    executor_min_load := if l < g.min_load then pos else g.executor_min_load
    min_load := if l < g.min_load then l else g.min_load
    reads := g.reads ++ [(pos,l)] }

def loop (n : ℕ) (load : ℕ → ℕ → ℤ) : ℕ → GetExecutor → GetExecutor
  | 0, g => g
  | k + 1, g =>
    let g := round n load g
    if g.min_load = 0 then g else loop n load k { g with thread_pos := g.thread_pos + 1 }

/-- `thread_pos` at the end is the `_thread_pos` of the next call. -/
def run (n : ℕ) (load : ℕ → ℕ → ℤ) (_thread_pos : ℕ) : GetExecutor :=
  let pos := if n ≤ _thread_pos then 0 else _thread_pos
  loop n load n ⟨pos,pos,load 0 pos,[(pos,load 0 pos)]⟩

/-- What a call may go by: the loads as it has read them, of which it has the least. -/
structure Chosen (n : ℕ) (load : ℕ → ℕ → ℤ) (g : GetExecutor) : Prop where
  valid : g.executor_min_load < n
  read : (g.executor_min_load,g.min_load) ∈ g.reads
  least : ∀ r ∈ g.reads, g.min_load ≤ r.2
  reads : ∀ i r, g.reads[i]? = some r → r.2 = load i r.1

/-- Before the next of the rounds of a call that began at `start`. -/
structure Inv (n start k : ℕ) (load : ℕ → ℕ → ℤ) (g : GetExecutor) : Prop extends Chosen n load g where
  pos : g.thread_pos ≤ n
  next : g.thread_pos % n = (start + k) % n
  seen : ∀ j < k, ∃ l, ((start + j) % n,l) ∈ g.reads

variable {n start k : ℕ} {g : GetExecutor} {load : ℕ → ℕ → ℤ}

theorem Inv.round (h : g.Inv n start k load) (hn : 0 < n) :
    Inv n start (k + 1) load { g.round n load with thread_pos := (g.round n load).thread_pos + 1 } := by
  have hpos := h.pos
  have hlt : (if n ≤ g.thread_pos then 0 else g.thread_pos) < n := by
    split <;> omega
  have hnext : (if n ≤ g.thread_pos then 0 else g.thread_pos) % n = (start + k) % n := by
    rw [← h.next]
    split
    · rw [show g.thread_pos = n by omega, Nat.mod_self, Nat.zero_mod]
    · rfl
  unfold GetExecutor.round
  generalize (if n ≤ g.thread_pos then 0 else g.thread_pos) = pos at hlt hnext
  dsimp only
  refine ⟨⟨?_,?_,?_,?_⟩,hlt,?_,?_⟩
  · dsimp only
    split
    · exact hlt
    · exact h.valid
  · dsimp only
    split
    · exact List.mem_append_right _ (List.mem_singleton.mpr rfl)
    · exact List.mem_append_left _ h.read
  · intro r hr
    rcases List.mem_append.mp hr with hr | hr
    · have hle := h.least r hr
      dsimp only
      split <;> omega
    · obtain rfl := List.mem_singleton.mp hr
      dsimp only
      split <;> omega
  · intro i r hr
    rw [List.getElem?_append] at hr
    split at hr
    · exact h.reads i r hr
    · obtain ⟨hi,rfl⟩ := List.getElem?_eq_some_iff.mp hr
      rw [List.length_singleton] at hi
      have hi : i = g.reads.length := by omega
      subst hi
      simp
  · dsimp only
    rw [← Nat.add_assoc, Nat.add_mod, hnext, ← Nat.add_mod]
  · intro j hj
    by_cases hjk : j = k
    · subst hjk
      refine ⟨load g.reads.length pos,List.mem_append_right _ (List.mem_singleton.mpr ?_)⟩
      rw [← hnext, Nat.mod_eq_of_lt hlt]
    · obtain ⟨l,hl⟩ := h.seen j (by omega)
      exact ⟨l,List.mem_append_left _ hl⟩

/-- A call that is not cut short sees them all. -/
theorem Inv.loop (h : g.Inv n start k load) (hn : 0 < n) (m : ℕ) :
    (loop n load m g).Chosen n load ∧
    ((loop n load m g).min_load = 0 ∨ ∀ j < k + m, ∃ l, ((start + j) % n,l) ∈ (loop n load m g).reads) := by
  induction m generalizing g k with
  | zero => exact ⟨h.toChosen,Or.inr h.seen⟩
  | succ m ih =>
    have hround := h.round hn
    simp only [GetExecutor.loop]
    split
    · rename_i hzero
      exact ⟨⟨hround.valid,hround.read,hround.least,hround.reads⟩,Or.inl hzero⟩
    · have hrest := ih hround
      rw [Nat.add_right_comm, Nat.add_assoc] at hrest
      exact hrest

/-- The call returns the least of the loads it reads, and unless it finds an idle executor it has read
those of all, wherever it began and whatever the loads did in between. -/
theorem run_chosen (n : ℕ) (load : ℕ → ℕ → ℤ) (_thread_pos : ℕ) :
    (run (n + 1) load _thread_pos).Chosen (n + 1) load ∧
    ((run (n + 1) load _thread_pos).min_load = 0 ∨
      ∀ i < n + 1, ∃ l, (i,l) ∈ (run (n + 1) load _thread_pos).reads) := by
  have hlt : (if n + 1 ≤ _thread_pos then 0 else _thread_pos) < n + 1 := by
    split <;> omega
  generalize hstart : (if n + 1 ≤ _thread_pos then 0 else _thread_pos) = start at hlt
  have hinv : Inv (n + 1) start 0 load ⟨start,start,load 0 start,[(start,load 0 start)]⟩ := by
    refine ⟨⟨hlt,List.mem_singleton.mpr rfl,?_,?_⟩,hlt.le,rfl,fun j hj => absurd hj (Nat.not_lt_zero j)⟩
    · intro r hr
      obtain rfl := List.mem_singleton.mp hr
      exact Int.le_refl (load 0 start)
    · intro i r hr
      obtain ⟨hi,rfl⟩ := List.getElem?_eq_some_iff.mp hr
      rw [List.length_singleton] at hi
      obtain rfl : i = 0 := by omega
      rfl
  obtain ⟨hchosen,hall⟩ := hinv.loop (Nat.succ_pos n) (n + 1)
  rw [run, hstart]
  refine ⟨hchosen,hall.imp id fun hseen i hi => ?_⟩
  obtain ⟨l,hl⟩ := hseen (if start ≤ i then i - start else i + (n + 1) - start) (by split <;> omega)
  refine ⟨l,?_⟩
  have hmod : (start + if start ≤ i then i - start else i + (n + 1) - start) % (n + 1) = i := by
    split
    · rw [show start + (i - start) = i by omega, Nat.mod_eq_of_lt hi]
    · rw [show start + (i + (n + 1) - start) = i + (n + 1) by omega, Nat.add_mod_right, Nat.mod_eq_of_lt hi]
  rw [hmod] at hl
  exact hl

end GetExecutor

end OctCommu.Thread
