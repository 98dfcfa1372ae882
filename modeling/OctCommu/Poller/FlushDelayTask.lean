import OctCommu.Lib.Runs
import OctCommu.Poller.DelayTask

/-! # `EventPoller::flushDelayTask`

A whole flush. What the user code of the tasks does is a script: its entry `k` is what
the task does that is entered as number `k`. The entries that are due leave the map one
by one, and what the tasks schedule meanwhile is collected in the map that is now live.
-/
namespace OctCommu.Poller
open Multimap
variable {K : Type*}

/-- What the user code of a task can do to the poller it runs on. -/
inductive TaskAct (K : Type*) where
  /-- Another value of the clock. -/
  | clock (now : ℕ)
  | doDelayTask (delay_ms : ℕ) (kind : K)
  | cancel (i : ℕ)
  deriving DecidableEq

/-- A task that is entered: it returns a delay, or throws a `std::exception`. -/
structure TaskRun (K : Type*) where
  acts : List (TaskAct K)
  next_delay : Option ℕ
  deriving DecidableEq

/-- An entry that left the map, the poller at that moment and what its task did, unless it was
cancelled. -/
structure Turn (K : Type*) where
  entry : ℕ × ℕ
  start : DelayPoller K
  run : Option (TaskRun K)
  deriving DecidableEq

def TaskAct.run : TaskAct K → DelayPoller K → DelayPoller K
  | .clock now,p => { p with now := now }
  | .doDelayTask delay_ms kind,p => p.doDelayTask delay_ms kind
  | .cancel i,p => p.cancel i

/-- The entries that a task makes, in this order. -/
def TaskAct.entries : List (TaskAct K) → DelayPoller K → List (ℕ × ℕ)
  | [],_ => []
  | .doDelayTask delay_ms kind :: acts,p =>
    (addTime p.now delay_ms,p.tasks.length) :: entries acts (p.doDelayTask delay_ms kind)
  | a :: acts,p => entries acts (a.run p)

/-- The body of the loop, with the task `i` entered. -/
def TaskRun.run (r : TaskRun K) (now_time i : ℕ) (p : DelayPoller K) : DelayPoller K :=
  let p := r.acts.foldl (fun p a => a.run p) p
  match r.next_delay with
  | none => p
  | some next_delay =>
    if next_delay = 0 then p
    else { p with _delay_task_map := emplace (addTime next_delay now_time,i) p._delay_task_map }

/-- The entry of a task that wants to run again. -/
def TaskRun.again (r : TaskRun K) (now_time i : ℕ) : List (ℕ × ℕ) :=
  match r.next_delay with
  | none => []
  | some next_delay => if next_delay = 0 then [] else [(addTime next_delay now_time,i)]

/-- What joined the map in this turn. -/
def Turn.inserted (now_time : ℕ) (t : Turn K) : List (ℕ × ℕ) :=
  match t.run with
  | none => []
  | some r => TaskAct.entries r.acts t.start ++ r.again now_time t.entry.2

def Turn.cancels (i : ℕ) (t : Turn K) : Prop := ∃ r, t.run = some r ∧ TaskAct.cancel i ∈ r.acts

structure Flushed (K : Type*) where
  turns : List (Turn K)
  task_copy : List (ℕ × ℕ)
  poller : DelayPoller K
  deriving DecidableEq

namespace DelayPoller

/-- The loop of `flushDelayTask`, with the number of tasks entered before. -/
def flushLoop (script : ℕ → TaskRun K) (now_time : ℕ) :
    List (ℕ × ℕ) → ℕ → DelayPoller K → Flushed K
  | [],_,p => ⟨[],[],p⟩
  | (time,i) :: rest,k,p =>
    if time ≤ now_time then
      if p.strong i then
        let f := flushLoop script now_time rest (k + 1) ((script k).run now_time i p)
        { f with turns := ⟨(time,i),p,some (script k)⟩ :: f.turns }
      else
        let f := flushLoop script now_time rest k p
        { f with turns := ⟨(time,i),p,none⟩ :: f.turns }
    else ⟨[],(time,i) :: rest,p⟩

def flushDelayTask (script : ℕ → TaskRun K) (now_time : ℕ) (p : DelayPoller K) : Flushed K :=
  let f := flushLoop script now_time p._delay_task_map 0 { p with _delay_task_map := [] }
  { f with poller := { f.poller with
      _delay_task_map := insertRange f.task_copy f.poller._delay_task_map } }

/-- A `multimap` on `uint64_t`, whose entries are of tasks that were made. -/
structure WellFormed (p : DelayPoller K) : Prop where
  sorted : Sorted p._delay_task_map
  time : ∀ e ∈ p._delay_task_map, e.1 < 18446744073709551616
  made : ∀ e ∈ p._delay_task_map, e.2 < p.tasks.length

end DelayPoller

/-! ### What a task does -/

theorem addTime_lt (a b : ℕ) : addTime a b < 18446744073709551616 :=
  Nat.mod_lt _ (by decide)

namespace TaskAct

theorem run_map (acts : List (TaskAct K)) (p : DelayPoller K) :
    (acts.foldl (fun p a => a.run p) p)._delay_task_map =
      insertRange p._delay_task_map (entries acts p) := by
  induction acts generalizing p with
  | nil => rfl
  | cons a acts ih =>
    rw [List.foldl_cons, ih]
    cases a with
    | clock now => rfl
    | doDelayTask delay_ms kind => rfl
    | cancel i => rfl

theorem run_length (a : TaskAct K) (p : DelayPoller K) : p.tasks.length ≤ (a.run p).tasks.length := by
  cases a with
  | clock now => exact le_rfl
  | doDelayTask delay_ms kind => simp [run, DelayPoller.doDelayTask]
  | cancel i => simp [run, DelayPoller.cancel]

theorem foldl_length (acts : List (TaskAct K)) (p : DelayPoller K) :
    p.tasks.length ≤ (acts.foldl (fun p a => a.run p) p).tasks.length := by
  induction acts generalizing p with
  | nil => exact le_rfl
  | cons a acts ih => exact (a.run_length p).trans (ih _)

theorem foldl_flush (acts : List (TaskAct K)) (p : DelayPoller K) :
    (acts.foldl (fun p a => a.run p) p).flush = p.flush := by
  induction acts generalizing p with
  | nil => rfl
  | cons a acts ih =>
    rw [List.foldl_cons, ih]
    cases a with
    | clock now => rfl
    | doDelayTask delay_ms kind => rfl
    | cancel i => rfl

/-- A task that was made is cancelled by a `cancel` of it and by nothing else. -/
theorem run_strong (a : TaskAct K) {p : DelayPoller K} {i : ℕ} (hi : i < p.tasks.length) :
    (a.run p).strong i = true ↔ p.strong i = true ∧ a ≠ .cancel i := by
  cases a with
  | clock now => simp [run, DelayPoller.strong]
  | doDelayTask delay_ms kind =>
    simp [run, DelayPoller.strong, DelayPoller.doDelayTask, List.getElem?_append_left hi]
  | cancel j =>
    by_cases hj : j = i
    · subst hj
      simp [run, DelayPoller.strong, DelayPoller.cancel, List.getElem?_eq_getElem hi]
    · simp [run, DelayPoller.strong, DelayPoller.cancel, hj]

theorem foldl_strong (acts : List (TaskAct K)) {p : DelayPoller K} {i : ℕ} (hi : i < p.tasks.length) :
    (acts.foldl (fun p a => a.run p) p).strong i = true ↔ p.strong i = true ∧ .cancel i ∉ acts := by
  induction acts generalizing p with
  | nil => simp
  | cons a acts ih =>
    rw [List.foldl_cons, ih (hi.trans_le (a.run_length p)), a.run_strong hi, List.mem_cons, not_or,
      and_assoc, ne_comm]

theorem entries_lt (acts : List (TaskAct K)) (p : DelayPoller K) :
    ∀ e ∈ entries acts p, e.1 < 18446744073709551616 ∧
      e.2 < (acts.foldl (fun p a => a.run p) p).tasks.length := by
  induction acts generalizing p with
  | nil => simp [entries]
  | cons a acts ih =>
    intro e he
    cases a with
    | clock now => exact ih _ e he
    | doDelayTask delay_ms kind =>
      rcases List.mem_cons.mp he with rfl | he
      · refine ⟨addTime_lt _ _,?_⟩
        have h := foldl_length acts (p.doDelayTask delay_ms kind)
        rw [DelayPoller.length_doDelayTask] at h
        exact h
      · exact ih _ e he
    | cancel i => exact ih _ e he

end TaskAct

namespace TaskRun

theorem run_map (r : TaskRun K) (now_time i : ℕ) (p : DelayPoller K) :
    (r.run now_time i p)._delay_task_map =
      insertRange p._delay_task_map (TaskAct.entries r.acts p ++ r.again now_time i) := by
  rw [insertRange_append, ← TaskAct.run_map]
  unfold run again
  cases r.next_delay with
  | none => rfl
  | some next_delay =>
    by_cases hz : next_delay = 0
    · simp [hz]
    · simp [hz]

theorem run_tasks (r : TaskRun K) (now_time i : ℕ) (p : DelayPoller K) :
    (r.run now_time i p).tasks = (r.acts.foldl (fun p a => a.run p) p).tasks := by
  unfold run
  cases r.next_delay with
  | none => rfl
  | some next_delay =>
    by_cases hz : next_delay = 0
    · simp [hz]
    · simp [hz]

theorem run_flush (r : TaskRun K) (now_time i : ℕ) (p : DelayPoller K) :
    (r.run now_time i p).flush = p.flush := by
  have hacts : (r.acts.foldl (fun p a => a.run p) p).flush = p.flush := TaskAct.foldl_flush _ _
  unfold run
  cases r.next_delay with
  | none => exact hacts
  | some next_delay =>
    by_cases hz : next_delay = 0
    · simpa [hz] using hacts
    · simpa [hz] using hacts

theorem run_length (r : TaskRun K) (now_time i : ℕ) (p : DelayPoller K) :
    p.tasks.length ≤ (r.run now_time i p).tasks.length := by
  rw [run_tasks]
  exact TaskAct.foldl_length _ _

theorem run_strong (r : TaskRun K) (now_time j : ℕ) {p : DelayPoller K} {i : ℕ}
    (hi : i < p.tasks.length) :
    (r.run now_time j p).strong i = true ↔ p.strong i = true ∧ .cancel i ∉ r.acts := by
  rw [← TaskAct.foldl_strong r.acts hi, DelayPoller.strong, run_tasks, DelayPoller.strong]

theorem again_lt (r : TaskRun K) (now_time i : ℕ) :
    ∀ e ∈ r.again now_time i, e.1 < 18446744073709551616 ∧ e.2 = i := by
  intro e he
  unfold again at he
  cases hr : r.next_delay with
  | none => simp [hr] at he
  | some next_delay =>
    by_cases hz : next_delay = 0
    · simp [hr, hz] at he
    · rw [hr] at he
      simp only [hz, if_false, List.mem_singleton] at he
      subst he
      exact ⟨addTime_lt _ _,rfl⟩

end TaskRun

namespace DelayPoller
variable {script : ℕ → TaskRun K} {now_time : ℕ} {p : DelayPoller K}

theorem flushLoop_entered {e : ℕ × ℕ} (he : e.1 ≤ now_time) (hs : p.strong e.2 = true)
    (rest : List (ℕ × ℕ)) (k : ℕ) :
    flushLoop script now_time (e :: rest) k p =
      ⟨⟨e,p,some (script k)⟩ ::
          (flushLoop script now_time rest (k + 1) ((script k).run now_time e.2 p)).turns,
        (flushLoop script now_time rest (k + 1) ((script k).run now_time e.2 p)).task_copy,
        (flushLoop script now_time rest (k + 1) ((script k).run now_time e.2 p)).poller⟩ := by
  rw [flushLoop, if_pos he, if_pos hs]

theorem flushLoop_cancelled {e : ℕ × ℕ} (he : e.1 ≤ now_time) (hs : ¬ p.strong e.2 = true)
    (rest : List (ℕ × ℕ)) (k : ℕ) :
    flushLoop script now_time (e :: rest) k p =
      ⟨⟨e,p,none⟩ :: (flushLoop script now_time rest k p).turns,
        (flushLoop script now_time rest k p).task_copy,
        (flushLoop script now_time rest k p).poller⟩ := by
  rw [flushLoop, if_pos he, if_neg hs]

theorem flushLoop_notDue {e : ℕ × ℕ} (he : ¬ e.1 ≤ now_time) (rest : List (ℕ × ℕ)) (k : ℕ) :
    flushLoop script now_time (e :: rest) k p = ⟨[],e :: rest,p⟩ := by
  rw [flushLoop, if_neg he]

/-- What the loop can do with the front of the copy: run it, skip it as cancelled, or stop at it. -/
@[elab_as_elim]
theorem flushLoop_induction (script : ℕ → TaskRun K) (now_time : ℕ)
    {motive : List (ℕ × ℕ) → ℕ → DelayPoller K → Prop}
    (nil : ∀ k p, motive [] k p)
    (entered : ∀ e rest k p, e.1 ≤ now_time → p.strong e.2 = true →
      motive rest (k + 1) ((script k).run now_time e.2 p) → motive (e :: rest) k p)
    (cancelled : ∀ e rest k p, e.1 ≤ now_time → ¬ p.strong e.2 = true →
      motive rest k p → motive (e :: rest) k p)
    (notDue : ∀ e rest k p, ¬ e.1 ≤ now_time → motive (e :: rest) k p)
    (m : List (ℕ × ℕ)) (k : ℕ) (p : DelayPoller K) : motive m k p := by
  induction m generalizing k p with
  | nil => exact nil k p
  | cons e rest ih =>
    by_cases he : e.1 ≤ now_time
    · by_cases hs : p.strong e.2 = true
      · exact entered e rest k p he hs (ih _ _)
      · exact cancelled e rest k p he hs (ih _ _)
    · exact notDue e rest k p he

/-- The loop takes what is due and leaves the rest. -/
theorem flushLoop_entries (script : ℕ → TaskRun K) (now_time : ℕ) {m : List (ℕ × ℕ)} (hm : Sorted m)
    (k : ℕ) (p : DelayPoller K) :
    (flushLoop script now_time m k p).turns.map Turn.entry = m.filter (fun e => e.1 ≤ now_time) ∧
    (flushLoop script now_time m k p).task_copy = m.filter (fun e => now_time < e.1) := by
  induction m, k, p using flushLoop_induction script now_time with
  | nil => exact ⟨rfl,rfl⟩
  | entered e rest k p he hs ih =>
    obtain ⟨ht,hc⟩ := ih (List.pairwise_cons.mp hm).2
    rw [flushLoop_entered he hs]
    simp [ht, hc, he, not_lt.mpr he]
  | cancelled e rest k p he hs ih =>
    obtain ⟨ht,hc⟩ := ih (List.pairwise_cons.mp hm).2
    rw [flushLoop_cancelled he hs]
    simp [ht, hc, he, not_lt.mpr he]
  | notDue e rest k p he =>
    rw [flushLoop_notDue he]
    have hall : ∀ x ∈ e :: rest, now_time < x.1 := fun x hx =>
      (not_le.mp he).trans_le (hm.head_le rfl x hx)
    constructor
    · symm
      rw [List.map_nil, List.filter_eq_nil_iff]
      intro x hx hle
      exact absurd (hall x hx) (not_lt.mpr (of_decide_eq_true hle))
    · symm
      rw [List.filter_eq_self]
      exact fun x hx => decide_eq_true (hall x hx)

/-- The live map receives what the turns insert, in their order. -/
theorem flushLoop_map (script : ℕ → TaskRun K) (now_time : ℕ) (m : List (ℕ × ℕ)) (k : ℕ)
    (p : DelayPoller K) :
    (flushLoop script now_time m k p).poller._delay_task_map =
      insertRange p._delay_task_map
        ((flushLoop script now_time m k p).turns.flatMap (Turn.inserted now_time)) := by
  induction m, k, p using flushLoop_induction script now_time with
  | nil => rfl
  | entered e rest k p he hs ih =>
    rw [flushLoop_entered he hs]
    rw [ih, TaskRun.run_map, ← insertRange_append]
    rfl
  | cancelled e rest k p he hs ih =>
    rw [flushLoop_cancelled he hs]
    exact ih
  | notDue e rest k p he =>
    rw [flushLoop_notDue he]
    rfl

/-- The tasks that are entered are given the entries of the script one after the other. -/
theorem flushLoop_script (script : ℕ → TaskRun K) (now_time : ℕ) (m : List (ℕ × ℕ)) (k : ℕ)
    (p : DelayPoller K) :
    (flushLoop script now_time m k p).turns.filterMap Turn.run =
      (List.range' k ((flushLoop script now_time m k p).turns.filterMap Turn.run).length).map script := by
  induction m, k, p using flushLoop_induction script now_time with
  | nil => rfl
  | entered e rest k p he hs ih =>
    simp only [flushLoop_entered he hs, List.filterMap_cons, List.length_cons, List.range'_succ,
      List.map_cons]
    rw [← ih]
  | cancelled e rest k p he hs ih =>
    simp only [flushLoop_cancelled he hs, List.filterMap_cons]
    exact ih
  | notDue e rest k p he =>
    rw [flushLoop_notDue he]
    rfl

theorem flushLoop_mem {m : List (ℕ × ℕ)} (hm : Sorted m) {k : ℕ} {p : DelayPoller K} {t : Turn K}
    (h : t ∈ (flushLoop script now_time m k p).turns) : t.entry ∈ m := by
  have ht : t.entry ∈ (flushLoop script now_time m k p).turns.map Turn.entry := List.mem_map_of_mem h
  rw [(flushLoop_entries script now_time hm k p).1] at ht
  exact (List.mem_filter.mp ht).1

/-- User code is run for the tasks that nobody cancelled before their turn. -/
theorem flushLoop_isSome {m : List (ℕ × ℕ)} (hm : Sorted m) {k : ℕ} {p : DelayPoller K}
    (hlt : ∀ e ∈ m, e.2 < p.tasks.length) {pre post : List (Turn K)} {t : Turn K}
    (h : (flushLoop script now_time m k p).turns = pre ++ t :: post) :
    t.run.isSome ↔ p.strong t.entry.2 = true ∧ ∀ u ∈ pre, ¬ u.cancels t.entry.2 := by
  induction m, k, p using flushLoop_induction script now_time generalizing pre with
  | nil => simp [flushLoop] at h
  | entered e rest k p he hs ih =>
    have hrest := (List.pairwise_cons.mp hm).2
    have hltr : ∀ x ∈ rest, x.2 < p.tasks.length := fun x hx => hlt x (List.mem_cons_of_mem _ hx)
    rw [flushLoop_entered he hs] at h
    cases pre with
    | nil =>
      obtain ⟨rfl,_⟩ := List.cons.inj h
      simp [hs]
    | cons u pre =>
      simp only [List.cons_append, List.cons.injEq] at h
      obtain ⟨rfl,h⟩ := h
      have ht := hltr _ (flushLoop_mem hrest (t := t) (by rw [h]; simp))
      -- what this turn cancels is not strong for the turns behind it
      rw [ih hrest (fun x hx => (hltr x hx).trans_le (TaskRun.run_length _ _ _ _)) h,
        TaskRun.run_strong _ _ _ ht]
      simp [Turn.cancels, and_assoc]
  | cancelled e rest k p he hs ih =>
    rw [flushLoop_cancelled he hs] at h
    cases pre with
    | nil =>
      obtain ⟨rfl,_⟩ := List.cons.inj h
      simp [hs]
    | cons u pre =>
      simp only [List.cons_append, List.cons.injEq] at h
      obtain ⟨rfl,h⟩ := h
      rw [ih (List.pairwise_cons.mp hm).2 (fun x hx => hlt x (List.mem_cons_of_mem _ hx)) h]
      simp [Turn.cancels]
  | notDue e rest k p he =>
    rw [flushLoop_notDue he] at h
    simp at h

theorem flushLoop_length (script : ℕ → TaskRun K) (now_time : ℕ) (m : List (ℕ × ℕ)) (k : ℕ)
    (p : DelayPoller K) :
    p.tasks.length ≤ (flushLoop script now_time m k p).poller.tasks.length := by
  induction m, k, p using flushLoop_induction script now_time with
  | nil => exact le_rfl
  | entered e rest k p he hs ih =>
    rw [flushLoop_entered he hs]
    exact (TaskRun.run_length _ _ _ _).trans ih
  | cancelled e rest k p he hs ih =>
    rw [flushLoop_cancelled he hs]
    exact ih
  | notDue e rest k p he =>
    rw [flushLoop_notDue he]

theorem flushLoop_inserted_lt {m : List (ℕ × ℕ)} {k : ℕ} {p : DelayPoller K}
    (hlt : ∀ e ∈ m, e.2 < p.tasks.length) :
    ∀ e ∈ (flushLoop script now_time m k p).turns.flatMap (Turn.inserted now_time),
      e.1 < 18446744073709551616 ∧ e.2 < (flushLoop script now_time m k p).poller.tasks.length := by
  induction m, k, p using flushLoop_induction script now_time with
  | nil => simp [flushLoop]
  | entered x rest k p he hs ih =>
    have hltr : ∀ y ∈ rest, y.2 < p.tasks.length := fun y hy => hlt y (List.mem_cons_of_mem _ hy)
    have hrun := TaskRun.run_length (script k) now_time x.2 p
    have hlen := flushLoop_length script now_time rest (k + 1)
      ((script k).run now_time x.2 p)
    rw [flushLoop_entered he hs]
    intro e hmem
    rw [List.flatMap_cons, List.mem_append] at hmem
    rcases hmem with hmem | hmem
    · rcases List.mem_append.mp hmem with hmem | hmem
      · obtain ⟨ht,hi⟩ := TaskAct.entries_lt _ _ e hmem
        rw [← TaskRun.run_tasks (script k) now_time x.2] at hi
        exact ⟨ht,hi.trans_le hlen⟩
      · obtain ⟨ht,hi⟩ := TaskRun.again_lt _ _ _ e hmem
        refine ⟨ht,?_⟩
        rw [hi]
        exact (hlt x List.mem_cons_self).trans_le (hrun.trans hlen)
    · exact ih (fun y hy => (hltr y hy).trans_le hrun) e hmem
  | cancelled x rest k p he hs ih =>
    rw [flushLoop_cancelled he hs]
    exact ih fun y hy => hlt y (List.mem_cons_of_mem _ hy)
  | notDue x rest k p he =>
    rw [flushLoop_notDue he]
    simp

/-- What joins the map during a flush. -/
theorem flushDelayTask_map (hp : p.WellFormed) (script : ℕ → TaskRun K) (now_time : ℕ) :
    (p.flushDelayTask script now_time).poller._delay_task_map =
      insertRange (p._delay_task_map.filter fun e => now_time < e.1)
        ((p.flushDelayTask script now_time).turns.flatMap (Turn.inserted now_time)) := by
  have hmap := flushLoop_map script now_time p._delay_task_map 0
    { p with _delay_task_map := [] }
  have hcopy := (flushLoop_entries script now_time hp.sorted 0
    { p with _delay_task_map := [] }).2
  simp only [flushDelayTask]
  rw [hmap, hcopy, insertRange_insertRange List.Pairwise.nil, insertRange_nil]

/-- What was not due is left, with what joined meanwhile. -/
theorem flushDelayTask_perm (hp : p.WellFormed) (script : ℕ → TaskRun K) (now_time : ℕ) :
    (p.flushDelayTask script now_time).poller._delay_task_map.Perm
      ((p._delay_task_map.filter fun e => now_time < e.1) ++
        (p.flushDelayTask script now_time).turns.flatMap (Turn.inserted now_time)) := by
  rw [flushDelayTask_map hp]
  exact (insertRange_perm _ _).trans List.perm_append_comm

theorem flushDelayTask_wellFormed (hp : p.WellFormed) (script : ℕ → TaskRun K) (now_time : ℕ) :
    (p.flushDelayTask script now_time).poller.WellFormed := by
  have hin : ∀ e ∈ (p.flushDelayTask script now_time).turns.flatMap (Turn.inserted now_time),
      e.1 < 18446744073709551616 ∧ e.2 < (p.flushDelayTask script now_time).poller.tasks.length :=
    flushLoop_inserted_lt (p := { p with _delay_task_map := [] }) hp.made
  have hlen : p.tasks.length ≤ (p.flushDelayTask script now_time).poller.tasks.length :=
    flushLoop_length script now_time p._delay_task_map 0 { p with _delay_task_map := [] }
  have hmap := flushDelayTask_map hp script now_time
  constructor
  · rw [hmap]
    exact (hp.sorted.filter _).insertRange _
  · intro e he
    rw [hmap] at he
    rcases mem_insertRange.mp he with he | he
    · exact (hin e he).1
    · exact hp.time e (List.mem_filter.mp he).1
  · intro e he
    rw [hmap] at he
    rcases mem_insertRange.mp he with he | he
    · exact (hin e he).2
    · exact (hp.made e (List.mem_filter.mp he).1).trans_le hlen

end DelayPoller

/-- A flush did what it is for: what was due left the map in the order of the map, the user code was
run of the tasks that nobody had cancelled before, and the map is what was not due with what joined
meanwhile, by time and for one time in the order of insertion. -/
structure Flushed.Exact (f : Flushed K) (script : ℕ → TaskRun K) (now_time : ℕ) (p : DelayPoller K) :
    Prop where
  due : f.turns.map Turn.entry = p._delay_task_map.filter fun e => e.1 ≤ now_time
  entered : ∀ pre t post, f.turns = pre ++ t :: post →
    (t.run.isSome ↔ p.strong t.entry.2 = true ∧ ∀ u ∈ pre, ¬ u.cancels t.entry.2)
  ran : f.turns.filterMap Turn.run = (List.range (f.turns.filterMap Turn.run).length).map script
  map : f.poller._delay_task_map.Perm ((p._delay_task_map.filter fun e => now_time < e.1) ++
    f.turns.flatMap (Turn.inserted now_time))
  sorted : Sorted f.poller._delay_task_map
  ties : ∀ time, f.poller._delay_task_map.filter (fun e => e.1 = time) =
    ((p._delay_task_map.filter fun e => now_time < e.1) ++
      f.turns.flatMap (Turn.inserted now_time)).filter (fun e => e.1 = time)

namespace DelayPoller
variable {p : DelayPoller K}

theorem flushDelayTask_exact (hp : p.WellFormed) (script : ℕ → TaskRun K) (now_time : ℕ) :
    (p.flushDelayTask script now_time).Exact script now_time p := by
  have hmap := flushDelayTask_map hp script now_time
  have hkept : Sorted (p._delay_task_map.filter fun e => now_time < e.1) := hp.sorted.filter _
  constructor
  · exact (flushLoop_entries script now_time hp.sorted 0 _).1
  · intro pre t post h
    exact flushLoop_isSome (p := { p with _delay_task_map := [] }) hp.sorted hp.made h
  · have h := flushLoop_script script now_time p._delay_task_map 0
      { p with _delay_task_map := [] }
    rw [← List.range_eq_range'] at h
    exact h
  · exact flushDelayTask_perm hp script now_time
  · rw [hmap]
    exact hkept.insertRange _
  · intro time
    rw [hmap, filter_key_insertRange hkept, List.filter_append]

/-- Three tasks are due. The first runs again in 5 ms, schedules one for now and cancels the second;
the third throws. -/
theorem flushDelayTask_exact_three :
    let p : DelayPoller Unit := ⟨10,[(5,0),(5,1),(7,2),(20,3)],none,List.replicate 4 ⟨true,()⟩⟩
    let script : ℕ → TaskRun Unit := fun k =>
      if k = 0 then ⟨[.doDelayTask 0 (),.cancel 1],some 5⟩ else ⟨[],none⟩
    (p.flushDelayTask script 10).Exact script 10 p ∧
    (p.flushDelayTask script 10).poller._delay_task_map = [(10,4),(15,0),(20,3)] := by
  intro p script
  refine ⟨flushDelayTask_exact ⟨?_,?_,?_⟩ script 10,by decide⟩
  · unfold Sorted
    decide
  · decide
  · decide

/-! ### The flush as steps -/

inductive FlushAct (K : Type*) where
  | call
  | act (a : TaskAct K)
  | finish (next_delay : ℕ)
  | merge

def flushStep (p : DelayPoller K) : FlushAct K → Option (DelayPoller K)
  | .call => p.call.map Prod.fst
  | .act a => if p.running.isSome then some (a.run p) else none
  | .finish next_delay => p.finish next_delay
  | .merge => p.merge

/-- The steps of one turn; a task that throws is not called again, as if it had returned 0. -/
def turnSteps (t : Turn K) : List (FlushAct K) :=
  .call :: match t.run with
    | none => []
    | some r => r.acts.map .act ++ [.finish (r.next_delay.getD 0)]

variable {script : ℕ → TaskRun K} {now_time : ℕ}

def during (p : DelayPoller K) (f : Flush) : DelayPoller K := { p with flush := some f }

theorem run_during (a : TaskAct K) (p : DelayPoller K) (f : Flush) :
    a.run (p.during f) = (a.run p).during f := by
  cases a with
  | clock now => rfl
  | doDelayTask delay_ms kind => rfl
  | cancel i => rfl

theorem exec_acts (acts : List (TaskAct K)) (p : DelayPoller K) (m : List (ℕ × ℕ)) (i : ℕ) :
    Runs.exec flushStep (p.during ⟨now_time,m,some i⟩) (acts.map .act) =
      some ((acts.foldl (fun p a => a.run p) p).during ⟨now_time,m,some i⟩) := by
  induction acts generalizing p with
  | nil => rfl
  | cons a acts ih =>
    have ha : flushStep (p.during ⟨now_time,m,some i⟩) (.act a) =
        some ((a.run p).during ⟨now_time,m,some i⟩) := by
      rw [← run_during]
      rfl
    exact Runs.exec_cons ha (ih (a.run p))

theorem finish_during (r : TaskRun K) (p : DelayPoller K) (m : List (ℕ × ℕ)) (i : ℕ) :
    ((r.acts.foldl (fun p a => a.run p) p).during ⟨now_time,m,some i⟩).finish (r.next_delay.getD 0) =
      some ((r.run now_time i p).during ⟨now_time,m,none⟩) := by
  unfold TaskRun.run
  cases r.next_delay with
  | none => simp [finish, during]
  | some next_delay =>
    by_cases hz : next_delay = 0
    · simp [finish, during, hz]
    · simp [finish, during, hz]

theorem exec_turn (e : ℕ × ℕ) (he : e.1 ≤ now_time) (m : List (ℕ × ℕ)) (p : DelayPoller K) (k : ℕ)
    (hs : p.strong e.2 = true) :
    Runs.exec flushStep (p.during ⟨now_time,e :: m,none⟩) (turnSteps ⟨e,p,some (script k)⟩) =
      some (((script k).run now_time e.2 p).during ⟨now_time,m,none⟩) := by
  have hcall : flushStep (p.during ⟨now_time,e :: m,none⟩) .call =
      some (p.during ⟨now_time,m,some e.2⟩) := by
    have hst : (p.during ⟨now_time,e :: m,none⟩).strong e.2 = true := hs
    simp only [flushStep, call, during] at hst ⊢
    simp only [he, hst, if_true, Option.map_some]
  apply Runs.exec_cons hcall
  rw [Runs.exec_append, exec_acts, Option.bind_some]
  exact Runs.exec_cons (finish_during _ _ _ _) rfl

theorem exec_cancelled (e : ℕ × ℕ) (he : e.1 ≤ now_time) (m : List (ℕ × ℕ)) (p : DelayPoller K)
    (hs : ¬ p.strong e.2 = true) :
    Runs.exec flushStep (p.during ⟨now_time,e :: m,none⟩) (turnSteps ⟨e,p,none⟩) =
      some (p.during ⟨now_time,m,none⟩) := by
  have hcall : flushStep (p.during ⟨now_time,e :: m,none⟩) .call =
      some (p.during ⟨now_time,m,none⟩) := by
    have hst : ¬ (p.during ⟨now_time,e :: m,none⟩).strong e.2 = true := hs
    simp only [flushStep, call, during] at hst ⊢
    simp only [he, hst, if_true, Bool.false_eq_true, if_false, Option.map_some]
  exact Runs.exec_cons hcall rfl

theorem exec_flushLoop (script : ℕ → TaskRun K) (now_time : ℕ) (m : List (ℕ × ℕ)) (k : ℕ)
    (p : DelayPoller K) :
    Runs.exec flushStep (p.during ⟨now_time,m,none⟩)
        ((flushLoop script now_time m k p).turns.flatMap turnSteps) =
      some ((flushLoop script now_time m k p).poller.during
        ⟨now_time,(flushLoop script now_time m k p).task_copy,none⟩) := by
  induction m, k, p using flushLoop_induction script now_time with
  | nil => rfl
  | entered e rest k p he hs ih =>
    rw [flushLoop_entered he hs]
    simp only [List.flatMap_cons]
    rw [Runs.exec_append, exec_turn e he rest p k hs, Option.bind_some]
    exact ih
  | cancelled e rest k p he hs ih =>
    rw [flushLoop_cancelled he hs]
    simp only [List.flatMap_cons]
    rw [Runs.exec_append, exec_cancelled e he rest p hs, Option.bind_some]
    exact ih
  | notDue e rest k p he =>
    rw [flushLoop_notDue he]
    rfl

theorem flushLoop_flush (m : List (ℕ × ℕ)) (k : ℕ) (p : DelayPoller K) :
    (flushLoop script now_time m k p).poller.flush = p.flush := by
  induction m, k, p using flushLoop_induction script now_time with
  | nil => rfl
  | entered e rest k p he hs ih =>
    rw [flushLoop_entered he hs]
    exact ih.trans (TaskRun.run_flush _ _ _ _)
  | cancelled e rest k p he hs ih =>
    rw [flushLoop_cancelled he hs]
    exact ih
  | notDue e rest k p he =>
    rw [flushLoop_notDue he]

/-- The whole flush is the run of the single steps that its turns make. -/
theorem exec_flushDelayTask (hp : p.WellFormed) (hf : p.flush = none) (script : ℕ → TaskRun K)
    (now_time : ℕ) :
    Runs.exec flushStep ({ p with _delay_task_map := [] }.during ⟨now_time,p._delay_task_map,none⟩)
        ((p.flushDelayTask script now_time).turns.flatMap turnSteps ++ [.merge]) =
      some (p.flushDelayTask script now_time).poller := by
  let f := flushLoop script now_time p._delay_task_map 0 { p with _delay_task_map := [] }
  have hcopy : f.task_copy = p._delay_task_map.filter fun e => now_time < e.1 :=
    (flushLoop_entries script now_time hp.sorted 0 _).2
  have hflush : f.poller.flush = none := (flushLoop_flush _ _ _).trans hf
  have hhead : (f.task_copy.head?.all fun e => now_time < e.1) = true := by
    rw [hcopy]
    cases h : p._delay_task_map.filter fun e => now_time < e.1 with
    | nil => rfl
    | cons e rest =>
      have he : e ∈ p._delay_task_map.filter fun e => now_time < e.1 := by simp [h]
      simpa using (List.mem_filter.mp he).2
  have hmerge : (f.poller.during ⟨now_time,f.task_copy,none⟩).merge =
      some (p.flushDelayTask script now_time).poller := by
    simp only [merge, during, hhead, if_true]
    rw [← hflush]
    rfl
  rw [Runs.exec_append]
  have hloop := exec_flushLoop script now_time p._delay_task_map 0
    { p with _delay_task_map := [] }
  simp only [flushDelayTask] at hloop ⊢
  rw [hloop, Option.bind_some]
  exact Runs.exec_cons hmerge rfl

end DelayPoller
end OctCommu.Poller
