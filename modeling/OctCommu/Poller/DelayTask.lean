import Mathlib.Data.Nat.Basic
import OctCommu.Lib.Multimap

/-! # The delayed tasks of an `EventPoller`

What happens on the poller thread. Tasks are numbered as `doDelayTask` makes them;
an entry of the map is the time it is due and the number of its task. A task that
is called may call anything, so `flushDelayTask` is cut at the call and its return.
-/
namespace OctCommu.Poller
open Multimap
variable {K : Type*}

/-- `strong` is `_strongTask`: a task that was cancelled returns 0 and does nothing. -/
structure DelayTask (K : Type*) where
  strong : Bool
  kind : K
  deriving DecidableEq

/-- A `flushDelayTask` that is under way, with the task it is in. -/
structure Flush where
  now_time : ℕ
  task_copy : List (ℕ × ℕ)
  running : Option ℕ
  deriving DecidableEq

structure DelayPoller (K : Type*) where
  now : ℕ
  _delay_task_map : List (ℕ × ℕ)
  flush : Option Flush
  tasks : List (DelayTask K)
  deriving DecidableEq

/-- The sum of two times in `uint64_t`. -/
def addTime (a b : ℕ) : ℕ := (a + b) % 18446744073709551616

namespace DelayPoller

def fresh : DelayPoller K := ⟨0,[],none,[]⟩

def task_copy (p : DelayPoller K) : List (ℕ × ℕ) :=
  match p.flush with
  | none => []
  | some f => f.task_copy

def running (p : DelayPoller K) : Option ℕ := p.flush.bind fun f => f.running

/-- The tasks that have an entry, in the map or in what the flush took from it. -/
def scheduled (p : DelayPoller K) : List ℕ := (p._delay_task_map ++ p.task_copy).map Prod.snd

/-- Outside a flush the poller may be in any event; inside one it is in the task that runs. -/
def inCallback (p : DelayPoller K) : Bool := p.flush.all fun f => f.running.isSome

def strong (p : DelayPoller K) (i : ℕ) : Bool := p.tasks[i]?.any fun t => t.strong

def doDelayTask (p : DelayPoller K) (delay_ms : ℕ) (kind : K) : DelayPoller K :=
  { p with
    _delay_task_map := emplace (addTime p.now delay_ms,p.tasks.length) p._delay_task_map
    tasks := p.tasks ++ [⟨true,kind⟩] }

def cancel (p : DelayPoller K) (i : ℕ) : DelayPoller K :=
  { p with tasks := p.tasks.modify i fun t => { t with strong := false } }

/-- A flush begins when the first entry is due. -/
def getMinDelay (p : DelayPoller K) : Option (DelayPoller K) :=
  match p.flush with
  | some _ => none
  | none =>
    match p._delay_task_map with
    | [] => some p
    | e :: rest =>
      if e.1 > p.now then some p
      else some { p with _delay_task_map := [], flush := some ⟨p.now,e :: rest,none⟩ }

/-- The call of the first entry that is due, with the task that is entered by it. -/
def call (p : DelayPoller K) : Option (DelayPoller K × Option ℕ) :=
  match p.flush with
  | some ⟨now_time,(time,i) :: rest,none⟩ =>
    if time ≤ now_time then
      if p.strong i then some ({ p with flush := some ⟨now_time,rest,some i⟩ },some i)
      else some ({ p with flush := some ⟨now_time,rest,none⟩ },none)
    else none
  | _ => none

/-- The task returns; unless it returned 0 it is due again. -/
def finish (p : DelayPoller K) (next_delay : ℕ) : Option (DelayPoller K) :=
  match p.flush with
  | some ⟨now_time,task_copy,some i⟩ =>
    some { p with
      _delay_task_map :=
        if next_delay = 0 then p._delay_task_map
        else emplace (addTime next_delay now_time,i) p._delay_task_map
      flush := some ⟨now_time,task_copy,none⟩ }
  | _ => none

/-- The end of a flush: what was scheduled meanwhile joins the entries that are not due. -/
def merge (p : DelayPoller K) : Option (DelayPoller K) :=
  match p.flush with
  | some ⟨now_time,task_copy,none⟩ =>
    if task_copy.head?.all fun e => now_time < e.1 then
      some { p with
        _delay_task_map := insertRange task_copy p._delay_task_map
        flush := none }
    else none
  | _ => none

end DelayPoller

/-! ### Which tasks have an entry -/

namespace DelayPoller
variable {p q : DelayPoller K}

theorem scheduled_doDelayTask (p : DelayPoller K) (delay_ms : ℕ) (kind : K) :
    (p.doDelayTask delay_ms kind).scheduled.Perm (p.tasks.length :: p.scheduled) :=
  ((emplace_perm _ _).append_right _).map Prod.snd

theorem length_doDelayTask (p : DelayPoller K) (delay_ms : ℕ) (kind : K) :
    (p.doDelayTask delay_ms kind).tasks.length = p.tasks.length + 1 := by
  simp [doDelayTask]

/-- Every entry is that of a task which was made. -/
theorem scheduled_lt_doDelayTask (h : ∀ i ∈ p.scheduled, i < p.tasks.length) (delay_ms : ℕ) (kind : K) :
    ∀ i ∈ (p.doDelayTask delay_ms kind).scheduled, i < (p.doDelayTask delay_ms kind).tasks.length := by
  intro i hi
  rw [length_doDelayTask]
  rcases List.mem_cons.mp ((p.scheduled_doDelayTask delay_ms kind).mem_iff.mp hi) with rfl | hi
  · exact Nat.lt_succ_self _
  · exact Nat.lt_succ_of_lt (h i hi)

theorem getMinDelay_spec (h : p.getMinDelay = some q) :
    q.scheduled.Perm p.scheduled ∧ q.running = none ∧ p.running = none ∧ q.tasks = p.tasks := by
  unfold getMinDelay at h
  split at h
  · cases h
  · rename_i hf
    have hp : p.running = none := by simp [running, hf]
    split at h
    · cases h
      exact ⟨List.Perm.refl _,hp,hp,rfl⟩
    · rename_i e rest hm
      split at h
      · cases h
        exact ⟨List.Perm.refl _,hp,hp,rfl⟩
      · cases h
        refine ⟨?_,rfl,hp,rfl⟩
        simp [scheduled, task_copy, hf, hm]

/-- One entry goes; its task runs if nobody cancelled it. -/
theorem call_spec {r : Option ℕ} (h : p.call = some (q,r)) :
    ∃ i, p.scheduled.Perm (i :: q.scheduled) ∧ p.running = none ∧ q.tasks = p.tasks ∧
      q.running = r ∧ r = if p.strong i then some i else none := by
  unfold call at h
  split at h
  · rename_i now_time time i rest hf
    have hp : p.running = none := by simp [running, hf]
    have hperm : p.scheduled.Perm (i :: (p._delay_task_map ++ rest).map Prod.snd) := by
      simp only [scheduled, task_copy, hf]
      exact List.perm_middle.map Prod.snd
    split at h
    · split at h
      · rename_i hs
        cases h
        exact ⟨i,hperm,hp,rfl,rfl,by simp [hs]⟩
      · rename_i hs
        cases h
        exact ⟨i,hperm,hp,rfl,rfl,by simp [hs]⟩
    · cases h
  · cases h

theorem finish_spec {next_delay : ℕ} (h : p.finish next_delay = some q) :
    ∃ i, p.running = some i ∧ q.running = none ∧ q.tasks = p.tasks ∧
      q.scheduled.Perm (if next_delay = 0 then p.scheduled else i :: p.scheduled) := by
  unfold finish at h
  split at h
  · rename_i now_time copy i hf
    cases h
    refine ⟨i,by simp [running, hf],rfl,rfl,?_⟩
    split
    · rename_i hz
      simp [scheduled, task_copy, hf]
    · rename_i hz
      simp only [scheduled, task_copy, hf]
      exact ((emplace_perm _ _).append_right _).map Prod.snd
  · cases h

theorem merge_spec (h : p.merge = some q) :
    q.scheduled.Perm p.scheduled ∧ q.running = none ∧ p.running = none ∧ q.tasks = p.tasks := by
  unfold merge at h
  split at h
  · rename_i now_time copy hf
    have hp : p.running = none := by simp [running, hf]
    split at h
    · cases h
      refine ⟨?_,rfl,hp,rfl⟩
      simp only [scheduled, task_copy, hf, List.append_nil]
      exact (insertRange_perm _ _).map Prod.snd
    · cases h
  · cases h

end DelayPoller
end OctCommu.Poller
