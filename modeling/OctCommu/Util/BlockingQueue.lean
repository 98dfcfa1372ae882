import OctCommu.Lib.DropOldest
import OctCommu.Lib.Runs

/-! # The queue `BlockingQueue<T, queue_max_count>`

Every method runs under one mutex, so a history is a list of calls. Beside the
queue runs a drop-oldest queue of bound `bound`, fed with the same calls.
-/
namespace OctCommu.Util
open Runs
variable {T : Type*} {queue_max_count bound : ℕ}

structure BlockingQueue (T : Type*) (queue_max_count : ℕ) where
  queue_ : List T

namespace BlockingQueue

def fresh : BlockingQueue T queue_max_count := ⟨[]⟩

/-- The loop in front of both insertions. -/
def evict (queue_max_count : ℕ) : List T → List T
  | [] => []
  | x :: queue_ =>
    if queue_max_count < queue_.length + 1 then evict queue_max_count queue_ else x :: queue_

/-- `put(const T&)` -/
def put (q : BlockingQueue T queue_max_count) (x : T) : BlockingQueue T queue_max_count :=
  ⟨evict queue_max_count q.queue_ ++ [x]⟩

/-- `put(T&&)` -/
def put_move (q : BlockingQueue T queue_max_count) (x : T) : BlockingQueue T queue_max_count :=
  ⟨evict queue_max_count q.queue_ ++ [x]⟩

def take [Inhabited T] (q : BlockingQueue T queue_max_count) :
    T × BlockingQueue T queue_max_count :=
  match q.queue_ with
  | [] => (default,q)
  | front :: queue_ => (front,⟨queue_⟩)

def size (q : BlockingQueue T queue_max_count) : ℕ := q.queue_.length

theorem evict_eq (xs : List T) : evict queue_max_count xs = xs.drop (xs.length - queue_max_count) := by
  induction xs with
  | nil => simp [evict]
  | cons x xs ih =>
    unfold evict
    split
    · rename_i h
      have hk : (x :: xs).length - queue_max_count = (xs.length - queue_max_count) + 1 := by
        simp only [List.length_cons]
        omega
      rw [hk, List.drop_succ_cons, ih]
    · rename_i h
      have hk : (x :: xs).length - queue_max_count = 0 := by
        simp only [List.length_cons]
        omega
      rw [hk, List.drop_zero]

theorem queue_put (q : BlockingQueue T queue_max_count) (x : T) :
    (q.put x).queue_ = q.queue_.drop (q.size - queue_max_count) ++ [x] := by
  simp only [put, evict_eq, size]

/-- Up to the limit a put keeps everything. -/
theorem queue_put_of_le {q : BlockingQueue T queue_max_count} (h : q.size ≤ queue_max_count) (x : T) :
    (q.put x).queue_ = q.queue_ ++ [x] := by
  have hz : q.size - queue_max_count = 0 := by omega
  rw [queue_put, hz, List.drop_zero]

theorem size_put (q : BlockingQueue T queue_max_count) (x : T) :
    (q.put x).size = min q.size queue_max_count + 1 := by
  have h : (q.put x).size = q.size - (q.size - queue_max_count) + 1 := by
    unfold size
    rw [queue_put, List.length_append, List.length_drop, List.length_singleton, size]
  omega

theorem take_eq [Inhabited T] (q : BlockingQueue T queue_max_count) :
    q.take = (q.queue_.head?.getD default,⟨q.queue_.tail⟩) := by
  obtain ⟨queue_⟩ := q
  cases queue_ with
  | nil => rfl
  | cons front queue_ => rfl

end BlockingQueue

/-- A call of one of the three methods. -/
inductive QueueCall (T : Type*) where
  | put (x : T)
  | put_move (x : T)
  | take

/-- The queue, the drop-oldest queue it is compared with, and what the calls of `take` returned
and should have returned. -/
structure QueueHistory (T : Type*) (queue_max_count bound : ℕ) where
  queue : BlockingQueue T queue_max_count
  spec : DropOldest T bound
  returned : List T
  expected : List T

namespace QueueHistory
variable [Inhabited T]

def start : QueueHistory T queue_max_count bound := ⟨BlockingQueue.fresh,DropOldest.empty,[],[]⟩

def step (h : QueueHistory T queue_max_count bound) :
    QueueCall T → Option (QueueHistory T queue_max_count bound)
  | .put x => some { h with queue := h.queue.put x, spec := h.spec.put x }
  | .put_move x => some { h with queue := h.queue.put_move x, spec := h.spec.put x }
  | .take => some
    { queue := h.queue.take.2
      spec := h.spec.take
      returned := h.returned ++ [h.queue.take.1]
      expected := h.expected ++ [h.spec.items.head?.getD default] }

/-- At most `bound` elements, the newest ones put, and every `take` returned the oldest of them. -/
structure IsDropOldest (h : QueueHistory T queue_max_count bound) : Prop where
  size_le : h.queue.size ≤ bound
  queue_eq : h.queue.queue_ = h.spec.items
  returned_eq : h.returned = h.expected

omit [Inhabited T] in
theorem isDropOldest_start :
    (start : QueueHistory T queue_max_count bound).IsDropOldest :=
  ⟨Nat.zero_le _,rfl,rfl⟩

omit [Inhabited T] in
theorem IsDropOldest.size_eq {h : QueueHistory T queue_max_count bound} (hh : h.IsDropOldest) :
    h.queue.size = h.spec.held := by
  rw [BlockingQueue.size, hh.queue_eq, DropOldest.items_length]

theorem IsDropOldest.take {h t : QueueHistory T queue_max_count bound} (hh : h.IsDropOldest)
    (ht : step h .take = some t) : t.IsDropOldest := by
  cases ht
  have hq : h.queue.take.2.queue_ = h.spec.take.items := by
    rw [BlockingQueue.take_eq, DropOldest.items_take]
    exact congrArg List.tail hh.queue_eq
  refine ⟨?_,hq,?_⟩
  · have hl := h.spec.take.items_length_le
    rw [← hq] at hl
    exact hl
  · have hr : h.queue.take.1 = h.spec.items.head?.getD default := by
      rw [BlockingQueue.take_eq, hh.queue_eq]
    simp only [hh.returned_eq, hr]

omit [Inhabited T] in
/-- A put that finds room under `bound` keeps the queues equal. -/
theorem IsDropOldest.put {h : QueueHistory T queue_max_count bound} (hh : h.IsDropOldest) (x : T)
    (hlt : h.queue.size < bound) (hle : h.queue.size ≤ queue_max_count) :
    IsDropOldest { h with queue := h.queue.put x, spec := h.spec.put x } := by
  have hheld : h.spec.held < bound := by
    rw [← hh.size_eq]
    exact hlt
  have hmin : min h.queue.size queue_max_count = h.queue.size := Nat.min_eq_left hle
  refine ⟨?_,?_,hh.returned_eq⟩
  · simp only [BlockingQueue.size_put, hmin]
    exact hlt
  · simp only [BlockingQueue.queue_put_of_le hle, hh.queue_eq, DropOldest.items_put_of_lt hheld]

/-- The puts that find fewer than `queue_max_count` elements. -/
def LeavesRoom (h : QueueHistory T queue_max_count bound) : QueueCall T → Prop
  | .put _ => h.queue.size < queue_max_count
  | .put_move _ => h.queue.size < queue_max_count
  | .take => True

theorem step_good {h t : QueueHistory T queue_max_count queue_max_count} {c : QueueCall T}
    (hh : h.IsDropOldest) (hc : h.LeavesRoom c) (ht : step h c = some t) : t.IsDropOldest := by
  cases c with
  | put x =>
    cases ht
    exact hh.put x hc (Nat.le_of_lt hc)
  | put_move x =>
    cases ht
    exact hh.put x hc (Nat.le_of_lt hc)
  | take => exact hh.take ht

/-- The eviction runs before the insertion, so a put to a full queue leaves one element too many. -/
theorem step_bad {h t : QueueHistory T queue_max_count queue_max_count} {c : QueueCall T}
    (ht : step h c = some t) (hp : t.IsDropOldest) : h.LeavesRoom c := by
  have hput : ∀ x, (h.queue.put x).size ≤ queue_max_count → h.queue.size < queue_max_count := by
    intro x hx
    rw [BlockingQueue.size_put] at hx
    omega
  cases c with
  | put x =>
    cases ht
    exact hput x hp.size_le
  | put_move x =>
    cases ht
    exact hput x hp.size_le
  | take => trivial

/-- The queue is a drop-oldest queue of bound `queue_max_count` just as long as no put finds it
full. -/
theorem leavesRoom_iff_isDropOldest (calls : List (QueueCall T)) :
    EveryStep step LeavesRoom (start : QueueHistory T queue_max_count queue_max_count) calls ↔
      EveryState step IsDropOldest (start : QueueHistory T queue_max_count queue_max_count) calls := by
  apply everyStep_iff_everyState isDropOldest_start
  · intro h hh
    exact hh
  · intro h c t hh hc ht
    exact step_good hh hc ht
  · intro h c t _ ht hp
    exact step_bad ht hp

theorem step_bound_succ {h t : QueueHistory T queue_max_count (queue_max_count + 1)}
    {c : QueueCall T} (hh : h.IsDropOldest) (ht : step h c = some t) : t.IsDropOldest := by
  have hput : ∀ x, IsDropOldest { h with queue := h.queue.put x, spec := h.spec.put x } := by
    intro x
    have hle := hh.size_le
    by_cases hroom : h.queue.size ≤ queue_max_count
    · exact hh.put x (Nat.lt_succ_of_le hroom) hroom
    · have hfull : h.queue.size = queue_max_count + 1 := by omega
      have hheld : h.spec.held = queue_max_count + 1 := by
        rw [← hh.size_eq]
        exact hfull
      have hone : h.queue.size - queue_max_count = 1 := by omega
      refine ⟨?_,?_,hh.returned_eq⟩
      · simp only [BlockingQueue.size_put]
        omega
      · simp only [BlockingQueue.queue_put, hone, List.drop_one, hh.queue_eq]
        rw [DropOldest.items_put_of_full hheld (Nat.succ_pos _)]
  cases c with
  | put x =>
    cases ht
    exact hput x
  | put_move x =>
    cases ht
    exact hput x
  | take => exact hh.take ht

/-- What the class is in every history: a drop-oldest queue of bound `queue_max_count + 1`. -/
theorem isDropOldest_bound_succ (calls : List (QueueCall T)) :
    EveryState step IsDropOldest
      (start : QueueHistory T queue_max_count (queue_max_count + 1)) calls := by
  apply everyState_of_preserves
  · intro h c t hh ht
    exact step_bound_succ hh ht
  · exact isDropOldest_start

/-- A queue of bound 1 holds two elements after two puts. -/
theorem not_isDropOldest_two_puts :
    ¬ EveryState step IsDropOldest (start : QueueHistory ℕ 1 1) [.put 7,.put 8] := by
  intro h
  have hl := h.last rfl
  exact absurd hl.size_le (by decide)

end QueueHistory
end OctCommu.Util
