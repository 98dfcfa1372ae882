import Mathlib.Data.List.Basic
import Mathlib.Tactic.Common

/-! # Bounded queues that drop their oldest elements

Such a queue is told by its history: all that was put, and how many of the
newest of it are still held. Nothing held can then be out of order or twice.
-/
namespace OctCommu
variable {A : Type*} {n : ℕ}

structure DropOldest (A : Type*) (n : ℕ) where
  puts : List A
  held : ℕ
  held_le : held ≤ n
  held_le_puts : held ≤ puts.length

namespace DropOldest

def empty : DropOldest A n := ⟨[],0,Nat.zero_le _,Nat.zero_le _⟩

/-- The newest `held` elements put. -/
def items (q : DropOldest A n) : List A := q.puts.drop (q.puts.length - q.held)

def put (q : DropOldest A n) (a : A) : DropOldest A n :=
  ⟨q.puts ++ [a],min n (q.held + 1),Nat.min_le_left _ _,by
    have := q.held_le_puts
    rw [List.length_append, List.length_singleton]
    omega⟩

def take (q : DropOldest A n) : DropOldest A n :=
  ⟨q.puts,q.held - 1,by
    have := q.held_le
    omega,by
    have := q.held_le_puts
    omega⟩

@[simp] theorem items_empty : (empty : DropOldest A n).items = [] := rfl

@[simp] theorem items_length (q : DropOldest A n) : q.items.length = q.held := by
  have := q.held_le_puts
  simp only [items, List.length_drop]
  omega

theorem items_length_le (q : DropOldest A n) : q.items.length ≤ n := by
  simpa using q.held_le

theorem items_put (q : DropOldest A n) (a : A) :
    (q.put a).items = (q.items ++ [a]).drop (q.held + 1 - n) := by
  have hp := q.held_le_puts
  have happ : q.items ++ [a] = (q.puts ++ [a]).drop (q.puts.length - q.held) := by
    rw [List.drop_append_of_le_length (by omega)]
    simp only [items]
  rw [happ, List.drop_drop]
  simp only [items, put, List.length_append, List.length_singleton]
  apply congrArg (fun k => List.drop k (q.puts ++ [a]))
  omega

/-- Below the bound nothing is dropped. -/
theorem items_put_of_lt {q : DropOldest A n} (h : q.held < n) (a : A) :
    (q.put a).items = q.items ++ [a] := by
  have hz : q.held + 1 - n = 0 := by omega
  rw [items_put, hz, List.drop_zero]

/-- At the bound the oldest element makes room. -/
theorem items_put_of_full {q : DropOldest A n} (h : q.held = n) (hn : 0 < n) (a : A) :
    (q.put a).items = q.items.tail ++ [a] := by
  have hone : q.held + 1 - n = 1 := by omega
  have hl : 1 ≤ q.items.length := by
    rw [items_length]
    omega
  rw [items_put, hone, List.drop_append_of_le_length hl, List.drop_one]

theorem items_take (q : DropOldest A n) : q.take.items = q.items.tail := by
  have hp := q.held_le_puts
  rw [← List.drop_one]
  simp only [items, take, List.drop_drop]
  by_cases h : q.held = 0
  · rw [List.drop_eq_nil_of_le (by omega), List.drop_eq_nil_of_le (by omega)]
  · apply congrArg (fun k => List.drop k q.puts)
    omega

end OctCommu.DropOldest
