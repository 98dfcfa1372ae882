import Mathlib.Data.List.Basic
import Mathlib.Tactic.Common

/-! # Bounded first-in first-out queues

The bound is part of the value, so an overfull queue cannot be written down.
-/
namespace OctCommu
variable {A : Type*} {cap : ℕ}

structure Fifo (A : Type*) (cap : ℕ) where
  items : List A
  bounded : items.length ≤ cap

namespace Fifo

def empty : Fifo A cap := ⟨[],Nat.zero_le _⟩

/-- Append a block at the back, or refuse it whole. -/
def append (q : Fifo A cap) (block : List A) : Option (Fifo A cap) :=
  if h : (q.items ++ block).length ≤ cap then some ⟨q.items ++ block,h⟩ else none

def drop (q : Fifo A cap) (k : ℕ) : Fifo A cap :=
  ⟨q.items.drop k,by
    have := q.bounded
    rw [List.length_drop]
    omega⟩

@[simp] theorem items_drop (q : Fifo A cap) (k : ℕ) : (q.drop k).items = q.items.drop k := rfl

theorem append_of_le {q : Fifo A cap} {block : List A} (h : q.items.length + block.length ≤ cap) :
    q.append block = some ⟨q.items ++ block,by simpa using h⟩ := by
  simp [append, h]

end OctCommu.Fifo
