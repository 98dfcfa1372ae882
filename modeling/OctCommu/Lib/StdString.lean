import Mathlib.Data.List.Basic
import Mathlib.Tactic.Common

/-! # The strings of the standard library

A string is the list of its characters. An operation is `none` where it throws. An
operation inside a part of a string is the operation on that part.
-/
namespace OctCommu.StdString
variable {A : Type*}

/-- The largest `size_t`. -/
def npos : ℕ := 18446744073709551615

/-- No string is longer. -/
def max_size : ℕ := 4611686018427387903

/-- A new content, if it is not too long and there is room for it. -/
def fits (room : Bool) (s : List A) : Option (List A) := if room ∧ s.length ≤ max_size then some s else none

def insert (s : List A) (pos : ℕ) (t : List A) : Option (List A) :=
  if s.length < pos then none else some (s.take pos ++ t ++ s.drop pos)

def erase (s : List A) (pos n : ℕ) : Option (List A) :=
  if s.length < pos then none else some (s.take pos ++ s.drop (pos + n))

def substr (s : List A) (pos n : ℕ) : Option (List A) :=
  if s.length < pos then none else some ((s.drop pos).take n)

def resize (s : List A) (n : ℕ) (c : A) : List A := s.take n ++ List.replicate (n - s.length) c

theorem fits_eq_some {room : Bool} {s t : List A} (h : fits room s = some t) :
    t = s ∧ s.length ≤ max_size := by
  rw [fits, Option.ite_none_right_eq_some] at h
  exact ⟨(Option.some.inj h.2).symm,h.1.2⟩

variable (H V T : List A) {pos n : ℕ}

theorem insert_middle (h : pos ≤ V.length) (t : List A) :
    insert (H ++ V ++ T) (H.length + pos) t = (insert V pos t).map fun s => H ++ s ++ T := by
  rw [insert, if_neg (by simp; omega), insert, if_neg (by omega), Option.map_some]
  have htake : (H ++ V ++ T).take (H.length + pos) = H ++ V.take pos := by
    rw [List.append_assoc, List.take_length_add_append, List.take_append_of_le_length h]
  have hdrop : (H ++ V ++ T).drop (H.length + pos) = V.drop pos ++ T := by
    rw [List.append_assoc, List.drop_length_add_append, List.drop_append_of_le_length h]
  rw [htake, hdrop]
  simp

theorem erase_middle (h : pos + n ≤ V.length) :
    erase (H ++ V ++ T) (H.length + pos) n = (erase V pos n).map fun s => H ++ s ++ T := by
  rw [erase, if_neg (by simp; omega), erase, if_neg (by omega), Option.map_some]
  have htake : (H ++ V ++ T).take (H.length + pos) = H ++ V.take pos := by
    rw [List.append_assoc, List.take_length_add_append, List.take_append_of_le_length (by omega)]
  have hdrop : (H ++ V ++ T).drop (H.length + pos + n) = V.drop (pos + n) ++ T := by
    rw [Nat.add_assoc, List.append_assoc, List.drop_length_add_append, List.drop_append_of_le_length h]
  rw [htake, hdrop]
  simp

theorem substr_middle (h : pos + n ≤ V.length) :
    substr (H ++ V ++ T) (H.length + pos) n = substr V pos n := by
  rw [substr, if_neg (by simp; omega), substr, if_neg (by omega), List.append_assoc,
    List.drop_length_add_append, List.drop_append_of_le_length (by omega),
    List.take_append_of_le_length (by simp; omega)]

/-- What is erased to the end of the part takes the rest with it. -/
theorem erase_to_end (h : pos ≤ V.length) (hn : V.length + T.length ≤ pos + n) :
    erase (H ++ V ++ T) (H.length + pos) n = some (H ++ V.take pos) := by
  rw [erase, if_neg (by simp; omega), List.append_assoc, List.take_length_add_append,
    List.take_append_of_le_length h, List.drop_eq_nil_of_le (by simp; omega), List.append_nil]

theorem substr_to_end (h : pos ≤ V.length) (hn : V.length + T.length ≤ pos + n) :
    substr (H ++ V ++ T) (H.length + pos) n = some (V.drop pos ++ T) := by
  rw [substr, if_neg (by simp; omega), List.append_assoc, List.drop_length_add_append,
    List.drop_append_of_le_length h, List.take_of_length_le (by simp; omega)]

/-- Cutting or padding the whole is cutting or padding the part where the characters that stay agree. -/
theorem resize_part_iff {s t : List A} {c : A} (h : t.length ≤ s.length) :
    resize s n c = resize t n c ↔
      s.take n = t.take n ++ List.replicate (min n s.length - t.length) c := by
  have hcount : n - t.length = (min n s.length - t.length) + (n - s.length) := by omega
  rw [resize, resize, hcount, List.replicate_add, ← List.append_assoc, List.append_cancel_right_eq]

end OctCommu.StdString
