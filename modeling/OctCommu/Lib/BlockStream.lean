import Mathlib.Data.List.Basic

/-! # Streams that are worked off in blocks

Items are kept until there are `n` of them and then go through `f` together. However a
stream is cut, what comes out is the fold of `f` over its blocks.
-/
namespace OctCommu.BlockStream
variable {A C : Type*} (n : ℕ) (f : C → List A → C)

def absorb (s : C × List A) (a : A) : C × List A :=
  if s.2.length + 1 = n then (f s.1 (s.2 ++ [a]),[]) else (s.1,s.2 ++ [a])

def absorbs (s : C × List A) (l : List A) : C × List A := l.foldl (absorb n f) s

/-- The whole blocks of a stream. -/
def blocks (l : List A) : List (List A) := (List.range (l.length / n)).map fun i => (l.drop (i * n)).take n

variable {n f} {s : C × List A} {l : List A}

theorem absorbs_append (s : C × List A) (l k : List A) :
    absorbs n f s (l ++ k) = absorbs n f (absorbs n f s l) k := List.foldl_append

theorem absorbs_short (h : s.2.length + l.length < n) : absorbs n f s l = (s.1,s.2 ++ l) := by
  induction l generalizing s with
  | nil => simp [absorbs]
  | cons a l ih =>
    rw [List.length_cons] at h
    have hstep : absorb n f s a = (s.1,s.2 ++ [a]) := if_neg (by omega)
    change absorbs n f (absorb n f s a) l = _
    rw [hstep, ih (by simp only [List.length_append, List.length_singleton]; omega), List.append_assoc,
      List.singleton_append]

theorem absorbs_full (hl : l ≠ []) (h : s.2.length + l.length = n) : absorbs n f s l = (f s.1 (s.2 ++ l),[]) := by
  obtain ⟨k,a,rfl⟩ := (List.eq_nil_or_concat l).resolve_left hl
  rw [List.concat_eq_append] at h ⊢
  rw [List.length_append, List.length_singleton] at h
  have hshort : absorbs n f s k = (s.1,s.2 ++ k) := absorbs_short (by omega)
  rw [absorbs_append, hshort]
  change absorb n f (s.1,s.2 ++ k) a = _
  rw [absorb, if_pos (by simp only [List.length_append]; omega), List.append_assoc]

theorem blocks_short (h : l.length < n) : blocks n l = [] := by
  rw [blocks, Nat.div_eq_of_lt h, List.range_zero, List.map_nil]

theorem blocks_append {b : List A} (hn : 0 < n) (hb : b.length = n) : blocks n (b ++ l) = b :: blocks n l := by
  have hdiv : (b ++ l).length / n = l.length / n + 1 := by
    rw [List.length_append, hb, Nat.add_comm, Nat.add_div_right _ hn]
  rw [blocks, hdiv, List.range_succ_eq_map, List.map_cons, List.map_map, Nat.zero_mul, List.drop_zero,
    List.take_append_of_le_length (by omega), List.take_of_length_le (by omega)]
  congr 1
  apply List.map_congr_left
  intro i _
  simp only [Function.comp_apply, Nat.succ_mul]
  rw [Nat.add_comm, ← hb, List.drop_length_add_append]

/-- A stream from its beginning. -/
theorem absorbs_eq (hn : 0 < n) (c : C) (l : List A) :
    absorbs n f (c,[]) l = ((blocks n l).foldl f c,l.drop (l.length / n * n)) := by
  induction hm : l.length / n generalizing c l with
  | zero =>
    have hlt : l.length < n := (Nat.div_eq_zero_iff.mp hm).resolve_left (by omega)
    rw [absorbs_short (by rw [List.length_nil]; omega), blocks_short hlt, Nat.zero_mul]
    rfl
  | succ m ih =>
    have hle : n ≤ l.length := by
      by_contra hlt
      rw [Nat.div_eq_of_lt (by omega)] at hm
      cases hm
    have hlen : (l.take n).length = n := List.length_take_of_le hle
    have hrest : (l.drop n).length / n = m := by
      have hsub := Nat.sub_mul_div l.length n 1
      rw [List.length_drop]
      rw [Nat.mul_one, hm] at hsub
      exact hsub
    obtain ⟨b,k,rfl,hb⟩ : ∃ b k, l = b ++ k ∧ b.length = n := ⟨_,_,(List.take_append_drop n l).symm,hlen⟩
    have hdrop : (b ++ k).drop n = k := by rw [← hb, List.drop_left]
    rw [hdrop] at hrest
    have hne : b ≠ [] := by
      rintro rfl
      rw [List.length_nil] at hb
      omega
    rw [absorbs_append, absorbs_full hne (by rw [List.length_nil]; omega), List.nil_append, ih _ _ hrest,
      blocks_append hn hb, List.foldl_cons, Nat.succ_mul, Nat.add_comm, ← hb, List.drop_length_add_append]

/-- What is kept is less than a block. -/
theorem absorbs_length (hn : 0 < n) (c : C) (l : List A) : (absorbs n f (c,[]) l).2.length = l.length % n := by
  rw [absorbs_eq hn, List.length_drop]
  have hmod := Nat.div_add_mod' l.length n
  omega

/-- A stream that ends with a block. -/
theorem absorbs_whole (hn : 0 < n) (c : C) (h : l.length % n = 0) :
    absorbs n f (c,[]) l = ((blocks n l).foldl f c,[]) := by
  have hlen := absorbs_length (f := f) hn c l
  rw [h] at hlen
  rw [absorbs_eq hn] at hlen ⊢
  exact Prod.ext rfl (List.length_eq_zero_iff.mp hlen)

end OctCommu.BlockStream
