import Mathlib.Order.Lattice
import Mathlib.Data.List.Basic
import Mathlib.Tactic.Common

/-! # Multimaps

A multimap is the list of its entries in the order an iterator visits them: by key,
and by age among equal keys. Inserting a range into a multimap is inserting its
entries in turn; whether they were collected in a multimap of their own first makes
no difference.
-/
namespace OctCommu.Multimap
variable {K V : Type*} [LinearOrder K]

/-- A new entry goes behind those of the same key. -/
def emplace (e : K × V) : List (K × V) → List (K × V)
  | [] => [e]
  | x :: xs => if x.1 ≤ e.1 then x :: emplace e xs else e :: x :: xs

def insertRange (m es : List (K × V)) : List (K × V) := es.foldl (fun m e => emplace e m) m

def Sorted (m : List (K × V)) : Prop := m.Pairwise fun a b => a.1 ≤ b.1

theorem emplace_of_le {e x : K × V} (h : x.1 ≤ e.1) (xs : List (K × V)) :
    emplace e (x :: xs) = x :: emplace e xs := if_pos h

theorem emplace_of_lt {e x : K × V} (h : e.1 < x.1) (xs : List (K × V)) :
    emplace e (x :: xs) = e :: x :: xs := if_neg (not_le.mpr h)

theorem emplace_perm (e : K × V) (m : List (K × V)) : (emplace e m).Perm (e :: m) := by
  induction m with
  | nil => exact List.Perm.refl _
  | cons x xs ih =>
    unfold emplace
    split
    · exact (ih.cons x).trans (List.Perm.swap e x xs)
    · exact List.Perm.refl _

theorem mem_emplace {e x : K × V} {m : List (K × V)} : x ∈ emplace e m ↔ x = e ∨ x ∈ m := by
  rw [(emplace_perm e m).mem_iff, List.mem_cons]

@[simp] theorem insertRange_nil (m : List (K × V)) : insertRange m [] = m := rfl

@[simp] theorem insertRange_cons (m es : List (K × V)) (e : K × V) :
    insertRange m (e :: es) = insertRange (emplace e m) es := rfl

theorem insertRange_append (m es fs : List (K × V)) :
    insertRange m (es ++ fs) = insertRange (insertRange m es) fs := List.foldl_append

theorem insertRange_perm (m es : List (K × V)) : (insertRange m es).Perm (es ++ m) := by
  induction es generalizing m with
  | nil => exact List.Perm.refl _
  | cons e es ih =>
    exact (ih _).trans (((emplace_perm e m).append_left es).trans List.perm_middle)

theorem mem_insertRange {m es : List (K × V)} {x : K × V} :
    x ∈ insertRange m es ↔ x ∈ es ∨ x ∈ m := by
  rw [(insertRange_perm m es).mem_iff, List.mem_append]

theorem Sorted.emplace {m : List (K × V)} (h : Sorted m) (e : K × V) :
    Sorted (emplace e m) := by
  induction m with
  | nil => exact List.pairwise_singleton _ _
  | cons x xs ih =>
    obtain ⟨hx,hxs⟩ := List.pairwise_cons.mp h
    rcases le_or_gt x.1 e.1 with he | he
    · rw [emplace_of_le he]
      refine List.pairwise_cons.mpr ⟨?_,ih hxs⟩
      intro y hy
      rcases mem_emplace.mp hy with rfl | hy
      · exact he
      · exact hx y hy
    · rw [emplace_of_lt he]
      refine List.pairwise_cons.mpr ⟨?_,h⟩
      intro y hy
      rcases List.mem_cons.mp hy with rfl | hy
      · exact he.le
      · exact he.le.trans (hx y hy)

theorem Sorted.insertRange {m : List (K × V)} (h : Sorted m) (es : List (K × V)) :
    Sorted (insertRange m es) := by
  induction es generalizing m with
  | nil => exact h
  | cons e es ih => exact ih (h.emplace e)

theorem Sorted.filter {m : List (K × V)} (h : Sorted m) (p : K × V → Bool) : Sorted (m.filter p) :=
  List.Pairwise.filter p h

/-- Entries of one key are in the order in which they were inserted. -/
theorem filter_key_emplace {m : List (K × V)} (h : Sorted m) (e : K × V) (k : K) :
    (emplace e m).filter (fun x => x.1 = k) =
      m.filter (fun x => x.1 = k) ++ [e].filter (fun x => x.1 = k) := by
  induction m with
  | nil => rfl
  | cons x xs ih =>
    obtain ⟨hx,hxs⟩ := List.pairwise_cons.mp h
    rcases le_or_gt x.1 e.1 with he | he
    · rw [emplace_of_le he]
      by_cases hk : x.1 = k
      · simp [hk, ih hxs]
      · simp [hk, ih hxs]
    · rw [emplace_of_lt he, List.filter_cons]
      split
      · rename_i hk
        have hnone : (x :: xs).filter (fun x => x.1 = k) = [] := by
          apply List.filter_eq_nil_iff.mpr
          intro y hy hyk
          have hyk : y.1 = k := of_decide_eq_true hyk
          have hek : e.1 = k := of_decide_eq_true hk
          have hxy : x.1 ≤ y.1 := by
            rcases List.mem_cons.mp hy with rfl | hy
            · exact le_rfl
            · exact hx y hy
          rw [hyk, ← hek] at hxy
          exact absurd he (not_lt.mpr hxy)
        rw [hnone, List.nil_append, List.filter_singleton, hk]
        rfl
      · rename_i hk
        simp [hk]

theorem filter_key_insertRange {m : List (K × V)} (h : Sorted m) (es : List (K × V)) (k : K) :
    (insertRange m es).filter (fun x => x.1 = k) =
      m.filter (fun x => x.1 = k) ++ es.filter (fun x => x.1 = k) := by
  induction es generalizing m with
  | nil => simp
  | cons e es ih =>
    rw [insertRange_cons, ih (h.emplace e), filter_key_emplace h, List.append_assoc,
      ← List.filter_append, List.singleton_append]

theorem emplace_comm {e x : K × V} (h : e.1 < x.1) (m : List (K × V)) :
    emplace e (emplace x m) = emplace x (emplace e m) := by
  induction m with
  | nil => rw [emplace, emplace_of_lt h, emplace, emplace_of_le h.le, emplace]
  | cons y ys ih =>
    rcases le_or_gt y.1 e.1 with hye | hye
    · have hyx := hye.trans h.le
      rw [emplace_of_le hyx, emplace_of_le hye, emplace_of_le hye, emplace_of_le hyx, ih]
    · rw [emplace_of_lt hye, emplace_of_le h.le]
      rcases le_or_gt y.1 x.1 with hyx | hyx
      · rw [emplace_of_le hyx, emplace_of_lt hye]
      · rw [emplace_of_lt hyx, emplace_of_lt h]

theorem insertRange_emplace_of_lt {es : List (K × V)} {x : K × V} (h : ∀ y ∈ es, x.1 < y.1)
    (m : List (K × V)) : insertRange (emplace x m) es = emplace x (insertRange m es) := by
  induction es generalizing m with
  | nil => rfl
  | cons y ys ih =>
    have hy := emplace_comm (h y List.mem_cons_self) m
    rw [insertRange_cons, insertRange_cons, ← hy, ih fun z hz => h z (List.mem_cons_of_mem _ hz)]

/-- The entry that was inserted last into the range may as well be inserted last. -/
theorem insertRange_emplace {es : List (K × V)} (h : Sorted es) (x : K × V) (m : List (K × V)) :
    insertRange m (emplace x es) = emplace x (insertRange m es) := by
  induction es generalizing m with
  | nil => rfl
  | cons y ys ih =>
    obtain ⟨hy,hys⟩ := List.pairwise_cons.mp h
    rcases le_or_gt y.1 x.1 with hyx | hyx
    · rw [emplace_of_le hyx, insertRange_cons, insertRange_cons, ih hys]
    · rw [emplace_of_lt hyx, insertRange_cons]
      apply insertRange_emplace_of_lt
      intro z hz
      rcases List.mem_cons.mp hz with rfl | hz
      · exact hyx
      · exact hyx.trans_le (hy z hz)

theorem insertRange_insertRange {es : List (K × V)} (h : Sorted es) (m fs : List (K × V)) :
    insertRange m (insertRange es fs) = insertRange (insertRange m es) fs := by
  induction fs generalizing es with
  | nil => rfl
  | cons f fs ih => rw [insertRange_cons, ih (h.emplace f), insertRange_emplace h, insertRange_cons]

/-- Where the first entry is behind a bound, all are. -/
theorem Sorted.head_le {m : List (K × V)} {e : K × V} {rest : List (K × V)} (h : Sorted m)
    (hm : m = e :: rest) : ∀ x ∈ m, e.1 ≤ x.1 := by
  subst hm
  intro x hx
  rcases List.mem_cons.mp hx with rfl | hx
  · exact le_rfl
  · exact (List.pairwise_cons.mp h).1 x hx

end OctCommu.Multimap
