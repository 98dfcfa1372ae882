import Mathlib.Data.List.Infix
import Mathlib.Tactic.Common

/-! # Cutting a stream into frames

A frame starts where the whole header matches and has a fixed length. `scan` cuts
a complete stream; `Skip` is what a reader that has seen only a part of the stream
may drop in front of the next frame, whatever follows.
-/
namespace OctCommu.Framing
variable {A : Type*} [DecidableEq A] {head : List A} {n : ℕ}

/-- The stream from the first place on where all of `head` matches. -/
def dropToHeader (head : List A) : List A → Option (List A)
  | [] => if head = [] then some [] else none
  | a :: l => if head <+: a :: l then some (a :: l) else dropToHeader head l

def scanFuel (head : List A) (n : ℕ) : ℕ → List A → List (List A)
  | 0, _ => []
  | k + 1, l =>
    match dropToHeader head l with
    | none => []
    | some r => if r.length < n then [] else r.take n :: scanFuel head n k (r.drop n)

def scan (head : List A) (n : ℕ) (l : List A) : List (List A) := scanFuel head n (l.length + 1) l

/-- From `l` to a suffix of it, over places where a complete header does not match. -/
inductive Skip (head : List A) : List A → List A → Prop
  | refl (l : List A) : Skip head l l
  | step {a : A} {l r : List A} : head.length ≤ (a :: l).length → ¬ head <+: a :: l →
      Skip head l r → Skip head (a :: l) r

theorem dropToHeader_of_match {l : List A} (h : head <+: l) : dropToHeader head l = some l := by
  cases l with
  | nil => simp [dropToHeader, List.prefix_nil.mp h]
  | cons a l => rw [dropToHeader, if_pos h]

theorem dropToHeader_of_short {l : List A} (h : l.length < head.length) :
    dropToHeader head l = none := by
  induction l with
  | nil =>
    rw [dropToHeader, if_neg]
    rintro rfl
    simp at h
  | cons a l ih =>
    have hp : ¬ head <+: a :: l := fun hp => by
      have := hp.length_le
      omega
    rw [dropToHeader, if_neg hp]
    exact ih (by simp only [List.length_cons] at h; omega)

theorem dropToHeader_length {l r : List A} (h : dropToHeader head l = some r) :
    r.length ≤ l.length := by
  induction l with
  | nil =>
    simp only [dropToHeader] at h
    split_ifs at h
    cases h
    exact le_rfl
  | cons a l ih =>
    simp only [dropToHeader] at h
    split_ifs at h
    · cases h
      exact le_rfl
    · have := ih h
      simp only [List.length_cons]
      omega

omit [DecidableEq A] in
/-- A complete header that does not match never will. -/
theorem not_prefix_append {l : List A} (hlen : head.length ≤ l.length) (h : ¬ head <+: l)
    (rest : List A) : ¬ head <+: l ++ rest := fun hp =>
  h (List.prefix_of_prefix_length_le hp (List.prefix_append l rest) hlen)

omit [DecidableEq A] in
theorem Skip.length_le {l r : List A} (h : Skip head l r) : r.length ≤ l.length := by
  induction h with
  | refl => exact le_rfl
  | step _ _ _ ih =>
    simp only [List.length_cons]
    omega

theorem Skip.dropToHeader_append {l r : List A} (h : Skip head l r) (rest : List A) :
    dropToHeader head (l ++ rest) = dropToHeader head (r ++ rest) := by
  induction h with
  | refl => rfl
  | step hlen hp _ ih =>
    rw [List.cons_append, dropToHeader, if_neg]
    · exact ih
    · exact not_prefix_append hlen hp rest

theorem scanFuel_eq (hn : 0 < n) {k m : ℕ} {l : List A} (hk : l.length < k) (hm : l.length < m) :
    scanFuel head n k l = scanFuel head n m l := by
  induction k generalizing m l with
  | zero => omega
  | succ k ih =>
    obtain ⟨m,rfl⟩ := Nat.exists_eq_succ_of_ne_zero (Nat.ne_of_gt (Nat.zero_lt_of_lt hm))
    simp only [scanFuel]
    cases hd : dropToHeader head l with
    | none => rfl
    | some r =>
      have hr := dropToHeader_length hd
      by_cases hlt : r.length < n
      · simp only [if_pos hlt]
      · simp only [if_neg hlt]
        have hd := List.length_drop (i := n) (l := r)
        rw [ih (m := m) (by omega) (by omega)]

theorem scan_of_some (hn : 0 < n) {l r : List A} (h : dropToHeader head l = some r)
    (hr : n ≤ r.length) : scan head n l = r.take n :: scan head n (r.drop n) := by
  have hle := dropToHeader_length h
  have hrest : scanFuel head n l.length (r.drop n) = scan head n (r.drop n) :=
    scanFuel_eq hn (by simp only [List.length_drop]; omega) (Nat.lt_succ_self _)
  rw [scan, scanFuel, h]
  simp only [if_neg (Nat.not_lt.mpr hr), hrest]

theorem scan_congr (hn : 0 < n) {l r : List A} (h : dropToHeader head l = dropToHeader head r) :
    scan head n l = scan head n r := by
  simp only [scan, scanFuel, h]
  cases hd : dropToHeader head r with
  | none => rfl
  | some s =>
    have hl := dropToHeader_length (h.trans hd)
    have hr := dropToHeader_length hd
    by_cases hlt : s.length < n
    · simp only [if_pos hlt]
    · simp only [if_neg hlt]
      have hs := List.length_drop (i := n) (l := s)
      rw [scanFuel_eq (m := r.length) hn (by omega) (by omega)]

theorem Skip.scan_append (hn : 0 < n) {l r : List A} (h : Skip head l r) (rest : List A) :
    scan head n (l ++ rest) = scan head n (r ++ rest) :=
  scan_congr hn (h.dropToHeader_append rest)

/-- A complete frame at the front comes out first, whatever follows it. -/
theorem scan_append_of_match (hn : 0 < n) {l : List A} (h : head <+: l) (hl : n ≤ l.length)
    (rest : List A) : scan head n (l ++ rest) = l.take n :: scan head n (l.drop n ++ rest) := by
  have hp : head <+: l ++ rest := h.trans (List.prefix_append l rest)
  rw [scan_of_some hn (dropToHeader_of_match hp) (by simp only [List.length_append]; omega),
    List.take_append_of_le_length hl, List.drop_append_of_le_length hl]

theorem scan_of_lt {l : List A} (h : l.length < n) : scan head n l = [] := by
  simp only [scan, scanFuel]
  cases hd : dropToHeader head l with
  | none => rfl
  | some r =>
    have hr := dropToHeader_length hd
    simp only
    rw [if_pos (by omega)]

theorem scan_of_short {l : List A} (h : l.length < head.length) : scan head n l = [] := by
  simp only [scan, scanFuel, dropToHeader_of_short h]

end OctCommu.Framing
