import Mathlib.Data.List.Basic
import Mathlib.Tactic.Common

/-! # Threads

The threads of a system are the list of what each is doing. One step moves one of
them, and a count of the threads at a place changes with the move alone.
-/
namespace OctCommu.Threads
variable {P : Type*}

theorem countP_set {threads : List P} {t : ℕ} {a : P} (h : threads[t]? = some a) (b : P)
    (p : P → Bool) :
    (threads.set t b).countP p + (if p a then 1 else 0) = threads.countP p + if p b then 1 else 0 := by
  induction threads generalizing t with
  | nil => simp at h
  | cons x xs ih =>
    cases t with
    | zero =>
      obtain rfl : x = a := by simpa using h
      simp only [List.set_cons_zero, List.countP_cons]
      omega
    | succ t =>
      have hx := ih (t := t) (by simpa using h)
      simp only [List.set_cons_succ, List.countP_cons]
      omega

theorem countP_pos {threads : List P} {t : ℕ} {a : P} (h : threads[t]? = some a) {p : P → Bool}
    (ha : p a = true) : 0 < threads.countP p :=
  List.countP_pos_iff.mpr ⟨a,List.mem_of_getElem? h,ha⟩

theorem countP_eq_zero {threads : List P} {p q : P → Bool} (h : ∀ x ∈ threads, q x = true)
    (hpq : ∀ x, q x = true → p x = false) : threads.countP p = 0 := by
  apply List.countP_eq_zero.mpr
  intro x hx
  simp [hpq x (h x hx)]

end OctCommu.Threads
