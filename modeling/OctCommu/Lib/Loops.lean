import Mathlib.Logic.Function.Iterate
import Mathlib.Tactic.Common

/-! # Loops that end

A loop is a function on its states, applied until a state is `done`. It ends if a
measure falls again and again, and never ends if an invariant excludes `done`.
-/
namespace OctCommu.Loops
variable {S : Type*} {next : S → S} {done P : S → Prop}

/-- After so many rounds the loop is done. -/
def Ends (next : S → S) (done : S → Prop) (s : S) : Prop := ∃ n, done (next^[n] s)

theorem ends_of_done {s : S} (h : done s) : Ends next done s := ⟨0,h⟩

theorem Ends.of_iterate {s : S} {n : ℕ} (h : Ends next done (next^[n] s)) : Ends next done s := by
  obtain ⟨m,hm⟩ := h
  refine ⟨m + n,?_⟩
  rwa [Function.iterate_add_apply]

theorem Ends.of_next {s : S} (h : Ends next done (next s)) : Ends next done s :=
  Ends.of_iterate (n := 1) h

/-- The rule for ends: from every state some rounds lead to a lower measure or out of the loop. -/
theorem ends_of_measure (m : S → ℕ)
    (h : ∀ s, P s → Ends next done s ∨ ∃ n, P (next^[n] s) ∧ m (next^[n] s) < m s) {s : S}
    (hs : P s) : Ends next done s := by
  induction hk : m s using Nat.strongRecOn generalizing s with
  | ind k ih =>
    rcases h s hs with he | ⟨n,hn,hlt⟩
    · exact he
    · exact Ends.of_iterate (ih _ (hk ▸ hlt) hn rfl)

/-- The rule for endless loops. -/
theorem not_ends_of_invariant (hnext : ∀ s, P s → P (next s)) (hdone : ∀ s, P s → ¬ done s) {s : S}
    (hs : P s) : ¬ Ends next done s := by
  rintro ⟨n,hn⟩
  have hinv : ∀ k, P (next^[k] s) := by
    intro k
    induction k with
    | zero => exact hs
    | succ k ih =>
      rw [Function.iterate_succ_apply']
      exact hnext _ ih
  exact hdone _ (hinv n) hn

end OctCommu.Loops
