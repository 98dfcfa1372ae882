import Mathlib.Data.List.Infix
import Mathlib.Tactic.Common

/-! # Runs of a partial step function

A run is the list of its labels; a label that is not enabled ends it. A property
of all visited states follows from a condition on all taken steps, and is
equivalent to it when each step that misses the condition breaks the property.
-/
namespace OctCommu.Runs
variable {S L : Type*}

def exec (step : S → L → Option S) : S → List L → Option S
  | s, [] => some s
  | s, a :: as => (step s a).bind fun t => exec step t as

/-- `P` holds in every state the run visits, the first one included. -/
def EveryState (step : S → L → Option S) (P : S → Prop) : S → List L → Prop
  | s, [] => P s
  | s, a :: as => P s ∧ ∀ t, step s a = some t → EveryState step P t as

/-- `C` admits every step the run takes, in the state the step is taken from. -/
def EveryStep (step : S → L → Option S) (C : S → L → Prop) : S → List L → Prop
  | _, [] => True
  | s, a :: as => ∀ t, step s a = some t → C s a ∧ EveryStep step C t as

variable {step : S → L → Option S} {P Q Inv : S → Prop} {C H : S → L → Prop}

theorem exec_cons {s t u : S} {a : L} {as : List L} (h : step s a = some t)
    (hr : exec step t as = some u) : exec step s (a :: as) = some u := by
  simp only [exec, h, Option.bind_some, hr]

theorem exec_append {s : S} {as bs : List L} :
    exec step s (as ++ bs) = (exec step s as).bind fun t => exec step t bs := by
  induction as generalizing s with
  | nil => rfl
  | cons a as ih => simp only [List.cons_append, exec, ih, Option.bind_assoc]

theorem EveryState.head {s : S} {as : List L} (h : EveryState step P s as) : P s := by
  cases as with
  | nil => exact h
  | cons a as => exact h.1

theorem EveryState.mono {s : S} {as : List L} (h : EveryState step P s as)
    (hpq : ∀ t, P t → Q t) : EveryState step Q s as := by
  induction as generalizing s with
  | nil => exact hpq _ h
  | cons a as ih => exact ⟨hpq _ h.1,fun t ht => ih (h.2 t ht)⟩

/-- The states a run visits are those its prefixes end in. -/
theorem everyState_iff {s : S} {as : List L} : EveryState step P s as ↔
    ∀ bs t, bs <+: as → exec step s bs = some t → P t := by
  induction as generalizing s with
  | nil =>
    constructor
    · intro h bs t hb ht
      obtain rfl := List.prefix_nil.mp hb
      cases ht
      exact h
    · intro h
      exact h [] s List.prefix_rfl rfl
  | cons a as ih =>
    constructor
    · rintro ⟨hs,hr⟩ bs u hb hu
      cases bs with
      | nil => cases hu; exact hs
      | cons b bs =>
        obtain ⟨rfl,hpre⟩ := List.cons_prefix_cons.mp hb
        obtain ⟨t,ht,hu⟩ := Option.bind_eq_some_iff.mp hu
        exact ih.mp (hr t ht) bs u hpre hu
    · intro h
      refine ⟨h [] s (List.nil_prefix) rfl,?_⟩
      intro t ht
      apply ih.mpr
      intro bs u hb hu
      exact h (a :: bs) u (List.cons_prefix_cons.mpr ⟨rfl,hb⟩) (exec_cons ht hu)

theorem EveryState.last {s t : S} {as : List L} (h : EveryState step P s as)
    (ht : exec step s as = some t) : P t :=
  everyState_iff.mp h as t List.prefix_rfl ht

theorem everyStep_of_forall (h : ∀ s a, C s a) (s : S) (as : List L) : EveryStep step C s as := by
  induction as generalizing s with
  | nil => trivial
  | cons a as ih => exact fun t _ => ⟨h s a,ih t⟩

theorem everyStep_of_label {p : L → Prop} (s : S) {as : List L} (h : ∀ a ∈ as, p a) :
    EveryStep step (fun _ a => p a) s as := by
  induction as generalizing s with
  | nil => trivial
  | cons a as ih =>
    exact fun t _ => ⟨h a (by simp),ih t fun b hb => h b (by simp [hb])⟩

theorem EveryStep.mono {s : S} {as : List L} (hc : EveryStep step C s as) (hch : ∀ s a, C s a → H s a) :
    EveryStep step H s as := by
  induction as generalizing s with
  | nil => trivial
  | cons a as ih => exact fun t ht => ⟨hch s a (hc t ht).1,ih (hc t ht).2⟩

/-- The steps of a run are those after which its prefixes end. -/
theorem everyStep_iff {s : S} {as : List L} : EveryStep step C s as ↔
    ∀ bs a t u, bs ++ [a] <+: as → exec step s bs = some t → step t a = some u → C t a := by
  induction as generalizing s with
  | nil =>
    constructor
    · intro _ bs a t u hb
      simp at hb
    · exact fun _ => trivial
  | cons a as ih =>
    constructor
    · intro h bs b t u hb ht hu
      cases bs with
      | nil =>
        cases ht
        obtain ⟨rfl,_⟩ := List.cons_prefix_cons.mp hb
        exact (h u hu).1
      | cons c cs =>
        obtain ⟨rfl,hpre⟩ := List.cons_prefix_cons.mp hb
        obtain ⟨v,hv,ht⟩ := Option.bind_eq_some_iff.mp ht
        exact ih.mp (h v hv).2 cs b t u hpre ht hu
    · intro h t ht
      refine ⟨h [] a s t (List.cons_prefix_cons.mpr ⟨rfl,List.nil_prefix⟩) rfl ht,?_⟩
      apply ih.mpr
      intro bs b u v hb hu hv
      exact h (a :: bs) b u v (List.cons_prefix_cons.mpr ⟨rfl,hb⟩) (exec_cons ht hu) hv

theorem EveryStep.of_prefix {s : S} {as bs : List L} (h : EveryStep step C s as) (hb : bs <+: as) :
    EveryStep step C s bs := by
  apply everyStep_iff.mpr
  intro cs a t u hc
  exact everyStep_iff.mp h cs a t u (hc.trans hb)

theorem EveryStep.append {s : S} {as bs : List L} (h : EveryStep step C s as)
    (hb : ∀ t, exec step s as = some t → EveryStep step C t bs) : EveryStep step C s (as ++ bs) := by
  induction as generalizing s with
  | nil => exact hb s rfl
  | cons a as ih => exact fun t ht => ⟨(h t ht).1,ih (h t ht).2 fun u hu => hb u (exec_cons ht hu)⟩

theorem EveryStep.and {s : S} {as : List L} (hc : EveryStep step C s as) (hh : EveryStep step H s as) :
    EveryStep step (fun t a => C t a ∧ H t a) s as := by
  induction as generalizing s with
  | nil => trivial
  | cons a as ih =>
    exact fun t ht => ⟨⟨(hc t ht).1,(hh t ht).1⟩,ih (hc t ht).2 (hh t ht).2⟩

/-- A condition may use what it preserves. -/
theorem EveryStep.of_preserves {s : S} {as : List L} (hh : EveryStep step H s as) (hs : Inv s)
    (himp : ∀ s a t, Inv s → H s a → step s a = some t → C s a)
    (hstep : ∀ s a t, Inv s → C s a → step s a = some t → Inv t) : EveryStep step C s as := by
  induction as generalizing s with
  | nil => trivial
  | cons a as ih =>
    intro t ht
    have hc := himp s a t hs (hh t ht).1 ht
    exact ⟨hc,ih (hh t ht).2 (hstep s a t hs hc ht)⟩

/-- The run rule: what every admitted step preserves holds along every admitted run. -/
theorem EveryStep.preserves {s : S} {as : List L} (hc : EveryStep step C s as)
    (hstep : ∀ s a t, Inv s → C s a → step s a = some t → Inv t) (hs : Inv s) :
    EveryState step Inv s as := by
  induction as generalizing s with
  | nil => exact hs
  | cons a as ih =>
    refine ⟨hs,fun t ht => ?_⟩
    exact ih (hc t ht).2 (hstep s a t hs (hc t ht).1 ht)

/-- The run rule without a condition. -/
theorem everyState_of_preserves (hstep : ∀ s a t, Inv s → step s a = some t → Inv t) {s : S}
    (hs : Inv s) (as : List L) : EveryState step Inv s as :=
  (everyStep_of_forall (C := fun _ _ => True) (fun _ _ => trivial) s as).preserves
    (fun s a t h _ => hstep s a t h) hs

theorem exec_preserves (hstep : ∀ s a t, Inv s → step s a = some t → Inv t) {s t : S} {as : List L}
    (ht : exec step s as = some t) (hs : Inv s) : Inv t :=
  (everyState_of_preserves hstep hs as).last ht

/-- The run rule for a property of every state that fails at once after a step `C` does not admit.
`H` restricts the runs that are considered. -/
theorem EveryStep.iff_everyState {s : S} {as : List L} (hh : EveryStep step H s as) (hs : Inv s)
    (hP : ∀ s, Inv s → P s)
    (good : ∀ s a t, Inv s → H s a → C s a → step s a = some t → Inv t)
    (bad : ∀ s a t, Inv s → H s a → step s a = some t → P t → C s a) :
    EveryStep step C s as ↔ EveryState step P s as := by
  constructor
  · intro hc
    refine ((hc.and hh).preserves ?_ hs).mono hP
    intro s a t hs h ht
    exact good s a t hs h.2 h.1 ht
  · intro hp
    induction as generalizing s with
    | nil => trivial
    | cons a as ih =>
      intro t ht
      have hc := bad s a t hs (hh t ht).1 ht (hp.2 t ht).head
      exact ⟨hc,ih (hh t ht).2 (good s a t hs (hh t ht).1 hc ht) (hp.2 t ht)⟩

theorem everyStep_iff_everyState {s : S} {as : List L} (hs : Inv s) (hP : ∀ s, Inv s → P s)
    (good : ∀ s a t, Inv s → C s a → step s a = some t → Inv t)
    (bad : ∀ s a t, Inv s → step s a = some t → P t → C s a) :
    EveryStep step C s as ↔ EveryState step P s as :=
  (everyStep_of_forall (C := fun _ _ => True) (fun _ _ => trivial) s as).iff_everyState hs hP
    (fun s a t hs _ => good s a t hs) (fun s a t hs _ => bad s a t hs)

section
variable {O : Type*} {p : L → Prop} {f : S → O}

/-- No run whose labels satisfy `p` changes what `f` observes. -/
def Frozen (step : S → L → Option S) (p : L → Prop) (f : S → O) (s : S) : Prop :=
  ∀ as t, (∀ a ∈ as, p a) → exec step s as = some t → f t = f s

theorem Frozen.after {s t : S} {a : L} (h : Frozen step p f s) (ha : p a) (ht : step s a = some t) :
    f t = f s ∧ Frozen step p f t := by
  have hone : f t = f s := by
    apply h [a] t
    · simpa using ha
    · exact exec_cons ht rfl
  refine ⟨hone,?_⟩
  intro as u has hu
  rw [hone]
  apply h (a :: as) u
  · intro b hb
    rcases List.mem_cons.mp hb with rfl | hb
    · exact ha
    · exact has b hb
  · exact exec_cons ht hu

theorem frozen_of_preserves
    (hstep : ∀ s a t, Inv s → p a → step s a = some t → Inv t ∧ f t = f s) {s : S} (hs : Inv s) :
    Frozen step p f s := by
  intro as
  induction as generalizing s with
  | nil =>
    intro t _ ht
    cases ht
    rfl
  | cons a as ih =>
    intro t ha ht
    obtain ⟨u,hu,hr⟩ := Option.bind_eq_some_iff.mp ht
    obtain ⟨hinv,hf⟩ := hstep s a u hs (ha a (by simp)) hu
    rw [ih hinv t (fun b hb => ha b (by simp [hb])) hr, hf]

end

/-- Steps that lower a measure are as many as it has. -/
theorem exec_length_le {m : S → ℕ} {p : L → Prop}
    (hm : ∀ s a t, p a → step s a = some t → m t < m s) {s t : S} {as : List L}
    (ha : ∀ a ∈ as, p a) (h : exec step s as = some t) : as.length + m t ≤ m s := by
  induction as generalizing s with
  | nil =>
    cases h
    simp
  | cons a as ih =>
    obtain ⟨u,hu,hr⟩ := Option.bind_eq_some_iff.mp h
    have hlt := hm s a u (ha a (by simp)) hu
    have hle := ih (fun b hb => ha b (by simp [hb])) hr
    simp only [List.length_cons]
    omega

instance decidableEveryStep [∀ s a, Decidable (C s a)] :
    (s : S) → (as : List L) → Decidable (EveryStep step C s as)
  | _, [] => isTrue trivial
  | s, a :: as =>
    match h : step s a with
    | none => isTrue fun t ht => by rw [h] at ht; cases ht
    | some u =>
      have : Decidable (EveryStep step C u as) := decidableEveryStep u as
      decidable_of_iff (C s a ∧ EveryStep step C u as) (by
        constructor
        · intro hu t ht
          cases h.symm.trans ht
          exact hu
        · intro hu
          exact hu u h)

end OctCommu.Runs
