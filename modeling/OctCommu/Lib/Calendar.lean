import Mathlib.Algebra.BigOperators.Group.List.Basic
import Mathlib.Algebra.Order.Group.Int
import Mathlib.Algebra.Ring.Int.Defs
import Mathlib.Data.List.GetD

/-! # The Gregorian calendar

Days are numbered from the first of January 1970. A date is found by the slots that the
years and the months of a year take up, each of which begins where the one before ends.
-/
namespace OctCommu.Calendar

theorem sum_take_add_getD_le {ls : List ℤ} (hpos : ∀ l ∈ ls, 0 ≤ l) {m n : ℕ} (h : m < n) :
    (ls.take m).sum + ls.getD m 0 ≤ (ls.take n).sum := by
  have hsucc : ∀ k, (ls.take (k + 1)).sum = (ls.take k).sum + ls.getD k 0 := by
    intro k
    rcases Nat.lt_or_ge k ls.length with hk | hk
    · rw [List.sum_take_succ ls k hk, List.getD_eq_getElem ls 0 hk]
    · rw [List.take_of_length_le hk, List.take_of_length_le (by omega), List.getD_eq_default ls 0 hk]
      omega
  induction n with
  | zero => omega
  | succ n ih =>
    rw [hsucc]
    rcases Nat.lt_succ_iff_lt_or_eq.mp h with h | rfl
    · have hnonneg : 0 ≤ ls.getD n 0 := by
        rcases Nat.lt_or_ge n ls.length with hn | hn
        · rw [List.getD_eq_getElem ls 0 hn]
          exact hpos _ (List.getElem_mem hn)
        · rw [List.getD_eq_default ls 0 hn]
      have hle := ih h
      omega
    · exact Int.le_refl _

/-- The slots of a list of lengths do not overlap. -/
theorem slot_unique {ls : List ℤ} (hpos : ∀ l ∈ ls, 0 ≤ l) {m n : ℕ} {x : ℤ}
    (hm : (ls.take m).sum ≤ x ∧ x < (ls.take m).sum + ls.getD m 0)
    (hn : (ls.take n).sum ≤ x ∧ x < (ls.take n).sum + ls.getD n 0) : m = n := by
  rcases Nat.lt_trichotomy m n with hlt | heq | hlt
  · have hle := sum_take_add_getD_le hpos hlt
    omega
  · exact heq
  · have hle := sum_take_add_getD_le hpos hlt
    omega

def leap (y : ℤ) : ℤ := if y % 4 = 0 ∧ (y % 100 ≠ 0 ∨ y % 400 = 0) then 1 else 0

def monthLengths (y : ℤ) : List ℤ := [31,28 + leap y,31,30,31,30,31,31,30,31,30,31]

/-- The days before a year. -/
def daysBefore (y : ℤ) : ℤ := 365 * (y - 1970) + (y - 1) / 4 - (y - 1) / 100 + (y - 1) / 400 - 477

structure Date where
  year : ℤ
  /-- from 0 on -/
  month : ℕ
  day : ℤ
  deriving DecidableEq

structure Date.Valid (d : Date) : Prop where
  pos : 1 ≤ d.day
  le : d.day ≤ (monthLengths d.year).getD d.month 0

def Date.yearDay (d : Date) : ℤ := ((monthLengths d.year).take d.month).sum + d.day - 1

def Date.days (d : Date) : ℤ := daysBefore d.year + d.yearDay

theorem leap_cases (y : ℤ) : leap y = 0 ∨ leap y = 1 := by
  unfold leap
  split
  · exact Or.inr rfl
  · exact Or.inl rfl

theorem daysBefore_succ (y : ℤ) : daysBefore (y + 1) = daysBefore y + (365 + leap y) := by
  unfold daysBefore leap
  split <;> omega

theorem sum_monthLengths (y : ℤ) : (monthLengths y).sum = 365 + leap y := by
  simp only [monthLengths, List.sum_cons, List.sum_nil]
  omega

theorem monthLengths_nonneg (y : ℤ) : ∀ l ∈ monthLengths y, 0 ≤ l := by
  have hleap := leap_cases y
  intro l hl
  simp only [monthLengths, List.mem_cons, List.not_mem_nil, or_false] at hl
  omega

theorem daysBefore_lt {y z : ℤ} (h : y < z) : daysBefore y + (365 + leap y) ≤ daysBefore z := by
  obtain ⟨n,rfl⟩ : ∃ n : ℕ, z = y + 1 + n := ⟨(z - y - 1).toNat,by omega⟩
  clear h
  induction n with
  | zero =>
    rw [show y + 1 + ((0 : ℕ) : ℤ) = y + 1 by omega, daysBefore_succ]
  | succ n ih =>
    have hleap := leap_cases (y + 1 + n)
    rw [show y + 1 + ((n + 1 : ℕ) : ℤ) = y + 1 + n + 1 by omega, daysBefore_succ]
    omega

theorem sum_take_nonneg (y : ℤ) (k : ℕ) : 0 ≤ ((monthLengths y).take k).sum := by
  rcases Nat.eq_zero_or_pos k with rfl | hk
  · exact Int.le_refl _
  · have hsum := sum_take_add_getD_le (monthLengths_nonneg y) hk
    simp only [List.take_zero, List.sum_nil, monthLengths, List.getD_cons_zero] at hsum ⊢
    omega

variable {d e : Date}

theorem Date.Valid.yearDay_lt (h : d.Valid) : 0 ≤ d.yearDay ∧ d.yearDay < 365 + leap d.year := by
  have hpos := h.pos
  have hle := h.le
  have hlow := sum_take_nonneg d.year d.month
  have htotal : ((monthLengths d.year).take d.month).sum + (monthLengths d.year).getD d.month 0 ≤
      (monthLengths d.year).sum := by
    have hsum := sum_take_add_getD_le (monthLengths_nonneg d.year) (show d.month < d.month + 12 by omega)
    rw [List.take_of_length_le (i := d.month + 12) (by simp [monthLengths])] at hsum
    exact hsum
  rw [sum_monthLengths] at htotal
  unfold Date.yearDay
  omega

/-- A number of days is that of one date. -/
theorem Date.days_inj (hd : d.Valid) (he : e.Valid) (h : d.days = e.days) : d = e := by
  have hdlt := hd.yearDay_lt
  have helt := he.yearDay_lt
  unfold Date.days at h
  have hyear : d.year = e.year := by
    rcases lt_trichotomy d.year e.year with hlt | heq | hlt
    · have hle := daysBefore_lt hlt
      omega
    · exact heq
    · have hle := daysBefore_lt hlt
      omega
  rw [hyear, add_right_inj] at h
  unfold Date.yearDay at h
  rw [hyear] at h
  have hdpos := hd.pos
  have hdle := hd.le
  have hepos := he.pos
  have hele := he.le
  rw [hyear] at hdle
  have hmonth : d.month = e.month :=
    slot_unique (monthLengths_nonneg e.year) (x := ((monthLengths e.year).take d.month).sum + d.day - 1)
      (by omega) (by omega)
  rw [hmonth] at h
  have hday : d.day = e.day := by omega
  cases d
  cases e
  simp only at hyear hmonth hday
  rw [hyear, hmonth, hday]

end OctCommu.Calendar
