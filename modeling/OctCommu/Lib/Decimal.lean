import Mathlib.Data.List.Basic
import Mathlib.Data.Nat.Digits.Defs
import Mathlib.Tactic.Common

/-! # Decimal texts

A number is written with its decimal digits, without leading zeros.
-/
namespace OctCommu.Decimal

def toText (n : ℕ) : List UInt8 :=
  if n = 0 then [48] else (Nat.digits 10 n).reverse.map fun d => UInt8.ofNat (48 + d)

/-- The number that digits write. -/
def value (text : List UInt8) : ℕ := text.foldl (fun v ch => v * 10 + (ch.toNat - 48)) 0

def IsDigit (ch : UInt8) : Prop := 48 ≤ ch.toNat ∧ ch.toNat ≤ 57

theorem toNat_digit {d : ℕ} (h : d < 10) : (UInt8.ofNat (48 + d)).toNat = 48 + d := by
  rw [UInt8.toNat_ofNat']
  omega

theorem isDigit_of_mem {n : ℕ} {ch : UInt8} (h : ch ∈ toText n) : IsDigit ch := by
  unfold toText at h
  split at h
  · obtain rfl := List.mem_singleton.mp h
    exact ⟨by decide,by decide⟩
  · obtain ⟨d,hd,rfl⟩ := List.mem_map.mp h
    have hlt : d < 10 := Nat.digits_lt_base (by decide) (List.mem_reverse.mp hd)
    rw [IsDigit, toNat_digit hlt]
    omega

theorem value_map_digits {ds : List ℕ} (h : ∀ d ∈ ds, d < 10) :
    value (ds.reverse.map fun d => UInt8.ofNat (48 + d)) = Nat.ofDigits 10 ds := by
  induction ds with
  | nil => rfl
  | cons d ds ih =>
    have hd := h d List.mem_cons_self
    have hrest := ih fun e he => h e (List.mem_cons_of_mem d he)
    rw [value] at hrest
    rw [List.reverse_cons, List.map_append, value, List.foldl_append, hrest, Nat.ofDigits_cons]
    simp only [List.map_cons, List.map_nil, List.foldl_cons, List.foldl_nil, toNat_digit hd]
    omega

theorem value_toText (n : ℕ) : value (toText n) = n := by
  unfold toText
  split
  · rename_i hn
    rw [hn]
    rfl
  · rw [value_map_digits fun d hd => Nat.digits_lt_base (by decide) hd, Nat.ofDigits_digits]

theorem toText_inj {m n : ℕ} : toText m = toText n ↔ m = n := by
  constructor
  · intro h
    rw [← value_toText m, h, value_toText]
  · exact congrArg toText

/-- A number in front of another character can be told from what follows. -/
theorem toText_append_inj {m n : ℕ} {ch : UInt8} {s t : List UInt8} (hch : ¬IsDigit ch)
    (h : toText m ++ ch :: s = toText n ++ ch :: t) : m = n := by
  have htake : ∀ (n : ℕ) (s : List UInt8),
      (toText n ++ ch :: s).takeWhile (fun c => decide (48 ≤ c.toNat ∧ c.toNat ≤ 57)) = toText n := by
    intro n s
    rw [List.takeWhile_append_of_pos]
    · rw [List.takeWhile_cons_of_neg]
      · exact List.append_nil _
      · simpa [IsDigit] using hch
    · exact fun c hc => decide_eq_true (isDigit_of_mem hc)
  have hm := htake m s
  rw [h, htake n t] at hm
  exact (toText_inj.mp hm).symm

end OctCommu.Decimal
