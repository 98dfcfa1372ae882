import OctCommu.SerialPort.SPUtil

/-! # The rate a serial line runs at

A rate with a constant is a field of `c_cflag`; any other rate is stored beside
it. `setBaud` gets its rate as an `int`.
-/
namespace OctCommu.SerialPort
open Flags

/-- The rate that a `CBAUD` field other than `BOTHER` stands for. -/
def constantRate (speed : BitVec 32) : ℤ :=
  match standardRates.find? fun rate => rate.2 = speed with
  | some rate => rate.1
  | none => 0

def lineSpeed (c_cflag speed : BitVec 32) : ℤ :=
  if c_cflag &&& CBAUD = BOTHER then speed.toNat else constantRate (c_cflag &&& CBAUD)

/-- Both directions run at this rate. -/
def Termios.RunsAt (t : Termios) (baud : ℕ) : Prop :=
  lineSpeed t.c_cflag t.c_ispeed = baud ∧ lineSpeed t.c_cflag t.c_ospeed = baud

instance (t : Termios) (baud : ℕ) : Decidable (t.RunsAt baud) :=
  inferInstanceAs (Decidable (_ ∧ _))

namespace SPUtil
variable {calls : LineCalls} {t : Termios}

theorem standardRates_ok : ∀ r ∈ standardRates, r.2 &&& CBAUD = r.2 ∧ r.2 ≠ BOTHER ∧ r.2 ≠ 0#32 ∧
    constantRate r.2 = r.1 ∧ 0 < r.1 ∧ r.1 < 2147483648 := by
  decide

/-- A rate with a constant is that of an entry. -/
theorem rate2Constant_cases (baudrate : ℤ) : rate2Constant baudrate = 0#32 ∨
    ∃ r ∈ standardRates, r.1 = baudrate ∧ rate2Constant baudrate = r.2 := by
  unfold rate2Constant
  split
  · rename_i rate h
    right
    exact ⟨rate,List.mem_of_find?_eq_some h,by simpa using List.find?_some h,rfl⟩
  · exact Or.inl rfl

theorem rate2Constant_and (baudrate : ℤ) : rate2Constant baudrate &&& CBAUD = rate2Constant baudrate := by
  rcases rate2Constant_cases baudrate with h | ⟨r,hr,_,h⟩
  · rw [h]
    exact BitVec.zero_and
  · rw [h]
    exact (standardRates_ok r hr).1

theorem setBaud_option (device : Termios) (baud : ℤ) (option : Termios) :
    (setBaud calls device baud option).option = if rate2Constant baud = 0#32 then option
      else cfsetospeed (cfsetispeed option (rate2Constant baud)) (rate2Constant baud) := by
  by_cases h : rate2Constant baud = 0#32
  · simp only [setBaud, h, BitVec.ofNat_eq_ofNat, ne_eq, not_true_eq_false, if_false, if_true]
    split
    · split
      · rfl
      · split <;> rfl
    · rfl
  · simp only [setBaud, h, BitVec.ofNat_eq_ofNat, ne_eq, not_false_eq_true, if_true, if_false]

theorem lineSpeed_constant {r : ℤ × BitVec 32} (hr : r ∈ standardRates) (x speed : BitVec 32) :
    lineSpeed (setBits (clearBits x CBAUD) r.2) speed = r.1 := by
  obtain ⟨hin,hother,_,hrate,_⟩ := standardRates_ok r hr
  have hfield : setBits (clearBits x CBAUD) r.2 &&& CBAUD = r.2 := by
    rw [and_setBits_own, and_clearBits_own BitVec.and_self, hin, BitVec.zero_or]
  rw [lineSpeed, hfield, if_neg hother, hrate]

theorem runsAt_cfset {r : ℤ × BitVec 32} (hr : r ∈ standardRates) (t : Termios) (n : ℕ) :
    (cfsetospeed (cfsetispeed t r.2) r.2).RunsAt n ↔ r.1 = n := by
  have hspeed := lineSpeed_constant hr (setBits (clearBits t.c_cflag CBAUD) r.2)
  simp only [Termios.RunsAt, cfsetospeed, cfsetispeed, hspeed, and_self]

theorem lineSpeed_lt (c_cflag speed : BitVec 32) : lineSpeed c_cflag speed < 4294967296 := by
  unfold lineSpeed
  split
  · have h := speed.isLt
    omega
  · unfold constantRate
    split
    · rename_i rate h
      have hlt := (standardRates_ok rate (List.mem_of_find?_eq_some h)).2.2.2.2.2
      omega
    · decide

/-- A rate that fits keeps its value as an `int`, if that has a constant. -/
theorem toInt_ofNat_of_pos {n : ℕ} (hn : n < 4294967296) (hpos : 0 < (BitVec.ofNat 32 n).toInt) :
    (BitVec.ofNat 32 n).toInt = n := by
  rw [BitVec.toInt_ofNat'] at hpos ⊢
  simp only [Int.bmod] at hpos ⊢
  omega

/-- The options run at the rate asked for if it is a standard rate, or if they did before. -/
theorem runsAt_setBaud_iff (device : Termios) (n : ℕ) :
    (setBaud calls device (BitVec.ofNat 32 n).toInt t).option.RunsAt n ↔
      rate2Constant n ≠ 0 ∨ t.RunsAt n := by
  -- a standard rate is small enough to survive the conversion
  have hsmall : rate2Constant n ≠ 0 → (BitVec.ofNat 32 n).toInt = n := by
    intro h
    rcases rate2Constant_cases n with hz | ⟨r,hr,he,_⟩
    · exact absurd hz h
    · obtain ⟨_,_,_,_,hpos,hlt⟩ := standardRates_ok r hr
      rw [BitVec.toInt_ofNat']
      simp only [Int.bmod]
      omega
  rw [setBaud_option]
  rcases rate2Constant_cases (BitVec.ofNat 32 n).toInt with hz | ⟨r,hr,he,hk⟩
  · rw [if_pos hz]
    constructor
    · exact Or.inr
    · rintro (h | h)
      · rw [hsmall h] at hz
        exact absurd hz h
      · exact h
  · obtain ⟨_,_,hne,_,hpos,hlt⟩ := standardRates_ok r hr
    rw [if_neg (by rw [hk]; exact hne), hk]
    rw [runsAt_cfset hr]
    constructor
    · intro h
      left
      rw [← h, he, hk]
      exact hne
    · rintro (h | h)
      · rw [he, hsmall h]
      · have hn := lineSpeed_lt t.c_cflag t.c_ispeed
        rw [h.1] at hn
        rw [he]
        apply toInt_ofNat_of_pos
        · omega
        · rw [← he]
          exact hpos

end SPUtil
end OctCommu.SerialPort
