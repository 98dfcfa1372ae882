import Mathlib.Tactic.Common

/-! # Flags in a machine word

A field of a word is given by its mask. Setting and clearing bits changes the
field only where the bits meet the mask.
-/
namespace OctCommu.Flags
variable {w : ℕ} {x b c m : BitVec w}

def setBits (x b : BitVec w) : BitVec w := x ||| b
def clearBits (x b : BitVec w) : BitVec w := x &&& ~~~b

/-- No bit is in both. -/
def Apart (b m : BitVec w) : Prop := b &&& m = 0#w

instance : Decidable (Apart b m) := inferInstanceAs (Decidable (b &&& m = 0#w))

theorem Apart.of_and_eq (h : Apart b m) (hc : c &&& b = c) : Apart c m := by
  have hz : b &&& m = 0#w := h
  unfold Apart
  rw [← hc, BitVec.and_assoc, hz, BitVec.and_zero]

/-- Two words that agree on a mask agree on its parts. -/
theorem and_eq_of_and_eq {y : BitVec w} (h : x &&& m = y &&& m) (hb : m &&& b = b) :
    x &&& b = y &&& b := by
  rw [← hb, ← BitVec.and_assoc, ← BitVec.and_assoc, h]

/-- The field stays as it is just when the bits that are set were set there. -/
theorem and_setBits_iff : setBits x b &&& m = x &&& m ↔ x &&& (b &&& m) = b &&& m := by
  simp only [setBits, BitVec.eq_of_getLsbD_eq_iff, BitVec.getLsbD_and, BitVec.getLsbD_or]
  refine forall_congr' fun i => forall_congr' fun _ => ?_
  cases x.getLsbD i <;> cases b.getLsbD i <;> cases m.getLsbD i <;> decide

theorem and_clearBits_iff : clearBits x b &&& m = x &&& m ↔ x &&& (b &&& m) = 0#w := by
  simp only [clearBits, BitVec.eq_of_getLsbD_eq_iff, BitVec.getLsbD_and, BitVec.getLsbD_not,
    BitVec.getLsbD_zero]
  refine forall_congr' fun i => forall_congr' fun hi => ?_
  simp only [hi, decide_true, Bool.true_and]
  cases x.getLsbD i <;> cases b.getLsbD i <;> cases m.getLsbD i <;> decide

theorem and_setBits (h : Apart b m) : setBits x b &&& m = x &&& m := by
  have hz : b &&& m = 0#w := h
  rw [and_setBits_iff, hz, BitVec.and_zero]

theorem and_clearBits (h : Apart b m) : clearBits x b &&& m = x &&& m := by
  have hz : b &&& m = 0#w := h
  rw [and_clearBits_iff, hz, BitVec.and_zero]

theorem setBits_setBits : setBits (setBits x b) c = setBits x (b ||| c) := BitVec.or_assoc ..

/-- Bits of the field itself. -/
theorem and_setBits_own : setBits x b &&& m = (x &&& m) ||| (b &&& m) :=
  BitVec.and_or_distrib_right

theorem and_setBits_of_and_eq (h : b &&& m = m) : setBits x b &&& m = m := by
  apply BitVec.eq_of_getLsbD_eq
  intro i _
  have hm := congrArg (fun v => v.getLsbD i) h
  simp only [BitVec.getLsbD_and] at hm
  simp only [setBits, BitVec.getLsbD_and, BitVec.getLsbD_or]
  revert hm
  cases x.getLsbD i <;> cases b.getLsbD i <;> cases m.getLsbD i <;> decide

theorem and_clearBits_own (h : b &&& m = m) : clearBits x b &&& m = 0#w := by
  apply BitVec.eq_of_getLsbD_eq
  intro i hi
  have hm := congrArg (fun v => v.getLsbD i) h
  simp only [BitVec.getLsbD_and] at hm
  simp only [clearBits, BitVec.getLsbD_and, BitVec.getLsbD_not, BitVec.getLsbD_zero, hi,
    decide_true, Bool.true_and]
  revert hm
  cases x.getLsbD i <;> cases b.getLsbD i <;> cases m.getLsbD i <;> decide

theorem and_or_eq_zero : x &&& (b ||| c) = 0#w ↔ x &&& b = 0#w ∧ x &&& c = 0#w := by
  rw [BitVec.and_or_distrib_left, BitVec.or_eq_zero_iff]

end OctCommu.Flags
