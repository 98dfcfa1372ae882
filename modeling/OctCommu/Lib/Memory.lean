import Mathlib.Data.Int.Basic
import Mathlib.Data.List.Basic
import Mathlib.Tactic.Common

/-! # Byte memory as the C string functions see it

A memory is addressed from the start of an array; addresses past its end are
memory too, so a copy that leaves the array is visible. `segment` is what a
pointer and a length describe.
-/
namespace OctCommu.Memory
variable {A : Type*}

/-- `size_t` arithmetic wraps at this value. -/
def sizeModulus : ℕ := 18446744073709551616

/-- The cast of a signed value to `size_t`. -/
def toSize (i : ℤ) : ℕ := (i % (sizeModulus : ℤ)).toNat

theorem toSize_of_nat {n : ℕ} (h : n < sizeModulus) : toSize n = n := by
  unfold toSize
  rw [Int.emod_eq_of_lt (by omega) (by exact_mod_cast h)]
  exact Int.toNat_natCast n

/-- The cast of a signed value to `int`. -/
def toInt32 (i : ℤ) : ℤ := (i + 2147483648) % 4294967296 - 2147483648

theorem toInt32_of_lt {i : ℤ} (hl : -2147483648 ≤ i) (hu : i < 2147483648) : toInt32 i = i := by
  unfold toInt32
  omega

theorem toInt32_lt (i : ℤ) : toInt32 i < 2147483648 := by
  unfold toInt32
  omega

def segment (m : ℕ → A) (pos len : ℕ) : List A := (List.range len).map fun i => m (pos + i)

/-- `memcpy(m + dst, src, src.length)` from a source that does not overlap. -/
def memcpy (m : ℕ → A) (dst : ℕ) (src : List A) : ℕ → A :=
  fun i => if dst ≤ i then src[i - dst]?.getD (m i) else m i

/-- `memmove(m + dst, m + src, len)`; the source is read before anything is written. -/
def memmove (m : ℕ → A) (dst src len : ℕ) : ℕ → A := memcpy m dst (segment m src len)

def memset (m : ℕ → A) (a : A) (len : ℕ) : ℕ → A := fun i => if i < len then a else m i

@[simp] theorem segment_length (m : ℕ → A) (pos len : ℕ) : (segment m pos len).length = len := by
  simp [segment]

@[simp] theorem segment_zero (m : ℕ → A) (pos : ℕ) : segment m pos 0 = [] := rfl

theorem segment_add (m : ℕ → A) (pos a b : ℕ) :
    segment m pos (a + b) = segment m pos a ++ segment m (pos + a) b := by
  simp [segment, List.range_add, Function.comp_def, Nat.add_assoc]

theorem segment_congr {m m' : ℕ → A} {pos pos' len : ℕ}
    (h : ∀ i < len, m (pos + i) = m' (pos' + i)) : segment m pos len = segment m' pos' len := by
  apply List.map_congr_left
  intro i hi
  exact h i (List.mem_range.mp hi)

theorem segment_drop (m : ℕ → A) (pos len k : ℕ) :
    (segment m pos len).drop k = segment m (pos + k) (len - k) := by
  by_cases h : k ≤ len
  · obtain ⟨r,rfl⟩ := Nat.exists_eq_add_of_le h
    rw [segment_add, List.drop_left' (by simp), Nat.add_sub_cancel_left]
  · have hk : len - k = 0 := by omega
    rw [hk, segment_zero, List.drop_eq_nil_of_le (by simp; omega)]

theorem segment_take (m : ℕ → A) (pos len k : ℕ) (h : k ≤ len) :
    (segment m pos len).take k = segment m pos k := by
  obtain ⟨r,rfl⟩ := Nat.exists_eq_add_of_le h
  rw [segment_add, List.take_left' (by simp)]

theorem memcpy_below {m : ℕ → A} {dst i : ℕ} (src : List A) (h : i < dst) :
    memcpy m dst src i = m i := by
  simp [memcpy, Nat.not_le.mpr h]

theorem memcpy_above {m : ℕ → A} {dst i : ℕ} {src : List A} (h : dst + src.length ≤ i) :
    memcpy m dst src i = m i := by
  have hl : src.length ≤ i - dst := by omega
  simp [memcpy, List.getElem?_eq_none hl]

theorem segment_memcpy_self (m : ℕ → A) (dst : ℕ) (src : List A) :
    segment (memcpy m dst src) dst src.length = src := by
  apply List.ext_getElem (by simp)
  intro i _ hi
  simp [segment, memcpy, hi]

theorem segment_memcpy_take {k : ℕ} (m : ℕ → A) (dst : ℕ) {src : List A} (h : k ≤ src.length) :
    segment (memcpy m dst src) dst k = src.take k := by
  rw [← segment_take _ _ _ _ h, segment_memcpy_self]

theorem segment_memcpy_below {m : ℕ → A} {dst pos len : ℕ} (src : List A) (h : pos + len ≤ dst) :
    segment (memcpy m dst src) pos len = segment m pos len :=
  segment_congr fun i hi => memcpy_below src (by omega)

theorem segment_memcpy_above {m : ℕ → A} {dst pos len : ℕ} {src : List A}
    (h : dst + src.length ≤ pos) : segment (memcpy m dst src) pos len = segment m pos len :=
  segment_congr fun i _ => memcpy_above (by omega)

theorem segment_memcpy_append (m : ℕ → A) (pos len : ℕ) (src : List A) :
    segment (memcpy m (pos + len) src) pos (len + src.length) = segment m pos len ++ src := by
  rw [segment_add, segment_memcpy_below src (Nat.le_refl _), segment_memcpy_self]

theorem segment_memcpy_start (m : ℕ → A) (pos len : ℕ) (src : List A) :
    segment (memcpy m pos src) pos (src.length + len) = src ++ segment m (pos + src.length) len := by
  rw [segment_add, segment_memcpy_self, segment_memcpy_above (Nat.le_refl _)]

/-- A write to an interval apart from the segment. -/
theorem segment_memcpy_apart {m : ℕ → A} {dst n pos len : ℕ} {src : List A} (hn : src.length ≤ n)
    (h : pos + len ≤ dst ∨ dst + n ≤ pos) : segment (memcpy m dst src) pos len = segment m pos len := by
  obtain h | h := h
  · exact segment_memcpy_below src h
  · exact segment_memcpy_above (by omega)

@[simp] theorem segment_memmove_self (m : ℕ → A) (dst src len : ℕ) :
    segment (memmove m dst src len) dst len = segment m src len := by
  have h := segment_memcpy_self m dst (segment m src len)
  rwa [segment_length] at h

end OctCommu.Memory
