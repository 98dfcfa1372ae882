import OctCommu.Lib.Memory

/-! # The fixed-size buffer `FixedBuffer`

`cur_` is kept as its distance from `data_`, for an object that was not copied
from another one. It and `current_len_` are two records of the same length.
-/
namespace OctCommu.Util
open Memory

structure FixedBuffer (SIZE : ℕ) where
  data_ : ℕ → UInt8
  cur_ : ℕ
  current_len_ : ℕ

namespace FixedBuffer
variable {SIZE : ℕ}

def fresh : FixedBuffer SIZE := ⟨fun _ => 0,0,0⟩

def avail (b : FixedBuffer SIZE) : ℤ := (SIZE : ℤ) - b.cur_
def length (b : FixedBuffer SIZE) : ℕ := b.cur_
def currentLen (b : FixedBuffer SIZE) : ℕ := b.current_len_

def reset (b : FixedBuffer SIZE) : FixedBuffer SIZE := { b with cur_ := 0, current_len_ := 0 }

def moveTo (b : FixedBuffer SIZE) (len : ℕ) : FixedBuffer SIZE :=
  { b with cur_ := b.cur_ + len, current_len_ := b.current_len_ + len }

def setValidLen (b : FixedBuffer SIZE) (len : ℕ) : FixedBuffer SIZE := { b with current_len_ := len }

/-- A block that does not leave a byte free is not stored. -/
def append (b : FixedBuffer SIZE) (buf : List UInt8) : FixedBuffer SIZE :=
  if buf.length < toSize b.avail then
    { data_ := memcpy b.data_ b.cur_ buf
      cur_ := b.cur_ + buf.length
      current_len_ := b.current_len_ + buf.length }
  else b

def setEndChar (b : FixedBuffer SIZE) : FixedBuffer SIZE :=
  { b with data_ := memcpy b.data_ b.current_len_ [0] }

/-- `swap(ins)` on two different objects: the new contents of `this` and of `ins`. -/
def swap (b ins : FixedBuffer SIZE) : FixedBuffer SIZE × FixedBuffer SIZE :=
  ({ data_ := memcpy b.data_ 0 (segment ins.data_ 0 SIZE)
     cur_ := ins.current_len_
     current_len_ := ins.current_len_ },ins.reset)

def contents (b : FixedBuffer SIZE) : List UInt8 := segment b.data_ 0 b.current_len_

/-- The two length records agree and stay inside the array. -/
structure Sane (b : FixedBuffer SIZE) : Prop where
  cur_eq : b.cur_ = b.current_len_
  le_size : b.current_len_ ≤ SIZE

@[simp] theorem contents_length (b : FixedBuffer SIZE) : b.contents.length = b.current_len_ :=
  segment_length ..

@[simp] theorem contents_reset (b : FixedBuffer SIZE) : b.reset.contents = [] := rfl
@[simp] theorem current_len_reset (b : FixedBuffer SIZE) : b.reset.current_len_ = 0 := rfl
theorem sane_reset (b : FixedBuffer SIZE) : b.reset.Sane := ⟨rfl,Nat.zero_le _⟩
theorem sane_fresh : (fresh : FixedBuffer SIZE).Sane := ⟨rfl,Nat.zero_le _⟩

@[simp] theorem current_len_setEndChar (b : FixedBuffer SIZE) :
    b.setEndChar.current_len_ = b.current_len_ := rfl

/-- The terminating zero is put behind the bytes. -/
@[simp] theorem contents_setEndChar (b : FixedBuffer SIZE) : b.setEndChar.contents = b.contents :=
  segment_memcpy_below _ (by simp)

theorem Sane.setEndChar {b : FixedBuffer SIZE} (hb : b.Sane) : b.setEndChar.Sane :=
  ⟨hb.cur_eq,hb.le_size⟩

theorem Sane.length_eq {b : FixedBuffer SIZE} (hb : b.Sane) : b.length = b.contents.length := by
  rw [contents_length]
  exact hb.cur_eq

/-- The strict comparison in `append`: one byte always stays free. -/
theorem Sane.append_eq {b : FixedBuffer SIZE} (hb : b.Sane) (hs : SIZE < sizeModulus)
    (buf : List UInt8) : b.append buf =
      if b.current_len_ + buf.length < SIZE then
        { data_ := memcpy b.data_ b.cur_ buf
          cur_ := b.cur_ + buf.length
          current_len_ := b.current_len_ + buf.length }
      else b := by
  obtain ⟨hc,hl⟩ := hb
  have ha : toSize b.avail = SIZE - b.current_len_ := by
    have he : b.avail = ((SIZE - b.current_len_ : ℕ) : ℤ) := by
      unfold avail
      omega
    rw [he, toSize_of_nat (by omega)]
  unfold append
  rw [ha]
  by_cases h : b.current_len_ + buf.length < SIZE
  · rw [if_pos h, if_pos (by omega)]
  · rw [if_neg h, if_neg (by omega)]

theorem Sane.append {b : FixedBuffer SIZE} (hb : b.Sane) (hs : SIZE < sizeModulus)
    (buf : List UInt8) : (b.append buf).Sane := by
  rw [hb.append_eq hs]
  split
  · rename_i h
    exact ⟨by simp [hb.cur_eq],Nat.le_of_lt h⟩
  · exact hb

theorem Sane.contents_append {b : FixedBuffer SIZE} (hb : b.Sane) (hs : SIZE < sizeModulus)
    (buf : List UInt8) : (b.append buf).contents =
      if b.current_len_ + buf.length < SIZE then b.contents ++ buf else b.contents := by
  rw [hb.append_eq hs]
  split
  · have h := segment_memcpy_append b.data_ 0 b.current_len_ buf
    rw [Nat.zero_add] at h
    simpa only [contents, hb.cur_eq] using h
  · rfl

theorem sane_swap {b ins : FixedBuffer SIZE} (hi : ins.Sane) :
    (b.swap ins).1.Sane ∧ (b.swap ins).2.Sane :=
  ⟨⟨rfl,hi.le_size⟩,sane_reset ins⟩

/-- Despite its name `swap` moves: the bytes go to `this` and `ins` ends up empty. -/
theorem contents_swap {b ins : FixedBuffer SIZE} (hi : ins.Sane) :
    (b.swap ins).1.contents = ins.contents ∧ (b.swap ins).2.contents = [] := by
  refine ⟨?_,rfl⟩
  have hle : ins.current_len_ ≤ (segment ins.data_ 0 SIZE).length := by
    rw [segment_length]
    exact hi.le_size
  simp only [swap, contents, segment_memcpy_take _ _ hle, segment_take _ _ _ _ hi.le_size]

end FixedBuffer
end OctCommu.Util
