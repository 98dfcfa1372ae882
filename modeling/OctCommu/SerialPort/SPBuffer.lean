import OctCommu.Lib.Fifo
import OctCommu.Lib.Memory
import OctCommu.Lib.Runs
import Mathlib.Logic.Function.Basic

/-! # The serial receive buffer `SPBuffer`

The readable bytes are `data_[begin_..end_)`. `append` stores its block at
`begin_`, so the buffer is a byte queue exactly on the histories in which no
block is stored behind bytes that are still unread.
-/
namespace OctCommu.SerialPort
open Memory Runs

structure SPBuffer (SIZE : ℕ) where
  data_ : ℕ → UInt8
  begin_ : ℕ
  end_ : ℕ

namespace SPBuffer
variable {SIZE : ℕ}

def avail (b : SPBuffer SIZE) : ℕ := SIZE - b.end_
def validLen (b : SPBuffer SIZE) : ℕ := b.end_ - b.begin_

def reset (b : SPBuffer SIZE) : SPBuffer SIZE where
  data_ := memset b.data_ 0 SIZE
  begin_ := 0
  end_ := 0

def fresh : SPBuffer SIZE := reset ⟨fun _ => 0,0,0⟩

def compact (b : SPBuffer SIZE) : SPBuffer SIZE where
  data_ := memmove b.data_ 0 b.begin_ b.validLen
  begin_ := 0
  end_ := b.validLen

/-- `memcpy(data_ + begin_, pdata, len)` and the counter update behind it. -/
def store (b : SPBuffer SIZE) (pdata : List UInt8) : SPBuffer SIZE where
  data_ := memcpy b.data_ b.begin_ pdata
  begin_ := b.begin_
  end_ := b.end_ + pdata.length

def append (b : SPBuffer SIZE) (pdata : List UInt8) : ℕ × SPBuffer SIZE :=
  if SIZE < pdata.length then (1,b)
  else if b.avail < pdata.length then
    if b.begin_ ≠ 0 then
      if b.compact.avail < pdata.length then (2,b.compact) else (0,b.compact.store pdata)
    else (3,b)
  else (0,b.store pdata)

def addBegin (b : SPBuffer SIZE) (offset : ℕ) : Bool × SPBuffer SIZE :=
  if b.end_ < (b.begin_ + offset) % sizeModulus then (false,b)
  else (true,{ b with begin_ := (b.begin_ + offset) % sizeModulus })

/-- What `current()` and `validLen()` describe. -/
def readable (b : SPBuffer SIZE) : List UInt8 := segment b.data_ b.begin_ b.validLen

/-- `data(ins)` on two different objects: the new contents of `this` and of `ins`. -/
def data (b ins : SPBuffer SIZE) : SPBuffer SIZE × SPBuffer SIZE :=
  ({ b with begin_ := b.end_ },(ins.reset.append b.readable).2)

structure Ordered (b : SPBuffer SIZE) : Prop where
  begin_le : b.begin_ ≤ b.end_
  end_le : b.end_ ≤ SIZE

@[simp] theorem readable_length (b : SPBuffer SIZE) : b.readable.length = b.validLen :=
  segment_length ..

@[simp] theorem validLen_reset (b : SPBuffer SIZE) : b.reset.validLen = 0 := rfl
@[simp] theorem readable_reset (b : SPBuffer SIZE) : b.reset.readable = [] := rfl
theorem ordered_reset (b : SPBuffer SIZE) : b.reset.Ordered := ⟨le_rfl,Nat.zero_le _⟩

@[simp] theorem validLen_compact (b : SPBuffer SIZE) : b.compact.validLen = b.validLen := by
  simp [compact, validLen]

@[simp] theorem readable_compact (b : SPBuffer SIZE) : b.compact.readable = b.readable := by
  simp [readable, compact, validLen]

theorem Ordered.compact {b : SPBuffer SIZE} (hb : b.Ordered) : b.compact.Ordered := by
  refine ⟨Nat.zero_le _,?_⟩
  have h := hb.end_le
  simp only [SPBuffer.compact, validLen]
  omega

theorem Ordered.store {b : SPBuffer SIZE} (hb : b.Ordered) {pdata : List UInt8}
    (h : pdata.length ≤ b.avail) : (b.store pdata).Ordered := by
  obtain ⟨hbe,hes⟩ := hb
  unfold avail at h
  constructor <;> simp only [SPBuffer.store] <;> omega

/-- The stored block comes first, and covers as many bytes of the old contents. -/
theorem readable_store {b : SPBuffer SIZE} (hb : b.Ordered) (pdata : List UInt8) :
    (b.store pdata).readable =
      pdata ++ segment b.data_ (b.begin_ + pdata.length) b.validLen := by
  have hbe := hb.begin_le
  have hlen : (b.store pdata).validLen = pdata.length + b.validLen := by
    simp only [validLen, SPBuffer.store]
    omega
  rw [readable, hlen]
  exact segment_memcpy_start b.data_ b.begin_ b.validLen pdata

theorem readable_store_of_empty {b : SPBuffer SIZE} (hb : b.Ordered) {pdata : List UInt8}
    (h : pdata = [] ∨ b.validLen = 0) : (b.store pdata).readable = b.readable ++ pdata := by
  rw [readable_store hb]
  rcases h with rfl | h
  · simp [readable]
  · simp [readable, h]

/-- Everything a call of `append` can do. -/
theorem append_cases {b : SPBuffer SIZE} (hb : b.Ordered) (pdata : List UInt8) :
    (SIZE < b.validLen + pdata.length ∧ (b.append pdata).1 ≠ 0 ∧
      ((b.append pdata).2 = b ∨ (b.append pdata).2 = b.compact)) ∨
    (b.validLen + pdata.length ≤ SIZE ∧ (b.append pdata).1 = 0 ∧
      ∃ b', (b' = b ∨ b' = b.compact) ∧ pdata.length ≤ b'.avail ∧ (b.append pdata).2 = b'.store pdata) := by
  obtain ⟨hbe,hes⟩ := hb
  have hv : b.validLen = b.end_ - b.begin_ := rfl
  have ha : b.avail = SIZE - b.end_ := rfl
  have hc : b.compact.avail = SIZE - b.validLen := rfl
  unfold append
  by_cases h1 : SIZE < pdata.length
  · rw [if_pos h1]
    exact .inl ⟨by omega,by simp,.inl rfl⟩
  rw [if_neg h1]
  by_cases h2 : b.avail < pdata.length
  · rw [if_pos h2]
    by_cases h3 : b.begin_ ≠ 0
    · rw [if_pos h3]
      by_cases h4 : b.compact.avail < pdata.length
      · rw [if_pos h4]
        exact .inl ⟨by omega,by simp,.inr rfl⟩
      · rw [if_neg h4]
        exact .inr ⟨by omega,rfl,b.compact,.inr rfl,by omega,rfl⟩
    · rw [if_neg h3]
      exact .inl ⟨by omega,by simp,.inl rfl⟩
  · rw [if_neg h2]
    exact .inr ⟨by omega,rfl,b,.inl rfl,by omega,rfl⟩

theorem Ordered.append {b : SPBuffer SIZE} (hb : b.Ordered) (pdata : List UInt8) :
    (b.append pdata).2.Ordered := by
  obtain ⟨_,_,h | h⟩ | ⟨_,_,b',h | h,hfit,hs⟩ := append_cases hb pdata
  · rw [h]
    exact hb
  · rw [h]
    exact hb.compact
  · subst h
    rw [hs]
    exact hb.store hfit
  · subst h
    rw [hs]
    exact hb.compact.store hfit

theorem append_code {b : SPBuffer SIZE} (hb : b.Ordered) (pdata : List UInt8) :
    (b.append pdata).1 = 0 ↔ b.validLen + pdata.length ≤ SIZE := by
  obtain ⟨h,hr,_⟩ | ⟨h,hr,_⟩ := append_cases hb pdata
  · exact iff_of_false hr (by omega)
  · exact iff_of_true hr h

theorem readable_append_refused {b : SPBuffer SIZE} (hb : b.Ordered) {pdata : List UInt8}
    (h : SIZE < b.validLen + pdata.length) : (b.append pdata).2.readable = b.readable := by
  obtain ⟨_,_,he | he⟩ | ⟨hfit,_⟩ := append_cases hb pdata
  · rw [he]
  · rw [he, readable_compact]
  · omega

theorem readable_append {b : SPBuffer SIZE} (hb : b.Ordered) {pdata : List UInt8}
    (hfit : b.validLen + pdata.length ≤ SIZE) (h : pdata = [] ∨ b.validLen = 0) :
    (b.append pdata).2.readable = b.readable ++ pdata := by
  obtain ⟨hn,_⟩ | ⟨_,_,b',hb',_,hs⟩ := append_cases hb pdata
  · omega
  rw [hs]
  rcases hb' with rfl | rfl
  · exact readable_store_of_empty hb h
  · rw [readable_store_of_empty hb.compact (by simpa using h), readable_compact]

theorem Ordered.addBegin {b : SPBuffer SIZE} (hb : b.Ordered) (offset : ℕ) :
    (b.addBegin offset).2.Ordered := by
  unfold SPBuffer.addBegin
  by_cases h : b.end_ < (b.begin_ + offset) % sizeModulus
  · rw [if_pos h]
    exact hb
  · rw [if_neg h]
    exact ⟨Nat.le_of_not_lt h,hb.end_le⟩

theorem addBegin_spec {b : SPBuffer SIZE} (hb : b.Ordered) {offset : ℕ}
    (h : b.begin_ + offset < sizeModulus) :
    ((b.addBegin offset).1 = true ∧ offset ≤ b.validLen ∧
      (b.addBegin offset).2.readable = b.readable.drop offset) ∨
    ((b.addBegin offset).1 = false ∧ (b.addBegin offset).2 = b) := by
  have hbe := hb.begin_le
  unfold SPBuffer.addBegin
  rw [Nat.mod_eq_of_lt h]
  by_cases hlt : b.end_ < b.begin_ + offset
  · rw [if_pos hlt]
    exact .inr ⟨rfl,rfl⟩
  · rw [if_neg hlt]
    refine .inl ⟨rfl,?_,?_⟩
    · unfold validLen
      omega
    · simp only [readable, validLen, segment_drop]
      rw [Nat.sub_sub]

theorem addBegin_of_le {b : SPBuffer SIZE} (hb : b.Ordered) (hs : SIZE < sizeModulus) {offset : ℕ}
    (h : offset ≤ b.validLen) : b.addBegin offset = (true,{ b with begin_ := b.begin_ + offset }) := by
  obtain ⟨hbe,hes⟩ := hb
  unfold validLen at h
  have hmod : (b.begin_ + offset) % sizeModulus = b.begin_ + offset := Nat.mod_eq_of_lt (by omega)
  unfold SPBuffer.addBegin
  rw [hmod, if_neg (by omega)]

theorem Ordered.data {b ins : SPBuffer SIZE} (hb : b.Ordered) :
    (b.data ins).1.Ordered ∧ (b.data ins).2.Ordered :=
  ⟨⟨le_rfl,hb.end_le⟩,(ordered_reset ins).append _⟩

theorem readable_data {b : SPBuffer SIZE} (hb : b.Ordered) (ins : SPBuffer SIZE) :
    (b.data ins).1.readable = [] ∧ (b.data ins).2.readable = b.readable := by
  constructor
  · simp [data, readable, validLen]
  · have hfit : ins.reset.validLen + b.readable.length ≤ SIZE := by
      have := hb.end_le
      rw [validLen_reset, readable_length, validLen]
      omega
    simpa [data] using readable_append (ordered_reset ins) hfit (.inr rfl)

end SPBuffer
end OctCommu.SerialPort
