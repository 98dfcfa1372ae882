import OctCommu.Lib.Runs
import OctCommu.Util.FixedBuffer
import Mathlib.Logic.Function.Basic

/-! # `FixedBuffer` objects in memory

Here `cur_` is the pointer it is in the source. All objects share one memory and
are named by the address of their `data_`; an object may be constructed wherever
no live one lies. The implicit copy constructor copies the members one by one.
-/
namespace OctCommu.Util
open Memory Runs
variable {SIZE : ℕ}

/-- The memory, the live objects and their members, and for each object the bytes it accepted since
its last reset. -/
structure FixedBuffers (SIZE : ℕ) where
  mem : ℕ → UInt8
  live : List ℕ
  cur_ : ℕ → ℕ
  current_len_ : ℕ → ℕ
  accepted : ℕ → List UInt8

inductive BufferOp where
  | construct (p : ℕ)
  | copy (p other : ℕ)
  | destroy (p : ℕ)
  | append (p : ℕ) (buf : List UInt8)
  | reset (p : ℕ)
  | setEndChar (p : ℕ)
  | swap (p ins : ℕ)

namespace FixedBuffers

def start (mem : ℕ → UInt8) : FixedBuffers SIZE := ⟨mem,[],fun _ => 0,fun _ => 0,fun _ => []⟩

def Free (h : FixedBuffers SIZE) (p : ℕ) : Prop := ∀ q ∈ h.live, q + SIZE ≤ p ∨ p + SIZE ≤ q

instance (h : FixedBuffers SIZE) (p : ℕ) : Decidable (h.Free p) :=
  inferInstanceAs (Decidable (∀ q ∈ h.live, q + SIZE ≤ p ∨ p + SIZE ≤ q))

def avail (h : FixedBuffers SIZE) (p : ℕ) : ℤ := toInt32 ((p + SIZE : ℕ) - (h.cur_ p : ℤ))
def length (h : FixedBuffers SIZE) (p : ℕ) : ℤ := toInt32 ((h.cur_ p : ℤ) - p)

/-- Set the two records of the length, and what the object accepted. -/
def setLen (h : FixedBuffers SIZE) (p cur_ len : ℕ) (bytes : List UInt8) : FixedBuffers SIZE :=
  { h with
    cur_ := Function.update h.cur_ p cur_
    current_len_ := Function.update h.current_len_ p len
    accepted := Function.update h.accepted p bytes }

def write (h : FixedBuffers SIZE) (p : ℕ) (bytes : List UInt8) : FixedBuffers SIZE :=
  { h with mem := memcpy h.mem p bytes }

def construct (h : FixedBuffers SIZE) (p : ℕ) : FixedBuffers SIZE :=
  { (h.write p (List.replicate SIZE 0)).setLen p p 0 [] with live := p :: h.live }

def copy (h : FixedBuffers SIZE) (p other : ℕ) : FixedBuffers SIZE :=
  { (h.write p (segment h.mem other SIZE)).setLen p (h.cur_ other) (h.current_len_ other)
      (h.accepted other) with live := p :: h.live }

def append (h : FixedBuffers SIZE) (p : ℕ) (buf : List UInt8) : FixedBuffers SIZE :=
  if buf.length < toSize (h.avail p) then
    (h.write (h.cur_ p) buf).setLen p (h.cur_ p + buf.length) (h.current_len_ p + buf.length)
      (h.accepted p ++ buf)
  else h

def reset (h : FixedBuffers SIZE) (p : ℕ) : FixedBuffers SIZE := h.setLen p p 0 []

def setEndChar (h : FixedBuffers SIZE) (p : ℕ) : FixedBuffers SIZE :=
  h.write (p + h.current_len_ p) [0]

def swap (h : FixedBuffers SIZE) (p ins : ℕ) : FixedBuffers SIZE :=
  if p = ins then h
  else
    ((h.write p (segment h.mem ins SIZE)).setLen p (p + h.current_len_ ins) (h.current_len_ ins)
      (h.accepted ins)).reset ins

def step (h : FixedBuffers SIZE) : BufferOp → Option (FixedBuffers SIZE)
  | .construct p => if h.Free p then some (h.construct p) else none
  | .copy p other => if h.Free p ∧ other ∈ h.live then some (h.copy p other) else none
  | .destroy p => if p ∈ h.live then some { h with live := h.live.erase p } else none
  | .append p buf => if p ∈ h.live then some (h.append p buf) else none
  | .reset p => if p ∈ h.live then some (h.reset p) else none
  | .setEndChar p => if p ∈ h.live then some (h.setEndChar p) else none
  | .swap p ins => if p ∈ h.live ∧ ins ∈ h.live then some (h.swap p ins) else none

/-- The write cursor of the object at `p` is inside its own array, and all records of the length
agree with what was accepted. A terminating zero written behind it stays in the array. -/
structure CursorInside (h : FixedBuffers SIZE) (p : ℕ) : Prop where
  cur_eq : h.cur_ p = p + h.current_len_ p
  length_eq : h.length p = h.current_len_ p
  len_le : h.current_len_ p ≤ SIZE
  endChar_lt : h.current_len_ p < SIZE
  bytes_eq : segment h.mem p (h.current_len_ p) = h.accepted p

/-- The invariant of a history: live objects are apart, and their cursors are inside. -/
structure Inv (h : FixedBuffers SIZE) : Prop where
  nodup : h.live.Nodup
  apart : ∀ p ∈ h.live, ∀ q ∈ h.live, p ≠ q → p + SIZE ≤ q ∨ q + SIZE ≤ p
  inside : ∀ p ∈ h.live, h.CursorInside p

theorem inv_start (mem : ℕ → UInt8) : (start mem : FixedBuffers SIZE).Inv :=
  ⟨List.nodup_nil,by simp [start],by simp [start]⟩

/-- Changing the members of one object leaves the other objects as they are. -/
theorem CursorInside.of_ne {h : FixedBuffers SIZE} {p q : ℕ} (hq : h.CursorInside q) (hne : q ≠ p)
    (cur_ len : ℕ) (bytes : List UInt8) : (h.setLen p cur_ len bytes).CursorInside q := by
  obtain ⟨hc,hl,hle,he,hb⟩ := hq
  constructor <;> simpa [setLen, length, Function.update_of_ne hne]

theorem CursorInside.with_live {h : FixedBuffers SIZE} {q : ℕ} (hq : h.CursorInside q)
    (live : List ℕ) : ({ h with live := live } : FixedBuffers SIZE).CursorInside q :=
  ⟨hq.cur_eq,hq.length_eq,hq.len_le,hq.endChar_lt,hq.bytes_eq⟩

theorem CursorInside.lt_int {h : FixedBuffers SIZE} {q : ℕ} (hq : h.CursorInside q) :
    h.current_len_ q < 2147483648 := by
  have hl := hq.length_eq
  have hlt := toInt32_lt ((h.cur_ q : ℤ) - q)
  unfold length at hl
  omega

/-- A write that spares the bytes of the object. -/
theorem CursorInside.write {h : FixedBuffers SIZE} {q a : ℕ} (hq : h.CursorInside q)
    {bytes : List UInt8} (ha : q + h.current_len_ q ≤ a ∨ a + bytes.length ≤ q) :
    (h.write a bytes).CursorInside q := by
  obtain ⟨hc,hl,hle,he,hb⟩ := hq
  exact ⟨hc,hl,hle,he,(segment_memcpy_apart (Nat.le_refl _) ha).trans hb⟩

/-- The object itself after its members are set to a length that the array holds. -/
theorem cursorInside_setLen {h : FixedBuffers SIZE} {p len : ℕ} {bytes : List UInt8}
    (hlt : len < SIZE) (hint : len < 2147483648) (hb : segment h.mem p len = bytes) :
    (h.setLen p (p + len) len bytes).CursorInside p := by
  have hi : toInt32 (((p + len : ℕ) : ℤ) - p) = len := by
    have hd : ((p + len : ℕ) : ℤ) - p = len := by omega
    rw [hd, toInt32_of_lt (by omega) (by omega)]
  constructor
  · simp [setLen]
  · simp only [setLen, length, Function.update_self, hi]
  · simpa [setLen] using Nat.le_of_lt hlt
  · simpa [setLen] using hlt
  · simpa [setLen] using hb

/-- A step of the live object `p` that writes inside its array leaves the others alone. -/
theorem Inv.of_self {h h' : FixedBuffers SIZE} (hi : h.Inv) {p : ℕ} (hlive : h'.live = h.live)
    (hself : h'.CursorInside p) (hother : ∀ q ∈ h.live, q ≠ p → h'.CursorInside q) : h'.Inv := by
  refine ⟨by rw [hlive]; exact hi.nodup,by rw [hlive]; exact hi.apart,?_⟩
  intro q hq
  rw [hlive] at hq
  by_cases hqp : q = p
  · rw [hqp]
    exact hself
  · exact hother q hq hqp

/-- The first object of a place where no live one lies. -/
theorem Inv.cons {h h' : FixedBuffers SIZE} (hi : h.Inv) (hs : 0 < SIZE) {p : ℕ} (hf : h.Free p)
    (hlive : h'.live = p :: h.live) (hself : h'.CursorInside p)
    (hother : ∀ q ∈ h.live, q ≠ p → h'.CursorInside q) : h'.Inv := by
  have hp : p ∉ h.live := by
    intro hp
    have := hf p hp
    omega
  constructor
  · rw [hlive]
    exact List.nodup_cons.mpr ⟨hp,hi.nodup⟩
  · rw [hlive]
    intro a ha b hb hne
    obtain hap | hal := List.mem_cons.mp ha
    · obtain hbp | hbl := List.mem_cons.mp hb
      · exact absurd (hap.trans hbp.symm) hne
      · rw [hap]
        exact (hf b hbl).symm
    · obtain hbp | hbl := List.mem_cons.mp hb
      · rw [hbp]
        exact hf a hal
      · exact hi.apart a hal b hbl hne
  · rw [hlive]
    intro q hq
    rcases List.mem_cons.mp hq with rfl | hq
    · exact hself
    · exact hother q hq (fun he => hp (he ▸ hq))

theorem Inv.construct {h : FixedBuffers SIZE} (hi : h.Inv) (hs : 0 < SIZE) {p : ℕ}
    (hf : h.Free p) : (h.construct p).Inv := by
  apply hi.cons hs hf rfl
  · exact (cursorInside_setLen hs (by omega) (segment_zero ..)).with_live _
  · intro q hq hne
    have hw : (h.write p (List.replicate SIZE 0)).CursorInside q := by
      apply (hi.inside q hq).write
      have hle := (hi.inside q hq).len_le
      have hapart := hf q hq
      rw [List.length_replicate]
      omega
    exact (hw.of_ne hne p 0 []).with_live _

theorem Inv.destroy {h : FixedBuffers SIZE} (hi : h.Inv) (p : ℕ) :
    ({ h with live := h.live.erase p } : FixedBuffers SIZE).Inv :=
  ⟨hi.nodup.erase p,
    fun a ha b hb => hi.apart a (List.mem_of_mem_erase ha) b (List.mem_of_mem_erase hb),
    fun q hq => (hi.inside q (List.mem_of_mem_erase hq)).with_live _⟩

theorem Inv.reset {h : FixedBuffers SIZE} (hi : h.Inv) (hs : 0 < SIZE) (p : ℕ) :
    (h.reset p).Inv := by
  have hlive : (h.reset p).live = h.live := rfl
  apply hi.of_self hlive
  · exact cursorInside_setLen hs (by omega) (segment_zero ..)
  · intro q hq hne
    exact (hi.inside q hq).of_ne hne p 0 []

/-- The other objects after a write into the array of `p`. -/
theorem Inv.write_other {h : FixedBuffers SIZE} (hi : h.Inv) {p q a : ℕ} (hp : p ∈ h.live)
    (hq : q ∈ h.live) (hne : q ≠ p) {bytes : List UInt8} (ha : p ≤ a)
    (hb : a + bytes.length ≤ p + SIZE) : (h.write a bytes).CursorInside q := by
  apply (hi.inside q hq).write
  have hle := (hi.inside q hq).len_le
  have hapart := hi.apart q hq p hp hne
  omega

theorem Inv.setEndChar {h : FixedBuffers SIZE} (hi : h.Inv) {p : ℕ} (hp : p ∈ h.live) :
    (h.setEndChar p).Inv := by
  have hlt := (hi.inside p hp).endChar_lt
  have hlive : (h.setEndChar p).live = h.live := rfl
  apply hi.of_self hlive
  · exact (hi.inside p hp).write (Or.inl (Nat.le_refl _))
  · intro q hq hne
    apply hi.write_other hp hq hne (Nat.le_add_right _ _)
    rw [List.length_singleton]
    omega

/-- A write into the array of `p` after which it holds `bytes` at its start. -/
theorem Inv.store {h : FixedBuffers SIZE} (hi : h.Inv) {p a len : ℕ} (hp : p ∈ h.live)
    {src bytes : List UInt8} (ha : p ≤ a) (hb : a + src.length ≤ p + SIZE) (hlt : len < SIZE)
    (hint : len < 2147483648) (hseg : segment (memcpy h.mem a src) p len = bytes) :
    ((h.write a src).setLen p (p + len) len bytes).Inv := by
  have hlive : ((h.write a src).setLen p (p + len) len bytes).live = h.live := rfl
  apply hi.of_self hlive
  · exact cursorInside_setLen hlt hint hseg
  · intro q hq hne
    exact (hi.write_other hp hq hne ha hb).of_ne hne _ _ _

theorem Inv.append {h : FixedBuffers SIZE} (hi : h.Inv) {p : ℕ} (hp : p ∈ h.live)
    {buf : List UInt8} (hfit : buf.length < toSize (h.avail p) →
      h.current_len_ p + buf.length < SIZE ∧ h.current_len_ p + buf.length < 2147483648) :
    (h.append p buf).Inv := by
  unfold FixedBuffers.append
  split
  · rename_i hacc
    obtain ⟨hlt,hint⟩ := hfit hacc
    obtain ⟨hc,_,_,_,hb⟩ := hi.inside p hp
    rw [hc, Nat.add_assoc]
    apply hi.store hp (Nat.le_add_right _ _) (by omega) hlt hint
    rw [segment_memcpy_append, hb]
  · exact hi

theorem Inv.swap {h : FixedBuffers SIZE} (hi : h.Inv) (hs : 0 < SIZE) {p ins : ℕ}
    (hp : p ∈ h.live) (hins : ins ∈ h.live) : (h.swap p ins).Inv := by
  unfold FixedBuffers.swap
  split
  · exact hi
  · have hii := hi.inside ins hins
    have hle : h.current_len_ ins ≤ (segment h.mem ins SIZE).length := by
      rw [segment_length]
      exact hii.len_le
    apply Inv.reset _ hs
    apply hi.store hp (Nat.le_refl _) (by rw [segment_length]) hii.endChar_lt hii.lt_int
    rw [segment_memcpy_take _ _ hle, segment_take _ _ _ _ hii.len_le, hii.bytes_eq]

/-- The steps that keep a cursor in its array: no copies, and no append that takes more than the
array and the type `int` hold. -/
def KeepsCursor (h : FixedBuffers SIZE) : BufferOp → Prop
  | .copy _ _ => False
  | .append p buf => buf.length < toSize (h.avail p) →
      h.current_len_ p + buf.length < SIZE ∧ h.current_len_ p + buf.length < 2147483648
  | _ => True

theorem step_good {h t : FixedBuffers SIZE} {c : BufferOp} (hs : 0 < SIZE) (hi : h.Inv)
    (hc : h.KeepsCursor c) (ht : h.step c = some t) : t.Inv := by
  cases c with
  | construct p =>
    obtain ⟨hf,⟨⟩⟩ := Option.ite_none_right_eq_some.mp ht
    exact hi.construct hs hf
  | copy p other => exact hc.elim
  | destroy p =>
    obtain ⟨_,⟨⟩⟩ := Option.ite_none_right_eq_some.mp ht
    exact hi.destroy p
  | append p buf =>
    obtain ⟨hp,⟨⟩⟩ := Option.ite_none_right_eq_some.mp ht
    exact hi.append hp hc
  | reset p =>
    obtain ⟨_,⟨⟩⟩ := Option.ite_none_right_eq_some.mp ht
    exact hi.reset hs p
  | setEndChar p =>
    obtain ⟨hp,⟨⟩⟩ := Option.ite_none_right_eq_some.mp ht
    exact hi.setEndChar hp
  | swap p ins =>
    obtain ⟨⟨hp,hins⟩,⟨⟩⟩ := Option.ite_none_right_eq_some.mp ht
    exact hi.swap hs hp hins

/-- The copy's `cur_` still points into the object it was copied from. -/
theorem copy_bad {h : FixedBuffers SIZE} {p other : ℕ} (hs : 0 < SIZE) (hi : h.Inv)
    (hf : h.Free p) (ho : other ∈ h.live) : ¬ (h.copy p other).CursorInside p := by
  intro hp
  have hcur := hp.cur_eq
  simp only [copy, setLen, Function.update_self] at hcur
  have hother := (hi.inside other ho).cur_eq
  have hfree := hf other ho
  omega

theorem step_bad {h t : FixedBuffers SIZE} {c : BufferOp} (hs : 0 < SIZE) (hi : h.Inv)
    (ht : h.step c = some t) (hp : ∀ p ∈ t.live, t.CursorInside p) : h.KeepsCursor c := by
  cases c with
  | copy p other =>
    obtain ⟨⟨hf,ho⟩,⟨⟩⟩ := Option.ite_none_right_eq_some.mp ht
    exact copy_bad hs hi hf ho (hp p (List.mem_cons_self ..))
  | append p buf =>
    obtain ⟨hmem,⟨⟩⟩ := Option.ite_none_right_eq_some.mp ht
    intro hacc
    have hpi : (h.append p buf).CursorInside p := by
      apply hp
      unfold FixedBuffers.append
      split <;> exact hmem
    have hlen : (h.append p buf).current_len_ p = h.current_len_ p + buf.length := by
      simp only [FixedBuffers.append, if_pos hacc, setLen, Function.update_self]
    rw [← hlen]
    exact ⟨hpi.endChar_lt,hpi.lt_int⟩
  | construct p => trivial
  | destroy p => trivial
  | reset p => trivial
  | setEndChar p => trivial
  | swap p ins => trivial

/-- Every live object keeps its cursor inside itself just as long as none is copied and no append
outgrows the array. -/
theorem keepsCursor_iff_cursorInside (hs : 0 < SIZE) (mem : ℕ → UInt8) (ops : List BufferOp) :
    EveryStep step KeepsCursor (start mem : FixedBuffers SIZE) ops ↔
      EveryState step (fun h => ∀ p ∈ h.live, h.CursorInside p)
        (start mem : FixedBuffers SIZE) ops := by
  apply everyStep_iff_everyState (inv_start mem)
  · intro h hi
    exact hi.inside
  · intro h c t hi hc ht
    exact step_good hs hi hc ht
  · intro h c t hi ht hp
    exact step_bad hs hi ht hp

/-- The premises of the equivalence hold for the receive buffers of the links. -/
theorem keepsCursor_iff_cursorInside_recv :
    EveryStep step KeepsCursor (start (fun _ => 0) : FixedBuffers 262144) [.construct 0] ↔
      EveryState step (fun h => ∀ p ∈ h.live, h.CursorInside p)
        (start (fun _ => 0) : FixedBuffers 262144) [.construct 0] :=
  keepsCursor_iff_cursorInside (by decide) _ _

/-- A one-byte buffer copied as a queue would do it: the copy's `cur_` is 1, its `data_` 100. -/
theorem not_cursorInside_copy : ¬ EveryState step (fun h => ∀ p ∈ h.live, h.CursorInside p)
    (start (fun _ => 0) : FixedBuffers 4) [.construct 0,.append 0 [7],.copy 100 0] := by
  intro h
  have hcur := ((h.last rfl) 100 (by decide)).cur_eq
  exact absurd hcur (by decide)

theorem CursorInside.avail_eq {h : FixedBuffers SIZE} {p : ℕ} (hp : h.CursorInside p)
    (hlt : SIZE < 2147483648) : h.avail p = ((SIZE - h.current_len_ p : ℕ) : ℤ) := by
  have hc := hp.cur_eq
  have hle := hp.len_le
  unfold avail
  rw [toInt32_of_lt (by omega) (by omega)]
  omega

/-- Every append that an array below 2 GiB accepts leaves a byte of it free. -/
theorem CursorInside.keepsCursor_append {h : FixedBuffers SIZE} {p : ℕ} (hp : h.CursorInside p)
    (hlt : SIZE < 2147483648) (buf : List UInt8) : h.KeepsCursor (.append p buf) := by
  intro hacc
  have hle := hp.len_le
  rw [hp.avail_eq hlt, toSize_of_nat (by unfold sizeModulus; omega)] at hacc
  omega

/-- Below 2 GiB the copies are all that can go wrong. -/
theorem cursorInside_of_no_copy (hs : 0 < SIZE) (hlt : SIZE < 2147483648) (mem : ℕ → UInt8)
    {ops : List BufferOp} (hno : ∀ c ∈ ops, ∀ p other, c ≠ .copy p other) :
    EveryState step (fun h => ∀ p ∈ h.live, h.CursorInside p)
      (start mem : FixedBuffers SIZE) ops := by
  have hlabel : EveryStep step (fun _ c => ∀ p other, c ≠ BufferOp.copy p other)
      (start mem : FixedBuffers SIZE) ops := everyStep_of_label _ hno
  have hkeeps : EveryStep step KeepsCursor (start mem : FixedBuffers SIZE) ops := by
    apply hlabel.of_preserves (inv_start mem)
    · intro h c t hi hc ht
      cases c with
      | copy p other => exact hc p other rfl
      | append p buf =>
        obtain ⟨hp,⟨⟩⟩ := Option.ite_none_right_eq_some.mp ht
        exact (hi.inside p hp).keepsCursor_append hlt buf
      | construct p => trivial
      | destroy p => trivial
      | reset p => trivial
      | setEndChar p => trivial
      | swap p ins => trivial
    · intro h c t hi hc ht
      exact step_good hs hi hc ht
  refine (hkeeps.preserves ?_ (inv_start mem)).mono fun h hi => hi.inside
  intro h c t hi hc ht
  exact step_good hs hi hc ht

end FixedBuffers
end OctCommu.Util
