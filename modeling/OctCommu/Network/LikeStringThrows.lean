import OctCommu.Lib.Runs
import OctCommu.Network.BufferLikeString

/-! # Exceptions of `BufferLikeString`

A call checks its arguments before it changes anything, but for `assign` of a range
of the storage itself, which has set the first offset when it looks at the end.
-/
namespace OctCommu.Network.BufferLikeString
open Memory Runs StdString

/-- A call, whether it throws or not. -/
def attempt (b : BufferLikeString) (a : StrCall) : Option BufferLikeString :=
  if b.Starts a then some (b.call a).1 else none

/-- `erase`, `assign`, `operator[]` and `substr`. -/
def Checked : StrCall → Prop
  | .erase .. | .assign .. | .index _ | .substr .. => True
  | _ => False

/-- The bytes `data()[0..size())` are as they were. -/
def Unchanged (b c : BufferLikeString) : Prop := c.size = b.size ∧ c.value = b.value

/-- A range of the storage that is assigned starts where the value does. -/
def KeepsHead (b : BufferLikeString) : StrCall → Prop
  | .assign (.own off _) _ => off.toNat = b._erase_head
  | _ => True

/-- The offset is a `size_t`, and the storage a string. -/
structure Bounded (b : BufferLikeString) : Prop where
  head : b._erase_head < sizeModulus
  str : b._str.length ≤ max_size

variable {b c : BufferLikeString} {a : StrCall}

theorem zero_lt_sizeModulus : 0 < sizeModulus := by decide

theorem bounded_create {str : List UInt8} (h : str.length ≤ max_size) : (create str).Bounded :=
  ⟨zero_lt_sizeModulus,h⟩

/-- Other offsets. -/
theorem Bounded.moved (h : b.Bounded) {head : ℕ} (hlt : head < sizeModulus) (tail : ℕ) :
    ({ b with _erase_head := head, _erase_tail := tail } : BufferLikeString).Bounded := ⟨hlt,h.str⟩

theorem Bounded.put (h : b.Bounded) (i : ℕ) (ch : UInt8) : (b.put i ch).Bounded :=
  ⟨h.head,by rw [BufferLikeString.put, List.length_set]; exact h.str⟩

theorem Bounded.fits (h : b.Bounded) (room : Bool) (s : Option (List UInt8)) :
    (b.store (s.bind (StdString.fits room))).1.Bounded := by
  cases hs : s.bind (StdString.fits room) with
  | none => exact h
  | some t =>
    obtain ⟨u,_,hu⟩ := Option.bind_eq_some_iff.mp hs
    obtain ⟨rfl,hle⟩ := fits_eq_some hu
    exact ⟨h.head,hle⟩

/-- A content that takes the place of everything. -/
theorem Bounded.replace (h : b.Bounded) (room : Bool) (s : List UInt8) :
    (if (b.store (StdString.fits room s)).2 then
      ({ (b.store (StdString.fits room s)).1 with _erase_head := 0, _erase_tail := 0 },true)
      else b.store (StdString.fits room s)).1.Bounded := by
  have hstore := h.fits room (some s)
  rw [Option.bind_some] at hstore
  split_ifs
  · exact hstore.moved zero_lt_sizeModulus 0
  · exact hstore

theorem Bounded.moveData (h : b.Bounded) : b.moveData.Bounded := by
  unfold BufferLikeString.moveData
  split_ifs
  · refine ⟨zero_lt_sizeModulus,?_⟩
    have hle := h.str
    simp only [List.length_drop]
    omega
  · exact h

theorem Bounded.append (h : b.Bounded) (data : List UInt8) (capacity : ℕ) (room : Bool) :
    (b.append data capacity room).1.Bounded := by
  unfold BufferLikeString.append
  have hm : (if capacity / 2 < b._erase_head then b.moveData else b).Bounded := by
    split_ifs
    · exact h.moveData
    · exact h
  generalize (if capacity / 2 < b._erase_head then b.moveData else b) = m at hm
  simp only
  split_ifs
  · exact h
  · exact hm.fits room (some _)
  · exact hm.fits room _

theorem Bounded.push_back (h : b.Bounded) (ch : UInt8) (room : Bool) : (b.push_back ch room).1.Bounded := by
  unfold BufferLikeString.push_back
  split_ifs
  · exact h.fits room (some _)
  · exact ((h.put b.size ch).moved h.head _).put _ _

theorem Bounded.erase (h : b.Bounded) (pos n : ℕ) : (b.erase pos n).1.Bounded := by
  have hmod : ∀ k, k % sizeModulus < sizeModulus := fun k => Nat.mod_lt k (by decide)
  unfold BufferLikeString.erase
  split_ifs
  · exact h
  · exact (h.moved (hmod _) _).put _ _
  · exact (h.moved zero_lt_sizeModulus _).put _ _
  · exact h
  · exact (h.moved h.head _).put _ _
  · exact h
  · cases hs : StdString.erase b._str ((b._erase_head + pos) % sizeModulus) n with
    | none => exact h
    | some s =>
      have hle := h.str
      rw [StdString.erase, Option.ite_none_left_eq_some] at hs
      cases hs.2
      refine ⟨h.head,?_⟩
      simp only [List.length_append, List.length_take, List.length_drop]
      omega

theorem Bounded.assign (h : b.Bounded) (src : Source) (room : Bool) : (b.assign src room).1.Bounded := by
  unfold BufferLikeString.assign
  by_cases hnil : src.len = 0
  · rw [if_pos hnil]
    exact h
  rw [if_neg hnil]
  cases src with
  | bytes data => exact h.replace room data
  | own off len =>
    have hoff : off.toNat < sizeModulus := off.toNat_lt
    simp only
    split_ifs
    · exact ⟨hoff,h.str⟩
    · exact ⟨hoff,h.str⟩

theorem Bounded.resize (h : b.Bounded) (size : ℕ) (ch : UInt8) (room : Bool) :
    (b.resize size ch room).1.Bounded := by
  unfold BufferLikeString.resize
  by_cases hlong : max_size < size
  · simp only [if_pos hlong, Bool.false_eq_true, if_false]
    exact h
  · simp only [if_neg hlong]
    exact h.replace room _

theorem Bounded.call (h : b.Bounded) (a : StrCall) : (b.call a).1.Bounded := by
  cases a with
  | append data capacity room => exact h.append data capacity room
  | push_back ch room => exact h.push_back ch room
  | insert pos s room => exact h.fits room _
  | erase pos n => exact h.erase _ _
  | assign src room => exact h.assign src room
  | clear => exact ⟨zero_lt_sizeModulus,Nat.zero_le _⟩
  | resize size ch room => exact h.resize _ ch room
  | substr pos n room => exact h
  | index pos => exact h

theorem attempt_eq (h : b.attempt a = some c) : c = (b.call a).1 := by
  rw [attempt, Option.ite_none_right_eq_some] at h
  exact (Option.some.inj h.2).symm

theorem starts_of_attempt (h : (b.attempt a).isSome) : b.Starts a := by
  rw [attempt, Option.isSome_ite] at h
  exact h

theorem unchanged_refl (b : BufferLikeString) : Unchanged b b := ⟨rfl,rfl⟩

theorem returned_eq_none {x : BufferLikeString × Bool} (h : (returned x).2 = none) : x.2 = false := by
  obtain ⟨d,ok⟩ := x
  cases ok with
  | true => cases h
  | false => rfl

/-- An `erase` that throws has changed nothing. -/
theorem erase_throws {pos n : ℕ} (h : (b.erase pos n).2 = false) : (b.erase pos n).1 = b := by
  unfold BufferLikeString.erase at h ⊢
  split_ifs at h ⊢
  · rfl
  · rfl
  · rfl
  · cases hs : StdString.erase b._str ((b._erase_head + pos) % sizeModulus) n with
    | none => rfl
    | some s => simp [hs] at h

/-- Another first offset is another size. -/
theorem Bounded.unchanged_head_iff (h : b.Bounded) {off : ℕ} (hoff : off < b._str.length) :
    Unchanged b { b with _erase_head := off } ↔ off = b._erase_head := by
  have hh := h.head
  have hs := h.str
  constructor
  · rintro ⟨hsize,_⟩
    rw [size, size, toSize, toSize] at hsize
    simp only [sizeModulus, max_size] at hsize hh hs
    omega
  · rintro rfl
    exact unchanged_refl b

theorem Bounded.assign_throws_iff (h : b.Bounded) {src : Source} {room : Bool}
    (hs : (b.attempt (.assign src room)).isSome) (ht : (b.assign src room).2 = false) :
    Unchanged b (b.assign src room).1 ↔ b.KeepsHead (.assign src room) := by
  unfold BufferLikeString.assign at ht ⊢
  by_cases hnil : src.len = 0
  · rw [if_pos hnil] at ht
    cases ht
  rw [if_neg hnil] at ht ⊢
  cases src with
  | bytes data =>
    refine iff_of_true ?_ trivial
    cases hf : StdString.fits room data with
    | none =>
      simp only [BufferLikeString.store, hf, Bool.false_eq_true, if_false]
      exact unchanged_refl b
    | some s => simp [BufferLikeString.store, hf] at ht
  | own off len =>
    have hoff : off.toNat < b._str.length := starts_of_attempt hs
    simp only at ht ⊢
    split_ifs at ht ⊢
    exact h.unchanged_head_iff hoff

/-- In every state that calls lead to, a call that throws leaves the bytes as they were, but for a range
of the storage that starts elsewhere than the value. -/
theorem throws_unchanged_iff (str : List UInt8) (hstr : str.length ≤ max_size) (calls : List StrCall)
    (hb : exec attempt (create str) calls = some b) (ha : Checked a) (hs : (b.attempt a).isSome)
    (ht : (b.call a).2 = none) : Unchanged b (b.call a).1 ↔ b.KeepsHead a := by
  have hkeep : ∀ b a c, Bounded b → attempt b a = some c → Bounded c := by
    intro b a c h hc
    rw [attempt_eq hc]
    exact h.call a
  have h := exec_preserves hkeep hb (bounded_create hstr)
  cases a with
  | erase pos n =>
    have hthrow := erase_throws (returned_eq_none ht)
    refine iff_of_true ?_ trivial
    change Unchanged b (b.erase pos.toNat n.toNat).1
    rw [hthrow]
    exact unchanged_refl b
  | assign src room => exact h.assign_throws_iff hs (returned_eq_none ht)
  | substr pos n room => exact iff_of_true (unchanged_refl b) trivial
  | index pos => exact iff_of_true (unchanged_refl b) trivial
  | append | push_back | insert | clear | resize => cases ha

theorem throws_unchanged_iff_abc :
    Unchanged ⟨1,0,[97,98,99]⟩ ((⟨1,0,[97,98,99]⟩ : BufferLikeString).call (.assign (.own 1 3) true)).1 ↔
      (⟨1,0,[97,98,99]⟩ : BufferLikeString).KeepsHead (.assign (.own 1 3) true) :=
  throws_unchanged_iff [97,98,99] (by decide) [.erase 0 1] rfl trivial rfl (by decide)

/-- Three bytes from the second byte of `abc` on are refused, and its first byte is gone. -/
theorem assign_throws_changed : ((create [97,98,99]).call (.assign (.own 1 3) true)).2 = none ∧
    ¬ Unchanged (create [97,98,99]) ((create [97,98,99]).call (.assign (.own 1 3) true)).1 := by
  refine ⟨by decide,?_⟩
  rintro ⟨hsize,_⟩
  exact absurd hsize (by decide)

end OctCommu.Network.BufferLikeString
