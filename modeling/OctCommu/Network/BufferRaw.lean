import OctCommu.Lib.Memory
import OctCommu.Lib.Runs

/-! # The buffer `BufferRaw`

`_data` is an array from `new`, and its length is kept in `_capacity`. What `new`
returns is an input: the contents of the array, or nothing when it throws.
-/
namespace OctCommu.Network
open Memory Runs

/-- What `_data` points to. -/
inductive RawData where
  | null
  | array (len : ℕ) (bytes : ℕ → UInt8)
  | deleted

/-- `assigned` are the bytes of an `assign` that was the last call. -/
structure BufferRaw where
  _size : ℕ
  _capacity : ℕ
  _data : RawData
  assigned : Option (List UInt8)

namespace BufferRaw

def create : BufferRaw := ⟨0,0,.null,none⟩

/-- The tests of `setCapacity` under which the array stays. -/
def Reuses (b : BufferRaw) (capacity : ℕ) : Prop :=
  b._data ≠ .null ∧ capacity ≤ b._capacity ∧
    (b._capacity < 2 * 1024 ∨ b._capacity < 2 * capacity % sizeModulus)

/-- With what `new` returns; `false` when it throws, which leaves what was deleted in `_data`. -/
def setCapacity (b : BufferRaw) (capacity : ℕ) (alloc : Option (ℕ → UInt8)) : BufferRaw × Bool :=
  match b._data with
  | .null =>
    match alloc with
    | some bytes => ({ b with _data := .array capacity bytes, _capacity := capacity },true)
    | none => (b,false)
  | _ =>
    if capacity ≤ b._capacity ∧
        (b._capacity < 2 * 1024 ∨ b._capacity < 2 * capacity % sizeModulus) then (b,true)
    else
      match alloc with
      | some bytes => ({ b with _data := .array capacity bytes, _capacity := capacity },true)
      | none => ({ b with _data := .deleted },false)

/-- `false` when it throws. -/
def setSize (b : BufferRaw) (size : ℕ) : BufferRaw × Bool :=
  if b._capacity < size then (b,false) else ({ b with _size := size },true)

/-- A write through `_data`. -/
def store (b : BufferRaw) (pos : ℕ) (bytes : List UInt8) : BufferRaw :=
  match b._data with
  | .array len mem => { b with _data := .array len (memcpy mem pos bytes) }
  | _ => b

/-- The length that `assign` takes: a length of zero asks for `strlen`. -/
def assignedLen (data : List UInt8) (size : ℕ) : ℕ :=
  if size = 0 then (data.takeWhile (· ≠ 0)).length else size

/-- `data` is what can be read there; `false` when a call in it throws. -/
def assign (b : BufferRaw) (data : List UInt8) (size : ℕ) (alloc : Option (ℕ → UInt8)) :
    BufferRaw × Bool :=
  let size := assignedLen data size
  let r := b.setCapacity (size + 1) alloc
  if r.2 then ((r.1.store 0 (data.take size)).store size [0]).setSize size else r

end BufferRaw

inductive RawCall where
  | setCapacity (capacity : ℕ) (alloc : Option (ℕ → UInt8))
  | setSize (size : ℕ)
  | assign (data : List UInt8) (size : ℕ) (alloc : Option (ℕ → UInt8))

/-- A source holds the bytes that are asked for, or ends with a zero; a byte behind them can be addressed. -/
def Readable (data : List UInt8) (size : ℕ) : Prop :=
  size ≤ data.length ∧ (size = 0 → 0 ∈ data) ∧ data.length + 1 < sizeModulus

instance (data : List UInt8) (size : ℕ) : Decidable (Readable data size) :=
  inferInstanceAs (Decidable (_ ∧ _ ∧ _))

namespace BufferRaw

/-- A call, whether it throws or not. -/
def step (b : BufferRaw) : RawCall → Option BufferRaw
  | .setCapacity capacity alloc => some { (b.setCapacity capacity alloc).1 with assigned := none }
  | .setSize size => some { (b.setSize size).1 with assigned := none }
  | .assign data size alloc =>
    if Readable data size then
      let r := b.assign data size alloc
      some { r.1 with assigned := if r.2 then some (data.take (assignedLen data size)) else none }
    else none

/-- The array has `_capacity` bytes, none when there is no array. -/
def Holds (b : BufferRaw) : Prop :=
  match b._data with
  | .null => b._capacity = 0
  | .array len _ => len = b._capacity
  | .deleted => False

/-- The assigned bytes are the value, and a zero behind them is in the array. -/
def Assigned (b : BufferRaw) : Prop :=
  ∀ bytes ∈ b.assigned, b._size = bytes.length ∧ ∃ len mem, b._data = .array len mem ∧
    bytes.length < len ∧ segment mem 0 bytes.length = bytes ∧ mem bytes.length = 0

structure Sound (b : BufferRaw) : Prop where
  size_le : b._size ≤ b._capacity
  holds : b.Holds
  assigned : b.Assigned

/-- The array stays, or the new one has room for the valid bytes; nothing is thrown away for an array
that cannot be had. -/
def Keeps (b : BufferRaw) : RawCall → Prop
  | .setCapacity capacity alloc => b.Reuses capacity ∨
      if alloc.isSome then b._size ≤ capacity else b._data = .null
  | .setSize _ => True
  | .assign data size alloc => b.Reuses (assignedLen data size + 1) ∨
      alloc.isSome ∨ b._data = .null

variable {b c : BufferRaw} {capacity : ℕ} {alloc : Option (ℕ → UInt8)}

theorem sound_create : create.Sound := ⟨Nat.le_refl 0,rfl,by simp [Assigned, create]⟩

/-- The four ways a `setCapacity` can go. -/
inductive Capacity (b : BufferRaw) (capacity : ℕ) : Option (ℕ → UInt8) → BufferRaw × Bool → Prop where
  | reuses (a : Option (ℕ → UInt8)) (h : b.Reuses capacity) : Capacity b capacity a (b,true)
  | allocates (bytes : ℕ → UInt8) (h : ¬ b.Reuses capacity) :
    Capacity b capacity (some bytes) ({ b with _data := .array capacity bytes, _capacity := capacity },true)
  | refused (h : ¬ b.Reuses capacity) (hd : b._data = .null) : Capacity b capacity none (b,false)
  | loses (h : ¬ b.Reuses capacity) (hd : b._data ≠ .null) :
    Capacity b capacity none ({ b with _data := .deleted },false)

theorem setCapacity_cases (b : BufferRaw) (capacity : ℕ) (alloc : Option (ℕ → UInt8)) :
    Capacity b capacity alloc (b.setCapacity capacity alloc) := by
  unfold setCapacity
  split
  · rename_i hd
    have hn : ¬ b.Reuses capacity := fun h => h.1 hd
    cases alloc with
    | some bytes => exact .allocates bytes hn
    | none => exact .refused hn hd
  · rename_i hd
    by_cases hr : capacity ≤ b._capacity ∧
        (b._capacity < 2 * 1024 ∨ b._capacity < 2 * capacity % sizeModulus)
    · rw [if_pos hr]
      exact .reuses alloc ⟨hd,hr⟩
    · rw [if_neg hr]
      have hn : ¬ b.Reuses capacity := fun h => hr h.2
      cases alloc with
      | some bytes => exact .allocates bytes hn
      | none => exact .loses hn hd

theorem assignedLen_le {data : List UInt8} {size : ℕ} (h : Readable data size) :
    assignedLen data size ≤ data.length := by
  unfold assignedLen
  split_ifs
  · exact (List.takeWhile_prefix _).length_le
  · exact h.1

theorem Sound.reused (h : b.Sound) (hr : b.Reuses capacity) : ∃ mem, b._data = .array b._capacity mem := by
  have hh := h.holds
  unfold Holds at hh
  split at hh
  · rename_i hd
    exact absurd hd hr.1
  · rename_i len mem hd
    exact ⟨mem,hh ▸ hd⟩
  · cases hh

/-- The end of `assign`, in an array with room for the bytes and a zero. -/
theorem sound_assigned {mem : ℕ → UInt8} (hd : b._data = .array b._capacity mem) (bytes : List UInt8)
    (hlt : bytes.length < b._capacity) : ∃ c, ((b.store 0 bytes).store bytes.length [0]).setSize
      bytes.length = (c,true) ∧ ({ c with assigned := some bytes } : BufferRaw).Sound := by
  have hstore : (b.store 0 bytes).store bytes.length [0] =
      { b with _data := .array b._capacity (memcpy (memcpy mem 0 bytes) bytes.length [0]) } := by
    simp [store, hd]
  rw [hstore, setSize, if_neg (Nat.not_lt.mpr (Nat.le_of_lt hlt))]
  refine ⟨_,rfl,⟨Nat.le_of_lt hlt,rfl,?_⟩⟩
  intro bs hbs
  cases hbs
  refine ⟨rfl,_,_,rfl,hlt,?_,?_⟩
  · rw [segment_memcpy_below _ (by omega), segment_memcpy_self]
  · simp [memcpy]

theorem setCapacity_sound_iff (h : b.Sound) :
    ({ (b.setCapacity capacity alloc).1 with assigned := none } : BufferRaw).Sound ↔
      b.Keeps (.setCapacity capacity alloc) := by
  have hnone : ∀ c : BufferRaw, c.assigned = none → c.Assigned := by
    intro c hc bytes hb
    simp [hc] at hb
  have hcases := setCapacity_cases b capacity alloc
  generalize b.setCapacity capacity alloc = r at hcases ⊢
  cases hcases with
  | reuses alloc hreuse => exact iff_of_true ⟨h.size_le,h.holds,hnone _ rfl⟩ (.inl hreuse)
  | allocates bytes hno =>
    simp only [Keeps, hno, false_or, Option.isSome_some, if_true]
    exact ⟨fun hs => hs.size_le,fun hle => ⟨hle,rfl,hnone _ rfl⟩⟩
  | refused hno hd =>
    exact iff_of_true ⟨h.size_le,h.holds,hnone _ rfl⟩ (.inr (by simpa using hd))
  | loses hno hd =>
    refine iff_of_false (fun hs => hs.holds) ?_
    simp [Keeps, hno, hd]

theorem assign_of_returned {r : BufferRaw} {data : List UInt8} {size : ℕ}
    (h : b.setCapacity (assignedLen data size + 1) alloc = (r,true)) : b.assign data size alloc =
      ((r.store 0 (data.take (assignedLen data size))).store (assignedLen data size) [0]).setSize
        (assignedLen data size) := by
  simp only [assign, h, if_true]

theorem assign_of_thrown {r : BufferRaw} {data : List UInt8} {size : ℕ}
    (h : b.setCapacity (assignedLen data size + 1) alloc = (r,false)) :
    b.assign data size alloc = (r,false) := by
  simp only [assign, h, Bool.false_eq_true, if_false]

theorem assign_sound_iff {data : List UInt8} {size : ℕ} (h : b.Sound) (hread : Readable data size) :
    ({ (b.assign data size alloc).1 with
      assigned := if (b.assign data size alloc).2 then some (data.take (assignedLen data size)) else none } :
        BufferRaw).Sound ↔ b.Keeps (.assign data size alloc) := by
  have hlen : (data.take (assignedLen data size)).length = assignedLen data size :=
    List.length_take_of_le (assignedLen_le hread)
  have hcases := setCapacity_cases b (assignedLen data size + 1) alloc
  generalize hr : b.setCapacity (assignedLen data size + 1) alloc = r at hcases
  cases hcases with
  | reuses alloc hreuse =>
    obtain ⟨mem,hd⟩ := h.reused hreuse
    obtain ⟨c,hc,hs⟩ := sound_assigned hd (data.take (assignedLen data size))
      (by rw [hlen]; exact hreuse.2.1)
    rw [hlen] at hc
    rw [assign_of_returned hr, hc]
    exact iff_of_true hs (.inl hreuse)
  | allocates mem hno =>
    have hnew : ({ b with
        _data := .array (assignedLen data size + 1) mem
        _capacity := assignedLen data size + 1 } : BufferRaw)._data =
      .array (assignedLen data size + 1) mem := rfl
    obtain ⟨c,hc,hs⟩ := sound_assigned hnew (data.take (assignedLen data size))
      (by rw [hlen]; exact Nat.lt_succ_self _)
    rw [hlen] at hc
    rw [assign_of_returned hr, hc]
    exact iff_of_true hs (.inr (.inl rfl))
  | refused hno hd =>
    rw [assign_of_thrown hr]
    refine iff_of_true ⟨h.size_le,h.holds,?_⟩ (.inr (.inr hd))
    intro bs hb
    simp at hb
  | loses hno hd =>
    rw [assign_of_thrown hr]
    refine iff_of_false (fun hs => hs.holds) ?_
    simp [Keeps, hno, hd]

theorem step_sound_iff {a : RawCall} (h : b.Sound) (hc : step b a = some c) :
    c.Sound ↔ b.Keeps a := by
  cases a with
  | setCapacity capacity alloc =>
    cases hc
    exact setCapacity_sound_iff h
  | setSize size =>
    cases hc
    refine iff_of_true ?_ trivial
    unfold setSize
    split_ifs with hlt
    · exact ⟨h.size_le,h.holds,by simp [Assigned]⟩
    · exact ⟨Nat.le_of_not_lt hlt,h.holds,by simp [Assigned]⟩
  | assign data size alloc =>
    rw [step, Option.ite_none_right_eq_some] at hc
    obtain ⟨hread,hc⟩ := hc
    cases hc
    exact assign_sound_iff h hread

/-- The buffer holds what it claims in the runs that shrink it to no less than its valid bytes and lose
no array, and in no other. -/
theorem sound_iff_keeps (calls : List RawCall) :
    EveryStep step Keeps create calls ↔ EveryState step Sound create calls :=
  everyStep_iff_everyState sound_create (fun _ h => h)
    (fun _ _ _ h hc ht => (step_sound_iff h ht).mpr hc) (fun _ _ _ h ht hp => (step_sound_iff h ht).mp hp)

/-- A large buffer is asked for a capacity of one byte. -/
theorem shrunk_not_sound : ¬ EveryState step Sound create
    [.setCapacity 4096 (some fun _ => 0),.setSize 4096,.setCapacity 1 (some fun _ => 0)] := by
  intro h
  have hsize := (((h.2 _ rfl).2 _ rfl).2 _ rfl).size_le
  exact absurd hsize (by decide)

end BufferRaw
end OctCommu.Network
