import OctCommu.SerialPort.SPBufferHistories

/-! # The capacity of `SPBuffer`

Each call performs a list of accesses to the arrays of the buffers. In every state of
a history the cursors are in order, the accesses of the next call stay inside their
arrays, and whether `append` accepts a block depends on the number of unread bytes alone.
-/
namespace OctCommu.SerialPort
open Memory Runs

/-- A read or a write of `len` bytes from `pos` on in one `data_`. -/
structure SPAccess where
  pos : ℕ
  len : ℕ
  deriving DecidableEq

def SPAccess.Inside (SIZE : ℕ) (a : SPAccess) : Prop := a.pos + a.len ≤ SIZE

/-- The byte at `k` belongs to the access. -/
def SPAccess.Covers (a : SPAccess) (k : ℕ) : Prop := a.pos ≤ k ∧ k < a.pos + a.len

namespace SPBuffer
variable {SIZE : ℕ}

/-- The two sides of the `memmove` that `append` compacts with. -/
def compactAccesses (b : SPBuffer SIZE) : List SPAccess := [⟨b.begin_,b.validLen⟩,⟨0,b.validLen⟩]

/-- What `append(pdata, len)` does to `data_`: the `memmove`, the `memcpy`, both or neither. -/
def appendAccesses (b : SPBuffer SIZE) (len : ℕ) : List SPAccess :=
  if SIZE < len then []
  else if b.avail < len then
    if b.begin_ ≠ 0 then
      if b.compact.avail < len then b.compactAccesses
      else b.compactAccesses ++ [⟨b.compact.begin_,len⟩]
    else []
  else [⟨b.begin_,len⟩]

/-- The `memset` of `reset`. -/
def resetAccesses (SIZE : ℕ) : List SPAccess := [⟨0,SIZE⟩]

/-- What `data(ins)` does to the other buffer. -/
def dataAccesses (b ins : SPBuffer SIZE) : List SPAccess :=
  resetAccesses SIZE ++ ins.reset.appendAccesses b.validLen

/-- What `data(ins)` reads of its own: the source of the `memcpy` in `ins.append`. -/
def dataReads (b ins : SPBuffer SIZE) : List SPAccess :=
  if (ins.reset.append b.readable).1 = 0 then [⟨b.begin_,b.validLen⟩] else []

variable {b ins : SPBuffer SIZE}

theorem Ordered.compactAccesses (hb : b.Ordered) : ∀ a ∈ b.compactAccesses, a.Inside SIZE := by
  obtain ⟨hbe,hes⟩ := hb
  intro a ha
  rcases List.mem_pair.mp ha with rfl | rfl
  · simp only [SPAccess.Inside, validLen]
    omega
  · simp only [SPAccess.Inside, validLen]
    omega

theorem Ordered.appendAccesses (hb : b.Ordered) (len : ℕ) :
    ∀ a ∈ b.appendAccesses len, a.Inside SIZE := by
  have hes := hb.end_le
  have hbe := hb.begin_le
  unfold SPBuffer.appendAccesses
  by_cases h1 : SIZE < len
  · rw [if_pos h1]
    exact nofun
  rw [if_neg h1]
  by_cases h2 : b.avail < len
  · rw [if_pos h2]
    by_cases h3 : b.begin_ ≠ 0
    · rw [if_pos h3]
      by_cases h4 : b.compact.avail < len
      · rw [if_pos h4]
        exact hb.compactAccesses
      · rw [if_neg h4]
        intro a ha
        rcases List.mem_append.mp ha with ha | ha
        · exact hb.compactAccesses a ha
        · obtain rfl := List.mem_singleton.mp ha
          simp only [SPAccess.Inside, SPBuffer.compact]
          omega
    · rw [if_neg h3]
      exact nofun
  · rw [if_neg h2]
    intro a ha
    obtain rfl := List.mem_singleton.mp ha
    unfold avail at h2
    simp only [SPAccess.Inside]
    omega

theorem resetAccesses_inside : ∀ a ∈ resetAccesses SIZE, a.Inside SIZE := by
  intro a ha
  obtain rfl := List.mem_singleton.mp ha
  exact Nat.le_of_eq (Nat.zero_add _)

theorem Ordered.dataReads (hb : b.Ordered) : ∀ a ∈ b.dataReads ins, a.Inside SIZE := by
  obtain ⟨hbe,hes⟩ := hb
  unfold SPBuffer.dataReads
  split
  · intro a ha
    obtain rfl := List.mem_singleton.mp ha
    simp only [SPAccess.Inside, validLen]
    omega
  · simp

theorem dataAccesses_inside : ∀ a ∈ b.dataAccesses ins, a.Inside SIZE := by
  intro a ha
  rcases List.mem_append.mp ha with ha | ha
  · exact resetAccesses_inside a ha
  · exact (ordered_reset ins).appendAccesses _ a ha

/-- `append` changes nothing that it does not list as accessed. -/
theorem append_data_of_not_covers (pdata : List UInt8) {k : ℕ}
    (hk : ∀ a ∈ b.appendAccesses pdata.length, ¬ a.Covers k) :
    (b.append pdata).2.data_ k = b.data_ k := by
  have hcompact : (∀ a ∈ b.compactAccesses, ¬ a.Covers k) → b.compact.data_ k = b.data_ k := by
    intro h
    have h0 := h ⟨0,b.validLen⟩ (by simp [compactAccesses])
    simp only [SPAccess.Covers] at h0
    have hlen : 0 + (segment b.data_ b.begin_ b.validLen).length ≤ k := by
      rw [segment_length]
      omega
    exact memcpy_above hlen
  have hstore : ∀ c : SPBuffer SIZE, ¬ SPAccess.Covers ⟨c.begin_,pdata.length⟩ k →
      (c.store pdata).data_ k = c.data_ k := by
    intro c hc
    simp only [SPAccess.Covers] at hc
    rcases Nat.lt_or_ge k c.begin_ with hlt | hge
    · exact memcpy_below pdata hlt
    · exact memcpy_above (by omega)
  unfold appendAccesses at hk
  unfold append
  by_cases h1 : SIZE < pdata.length
  · rw [if_pos h1]
  rw [if_neg h1] at hk ⊢
  by_cases h2 : b.avail < pdata.length
  · rw [if_pos h2] at hk ⊢
    by_cases h3 : b.begin_ ≠ 0
    · rw [if_pos h3] at hk ⊢
      by_cases h4 : b.compact.avail < pdata.length
      · rw [if_pos h4] at hk ⊢
        exact hcompact hk
      · rw [if_neg h4] at hk ⊢
        have hs := hstore b.compact (hk _ (List.mem_append_right _ (List.mem_singleton_self _)))
        exact hs.trans (hcompact fun a ha => hk a (List.mem_append_left _ ha))
    · rw [if_neg h3]
  · rw [if_neg h2] at hk ⊢
    exact hstore b (hk _ (List.mem_singleton_self _))

theorem reset_data_of_not_covers {k : ℕ} (hk : ∀ a ∈ resetAccesses SIZE, ¬ a.Covers k) :
    b.reset.data_ k = b.data_ k := by
  have h := hk ⟨0,SIZE⟩ (List.mem_singleton_self _)
  simp only [SPAccess.Covers] at h
  simp only [reset, memset]
  rw [if_neg (by omega)]

theorem data_data_of_not_covers {k : ℕ} (hk : ∀ a ∈ b.dataAccesses ins, ¬ a.Covers k) :
    (b.data ins).2.data_ k = ins.data_ k := by
  have happend : ∀ a ∈ ins.reset.appendAccesses b.readable.length, ¬ a.Covers k := by
    rw [readable_length]
    exact fun a ha => hk a (List.mem_append_right _ ha)
  calc (b.data ins).2.data_ k = ins.reset.data_ k := append_data_of_not_covers b.readable happend
    _ = ins.data_ k := reset_data_of_not_covers fun a ha => hk a (List.mem_append_left _ ha)

theorem validLen_append_refused (hb : b.Ordered) {pdata : List UInt8}
    (h : (b.append pdata).1 ≠ 0) :
    (b.append pdata).2.readable = b.readable ∧ (b.append pdata).2.validLen = b.validLen := by
  have hfull : SIZE < b.validLen + pdata.length :=
    Nat.lt_of_not_le (mt (append_code hb pdata).mpr h)
  have hread := readable_append_refused hb hfull
  refine ⟨hread,?_⟩
  rw [← readable_length, hread, readable_length]

end SPBuffer

variable {I : Type*} [DecidableEq I] {SIZE : ℕ}

/-- The accesses of a call, each with the buffer whose array it is about. -/
def callAccesses (objs : I → SPBuffer SIZE) : BufferCall I → List (I × SPAccess)
  | .append i pdata => ((objs i).appendAccesses pdata.length).map (i,·)
  | .addBegin _ _ => []
  | .data i ins =>
    if i = ins then []
    else ((objs i).dataAccesses (objs ins)).map (ins,·) ++ ((objs i).dataReads (objs ins)).map (i,·)
  | .reset i => (SPBuffer.resetAccesses SIZE).map (i,·)

structure History.Capacity (h : History I SIZE) : Prop where
  ordered : ∀ i, (h.objs i).begin_ ≤ (h.objs i).end_ ∧ (h.objs i).end_ ≤ SIZE
  inside : ∀ c, ∀ a ∈ callAccesses h.objs c, a.2.Inside SIZE
  /-- The listed accesses are all there is to a call. -/
  frame : ∀ c i k, (∀ a, (i,a) ∈ callAccesses h.objs c → ¬ a.Covers k) →
    ((callBuffer h.objs c).2 i).data_ k = (h.objs i).data_ k
  accepts : ∀ i pdata, ((h.objs i).append pdata).1 = 0 ↔ (h.objs i).validLen + pdata.length ≤ SIZE
  refuses : ∀ i pdata, ((h.objs i).append pdata).1 ≠ 0 →
    ((h.objs i).append pdata).2.readable = (h.objs i).readable ∧
      ((h.objs i).append pdata).2.validLen = (h.objs i).validLen

theorem callAccesses_inside {objs : I → SPBuffer SIZE} (h : ∀ i, (objs i).Ordered)
    (c : BufferCall I) : ∀ a ∈ callAccesses objs c, a.2.Inside SIZE := by
  have hmap : ∀ (i : I) {as : List SPAccess}, (∀ a ∈ as, a.Inside SIZE) →
      ∀ a ∈ as.map (i,·), a.2.Inside SIZE := by
    intro i as has a ha
    obtain ⟨b,hb,rfl⟩ := List.mem_map.mp ha
    exact has b hb
  cases c with
  | append i pdata => exact hmap i ((h i).appendAccesses _)
  | addBegin i offset => exact nofun
  | data i ins =>
    by_cases he : i = ins
    · simp [callAccesses, he]
    · simp only [callAccesses, if_neg he]
      intro a ha
      rcases List.mem_append.mp ha with ha | ha
      · exact hmap ins SPBuffer.dataAccesses_inside a ha
      · exact hmap i (h i).dataReads a ha
  | reset i => exact hmap i SPBuffer.resetAccesses_inside

theorem update_data {objs : I → SPBuffer SIZE} {i j : I} {b : SPBuffer SIZE} {k : ℕ}
    (h : j = i → b.data_ k = (objs i).data_ k) :
    (Function.update objs i b j).data_ k = (objs j).data_ k := by
  by_cases hj : j = i
  · subst hj
    simpa using h rfl
  · simp [hj]

/-- A byte that no access of a call covers is what it was. -/
theorem callBuffer_frame (objs : I → SPBuffer SIZE) (c : BufferCall I) (j : I) (k : ℕ)
    (hk : ∀ a, (j,a) ∈ callAccesses objs c → ¬ a.Covers k) :
    ((callBuffer objs c).2 j).data_ k = (objs j).data_ k := by
  cases c with
  | append i pdata =>
    apply update_data
    rintro rfl
    exact SPBuffer.append_data_of_not_covers pdata fun a ha => hk a (List.mem_map_of_mem ha)
  | addBegin i offset =>
    apply update_data
    rintro rfl
    simp only [SPBuffer.addBegin]
    split <;> rfl
  | data i ins =>
    by_cases he : i = ins
    · simp only [callBuffer, if_pos he]
    · simp only [callAccesses, if_neg he] at hk
      simp only [callBuffer, if_neg he]
      by_cases hi : j = i
      · subst hi
        simp [SPBuffer.data]
      · rw [Function.update_of_ne hi]
        apply update_data
        rintro rfl
        exact SPBuffer.data_data_of_not_covers fun a ha =>
          hk a (List.mem_append_left _ (List.mem_map_of_mem ha))
  | reset i =>
    apply update_data
    rintro rfl
    exact SPBuffer.reset_data_of_not_covers fun a ha => hk a (List.mem_map_of_mem ha)

theorem History.Ordered.capacity {h : History I SIZE} (ho : h.Ordered) : h.Capacity where
  ordered i := ⟨(ho i).begin_le,(ho i).end_le⟩
  inside := callAccesses_inside ho
  frame := callBuffer_frame h.objs
  accepts i pdata := SPBuffer.append_code (ho i) pdata
  refuses i _ hr := SPBuffer.validLen_append_refused (ho i) hr

theorem step_ordered {h h' : History I SIZE} {c : BufferCall I} (ho : h.Ordered)
    (hs : h.step c = some h') : h'.Ordered := by
  cases hs
  exact callBuffer_ordered ho c

/-- Every history keeps to the capacity, whatever its lengths and offsets are. -/
theorem history_capacity (calls : List (BufferCall I)) :
    EveryState History.step History.Capacity (History.start : History I SIZE) calls := by
  have hall : EveryState History.step History.Ordered (History.start : History I SIZE) calls :=
    (everyStep_of_forall (C := fun _ _ => True) (fun _ _ => trivial) _ _).preserves
      (fun _ _ _ ho _ hs => step_ordered ho hs) start_refines.1
  exact hall.mono fun _ ho => ho.capacity

/-- A full buffer refuses one byte more, and takes it after one was read. -/
example : ((SPBuffer.fresh.append [1,2] : ℕ × SPBuffer 2).2.append [3]).1 = 3 ∧
    (((SPBuffer.fresh.append [1,2] : ℕ × SPBuffer 2).2.addBegin 1).2.append [3]).1 = 0 := by
  decide

end OctCommu.SerialPort
