import OctCommu.Lib.Memory
import OctCommu.Lib.StdString

/-! # The buffer `BufferLikeString`

The value is `_str` without an erased head and an erased tail. `size_t` arithmetic
wraps, and a pointer of `data()` is the index in `_str` it points at.
-/
namespace OctCommu.Network
open Memory StdString

structure BufferLikeString where
  _erase_head : ℕ
  _erase_tail : ℕ
  _str : List UInt8
  deriving DecidableEq

/-- Where the bytes of an argument lie: elsewhere, or in `_str` from an index below its size on. -/
inductive Source where
  | bytes (data : List UInt8)
  | own (off len : UInt64)

def Source.len : Source → ℕ
  | .bytes data => data.length
  | .own _ len => len.toNat

namespace BufferLikeString

def create (str : List UInt8) : BufferLikeString := ⟨0,0,str⟩

def size (b : BufferLikeString) : ℕ := toSize ((b._str.length : ℤ) - b._erase_tail - b._erase_head)

/-- The bytes `data()[0..size())`. -/
def value (b : BufferLikeString) : List UInt8 := (b._str.drop b._erase_head).take b.size

/-- `data()[i] = c`; right behind `_str` stands its terminator, which is not in the list. -/
def put (b : BufferLikeString) (i : ℕ) (c : UInt8) : BufferLikeString :=
  { b with _str := b._str.set ((b._erase_head + i) % sizeModulus) c }

/-- The functions return `false` when they throw. -/
def erase (b : BufferLikeString) (pos n : ℕ) : BufferLikeString × Bool :=
  if pos = 0 then
    if n ≠ npos then
      if b.size < n then (b,false)
      else
        let b := { b with _erase_head := (b._erase_head + n) % sizeModulus }
        (b.put b.size 0,true)
    else ({ b with _erase_head := 0, _erase_tail := b._str.length }.put 0 0,true)
  else if n = npos ∨ b.size ≤ (pos + n) % sizeModulus then
    if b.size ≤ pos then (b,false)
    else
      let b := { b with _erase_tail := (b._erase_tail + (b.size - pos)) % sizeModulus }
      (b.put b.size 0,true)
  else if b.size < (pos + n) % sizeModulus then (b,false)
  else
    match StdString.erase b._str ((b._erase_head + pos) % sizeModulus) n with
    | some s => ({ b with _str := s },true)
    | none => (b,false)

def moveData (b : BufferLikeString) : BufferLikeString :=
  if b._erase_head ≠ 0 then { b with _str := b._str.drop b._erase_head, _erase_head := 0 } else b

/-- `_str` with a new content, where it fits. -/
def store (b : BufferLikeString) (s : Option (List UInt8)) : BufferLikeString × Bool :=
  match s with
  | some s => ({ b with _str := s },true)
  | none => (b,false)

/-- `capacity` is that of `_str`, and `room` whether there is memory for a longer string. -/
def append (b : BufferLikeString) (data : List UInt8) (capacity : ℕ) (room : Bool) :
    BufferLikeString × Bool :=
  if data.length = 0 then (b,true)
  else
    let b := if capacity / 2 < b._erase_head then b.moveData else b
    if b._erase_tail = 0 then b.store (fits room (b._str ++ data))
    else
      b.store ((StdString.insert b._str ((b._erase_head + b.size) % sizeModulus) data).bind (fits room))

def push_back (b : BufferLikeString) (c : UInt8) (room : Bool) : BufferLikeString × Bool :=
  if b._erase_tail = 0 then b.store (fits room (b._str ++ [c]))
  else
    let b := b.put b.size c
    let b := { b with _erase_tail := b._erase_tail - 1 }
    (b.put b.size 0,true)

def insert (b : BufferLikeString) (pos : ℕ) (s : List UInt8) (room : Bool) : BufferLikeString × Bool :=
  b.store ((StdString.insert b._str ((b._erase_head + pos) % sizeModulus) s).bind (fits room))

/-- A range of `_str` only moves the offsets; the first one is set before the end is looked at. -/
def assign (b : BufferLikeString) (src : Source) (room : Bool) : BufferLikeString × Bool :=
  if src.len = 0 then (b,true)
  else
    match src with
    | .own off len =>
      let b := { b with _erase_head := off.toNat }
      if b._str.length < off.toNat + len.toNat then (b,false)
      else ({ b with _erase_tail := b._str.length - (off.toNat + len.toNat) },true)
    | .bytes data =>
      let r := b.store (fits room data)
      if r.2 then ({ r.1 with _erase_head := 0, _erase_tail := 0 },true) else r

def clear (_b : BufferLikeString) : BufferLikeString := ⟨0,0,[]⟩

def resize (b : BufferLikeString) (size : ℕ) (c : UInt8) (room : Bool) : BufferLikeString × Bool :=
  let r := if max_size < size then (b,false) else b.store (fits room (StdString.resize b._str size c))
  if r.2 then ({ r.1 with _erase_head := 0, _erase_tail := 0 },true) else r

def substr (b : BufferLikeString) (pos n : ℕ) : Option (List UInt8) :=
  if n = npos then
    if b.size ≤ pos then none
    else StdString.substr b._str ((b._erase_head + pos) % sizeModulus) (b.size - pos)
  else if b.size < (pos + n) % sizeModulus then none
  else StdString.substr b._str ((b._erase_head + pos) % sizeModulus) n

/-- `operator[]`, as the byte it refers to. -/
def index (b : BufferLikeString) (pos : ℕ) : Option (List UInt8) :=
  if b.size ≤ pos then none else some ((b._str.drop ((b._erase_head + pos) % sizeModulus)).take 1)

end BufferLikeString

inductive StrCall where
  | append (data : List UInt8) (capacity : ℕ) (room : Bool)
  | push_back (c : UInt8) (room : Bool)
  | insert (pos : UInt64) (s : List UInt8) (room : Bool)
  | erase (pos n : UInt64)
  | assign (src : Source) (room : Bool)
  | clear
  | resize (size : UInt64) (c : UInt8) (room : Bool)
  | substr (pos n : UInt64) (room : Bool)
  | index (pos : UInt64)

namespace BufferLikeString

/-- The result of a function that returns no string. -/
def returned (r : BufferLikeString × Bool) : BufferLikeString × Option (List UInt8) :=
  (r.1,if r.2 then some [] else none)

/-- What a call leaves and returns; it is `none` when it throws. -/
def call (b : BufferLikeString) : StrCall → BufferLikeString × Option (List UInt8)
  | .append data capacity room => returned (b.append data capacity room)
  | .push_back c room => returned (b.push_back c room)
  | .insert pos s room => returned (b.insert pos.toNat s room)
  | .erase pos n => returned (b.erase pos.toNat n.toNat)
  | .assign src room => returned (b.assign src room)
  | .clear => (b.clear,some [])
  | .resize size c room => returned (b.resize size.toNat c room)
  | .substr pos n room => (b,(b.substr pos.toNat n.toNat).bind (fits room))
  | .index pos => (b,b.index pos.toNat)

/-- A range of `_str` starts in it. -/
def Starts (b : BufferLikeString) : StrCall → Prop
  | .assign (.own off _) _ => off.toNat < b._str.length
  | _ => True

instance (b : BufferLikeString) : DecidablePred b.Starts
  | .assign (.own ..) _ => inferInstanceAs (Decidable (_ < _))
  | .assign (.bytes _) _ | .append .. | .push_back .. | .insert .. | .erase .. | .clear | .resize ..
  | .substr .. | .index _ => isTrue trivial

/-! ### The parts of the storage -/

/-- The storage is the erased head, the value and the erased tail. -/
structure Parts (b : BufferLikeString) (H V T : List UInt8) : Prop where
  str : b._str = H ++ V ++ T
  head : b._erase_head = H.length
  tail : b._erase_tail = T.length
  fits : b._str.length ≤ max_size

variable {b c : BufferLikeString} {H V T : List UInt8}

theorem Parts.length_lt (h : b.Parts H V T) : H.length + V.length + T.length < sizeModulus := by
  have hfits := h.fits
  rw [h.str, List.length_append, List.length_append, max_size] at hfits
  rw [sizeModulus]
  omega

theorem Parts.size_eq (h : b.Parts H V T) : b.size = V.length := by
  have hlt := h.length_lt
  have hz : (b._str.length : ℤ) - b._erase_tail - b._erase_head = (V.length : ℕ) := by
    rw [h.str, h.head, h.tail]
    simp only [List.length_append]
    omega
  rw [size, hz, toSize_of_nat (by omega)]

theorem Parts.value_eq (h : b.Parts H V T) : b.value = V := by
  rw [value, h.size_eq, h.str, h.head, List.append_assoc, List.drop_left, List.take_left]

/-- The offsets stay inside the storage. -/
theorem Parts.offsets_le (h : b.Parts H V T) : b._erase_head + b._erase_tail ≤ b._str.length := by
  rw [h.str, h.head, h.tail]
  simp only [List.length_append]
  omega

theorem parts_of_offsets (h : b._erase_head + b._erase_tail ≤ b._str.length)
    (hfits : b._str.length ≤ max_size) : ∃ H V T, b.Parts H V T := by
  refine ⟨b._str.take b._erase_head,
    (b._str.drop b._erase_head).take (b._str.length - b._erase_tail - b._erase_head),
    b._str.drop (b._str.length - b._erase_tail),⟨?_,?_,?_,hfits⟩⟩
  · have hsum : b._erase_head + (b._str.length - b._erase_tail - b._erase_head) =
        b._str.length - b._erase_tail := by omega
    rw [← List.take_add, hsum, List.take_append_drop]
  · rw [List.length_take]
    omega
  · rw [List.length_drop]
    omega

/-- An index into the value does not wrap. -/
theorem Parts.index_eq (h : b.Parts H V T) {pos : ℕ} (hpos : pos ≤ V.length + T.length) :
    (b._erase_head + pos) % sizeModulus = H.length + pos := by
  have hlt := h.length_lt
  rw [h.head, Nat.mod_eq_of_lt (by omega)]

/-- The terminator is written into the erased tail. -/
theorem Parts.put_end (h : b.Parts H V T) : (b.put b.size 0).Parts H V (T.set 0 0) := by
  have hidx : (b._erase_head + V.length) % sizeModulus = H.length + V.length :=
    h.index_eq (Nat.le_add_right _ _)
  have hstr : (b.put b.size 0)._str = H ++ V ++ T.set 0 0 := by
    have hl : H.length + V.length = (H ++ V).length := by simp
    simp only [put, h.size_eq, hidx, h.str]
    rw [hl, List.set_append_right _ _ (Nat.le_refl _), Nat.sub_self]
  refine ⟨hstr,h.head,?_,?_⟩
  · rw [List.length_set]
    exact h.tail
  · have hfits := h.fits
    rw [h.str] at hfits
    rw [hstr]
    simpa using hfits

theorem Parts.moveData (h : b.Parts H V T) : b.moveData.Parts [] V T := by
  unfold BufferLikeString.moveData
  split_ifs with hz
  · have hdrop : b._str.drop b._erase_head = [] ++ V ++ T := by
      rw [h.str, h.head, List.append_assoc, List.drop_left]
      rfl
    refine ⟨hdrop,rfl,h.tail,?_⟩
    have hfits := h.fits
    simp only [List.length_drop]
    omega
  · have hnil : H = [] := by
      have hl := h.head
      rw [not_ne_iff.mp hz] at hl
      exact List.length_eq_zero_iff.mp hl.symm
    subst hnil
    exact h

/-- A new content behind the erased head. -/
theorem Parts.store (h : b.Parts H V T) {room : Bool} {V' : List UInt8}
    (hc : b.store (StdString.fits room (H ++ V' ++ T)) = (c,true)) : c.Parts H V' T := by
  cases hs : StdString.fits room (H ++ V' ++ T) with
  | none =>
    rw [hs] at hc
    cases hc
  | some s =>
    obtain ⟨rfl,hle⟩ := fits_eq_some hs
    rw [hs] at hc
    cases hc
    exact ⟨rfl,h.head,h.tail,hle⟩

theorem Parts.append (h : b.Parts H V T) {data : List UInt8} {capacity : ℕ} {room : Bool}
    (hc : b.append data capacity room = (c,true)) : ∃ H', c.Parts H' (V ++ data) T := by
  unfold BufferLikeString.append at hc
  by_cases hnil : data.length = 0
  · rw [if_pos hnil] at hc
    cases hc
    rw [List.length_eq_zero_iff.mp hnil, List.append_nil]
    exact ⟨H,h⟩
  rw [if_neg hnil] at hc
  have hmoved : ∃ H', (if capacity / 2 < b._erase_head then b.moveData else b).Parts H' V T := by
    split_ifs
    · exact ⟨[],h.moveData⟩
    · exact ⟨H,h⟩
  obtain ⟨H',hm⟩ := hmoved
  generalize (if capacity / 2 < b._erase_head then b.moveData else b) = m at hm hc
  refine ⟨H',?_⟩
  by_cases hz : m._erase_tail = 0
  · have hT : T = [] := List.length_eq_zero_iff.mp (hm.tail ▸ hz)
    subst hT
    have hstr : m._str ++ data = H' ++ (V ++ data) ++ [] := by simp [hm.str]
    simp only [if_pos hz, hstr] at hc
    exact hm.store hc
  · have hins : StdString.insert m._str ((m._erase_head + m.size) % sizeModulus) data =
        some (H' ++ (V ++ data) ++ T) := by
      rw [hm.size_eq, hm.index_eq (Nat.le_add_right _ _), hm.str, insert_middle _ _ _ (Nat.le_refl _),
        StdString.insert, if_neg (Nat.lt_irrefl _)]
      simp
    simp only [if_neg hz, hins, Option.bind_some] at hc
    exact hm.store hc

theorem Parts.push_back (h : b.Parts H V T) {ch : UInt8} {room : Bool}
    (hc : b.push_back ch room = (c,true)) : ∃ T', c.Parts H (V ++ [ch]) T' := by
  unfold BufferLikeString.push_back at hc
  by_cases hz : b._erase_tail = 0
  · have hT : T = [] := List.length_eq_zero_iff.mp (h.tail ▸ hz)
    subst hT
    have hstr : b._str ++ [ch] = H ++ (V ++ [ch]) ++ [] := by simp [h.str]
    rw [if_pos hz, hstr] at hc
    exact ⟨[],h.store hc⟩
  · rw [if_neg hz] at hc
    have hne : T ≠ [] := by
      rintro rfl
      exact hz h.tail
    obtain ⟨t,ts,rfl⟩ := List.exists_cons_of_ne_nil hne
    have hidx : (b._erase_head + V.length) % sizeModulus = H.length + V.length :=
      h.index_eq (Nat.le_add_right _ _)
    -- the byte takes the place of the first one of the tail
    have hput : ({ b.put b.size ch with _erase_tail := b._erase_tail - 1 } : BufferLikeString).Parts
        H (V ++ [ch]) ts := by
      refine ⟨?_,h.head,?_,?_⟩
      · have hl : H.length + V.length = (H ++ V).length := by simp
        simp only [put, h.size_eq, hidx, h.str]
        rw [hl, List.set_append_right _ _ (Nat.le_refl _), Nat.sub_self]
        simp
      · have htail := h.tail
        simp only [List.length_cons] at htail
        simp only
        omega
      · simp only [put, List.length_set]
        exact h.fits
    cases hc
    exact ⟨_,hput.put_end⟩

theorem Parts.insert (h : b.Parts H V T) {pos : ℕ} (hpos : pos ≤ V.length) {s : List UInt8} {room : Bool}
    (hc : b.insert pos s room = (c,true)) :
    ∃ V', StdString.insert V pos s = some V' ∧ c.Parts H V' T := by
  unfold BufferLikeString.insert at hc
  rw [h.index_eq (by omega), h.str, insert_middle _ _ _ hpos] at hc
  obtain ⟨V',hV⟩ : ∃ V', StdString.insert V pos s = some V' := ⟨_,if_neg (Nat.not_lt.mpr hpos)⟩
  refine ⟨V',hV,?_⟩
  rw [hV, Option.map_some, Option.bind_some] at hc
  exact h.store hc

/-- The erased bytes of the front go to the head. -/
theorem Parts.erase_front (h : b.Parts H V T) {n : ℕ} (hn : n ≠ npos)
    (hc : b.erase 0 n = (c,true)) : StdString.erase V 0 n = some (V.drop n) ∧
    c.Parts (H ++ V.take n) (V.drop n) (T.set 0 0) := by
  have hlt := h.length_lt
  simp only [BufferLikeString.erase, if_true, hn, ne_eq, not_false_eq_true, h.size_eq] at hc
  split_ifs at hc with hle
  · cases hc
  have hhead : ({ b with _erase_head := (b._erase_head + n) % sizeModulus } : BufferLikeString).Parts
      (H ++ V.take n) (V.drop n) T := by
    refine ⟨?_,?_,h.tail,h.fits⟩
    · rw [h.str, List.append_assoc H (V.take n), List.take_append_drop]
    · change (b._erase_head + n) % sizeModulus = _
      rw [List.length_append, List.length_take, h.index_eq (by omega), Nat.min_eq_left (by omega)]
  cases hc
  exact ⟨by simp [StdString.erase],hhead.put_end⟩

theorem Parts.erase_all (h : b.Parts H V T) (hc : b.erase 0 npos = (c,true)) :
    StdString.erase V 0 npos = some [] ∧ c.Parts [] [] (b._str.set 0 0) := by
  have hlt := h.length_lt
  simp only [BufferLikeString.erase, if_true, ne_eq, not_true_eq_false, if_false] at hc
  cases hc
  refine ⟨?_,⟨?_,rfl,?_,?_⟩⟩
  · have hle : V.length ≤ 0 + npos := by
      rw [npos]
      rw [sizeModulus] at hlt
      omega
    rw [StdString.erase, if_neg (Nat.not_lt_zero _), List.drop_eq_nil_of_le hle]
    rfl
  · simp [put]
  · simp [put]
  · simpa [put] using h.fits

/-- The erased bytes of the end go to the tail. -/
theorem Parts.erase_end (h : b.Parts H V T) {pos : ℕ} (hpos : pos < V.length) :
    (({ b with _erase_tail := (b._erase_tail + (b.size - pos)) % sizeModulus } : BufferLikeString).put
      ({ b with _erase_tail := (b._erase_tail + (b.size - pos)) % sizeModulus } : BufferLikeString).size
      0).Parts H (V.take pos) ((V.drop pos ++ T).set 0 0) := by
  have hlt := h.length_lt
  have htail : ({ b with _erase_tail := (b._erase_tail + (b.size - pos)) % sizeModulus } :
      BufferLikeString).Parts H (V.take pos) (V.drop pos ++ T) := by
    refine ⟨?_,h.head,?_,h.fits⟩
    · rw [h.str, List.append_assoc H (V.take pos), ← List.append_assoc (V.take pos), List.take_append_drop,
        List.append_assoc]
    · change (b._erase_tail + (b.size - pos)) % sizeModulus = _
      rw [h.tail, h.size_eq, List.length_append, List.length_drop, Nat.mod_eq_of_lt (by omega),
        Nat.add_comm]
  exact htail.put_end

/-- A content that takes the place of everything. -/
theorem parts_replace {room : Bool} {s : List UInt8} (hc : (if (b.store (StdString.fits room s)).2 then
    ({ (b.store (StdString.fits room s)).1 with _erase_head := 0, _erase_tail := 0 },true)
    else b.store (StdString.fits room s)) = (c,true)) : c.Parts [] s [] := by
  cases hf : StdString.fits room s with
  | none => simp [BufferLikeString.store, hf] at hc
  | some t =>
    obtain ⟨rfl,hle⟩ := fits_eq_some hf
    simp only [BufferLikeString.store, hf, if_true] at hc
    cases hc
    exact ⟨by simp,rfl,rfl,hle⟩

theorem Parts.assign (h : b.Parts H V T) {src : Source} (hne : src.len ≠ 0) {room : Bool}
    (hs : b.Starts (.assign src room)) (hc : b.assign src room = (c,true)) :
    ∃ H' T', c.Parts H' (match src with
      | .bytes data => data
      | .own off len => (b._str.drop off.toNat).take len.toNat) T' := by
  unfold BufferLikeString.assign at hc
  rw [if_neg hne] at hc
  cases src with
  | bytes data => exact ⟨[],[],parts_replace hc⟩
  | own off len =>
    simp only at hc
    split_ifs at hc with hlong
    · cases hc
    cases hc
    refine ⟨b._str.take off.toNat,b._str.drop (off.toNat + len.toNat),?_,?_,?_,h.fits⟩
    · rw [List.append_assoc, ← List.drop_drop, List.take_append_drop, List.take_append_drop]
    · have hlt : off.toNat < b._str.length := hs
      rw [List.length_take, Nat.min_eq_left (Nat.le_of_lt hlt)]
    · rw [List.length_drop]

theorem parts_clear (b : BufferLikeString) : b.clear.Parts [] [] [] := ⟨rfl,rfl,rfl,Nat.zero_le _⟩

/-- The storage is cut or padded as if nothing had been erased. -/
theorem parts_resize {n : ℕ} {ch : UInt8} {room : Bool} (hc : b.resize n ch room = (c,true)) :
    c.Parts [] (StdString.resize b._str n ch) [] := by
  unfold BufferLikeString.resize at hc
  split_ifs at hc
  · simp at hc
  · exact parts_replace hc

end BufferLikeString
end OctCommu.Network
