import OctCommu.Lib.Framing
import OctCommu.Lib.Memory
import OctCommu.Lib.Runs

/-! # The frame buffer `StreamBuffer`

The unread bytes are `m_dataBuffer[m_startPos..m_endPos)`. Beside its result each
function returns the memory accesses it performs, in order, so that an access that
leaves an array is visible.
-/
namespace OctCommu.Util
open Framing Memory

def FRAME_HEAD_LEN : ℕ := 64
def MAX_BUFFER_LEN : ℕ := 1024 * 80

/-! ### Parsing the frame header -/

/-- `str_split(in, " ")`: the pieces between single spaces. A last empty piece does not count
unless it is the only one. -/
def strSplit (sep : UInt8) (input : List UInt8) : List (List UInt8) :=
  let parts := input.splitOn sep
  if 1 < parts.length ∧ parts.getLast? = some [] then parts.dropLast else parts

/-- `isspace` in the C locale. -/
def isSpace (c : UInt8) : Bool := c = 32 ∨ 9 ≤ c ∧ c ≤ 13

def hexDigit (c : UInt8) : Option ℕ :=
  if 48 ≤ c ∧ c ≤ 57 then some (c.toNat - 48)
  else if 65 ≤ c ∧ c ≤ 70 then some (c.toNat - 55)
  else if 97 ≤ c ∧ c ≤ 102 then some (c.toNat - 87)
  else none

def hexValue (acc : ℕ) : List UInt8 → ℕ
  | [] => acc
  | c :: cs =>
    match hexDigit c with
    | some d => hexValue (acc * 16 + d) cs
    | none => acc

def dropHexPrefix : List UInt8 → List UInt8
  | 48 :: x :: cs => if x = 120 ∨ x = 88 then cs else 48 :: x :: cs
  | cs => cs

def LONG_MAX : ℕ := 9223372036854775807

/-- `strtol(s, nullptr, 16)` for a 64-bit `long`, with its two limits. -/
def strtol16 (s : List UInt8) : ℤ :=
  match s.dropWhile isSpace with
  | 45 :: cs => -(min (hexValue 0 (dropHexPrefix cs)) (LONG_MAX + 1) : ℕ)
  | 43 :: cs => (min (hexValue 0 (dropHexPrefix cs)) LONG_MAX : ℕ)
  | cs => (min (hexValue 0 (dropHexPrefix cs)) LONG_MAX : ℕ)

/-- The header bytes `init` reads from its string. -/
def headBytes (sp_head : List UInt8) : List UInt8 :=
  (strSplit 32 sp_head).map fun item_head => UInt8.ofNat (strtol16 item_head % 256).toNat

/-! ### The buffer -/

structure StreamBuffer where
  m_head : ℕ → UInt8
  m_headValidLen : ℕ
  m_frameLen : ℕ
  m_dataBuffer : ℕ → UInt8
  m_startPos : ℕ
  m_endPos : ℕ
  m_totalBufferLen : ℕ

/-- A read or a write of `len` bytes from `pos` on, in `m_dataBuffer` or in `m_head`. -/
inductive Access where
  | data (pos len : ℕ)
  | head (pos len : ℕ)

def Access.Inside : Access → Prop
  | .data pos len => pos + len ≤ MAX_BUFFER_LEN
  | .head pos len => pos + len ≤ FRAME_HEAD_LEN

namespace StreamBuffer

def fresh : StreamBuffer where
  m_head := fun _ => 0
  m_headValidLen := 0
  m_frameLen := 0
  m_dataBuffer := fun _ => 0
  m_startPos := 0
  m_endPos := 0
  m_totalBufferLen := MAX_BUFFER_LEN

def init (b : StreamBuffer) (sp_head : List UInt8) (frame_len : ℤ) :
    Bool × StreamBuffer × List Access :=
  if frame_len ≤ 0 then (false,b,[])
  else
    let head := headBytes sp_head
    -- `return 1` in a function of type `bool`
    if FRAME_HEAD_LEN < head.length then (true,b,[])
    else (true,{ b with
      m_head := memcpy b.m_head 0 head
      m_headValidLen := head.length
      m_frameLen := frame_len.toNat
      m_startPos := 0
      m_endPos := 0 },[.head 0 head.length])

/-- `memcpy(m_dataBuffer + m_endPos, pdata, data_len)` and the counter update behind it. -/
def store (b : StreamBuffer) (pdata : List UInt8) : StreamBuffer where
  __ := b
  m_dataBuffer := memcpy b.m_dataBuffer b.m_endPos pdata
  m_endPos := b.m_endPos + pdata.length

def compact (b : StreamBuffer) : StreamBuffer × List Access :=
  let current_data_len : ℤ := b.m_endPos - b.m_startPos
  if 0 < current_data_len then
    let len := current_data_len.toNat
    ({ b with
      m_dataBuffer := memmove b.m_dataBuffer 0 b.m_startPos len
      m_endPos := len
      m_startPos := 0 },[.data b.m_startPos len,.data 0 len])
  else ({ b with m_startPos := 0, m_endPos := 0 },[])

def append (b : StreamBuffer) (pdata : List UInt8) : StreamBuffer × List Access :=
  if b.m_totalBufferLen ≤ pdata.length then (b,[])
  else
    let remain_len : ℤ := b.m_totalBufferLen - b.m_endPos
    if pdata.length ≤ remain_len then (b.store pdata,[.data b.m_endPos pdata.length])
    else
      let r := b.compact
      (r.1.store pdata,r.2 ++ [.data r.1.m_endPos pdata.length])

/-- `0 == memcmp(m_dataBuffer + m_startPos, m_head, m_headValidLen)`. -/
def headMatches (b : StreamBuffer) : Bool :=
  segment b.m_dataBuffer b.m_startPos b.m_headValidLen = segment b.m_head 0 b.m_headValidLen

/-- The search loop, with as many rounds as lie between `m_startPos` and `stop_pos`. -/
def searchHeader (stop_pos : ℤ) : ℕ → StreamBuffer → Bool × StreamBuffer × List Access
  | 0, b => (false,b,[])
  | rounds + 1, b =>
    if b.m_startPos ≤ stop_pos then
      let compared := [.data b.m_startPos b.m_headValidLen,.head 0 b.m_headValidLen]
      if b.headMatches then (true,b,compared)
      else
        let r := searchHeader stop_pos rounds { b with m_startPos := b.m_startPos + 1 }
        (r.1,r.2.1,compared ++ r.2.2)
    else (false,b,[])

def findStartFrameHeaderPos (b : StreamBuffer) : Bool × StreamBuffer × List Access :=
  if b.m_headValidLen = 0 then (true,b,[])
  else
    let stop_pos : ℤ := b.m_endPos - b.m_headValidLen
    searchHeader stop_pos (stop_pos + 1 - b.m_startPos).toNat b

/-- The frame comes as the bytes that the returned pointer and length describe on return. -/
def getNextFrame (b : StreamBuffer) : Option (List UInt8) × StreamBuffer × List Access :=
  if (b.m_endPos : ℤ) - b.m_startPos < b.m_frameLen then (none,b,[])
  else
    let r := b.findStartFrameHeaderPos
    if r.1 then
      if (r.2.1.m_endPos : ℤ) - r.2.1.m_startPos < r.2.1.m_frameLen then (none,r.2.1,r.2.2)
      else
        (some (segment r.2.1.m_dataBuffer r.2.1.m_startPos r.2.1.m_frameLen),
          { r.2.1 with m_startPos := r.2.1.m_startPos + r.2.1.m_frameLen },r.2.2)
    else (none,r.2.1,r.2.2)

def release (b : StreamBuffer) : StreamBuffer × List Access :=
  ({ b with
    m_head := memset b.m_head 0 FRAME_HEAD_LEN
    m_headValidLen := 0
    m_frameLen := 0
    m_startPos := 0
    m_endPos := 0 },[.head 0 FRAME_HEAD_LEN])

def clearBuffer (b : StreamBuffer) : StreamBuffer × List Access :=
  ({ b with
    m_dataBuffer := memset b.m_dataBuffer 0 MAX_BUFFER_LEN
    m_startPos := 0
    m_endPos := 0 },[.data 0 MAX_BUFFER_LEN])

/-- What has been appended and not passed over yet. -/
def unread (b : StreamBuffer) : List UInt8 :=
  segment b.m_dataBuffer b.m_startPos (b.m_endPos - b.m_startPos)

def header (b : StreamBuffer) : List UInt8 := segment b.m_head 0 b.m_headValidLen

def seek (b : StreamBuffer) (pos : ℕ) : StreamBuffer := { b with m_startPos := pos }

@[simp] theorem unread_length (b : StreamBuffer) : b.unread.length = b.m_endPos - b.m_startPos :=
  segment_length ..

@[simp] theorem header_length (b : StreamBuffer) : b.header.length = b.m_headValidLen :=
  segment_length ..

theorem unread_seek_add (b : StreamBuffer) (n : ℕ) :
    (b.seek (b.m_startPos + n)).unread = b.unread.drop n := by
  simp only [unread, seek, segment_drop, Nat.sub_sub]

theorem unread_store {b : StreamBuffer} (hb : b.m_startPos ≤ b.m_endPos) (pdata : List UInt8) :
    (b.store pdata).unread = b.unread ++ pdata := by
  obtain ⟨len,hlen⟩ := Nat.exists_eq_add_of_le hb
  have hend : b.m_startPos + len + pdata.length - b.m_startPos = len + pdata.length := by omega
  simp only [unread, store, hlen, hend, Nat.add_sub_cancel_left]
  exact segment_memcpy_append ..

@[simp] theorem unread_compact (b : StreamBuffer) : b.compact.1.unread = b.unread := by
  unfold compact
  by_cases h : (0 : ℤ) < b.m_endPos - b.m_startPos
  · have hlen : ((b.m_endPos : ℤ) - b.m_startPos).toNat = b.m_endPos - b.m_startPos := by omega
    simp only [if_pos h, unread, hlen, Nat.sub_zero, segment_memmove_self]
  · have hlen : b.m_endPos - b.m_startPos = 0 := by omega
    simp only [if_neg h, unread, hlen, Nat.sub_zero, segment_zero]

theorem compact_positions (b : StreamBuffer) :
    b.compact.1.m_startPos = 0 ∧ b.compact.1.m_endPos = b.m_endPos - b.m_startPos := by
  unfold compact
  by_cases h : (0 : ℤ) < b.m_endPos - b.m_startPos
  · simp only [if_pos h, true_and]
    omega
  · simp only [if_neg h, true_and]
    omega

theorem compact_frame (b : StreamBuffer) :
    b.compact.1.header = b.header ∧ b.compact.1.m_frameLen = b.m_frameLen := by
  unfold compact
  by_cases h : (0 : ℤ) < b.m_endPos - b.m_startPos
  · simp only [if_pos h, header, and_self]
  · simp only [if_neg h, header, and_self]

/-- Everything a call of `append` can do. -/
theorem append_cases (b : StreamBuffer) (pdata : List UInt8) :
    (b.m_totalBufferLen ≤ pdata.length ∧ b.append pdata = (b,[])) ∨
    (pdata.length < b.m_totalBufferLen ∧ b.m_endPos + pdata.length ≤ b.m_totalBufferLen ∧
      b.append pdata = (b.store pdata,[.data b.m_endPos pdata.length])) ∨
    (pdata.length < b.m_totalBufferLen ∧ b.m_totalBufferLen < b.m_endPos + pdata.length ∧
      b.append pdata = (b.compact.1.store pdata,
        b.compact.2 ++ [.data b.compact.1.m_endPos pdata.length])) := by
  unfold append
  by_cases h1 : b.m_totalBufferLen ≤ pdata.length
  · rw [if_pos h1]
    exact .inl ⟨h1,rfl⟩
  rw [if_neg h1]
  by_cases h2 : (pdata.length : ℤ) ≤ b.m_totalBufferLen - b.m_endPos
  · rw [if_pos h2]
    exact .inr (.inl ⟨by omega,by omega,rfl⟩)
  · rw [if_neg h2]
    exact .inr (.inr ⟨by omega,by omega,rfl⟩)

theorem headMatches_iff {b : StreamBuffer} (h : b.m_headValidLen ≤ b.m_endPos - b.m_startPos) :
    b.headMatches = true ↔ b.header <+: b.unread := by
  rw [List.prefix_iff_eq_take, header_length, unread, segment_take _ _ _ _ h, headMatches,
    decide_eq_true_iff, header]
  exact eq_comm

/-- The accesses of one search stay below `limit`, and inside the header. -/
def SearchAccesses (b : StreamBuffer) (limit : ℕ) (accesses : List Access) : Prop :=
  ∀ a ∈ accesses, a = .head 0 b.m_headValidLen ∨
    ∃ pos, a = .data pos b.m_headValidLen ∧ pos + b.m_headValidLen ≤ limit

/-- Where a search stands when it ends: it has passed no place where the header may still match. -/
structure Searched (b : StreamBuffer) (r : Bool × StreamBuffer × List Access) (pos : ℕ) : Prop where
  state : r.2.1 = b.seek pos
  start_le : b.m_startPos ≤ pos
  le_end : pos ≤ b.m_endPos
  skip : Skip b.header b.unread (b.seek pos).unread
  found : r.1 = true → b.header <+: (b.seek pos).unread
  missed : r.1 = false → (b.seek pos).unread.length < b.header.length
  accesses : SearchAccesses b b.m_endPos r.2.2

theorem searchHeader_spec {rounds : ℕ} {b : StreamBuffer} (hle : b.m_startPos ≤ b.m_endPos)
    (hhead : 0 < b.m_headValidLen)
    (hrounds : rounds = ((b.m_endPos : ℤ) - b.m_headValidLen + 1 - b.m_startPos).toNat) :
    ∃ pos, Searched b (searchHeader (b.m_endPos - b.m_headValidLen) rounds b) pos := by
  induction rounds generalizing b with
  | zero =>
    refine ⟨b.m_startPos,rfl,le_rfl,hle,.refl _,nofun,?_,nofun⟩
    intro _
    change b.unread.length < b.header.length
    rw [unread_length, header_length]
    omega
  | succ rounds ih =>
    have hroom : b.m_headValidLen ≤ b.m_endPos - b.m_startPos := by omega
    have hcompared : SearchAccesses b b.m_endPos
        [.data b.m_startPos b.m_headValidLen,.head 0 b.m_headValidLen] := by
      intro a ha
      simp only [List.mem_cons, List.not_mem_nil, or_false] at ha
      rcases ha with rfl | rfl
      · exact .inr ⟨_,rfl,by omega⟩
      · exact .inl rfl
    have hgo : (b.m_startPos : ℤ) ≤ b.m_endPos - b.m_headValidLen := by omega
    rw [searchHeader, if_pos hgo]
    by_cases hm : b.headMatches = true
    · rw [if_pos hm]
      exact ⟨b.m_startPos,rfl,le_rfl,hle,.refl _,fun _ => (headMatches_iff hroom).mp hm,nofun,hcompared⟩
    · rw [if_neg hm]
      have hnext : (b.seek (b.m_startPos + 1)).m_startPos ≤ (b.seek (b.m_startPos + 1)).m_endPos := by
        simp only [seek]
        omega
      obtain ⟨pos,hs,hsl,hpe,hskip,hf,hmiss,hacc⟩ := ih (b := b.seek (b.m_startPos + 1)) hnext hhead
        (by simp only [seek]; omega)
      obtain ⟨v,tail,hv⟩ := List.exists_cons_of_length_pos (l := b.unread) (by rw [unread_length]; omega)
      have htail : (b.seek (b.m_startPos + 1)).unread = tail := by rw [unread_seek_add, hv]; rfl
      have hlen : b.header.length ≤ (v :: tail).length := by
        rw [← hv, header_length, unread_length]
        exact hroom
      rw [htail] at hskip
      refine ⟨pos,hs,Nat.le_of_succ_le hsl,hpe,?_,hf,hmiss,?_⟩
      · rw [hv]
        exact .step hlen (by rw [← hv]; exact mt (headMatches_iff hroom).mpr hm) hskip
      · intro a ha
        rcases List.mem_append.mp ha with h | h
        · exact hcompared a h
        · exact hacc a h

theorem findStartFrameHeaderPos_spec {b : StreamBuffer} (hle : b.m_startPos ≤ b.m_endPos) :
    ∃ pos, Searched b b.findStartFrameHeaderPos pos := by
  unfold findStartFrameHeaderPos
  by_cases h : b.m_headValidLen = 0
  · rw [if_pos h]
    have hnil : b.header = [] := by rw [header, h, segment_zero]
    exact ⟨b.m_startPos,rfl,le_rfl,hle,.refl _,fun _ => hnil ▸ List.nil_prefix,nofun,nofun⟩
  · rw [if_neg h]
    exact searchHeader_spec hle (Nat.pos_of_ne_zero h) rfl

/-- Everything a call of `getNextFrame` can do. -/
theorem getNextFrame_cases {b : StreamBuffer} (hle : b.m_startPos ≤ b.m_endPos) :
    ∃ pos, b.m_startPos ≤ pos ∧ pos ≤ b.m_endPos ∧ Skip b.header b.unread (b.seek pos).unread ∧
      SearchAccesses b b.m_endPos b.getNextFrame.2.2 ∧
      ((b.getNextFrame.1 = none ∧ b.getNextFrame.2.1 = b.seek pos ∧
        ((b.seek pos).unread.length < b.m_frameLen ∨
          (b.seek pos).unread.length < b.header.length)) ∨
      (b.getNextFrame.1 = some ((b.seek pos).unread.take b.m_frameLen) ∧
        b.header <+: (b.seek pos).unread ∧ b.m_frameLen ≤ (b.seek pos).unread.length ∧
        b.getNextFrame.2.1 = b.seek (pos + b.m_frameLen))) := by
  by_cases hshort : (b.m_endPos : ℤ) - b.m_startPos < b.m_frameLen
  · have hr : b.getNextFrame = (none,b,[]) := if_pos hshort
    rw [hr]
    refine ⟨b.m_startPos,le_rfl,hle,.refl _,nofun,.inl ⟨rfl,rfl,.inl ?_⟩⟩
    change b.unread.length < b.m_frameLen
    rw [unread_length]
    omega
  · obtain ⟨pos,hs,hsl,hpe,hskip,hf,hmiss,hacc⟩ := findStartFrameHeaderPos_spec hle
    refine ⟨pos,hsl,hpe,hskip,?_⟩
    unfold getNextFrame
    rw [if_neg hshort]
    simp only [hs]
    cases hfound : b.findStartFrameHeaderPos.1 with
    | false => exact ⟨hacc,.inl ⟨rfl,rfl,.inr (hmiss hfound)⟩⟩
    | true =>
      have hlen : (b.seek pos).unread.length = b.m_endPos - pos := unread_length _
      by_cases hlt : ((b.seek pos).m_endPos : ℤ) - (b.seek pos).m_startPos < (b.seek pos).m_frameLen
      · rw [if_pos rfl, if_pos hlt]
        refine ⟨hacc,.inl ⟨rfl,rfl,.inl ?_⟩⟩
        rw [hlen]
        simp only [seek] at hlt
        omega
      · rw [if_pos rfl, if_neg hlt]
        simp only [seek] at hlt
        have hroom : b.m_frameLen ≤ b.m_endPos - pos := by omega
        refine ⟨hacc,.inr ⟨?_,hf hfound,by omega,rfl⟩⟩
        simp only [unread, seek, Option.some.injEq]
        exact (segment_take _ _ _ _ hroom).symm

structure Sane (b : StreamBuffer) : Prop where
  start_le : b.m_startPos ≤ b.m_endPos
  end_le : b.m_endPos ≤ b.m_totalBufferLen
  total : b.m_totalBufferLen = MAX_BUFFER_LEN
  head_le : b.m_headValidLen ≤ FRAME_HEAD_LEN

theorem sane_fresh : Sane fresh := ⟨le_rfl,Nat.zero_le _,rfl,Nat.zero_le _⟩

theorem Sane.compact {b : StreamBuffer} (hb : Sane b) :
    Sane b.compact.1 ∧ ∀ a ∈ b.compact.2, a.Inside := by
  obtain ⟨hse,het,htot,hhead⟩ := hb
  unfold StreamBuffer.compact
  by_cases h : (0 : ℤ) < b.m_endPos - b.m_startPos
  · simp only [if_pos h]
    refine ⟨⟨Nat.zero_le _,by simp only; omega,htot,hhead⟩,?_⟩
    intro a ha
    simp only [List.mem_cons, List.not_mem_nil, or_false] at ha
    rcases ha with rfl | rfl <;> simp only [Access.Inside] <;> omega
  · simp only [if_neg h]
    exact ⟨⟨le_rfl,Nat.zero_le _,htot,hhead⟩,nofun⟩

theorem Sane.store {b : StreamBuffer} (hb : Sane b) {pdata : List UInt8}
    (h : b.m_endPos + pdata.length ≤ b.m_totalBufferLen) :
    Sane (b.store pdata) ∧ (Access.data b.m_endPos pdata.length).Inside :=
  ⟨⟨Nat.le_add_right_of_le hb.start_le,h,hb.total,hb.head_le⟩,h.trans_eq hb.total⟩

theorem Sane.append {b : StreamBuffer} (hb : Sane b) {pdata : List UInt8}
    (h : b.m_totalBufferLen ≤ pdata.length ∨
      b.m_endPos - b.m_startPos + pdata.length ≤ b.m_totalBufferLen) :
    Sane (b.append pdata).1 ∧ ∀ a ∈ (b.append pdata).2, a.Inside := by
  obtain ⟨_,he⟩ | ⟨_,hfit,he⟩ | ⟨_,_,he⟩ := append_cases b pdata
  · rw [he]
    exact ⟨hb,nofun⟩
  · rw [he]
    obtain ⟨hs,ha⟩ := hb.store hfit
    exact ⟨hs,by simpa using ha⟩
  · rw [he]
    obtain ⟨hcs,hca⟩ := hb.compact
    have htot : b.compact.1.m_totalBufferLen = b.m_totalBufferLen := hcs.total.trans hb.total.symm
    have hend := (compact_positions b).2
    have hroom : b.compact.1.m_endPos + pdata.length ≤ b.compact.1.m_totalBufferLen := by
      rw [hend, htot]
      omega
    obtain ⟨hs,ha⟩ := hcs.store hroom
    refine ⟨hs,?_⟩
    intro x hx
    rcases List.mem_append.mp hx with hx | hx
    · exact hca x hx
    · obtain rfl := List.mem_singleton.mp hx
      exact ha

theorem Sane.getNextFrame {b : StreamBuffer} (hb : Sane b) :
    Sane b.getNextFrame.2.1 ∧ ∀ a ∈ b.getNextFrame.2.2, a.Inside := by
  obtain ⟨hse,het,htot,hhead⟩ := hb
  obtain ⟨pos,_,hpe,_,hacc,hres⟩ := getNextFrame_cases hse
  constructor
  · rcases hres with ⟨_,hs,_⟩ | ⟨_,_,hlen,hs⟩
    · rw [hs]
      exact ⟨hpe,het,htot,hhead⟩
    · have hroom : b.m_frameLen ≤ b.m_endPos - pos := by simpa [seek] using hlen
      rw [hs]
      exact ⟨by simp only [seek]; omega,het,htot,hhead⟩
  · intro a ha
    rcases hacc a ha with rfl | ⟨p,rfl,hp⟩
    · simpa [Access.Inside] using hhead
    · simp only [Access.Inside]
      omega

theorem Sane.init {b : StreamBuffer} (hb : Sane b) (sp_head : List UInt8) (frame_len : ℤ) :
    Sane (b.init sp_head frame_len).2.1 ∧ ∀ a ∈ (b.init sp_head frame_len).2.2, a.Inside := by
  unfold StreamBuffer.init
  by_cases h1 : frame_len ≤ 0
  · rw [if_pos h1]
    exact ⟨hb,nofun⟩
  rw [if_neg h1]
  by_cases h2 : FRAME_HEAD_LEN < (headBytes sp_head).length
  · simp only [if_pos h2]
    exact ⟨hb,nofun⟩
  · simp only [if_neg h2]
    refine ⟨⟨le_rfl,Nat.zero_le _,hb.total,by simp only; omega⟩,?_⟩
    intro a ha
    obtain rfl := List.mem_singleton.mp ha
    simp only [Access.Inside]
    omega

end StreamBuffer
end OctCommu.Util
