import OctCommu.Util.StreamBuffer

/-! # What the value of `init` tells

`init` refuses a frame length that is not positive with `false`, and a header with
too many tokens with the number 1, which is `true`.
-/
namespace OctCommu.Util.StreamBuffer

/-- `init` succeeds or changes nothing, and says which. -/
structure InitTells (b : StreamBuffer) (sp_head : List UInt8) (frame_len : ℤ) : Prop where
  returned : (b.init sp_head frame_len).1 = true ↔
    0 < frame_len ∧ (strSplit 32 sp_head).length ≤ FRAME_HEAD_LEN
  configured : (b.init sp_head frame_len).1 = true →
    (b.init sp_head frame_len).2.1.header = headBytes sp_head ∧
    (b.init sp_head frame_len).2.1.m_frameLen = frame_len ∧
    (b.init sp_head frame_len).2.1.unread = []
  unchanged : (b.init sp_head frame_len).1 = false →
    (b.init sp_head frame_len).2.1.header = b.header ∧
    (b.init sp_head frame_len).2.1.m_headValidLen = b.m_headValidLen ∧
    (b.init sp_head frame_len).2.1.m_frameLen = b.m_frameLen ∧
    (b.init sp_head frame_len).2.1.unread = b.unread

variable (b : StreamBuffer) {sp_head : List UInt8} {frame_len : ℤ}

theorem headBytes_length (sp_head : List UInt8) :
    (headBytes sp_head).length = (strSplit 32 sp_head).length := by
  simp [headBytes]

theorem initTells_of_nonpos (h : frame_len ≤ 0) : b.InitTells sp_head frame_len := by
  have hinit : b.init sp_head frame_len = (false,b,[]) := if_pos h
  constructor
  · rw [hinit]
    exact iff_of_false Bool.false_ne_true fun hn => absurd hn.1 (Int.not_lt.mpr h)
  · rw [hinit]
    exact nofun
  · rw [hinit]
    exact fun _ => ⟨rfl,rfl,rfl,rfl⟩

theorem initTells_of_short (hn : 0 < frame_len) (hlen : (strSplit 32 sp_head).length ≤ FRAME_HEAD_LEN) :
    b.InitTells sp_head frame_len := by
  have hlong : ¬ FRAME_HEAD_LEN < (headBytes sp_head).length := by
    rw [headBytes_length]
    exact Nat.not_lt.mpr hlen
  have hinit : b.init sp_head frame_len = (true,{ b with
      m_head := Memory.memcpy b.m_head 0 (headBytes sp_head)
      m_headValidLen := (headBytes sp_head).length
      m_frameLen := frame_len.toNat
      m_startPos := 0
      m_endPos := 0 },[.head 0 (headBytes sp_head).length]) := by
    simp only [init, if_neg (Int.not_le.mpr hn), if_neg hlong]
  constructor
  · rw [hinit]
    exact iff_of_true rfl ⟨hn,hlen⟩
  · rw [hinit]
    exact fun _ =>
      ⟨Memory.segment_memcpy_self _ 0 (headBytes sp_head),Int.toNat_of_nonneg (Int.le_of_lt hn),rfl⟩
  · rw [hinit]
    exact nofun

/-- A header that is too long is reported as a success. -/
theorem not_initTells_of_long (hn : 0 < frame_len)
    (hlen : FRAME_HEAD_LEN < (strSplit 32 sp_head).length) : ¬ b.InitTells sp_head frame_len := by
  intro h
  have hlong : FRAME_HEAD_LEN < (headBytes sp_head).length := by
    rw [headBytes_length]
    exact hlen
  have hinit : b.init sp_head frame_len = (true,b,[]) := by
    simp only [init, if_neg (Int.not_le.mpr hn), if_pos hlong]
  have htokens := (h.returned.mp (by rw [hinit])).2
  exact absurd htokens (Nat.not_le.mpr hlen)

/-- `init` tells what it did just when the frame length is refused or the header is short enough. -/
theorem init_tells_iff (sp_head : List UInt8) (frame_len : ℤ) : b.InitTells sp_head frame_len ↔
    frame_len ≤ 0 ∨ (strSplit 32 sp_head).length ≤ FRAME_HEAD_LEN := by
  by_cases hn : frame_len ≤ 0
  · exact iff_of_true (initTells_of_nonpos b hn) (.inl hn)
  by_cases hlen : (strSplit 32 sp_head).length ≤ FRAME_HEAD_LEN
  · exact iff_of_true (initTells_of_short b (Int.not_le.mp hn) hlen) (.inr hlen)
  · have hlong := not_initTells_of_long b (Int.not_le.mp hn) (Nat.not_le.mp hlen)
    exact iff_of_false hlong (not_or.mpr ⟨hn,hlen⟩)

/-- 65 tokens `55`: `init` returns `true` and configures nothing. -/
theorem long_header_untold :
    ¬ fresh.InitTells ((List.replicate 65 [53,53]).intersperse [32]).flatten 8 :=
  not_initTells_of_long fresh (by decide) (by decide +kernel)

end OctCommu.Util.StreamBuffer
