import OctCommu.Lib.Loops
import OctCommu.Util.StreamBufferStorage

/-! # Taking frames until there is none

A frame moves `m_startPos` on by `m_frameLen`. `init` refuses a frame length that is
not positive, but a constructed and a released buffer have one: there every call
returns an empty frame.
-/
namespace OctCommu.Util.StreamBuffer
open Loops Runs

def NoFrame (b : StreamBuffer) : Prop := b.getNextFrame.1 = none

def afterFrame (b : StreamBuffer) : StreamBuffer := b.getNextFrame.2.1

def unreadLen (b : StreamBuffer) : ℤ := b.m_endPos - b.m_startPos

/-- `getNextFrame` called until it returns `false`. -/
structure Drains (b : StreamBuffer) : Prop where
  ends : Ends afterFrame NoFrame b
  decreases : ∀ n, ¬ NoFrame (afterFrame^[n] b) →
    (afterFrame^[n + 1] b).unreadLen < (afterFrame^[n] b).unreadLen

/-- Without a frame length there is no header either. -/
structure Wound (b : StreamBuffer) : Prop where
  start_le : b.m_startPos ≤ b.m_endPos
  head_zero : b.m_frameLen = 0 → b.m_headValidLen = 0

variable {b : StreamBuffer}

theorem wound_compact (b : StreamBuffer) :
    b.compact.1.m_startPos ≤ b.compact.1.m_endPos ∧ b.compact.1.m_frameLen = b.m_frameLen ∧
      b.compact.1.m_headValidLen = b.m_headValidLen := by
  obtain ⟨hstart,_⟩ := compact_positions b
  have hhead := congrArg List.length (compact_frame b).1
  simp only [header_length] at hhead
  exact ⟨hstart.trans_le (Nat.zero_le _),(compact_frame b).2,hhead⟩

theorem Wound.afterFrame (hb : b.Wound) :
    b.afterFrame.Wound ∧ b.afterFrame.m_frameLen = b.m_frameLen := by
  obtain ⟨pos,_,hpe,_,_,⟨_,hs,_⟩ | ⟨_,_,hlen,hs⟩⟩ := getNextFrame_cases hb.start_le
  · rw [StreamBuffer.afterFrame, hs]
    exact ⟨⟨hpe,hb.head_zero⟩,rfl⟩
  · rw [StreamBuffer.afterFrame, hs]
    rw [unread_length] at hlen
    simp only [seek] at hlen
    exact ⟨⟨by simp only [seek]; omega,hb.head_zero⟩,rfl⟩

theorem Wound.call (hb : b.Wound) (c : StreamCall) : (b.call c).1.Wound := by
  cases c with
  | init sp_head frame_len =>
    simp only [StreamBuffer.call, init]
    by_cases hn : frame_len ≤ 0
    · rw [if_pos hn]
      exact hb
    rw [if_neg hn]
    by_cases hlen : FRAME_HEAD_LEN < (headBytes sp_head).length
    · rw [if_pos hlen]
      exact hb
    · rw [if_neg hlen]
      refine ⟨le_rfl,fun hzero => absurd hzero ?_⟩
      simp only
      omega
  | append pdata =>
    simp only [StreamBuffer.call]
    obtain ⟨_,he⟩ | ⟨_,_,he⟩ | ⟨_,_,he⟩ := append_cases b pdata
    · rw [he]
      exact hb
    · rw [he]
      exact ⟨Nat.le_add_right_of_le hb.start_le,hb.head_zero⟩
    · rw [he]
      obtain ⟨hle,hframe,hhead⟩ := wound_compact b
      refine ⟨Nat.le_add_right_of_le hle,?_⟩
      simp only [StreamBuffer.store, hframe, hhead]
      exact hb.head_zero
  | getNextFrame => exact hb.afterFrame.1
  | release => exact ⟨le_rfl,fun _ => rfl⟩
  | clearBuffer => exact ⟨le_rfl,hb.head_zero⟩

theorem step_wound {s t : Traced} {c : StreamCall} (hs : s.buf.Wound) (h : s.step c = some t) :
    t.buf.Wound := by
  cases h
  exact hs.call c

theorem wound_fresh : fresh.Wound := ⟨le_rfl,fun _ => rfl⟩

/-- A frame that is not empty uses up unread bytes. -/
theorem Wound.decreases (hb : b.Wound) (hn : b.m_frameLen ≠ 0) (hframe : ¬ b.NoFrame) :
    b.afterFrame.unreadLen < b.unreadLen ∧ 0 ≤ b.afterFrame.unreadLen := by
  obtain ⟨pos,hsp,_,_,_,⟨hnone,_⟩ | ⟨_,_,hlen,hs⟩⟩ := getNextFrame_cases hb.start_le
  · exact absurd hnone hframe
  · rw [unread_length] at hlen
    simp only [StreamBuffer.afterFrame, hs, unreadLen, seek] at hlen ⊢
    omega

theorem Wound.iterate (hb : b.Wound) (n : ℕ) :
    (StreamBuffer.afterFrame^[n] b).Wound ∧
      (StreamBuffer.afterFrame^[n] b).m_frameLen = b.m_frameLen := by
  induction n with
  | zero => exact ⟨hb,rfl⟩
  | succ n ih =>
    rw [Function.iterate_succ_apply']
    exact ⟨ih.1.afterFrame.1,ih.1.afterFrame.2.trans ih.2⟩

theorem Wound.ends (hb : b.Wound) (hn : b.m_frameLen ≠ 0) : Ends StreamBuffer.afterFrame NoFrame b := by
  refine ends_of_measure (P := fun c => c.Wound ∧ c.m_frameLen ≠ 0) (fun c => c.unreadLen.toNat) ?_ ⟨hb,hn⟩
  rintro c ⟨hc,hcn⟩
  by_cases hdone : c.NoFrame
  · exact .inl (ends_of_done hdone)
  · obtain ⟨hkept,hlen⟩ := hc.afterFrame
    obtain ⟨hlt,hnonneg⟩ := hc.decreases hcn hdone
    refine .inr ⟨1,⟨hkept,hlen ▸ hcn⟩,?_⟩
    simp only [Function.iterate_one]
    omega

/-- Without a frame length every call returns the empty frame and changes nothing. -/
theorem getNextFrame_of_zero (hb : b.Wound) (hzero : b.m_frameLen = 0) :
    b.getNextFrame = (some [],b,[]) := by
  have hle := hb.start_le
  have hfind : b.findStartFrameHeaderPos = (true,b,[]) := if_pos (hb.head_zero hzero)
  have hlen : ¬ (b.m_endPos : ℤ) - b.m_startPos < b.m_frameLen := by omega
  have hempty : Memory.segment b.m_dataBuffer b.m_startPos b.m_frameLen = [] := by
    rw [hzero, Memory.segment_zero]
  have hstay : b.m_startPos + b.m_frameLen = b.m_startPos := by omega
  rw [getNextFrame, if_neg hlen, hfind, if_pos rfl]
  simp only [if_neg hlen, hempty, hstay]

theorem drains_iff (hb : b.Wound) : b.Drains ↔ b.m_frameLen ≠ 0 := by
  constructor
  · intro h hzero
    have hsame := getNextFrame_of_zero hb hzero
    refine not_ends_of_invariant (P := (· = b)) ?_ ?_ rfl h.ends
    · rintro c rfl
      rw [afterFrame, hsame]
    · rintro c rfl hnone
      rw [NoFrame, hsame] at hnone
      cases hnone
  · intro hn
    refine ⟨hb.ends hn,?_⟩
    intro n hframe
    obtain ⟨hkept,hlen⟩ := hb.iterate n
    rw [Function.iterate_succ_apply']
    exact (hkept.decreases (hlen ▸ hn) hframe).1

/-- Behind this history taking frames ends, each shortening the rest. A write that left `m_dataBuffer`
would have gone over the counters, and nothing could be said of them. -/
structure DrainsAfter (calls : List StreamCall) (s : Traced) : Prop where
  inside : EveryState Traced.step Traced.Inside Traced.start calls
  drains : s.buf.Drains

/-- A frame length is configured where the draining begins, and every accepted block fitted behind
what was unread. -/
structure Configured (calls : List StreamCall) (s : Traced) : Prop where
  fits : EveryStep Traced.step Traced.FitsUnread Traced.start calls
  frameLen : s.buf.m_frameLen ≠ 0

/-- Behind every history taking frames ends just when a frame length is configured and no block went
over the end of the buffer. -/
theorem history_drains_iff {calls : List StreamCall} {s : Traced}
    (h : exec Traced.step Traced.start calls = some s) : DrainsAfter calls s ↔ Configured calls s := by
  have hwound : s.buf.Wound :=
    exec_preserves (fun _ _ _ hs ht => step_wound hs ht) h wound_fresh
  constructor
  · rintro ⟨hinside,hdrains⟩
    exact ⟨(storage_inside_iff calls).mpr hinside,(drains_iff hwound).mp hdrains⟩
  · rintro ⟨hfits,hlen⟩
    exact ⟨(storage_inside_iff calls).mp hfits,(drains_iff hwound).mpr hlen⟩

/-- Two bytes behind a configuration of frames of one byte. -/
theorem history_drains_iff_two_bytes : ∃ s, exec Traced.step Traced.start
      [.init [53,53] 1,.append [1,2]] = some s ∧
    (DrainsAfter [.init [53,53] 1,.append [1,2]] s ↔ Configured [.init [53,53] 1,.append [1,2]] s) :=
  ⟨_,rfl,history_drains_iff rfl⟩

/-- A constructed buffer hands out empty frames for ever, and so does one that was released. -/
theorem unconfigured_never_drains :
    ¬ fresh.Drains ∧ ∃ s, exec Traced.step Traced.start [.init [53,53] 1,.append [1,2],.release] = some s ∧
      ¬ s.buf.Drains := by
  have hfresh : ¬ fresh.Drains := mt (drains_iff wound_fresh).mp (not_not_intro rfl)
  refine ⟨hfresh,_,rfl,?_⟩
  refine mt (drains_iff ?_).mp (not_not_intro rfl)
  exact ⟨le_rfl,fun _ => rfl⟩

end OctCommu.Util.StreamBuffer
