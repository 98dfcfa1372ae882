import OctCommu.Lib.Runs
import OctCommu.Util.StreamBuffer

/-! # `StreamBuffer` cuts a stream into frames

However the stream is cut into blocks and whenever frames are asked for, a buffer
hands out the frames of the whole stream: it only ever passes over bytes that no
continuation can make part of a frame.
-/
namespace OctCommu.Util.StreamBuffer
open Framing Memory Runs
variable {head : List UInt8} {n : ℕ}

/-- An empty buffer for frames of length `n` that start with `head`. -/
def configured (head : List UInt8) (n : ℕ) : StreamBuffer where
  __ := fresh
  m_head := memcpy fresh.m_head 0 head
  m_headValidLen := head.length
  m_frameLen := n

-- the text `AA 55`
example : (fresh.init [65,65,32,53,53] 4).2.1 = configured [170,85] 4 := rfl

/-- A buffer with the appended stream and the frames returned so far, each copied on return. -/
structure Framer where
  buf : StreamBuffer
  appended : List UInt8
  frames : List (List UInt8)

def Framer.start (head : List UInt8) (n : ℕ) : Framer := ⟨configured head n,[],[]⟩

inductive FramerCall where
  | append (pdata : List UInt8)
  | getNextFrame

def Framer.step (s : Framer) : FramerCall → Option Framer
  | .append pdata => some { s with
      buf := (s.buf.append pdata).1
      appended := s.appended ++ pdata }
  | .getNextFrame =>
    let r := s.buf.getNextFrame
    some { s with buf := r.2.1, frames := s.frames ++ r.1.toList }

/-- Blocks are smaller than the buffer and fit behind what is unread. -/
def Framer.Admitted (s : Framer) : FramerCall → Prop
  | .append pdata => pdata.length < MAX_BUFFER_LEN ∧
      s.buf.m_endPos - s.buf.m_startPos + pdata.length ≤ MAX_BUFFER_LEN
  | .getNextFrame => True

instance (s : Framer) : DecidablePred s.Admitted
  | .append _ => inferInstanceAs (Decidable (_ ∧ _))
  | .getNextFrame => isTrue trivial

/-- Calls of `getNextFrame` until one returns `false`; `none` when the fuel ends first. -/
def drain : ℕ → StreamBuffer → Option (List (List UInt8))
  | 0, _ => none
  | k + 1, b =>
    let r := b.getNextFrame
    match r.1 with
    | none => some []
    | some frame => (drain k r.2.1).map (frame :: ·)

structure Reads (head : List UInt8) (n : ℕ) (b : StreamBuffer) : Prop where
  sane : Sane b
  header_eq : b.header = head
  frameLen_eq : b.m_frameLen = n

theorem reads_configured (hhead : head.length ≤ FRAME_HEAD_LEN) : Reads head n (configured head n) :=
  ⟨⟨le_rfl,Nat.zero_le _,rfl,hhead⟩,segment_memcpy_self _ 0 head,rfl⟩

theorem Reads.append {b : StreamBuffer} (hb : Reads head n b) {pdata : List UInt8}
    (hlt : pdata.length < MAX_BUFFER_LEN)
    (hfit : b.m_endPos - b.m_startPos + pdata.length ≤ MAX_BUFFER_LEN) :
    Reads head n (b.append pdata).1 ∧ (b.append pdata).1.unread = b.unread ++ pdata := by
  obtain ⟨hs,hh,hn⟩ := hb
  have hsane : Sane (b.append pdata).1 := (hs.append (.inr (by rw [hs.total]; exact hfit))).1
  obtain ⟨hbig,_⟩ | ⟨_,_,he⟩ | ⟨_,_,he⟩ := append_cases b pdata
  · rw [hs.total] at hbig
    omega
  · rw [he] at hsane ⊢
    exact ⟨⟨hsane,hh,hn⟩,unread_store hs.start_le pdata⟩
  · rw [he] at hsane ⊢
    obtain ⟨hch,hcn⟩ := compact_frame b
    refine ⟨⟨hsane,hch.trans hh,hcn.trans hn⟩,?_⟩
    rw [← unread_compact b]
    exact unread_store hs.compact.1.start_le pdata

/-- A call returns the next frame of the stream whatever is appended later; without a frame to
return, there is none in the bytes that are there. -/
theorem Reads.getNextFrame {b : StreamBuffer} (hb : Reads head n b) (hn : 0 < n) :
    Reads head n b.getNextFrame.2.1 ∧
    (∀ rest, scan head n (b.unread ++ rest) =
      b.getNextFrame.1.toList ++ scan head n (b.getNextFrame.2.1.unread ++ rest)) ∧
    (b.getNextFrame.1 = none → scan head n b.unread = []) ∧
    (b.getNextFrame.1 ≠ none → b.getNextFrame.2.1.unread.length < b.unread.length) := by
  obtain ⟨hs,rfl,rfl⟩ := hb
  have hsane := hs.getNextFrame.1
  obtain ⟨pos,_,_,hskip,_,⟨hr,hst,hshort⟩ | ⟨hr,hpre,hlen,hst⟩⟩ := getNextFrame_cases hs.start_le
  · rw [hst] at hsane
    rw [hr, hst]
    refine ⟨⟨hsane,rfl,rfl⟩,fun rest => hskip.scan_append hn rest,fun _ => ?_,fun h => absurd rfl h⟩
    have hsame := hskip.scan_append hn []
    rw [List.append_nil, List.append_nil] at hsame
    rw [hsame]
    exact hshort.elim scan_of_lt scan_of_short
  · rw [hst] at hsane
    have hrest : (b.seek (pos + b.m_frameLen)).unread = (b.seek pos).unread.drop b.m_frameLen :=
      unread_seek_add (b.seek pos) b.m_frameLen
    rw [hr, hst, hrest]
    refine ⟨⟨hsane,rfl,rfl⟩,?_,nofun,fun _ => ?_⟩
    · intro rest
      rw [hskip.scan_append hn rest]
      exact scan_append_of_match hn hpre hlen rest
    · have hle := hskip.length_le
      rw [List.length_drop]
      omega

theorem drain_eq {b : StreamBuffer} (hb : Reads head n b) (hn : 0 < n) {k : ℕ}
    (hk : b.unread.length < k) : drain k b = some (scan head n b.unread) := by
  induction k generalizing b with
  | zero => omega
  | succ k ih =>
    obtain ⟨hb',hscan,hnone,hlt⟩ := hb.getNextFrame hn
    have hscan := hscan []
    rw [List.append_nil, List.append_nil] at hscan
    simp only [drain]
    cases hr : b.getNextFrame.1 with
    | none => rw [hnone hr]
    | some frame =>
      have hlt := hlt (by simp [hr])
      rw [hr] at hscan
      rw [ih hb' (by omega), hscan]
      rfl

/-- The invariant: the frames so far, then those the unread bytes still make, with any end. -/
structure Framer.InStep (head : List UInt8) (n : ℕ) (s : Framer) : Prop where
  reads : Reads head n s.buf
  frames : ∀ rest, scan head n (s.appended ++ rest) = s.frames ++ scan head n (s.buf.unread ++ rest)

theorem Framer.inStep_start (hhead : head.length ≤ FRAME_HEAD_LEN) :
    (Framer.start head n).InStep head n :=
  ⟨reads_configured hhead,fun _ => rfl⟩

theorem Framer.step_inStep {s t : Framer} {c : FramerCall} (hn : 0 < n) (hs : s.InStep head n)
    (hc : s.Admitted c) (h : s.step c = some t) : t.InStep head n := by
  cases c with
  | append pdata =>
    cases h
    obtain ⟨hb,hu⟩ := hs.reads.append hc.1 hc.2
    refine ⟨hb,fun rest => ?_⟩
    rw [hu, List.append_assoc, List.append_assoc]
    exact hs.frames (pdata ++ rest)
  | getNextFrame =>
    cases h
    obtain ⟨hb,hscan,_⟩ := hs.reads.getNextFrame hn
    refine ⟨hb,fun rest => ?_⟩
    rw [hs.frames rest, hscan rest, List.append_assoc]

/-- After any admitted calls a drain completes the frames of the whole appended stream. -/
theorem frames_eq_scan (hhead : head.length ≤ FRAME_HEAD_LEN) (hn : 0 < n) (calls : List FramerCall)
    (hc : EveryStep Framer.step Framer.Admitted (Framer.start head n) calls) :
    EveryState Framer.step
      (fun s => ∃ rest, drain (s.buf.unread.length + 1) s.buf = some rest ∧
        s.frames ++ rest = scan head n s.appended) (Framer.start head n) calls := by
  refine (hc.preserves (fun s c t hs ha h => Framer.step_inStep hn hs ha h)
    (Framer.inStep_start hhead)).mono fun s hs => ?_
  refine ⟨scan head n s.buf.unread,drain_eq hs.reads hn (Nat.lt_succ_self _),?_⟩
  have h := hs.frames []
  rw [List.append_nil, List.append_nil] at h
  exact h.symm

/-- A header of two bytes that arrives in two blocks, before frames of one byte. -/
theorem frames_eq_scan_split_header :
    EveryState Framer.step
      (fun s => ∃ rest, drain (s.buf.unread.length + 1) s.buf = some rest ∧
        s.frames ++ rest = scan [170,85] 1 s.appended) (Framer.start [170,85] 1)
      [.append [3,170],.getNextFrame,.append [85,170],.getNextFrame,.append [85]] :=
  frames_eq_scan (by decide) (by decide) _ (by decide)

end OctCommu.Util.StreamBuffer
