import OctCommu.Lib.Runs
import OctCommu.Util.StreamBuffer

/-! # The storage of `StreamBuffer`

`append` refuses a block that is larger than the whole buffer but does not look at
what is still unread, so the buffer stays inside its array exactly on the histories
in which every accepted block finds room behind the unread bytes.
-/
namespace OctCommu.Util.StreamBuffer
open Runs

inductive StreamCall where
  | init (sp_head : List UInt8) (frame_len : ℤ)
  | append (pdata : List UInt8)
  | getNextFrame
  | release
  | clearBuffer

def call (b : StreamBuffer) : StreamCall → StreamBuffer × List Access
  | .init sp_head frame_len => (b.init sp_head frame_len).2
  | .append pdata => b.append pdata
  | .getNextFrame => b.getNextFrame.2
  | .release => b.release
  | .clearBuffer => b.clearBuffer

structure Traced where
  buf : StreamBuffer
  accesses : List Access

def Traced.start : Traced := ⟨fresh,[]⟩

def Traced.step (s : Traced) (c : StreamCall) : Option Traced :=
  let r := s.buf.call c
  some ⟨r.1,s.accesses ++ r.2⟩

/-- The cursors are in order and no access has left its array. -/
structure Traced.Inside (s : Traced) : Prop where
  start_le : s.buf.m_startPos ≤ s.buf.m_endPos
  end_le : s.buf.m_endPos ≤ s.buf.m_totalBufferLen
  accesses : ∀ a ∈ s.accesses, a.Inside

/-- A block that is not refused fits behind the unread bytes. -/
def Traced.FitsUnread (s : Traced) : StreamCall → Prop
  | .append pdata => s.buf.m_totalBufferLen ≤ pdata.length ∨
      s.buf.m_endPos - s.buf.m_startPos + pdata.length ≤ s.buf.m_totalBufferLen
  | _ => True

theorem Sane.call {s : Traced} (hb : Sane s.buf) {c : StreamCall} (hc : s.FitsUnread c) :
    Sane (s.buf.call c).1 ∧ ∀ a ∈ (s.buf.call c).2, a.Inside := by
  cases c with
  | init sp_head frame_len => exact hb.init sp_head frame_len
  | append pdata => exact hb.append hc
  | getNextFrame => exact hb.getNextFrame
  | release =>
    refine ⟨⟨le_rfl,Nat.zero_le _,hb.total,Nat.zero_le _⟩,?_⟩
    intro a ha
    obtain rfl := List.mem_singleton.mp ha
    exact Nat.le_of_eq (Nat.zero_add _)
  | clearBuffer =>
    refine ⟨⟨le_rfl,Nat.zero_le _,hb.total,hb.head_le⟩,?_⟩
    intro a ha
    obtain rfl := List.mem_singleton.mp ha
    exact Nat.le_of_eq (Nat.zero_add _)

def Traced.Kept (s : Traced) : Prop := Sane s.buf ∧ s.Inside

theorem kept_start : Traced.start.Kept := ⟨sane_fresh,le_rfl,Nat.zero_le _,nofun⟩

theorem step_kept {s t : Traced} {c : StreamCall} (hs : s.Kept) (hc : s.FitsUnread c)
    (h : s.step c = some t) : t.Kept := by
  cases h
  obtain ⟨hb,ha⟩ := hs.1.call hc
  refine ⟨hb,hb.start_le,hb.end_le,?_⟩
  intro a hmem
  rcases List.mem_append.mp hmem with hmem | hmem
  · exact hs.2.accesses a hmem
  · exact ha a hmem

theorem fitsUnread_of_inside {s t : Traced} {c : StreamCall} (hs : Sane s.buf)
    (h : s.step c = some t) (ht : t.Inside) : s.FitsUnread c := by
  cases c with
  | append pdata =>
    cases h
    have hse := hs.start_le
    have hend := ht.end_le
    simp only [Traced.FitsUnread]
    simp only [call] at hend
    obtain ⟨hbig,_⟩ | ⟨_,hfit,_⟩ | ⟨_,_,he⟩ := append_cases s.buf pdata
    · exact .inl hbig
    · exact .inr (by omega)
    · rw [he] at hend
      simp only [StreamBuffer.store, (compact_positions s.buf).2,
        hs.compact.1.total.trans hs.total.symm] at hend
      exact .inr hend
  | _ => trivial

/-- A history stays inside the arrays exactly when every accepted block fits behind the bytes that
are unread at that moment. -/
theorem storage_inside_iff (calls : List StreamCall) :
    EveryStep Traced.step Traced.FitsUnread Traced.start calls ↔
      EveryState Traced.step Traced.Inside Traced.start calls :=
  everyStep_iff_everyState kept_start (fun _ hs => hs.2)
    (fun _ _ _ hs hc h => step_kept hs hc h)
    (fun _ _ _ hs h ht => fitsUnread_of_inside hs.1 h ht)

/-- Two blocks that are accepted one by one but are too long together. -/
theorem append_append_leaves {x y : List UInt8} (hx : x.length < MAX_BUFFER_LEN)
    (hy : y.length < MAX_BUFFER_LEN) (hxy : MAX_BUFFER_LEN < x.length + y.length) :
    ¬ EveryState Traced.step Traced.Inside Traced.start [.append x,.append y] := by
  intro h
  have hroom : 0 + x.length ≤ fresh.m_totalBufferLen := by
    rw [Nat.zero_add]
    exact Nat.le_of_lt hx
  have hs := (sane_fresh.append (.inr hroom)).1
  have hend : (fresh.append x).1.m_endPos = x.length ∧ (fresh.append x).1.m_startPos = 0 := by
    obtain ⟨hbig,_⟩ | ⟨_,_,he⟩ | ⟨_,hfull,_⟩ := append_cases fresh x
    · exact absurd hbig (Nat.not_le.mpr hx)
    · rw [he]
      exact ⟨Nat.zero_add _,rfl⟩
    · exact absurd hroom (Nat.not_le.mpr hfull)
  have hfits : (fresh.append x).1.m_totalBufferLen ≤ y.length ∨
      (fresh.append x).1.m_endPos - (fresh.append x).1.m_startPos + y.length ≤
        (fresh.append x).1.m_totalBufferLen :=
    fitsUnread_of_inside hs rfl ((h.2 _ rfl).2 _ rfl).head
  rw [hs.total] at hfits
  omega

/-- Two blocks of 50000 bytes in a row end 18080 bytes behind the array. -/
theorem two_blocks_leave_storage : ¬ EveryState Traced.step Traced.Inside Traced.start
    [.append (List.replicate 50000 0),.append (List.replicate 50000 0)] := by
  have hlen : (List.replicate 50000 (0 : UInt8)).length = 50000 := List.length_replicate
  exact append_append_leaves (by rw [hlen]; decide) (by rw [hlen]; decide) (by rw [hlen]; decide)

end OctCommu.Util.StreamBuffer
