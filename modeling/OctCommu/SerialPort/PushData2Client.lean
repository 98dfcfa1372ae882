import OctCommu.Lib.Loops
import OctCommu.SerialPort.SPBuffer
import OctCommu.SerialPort.ReceivePath
import Mathlib.Data.Nat.Find

/-! # The loop of `pushData2Client`

Every round reads `next_read_len_` again and consumes so many bytes. The loop ends
when a round asks for more than is left, so it ends just when the lengths read add
up to more than the buffer held. A length of zero consumes nothing.
-/
namespace OctCommu.SerialPort.Receive
open Loops Memory

/-- What the rounds of one run read: the length, and whether a callback is set. -/
structure Reads where
  next_read_len_ : ℕ → UInt32
  recv_func_ : ℕ → Bool

/-- A run at the head of its loop. -/
structure Pushing where
  sp_buf_tmp : SPBuffer MAX_SEND_BUFFER_LEN
  round : ℕ
  delivered : List (List UInt8)

/-- The lock section: what is left in `sp_buf_`, and the run that begins. -/
def pushData2Client (sp_buf_ : SPBuffer MAX_SEND_BUFFER_LEN) :
    SPBuffer MAX_SEND_BUFFER_LEN × Pushing :=
  let r := sp_buf_.data .fresh
  (r.1,⟨r.2,0,[]⟩)

/-- The test that leaves the loop. -/
def Pushing.done (reads : Reads) (p : Pushing) : Prop :=
  p.sp_buf_tmp.validLen < (reads.next_read_len_ p.round).toNat

def Pushing.next (reads : Reads) (p : Pushing) : Pushing :=
  let next_read_len := (reads.next_read_len_ p.round).toNat
  { -- the result of `addBegin` is not looked at
    sp_buf_tmp := (p.sp_buf_tmp.addBegin next_read_len).2
    round := p.round + 1
    delivered :=
      if reads.recv_func_ p.round then
        p.delivered ++ [segment p.sp_buf_tmp.data_ p.sp_buf_tmp.begin_ next_read_len]
      else p.delivered }

/-- The sum of the lengths read in the first rounds. -/
def Reads.total (reads : Reads) : ℕ → ℕ
  | 0 => 0
  | n + 1 => reads.total n + (reads.next_read_len_ n).toNat

/-- The round a run is in and the bytes it has left of `len`. -/
structure Pushing.Left (reads : Reads) (len : ℕ) (p : Pushing) : Prop where
  ordered : p.sp_buf_tmp.Ordered
  balance : p.sp_buf_tmp.validLen + reads.total p.round = len

variable {sp_buf_ : SPBuffer MAX_SEND_BUFFER_LEN} {reads : Reads} {p : Pushing} {len : ℕ}

theorem pushData2Client_left (hb : sp_buf_.Ordered) (reads : Reads) :
    (pushData2Client sp_buf_).2.Left reads sp_buf_.validLen := by
  refine ⟨hb.data.2,?_⟩
  have hread := (SPBuffer.readable_data hb .fresh).2
  have hvalid := congrArg List.length hread
  rwa [SPBuffer.readable_length, SPBuffer.readable_length] at hvalid

/-- A round that does not leave the loop consumes what it reads. -/
theorem Pushing.Left.next (hp : p.Left reads len) (hd : ¬ p.done reads) :
    (p.next reads).Left reads len := by
  have hle : (reads.next_read_len_ p.round).toNat ≤ p.sp_buf_tmp.validLen := Nat.le_of_not_lt hd
  have hadd := SPBuffer.addBegin_of_le hp.ordered (by decide) hle
  have hbal := hp.balance
  constructor
  · exact hp.ordered.addBegin _
  · simp only [Pushing.next, hadd, Reads.total, SPBuffer.validLen] at hbal hle ⊢
    omega

theorem Pushing.Left.done_iff (hp : p.Left reads len) :
    p.done reads ↔ len < reads.total (p.round + 1) := by
  have hbal := hp.balance
  simp only [Pushing.done, Reads.total]
  omega

theorem left_iterate (hp : p.Left reads len) {n : ℕ}
    (h : ∀ k < n, reads.total (p.round + k + 1) ≤ len) :
    ((Pushing.next reads)^[n] p).Left reads len ∧
      ((Pushing.next reads)^[n] p).round = p.round + n := by
  induction n with
  | zero => exact ⟨hp,rfl⟩
  | succ n ih =>
    obtain ⟨hleft,hround⟩ := ih fun k hk => h k (Nat.lt_succ_of_lt hk)
    rw [Function.iterate_succ_apply']
    refine ⟨hleft.next ?_,?_⟩
    · rw [hleft.done_iff, hround]
      exact Nat.not_lt.mpr (h n (Nat.lt_succ_self n))
    · rw [Pushing.next, hround]
      rfl

/-- A run of `pushData2Client` returns just when the lengths its rounds read exceed the buffer. -/
theorem pushData2Client_returns_iff (hb : sp_buf_.Ordered) (reads : Reads) :
    Ends (Pushing.next reads) (Pushing.done reads) (pushData2Client sp_buf_).2 ↔
      ∃ k, sp_buf_.validLen < reads.total (k + 1) := by
  have hleft := pushData2Client_left hb reads
  constructor
  · intro hends
    by_contra h
    have hnone : ∀ k, reads.total (k + 1) ≤ sp_buf_.validLen :=
      fun k => Nat.le_of_not_lt fun hk => h ⟨k,hk⟩
    -- no round can leave the loop
    refine not_ends_of_invariant (P := Pushing.Left reads sp_buf_.validLen) ?_ ?_ hleft hends
    · intro q hq
      refine hq.next ?_
      rw [hq.done_iff]
      exact Nat.not_lt.mpr (hnone q.round)
    · intro q hq
      rw [hq.done_iff]
      exact Nat.not_lt.mpr (hnone q.round)
  · intro h
    let k := Nat.find h
    have hbefore : ∀ i < k, reads.total (0 + i + 1) ≤ sp_buf_.validLen := by
      intro i hi
      rw [Nat.zero_add]
      exact Nat.le_of_not_lt (Nat.find_min h hi)
    obtain ⟨hl,hround⟩ := left_iterate hleft hbefore
    refine ⟨k,hl.done_iff.mpr ?_⟩
    rw [hround]
    show sp_buf_.validLen < reads.total (0 + k + 1)
    rw [Nat.zero_add]
    exact Nat.find_spec h

/-- Two bytes in chunks of one. -/
theorem pushData2Client_returns_chunks :
    Ends (Pushing.next ⟨fun _ => 1,fun _ => true⟩) (Pushing.done ⟨fun _ => 1,fun _ => true⟩)
      (pushData2Client (SPBuffer.fresh.append [1,2]).2).2 :=
  (pushData2Client_returns_iff ((SPBuffer.ordered_reset _).append [1,2]) _).mpr ⟨2,by decide⟩

theorem total_zero (recv_func_ : ℕ → Bool) (n : ℕ) : Reads.total ⟨fun _ => 0,recv_func_⟩ n = 0 := by
  induction n with
  | zero => rfl
  | succ n ih => simp [Reads.total, ih]

/-- After `setNextReadLen(0)` one received byte keeps the run for ever. -/
theorem zero_length_never_returns :
    ¬ Ends (Pushing.next ⟨fun _ => 0,fun _ => true⟩) (Pushing.done ⟨fun _ => 0,fun _ => true⟩)
      (pushData2Client (SPBuffer.fresh.append [1]).2).2 := by
  have hord : (SPBuffer.fresh.append [1] : ℕ × SPBuffer MAX_SEND_BUFFER_LEN).2.Ordered :=
    (SPBuffer.ordered_reset _).append [1]
  have hall : ∀ p, Pushing.Left ⟨fun _ => 0,fun _ => true⟩ 1 p →
      ¬ p.done ⟨fun _ => 0,fun _ => true⟩ := by
    intro p hp
    rw [hp.done_iff, total_zero]
    exact Nat.not_lt_zero 1
  exact not_ends_of_invariant (fun p hp => hp.next (hall p hp)) hall (pushData2Client_left hord _)

end OctCommu.SerialPort.Receive
