import OctCommu.Lib.Runs
import OctCommu.Util.FixedBuffer

/-! # The read thread of the Windows port

A round asks `ReadFile` for `next_read_len_` bytes, a member that other threads set.
Every use of it in a round is a read of its own, so a round has three values of it,
beside the number of bytes the driver reports.
-/
namespace OctCommu.SerialPort.SPWin
open Memory Runs Util

inductive OPERATE_MODE where
  | OM_ASYNC
  | OM_SYNC
  deriving DecidableEq

def sp_recv_max_len : ℕ := 1024 * 60

/-- What `ReadFile` returns: `TRUE` with these bytes, `FALSE` with the read pending, which
`GetOverlappedResult` completes or not, or `FALSE` with another error. -/
inductive ReadResult where
  | done (bytes : List UInt8)
  | pending (completed : Option (List UInt8))
  | failed

/-- The bytes that the driver reports as read. -/
def ReadResult.bytes : ReadResult → List UInt8
  | .done bytes => bytes
  | .pending completed => completed.getD []
  | .failed => []

/-- A round with a call of `ReadFile`: `next_read_len_` as it is requested, counted and delivered, and
whether `recv_func_` is set. -/
structure Round where
  request : UInt32
  counted : UInt32
  delivered : UInt32
  result : ReadResult
  recv_func_ : Bool

/-- The thread, with the lengths it has asked for, the bytes reported to it, their number since
`recvSpeed` last looked, and the bytes it has passed on. -/
structure Reader where
  operate_mode_ : OPERATE_MODE
  recv_data_buffer : FixedBuffer sp_recv_max_len
  recv_bytes_count_ : UInt32
  asked : List ℕ
  reported : List UInt8
  unread : ℕ
  passed : List UInt8

namespace Reader

def start (mode : OPERATE_MODE) : Reader := ⟨mode,.fresh,0,[],[],0,[]⟩

/-- What `ReadFile` does: it writes to `current()` what it reports. -/
def ReadFile (s : Reader) (r : Round) : Reader :=
  { s with
    recv_data_buffer := { s.recv_data_buffer with
      data_ := memcpy s.recv_data_buffer.data_ s.recv_data_buffer.cur_ r.result.bytes }
    asked := s.asked ++ [r.request.toNat]
    reported := s.reported ++ r.result.bytes
    unread := s.unread + r.result.bytes.length }

/-- The count, and the callback if there is one. -/
def deliver (s : Reader) (count : UInt32) (r : Round) : Reader :=
  let s := { s with recv_bytes_count_ := s.recv_bytes_count_ + count }
  if r.recv_func_ then
    { s with
      passed := s.passed ++ segment s.recv_data_buffer.data_ 0 r.delivered.toNat
      recv_data_buffer := s.recv_data_buffer.reset }
  else s

/-- A round of `recvTheadFunc`; only an asynchronous read can be pending. -/
def round (s : Reader) (r : Round) : Option Reader :=
  match s.operate_mode_, r.result with
  | .OM_ASYNC, .done _ => some ((s.ReadFile r).deliver r.counted r)
  | .OM_ASYNC, _ => some (s.ReadFile r)
  | .OM_SYNC, .done bytes => some ((s.ReadFile r).deliver (UInt32.ofNat bytes.length) r)
  | .OM_SYNC, .failed => some (s.ReadFile r)
  | .OM_SYNC, .pending _ => none

end Reader

inductive Label where
  | emptyQueue
  | read (r : Round)
  | recvSpeed

/-- The driver reads no more than it is asked for. -/
def step (s : Reader) : Label → Option Reader
  | .emptyQueue => if s.operate_mode_ = .OM_ASYNC then some s else none
  | .read r => if r.result.bytes.length ≤ r.request.toNat then s.round r else none
  | .recvSpeed => some { s with recv_bytes_count_ := 0, unread := 0 }

/-- No request leaves the array, and what was read was passed on and counted. -/
structure Delivers (s : Reader) : Prop where
  inside : ∀ len ∈ s.asked, len ≤ sp_recv_max_len
  passed : s.passed = s.reported
  counted : s.recv_bytes_count_ = UInt32.ofNat s.unread

/-- The values of `next_read_len_` in the round are the number of bytes the driver reports at once, and
there is a callback for them; a read that is pending brings nothing. -/
def Round.Whole (mode : OPERATE_MODE) (r : Round) : Prop :=
  r.request.toNat ≤ sp_recv_max_len ∧
    match r.result with
    | .done bytes =>
      (mode = .OM_ASYNC → r.counted.toNat = bytes.length) ∧
        if r.recv_func_ then r.delivered.toNat = bytes.length else bytes = []
    | .pending completed => completed.getD [] = []
    | .failed => True

def Admitted (s : Reader) : Label → Prop
  | .read r => r.Whole s.operate_mode_
  | _ => True

/-- The invariant: `moveTo` is never called, so the bytes are read to the start of the array. -/
structure Inv (s : Reader) : Prop where
  delivers : Delivers s
  front : s.recv_data_buffer.cur_ = 0

variable {s t : Reader} {r : Round}

theorem inv_start (mode : OPERATE_MODE) : Inv (.start mode) :=
  ⟨⟨by simp [Reader.start],rfl,rfl⟩,rfl⟩

theorem ofNat_add_eq_iff {m n : ℕ} {x : UInt32} (h : n < 4294967296) :
    UInt32.ofNat m + x = UInt32.ofNat (m + n) ↔ x.toNat = n := by
  rw [UInt32.ofNat_add, UInt32.add_right_inj, ← UInt32.toNat_inj, UInt32.toNat_ofNat_of_lt' h]

/-- The callback gets what was read exactly when it is told the right length. -/
theorem segment_read_eq_iff (m : ℕ → UInt8) (bytes : List UInt8) (n : ℕ) :
    segment (memcpy m 0 bytes) 0 n = bytes ↔ n = bytes.length := by
  constructor
  · intro h
    rw [← congrArg List.length h, segment_length]
  · rintro rfl
    exact segment_memcpy_self m 0 bytes

theorem ReadFile_delivers_iff (h : Inv s) :
    Delivers (s.ReadFile r) ↔ r.request.toNat ≤ sp_recv_max_len ∧ r.result.bytes = [] := by
  obtain ⟨⟨hinside,hpassed,hcounted⟩,_⟩ := h
  constructor
  · intro hd
    refine ⟨hd.inside _ (by simp [Reader.ReadFile]),?_⟩
    have hpass : s.passed = s.reported ++ r.result.bytes := hd.passed
    rw [hpassed] at hpass
    simpa using hpass
  · rintro ⟨hlen,hnil⟩
    refine ⟨?_,?_,?_⟩
    · intro len hmem
      rcases List.mem_append.mp hmem with hmem | hmem
      · exact hinside len hmem
      · rwa [List.mem_singleton.mp hmem]
    · simp only [Reader.ReadFile, hnil, List.append_nil, hpassed]
    · simp only [Reader.ReadFile, hnil, List.length_nil, Nat.add_zero, hcounted]

/-- A round that passes on what it has read. -/
theorem deliver_delivers_iff (h : Inv s) {count : UInt32}
    (hle : r.result.bytes.length ≤ r.request.toNat) :
    Delivers ((s.ReadFile r).deliver count r) ↔ r.request.toNat ≤ sp_recv_max_len ∧
      count.toNat = r.result.bytes.length ∧
      if r.recv_func_ then r.delivered.toNat = r.result.bytes.length else r.result.bytes = [] := by
  have hlt : r.result.bytes.length < 4294967296 := Nat.lt_of_le_of_lt hle r.request.toNat_lt
  have hcount : ((s.ReadFile r).deliver count r).recv_bytes_count_ =
      UInt32.ofNat ((s.ReadFile r).deliver count r).unread ↔ count.toNat = r.result.bytes.length := by
    rw [← ofNat_add_eq_iff hlt (m := s.unread), ← h.delivers.counted]
    unfold Reader.deliver
    split_ifs <;> rfl
  have hasked : ((s.ReadFile r).deliver count r).asked = s.asked ++ [r.request.toNat] := by
    unfold Reader.deliver
    split_ifs <;> rfl
  have hpassed : ((s.ReadFile r).deliver count r).passed = ((s.ReadFile r).deliver count r).reported ↔
      if r.recv_func_ then r.delivered.toNat = r.result.bytes.length else r.result.bytes = [] := by
    unfold Reader.deliver
    by_cases hf : r.recv_func_ = true
    · simp only [hf, if_true, Reader.ReadFile, h.front, h.delivers.passed]
      rw [List.append_cancel_left_eq, segment_read_eq_iff]
    · simp only [hf, if_false, Reader.ReadFile, h.delivers.passed, Bool.false_eq_true]
      simp
  constructor
  · rintro ⟨hi,hp,hc⟩
    exact ⟨hi _ (by simp [hasked]),hcount.mp hc,hpassed.mp hp⟩
  · rintro ⟨hlen,hc,hp⟩
    refine ⟨?_,hpassed.mpr hp,hcount.mpr hc⟩
    intro len hmem
    rw [hasked] at hmem
    rcases List.mem_append.mp hmem with hmem | hmem
    · exact h.delivers.inside len hmem
    · rwa [List.mem_singleton.mp hmem]

theorem deliver_front (h : s.recv_data_buffer.cur_ = 0) (count : UInt32) :
    (s.deliver count r).recv_data_buffer.cur_ = 0 := by
  unfold Reader.deliver
  split_ifs
  · rfl
  · exact h

/-- What a round does: only a read that is done at once is delivered. -/
theorem round_cases (ht : s.round r = some t) :
    (∃ bytes, r.result = .done bytes ∧ t = (s.ReadFile r).deliver
      (if s.operate_mode_ = .OM_ASYNC then r.counted else UInt32.ofNat bytes.length) r) ∨
    (∀ bytes, r.result ≠ .done bytes) ∧ t = s.ReadFile r := by
  unfold Reader.round at ht
  split at ht
  · rename_i bytes hm hr
    cases ht
    exact .inl ⟨bytes,hr,by rw [if_pos hm]⟩
  · rename_i hm hne
    cases ht
    exact .inr ⟨hne,rfl⟩
  · rename_i bytes hm hr
    cases ht
    exact .inl ⟨bytes,hr,by rw [hm]; rfl⟩
  · rename_i hm hr
    cases ht
    exact .inr ⟨by rw [hr]; nofun,rfl⟩
  · cases ht

/-- A round keeps what the thread owes exactly when it is a whole one. -/
theorem round_iff (h : Inv s) (hle : r.result.bytes.length ≤ r.request.toNat)
    (ht : s.round r = some t) :
    (Delivers t ↔ r.Whole s.operate_mode_) ∧ t.recv_data_buffer.cur_ = 0 := by
  obtain ⟨bytes,hr,rfl⟩ | ⟨hne,rfl⟩ := round_cases ht
  · refine ⟨?_,deliver_front (s := s.ReadFile r) h.front _⟩
    have hlt : bytes.length < 4294967296 := by
      rw [hr] at hle
      exact Nat.lt_of_le_of_lt hle r.request.toNat_lt
    rw [deliver_delivers_iff h hle, Round.Whole, hr]
    cases s.operate_mode_ with
    | OM_ASYNC => simp [ReadResult.bytes]
    | OM_SYNC => simp [ReadResult.bytes, UInt32.toNat_ofNat_of_lt' hlt]
  · refine ⟨?_,h.front⟩
    rw [ReadFile_delivers_iff h, Round.Whole]
    cases hr : r.result with
    | done bytes => exact absurd hr (hne bytes)
    | pending completed => rfl
    | failed => simp [ReadResult.bytes]

theorem step_iff {a : Label} (h : Inv s) (ht : step s a = some t) :
    (Delivers t ↔ Admitted s a) ∧ t.recv_data_buffer.cur_ = 0 := by
  cases a with
  | emptyQueue =>
    rw [step, Option.ite_none_right_eq_some] at ht
    cases ht.2
    exact ⟨iff_of_true h.delivers trivial,h.front⟩
  | read r =>
    rw [step, Option.ite_none_right_eq_some] at ht
    exact round_iff h ht.1 ht.2
  | recvSpeed =>
    cases ht
    exact ⟨iff_of_true ⟨h.delivers.inside,h.delivers.passed,rfl⟩ trivial,h.front⟩

/-- The thread delivers what it read in the runs of which every round is a whole one, and in no other. -/
theorem delivers_iff_whole (mode : OPERATE_MODE) (labels : List Label) :
    EveryStep step Admitted (.start mode) labels ↔ EveryState step Delivers (.start mode) labels := by
  apply everyStep_iff_everyState (inv_start mode) (fun s hs => hs.delivers)
  · intro s a t hs hc ht
    obtain ⟨hiff,hfront⟩ := step_iff hs ht
    exact ⟨hiff.mpr hc,hfront⟩
  · intro s a t hs ht hp
    exact (step_iff hs ht).1.mp hp

/-- Three bytes come at once where ten were asked for. -/
theorem short_read_not_delivered : ¬ EveryState step Delivers (.start .OM_ASYNC)
    [.read ⟨10,10,10,.done [1,2,3],true⟩] := by
  rintro ⟨_,h⟩
  have hlen := congrArg List.length (h _ rfl).passed
  exact absurd hlen (by decide)

end OctCommu.SerialPort.SPWin
