import OctCommu.Lib.Fifo
import OctCommu.Lib.Runs

/-! # Delivery of received serial bytes

The poller thread stores blocks in `sp_buf_` and queues a run of
`pushData2Client`; the one worker takes the whole buffer into a local one and
hands out chunks of `next_read_len_` bytes. `sp_buf_` is a bounded queue here: where an
`SPBuffer` puts a block behind unread bytes is left to its own development.
-/
namespace OctCommu.SerialPort
open Runs

def MAX_SEND_BUFFER_LEN : ℕ := 1024 * 10

namespace Receive

abbrev ReceiveBuffer := Fifo UInt8 MAX_SEND_BUFFER_LEN

/-- Where the worker is: outside `pushData2Client`, at the head of its loop with
`sp_buf_tmp`, or with a chunk length read and known to be available. -/
inductive Worker where
  | idle
  | loop (sp_buf_tmp : ReceiveBuffer)
  | handing (sp_buf_tmp : ReceiveBuffer) (next_read_len : ℕ)

structure State where
  sp_buf_ : ReceiveBuffer
  next_read_len_ : UInt32
  recv_func_ : Bool
  recv_bytes_ : UInt64
  /-- The poller thread is between the store and the `async` of one `onReadData`. -/
  storing : Bool
  tasks : ℕ
  worker : Worker
  /-- The blocks passed to `onReadData`, and the chunks passed to `recv_func_`. -/
  received : List UInt8
  delivered : List (List UInt8)

def start : State where
  sp_buf_ := .empty
  next_read_len_ := 1
  recv_func_ := false
  recv_bytes_ := 0
  storing := false
  tasks := 0
  worker := .idle
  received := []
  delivered := []

inductive Label where
  | setOnReadFunc (cb : Bool)
  | setNextReadLen (len : UInt32)
  /-- `onReadData` up to the end of its lock section. -/
  | onReadData (pdata : List UInt8)
  | async
  /-- The worker starts a queued run and takes the buffer under the lock. -/
  | pushData2Client
  | compare
  /-- The callback section and the `addBegin` behind it. -/
  | hand

def step (s : State) : Label → Option State
  | .setOnReadFunc cb => some { s with recv_func_ := cb }
  | .setNextReadLen len => some { s with next_read_len_ := len }
  | .onReadData pdata =>
    if s.storing then none
    else some { s with
      recv_bytes_ := s.recv_bytes_ + pdata.length.toUInt64
      -- the result of `append` is not looked at
      sp_buf_ := (s.sp_buf_.append pdata).getD s.sp_buf_
      storing := true
      received := s.received ++ pdata }
  | .async => if s.storing then some { s with storing := false, tasks := s.tasks + 1 } else none
  | .pushData2Client =>
    match s.worker, s.tasks with
    | .idle, n + 1 => some { s with sp_buf_ := .empty, tasks := n, worker := .loop s.sp_buf_ }
    | _, _ => none
  | .compare =>
    match s.worker with
    | .loop tmp =>
      if tmp.items.length < s.next_read_len_.toNat then some { s with worker := .idle }
      else some { s with worker := .handing tmp s.next_read_len_.toNat }
    | _ => none
  | .hand =>
    match s.worker with
    | .handing tmp n => some { s with
        worker := .loop (tmp.drop n)
        delivered := if s.recv_func_ then s.delivered ++ [tmp.items.take n] else s.delivered }
    | _ => none

def Worker.held : Worker → List UInt8
  | .idle => []
  | .loop tmp => tmp.items
  | .handing tmp _ => tmp.items

/-- The bytes about to go to the callback. -/
def Worker.chunk : Worker → List UInt8
  | .handing tmp n => tmp.items.take n
  | _ => []

/-- Delivered, then held by the worker, then in `sp_buf_`: all that was received. -/
def Conserved (s : State) : Prop :=
  s.delivered.flatten ++ s.worker.held ++ s.sp_buf_.items = s.received

/-- The undelivered bytes and the new block fit in the buffer. -/
def Admitted (s : State) : Label → Prop
  | .onReadData pdata =>
    s.worker.held.length + s.sp_buf_.items.length + pdata.length ≤ MAX_SEND_BUFFER_LEN
  | _ => True

/-- A run of `pushData2Client` leaves its loop only with its local buffer used up, and the bytes it
takes out of that buffer find a callback. -/
def DropsNothing (s : State) : Label → Prop
  | .compare => s.worker.held.length < s.next_read_len_.toNat → s.worker.held = []
  | .hand => s.recv_func_ = false → s.worker.chunk = []
  | _ => True

instance (s : State) : DecidablePred (Admitted s)
  | .onReadData _ => inferInstanceAs (Decidable (_ ≤ _))
  | .setOnReadFunc _ | .setNextReadLen _ | .async | .pushData2Client | .compare
  | .hand => isTrue trivial

instance (s : State) : DecidablePred (DropsNothing s)
  | .compare => inferInstanceAs (Decidable (_ < _ → _))
  | .hand => inferInstanceAs (Decidable (_ = _ → _))
  | .setOnReadFunc _ | .setNextReadLen _ | .onReadData _ | .async
  | .pushData2Client => isTrue trivial

theorem conserved_start : Conserved start := rfl

/-- Everything a step can do to the bytes. -/
theorem step_bytes {s t : State} {a : Label} (ha : Admitted s a) (h : step s a = some t) :
    (∃ pdata, a = .onReadData pdata ∧ t.received = s.received ++ pdata ∧ t.delivered = s.delivered ∧
      t.worker = s.worker ∧ t.sp_buf_.items = s.sp_buf_.items ++ pdata) ∨
    (a = .pushData2Client ∧ t.received = s.received ∧ t.sp_buf_.items = [] ∧
      t.delivered = s.delivered ∧ s.worker.held = [] ∧ t.worker.held = s.sp_buf_.items) ∨
    (a = .compare ∧ t.received = s.received ∧ t.sp_buf_ = s.sp_buf_ ∧ t.delivered = s.delivered ∧
      s.worker.held.length < s.next_read_len_.toNat ∧ t.worker.held = []) ∨
    (a = .hand ∧ t.received = s.received ∧ t.sp_buf_ = s.sp_buf_ ∧
      t.delivered.flatten = s.delivered.flatten ++ (if s.recv_func_ then s.worker.chunk else []) ∧
      s.worker.held = s.worker.chunk ++ t.worker.held) ∨
    (a ≠ .hand ∧ (a = .compare → s.next_read_len_.toNat ≤ s.worker.held.length) ∧
      t.received = s.received ∧ t.sp_buf_ = s.sp_buf_ ∧ t.delivered = s.delivered ∧
      t.worker.held = s.worker.held) := by
  cases a with
  | setOnReadFunc cb | setNextReadLen len =>
    cases h
    exact .inr (.inr (.inr (.inr ⟨by simp,by simp,rfl,rfl,rfl,rfl⟩)))
  | onReadData pdata =>
    simp only [step] at h
    split at h
    · cases h
    · cases h
      have hfit : s.sp_buf_.items.length + pdata.length ≤ MAX_SEND_BUFFER_LEN := by
        simp only [Admitted] at ha
        omega
      exact .inl ⟨pdata,rfl,rfl,rfl,rfl,by simp [Fifo.append_of_le hfit]⟩
  | async =>
    simp only [step] at h
    split at h
    · cases h
      exact .inr (.inr (.inr (.inr ⟨by simp,by simp,rfl,rfl,rfl,rfl⟩)))
    · cases h
  | pushData2Client =>
    simp only [step] at h
    split at h
    · rename_i hw _
      cases h
      exact .inr (.inl ⟨rfl,rfl,rfl,rfl,by rw [hw]; rfl,rfl⟩)
    · cases h
  | compare =>
    simp only [step] at h
    split at h
    · rename_i tmp hw
      have hheld : s.worker.held = tmp.items := by rw [hw]; rfl
      split at h
      · rename_i hlt
        cases h
        exact .inr (.inr (.inl ⟨rfl,rfl,rfl,rfl,by rw [hheld]; exact hlt,rfl⟩))
      · rename_i hlt
        cases h
        have hle : s.next_read_len_.toNat ≤ s.worker.held.length := by
          rw [hheld]
          omega
        exact .inr (.inr (.inr (.inr ⟨by simp,fun _ => hle,rfl,rfl,rfl,by rw [hheld]; rfl⟩)))
    · cases h
  | hand =>
    simp only [step] at h
    split at h
    · rename_i tmp n hw
      cases h
      refine .inr (.inr (.inr (.inl ⟨rfl,rfl,rfl,?_,?_⟩)))
      · rw [hw]
        cases s.recv_func_ <;> simp [Worker.chunk]
      · rw [hw]
        simp [Worker.held, Worker.chunk]
    · cases h

/-- A step keeps the bytes exactly when it drops none. -/
theorem step_conserved_iff {s t : State} {a : Label} (hs : Conserved s) (ha : Admitted s a)
    (h : step s a = some t) : Conserved t ↔ DropsNothing s a := by
  unfold Conserved at hs ⊢
  obtain ⟨pdata,rfl,hr,hd,hw,hb⟩ | ⟨rfl,hr,hb,hd,hs',ht⟩ | ⟨rfl,hr,hb,hd,hlt,ht⟩ |
    ⟨rfl,hr,hb,hd,hheld⟩ | ⟨hhand,hcmp,hr,hb,hd,hw⟩ := step_bytes ha h
  · rw [hr, hd, hw, hb, ← hs]
    simp [DropsNothing]
  · rw [hr, hd, hb, ht, ← hs, hs']
    simp [DropsNothing]
  · rw [hr, hd, hb, ht, ← hs]
    simp [DropsNothing, hlt]
  · rw [hr, hb, hd, ← hs, hheld]
    cases hcb : s.recv_func_ with
    | false => simp [DropsNothing, hcb]
    | true => simp [DropsNothing, hcb]
  · rw [hr, hb, hd, hw, hs]
    refine iff_of_true rfl ?_
    cases a with
    | compare =>
      intro hlt
      have hle := hcmp rfl
      omega
    | hand => exact absurd rfl hhand
    | _ => trivial

/-- On every admitted run no byte is lost, duplicated or reordered exactly when every run of
`pushData2Client` uses its local buffer up and finds a callback for what it takes out. -/
theorem receive_conserves_iff {labels : List Label} (ha : EveryStep step Admitted start labels) :
    EveryStep step DropsNothing start labels ↔ EveryState step Conserved start labels :=
  ha.iff_everyState conserved_start (fun _ h => h)
    (fun _ _ _ hs hh hc h => (step_conserved_iff hs hh h).mpr hc)
    (fun _ _ _ hs hh h ht => (step_conserved_iff hs hh h).mp ht)

/-- Two bytes in chunks of one. -/
theorem receive_conserves_two_chunks : EveryState step Conserved start
    [.setOnReadFunc true,.onReadData [1,2],.async,.pushData2Client,.compare,.hand,.compare,.hand,
      .compare] :=
  (receive_conserves_iff (by decide)).mp (by decide)

/-- Three bytes against a requested length of four: the run drops them instead of waiting. -/
theorem remainder_is_dropped :
    EveryStep step Admitted start
      [.setOnReadFunc true,.setNextReadLen 4,.onReadData [1,2,3],.async,.pushData2Client,.compare] ∧
    ¬ EveryState step Conserved start
      [.setOnReadFunc true,.setNextReadLen 4,.onReadData [1,2,3],.async,.pushData2Client,.compare] := by
  refine ⟨by decide,?_⟩
  intro h
  have hl := h.last rfl
  revert hl
  unfold Conserved
  decide

end Receive
end OctCommu.SerialPort
