import OctCommu.Lib.Runs
import OctCommu.SerialPort.ReceivePath
import OctCommu.Util.FixedBuffer

/-! # Serial sending: producers against the poller thread

`send` leaves its payload in `send_l1_cache_`; the poller thread moves it through
`send_swap_cache_` to `write`. Every mutex section and every `write` is one step,
and everything else the poller does between two of them is thread-local.
-/
namespace OctCommu.SerialPort.Send
open Runs Util

abbrev SendCache := FixedBuffer MAX_SEND_BUFFER_LEN

inductive Poller where
  | outside
  | swapL2
  | swapL1
  | writing (sent_count : ℕ)
  | wrote (sent_count : ℕ)
  deriving DecidableEq

structure State where
  sp_fd_ : ℤ
  sp_suspend_ : Bool
  error_str_ : String
  listen_to_write_ : Bool
  send_l1_cache_ : SendCache
  send_l2_cache_ : SendCache
  send_swap_cache_ : SendCache
  sent_bytes_ : UInt64
  poller : Poller
  /-- How much of the swap cache `write` has accepted since it was last reset. -/
  swapAccepted : ℕ
  /-- All bytes accepted by `write`, and the payloads whose `send` returned a positive value. -/
  accepted : List UInt8
  payloads : List (List UInt8)

/-- A constructed port whose `init` installed `fd`. -/
def opened (fd : ℤ) (suspended : Bool) : State where
  sp_fd_ := fd
  sp_suspend_ := suspended
  error_str_ := ""
  listen_to_write_ := false
  send_l1_cache_ := .fresh
  send_l2_cache_ := .fresh
  send_swap_cache_ := .fresh
  sent_bytes_ := 0
  poller := .outside
  swapAccepted := 0
  accepted := []
  payloads := []

/-- The returned value and the state after a call; its lock section is the only shared access. -/
def send (s : State) (pdata : List UInt8) : ℤ × State :=
  if s.sp_fd_ = -1 then (-1,{ s with error_str_ := "sp doesnt open" })
  else if s.sp_suspend_ then (0,{ s with error_str_ := "the serial has suspended" })
  else if MAX_SEND_BUFFER_LEN < pdata.length then
    (-2,{ s with error_str_ := "failed to send, MAX_SEND_BUFFER_LEN(1024 * 10) < len" })
  else ((pdata.length : ℤ),{ s with
    send_l1_cache_ := s.send_l1_cache_.reset.append pdata
    listen_to_write_ := true })

/-- What `write` answers: bytes taken, `EAGAIN`, or anything else (another error, or zero). -/
inductive WriteResult where
  | count (n : ℕ)
  | again
  | failed
  deriving DecidableEq

inductive Label where
  | send (pdata : List UInt8)
  /-- `writeEvent`, with what `FD_ISSET` says, down to the first lock of `flushAllData`. -/
  | writeEvent (ready : Bool)
  | swapL2
  | swapL1
  | write (r : WriteResult)
  | leave
  /-- The test behind the loop: call `flushAllData` again, or stop listening. -/
  | finish

/-- The start of `flushAllData`, down to its first lock. -/
def flushAllData (s : State) : State :=
  { s with
    send_swap_cache_ := s.send_swap_cache_.reset
    swapAccepted := 0
    poller := .swapL2 }

/-- `write` accepts `n` bytes of the swap cache from `sent_count` on. -/
def State.accept (s : State) (sent_count n : ℕ) : State :=
  { s with
    accepted := s.accepted ++ (s.send_swap_cache_.contents.drop sent_count).take n
    swapAccepted := sent_count + n }

def step (s : State) : Label → Option State
  | .send pdata =>
    let r := send s pdata
    some { r.2 with payloads := if 0 < r.1 then s.payloads ++ [pdata] else s.payloads }
  | .writeEvent ready =>
    if s.poller ≠ .outside then none
    else if s.listen_to_write_ = false then some s
    else if ready then some (flushAllData s)
    else some s
  | .swapL2 =>
    if s.poller ≠ .swapL2 then none
    else if s.send_l2_cache_.length ≠ 0 then
      let r := s.send_swap_cache_.swap s.send_l2_cache_
      some { s with send_swap_cache_ := r.1, send_l2_cache_ := r.2, poller := .swapL1 }
    else some { s with poller := .swapL1 }
  | .swapL1 =>
    if s.poller ≠ .swapL1 then none
    else if s.send_swap_cache_.currentLen = 0 then
      if s.send_l1_cache_.length ≠ 0 then
        let r := s.send_swap_cache_.swap s.send_l1_cache_
        some { s with send_swap_cache_ := r.1, send_l1_cache_ := r.2, poller := .writing 0 }
      else some { s with listen_to_write_ := false, poller := .writing 0 }
    else some { s with poller := .writing 0 }
  | .write r =>
    match s.poller, r with
    | .writing sent_count, .count n =>
      let rest_count := s.send_swap_cache_.currentLen - sent_count
      if 0 < n ∧ n ≤ rest_count then
        -- the last write is not added to `sent_count`
        if n = rest_count then some { s.accept sent_count n with poller := .wrote sent_count }
        else some { s.accept sent_count n with
          poller := .writing (sent_count + n)
          sent_bytes_ := s.sent_bytes_ + n.toUInt64 }
      else none
    | .writing sent_count, .again =>
      if s.send_swap_cache_.currentLen - sent_count = 0 then none else some s
    | .writing sent_count, .failed =>
      if s.send_swap_cache_.currentLen - sent_count = 0 then none
      else some { s with poller := .wrote sent_count }
    | _, _ => none
  | .leave =>
    match s.poller with
    | .writing sent_count =>
      if s.send_swap_cache_.currentLen - sent_count = 0 then
        some { s with poller := .wrote sent_count }
      else none
    | _ => none
  | .finish =>
    match s.poller with
    | .wrote sent_count =>
      if s.send_swap_cache_.length = sent_count then some (flushAllData s)
      else some { s with listen_to_write_ := false, poller := .outside }
    | _ => none

theorem max_lt_modulus : MAX_SEND_BUFFER_LEN < Memory.sizeModulus := by decide

theorem send_accepting {s : State} (hfd : s.sp_fd_ ≠ -1) (hsus : s.sp_suspend_ = false)
    {pdata : List UInt8} (hlen : pdata.length ≤ MAX_SEND_BUFFER_LEN) :
    send s pdata = ((pdata.length : ℤ),{ s with
      send_l1_cache_ := s.send_l1_cache_.reset.append pdata
      listen_to_write_ := true }) := by
  simp [send, hfd, hsus, Nat.not_lt.mpr hlen]

theorem flatten_payloads (payloads : List (List UInt8)) (pdata : List UInt8) :
    (if (0 : ℤ) < pdata.length then payloads ++ [pdata] else payloads).flatten =
      payloads.flatten ++ pdata := by
  by_cases hp : (0 : ℤ) < pdata.length
  · rw [if_pos hp]
    simp
  · have hnil : pdata = [] := List.length_eq_zero_iff.mp (by omega)
    simp [hnil]

/-- A refused call touches nothing but the error text. -/
theorem send_refused {s : State} {pdata : List UInt8}
    (h : s.sp_fd_ = -1 ∨ s.sp_suspend_ = true ∨ MAX_SEND_BUFFER_LEN < pdata.length) :
    (send s pdata).1 ≤ 0 ∧ ∃ e, (send s pdata).2 = { s with error_str_ := e } := by
  unfold send
  by_cases h1 : s.sp_fd_ = -1
  · rw [if_pos h1]
    exact ⟨by simp,_,rfl⟩
  rw [if_neg h1]
  by_cases h2 : s.sp_suspend_ = true
  · rw [if_pos h2]
    exact ⟨by simp,_,rfl⟩
  rw [if_neg h2, if_pos ((h.resolve_left h1).resolve_left h2)]
  exact ⟨by simp,_,rfl⟩

/-- The emptied level-one cache takes a payload whole unless it would fill it. -/
theorem contents_reset_append (c : SendCache) (pdata : List UInt8) :
    (c.reset.append pdata).contents =
      if pdata.length < MAX_SEND_BUFFER_LEN then pdata else [] := by
  rw [(FixedBuffer.sane_reset c).contents_append max_lt_modulus]
  simp

/-- What each step finds and does. -/
inductive Steps (s : State) : Label → State → Prop
  | send (pdata : List UInt8) : Steps s (.send pdata) { (send s pdata).2 with
      payloads := if 0 < (send s pdata).1 then s.payloads ++ [pdata] else s.payloads }
  | idle (ready : Bool) : s.poller = .outside → s.listen_to_write_ = false ∨ ready = false →
      Steps s (.writeEvent ready) s
  | writeEvent : s.poller = .outside → s.listen_to_write_ = true →
      Steps s (.writeEvent true) (flushAllData s)
  | swapL2 : s.poller = .swapL2 → s.send_l2_cache_.length ≠ 0 → Steps s .swapL2 { s with
      send_swap_cache_ := (s.send_swap_cache_.swap s.send_l2_cache_).1
      send_l2_cache_ := (s.send_swap_cache_.swap s.send_l2_cache_).2
      poller := .swapL1 }
  | emptyL2 : s.poller = .swapL2 → s.send_l2_cache_.length = 0 →
      Steps s .swapL2 { s with poller := .swapL1 }
  | swapL1 : s.poller = .swapL1 → s.send_swap_cache_.currentLen = 0 → s.send_l1_cache_.length ≠ 0 →
      Steps s .swapL1 { s with
        send_swap_cache_ := (s.send_swap_cache_.swap s.send_l1_cache_).1
        send_l1_cache_ := (s.send_swap_cache_.swap s.send_l1_cache_).2
        poller := .writing 0 }
  | emptyL1 : s.poller = .swapL1 → s.send_swap_cache_.currentLen = 0 → s.send_l1_cache_.length = 0 →
      Steps s .swapL1 { s with listen_to_write_ := false, poller := .writing 0 }
  | filled : s.poller = .swapL1 → s.send_swap_cache_.currentLen ≠ 0 →
      Steps s .swapL1 { s with poller := .writing 0 }
  | writeLast {sent_count n : ℕ} : s.poller = .writing sent_count → 0 < n →
      sent_count + n = s.send_swap_cache_.current_len_ →
      Steps s (.write (.count n)) { s.accept sent_count n with poller := .wrote sent_count }
  | write {sent_count n : ℕ} : s.poller = .writing sent_count → 0 < n →
      sent_count + n < s.send_swap_cache_.current_len_ → Steps s (.write (.count n))
        { s.accept sent_count n with
          poller := .writing (sent_count + n)
          sent_bytes_ := s.sent_bytes_ + n.toUInt64 }
  | again {sent_count : ℕ} : s.poller = .writing sent_count →
      sent_count < s.send_swap_cache_.current_len_ → Steps s (.write .again) s
  | failed {sent_count : ℕ} : s.poller = .writing sent_count →
      sent_count < s.send_swap_cache_.current_len_ →
      Steps s (.write .failed) { s with poller := .wrote sent_count }
  | leave {sent_count : ℕ} : s.poller = .writing sent_count →
      s.send_swap_cache_.current_len_ ≤ sent_count → Steps s .leave { s with poller := .wrote sent_count }
  | flushAgain {sent_count : ℕ} : s.poller = .wrote sent_count →
      s.send_swap_cache_.length = sent_count → Steps s .finish (flushAllData s)
  | finish {sent_count : ℕ} : s.poller = .wrote sent_count → s.send_swap_cache_.length ≠ sent_count →
      Steps s .finish { s with listen_to_write_ := false, poller := .outside }

theorem steps_of_step {s t : State} {a : Label} (h : step s a = some t) : Steps s a t := by
  cases a with
  | send pdata =>
    cases h
    exact .send pdata
  | writeEvent ready =>
    simp only [step] at h
    split_ifs at h with hp hlisten hready <;> cases h
    · exact .idle ready (not_not.mp hp) (.inl hlisten)
    · rw [Bool.not_eq_false] at hlisten
      subst hready
      exact .writeEvent (not_not.mp hp) hlisten
    · exact .idle ready (not_not.mp hp) (.inr (Bool.eq_false_iff.mpr hready))
  | swapL2 =>
    simp only [step] at h
    split_ifs at h with hp hl2 <;> cases h
    · exact .swapL2 (not_not.mp hp) hl2
    · exact .emptyL2 (not_not.mp hp) (not_not.mp hl2)
  | swapL1 =>
    simp only [step] at h
    split_ifs at h with hp hswap hl1 <;> cases h
    · exact .swapL1 (not_not.mp hp) hswap hl1
    · exact .emptyL1 (not_not.mp hp) hswap (not_not.mp hl1)
    · exact .filled (not_not.mp hp) hswap
  | write r =>
    simp only [step] at h
    split at h
    · rename_i hp
      split_ifs at h with hn hlast <;> cases h <;> simp only [FixedBuffer.currentLen] at hn hlast
      · exact .writeLast hp hn.1 (by omega)
      · exact .write hp hn.1 (by omega)
    · rename_i hp
      split_ifs at h with hrest
      cases h
      simp only [FixedBuffer.currentLen] at hrest
      exact .again hp (by omega)
    · rename_i hp
      split_ifs at h with hrest
      cases h
      simp only [FixedBuffer.currentLen] at hrest
      exact .failed hp (by omega)
    · cases h
  | leave =>
    simp only [step] at h
    split at h
    · rename_i hp
      split_ifs at h with hrest
      cases h
      simp only [FixedBuffer.currentLen] at hrest
      exact .leave hp (by omega)
    · cases h
  | finish =>
    simp only [step] at h
    split at h
    · rename_i hp
      split_ifs at h with hall <;> cases h
      · exact .flushAgain hp hall
      · exact .finish hp hall
    · cases h

end OctCommu.SerialPort.Send
