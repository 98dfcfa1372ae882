import OctCommu.Lib.Loops
import OctCommu.SerialPort.SendPath
import Mathlib.Data.Nat.Find

/-! # One call of `flushAllData`

Whatever stands in the caches, a call that finds something to send makes one pass over it and
returns; a call that finds nothing compares 0 with 0 and calls itself. A pass counts what
`write` took except for the bytes that complete it.
-/
namespace OctCommu.SerialPort.Send
open Runs Loops Util

/-- What `write` makes of a request for `rest_count` bytes: a device that takes fewer takes what it
can. -/
def WriteResult.answer (rest_count : ℕ) : WriteResult → WriteResult
  | .count n => if n = 0 then .failed else .count (min n rest_count)
  | r => r

/-- The next step of the poller thread in `flushAllData`, where `w k` is what `write` does for the
`k`-th time. Beside the state it has the number of `write`s so far. -/
def advance (w : ℕ → WriteResult) (p : State × ℕ) : State × ℕ :=
  match p.1.poller with
  | .outside => p
  | .swapL2 => ((step p.1 .swapL2).getD p.1,p.2)
  | .swapL1 => ((step p.1 .swapL1).getD p.1,p.2)
  | .writing sent_count =>
    let rest_count := p.1.send_swap_cache_.currentLen - sent_count
    if rest_count = 0 then ((step p.1 .leave).getD p.1,p.2)
    else ((step p.1 (.write ((w p.2).answer rest_count))).getD p.1,p.2 + 1)
  | .wrote _ => ((step p.1 .finish).getD p.1,p.2)

/-- The call that starts in `s` returns. -/
def Returns (w : ℕ → WriteResult) (s : State) : Prop :=
  Ends (advance w) (fun p => p.1.poller = .outside) (flushAllData s,0)

/-- `write` does not answer `EAGAIN` for ever. -/
def Patient (w : ℕ → WriteResult) : Prop := ∀ k, ∃ j, k ≤ j ∧ w j ≠ .again

/-- The two records of length agree in every cache. -/
structure Cached (s : State) : Prop where
  l1 : s.send_l1_cache_.Sane
  l2 : s.send_l2_cache_.Sane
  swap : s.send_swap_cache_.Sane

/-- There is something to send. -/
def State.Filled (s : State) : Prop := s.send_l1_cache_.length ≠ 0 ∨ s.send_l2_cache_.length ≠ 0

instance (s : State) : Decidable s.Filled := inferInstanceAs (Decidable (_ ∨ _))

theorem cached_opened (fd : ℤ) (suspended : Bool) : Cached (opened fd suspended) :=
  ⟨FixedBuffer.sane_fresh,FixedBuffer.sane_fresh,FixedBuffer.sane_fresh⟩

theorem Cached.flushAllData {s : State} (hs : Cached s) : Cached (flushAllData s) :=
  ⟨hs.l1,hs.l2,FixedBuffer.sane_reset _⟩

theorem Cached.send {s : State} (hs : Cached s) (pdata : List UInt8) : Cached (send s pdata).2 := by
  by_cases h : s.sp_fd_ = -1 ∨ s.sp_suspend_ = true ∨ MAX_SEND_BUFFER_LEN < pdata.length
  · obtain ⟨_,e,he⟩ := send_refused h
    rw [he]
    exact ⟨hs.l1,hs.l2,hs.swap⟩
  · simp only [not_or, Bool.not_eq_true, Nat.not_lt] at h
    rw [send_accepting h.1 h.2.1 h.2.2]
    exact ⟨(FixedBuffer.sane_reset _).append max_lt_modulus _,hs.l2,hs.swap⟩

theorem step_cached {s t : State} {a : Label} (hs : Cached s) (h : step s a = some t) : Cached t := by
  cases steps_of_step h with
  | send pdata =>
    have hsend := hs.send pdata
    exact ⟨hsend.l1,hsend.l2,hsend.swap⟩
  | idle | again => exact hs
  | writeEvent | flushAgain => exact hs.flushAllData
  | swapL2 =>
    obtain ⟨hto,hfrom⟩ := FixedBuffer.sane_swap (b := s.send_swap_cache_) hs.l2
    exact ⟨hs.l1,hfrom,hto⟩
  | swapL1 =>
    obtain ⟨hto,hfrom⟩ := FixedBuffer.sane_swap (b := s.send_swap_cache_) hs.l1
    exact ⟨hfrom,hs.l2,hto⟩
  | emptyL2 | emptyL1 | filled | writeLast | write | failed | leave | finish => exact ⟨hs.l1,hs.l2,hs.swap⟩

/-! ### The end of a call -/

section
variable {w : ℕ → WriteResult} {s : State} {sent_count : ℕ}

/-- In front of a `write` with something to send. -/
def InPass (p : State × ℕ) : Prop :=
  p.1.send_swap_cache_.Sane ∧ ∃ sent_count, p.1.poller = .writing sent_count ∧
    sent_count < p.1.send_swap_cache_.currentLen

/-- The bytes that are left of the pass. -/
def restCount (p : State × ℕ) : ℕ :=
  match p.1.poller with
  | .writing sent_count => p.1.send_swap_cache_.currentLen - sent_count
  | _ => 0

theorem advance_writing (hp : s.poller = .writing sent_count)
    (hlt : sent_count < s.send_swap_cache_.currentLen) (k : ℕ) : advance w (s,k) =
      ((step s (.write ((w k).answer (s.send_swap_cache_.currentLen - sent_count)))).getD s,k + 1) := by
  have hrest : s.send_swap_cache_.currentLen - sent_count ≠ 0 := by omega
  simp only [advance, hp, if_neg hrest]

theorem advance_again (hp : s.poller = .writing sent_count)
    (hlt : sent_count < s.send_swap_cache_.currentLen) {k d : ℕ} (h : ∀ i < d, w (k + i) = .again) :
    (advance w)^[d] (s,k) = (s,k + d) := by
  have hrest : s.send_swap_cache_.currentLen - sent_count ≠ 0 := by omega
  induction d with
  | zero => rfl
  | succ d ih =>
    rw [Function.iterate_succ_apply', ih fun i hi => h i (Nat.lt_succ_of_lt hi),
      advance_writing hp hlt, h d (Nat.lt_succ_self d)]
    simp only [WriteResult.answer, step, hp, if_neg hrest, Option.getD_some, Nat.add_assoc]

/-- Behind the loop with something unsent the call returns. -/
theorem ends_wrote (hs : s.send_swap_cache_.Sane) (hp : s.poller = .wrote sent_count)
    (hlt : sent_count < s.send_swap_cache_.currentLen) (k : ℕ) :
    Ends (advance w) (fun p => p.1.poller = .outside) (s,k) := by
  have hne : s.send_swap_cache_.length ≠ sent_count := by
    have hcur := hs.cur_eq
    simp only [FixedBuffer.length, FixedBuffer.currentLen] at hlt ⊢
    omega
  apply Ends.of_next
  apply ends_of_done
  simp only [advance, hp, step, if_neg hne, Option.getD_some]

/-- An answer that is not `EAGAIN` ends the call or takes bytes. -/
theorem pass_progress (hw : Patient w) (p : State × ℕ) (hp : InPass p) :
    Ends (advance w) (fun p => p.1.poller = .outside) p ∨
      ∃ n, InPass ((advance w)^[n] p) ∧ restCount ((advance w)^[n] p) < restCount p := by
  obtain ⟨s,k⟩ := p
  obtain ⟨hs,sent_count,hpc,hlt⟩ := hp
  dsimp only at hs hpc hlt
  obtain ⟨d,hd,hagain⟩ : ∃ d, w (k + d) ≠ .again ∧ ∀ i < d, w (k + i) = .again := by
    have hex : ∃ d, w (k + d) ≠ .again := by
      obtain ⟨j,hj,hwj⟩ := hw k
      refine ⟨j - k,?_⟩
      rwa [Nat.add_sub_cancel' hj]
    classical
    exact ⟨Nat.find hex,Nat.find_spec hex,fun i hi => not_not.mp (Nat.find_min hex hi)⟩
  have hturn : (advance w)^[d + 1] (s,k) = ((step s (.write ((w (k + d)).answer
      (s.send_swap_cache_.currentLen - sent_count)))).getD s,k + d + 1) := by
    rw [Function.iterate_succ_apply', advance_again hpc hlt hagain, advance_writing hpc hlt]
  have hrest : s.send_swap_cache_.currentLen - sent_count ≠ 0 := by omega
  have hfailed : (w (k + d)).answer (s.send_swap_cache_.currentLen - sent_count) = .failed →
      Ends (advance w) (fun p => p.1.poller = .outside) (s,k) := by
    intro hf
    rw [hf] at hturn
    simp only [step, hpc, if_neg hrest, Option.getD_some] at hturn
    apply Ends.of_iterate (n := d + 1)
    rw [hturn]
    refine ends_wrote ?_ rfl ?_ _
    · exact hs
    · exact hlt
  cases hr : w (k + d) with
  | again => exact absurd hr hd
  | failed => exact .inl (hfailed (by rw [hr]; rfl))
  | count n =>
    by_cases hn : n = 0
    · exact .inl (hfailed (by rw [hr, hn]; rfl))
    rw [hr] at hturn
    simp only [WriteResult.answer, if_neg hn, step, hpc] at hturn
    rw [if_pos ⟨by omega,Nat.min_le_right _ _⟩] at hturn
    by_cases hall : s.send_swap_cache_.currentLen - sent_count ≤ n
    · left
      rw [Nat.min_eq_right hall, if_pos rfl, Option.getD_some] at hturn
      apply Ends.of_iterate (n := d + 1)
      rw [hturn]
      refine ends_wrote ?_ rfl ?_ _
      · exact hs
      · exact hlt
    · right
      rw [Nat.min_eq_left (Nat.le_of_not_le hall), if_neg (by omega), Option.getD_some] at hturn
      refine ⟨d + 1,?_⟩
      rw [hturn]
      refine ⟨⟨hs,sent_count + n,rfl,?_⟩,?_⟩
      · simp only [State.accept]
        omega
      · simp only [restCount, hpc, State.accept]
        omega

theorem ends_inPass (hw : Patient w) {p : State × ℕ} (hp : InPass p) :
    Ends (advance w) (fun p => p.1.poller = .outside) p :=
  ends_of_measure restCount (pass_progress hw) hp

/-- A cache with something in it was swapped in. -/
theorem returns_of_loaded (hw : Patient w) {t : State} {c : FixedBuffer MAX_SEND_BUFFER_LEN} (hc : c.Sane)
    (hne : c.length ≠ 0) (hpass : (advance w)^[2] (flushAllData s,0) = (t,0))
    (hswap : t.send_swap_cache_ = ((flushAllData s).send_swap_cache_.swap c).1)
    (hp : t.poller = .writing 0) : Returns w s := by
  apply Ends.of_iterate (n := 2)
  rw [hpass]
  refine ends_inPass hw ⟨?_,0,hp,?_⟩
  · rw [hswap]
    exact (FixedBuffer.sane_swap hc).1
  · have hcur := hc.cur_eq
    simp only [FixedBuffer.length] at hne
    simp only [hswap, FixedBuffer.swap, FixedBuffer.currentLen]
    omega

theorem returns_of_filled (hw : Patient w) (hs : Cached s) (hf : s.Filled) : Returns w s := by
  by_cases h2 : s.send_l2_cache_.length = 0
  · have h1 : s.send_l1_cache_.length ≠ 0 := hf.resolve_right (not_not.mpr h2)
    have hpass : (advance w)^[2] (flushAllData s,0) = ({ flushAllData s with
        send_swap_cache_ := ((flushAllData s).send_swap_cache_.swap s.send_l1_cache_).1
        send_l1_cache_ := ((flushAllData s).send_swap_cache_.swap s.send_l1_cache_).2
        poller := .writing 0 },0) := by
      simp only [Function.iterate_succ_apply, Function.iterate_zero_apply, advance, flushAllData, step,
        h2, h1, FixedBuffer.currentLen, FixedBuffer.current_len_reset, ne_eq, not_true_eq_false,
        not_false_eq_true, if_true, if_false, Option.getD_some]
    exact returns_of_loaded hw hs.l1 h1 hpass rfl rfl
  · have hlen : s.send_l2_cache_.current_len_ ≠ 0 := hs.l2.cur_eq ▸ h2
    have hpass : (advance w)^[2] (flushAllData s,0) = ({ flushAllData s with
        send_swap_cache_ := ((flushAllData s).send_swap_cache_.swap s.send_l2_cache_).1
        send_l2_cache_ := ((flushAllData s).send_swap_cache_.swap s.send_l2_cache_).2
        poller := .writing 0 },0) := by
      simp only [Function.iterate_succ_apply, Function.iterate_zero_apply, advance, flushAllData, step,
        h2, hlen, FixedBuffer.currentLen, FixedBuffer.swap, ne_eq, not_true_eq_false, not_false_eq_true,
        if_true, if_false, Option.getD_some]
    exact returns_of_loaded hw hs.l2 h2 hpass rfl rfl

/-- Nothing to send, at any place of the call. -/
structure Vacant (p : State × ℕ) : Prop where
  l1 : p.1.send_l1_cache_.length = 0
  l2 : p.1.send_l2_cache_.length = 0
  swap : p.1.send_swap_cache_.currentLen = 0 ∧ p.1.send_swap_cache_.length = 0
  place : p.1.poller = .swapL2 ∨ p.1.poller = .swapL1 ∨ p.1.poller = .writing 0 ∨ p.1.poller = .wrote 0

theorem Vacant.advance {p : State × ℕ} (h : Vacant p) : Vacant (advance w p) := by
  obtain ⟨h1,h2,⟨hlen,hcur⟩,hp | hp | hp | hp⟩ := h
  · simp only [Send.advance, hp, step, h2, ne_eq, not_true_eq_false, if_false, Option.getD_some]
    exact ⟨h1,h2,⟨hlen,hcur⟩,.inr (.inl rfl)⟩
  · simp only [Send.advance, hp, step, h1, hlen, ne_eq, not_true_eq_false, if_false, if_true, Option.getD_some]
    exact ⟨h1,h2,⟨hlen,hcur⟩,.inr (.inr (.inl rfl))⟩
  · simp only [Send.advance, hp, step, hlen, Nat.sub_zero, if_true, Option.getD_some]
    exact ⟨h1,h2,⟨hlen,hcur⟩,.inr (.inr (.inr rfl))⟩
  · simp only [Send.advance, hp, step, hcur, if_true, Option.getD_some]
    exact ⟨h1,h2,⟨rfl,rfl⟩,.inl rfl⟩

theorem Vacant.inside {p : State × ℕ} (h : Vacant p) : p.1.poller ≠ .outside := by
  rcases h.place with hp | hp | hp | hp <;> rw [hp] <;> nofun

theorem not_returns_of_not_filled (hf : ¬ s.Filled) : ¬ Returns w s := by
  obtain ⟨h1,h2⟩ := not_or.mp hf
  have hv : Vacant (flushAllData s,0) := ⟨not_not.mp h1,not_not.mp h2,⟨rfl,rfl⟩,.inl rfl⟩
  exact not_ends_of_invariant (fun _ hp => Vacant.advance hp) (fun _ hp => Vacant.inside hp) hv

end

/-- A call of `flushAllData` in a state that sends have led to returns just when it finds something to send. -/
theorem flushAllData_returns_iff {fd : ℤ} {suspended : Bool} {labels : List Label} {s : State}
    (hs : exec step (opened fd suspended) labels = some s) {w : ℕ → WriteResult} (hw : Patient w) :
    Returns w s ↔ s.Filled := by
  have hcached : Cached s := exec_preserves (fun _ _ _ => step_cached) hs (cached_opened fd suspended)
  constructor
  · intro hr
    by_contra hf
    exact not_returns_of_not_filled hf hr
  · exact returns_of_filled hw hcached

/-- Two bytes, of which `write` takes one at a time. -/
theorem flushAllData_returns_two : ∃ s, exec step (opened 3 false) [.send [1,2]] = some s ∧
    Returns (fun _ => .count 1) s := by
  have hs : exec step (opened 3 false) [.send [1,2]] = some
      { (send (opened 3 false) [1,2]).2 with payloads := [[1,2]] } := rfl
  have hw : Patient fun _ => .count 1 := fun k => ⟨k,Nat.le_refl k,nofun⟩
  exact ⟨_,hs,(flushAllData_returns_iff hs hw).mpr (by decide)⟩

/-- An empty payload makes the port listen, and the call it leads to goes on for ever. -/
theorem empty_send_never_returns : ∃ s, exec step (opened 3 false) [.send []] = some s ∧
    s.listen_to_write_ = true ∧ Patient (fun _ => .count 1) ∧ ¬ Returns (fun _ => .count 1) s :=
  ⟨_,rfl,rfl,fun k => ⟨k,Nat.le_refl k,nofun⟩,not_returns_of_not_filled (by decide)⟩

end OctCommu.SerialPort.Send
