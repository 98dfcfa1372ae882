import OctCommu.SerialPort.SendPath

/-! # Conservation of sent serial data

What `write` accepted, then the unsent rest of the swap cache, then the level-two
and level-one caches should be the accepted payloads in call order. `send` resets
the level-one cache first, and a payload that would fill it is not stored.
-/
namespace OctCommu.SerialPort.Send
open Runs Util

def State.unsent (s : State) : List UInt8 := s.send_swap_cache_.contents.drop s.swapAccepted

def Conserved (s : State) : Prop :=
  s.accepted ++ s.unsent ++ s.send_l2_cache_.contents ++ s.send_l1_cache_.contents =
    s.payloads.flatten

def NoHardError (_ : State) (a : Label) : Prop := a ≠ .write .failed

/-- A payload is refused for its length, or meets an empty level-one cache and does not fill it. -/
def KeepsCache (s : State) : Label → Prop
  | .send pdata => MAX_SEND_BUFFER_LEN < pdata.length ∨
      s.send_l1_cache_.length = 0 ∧ pdata.length < MAX_SEND_BUFFER_LEN
  | _ => True

instance (s : State) : DecidablePred (NoHardError s)
  | .write .failed => isFalse fun h => h rfl
  | .write (.count _) | .write .again | .send _ | .writeEvent _ | .swapL2 | .swapL1 | .leave
  | .finish => isTrue (by simp [NoHardError])

instance (s : State) : DecidablePred (KeepsCache s)
  | .send _ => inferInstanceAs (Decidable (_ ∨ _ ∧ _))
  | .writeEvent _ | .swapL2 | .swapL1 | .write _ | .leave | .finish => isTrue trivial

/-- What the poller's position says about the swap cache. -/
def Positioned (s : State) : Poller → Prop
  | .outside => s.unsent = []
  | .swapL2 => s.send_swap_cache_.current_len_ = 0 ∧ s.swapAccepted = 0
  | .swapL1 => s.send_swap_cache_.current_len_ = 0 ∧ s.swapAccepted = 0
  | .writing sent_count =>
    sent_count = s.swapAccepted ∧ sent_count ≤ s.send_swap_cache_.current_len_
  | .wrote _ => s.unsent = []

/-- The invariant of a run on an open port without hard errors. -/
structure Accounted (s : State) : Prop where
  fd : s.sp_fd_ ≠ -1
  live : s.sp_suspend_ = false
  l1_sane : s.send_l1_cache_.Sane
  l2_sane : s.send_l2_cache_.Sane
  swap_sane : s.send_swap_cache_.Sane
  l2_empty : s.send_l2_cache_.length = 0
  positioned : Positioned s s.poller
  conserved : Conserved s

theorem unsent_eq_nil {s : State} (h : s.send_swap_cache_.current_len_ ≤ s.swapAccepted) :
    s.unsent = [] := by
  rw [State.unsent, List.drop_eq_nil_of_le]
  rwa [FixedBuffer.contents_length]

theorem contents_eq_nil {c : SendCache} (hc : c.Sane) : c.contents = [] ↔ c.length = 0 := by
  rw [hc.length_eq, List.length_eq_zero_iff]

theorem accounted_opened {fd : ℤ} (hfd : fd ≠ -1) : Accounted (opened fd false) where
  fd := hfd
  live := rfl
  l1_sane := FixedBuffer.sane_fresh
  l2_sane := FixedBuffer.sane_fresh
  swap_sane := FixedBuffer.sane_fresh
  l2_empty := rfl
  positioned := rfl
  conserved := rfl

theorem Accounted.flushAllData {s : State} (hs : Accounted s) (hu : s.unsent = []) :
    Accounted (flushAllData s) where
  fd := hs.fd
  live := hs.live
  l1_sane := hs.l1_sane
  l2_sane := hs.l2_sane
  swap_sane := FixedBuffer.sane_reset _
  l2_empty := hs.l2_empty
  positioned := ⟨rfl,rfl⟩
  conserved := by
    have h := hs.conserved
    rw [Conserved, hu] at h
    exact h

theorem Accounted.send {s : State} (hs : Accounted s) {pdata : List UInt8}
    (hk : KeepsCache s (.send pdata)) {t : State} (h : step s (.send pdata) = some t) :
    Accounted t := by
  have hc := hs.conserved
  unfold Conserved at hc
  rcases hk with hlong | ⟨hempty,hshort⟩
  · obtain ⟨hr,e,he⟩ := send_refused (s := s) (.inr (.inr hlong))
    simp only [step, he, if_neg (Int.not_lt.mpr hr)] at h
    cases h
    exact ⟨hs.fd,hs.live,hs.l1_sane,hs.l2_sane,hs.swap_sane,hs.l2_empty,hs.positioned,hc⟩
  · simp only [step, send_accepting hs.fd hs.live (Nat.le_of_lt hshort)] at h
    cases h
    refine ⟨hs.fd,hs.live,(FixedBuffer.sane_reset _).append max_lt_modulus _,hs.l2_sane,hs.swap_sane,
      hs.l2_empty,hs.positioned,?_⟩
    have hl1 := (contents_eq_nil hs.l1_sane).mpr hempty
    change s.accepted ++ s.unsent ++ _ ++ (s.send_l1_cache_.reset.append pdata).contents = _
    rw [hl1, List.append_nil] at hc
    rw [contents_reset_append, if_pos hshort, hc]
    exact (flatten_payloads s.payloads pdata).symm

theorem conserved_accept {s : State} {sent_count : ℕ} (hc : Conserved s)
    (hp : sent_count = s.swapAccepted) (n : ℕ) : Conserved (s.accept sent_count n) := by
  subst hp
  have hmove : (s.send_swap_cache_.contents.drop s.swapAccepted).take n ++
      s.send_swap_cache_.contents.drop (s.swapAccepted + n) = s.unsent := by
    rw [State.unsent, ← List.drop_drop, List.take_append_drop]
  unfold Conserved at hc ⊢
  rw [← hmove] at hc
  simpa only [State.accept, State.unsent, List.append_assoc] using hc

theorem step_accounted {s t : State} {a : Label} (hs : Accounted s) (hh : NoHardError s a)
    (hk : KeepsCache s a) (h : step s a = some t) : Accounted t := by
  have hpos := hs.positioned
  have hc := hs.conserved
  cases steps_of_step h with
  | send pdata => exact hs.send hk h
  | idle | again => exact hs
  | writeEvent hp _ =>
    rw [hp] at hpos
    exact hs.flushAllData hpos
  | swapL2 _ hl2 => exact absurd hs.l2_empty hl2
  | emptyL2 hp _ =>
    rw [hp] at hpos
    exact ⟨hs.fd,hs.live,hs.l1_sane,hs.l2_sane,hs.swap_sane,hs.l2_empty,hpos,hc⟩
  | swapL1 hp _ _ =>
    rw [hp] at hpos
    obtain ⟨hsane,hreset⟩ := FixedBuffer.sane_swap (b := s.send_swap_cache_) hs.l1_sane
    obtain ⟨hto,hfrom⟩ := FixedBuffer.contents_swap (b := s.send_swap_cache_) hs.l1_sane
    refine ⟨hs.fd,hs.live,hreset,hs.l2_sane,hsane,hs.l2_empty,⟨hpos.2.symm,Nat.zero_le _⟩,?_⟩
    have hl2 := (contents_eq_nil hs.l2_sane).mpr hs.l2_empty
    have hun : s.unsent = [] := unsent_eq_nil (hpos.1.le.trans (Nat.zero_le _))
    unfold Conserved at hc ⊢
    rw [hun, hl2] at hc
    simp only [State.unsent, hto, hfrom, hl2, hpos.2, List.drop_zero, List.append_nil]
    simpa using hc
  | emptyL1 hp _ _ =>
    rw [hp] at hpos
    exact ⟨hs.fd,hs.live,hs.l1_sane,hs.l2_sane,hs.swap_sane,hs.l2_empty,
      ⟨hpos.2.symm,Nat.zero_le _⟩,hc⟩
  | filled hp hswap =>
    rw [hp] at hpos
    exact absurd hpos.1 hswap
  | @writeLast _ n hp _ hlast =>
    rw [hp] at hpos
    refine ⟨hs.fd,hs.live,hs.l1_sane,hs.l2_sane,hs.swap_sane,hs.l2_empty,?_,
      conserved_accept hc hpos.1 n⟩
    exact unsent_eq_nil hlast.ge
  | @write _ n hp _ hlt =>
    rw [hp] at hpos
    exact ⟨hs.fd,hs.live,hs.l1_sane,hs.l2_sane,hs.swap_sane,hs.l2_empty,⟨rfl,hlt.le⟩,
      conserved_accept hc hpos.1 n⟩
  | failed => exact absurd rfl hh
  | leave hp hle =>
    rw [hp] at hpos
    refine ⟨hs.fd,hs.live,hs.l1_sane,hs.l2_sane,hs.swap_sane,hs.l2_empty,?_,hc⟩
    exact unsent_eq_nil (hle.trans hpos.1.le)
  | flushAgain hp _ =>
    rw [hp] at hpos
    exact hs.flushAllData hpos
  | finish hp _ =>
    rw [hp] at hpos
    exact ⟨hs.fd,hs.live,hs.l1_sane,hs.l2_sane,hs.swap_sane,hs.l2_empty,hpos,hc⟩

/-- A payload over a nonempty cache, or one that would fill the cache, is lost on the spot. -/
theorem keepsCache_of_conserved {s t : State} {a : Label} (hs : Accounted s)
    (h : step s a = some t) (ht : Conserved t) : KeepsCache s a := by
  cases a with
  | send pdata =>
    by_cases hlong : MAX_SEND_BUFFER_LEN < pdata.length
    · exact .inl hlong
    right
    have hle := Nat.not_lt.mp hlong
    simp only [step, send_accepting hs.fd hs.live hle] at h
    cases h
    have hc := hs.conserved
    change s.accepted ++ s.unsent ++ s.send_l2_cache_.contents ++
      (s.send_l1_cache_.reset.append pdata).contents = _ at ht
    have hcl := congrArg List.length hc
    have htl := congrArg List.length ht
    have hmax : 0 < MAX_SEND_BUFFER_LEN := by decide
    rw [contents_reset_append, flatten_payloads] at htl
    simp only [List.length_append] at hcl htl
    rw [hs.l1_sane.length_eq]
    by_cases hshort : pdata.length < MAX_SEND_BUFFER_LEN
    · rw [if_pos hshort] at htl
      exact ⟨by omega,hshort⟩
    · rw [if_neg hshort, List.length_nil] at htl
      omega
  | _ => trivial

/-- On an open port, without hard write errors, every accepted payload is conserved exactly when
each payload finds the level-one cache empty and leaves a byte of it free. -/
theorem send_conserves_iff {fd : ℤ} (hfd : fd ≠ -1) {labels : List Label}
    (hh : EveryStep step NoHardError (opened fd false) labels) :
    EveryStep step KeepsCache (opened fd false) labels ↔
      EveryState step Conserved (opened fd false) labels :=
  hh.iff_everyState (accounted_opened hfd) (fun _ hs => hs.conserved)
    (fun _ _ _ hs hh hc h => step_accounted hs hh hc h)
    (fun _ _ _ hs _ h ht => keepsCache_of_conserved hs h ht)

/-- Two payloads, the second one sent while the first is being written in two parts. -/
theorem send_conserves_two : EveryState step Conserved (opened 3 false)
    [.send [1,2],.writeEvent true,.swapL2,.swapL1,.write (.count 1),.send [3],.write .again,
      .write (.count 1),.finish] :=
  (send_conserves_iff (by decide) (by decide)).mp (by decide)

/-- The second of two payloads sent before the poller runs replaces the first. -/
theorem second_payload_replaces_first :
    EveryStep step NoHardError (opened 3 false) [.send [1],.send [2]] ∧
    ¬ EveryState step Conserved (opened 3 false) [.send [1],.send [2]] := by
  refine ⟨by decide,?_⟩
  intro h
  have hl := h.last rfl
  revert hl
  unfold Conserved
  decide

end OctCommu.SerialPort.Send
