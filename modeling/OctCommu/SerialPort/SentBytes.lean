import OctCommu.SerialPort.FlushAllData

/-! # What `sent_bytes_` counts

A call of `flushAllData` adds each count that `write` returns, except for one that
completes the pass. A pass that an error ends is counted in full, any other is not.
-/
namespace OctCommu.SerialPort.Send
open Memory Runs Util

/-- The bytes per second, by the clock since the last call. -/
def sendSpeed (s : State) (elapsed_s : ℤ) : ℤ × State :=
  let diff := if elapsed_s ≤ 0 then 1 else elapsed_s
  (toInt32 (s.sent_bytes_.toNat / diff.toNat : ℕ),{ s with sent_bytes_ := 0 })

/-- A step of one call of `flushAllData`, or a `send` of another thread. -/
def Label.InCall : Label → Prop
  | .writeEvent _ => False
  | _ => True

/-- A `write` that fails other than with `EAGAIN`. -/
def Label.fails : Label → Bool
  | .write .failed => true
  | _ => false

/-- From `s` to `t` the counter rose by what was accepted. -/
def CountsAccepted (s t : State) : Prop :=
  t.sent_bytes_ = s.sent_bytes_ + (t.accepted.length - s.accepted.length).toUInt64

/-- What a call that began in `s` has had accepted and has counted, by its place; `failed` tells
whether a `write` failed. -/
def Tally (s : State) (failed : Bool) (t : State) (taken : ℕ) : Poller → Prop
  | .swapL2 | .swapL1 => failed = false ∧ taken = 0 ∧ t.sent_bytes_ = s.sent_bytes_
  | .writing sent_count => failed = false ∧ taken = sent_count ∧
      t.sent_bytes_ = s.sent_bytes_ + sent_count.toUInt64 ∧
      (sent_count = 0 ∨ sent_count < t.send_swap_cache_.current_len_)
  | .wrote sent_count => t.sent_bytes_ = s.sent_bytes_ + sent_count.toUInt64 ∧
      ((failed = false ∧ taken = t.send_swap_cache_.current_len_ ∧
          (sent_count < taken ∨ sent_count = 0 ∧ taken = 0)) ∨
        (failed = true ∧ taken = sent_count ∧ sent_count < t.send_swap_cache_.current_len_))
  | .outside => ∃ sent_count, t.sent_bytes_ = s.sent_bytes_ + sent_count.toUInt64 ∧
      ((failed = false ∧ sent_count < taken ∧ taken ≤ MAX_SEND_BUFFER_LEN) ∨
        (failed = true ∧ taken = sent_count))

structure Tallied (s : State) (failed : Bool) (t : State) : Prop where
  cached : Cached t
  tally : ∃ taken, t.accepted.length = s.accepted.length + taken ∧ Tally s failed t taken t.poller

variable {s t u : State} {failed : Bool}

theorem tallied_flushAllData (hs : Cached s) : Tallied s false (flushAllData s) :=
  ⟨hs.flushAllData,0,rfl,rfl,rfl,rfl⟩

/-- A step that touches neither the pass nor the counter. -/
theorem Tallied.frame (h : Tallied s failed t) (hc : Cached u) (ha : u.accepted = t.accepted)
    (hb : u.sent_bytes_ = t.sent_bytes_) (hw : u.send_swap_cache_ = t.send_swap_cache_)
    (hp : u.poller = t.poller) : Tallied s failed u := by
  obtain ⟨taken,hlen,htally⟩ := h.tally
  refine ⟨hc,taken,by rw [ha]; exact hlen,?_⟩
  rw [hp]
  cases hplace : t.poller with
  | outside | swapL2 | swapL1 | writing | wrote =>
    rw [hplace] at htally
    simpa only [Tally, hb, hw] using htally

theorem accept_length {sent_count n : ℕ} (h : sent_count + n ≤ t.send_swap_cache_.current_len_) :
    (t.accept sent_count n).accepted.length = t.accepted.length + n := by
  simp only [State.accept, List.length_append, List.length_take, List.length_drop,
    FixedBuffer.contents_length]
  omega

theorem step_tallied {a : Label} (h : Tallied s failed t) (hcall : a.InCall)
    (ht : step t a = some u) : Tallied s (failed || a.fails) u := by
  have hc := step_cached h.cached ht
  have hmax := h.cached.swap.le_size
  obtain ⟨taken,hlen,htally⟩ := h.tally
  have hsteps := steps_of_step ht
  -- only a failing `write` changes what `failed` says
  have hsame : a.fails = false → (failed || a.fails) = failed := fun hf => by rw [hf, Bool.or_false]
  cases hsteps with
  | idle | writeEvent => exact hcall.elim
  | send pdata =>
    have hsend : ((send t pdata).2.accepted = t.accepted ∧ (send t pdata).2.sent_bytes_ = t.sent_bytes_ ∧
        (send t pdata).2.send_swap_cache_ = t.send_swap_cache_ ∧ (send t pdata).2.poller = t.poller) := by
      unfold send
      split_ifs <;> exact ⟨rfl,rfl,rfl,rfl⟩
    rw [hsame rfl]
    exact h.frame hc hsend.1 hsend.2.1 hsend.2.2.1 hsend.2.2.2
  | swapL2 hp _ | emptyL2 hp _ =>
    rw [hp] at htally
    rw [hsame rfl]
    exact ⟨hc,taken,hlen,htally⟩
  | swapL1 hp _ _ | emptyL1 hp _ _ | filled hp _ =>
    rw [hp] at htally
    obtain ⟨hf,rfl,hb⟩ := htally
    rw [hsame rfl]
    exact ⟨hc,0,hlen,hf,rfl,by simp [hb],.inl rfl⟩
  | @writeLast _ n hp hn hlast =>
    rw [hp] at htally
    obtain ⟨hf,rfl,hb,_⟩ := htally
    rw [hsame rfl]
    refine ⟨hc,taken + n,(accept_length hlast.le).trans (by omega),hb,.inl ⟨hf,hlast,.inl (by omega)⟩⟩
  | @write _ n hp hn hlt =>
    rw [hp] at htally
    obtain ⟨hf,rfl,hb,_⟩ := htally
    rw [hsame rfl]
    refine ⟨hc,taken + n,(accept_length hlt.le).trans (by omega),hf,rfl,?_,.inr hlt⟩
    simp only [hb, Nat.toUInt64_eq, UInt64.ofNat_add, UInt64.add_assoc]
  | again =>
    rw [hsame rfl]
    exact h
  | failed hp hlt =>
    rw [hp] at htally
    obtain ⟨_,rfl,hb,_⟩ := htally
    exact ⟨hc,taken,hlen,hb,.inr ⟨Bool.or_true failed,rfl,hlt⟩⟩
  | leave hp hle =>
    rw [hp] at htally
    obtain ⟨hf,rfl,hb,hlt⟩ := htally
    rw [hsame rfl]
    refine ⟨hc,taken,hlen,hb,.inl ⟨hf,?_,.inr ?_⟩⟩
    · dsimp only
      omega
    · omega
  | flushAgain hp hall =>
    -- the caches were empty, and the call begins again
    rw [hp] at htally
    simp only [FixedBuffer.length, h.cached.swap.cur_eq] at hall
    obtain ⟨hb,⟨hf,htaken,hle⟩ | ⟨_,_,hlt⟩⟩ := htally
    · have hzero : t.send_swap_cache_.current_len_ = 0 ∧ taken = 0 := by omega
      rw [hsame rfl]
      refine ⟨hc,0,hzero.2 ▸ hlen,hf,rfl,?_⟩
      rw [← hall, hzero.1] at hb
      simpa [flushAllData] using hb
    · omega
  | finish hp hall =>
    rw [hp] at htally
    simp only [FixedBuffer.length, h.cached.swap.cur_eq] at hall
    obtain ⟨hb,⟨hf,htaken,hle⟩ | ⟨hf,htaken,_⟩⟩ := htally
    · rw [hsame rfl]
      exact ⟨hc,taken,hlen,_,hb,.inl ⟨hf,by omega,by omega⟩⟩
    · rw [hsame rfl]
      exact ⟨hc,taken,hlen,_,hb,.inr ⟨hf,htaken⟩⟩

theorem exec_tallied {labels : List Label} (h : Tallied s failed t) (hcall : ∀ a ∈ labels, a.InCall)
    (ht : exec step t labels = some u) : Tallied s (failed || labels.any Label.fails) u := by
  induction labels generalizing t failed with
  | nil =>
    cases ht
    simpa using h
  | cons a labels ih =>
    obtain ⟨v,hv,hu⟩ := Option.bind_eq_some_iff.mp ht
    have hstep := step_tallied h (hcall a List.mem_cons_self) hv
    rw [List.any_cons, ← Bool.or_assoc]
    exact ih hstep (fun b hb => hcall b (List.mem_cons_of_mem _ hb)) hu

theorem Tallied.counts_iff (h : Tallied s failed t) (hout : t.poller = .outside) :
    CountsAccepted s t ↔ failed = true := by
  obtain ⟨taken,hlen,htally⟩ := h.tally
  rw [hout] at htally
  obtain ⟨sent_count,hb,⟨hf,hlt,hle⟩ | ⟨hf,htaken⟩⟩ := htally
  · refine iff_of_false ?_ (by simp [hf])
    intro hcount
    rw [CountsAccepted, hb, hlen, Nat.add_sub_cancel_left] at hcount
    have hmax : MAX_SEND_BUFFER_LEN < UInt64.size := by decide
    have hnat := congrArg UInt64.toNat ((UInt64.add_right_inj _).mp hcount)
    rw [Nat.toUInt64_eq, Nat.toUInt64_eq, UInt64.toNat_ofNat_of_lt' (by omega),
      UInt64.toNat_ofNat_of_lt' (by omega)] at hnat
    omega
  · refine iff_of_true ?_ hf
    rw [CountsAccepted, hb, hlen, Nat.add_sub_cancel_left, htaken]

theorem any_fails_iff (labels : List Label) : labels.any Label.fails = true ↔ .write .failed ∈ labels := by
  rw [List.any_eq_true]
  constructor
  · rintro ⟨a,ha,hf⟩
    unfold Label.fails at hf
    split at hf
    · exact ha
    · cases hf
  · exact fun h => ⟨_,h,rfl⟩

/-- A call that returns has counted what `write` accepted just when a `write` of it failed, whatever is
sent meanwhile. -/
theorem flushAllData_counts_iff {labels : List Label} (hs : Cached s) (hcall : ∀ a ∈ labels, a.InCall)
    (ht : exec step (flushAllData s) labels = some t) (hout : t.poller = .outside) :
    CountsAccepted s t ↔ .write .failed ∈ labels := by
  have htallied := exec_tallied (tallied_flushAllData hs) hcall ht
  rw [htallied.counts_iff hout, Bool.false_or]
  exact any_fails_iff labels

/-- One of two bytes is taken before the device fails. -/
theorem flushAllData_counts_one : ∃ s t, step (opened 3 false) (.send [1,2]) = some s ∧
    exec step (flushAllData s) [.swapL2,.swapL1,.write (.count 1),.write .failed,.finish] = some t ∧
    CountsAccepted s t := by
  have hcall : ∀ a ∈ [Label.swapL2,.swapL1,.write (.count 1),.write .failed,.finish], a.InCall := by
    simp [Label.InCall]
  refine ⟨_,_,rfl,rfl,?_⟩
  exact (flushAllData_counts_iff (step_cached (a := .send [1,2]) (cached_opened 3 false) rfl) hcall rfl
    rfl).mpr (by simp)

/-- Two bytes that are taken at once are not counted. -/
theorem whole_write_uncounted : ∃ s t, step (opened 3 false) (.send [1,2]) = some s ∧
    exec step (flushAllData s) [.swapL2,.swapL1,.write (.count 2),.finish] = some t ∧
    t.poller = .outside ∧ t.accepted.length = 2 ∧ t.sent_bytes_ = 0 ∧ ¬ CountsAccepted s t := by
  refine ⟨_,_,rfl,rfl,rfl,rfl,rfl,?_⟩
  unfold CountsAccepted
  decide

/-- With everything counted the reported speed is that of the accepted bytes. -/
theorem sendSpeed_of_counts (h : CountsAccepted s t) (hs : s.sent_bytes_ = 0)
    (hlt : t.accepted.length - s.accepted.length < UInt64.size) (elapsed_s : ℤ) :
    (sendSpeed t elapsed_s).1 = toInt32 ((t.accepted.length - s.accepted.length) /
      (if elapsed_s ≤ 0 then 1 else elapsed_s).toNat : ℕ) := by
  rw [CountsAccepted, hs, UInt64.zero_add] at h
  rw [sendSpeed, h, Nat.toUInt64_eq, UInt64.toNat_ofNat_of_lt' hlt]

end OctCommu.SerialPort.Send
