import OctCommu.SerialPort.SendPath

/-! # Waiting serial data and the write watch

`send` raises `listen_to_write_` under the level-one lock, the poller thread
lowers it again without the lock at the end of `flushAllData`. A payload stored
in between is left without a watch.
-/
namespace OctCommu.SerialPort.Send
open Runs Util

/-- Outside `flushAllData` a nonempty cache is watched for. -/
def NotStranded (s : State) : Prop :=
  s.poller = .outside → s.send_l1_cache_.length ≠ 0 ∨ s.send_l2_cache_.length ≠ 0 →
    s.listen_to_write_ = true

/-- The watch is given up behind the write loop only with nothing in the level-one cache. -/
def StopsDrained (s : State) : Label → Prop
  | .finish =>
    match s.poller with
    | .wrote sent_count =>
      s.send_swap_cache_.length = sent_count ∨ s.send_l1_cache_.length = 0
    | _ => True
  | _ => True

/-- The invariant of all steps but the unlocked clear: level two is never filled, and level one
only together with the flag. -/
structure Watched (s : State) : Prop where
  l2_empty : s.send_l2_cache_.length = 0
  listening : s.send_l1_cache_.length ≠ 0 → s.listen_to_write_ = true

theorem Watched.notStranded {s : State} (hs : Watched s) : NotStranded s := by
  intro _ h
  exact hs.listening (h.resolve_right (not_not.mpr hs.l2_empty))

theorem watched_opened (fd : ℤ) (suspended : Bool) : Watched (opened fd suspended) :=
  ⟨rfl,fun h => absurd rfl h⟩

theorem Watched.flushAllData {s : State} (hs : Watched s) : Watched (flushAllData s) :=
  ⟨hs.l2_empty,hs.listening⟩

theorem Watched.send {s : State} (hs : Watched s) (pdata : List UInt8) :
    Watched (send s pdata).2 := by
  by_cases h : s.sp_fd_ = -1 ∨ s.sp_suspend_ = true ∨ MAX_SEND_BUFFER_LEN < pdata.length
  · obtain ⟨_,e,he⟩ := send_refused h
    rw [he]
    exact ⟨hs.l2_empty,hs.listening⟩
  · simp only [not_or, Bool.not_eq_true, Nat.not_lt] at h
    rw [send_accepting h.1 h.2.1 h.2.2]
    exact ⟨hs.l2_empty,fun _ => rfl⟩

theorem step_watched {s t : State} {a : Label} (hs : Watched s) (hc : StopsDrained s a)
    (h : step s a = some t) : Watched t := by
  cases steps_of_step h with
  | send pdata =>
    have hw := hs.send pdata
    exact ⟨hw.l2_empty,hw.listening⟩
  | idle | again => exact hs
  | writeEvent | flushAgain => exact hs.flushAllData
  | swapL2 _ hl2 => exact absurd hs.l2_empty hl2
  | swapL1 => exact ⟨hs.l2_empty,fun hl => absurd rfl hl⟩
  | emptyL1 _ _ hl1 => exact ⟨hs.l2_empty,fun hl => absurd hl1 hl⟩
  | emptyL2 | filled | writeLast | write | failed | leave => exact ⟨hs.l2_empty,hs.listening⟩
  | finish hp hall =>
    have hd : s.send_l1_cache_.length = 0 := by
      simp only [StopsDrained, hp] at hc
      exact hc.resolve_left hall
    exact ⟨hs.l2_empty,fun hne => absurd hd hne⟩

theorem stopsDrained_of_notStranded {s t : State} {a : Label} (h : step s a = some t)
    (ht : NotStranded t) : StopsDrained s a := by
  cases steps_of_step h with
  | flushAgain hp hall =>
    simp only [StopsDrained, hp]
    exact .inl hall
  | finish hp _ =>
    simp only [StopsDrained, hp]
    right
    by_contra hl1
    exact absurd (ht rfl (.inl hl1)) (by simp)
  | _ => trivial

/-- No payload is ever stranded in a run exactly when each clear behind the write loop finds the
level-one cache empty. -/
theorem send_not_stranded_iff (fd : ℤ) (suspended : Bool) (labels : List Label) :
    EveryStep step StopsDrained (opened fd suspended) labels ↔
      EveryState step NotStranded (opened fd suspended) labels :=
  everyStep_iff_everyState (watched_opened fd suspended) (fun _ hs => hs.notStranded)
    (fun _ _ _ hs hc h => step_watched hs hc h)
    (fun _ _ _ _ h ht => stopsDrained_of_notStranded h ht)

/-- A payload sent while the previous one is being written is left without a watch. -/
theorem send_during_flush_is_stranded : ¬ EveryState step NotStranded (opened 3 false)
    [.send [1],.writeEvent true,.swapL2,.swapL1,.send [2],.write (.count 1),.finish] := by
  intro h
  have hl := h.last rfl
  revert hl
  unfold NotStranded
  decide

end OctCommu.SerialPort.Send
