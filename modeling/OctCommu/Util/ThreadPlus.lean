import OctCommu.Lib.Runs

/-! # `ThreadPlus`

One owner calls `start`, `shutdown` and the destructor; the threads it makes run
`startThread`. A call that blocks is enabled when it would return. After a fault
the process is gone.
-/
namespace OctCommu.Util
open Runs

/-- Where a thread is in `startThread`: before its `countDown`, or in `func_`. -/
inductive RunPc where
  | entering
  | inFunc
  deriving DecidableEq

/-- A `ThreadData`: the thread that has it, if one still has, and how often it was deleted. -/
structure ThreadData where
  pc : Option RunPc
  deleted : ℕ
  deriving DecidableEq

/-- The object behind `thread_`, with the number of the `ThreadData` it was given. -/
structure StdThread where
  joinable : Bool
  data : ℕ
  deriving DecidableEq

inductive Fault where
  /-- A joinable `std::thread` is destroyed or replaced. -/
  | joinableDestroyed
  /-- `thread_` is empty where it is read through. -/
  | nullThread
  /-- `startThread` is given no `ThreadData`. -/
  | nullData
  /-- `detach` throws in the destructor. -/
  | uncaught
  deriving DecidableEq

/-- What becomes of the new `std::thread`: its constructor may throw. -/
inductive ThreadMade where
  | made
  | noMemory
  | refused
  deriving DecidableEq

structure ThreadPlus where
  func_ : Bool
  started_ : Bool
  joined_ : Bool
  /-- `latch_`, as its `count_`. -/
  latch_ : ℤ
  thread_ : Option StdThread
  /-- A `start` is in `latch_.wait`. -/
  waiting : Bool
  destroyed : Bool
  data : List ThreadData
  fault : Option Fault
  deriving DecidableEq

inductive ThreadAct where
  | start (data : Bool) (result : ThreadMade)
  /-- `start` returns from `latch_.wait`. -/
  | wait
  | shutdown
  | destroy
  | countDown (i : ℕ)
  /-- `func_` returns, and the thread deletes its `ThreadData`. -/
  | finish (i : ℕ)
  deriving DecidableEq

namespace ThreadPlus

def fresh (func_ : Bool) : ThreadPlus := ⟨func_,false,false,1,none,false,false,[],none⟩

def joinable (s : ThreadPlus) : Bool := s.thread_.any fun t => t.joinable

/-- `thread_.reset` -/
def reset (s : ThreadPlus) (t : Option StdThread) : ThreadPlus :=
  if s.joinable then { s with fault := some .joinableDestroyed } else { s with thread_ := t }

/-- The new `std::thread` is there before the old one goes. -/
def startMade (s : ThreadPlus) (data : Bool) : ThreadPlus :=
  let t := s.reset (some ⟨true,s.data.length⟩)
  if data then { t with data := s.data ++ [⟨some .entering,0⟩], waiting := true }
  else { t with fault := t.fault <|> some .nullData }

/-- Nothing catches what the constructor of `std::thread` throws. -/
def start (s : ThreadPlus) (data : Bool) (result : ThreadMade) : ThreadPlus :=
  if s.func_ = false then s
  else match result with
    | .made => { s with started_ := true }.startMade data
    | .noMemory => { s.reset none with
        started_ := false
        data := if data then s.data ++ [⟨none,1⟩] else s.data }
    | .refused => { s with
        started_ := true
        data := if data then s.data ++ [⟨none,0⟩] else s.data }

/-- Has the thread that was given this `ThreadData` come to its end? -/
def ended (s : ThreadPlus) (i : ℕ) : Bool := (s.data[i]?).all fun d => d.pc.isNone

/-- A join waits for the end of the thread. `joined_` is never reset. -/
def shutdown (s : ThreadPlus) : Option ThreadPlus :=
  match s.thread_ with
  | none => some { s with fault := some .nullThread }
  | some t =>
    if t.joinable then
      if s.ended t.data then
        some { s with thread_ := some { t with joinable := false }, joined_ := true }
      else none
    else some { s with joined_ := true }

/-- What the destructor does itself. -/
def detach (s : ThreadPlus) : ThreadPlus :=
  if s.started_ && !s.joined_ then
    match s.thread_ with
    | none => { s with fault := some .nullThread }
    | some t =>
      if t.joinable then { s with thread_ := some { t with joinable := false } }
      else { s with fault := some .uncaught }
  else s

/-- `~ThreadPlus`; its members go last, and with them what is behind `thread_`. -/
def destroy (s : ThreadPlus) : ThreadPlus :=
  let t := s.detach
  { t with
    destroyed := true
    fault := if t.joinable then t.fault <|> some .joinableDestroyed else t.fault }

def setPc (s : ThreadPlus) (i : ℕ) (d : ThreadData) : ThreadPlus := { s with data := s.data.set i d }

/-- The owner is inside no call and has not destroyed the object. -/
def atRest (s : ThreadPlus) : Bool := !s.waiting && !s.destroyed

def act (s : ThreadPlus) : ThreadAct → Option ThreadPlus
  | .start data result => if s.atRest then some (s.start data result) else none
  | .wait => if s.waiting ∧ s.latch_ ≤ 0 then some { s with waiting := false } else none
  | .shutdown => if s.atRest then s.shutdown else none
  | .destroy => if s.atRest then some s.destroy else none
  | .countDown i =>
    match s.data[i]? with
    | some ⟨some .entering,deleted⟩ =>
      some { s.setPc i ⟨some .inFunc,deleted⟩ with latch_ := s.latch_ - 1 }
    | _ => none
  | .finish i =>
    match s.data[i]? with
    | some ⟨some .inFunc,deleted⟩ => some (s.setPc i ⟨none,deleted + 1⟩)
    | _ => none

def step (s : ThreadPlus) (a : ThreadAct) : Option ThreadPlus :=
  if s.fault.isSome then none else s.act a

/-- A `ThreadData` is with its thread, or was deleted once. -/
def Released (d : ThreadData) : Prop := d.deleted = if d.pc.isSome then 0 else 1

structure Safe (s : ThreadPlus) : Prop where
  handle : s.fault ≠ some .joinableDestroyed
  pointer : s.fault ≠ some .nullThread
  data : ∀ d ∈ s.data, Released d

/-- A `start` finds no joinable thread and is not refused one, `shutdown` finds a thread, and a
thread that is still joinable is destroyed only if no `shutdown` came before. -/
def Orderly (s : ThreadPlus) : ThreadAct → Prop
  | .start data result => s.func_ = true →
    (result = .refused → data = false) ∧ (result ≠ .refused → s.joinable = false)
  | .shutdown => s.thread_ ≠ none
  | .destroy => (s.joined_ = true → s.joinable = false) ∧
    (s.started_ = true → s.joined_ = false → s.thread_ ≠ none)
  | _ => True

structure Inv (s : ThreadPlus) : Prop extends s.Safe where
  started : s.joinable = true → s.started_ = true

theorem inv_fresh (func_ : Bool) : (fresh func_).Inv where
  handle := by simp [fresh]
  pointer := by simp [fresh]
  data := by simp [fresh]
  started := by simp [fresh, joinable]

theorem step_cases {s t : ThreadPlus} {a : ThreadAct} (h : step s a = some t) :
    s.fault = none ∧ s.act a = some t := by
  unfold step at h
  split at h
  · cases h
  · rename_i hf
    exact ⟨by simpa using hf,h⟩

theorem reset_of_not_joinable {s : ThreadPlus} (h : s.joinable = false) (t : Option StdThread) :
    s.reset t = { s with thread_ := t } := by
  simp [reset, h]

theorem reset_of_joinable {s : ThreadPlus} (h : s.joinable = true) (t : Option StdThread) :
    (s.reset t).fault = some .joinableDestroyed := by
  simp [reset, h]

theorem released_append {ds : List ThreadData} {d : ThreadData}
    (h : ∀ e ∈ ds, Released e) (hd : Released d) : ∀ e ∈ ds ++ [d], Released e := by
  intro e he
  rcases List.mem_append.mp he with he | he
  · exact h e he
  · rw [List.mem_singleton.mp he]
    exact hd

theorem released_set {ds : List ThreadData} {i : ℕ} {d : ThreadData}
    (h : ∀ e ∈ ds, Released e) (hd : Released d) : ∀ e ∈ ds.set i d, Released e := by
  intro e he
  rcases List.mem_or_eq_of_mem_set he with he | rfl
  · exact h e he
  · exact hd

theorem startMade_of_not_joinable {s : ThreadPlus} (h : s.joinable = false) (data : Bool) :
    s.startMade data = { s with
      thread_ := some ⟨true,s.data.length⟩
      data := if data then s.data ++ [⟨some .entering,0⟩] else s.data
      waiting := data || s.waiting
      fault := if data then s.fault else s.fault <|> some .nullData } := by
  cases data <;> simp [startMade, reset_of_not_joinable h]

theorem fault_startMade {s : ThreadPlus} (h : s.joinable = true) (data : Bool) :
    (s.startMade data).fault = some .joinableDestroyed := by
  cases data <;> simp [startMade, reset_of_joinable h]

theorem Inv.start {s : ThreadPlus} (h : s.Inv) (hf : s.fault = none) {data : Bool}
    {result : ThreadMade} (hc : s.Orderly (.start data result)) : (s.start data result).Inv := by
  unfold ThreadPlus.start
  split
  · exact h
  · rename_i hfunc
    obtain ⟨hrefused,hjoin⟩ := hc (by simpa using hfunc)
    cases result with
    | made =>
      have hj : { s with started_ := true }.joinable = false := hjoin (by simp)
      simp only [startMade_of_not_joinable hj]
      cases data with
      | true => exact ⟨⟨h.handle,h.pointer,released_append h.data rfl⟩,fun _ => rfl⟩
      | false => exact ⟨⟨by simp [hf],by simp [hf],h.data⟩,fun _ => rfl⟩
    | noMemory =>
      simp only [reset_of_not_joinable (hjoin (by simp))]
      refine ⟨⟨h.handle,h.pointer,?_⟩,fun hj => by cases hj⟩
      cases data with
      | true => exact released_append h.data rfl
      | false => exact h.data
    | refused =>
      obtain rfl := hrefused rfl
      exact ⟨⟨h.handle,h.pointer,h.data⟩,fun _ => rfl⟩

theorem joinable_eq {s : ThreadPlus} {u : StdThread} (h : s.thread_ = some u) :
    s.joinable = u.joinable := by
  simp [joinable, h]

theorem Inv.shutdown {s t : ThreadPlus} (h : s.Inv) (hc : s.Orderly .shutdown)
    (ht : s.shutdown = some t) : t.Inv := by
  unfold ThreadPlus.shutdown at ht
  cases hthread : s.thread_ with
  | none => exact absurd hthread hc
  | some u =>
    simp only [hthread] at ht
    split at ht
    · split at ht
      · cases ht
        exact ⟨⟨h.handle,h.pointer,h.data⟩,fun hj => by cases hj⟩
      · cases ht
    · cases ht
      refine ⟨⟨h.handle,h.pointer,h.data⟩,fun hj => ?_⟩
      apply h.started
      rw [joinable_eq hthread]
      exact hj

/-- The destructor does not find itself without a thread, and leaves no joinable one. -/
theorem Inv.detach {s : ThreadPlus} (h : s.Inv) (hc : s.Orderly .destroy) :
    s.detach.Inv ∧ s.detach.joinable = false := by
  obtain ⟨hjoined,hthere⟩ := hc
  unfold ThreadPlus.detach
  split
  · rename_i hon
    simp only [Bool.and_eq_true, Bool.not_eq_true'] at hon
    cases hthread : s.thread_ with
    | none => exact absurd hthread (hthere hon.1 hon.2)
    | some u =>
      simp only
      split
      · exact ⟨⟨⟨h.handle,h.pointer,h.data⟩,fun hj => by cases hj⟩,rfl⟩
      · rename_i hu
        have hu' : u.joinable = false := by simpa using hu
        exact ⟨⟨⟨by simp,by simp,h.data⟩,fun hjo => absurd (hu'.symm.trans hjo) Bool.noConfusion⟩,hu'⟩
  · rename_i hon
    refine ⟨h,?_⟩
    by_contra hj
    have hj' : s.joinable = true := by simpa using hj
    cases hjo : s.joined_ with
    | true => exact hj (hjoined hjo)
    | false =>
      apply hon
      simp [h.started hj', hjo]

theorem Inv.destroy {s : ThreadPlus} (h : s.Inv) (hc : s.Orderly .destroy) : s.destroy.Inv := by
  obtain ⟨hd,hj⟩ := h.detach hc
  simp only [ThreadPlus.destroy, hj]
  exact ⟨⟨hd.handle,hd.pointer,hd.data⟩,fun hjo => hd.started hjo⟩

/-- What a thread does keeps its own `ThreadData` in order, and no other. -/
theorem Inv.setPc {s : ThreadPlus} (h : s.Inv) (i : ℕ) {d : ThreadData} (hd : Released d) :
    (s.setPc i d).Inv :=
  ⟨⟨h.handle,h.pointer,released_set h.data hd⟩,h.started⟩

theorem step_good {s t : ThreadPlus} {a : ThreadAct} (h : s.Inv) (hc : s.Orderly a)
    (ht : step s a = some t) : t.Inv := by
  obtain ⟨hf,ht⟩ := step_cases ht
  cases a with
  | start data result =>
    obtain ⟨_,⟨⟩⟩ := Option.ite_none_right_eq_some.mp ht
    exact h.start hf hc
  | wait =>
    obtain ⟨_,⟨⟩⟩ := Option.ite_none_right_eq_some.mp ht
    exact ⟨⟨h.handle,h.pointer,h.data⟩,h.started⟩
  | shutdown => exact h.shutdown hc (Option.ite_none_right_eq_some.mp ht).2
  | destroy =>
    obtain ⟨_,⟨⟩⟩ := Option.ite_none_right_eq_some.mp ht
    exact h.destroy hc
  | countDown i =>
    simp only [act] at ht
    split at ht
    · rename_i deleted hd
      cases ht
      have hr : Released ⟨some .entering,deleted⟩ := h.data _ (List.mem_of_getElem? hd)
      have hset := h.setPc i (d := ⟨some .inFunc,deleted⟩) hr
      exact ⟨⟨hset.handle,hset.pointer,hset.data⟩,hset.started⟩
    · cases ht
  | finish i =>
    simp only [act] at ht
    split at ht
    · rename_i deleted hd
      cases ht
      have hr : Released ⟨some .inFunc,deleted⟩ := h.data _ (List.mem_of_getElem? hd)
      exact h.setPc i (congrArg (fun n => n + 1) hr)
    · cases ht

/-- A joinable thread is lost to the next `start` or to the destructor, there is none where one is
needed, or a `ThreadData` is left to nobody. -/
theorem step_bad {s t : ThreadPlus} {a : ThreadAct} (ht : step s a = some t)
    (hp : t.Safe) : s.Orderly a := by
  obtain ⟨hf,ht⟩ := step_cases ht
  cases a with
  | start data result =>
    obtain ⟨_,⟨⟩⟩ := Option.ite_none_right_eq_some.mp ht
    intro hfunc
    have hne : ¬ s.func_ = false := by simp [hfunc]
    simp only [ThreadPlus.start, if_neg hne] at hp
    cases result with
    | made =>
      refine ⟨fun he => ThreadMade.noConfusion he,fun _ => ?_⟩
      by_contra hj
      have hj' : { s with started_ := true }.joinable = true := eq_true_of_ne_false hj
      exact hp.handle (fault_startMade hj' data)
    | noMemory =>
      refine ⟨fun he => ThreadMade.noConfusion he,fun _ => ?_⟩
      by_contra hj
      exact hp.handle (reset_of_joinable (eq_true_of_ne_false hj) none)
    | refused =>
      refine ⟨fun _ => ?_,fun he => absurd rfl he⟩
      by_contra hd
      have hlost := hp.data ⟨none,0⟩ (by simp [show data = true by simpa using hd])
      cases hlost
  | shutdown =>
    intro hnone
    have ht := (Option.ite_none_right_eq_some.mp ht).2
    simp only [ThreadPlus.shutdown, hnone] at ht
    cases ht
    exact hp.pointer rfl
  | destroy =>
    obtain ⟨_,⟨⟩⟩ := Option.ite_none_right_eq_some.mp ht
    constructor
    · intro hjoined
      by_contra hj
      have hdetach : s.detach = s := by simp [ThreadPlus.detach, hjoined]
      apply hp.handle
      simp [ThreadPlus.destroy, hdetach, hj, hf]
    · intro hstarted hjoined hnone
      apply hp.pointer
      simp [ThreadPlus.destroy, ThreadPlus.detach, hstarted, hjoined, hnone, joinable]
  | wait | countDown | finish => trivial

/-- No joinable thread is lost, no empty `thread_` read and no `ThreadData` kept just as long as each
call comes in such a moment. -/
theorem orderly_iff_safe (func_ : Bool) (as : List ThreadAct) :
    EveryStep step Orderly (fresh func_) as ↔ EveryState step Safe (fresh func_) as := by
  apply everyStep_iff_everyState (inv_fresh func_)
  · intro s h
    exact h.toSafe
  · intro s a t h hc ht
    exact step_good h hc ht
  · intro s a t _ ht hp
    exact step_bad ht hp

/-- A `shutdown` in front of the first `start` reads an empty `thread_`. And `joined_` stays set, so
the thread of a later `start` is not detached. -/
theorem not_safe_early_shutdown_and_restart :
    ¬ EveryState step Safe (fresh true) [.shutdown] ∧
      ¬ EveryState step Safe (fresh true) [.start true .made,.countDown 0,.wait,.finish 0,.shutdown,
        .start true .made,.wait,.destroy] := by
  constructor
  · exact fun h => absurd (h.last rfl).pointer (by decide)
  · exact fun h => absurd (h.last rfl).handle (by decide)

/-- A `start` that waits finds the latch open, or a thread that will count it down. -/
structure LatchOpens (s : ThreadPlus) : Prop where
  le_one : s.latch_ ≤ 1
  opens : s.waiting = true → s.latch_ ≤ 0 ∨
    ∃ (i deleted : ℕ), s.data[i]? = some (ThreadData.mk (some .entering) deleted)

theorem latchOpens_fresh (func_ : Bool) : (fresh func_).LatchOpens :=
  ⟨Int.le_refl 1,fun h => by cases h⟩

theorem latch_reset (s : ThreadPlus) (t : Option StdThread) :
    (s.reset t).latch_ = s.latch_ ∧ (s.reset t).waiting = s.waiting := by
  unfold reset
  split
  · exact ⟨rfl,rfl⟩
  · exact ⟨rfl,rfl⟩

theorem LatchOpens.start {s : ThreadPlus} (h : s.LatchOpens) (hrest : s.waiting = false)
    (data : Bool) (result : ThreadMade) : (s.start data result).LatchOpens := by
  have hnone : ∀ {p : Prop}, s.waiting = true → p := fun hw => by rw [hrest] at hw; cases hw
  unfold ThreadPlus.start
  split
  · exact h
  · cases result with
    | made =>
      obtain ⟨hl,hw⟩ := latch_reset { s with started_ := true } (some ⟨true,s.data.length⟩)
      cases data with
      | true =>
        refine ⟨hl.trans_le h.le_one,fun _ => .inr ⟨s.data.length,0,?_⟩⟩
        exact List.getElem?_concat_length
      | false => exact ⟨hl.trans_le h.le_one,fun he => hnone (hw.symm.trans he)⟩
    | noMemory =>
      obtain ⟨hl,hw⟩ := latch_reset s none
      exact ⟨hl.trans_le h.le_one,fun he => hnone (hw.symm.trans he)⟩
    | refused => exact ⟨h.le_one,fun he => hnone he⟩

theorem LatchOpens.of_eq {s t : ThreadPlus} (h : s.LatchOpens) (hl : t.latch_ = s.latch_)
    (hw : t.waiting = s.waiting) (hd : t.data = s.data) : t.LatchOpens := by
  refine ⟨hl ▸ h.le_one,?_⟩
  rw [hl, hw, hd]
  exact h.opens

theorem LatchOpens.shutdown {s t : ThreadPlus} (h : s.LatchOpens) (ht : s.shutdown = some t) :
    t.LatchOpens := by
  unfold ThreadPlus.shutdown at ht
  split at ht
  · cases ht
    exact h.of_eq rfl rfl rfl
  · split at ht
    · split at ht
      · cases ht
        exact h.of_eq rfl rfl rfl
      · cases ht
    · cases ht
      exact h.of_eq rfl rfl rfl

theorem LatchOpens.destroy {s : ThreadPlus} (h : s.LatchOpens) : s.destroy.LatchOpens := by
  have hd : s.detach.latch_ = s.latch_ ∧ s.detach.waiting = s.waiting ∧ s.detach.data = s.data := by
    unfold detach
    split
    · split
      · exact ⟨rfl,rfl,rfl⟩
      · split <;> exact ⟨rfl,rfl,rfl⟩
    · exact ⟨rfl,rfl,rfl⟩
  exact h.of_eq hd.1 hd.2.1 hd.2.2

theorem step_latchOpens {s t : ThreadPlus} {a : ThreadAct} (h : s.LatchOpens)
    (ht : step s a = some t) : t.LatchOpens := by
  obtain ⟨_,ht⟩ := step_cases ht
  cases a with
  | start data result =>
    obtain ⟨hrest,⟨⟩⟩ := Option.ite_none_right_eq_some.mp ht
    simp only [atRest, Bool.and_eq_true, Bool.not_eq_true'] at hrest
    exact h.start hrest.1 data result
  | wait =>
    obtain ⟨_,⟨⟩⟩ := Option.ite_none_right_eq_some.mp ht
    exact ⟨h.le_one,fun he => by cases he⟩
  | shutdown => exact h.shutdown (Option.ite_none_right_eq_some.mp ht).2
  | destroy =>
    obtain ⟨_,⟨⟩⟩ := Option.ite_none_right_eq_some.mp ht
    exact h.destroy
  | countDown i =>
    simp only [act] at ht
    split at ht
    · cases ht
      have hle := h.le_one
      have hopen : s.latch_ - 1 ≤ 0 := by omega
      exact ⟨Int.le_trans hopen Int.one_nonneg,fun _ => .inl hopen⟩
    · cases ht
  | finish i =>
    simp only [act] at ht
    split at ht
    · rename_i deleted hi
      cases ht
      refine ⟨h.le_one,fun he => (h.opens he).imp_right ?_⟩
      rintro ⟨j,n,hj⟩
      have hij : i ≠ j := by
        rintro rfl
        cases hi.symm.trans hj
      exact ⟨j,n,by rw [setPc, List.getElem?_set_ne hij, hj]⟩
    · cases ht

theorem step_wait {s : ThreadPlus} (hf : s.fault = none) (hw : s.waiting = true)
    (hl : s.latch_ ≤ 0) : step s .wait = some { s with waiting := false } := by
  simp [step, act, hf, hw, hl]

/-- In every call order a `start` that waits returns, if need be after a step of a thread. -/
theorem start_returns {func_ : Bool} {as : List ThreadAct} {s : ThreadPlus}
    (h : exec step (fresh func_) as = some s) (hf : s.fault = none) (hw : s.waiting = true) :
    ∃ bs t, exec step s bs = some t ∧ t.waiting = false := by
  have hlast : s.LatchOpens :=
    exec_preserves (fun _ _ _ hl ht => step_latchOpens hl ht) h (latchOpens_fresh func_)
  by_cases hl : s.latch_ ≤ 0
  · exact ⟨[.wait],_,exec_cons (step_wait hf hw hl) rfl,rfl⟩
  · obtain ⟨i,deleted,hi⟩ := (hlast.opens hw).resolve_left hl
    have hdown : step s (.countDown i) =
        some { s.setPc i ⟨some .inFunc,deleted⟩ with latch_ := s.latch_ - 1 } := by
      simp [step, act, hf, hi]
    have hle := hlast.le_one
    have hopen : s.latch_ - 1 ≤ 0 := by omega
    exact ⟨[.countDown i,.wait],_,exec_cons hdown (exec_cons (step_wait hf hw hopen) rfl),rfl⟩

end ThreadPlus
end OctCommu.Util
