import OctCommu.Lib.Runs
import Mathlib.Logic.Function.Basic
import Mathlib.Data.List.Perm.Basic

/-! # The tasks of an `EventPoller`

Any number of threads post; `none` is the thread of the poller, which posts from
within a callback or a task. A post is a push under the mutex and then a write to
the pipe. Tasks are numbered as `async_l` is given them.
-/
namespace OctCommu.Poller
open Runs

inductive PollerPc where
  /-- Inside `epoll_wait`. -/
  | waiting
  /-- After it: has the event of the pipe still to be handled? -/
  | events (pipe : Bool)
  /-- In the read loop of `onPipeEvent`. -/
  | reading
  /-- Behind that loop. -/
  | swapping
  /-- Between two tasks of `_list_swap`, with those that follow. -/
  | batch (_list_swap : List ℕ)
  /-- Inside a task. -/
  | task (_list_swap : List ℕ)
  | exited
  deriving DecidableEq

namespace PollerPc

def rest : PollerPc → List ℕ
  | .batch rest | .task rest => rest
  | .waiting | .events _ | .reading | .swapping | .exited => []

/-- Is the thread in code that may post? -/
def inCode : PollerPc → Bool
  | .events _ | .task _ => true
  | .waiting | .reading | .swapping | .batch _ | .exited => false

end PollerPc

structure EventPoller (I : Type*) where
  _list_task : List ℕ
  /-- How many bytes the pipe holds. -/
  pipe : ℕ
  /-- Has the pipe an event that `epoll_wait` did not return yet? -/
  ready : Bool
  /-- Which threads are between their push and their write. -/
  posting : Option I → Bool
  pc : PollerPc
  _exit_flag : Bool
  tasks : ℕ
  cancelled : List ℕ
  /-- What `_list_swap` held in each `onPipeEvent`. -/
  batches : List (List ℕ)
  /-- The tasks that were run from a batch. -/
  ran : List ℕ
  /-- The tasks that `async_l` ran itself. -/
  inlined : List ℕ

inductive LoopAct where
  /-- `epoll_wait` returns, with the event of the pipe or without. -/
  | wake (pipe : Bool)
  | onPipeEvent
  | read
  | swap
  /-- The next task of the batch begins. -/
  | next
  /-- A task ends. What it throws is caught, and an `ExitException` remembered. -/
  | finish (exit : Bool)
  /-- Back to the head of the loop. -/
  | loop

inductive PollerAct (I : Type*) where
  | async_l (i : Option I) (may_sync first : Bool)
  /-- `fits` is false if the pipe is full. -/
  | write (i : Option I) (fits : Bool)
  | cancel (k : ℕ)
  | run (a : LoopAct)

namespace EventPoller
variable {I : Type*}

def fresh : EventPoller I := ⟨[],0,false,fun _ => false,.events false,false,0,[],[],[],[]⟩

def onPipeEvent (s : EventPoller I) : Option (EventPoller I) :=
  match s.pc with
  -- the destructor calls it once more
  | .events true | .exited => some { s with pc := .reading }
  | _ => none

/-- One read of at most 1024 bytes; an empty pipe ends the loop. -/
def read (s : EventPoller I) : Option (EventPoller I) :=
  match s.pc with
  | .reading => some (if s.pipe = 0 then { s with pc := .swapping } else { s with pipe := s.pipe - 1024 })
  | _ => none

def swap (s : EventPoller I) : Option (EventPoller I) :=
  match s.pc with
  | .swapping => some { s with
      _list_task := [], pc := .batch s._list_task, batches := s.batches ++ [s._list_task] }
  | _ => none

/-- A task that was cancelled does nothing. -/
def next (s : EventPoller I) : Option (EventPoller I) :=
  match s.pc with
  | .batch [] => some { s with pc := .events false }
  | .batch (k :: rest) =>
    some (if k ∈ s.cancelled then { s with pc := .batch rest }
      else { s with pc := .task rest, ran := s.ran ++ [k] })
  | _ => none

/-- The pipe is watched by its edges. -/
def run (s : EventPoller I) : LoopAct → Option (EventPoller I)
  | .wake pipe =>
    if s.pc = .waiting ∧ (pipe = true → s.ready = true ∧ 0 < s.pipe) then
      some { s with pc := .events pipe, ready := s.ready && !pipe }
    else none
  | .onPipeEvent => s.onPipeEvent
  | .read => s.read
  | .swap => s.swap
  | .next => s.next
  | .finish exit =>
    match s.pc with
    | .task rest => some { s with pc := .batch rest, _exit_flag := s._exit_flag || exit }
    | _ => none
  | .loop =>
    match s.pc with
    | .events false => some { s with pc := if s._exit_flag then .exited else .waiting }
    | _ => none

section
variable [DecidableEq I]

def async_l (s : EventPoller I) (i : Option I) (may_sync first : Bool) : EventPoller I :=
  if may_sync = true ∧ i = none then
    { s with tasks := s.tasks + 1, inlined := s.inlined ++ [s.tasks] }
  else
    { s with
      _list_task := if first then s.tasks :: s._list_task else s._list_task ++ [s.tasks]
      posting := Function.update s.posting i true
      tasks := s.tasks + 1 }

/-- The write end does not block; a byte in an empty pipe is an event. -/
def write (s : EventPoller I) (i : Option I) (fits : Bool) : Option (EventPoller I) :=
  let t := { s with posting := Function.update s.posting i false }
  if fits then some { t with pipe := s.pipe + 1, ready := s.ready || s.pipe == 0 }
  else if 0 < s.pipe then some t
  else none

def step (s : EventPoller I) : PollerAct I → Option (EventPoller I)
  | .async_l i may_sync first =>
    if s.posting i = false ∧ (i = none → s.pc.inCode = true) then some (s.async_l i may_sync first)
    else none
  | .write i fits => if s.posting i then s.write i fits else none
  | .cancel k => if k < s.tasks then some { s with cancelled := k :: s.cancelled } else none
  | .run a => if s.posting none = false then s.run a else none

end

/-- No task runs twice, and those of the batches run in the order of the lists. A task whose turn
has come ran or was cancelled. -/
structure InOrder (s : EventPoller I) : Prop where
  once : (s.inlined ++ s.ran).Nodup
  order : s.ran.Sublist s.batches.flatten
  all : ∀ k ∈ s.batches.flatten, k ∈ s.ran ∨ k ∈ s.cancelled ∨ k ∈ s.pc.rest

/-- A poller that waits has no task, or an event is due, or a caller is about to write. -/
def NoLostWakeup (s : EventPoller I) : Prop :=
  s.pc = .waiting →
    (s.pipe = 0 → s._list_task = [] ∨ ∃ i, s.posting (some i) = true) ∧
    (0 < s.pipe → s.ready = true)

/-- Every task that `async_l` was given. -/
def given (s : EventPoller I) : List ℕ := s.inlined ++ (s.batches.flatten ++ s._list_task)

/-- The tasks whose turn has come are what the batches hold before `rest`. -/
structure Accounted (s : EventPoller I) : Prop where
  known : ∀ k ∈ s.given, k < s.tasks
  nodup : s.given.Nodup
  turns : ∃ done, s.batches.flatten = done ++ s.pc.rest ∧ s.ran.Sublist done ∧
    ∀ k ∈ done, k ∈ s.ran ∨ k ∈ s.cancelled

/-- Between the end of the read loop and the swap the list may hold tasks whose byte is gone. -/
structure Awake (s : EventPoller I) : Prop where
  byte : s._list_task ≠ [] →
    0 < s.pipe ∨ (∃ i, s.posting i = true) ∨ s.pc = .reading ∨ s.pc = .swapping
  event : 0 < s.pipe → s.ready = true ∨ s.pc = .events true ∨ s.pc = .reading
  own : s.posting none = true → s.pc.inCode = true

theorem accounted_fresh : (fresh : EventPoller I).Accounted := by
  refine ⟨by simp [fresh, given],by simp [fresh, given],[],?_⟩
  simp [fresh, PollerPc.rest]

theorem awake_fresh : (fresh : EventPoller I).Awake := by
  constructor <;> simp [fresh]

section
variable {s t : EventPoller I}

theorem Accounted.inOrder (h : s.Accounted) : s.InOrder := by
  obtain ⟨done,hdone,hran,hall⟩ := h.turns
  have horder : s.ran.Sublist s.batches.flatten := by
    rw [hdone]
    exact hran.trans (List.sublist_append_left done s.pc.rest)
  refine ⟨?_,horder,?_⟩
  · refine List.Nodup.sublist ?_ h.nodup
    exact (List.Sublist.refl _).append (horder.trans (List.sublist_append_left _ _))
  · intro k hk
    rw [hdone, List.mem_append] at hk
    rcases hk with hk | hk
    · exact (hall k hk).imp_right .inl
    · exact .inr (.inr hk)

theorem Awake.noLostWakeup (h : s.Awake) : s.NoLostWakeup := by
  intro hw
  constructor
  · intro hpipe
    by_contra hc
    rw [not_or] at hc
    obtain hbyte | ⟨i,hi⟩ | hpc | hpc := h.byte hc.1
    · omega
    · cases i with
      | none =>
        have := h.own hi
        rw [hw] at this
        cases this
      | some i => exact hc.2 ⟨i,hi⟩
    · rw [hw] at hpc
      cases hpc
    · rw [hw] at hpc
      cases hpc
  · intro hpipe
    rcases h.event hpipe with hready | hpc | hpc
    · exact hready
    · rw [hw] at hpc
      cases hpc
    · rw [hw] at hpc
      cases hpc

/-- No task changes its place. -/
theorem Accounted.setPc (h : s.Accounted) {pc : PollerPc} (hpc : pc.rest = s.pc.rest) :
    { s with pc := pc }.Accounted := by
  refine ⟨h.known,h.nodup,?_⟩
  simp only [hpc]
  exact h.turns

theorem Accounted.setPipe (h : s.Accounted) (pipe : ℕ) : { s with pipe := pipe }.Accounted :=
  ⟨h.known,h.nodup,h.turns⟩

/-- A new task has a new number. -/
theorem Accounted.give (h : s.Accounted) (hgiven : t.given.Perm (s.tasks :: s.given))
    (htasks : t.tasks = s.tasks + 1) (hb : t.batches = s.batches) (hpc : t.pc = s.pc)
    (hran : t.ran = s.ran) (hc : t.cancelled = s.cancelled) : t.Accounted where
  known := by
    intro k hk
    rw [hgiven.mem_iff, List.mem_cons] at hk
    rw [htasks]
    rcases hk with rfl | hk
    · exact Nat.lt_succ_self _
    · exact (h.known k hk).trans (Nat.lt_succ_self _)
  nodup := by
    rw [hgiven.nodup_iff, List.nodup_cons]
    exact ⟨fun hk => absurd (h.known _ hk) (Nat.lt_irrefl _),h.nodup⟩
  turns := by
    rw [hb, hpc, hran, hc]
    exact h.turns

theorem Accounted.swap (h : s.Accounted) (ht : s.swap = some t) : t.Accounted := by
  unfold EventPoller.swap at ht
  split at ht
  · rename_i hpc
    cases ht
    have hgiven : s.inlined ++ ((s.batches ++ [s._list_task]).flatten ++ []) = s.given := by
      simp [given]
    obtain ⟨done,hdone,hran,hall⟩ := h.turns
    refine ⟨?_,?_,done,?_,hran,hall⟩
    · unfold given
      simp only [hgiven]
      exact h.known
    · unfold given
      simp only [hgiven]
      exact h.nodup
    · rw [hpc, PollerPc.rest, List.append_nil] at hdone
      simp [hdone, PollerPc.rest]
  · cases ht

theorem Accounted.next (h : s.Accounted) (ht : s.next = some t) : t.Accounted := by
  unfold EventPoller.next at ht
  split at ht
  · rename_i hpc
    cases ht
    apply h.setPc
    rw [hpc]
    rfl
  · rename_i k rest hpc
    cases ht
    obtain ⟨done,hdone,hran,hall⟩ := h.turns
    have hturn : s.batches.flatten = (done ++ [k]) ++ rest := by
      rw [hdone, hpc, List.append_assoc]
      rfl
    split
    · rename_i hk
      refine ⟨h.known,h.nodup,done ++ [k],hturn,hran.trans (List.sublist_append_left _ _),?_⟩
      intro j hj
      rcases List.mem_append.mp hj with hj | hj
      · exact hall j hj
      · rw [List.mem_singleton.mp hj]
        exact .inr hk
    · refine ⟨h.known,h.nodup,done ++ [k],hturn,hran.append (List.Sublist.refl _),?_⟩
      intro j hj
      rcases List.mem_append.mp hj with hj | hj
      · exact (hall j hj).imp_left (List.mem_append_left _)
      · exact .inl (List.mem_append_right _ hj)
  · cases ht

theorem Accounted.run {a : LoopAct} (h : s.Accounted) (ht : s.run a = some t) : t.Accounted := by
  cases a with
  | wake pipe =>
    obtain ⟨⟨hpc,_⟩,⟨⟩⟩ := Option.ite_none_right_eq_some.mp ht
    have hset : { s with pc := .events pipe }.Accounted := h.setPc (by rw [hpc]; rfl)
    exact ⟨hset.known,hset.nodup,hset.turns⟩
  | onPipeEvent =>
    simp only [EventPoller.run, EventPoller.onPipeEvent] at ht
    split at ht
    · rename_i hpc
      cases ht
      exact h.setPc (by rw [hpc]; rfl)
    · rename_i hpc
      cases ht
      exact h.setPc (by rw [hpc]; rfl)
    · cases ht
  | read =>
    simp only [EventPoller.run, EventPoller.read] at ht
    split at ht
    · rename_i hpc
      cases ht
      split
      · exact h.setPc (by rw [hpc]; rfl)
      · exact h.setPipe _
    · cases ht
  | swap => exact h.swap ht
  | next => exact h.next ht
  | finish exit =>
    simp only [EventPoller.run] at ht
    split at ht
    · rename_i rest hpc
      cases ht
      have hset : { s with pc := .batch rest }.Accounted := h.setPc (by rw [hpc]; rfl)
      exact ⟨hset.known,hset.nodup,hset.turns⟩
    · cases ht
  | loop =>
    simp only [EventPoller.run] at ht
    split at ht
    · rename_i hpc
      cases ht
      apply h.setPc
      rw [hpc]
      split <;> rfl
    · cases ht

theorem Accounted.cancel (h : s.Accounted) (k : ℕ) :
    { s with cancelled := k :: s.cancelled }.Accounted := by
  obtain ⟨done,hdone,hran,hall⟩ := h.turns
  refine ⟨h.known,h.nodup,done,hdone,hran,?_⟩
  exact fun j hj => (hall j hj).imp_right (List.mem_cons_of_mem k)

/-- Outside `onPipeEvent`, and once its event is handled, the pipe wakes the poller. -/
theorem Awake.setPc (h : s.Awake) (hown : s.posting none = false) {pc : PollerPc}
    (hread : s.pc ≠ .reading) (hswap : s.pc ≠ .swapping) (hevent : s.pc ≠ .events true) :
    { s with pc := pc }.Awake where
  byte := by
    intro hl
    rcases h.byte hl with hp | hi | hpc | hpc
    · exact .inl hp
    · exact .inr (.inl hi)
    · exact absurd hpc hread
    · exact absurd hpc hswap
  event := by
    intro hp
    rcases h.event hp with hr | hpc | hpc
    · exact .inl hr
    · exact absurd hpc hevent
    · exact absurd hpc hread
  own := by simp [hown]

/-- The poller swaps after it has seen the pipe empty, and waits after it has swapped. -/
theorem Awake.run {a : LoopAct} (h : s.Awake) (hown : s.posting none = false)
    (ht : s.run a = some t) : t.Awake := by
  cases a with
  | wake pipe =>
    obtain ⟨⟨hpc,hpipe⟩,⟨⟩⟩ := Option.ite_none_right_eq_some.mp ht
    refine ⟨?_,?_,fun _ => rfl⟩
    · intro hl
      simpa [hpc] using h.byte hl
    · intro hp
      have hready : s.ready = true := by simpa [hpc] using h.event hp
      cases pipe <;> simp [hready]
  | onPipeEvent =>
    simp only [EventPoller.run, EventPoller.onPipeEvent] at ht
    split at ht
    · cases ht
      exact ⟨by simp,by simp,by simp [hown]⟩
    · cases ht
      exact ⟨by simp,by simp,by simp [hown]⟩
    · cases ht
  | read =>
    simp only [EventPoller.run, EventPoller.read] at ht
    split at ht
    · rename_i hpc
      cases ht
      split
      · rename_i hpipe
        exact ⟨by simp,by simp [hpipe],by simp [hown]⟩
      · exact ⟨by simp [hpc],by simp [hpc],by simp [hown]⟩
    · cases ht
  | swap =>
    simp only [EventPoller.run, EventPoller.swap] at ht
    split at ht
    · rename_i hpc
      cases ht
      refine ⟨by simp,?_,by simp [hown]⟩
      intro hp
      simpa [hpc] using h.event hp
    · cases ht
  | next =>
    simp only [EventPoller.run, EventPoller.next] at ht
    split at ht
    · rename_i hpc
      cases ht
      apply h.setPc hown <;> simp [hpc]
    · rename_i hpc
      cases ht
      split
      · apply h.setPc hown <;> simp [hpc]
      · rename_i k rest _
        have hset : { s with pc := .task rest }.Awake := by apply h.setPc hown <;> simp [hpc]
        exact ⟨hset.byte,hset.event,hset.own⟩
    · cases ht
  | finish exit =>
    simp only [EventPoller.run] at ht
    split at ht
    · rename_i rest hpc
      cases ht
      have hset : { s with pc := .batch rest }.Awake := by apply h.setPc hown <;> simp [hpc]
      exact ⟨hset.byte,hset.event,hset.own⟩
    · cases ht
  | loop =>
    simp only [EventPoller.run] at ht
    split at ht
    · rename_i hpc
      cases ht
      apply h.setPc hown <;> simp [hpc]
    · cases ht

end

section
variable [DecidableEq I] {s t : EventPoller I}

theorem given_async_l (i : Option I) (may_sync first : Bool) :
    (s.async_l i may_sync first).given.Perm (s.tasks :: s.given) := by
  unfold async_l given
  split
  · rw [List.append_assoc]
    exact List.perm_middle
  · cases first with
    | true =>
      simp only [← List.append_assoc, if_true]
      exact List.perm_middle
    | false =>
      simp only [← List.append_assoc, Bool.false_eq_true, if_false]
      exact List.perm_append_singleton _ _

theorem Accounted.async_l (h : s.Accounted) (i : Option I) (may_sync first : Bool) :
    (s.async_l i may_sync first).Accounted := by
  refine h.give (given_async_l i may_sync first) ?_ ?_ ?_ ?_ ?_ <;> unfold EventPoller.async_l <;>
    split <;> rfl

/-- Who has pushed has still to write. -/
theorem Awake.async_l (h : s.Awake) {i : Option I} (hi : i = none → s.pc.inCode = true)
    (may_sync first : Bool) : (s.async_l i may_sync first).Awake := by
  unfold EventPoller.async_l
  split
  · exact ⟨h.byte,h.event,h.own⟩
  · refine ⟨fun _ => .inr (.inl ⟨i,Function.update_self i true s.posting⟩),h.event,?_⟩
    intro hown
    cases i with
    | none => exact hi rfl
    | some i => exact h.own (by simpa using hown)

/-- A write leaves the pipe with something in it. -/
theorem Awake.write (h : s.Awake) {i : Option I} {fits : Bool} (ht : s.write i fits = some t) :
    t.Awake := by
  have hown : Function.update s.posting i false none = true → s.pc.inCode = true := by
    cases i with
    | none => simp
    | some i => simpa using h.own
  simp only [EventPoller.write] at ht
  split at ht
  · cases ht
    refine ⟨fun _ => .inl (Nat.succ_pos _),?_,hown⟩
    intro _
    rcases Nat.eq_zero_or_pos s.pipe with hp | hp
    · simp [hp]
    · exact (h.event hp).imp_left fun hr => by simp [hr]
  · split at ht
    · rename_i hp
      cases ht
      exact ⟨fun _ => .inl hp,h.event,hown⟩
    · cases ht

theorem Accounted.write (h : s.Accounted) {i : Option I} {fits : Bool} (ht : s.write i fits = some t) :
    t.Accounted := by
  simp only [EventPoller.write] at ht
  split at ht
  · cases ht
    exact ⟨h.known,h.nodup,h.turns⟩
  · split at ht
    · cases ht
      exact ⟨h.known,h.nodup,h.turns⟩
    · cases ht

theorem step_good {a : PollerAct I} (h : s.Accounted ∧ s.Awake) (ht : step s a = some t) :
    t.Accounted ∧ t.Awake := by
  cases a with
  | async_l i may_sync first =>
    obtain ⟨⟨_,hi⟩,⟨⟩⟩ := Option.ite_none_right_eq_some.mp ht
    exact ⟨h.1.async_l i may_sync first,h.2.async_l hi may_sync first⟩
  | write i fits =>
    obtain ⟨_,ht⟩ := Option.ite_none_right_eq_some.mp ht
    exact ⟨h.1.write ht,h.2.write ht⟩
  | cancel k =>
    obtain ⟨_,⟨⟩⟩ := Option.ite_none_right_eq_some.mp ht
    exact ⟨h.1.cancel k,⟨h.2.byte,h.2.event,h.2.own⟩⟩
  | run a =>
    obtain ⟨hown,ht⟩ := Option.ite_none_right_eq_some.mp ht
    exact ⟨h.1.run ht,h.2.run hown ht⟩

/-- However the posts come between the steps of the poller, no task runs twice or out of order, and
no wakeup is lost. -/
theorem inOrder_noLostWakeup (as : List (PollerAct I)) :
    EveryState step (fun s => s.InOrder ∧ s.NoLostWakeup) fresh as := by
  have hall : EveryState step (fun s => s.Accounted ∧ s.Awake) (fresh : EventPoller I) as := by
    apply everyState_of_preserves
    · intro s a t h ht
      exact step_good h ht
    · exact ⟨accounted_fresh,awake_fresh⟩
  exact hall.mono fun s h => ⟨h.1.inOrder,h.2.noLostWakeup⟩

/-- A task that is posted first is run first, though its caller wakes the poller last. -/
example : (exec step fresh [.async_l (some 0) false false,.async_l (some 1) false true,
    .write (some 0) true,.run .loop,.run (.wake true),.run .onPipeEvent,.run .read,.run .read,
    .run .swap,.run .next,.run (.finish false),.run .next]).map (fun s : EventPoller ℕ => s.ran) =
      some [1,0] := by decide

end

end EventPoller
end OctCommu.Poller
