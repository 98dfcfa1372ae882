import OctCommu.Lib.Runs
import OctCommu.Thread.ThreadPool

/-! # The life of a `ThreadPool`

While no stop is under way, the posts that are counted, consumed or still to come
are as many as the queued tasks; during a stop there is one more for each worker
that is left. A stop of a pool that is not running breaks this balance for good.
-/
namespace OctCommu.Thread
open Runs
variable {T : Type*}

def Run.exits : Run T → Bool
  | .exited => true
  | _ => false

def Run.takes : Run T → Bool
  | .taking => true
  | _ => false

def Run.tasks : Run T → List T
  | .running task => [task]
  | _ => []

def alive (group : List (Worker T)) : ℕ := group.countP fun w => !w.pc.exits
def taking (group : List (Worker T)) : ℕ := group.countP fun w => w.pc.takes
def running (group : List (Worker T)) : List T := group.flatMap fun w => w.pc.tasks

def Owner.posts : Owner → ℕ
  | .posting => 1
  | .exiting n => n
  | _ => 0

@[simp] def Owner.stopping : Owner → Bool
  | .exiting _ | .joining => true
  | _ => false

namespace ThreadPool

/-- A bound on the steps the workers can take alone. -/
def work (s : ThreadPool T) : ℕ :=
  3 * s._queue._sem + 2 * taking s._thread_group + (running s._thread_group).length

/-- However the workers are scheduled, they come to rest, and then every task has been executed
once. -/
def Settles (s : ThreadPool T) : Prop :=
  ∀ labels t, (∀ l ∈ labels, l.isWorker = true) → exec step s labels = some t →
    labels.length ≤ s.work ∧
      ((∀ l, l.isWorker = true → step t l = none) → t.executed.Perm t.submitted)

/-- What the owner may rely on. -/
structure Sound (s : ThreadPool T) : Prop where
  alive : s.up = true → alive s._thread_group = s._thread_num
  exits : ∀ w ∈ s._thread_group, w.pc = .exited → w.born < s.stops
  once : (s.executed ++ running s._thread_group ++ s._queue._queue).Perm s.submitted
  settles : s.up = true → s.owner = .idle → s.Settles

/-- Every stop finds the pool running. -/
def StopsRunning (s : ThreadPool T) : Label T → Prop
  | .stop => s.up = true
  | _ => True

instance (s : ThreadPool T) : DecidablePred s.StopsRunning
  | .stop => inferInstanceAs (Decidable (s.up = true))
  | .start | .create_thread | .started | .push_exit | .join_all | .async _ | .async_first _ | .post
  | .wait _ | .get_task _ | .finish _ => isTrue trivial

structure Balanced (s : ThreadPool T) : Prop where
  num : 1 ≤ s._thread_num
  tokens : s._queue._sem + taking s._thread_group + s.owner.posts =
    s._queue._queue.length + if s.owner.stopping then Thread.alive s._thread_group else 0
  once : (s.executed ++ running s._thread_group ++ s._queue._queue).Perm s.submitted
  born : ∀ w ∈ s._thread_group, w.born ≤ s.stops ∧ (s.owner.stopping = true → w.born < s.stops)
  exits : ∀ w ∈ s._thread_group, w.pc = .exited → s.owner.stopping = true
  full : s.up = true ∨ s.owner.stopping = true → s._thread_group.length = s._thread_num
  room : ∀ total, s.owner = .starting total → s._thread_group.length + total = s._thread_num
  down : s.up = false → s.owner = .idle ∨ s.owner = .posting → s._thread_group = []
  up_stopping : s.up = true → s.owner.stopping = false

theorem balanced_fresh {n : ℕ} (hn : 1 ≤ n) : (fresh n : ThreadPool T).Balanced :=
  ⟨hn,rfl,.nil,nofun,nofun,nofun,nofun,fun _ _ => rfl,nofun⟩

theorem alive_of_no_exit {group : List (Worker T)} (h : ∀ w ∈ group, w.pc ≠ .exited) :
    Thread.alive group = group.length := by
  apply List.countP_eq_length.mpr
  intro w hw
  have hne := h w hw
  cases hp : w.pc with
  | exited => exact absurd hp hne
  | _ => rfl

theorem gone_of_exit {group : List (Worker T)} (h : ∀ w ∈ group, w.pc = .exited) :
    Thread.alive group = 0 ∧ taking group = 0 ∧ running group = [] := by
  refine ⟨List.countP_eq_zero.mpr ?_,List.countP_eq_zero.mpr ?_,List.flatMap_eq_nil_iff.mpr ?_⟩
  all_goals
    intro w hw
    rw [h w hw]
    simp [Run.exits, Run.takes, Run.tasks]

theorem set_split {group : List (Worker T)} {i : ℕ} {w : Worker T} (h : group[i]? = some w) :
    ∃ a b, group = a ++ w :: b ∧ ∀ v, group.set i v = a ++ v :: b := by
  obtain ⟨hi,hw⟩ := List.getElem?_eq_some_iff.mp h
  have hset (v : Worker T) : group.set i v = group.take i ++ v :: group.drop (i + 1) := by
    rw [List.set_eq_take_append_cons_drop, if_pos hi]
  refine ⟨group.take i,group.drop (i + 1),?_,hset⟩
  rw [← hset w, ← hw, List.set_getElem_self]

theorem worker_step {s t : ThreadPool T} {l : Label T} (hl : l.isWorker = true)
    (h : step s l = some t) : ∃ a b born,
    (s._thread_group = a ++ ⟨born,.waiting⟩ :: b ∧ 0 < s._queue._sem ∧ t = { s with
      _thread_group := a ++ ⟨born,.taking⟩ :: b
      _queue := { s._queue with _sem := s._queue._sem - 1 } }) ∨
    (s._thread_group = a ++ ⟨born,.taking⟩ :: b ∧ s._queue._queue = [] ∧
      t = { s with _thread_group := a ++ ⟨born,.exited⟩ :: b }) ∨
    (∃ task tasks, s._thread_group = a ++ ⟨born,.taking⟩ :: b ∧
      s._queue._queue = task :: tasks ∧ t = { s with
        _thread_group := a ++ ⟨born,.running task⟩ :: b
        _queue := { s._queue with _queue := tasks } }) ∨
    (∃ task, s._thread_group = a ++ ⟨born,.running task⟩ :: b ∧ t = { s with
      _thread_group := a ++ ⟨born,.waiting⟩ :: b
      executed := s.executed ++ [task] }) := by
  cases l with
  | wait i =>
    simp only [step] at h
    split at h
    · rename_i born q hw hq
      obtain ⟨a,b,hg,hset⟩ := set_split hw
      simp only [TaskQueue.wait] at hq
      split_ifs at hq with h0
      cases hq
      cases h
      exact ⟨a,b,born,.inl ⟨hg,Nat.pos_of_ne_zero h0,by simp only [move, hset]⟩⟩
    · cases h
  | get_task i =>
    simp only [step] at h
    split at h
    · rename_i born hw
      obtain ⟨a,b,hg,hset⟩ := set_split hw
      cases hq : s._queue._queue with
      | nil =>
        simp only [TaskQueue.pop_front, hq] at h
        cases h
        exact ⟨a,b,born,.inr (.inl ⟨hg,rfl,by simp only [move, hset]⟩)⟩
      | cons task tasks =>
        simp only [TaskQueue.pop_front, hq] at h
        cases h
        exact ⟨a,b,born,.inr (.inr (.inl ⟨task,tasks,hg,rfl,by simp only [move, hset]⟩))⟩
    · cases h
  | finish i =>
    simp only [step] at h
    split at h
    · rename_i born task hw
      obtain ⟨a,b,hg,hset⟩ := set_split hw
      cases h
      exact ⟨a,b,born,.inr (.inr (.inr ⟨task,hg,by simp only [move, hset]⟩))⟩
    · cases h
  | _ => cases hl

theorem work_lt {s t : ThreadPool T} {l : Label T} (hl : l.isWorker = true)
    (h : step s l = some t) : t.work < s.work := by
  obtain ⟨a,b,born,⟨hg,hpos,rfl⟩ | ⟨hg,_,rfl⟩ | ⟨task,tasks,hg,_,rfl⟩ | ⟨task,hg,rfl⟩⟩ :=
    worker_step hl h
  all_goals
    simp only [work, hg, taking, running, List.countP_append, List.countP_cons, List.flatMap_append,
      List.flatMap_cons, List.length_append, Run.takes, Run.tasks]
    grind

theorem Balanced.replace {s : ThreadPool T} (hs : s.Balanced) {a b : List (Worker T)} {born : ℕ}
    {p p' : Run T} {q : TaskQueue T} {executed : List T}
    (hg : s._thread_group = a ++ ⟨born,p⟩ :: b) (hp' : p' = .exited → s.owner.stopping = true)
    (htok : q._sem + taking (a ++ ⟨born,p'⟩ :: b) + s.owner.posts =
      q._queue.length + if s.owner.stopping then Thread.alive (a ++ ⟨born,p'⟩ :: b) else 0)
    (honce : (executed ++ running (a ++ ⟨born,p'⟩ :: b) ++ q._queue).Perm s.submitted) :
    Balanced { s with
      _thread_group := a ++ ⟨born,p'⟩ :: b
      _queue := q
      executed := executed } := by
  obtain ⟨hnum,_,_,hborn,hexit,hfull,hroom,hdown,hup⟩ := hs
  rw [hg] at hborn hexit hfull hroom hdown
  have hlen : (a ++ ⟨born,p'⟩ :: b).length = (a ++ ⟨born,p⟩ :: b).length := by simp
  refine ⟨hnum,htok,honce,?_,?_,fun h => hlen.trans (hfull h),fun k h => hlen ▸ hroom k h,?_,hup⟩
  · intro w hw
    rcases List.mem_append.mp hw with h | h
    · exact hborn w (List.mem_append_left _ h)
    · rcases List.mem_cons.mp h with rfl | h
      · exact hborn ⟨born,p⟩ (by simp)
      · exact hborn w (by simp [h])
  · intro w hw hx
    rcases List.mem_append.mp hw with h | h
    · exact hexit w (List.mem_append_left _ h) hx
    · rcases List.mem_cons.mp h with rfl | h
      · exact hp' hx
      · exact hexit w (by simp [h]) hx
  · intro h h'
    have hnil := hdown h h'
    simp at hnil

theorem perm_pass (task : T) (l m r : List T) :
    (l ++ task :: (m ++ r)).Perm (l ++ (m ++ task :: r)) := by
  have h1 : (l ++ task :: (m ++ r)).Perm (task :: (l ++ (m ++ r))) := List.perm_middle
  have h2 : ((l ++ m) ++ task :: r).Perm (task :: ((l ++ m) ++ r)) := List.perm_middle
  rw [List.append_assoc, List.append_assoc] at h2
  exact h1.trans h2.symm

/-- A worker step keeps the balance; in particular a worker that finds no task was told to leave. -/
theorem Balanced.worker {s t : ThreadPool T} (hs : s.Balanced) {l : Label T}
    (hl : l.isWorker = true) (h : step s l = some t) :
    t.Balanced ∧ t.up = s.up ∧ t.owner = s.owner := by
  have htok := hs.tokens
  have honce := hs.once
  obtain ⟨a,b,born,⟨hg,hpos,rfl⟩ | ⟨hg,hq,rfl⟩ | ⟨task,tasks,hg,hq,rfl⟩ | ⟨task,hg,rfl⟩⟩ :=
    worker_step hl h
  · rw [hg] at htok honce
    refine ⟨hs.replace hg nofun ?_ ?_,rfl,rfl⟩
    · simp only [taking, alive, List.countP_append, List.countP_cons, Run.takes, Run.exits] at htok ⊢
      grind
    · simpa [running, Run.tasks] using honce
  · rw [hg] at htok honce
    -- the consumed post is not that of a task
    have hstop : s.owner.stopping = true := by
      by_contra hn
      simp only [hq, List.length_nil, if_neg hn, taking, List.countP_append, List.countP_cons,
        Run.takes] at htok
      grind
    refine ⟨hs.replace hg (fun _ => hstop) ?_ ?_,rfl,rfl⟩
    · simp only [hstop, if_true, taking, alive, List.countP_append, List.countP_cons, Run.takes,
        Run.exits] at htok ⊢
      grind
    · simpa [running, Run.tasks] using honce
  · rw [hg, hq] at htok honce
    refine ⟨hs.replace hg nofun ?_ ?_,rfl,rfl⟩
    · simp only [taking, alive, List.countP_append, List.countP_cons, Run.takes, Run.exits,
        List.length_cons] at htok ⊢
      grind
    · refine List.Perm.trans ?_ honce
      have hp := perm_pass task (s.executed ++ running a) (running b) tasks
      simpa [running, Run.tasks] using hp
  · rw [hg] at htok honce
    refine ⟨hs.replace hg nofun ?_ ?_,rfl,rfl⟩
    · simp only [taking, alive, List.countP_append, List.countP_cons, Run.takes, Run.exits] at htok ⊢
      grind
    · refine List.Perm.trans ?_ honce
      have hp := perm_pass task s.executed (running a) (running b ++ s._queue._queue)
      simpa [running, Run.tasks] using hp

/-- A task is queued, at either end, before its post. -/
theorem Balanced.submit {s : ThreadPool T} (hs : s.Balanced) (hi : s.owner = .idle) (task : T)
    {q : TaskQueue T} (hsem : q._sem = s._queue._sem)
    (hq : (s.executed ++ running s._thread_group ++ q._queue).Perm
      (task :: (s.executed ++ running s._thread_group ++ s._queue._queue))) :
    Balanced { s with
      _queue := q
      owner := .posting
      submitted := s.submitted ++ [task] } := by
  obtain ⟨hnum,htok,honce,hborn,hexit,hfull,_,hdown,hup⟩ := hs
  have hlen := hq.length_eq
  simp only [List.length_append, List.length_cons] at hlen
  rw [hi] at htok hborn hexit hfull hup
  refine ⟨hnum,?_,?_,hborn,hexit,hfull,by simp,fun hu _ => hdown hu (.inl hi),hup⟩
  · simp only [Owner.posts, Owner.stopping, hsem, Bool.false_eq_true, if_false] at htok ⊢
    omega
  · exact (hq.trans (honce.cons task)).trans (List.perm_append_singleton task _).symm

/-- A new worker was born after every stop so far. -/
theorem Balanced.create_thread {s : ThreadPool T} (hs : s.Balanced) {k : ℕ}
    (ho : s.owner = .starting (k + 1)) : Balanced { s with
      _thread_group := s._thread_group ++ [⟨s.stops,.waiting⟩]
      owner := .starting k } := by
  obtain ⟨hnum,htok,honce,hborn,hexit,hfull,hroom,_,hup⟩ := hs
  have hk := hroom (k + 1) ho
  rw [ho] at htok hborn hexit hfull hup
  refine ⟨hnum,?_,?_,?_,?_,?_,?_,by simp,hup⟩
  · simpa [taking, Run.takes, Owner.posts, Owner.stopping] using htok
  · simpa [running, Run.tasks] using honce
  · intro w hw
    rcases List.mem_append.mp hw with hw | hw
    · exact ⟨(hborn w hw).1,by simp⟩
    · obtain rfl := List.mem_singleton.mp hw
      exact ⟨le_rfl,by simp⟩
  · intro w hw hx
    rcases List.mem_append.mp hw with hw | hw
    · exact hexit w hw hx
    · obtain rfl := List.mem_singleton.mp hw
      cases hx
  · rintro (hu | hst)
    · have := hfull (.inl hu)
      omega
    · cases hst
  · intro j hj
    cases hj
    simp only [List.length_append, List.length_singleton]
    omega

/-- A stop of a running pool finds all its workers alive. -/
theorem Balanced.stop {s : ThreadPool T} (hs : s.Balanced) (hu : s.up = true) (hi : s.owner = .idle) :
    Balanced { s with owner := .exiting s._thread_num, up := false, stops := s.stops + 1 } := by
  obtain ⟨hnum,htok,honce,hborn,hexit,hfull,_,_,_⟩ := hs
  have hlen := hfull (.inl hu)
  rw [hi] at htok hexit
  have halive : Thread.alive s._thread_group = s._thread_num :=
    (alive_of_no_exit fun w hw hx => by simpa [Owner.stopping] using hexit w hw hx).trans hlen
  refine ⟨hnum,?_,honce,?_,fun _ _ _ => rfl,fun _ => hlen,by simp,by simp,by simp⟩
  · simp only [Owner.posts, Owner.stopping, Bool.false_eq_true, if_false, if_true, halive] at htok ⊢
    omega
  · intro w hw
    have := (hborn w hw).1
    exact ⟨Nat.le_succ_of_le this,fun _ => Nat.lt_succ_of_le this⟩

/-- When all workers have left, no post is left over. -/
theorem Balanced.join_all {s : ThreadPool T} (hs : s.Balanced) (hj : s.owner = .joining)
    (hgone : ∀ w ∈ s._thread_group, w.pc = .exited) :
    Balanced { s with _thread_group := [], owner := .idle } := by
  obtain ⟨hnum,htok,honce,_,_,_,_,_,hup⟩ := hs
  have hdown : s.up = false := by
    by_contra hu
    have hst := hup (by simpa using hu)
    rw [hj] at hst
    cases hst
  obtain ⟨h1,h2,h3⟩ := gone_of_exit hgone
  rw [hj, h1, h2] at htok
  rw [h3] at honce
  refine ⟨hnum,htok,honce,by simp,by simp,?_,by simp,fun _ _ => rfl,fun _ => rfl⟩
  rintro (hu | hst)
  · rw [hdown] at hu
    cases hu
  · cases hst

theorem step_balanced {s t : ThreadPool T} {l : Label T} (hs : s.Balanced) (hc : s.StopsRunning l)
    (h : step s l = some t) : t.Balanced := by
  have hworker (hl : l.isWorker = true) : t.Balanced := (hs.worker hl h).1
  have hsubmit := @Balanced.submit _ _ hs
  have hcreate := @Balanced.create_thread _ _ hs
  have hstop := hs.stop
  have hjoin := hs.join_all
  obtain ⟨hnum,htok,honce,hborn,hexit,hfull,hroom,hdown,hup⟩ := hs
  cases l with
  | start =>
    simp only [step] at h
    split_ifs at h with hi hz
    · cases h
      exact ⟨hnum,htok,honce,hborn,hexit,hfull,hroom,hdown,hup⟩
    · cases h
      have hi : s.owner = .idle := not_not.mp hi
      rw [hi] at htok hborn hexit hfull hup
      refine ⟨hnum,htok,honce,hborn,hexit,hfull,?_,by simp,hup⟩
      intro k hk
      cases hk
      have hle : s._thread_group.length ≤ s._thread_num := by
        cases hu : s.up with
        | true => exact Nat.le_of_eq (hfull (.inl hu))
        | false =>
          rw [hdown hu (.inl hi)]
          exact Nat.zero_le _
      simp only
      omega
  | create_thread =>
    simp only [step] at h
    split at h
    · rename_i k ho
      cases h
      exact hcreate ho
    · cases h
  | started =>
    simp only [step] at h
    split at h
    · rename_i ho
      cases h
      rw [ho] at htok hborn hexit
      exact ⟨hnum,htok,honce,hborn,hexit,fun _ => hroom 0 ho,by simp,by simp,fun _ => rfl⟩
    · cases h
  | stop =>
    simp only [step] at h
    split_ifs at h with hi
    cases h
    exact hstop hc (not_not.mp hi)
  | push_exit =>
    simp only [step] at h
    split at h
    · rename_i k ho
      cases h
      rw [ho] at htok hborn hexit hfull hup
      refine ⟨hnum,?_,honce,hborn,hexit,hfull,by simp,by simp,hup⟩
      simp only [Owner.posts, Owner.stopping, TaskQueue.post] at htok ⊢
      omega
    · rename_i ho
      cases h
      rw [ho] at htok hborn hexit hfull hup
      exact ⟨hnum,htok,honce,hborn,hexit,hfull,by simp,by simp,hup⟩
    · cases h
  | join_all =>
    simp only [step] at h
    split_ifs at h with hj hall
    cases h
    refine hjoin (not_not.mp hj) ?_
    intro w hw
    have hx := List.all_eq_true.mp hall w hw
    cases hp : w.pc <;> simp [hp] at hx ⊢
  | async task =>
    simp only [step] at h
    split_ifs at h with hi
    cases h
    refine hsubmit (not_not.mp hi) task rfl ?_
    rw [TaskQueue.emplace_back, ← List.append_assoc]
    exact List.perm_append_singleton task _
  | async_first task =>
    simp only [step] at h
    split_ifs at h with hi
    cases h
    refine hsubmit (not_not.mp hi) task rfl ?_
    exact List.perm_middle
  | post =>
    simp only [step] at h
    split_ifs at h with hi
    cases h
    have hi : s.owner = .posting := not_not.mp hi
    rw [hi] at htok hborn hexit hfull hup
    refine ⟨hnum,?_,honce,hborn,hexit,hfull,by simp,fun hu _ => hdown hu (.inr hi),hup⟩
    simp only [Owner.posts, Owner.stopping, TaskQueue.post, Bool.false_eq_true, if_false] at htok ⊢
    omega
  | wait i => exact hworker rfl
  | get_task i => exact hworker rfl
  | finish i => exact hworker rfl

/-- With the pool running and the owner outside, workers that cannot move have no task left. -/
theorem Balanced.rest {s : ThreadPool T} (hs : s.Balanced) (hu : s.up = true) (hi : s.owner = .idle)
    (hrest : ∀ l, l.isWorker = true → step s l = none) : s.executed.Perm s.submitted := by
  have hwait : ∀ w ∈ s._thread_group, w.pc = .waiting := by
    intro w hw
    obtain ⟨i,hget⟩ := List.mem_iff_getElem?.mp hw
    obtain ⟨born,pc⟩ := w
    cases pc with
    | waiting => rfl
    | taking =>
      have hnone := hrest (.get_task i) rfl
      simp only [step, hget, TaskQueue.pop_front] at hnone
      cases hq : s._queue._queue <;> simp [hq] at hnone
    | running task =>
      have hnone := hrest (.finish i) rfl
      simp [step, hget] at hnone
    | exited =>
      have hst := hs.exits _ hw rfl
      rw [hi] at hst
      cases hst
  have htaking : taking s._thread_group = 0 :=
    List.countP_eq_zero.mpr fun w hw => by rw [hwait w hw]; simp [Run.takes]
  have hrunning : running s._thread_group = [] :=
    List.flatMap_eq_nil_iff.mpr fun w hw => by rw [hwait w hw]; rfl
  have hsem : s._queue._sem = 0 := by
    have hpos : 0 < s._thread_group.length := by
      rw [hs.full (.inl hu)]
      exact hs.num
    obtain ⟨⟨born,pc⟩,hget⟩ : ∃ w, s._thread_group[0]? = some w := ⟨_,List.getElem?_eq_getElem hpos⟩
    obtain rfl : pc = .waiting := hwait _ (List.mem_of_getElem? hget)
    by_contra hne
    have hnone := hrest (.wait 0) rfl
    simp [step, hget, TaskQueue.wait, hne] at hnone
  have hqueue : s._queue._queue = [] := by
    have htok := hs.tokens
    simp only [hsem, htaking, hi, Owner.posts, Owner.stopping, Bool.false_eq_true, if_false] at htok
    exact List.length_eq_zero_iff.mp (by omega)
  have honce := hs.once
  rwa [hrunning, hqueue, List.append_nil, List.append_nil] at honce

theorem Balanced.settles {s : ThreadPool T} (hs : s.Balanced) (hu : s.up = true)
    (hi : s.owner = .idle) : s.Settles := by
  intro labels t hl h
  have hlen := exec_length_le (fun _ _ _ hw hst => work_lt hw hst) hl h
  refine ⟨by omega,fun hrest => ?_⟩
  have hinv : EveryState step (fun r => r.Balanced ∧ r.up = true ∧ r.owner = .idle) s labels := by
    have hwork : EveryStep step (fun _ l => l.isWorker = true) s labels := everyStep_of_label s hl
    refine hwork.preserves ?_ ⟨hs,hu,hi⟩
    intro r l r' hr hw hst
    obtain ⟨hb,hup,howner⟩ := hr.1.worker hw hst
    exact ⟨hb,hup.trans hr.2.1,howner.trans hr.2.2⟩
  obtain ⟨hb,hup,howner⟩ := hinv.last h
  exact hb.rest hup howner hrest

theorem Balanced.sound {s : ThreadPool T} (hs : s.Balanced) : s.Sound := by
  refine ⟨fun hu => ?_,fun w hw hx => (hs.born w hw).2 (hs.exits w hw hx),hs.once,hs.settles⟩
  rw [← hs.full (.inl hu)]
  apply alive_of_no_exit
  intro w hw hx
  have hst := hs.exits w hw hx
  rw [hs.up_stopping hu] at hst
  cases hst

/-- A pool of at least one thread serves its owner in every run in which each stop finds it
running. -/
theorem pool_sound {n : ℕ} (hn : 1 ≤ n) (labels : List (Label T))
    (hc : EveryStep step StopsRunning (fresh n : ThreadPool T) labels) :
    EveryState step Sound (fresh n : ThreadPool T) labels :=
  (hc.preserves (fun _ _ _ hs h ht => step_balanced hs h ht) (balanced_fresh hn)).mono
    fun _ hs => hs.sound

/-- A start, one task, a stop and a restart of a pool of one thread. -/
theorem pool_sound_restart : EveryState step Sound (fresh 1 : ThreadPool ℕ)
    [.start,.create_thread,.started,.async 7,.post,.wait 0,.get_task 0,.finish 0,.stop,.push_exit,
      .push_exit,.wait 0,.get_task 0,.join_all,.start,.create_thread,.started] :=
  pool_sound (by decide) _ (by decide)

/-- A stop before the first start lets the only worker leave at once. -/
theorem stop_before_start_kills : ¬ EveryState step Sound (fresh 1 : ThreadPool ℕ)
    [.stop,.push_exit,.push_exit,.join_all,.start,.create_thread,.started,.wait 0,.get_task 0] := by
  intro h
  have hl := (h.last rfl).alive rfl
  revert hl
  decide

end ThreadPool
end OctCommu.Thread
