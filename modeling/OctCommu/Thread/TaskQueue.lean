import OctCommu.Lib.Runs
import OctCommu.Lib.Threads
import OctCommu.Thread.ThreadPool

/-! # `TaskQueue` among any number of threads

Each of the threads may push, order exits and get tasks; the section under the list's
lock and the operation on the semaphore are separate steps. The semaphore is the one
with a `_count`, which is a `size_t`.
-/
namespace OctCommu.Thread
open Runs
variable {T : Type*}

/-- Where a thread is: outside, between the two halves of a push, or in `get_task` before and after
its wait. -/
inductive Call where
  | outside
  | posting
  | waiting
  | taking
  deriving DecidableEq

/-- `semaphore::post(n)`. -/
def TaskQueue.post_n (q : TaskQueue T) (n : ℕ) : TaskQueue T :=
  { q with _sem := (q._sem + n) % 18446744073709551616 }

/-- A queue with its threads; the last four are what happened: the tasks that were pushed, the tasks
that were returned, how many calls returned false, and the exits that were ordered. -/
structure SharedQueue (T : Type*) where
  queue : TaskQueue T
  threads : List Call
  pushed : List T
  returned : List T
  falses : ℕ
  exits : ℕ

inductive QueueAct (T : Type*) where
  | push_task (t : ℕ) (task : T)
  | push_task_first (t : ℕ) (task : T)
  | post (t : ℕ)
  | push_exit (t n : ℕ)
  | get_task (t : ℕ)
  | wait (t : ℕ)
  | take (t : ℕ)
  deriving DecidableEq

namespace SharedQueue

def fresh (n : ℕ) : SharedQueue T := ⟨⟨[],0⟩,List.replicate n .outside,[],[],0,0⟩

/-- Thread `t` goes on from `a` to `b`. -/
def move (s : SharedQueue T) (t : ℕ) (a b : Call) : Option (SharedQueue T) :=
  if s.threads[t]? = some a then some { s with threads := s.threads.set t b } else none

def step (s : SharedQueue T) : QueueAct T → Option (SharedQueue T)
  | .push_task t task => (s.move t .outside .posting).map fun s =>
    { s with queue := s.queue.emplace_back task, pushed := s.pushed ++ [task] }
  | .push_task_first t task => (s.move t .outside .posting).map fun s =>
    { s with queue := s.queue.emplace_front task, pushed := s.pushed ++ [task] }
  | .post t => (s.move t .posting .outside).map fun s => { s with queue := s.queue.post_n 1 }
  | .push_exit t n => (s.move t .outside .outside).map fun s =>
    { s with queue := s.queue.post_n n, exits := s.exits + n }
  | .get_task t => s.move t .outside .waiting
  | .wait t => (s.move t .waiting .taking).bind fun s =>
    s.queue.wait.map fun q => { s with queue := q }
  | .take t => (s.move t .taking .outside).map fun s =>
    match s.queue.pop_front with
    | (none,_) => { s with falses := s.falses + 1 }
    | (some task,q) => { s with queue := q, returned := s.returned ++ [task] }

/-- What is pushed is returned once or still queued, and not more calls came back without a task than
exits were ordered. -/
structure HandsOut (s : SharedQueue T) : Prop where
  once : (s.returned ++ s.queue._queue).Perm s.pushed
  falses : s.falses ≤ s.exits

/-- Nobody is in a call and no post is left: nothing is queued. -/
def Drained (s : SharedQueue T) : Prop :=
  (∀ c ∈ s.threads, c = .outside) → s.queue._sem = 0 → s.queue._queue = []

/-- The posts that the step makes. -/
def posts : QueueAct T → ℕ
  | .post _ => 1
  | .push_exit _ n => n
  | _ => 0

/-- The count does not overflow. -/
def Fits (s : SharedQueue T) (a : QueueAct T) : Prop :=
  s.queue._sem + posts a < 18446744073709551616

instance (s : SharedQueue T) (a : QueueAct T) : Decidable (s.Fits a) :=
  inferInstanceAs (Decidable (_ < _))

def takings (s : SharedQueue T) : ℕ := s.threads.countP fun c => c = .taking
def postings (s : SharedQueue T) : ℕ := s.threads.countP fun c => c = .posting

/-- Every post that was made is left, in the hands of a thread, or answered; a push that is not over
owes one. -/
def used (s : SharedQueue T) : ℕ :=
  s.queue._sem + s.takings + s.returned.length + s.falses + s.postings

structure Counted (s : SharedQueue T) : Prop extends HandsOut s where
  posts : s.used ≤ s.pushed.length + s.exits

structure Balanced (s : SharedQueue T) : Prop extends HandsOut s where
  posts : s.used = s.pushed.length + s.exits

variable {s u : SharedQueue T}

theorem move_eq_some {t : ℕ} {a b : Call} (h : s.move t a b = some u) :
    s.threads[t]? = some a ∧ u = { s with threads := s.threads.set t b } := by
  unfold move at h
  split at h
  · rename_i ha
    exact ⟨ha,(Option.some.inj h).symm⟩
  · cases h

theorem move_counts {t : ℕ} {a b : Call} (h : s.move t a b = some u) :
    u.takings + (if a = .taking then 1 else 0) = s.takings + (if b = .taking then 1 else 0) ∧
    u.postings + (if a = .posting then 1 else 0) = s.postings + if b = .posting then 1 else 0 := by
  obtain ⟨ha,rfl⟩ := move_eq_some h
  have ht := Threads.countP_set ha b fun c => c = .taking
  have hp := Threads.countP_set ha b fun c => c = .posting
  simp only [decide_eq_true_eq] at ht hp
  exact ⟨ht,hp⟩

theorem wait_eq_some {q r : TaskQueue T} (h : q.wait = some r) :
    0 < q._sem ∧ r = { q with _sem := q._sem - 1 } := by
  unfold TaskQueue.wait at h
  split at h
  · cases h
  · rename_i hz
    exact ⟨Nat.pos_of_ne_zero hz,(Option.some.inj h).symm⟩

theorem step_wait {t : ℕ} (h : step s (.wait t) = some u) :
    (∃ v, s.move t .waiting .taking = some v) ∧ 0 < s.queue._sem ∧ u = { s with
      threads := s.threads.set t .taking
      queue := { s.queue with _sem := s.queue._sem - 1 } } := by
  obtain ⟨v,hv,h⟩ := Option.bind_eq_some_iff.mp h
  obtain ⟨q,hq,rfl⟩ := Option.map_eq_some_iff.mp h
  have hmove := hv
  obtain ⟨_,rfl⟩ := move_eq_some hv
  obtain ⟨hpos,rfl⟩ := wait_eq_some hq
  exact ⟨⟨_,hmove⟩,hpos,rfl⟩

theorem post_n_le (q : TaskQueue T) (n : ℕ) : (q.post_n n)._sem ≤ q._sem + n := Nat.mod_le _ _

theorem post_n_of_lt {q : TaskQueue T} {n : ℕ} (h : q._sem + n < 18446744073709551616) :
    (q.post_n n)._sem = q._sem + n := Nat.mod_eq_of_lt h

/-- A step makes as many posts as it owes or orders, unless the count overflows, which loses some. -/
theorem step_used {a : QueueAct T} (h : step s a = some u) :
    u.used + s.pushed.length + s.exits ≤ s.used + u.pushed.length + u.exits ∧
    (s.Fits a → u.used + s.pushed.length + s.exits = s.used + u.pushed.length + u.exits) := by
  cases a with
  | push_task t task | push_task_first t task =>
    obtain ⟨v,hv,rfl⟩ := Option.map_eq_some_iff.mp h
    have hc := move_counts hv
    obtain ⟨_,rfl⟩ := move_eq_some hv
    simp only [used, takings, postings, TaskQueue.emplace_back, TaskQueue.emplace_front,
      List.length_append, List.length_singleton, reduceCtorEq, if_false, if_true] at hc ⊢
    omega
  | post t =>
    obtain ⟨v,hv,rfl⟩ := Option.map_eq_some_iff.mp h
    have hc := move_counts hv
    obtain ⟨_,rfl⟩ := move_eq_some hv
    have hle := post_n_le s.queue 1
    simp only [used, takings, postings, reduceCtorEq, if_false, if_true] at hc ⊢
    refine ⟨by omega,fun hf => ?_⟩
    rw [post_n_of_lt (n := 1) hf]
    omega
  | push_exit t n =>
    obtain ⟨v,hv,rfl⟩ := Option.map_eq_some_iff.mp h
    have hc := move_counts hv
    obtain ⟨_,rfl⟩ := move_eq_some hv
    have hle := post_n_le s.queue n
    simp only [used, takings, postings, reduceCtorEq, if_false] at hc ⊢
    refine ⟨by omega,fun hf => ?_⟩
    rw [post_n_of_lt (n := n) hf]
    omega
  | get_task t =>
    have hc := move_counts h
    obtain ⟨_,rfl⟩ := move_eq_some h
    simp only [used, takings, postings, reduceCtorEq, if_false] at hc ⊢
    omega
  | wait t =>
    obtain ⟨⟨v,hv⟩,hpos,rfl⟩ := step_wait h
    have hc := move_counts hv
    obtain ⟨_,rfl⟩ := move_eq_some hv
    simp only [used, takings, postings, reduceCtorEq, if_false, if_true] at hpos hc ⊢
    omega
  | take t =>
    obtain ⟨v,hv,rfl⟩ := Option.map_eq_some_iff.mp h
    have hc := move_counts hv
    obtain ⟨_,rfl⟩ := move_eq_some hv
    simp only [takings, postings, reduceCtorEq, if_false, if_true] at hc
    cases hq : s.queue._queue with
    | nil =>
      simp only [TaskQueue.pop_front, hq, used, takings, postings]
      omega
    | cons task tasks =>
      simp only [TaskQueue.pop_front, hq, used, takings, postings, List.length_append,
        List.length_singleton]
      omega

theorem step_once {a : QueueAct T} (h : step s a = some u)
    (hs : (s.returned ++ s.queue._queue).Perm s.pushed) :
    (u.returned ++ u.queue._queue).Perm u.pushed := by
  cases a with
  | push_task t task =>
    obtain ⟨v,hv,rfl⟩ := Option.map_eq_some_iff.mp h
    obtain ⟨_,rfl⟩ := move_eq_some hv
    simp only [TaskQueue.emplace_back, ← List.append_assoc]
    exact hs.append_right _
  | push_task_first t task =>
    obtain ⟨v,hv,rfl⟩ := Option.map_eq_some_iff.mp h
    obtain ⟨_,rfl⟩ := move_eq_some hv
    exact (List.perm_middle.trans (hs.cons task)).trans (List.perm_append_singleton _ _).symm
  | post t | push_exit t n =>
    obtain ⟨v,hv,rfl⟩ := Option.map_eq_some_iff.mp h
    obtain ⟨_,rfl⟩ := move_eq_some hv
    exact hs
  | get_task t =>
    obtain ⟨_,rfl⟩ := move_eq_some h
    exact hs
  | wait t =>
    obtain ⟨_,_,rfl⟩ := step_wait h
    exact hs
  | take t =>
    obtain ⟨v,hv,rfl⟩ := Option.map_eq_some_iff.mp h
    obtain ⟨_,rfl⟩ := move_eq_some hv
    cases hq : s.queue._queue with
    | nil =>
      rw [hq] at hs
      simpa only [TaskQueue.pop_front, hq] using hs
    | cons task tasks =>
      rw [hq] at hs
      simpa only [TaskQueue.pop_front, hq, List.append_assoc, List.singleton_append] using hs

/-- A call comes back without a task when nothing is queued; then every push has been answered, and
the post it used was an exit. -/
theorem step_falses {a : QueueAct T} (h : step s a = some u) (hs : s.Counted) : u.falses ≤ u.exits := by
  have hle := hs.falses
  cases a with
  | push_task t task | push_task_first t task | post t =>
    obtain ⟨v,hv,rfl⟩ := Option.map_eq_some_iff.mp h
    obtain ⟨_,rfl⟩ := move_eq_some hv
    exact hle
  | push_exit t n =>
    obtain ⟨v,hv,rfl⟩ := Option.map_eq_some_iff.mp h
    obtain ⟨_,rfl⟩ := move_eq_some hv
    exact Nat.le_add_right_of_le hle
  | get_task t =>
    obtain ⟨_,rfl⟩ := move_eq_some h
    exact hle
  | wait t =>
    obtain ⟨_,_,rfl⟩ := step_wait h
    exact hle
  | take t =>
    obtain ⟨v,hv,rfl⟩ := Option.map_eq_some_iff.mp h
    obtain ⟨ha,rfl⟩ := move_eq_some hv
    cases hq : s.queue._queue with
    | nil =>
      simp only [TaskQueue.pop_front, hq]
      have hall := hs.once.length_eq
      have htake : 0 < s.takings := Threads.countP_pos ha (by simp)
      have hposts := hs.posts
      simp only [hq, List.append_nil] at hall
      unfold used at hposts
      omega
    | cons task tasks =>
      simp only [TaskQueue.pop_front, hq]
      exact hle

theorem step_counted {a : QueueAct T} (hs : s.Counted) (h : step s a = some u) : u.Counted where
  once := step_once h hs.once
  falses := step_falses h hs
  posts := by
    have hused := (step_used h).1
    have hposts := hs.posts
    omega

theorem step_balanced {a : QueueAct T} (hs : s.Balanced) (hf : s.Fits a) (h : step s a = some u) :
    u.Balanced where
  once := step_once h hs.once
  falses := step_falses h ⟨hs.toHandsOut,hs.posts.le⟩
  posts := by
    have hused := (step_used h).2 hf
    have hposts := hs.posts
    omega

theorem balanced_fresh (n : ℕ) : (fresh n : SharedQueue T).Balanced := by
  refine ⟨⟨List.Perm.refl _,le_rfl⟩,?_⟩
  have hout : ∀ c ∈ (fresh n : SharedQueue T).threads, (c = .outside : Bool) = true := by
    intro c hc
    simp [List.eq_of_mem_replicate hc]
  have ht := Threads.countP_eq_zero (p := fun c => c = .taking) hout (by simp)
  have hp := Threads.countP_eq_zero (p := fun c => c = .posting) hout (by simp)
  simp only [used, takings, postings, ht, hp]
  rfl

theorem Balanced.drained (hs : s.Balanced) : s.Drained := by
  intro hout hz
  have hout : ∀ c ∈ s.threads, (c = .outside : Bool) = true := fun c hc => decide_eq_true (hout c hc)
  have ht := Threads.countP_eq_zero (p := fun c => c = .taking) hout (by simp)
  have hp := Threads.countP_eq_zero (p := fun c => c = .posting) hout (by simp)
  have hposts := hs.posts
  have hlen := hs.once.length_eq
  have hle := hs.falses
  simp only [used, takings, postings, ht, hp, hz, List.length_append] at hposts hlen
  apply List.eq_nil_of_length_eq_zero
  omega

/-- In every run tasks are handed out once; and where the count of the semaphore has never overflowed,
a queue that is at rest without posts is empty. -/
theorem everyState_handsOut (n : ℕ) (acts : List (QueueAct T)) :
    EveryState step HandsOut (fresh n) acts ∧
    (EveryStep step Fits (fresh n) acts → EveryState step Drained (fresh n) acts) := by
  have hfresh := balanced_fresh (T := T) n
  constructor
  · have hcounted : EveryState step Counted (fresh n) acts :=
      everyState_of_preserves (fun s a u => step_counted) ⟨hfresh.toHandsOut,hfresh.posts.le⟩ acts
    exact hcounted.mono fun s hs => hs.toHandsOut
  · intro hfits
    have hbalanced : EveryState step Balanced (fresh n) acts :=
      hfits.preserves (fun s a u => step_balanced) hfresh
    exact hbalanced.mono fun s hs => hs.drained

/-- The exits that are ordered bring the count back to 0, and the task that was pushed stays. -/
theorem push_exit_overflows : ∃ s : SharedQueue Unit,
    exec step (fresh 1) [.push_task 0 (),.post 0,.push_exit 0 18446744073709551615] = some s ∧
    (∀ c ∈ s.threads, c = .outside) ∧ s.queue._sem = 0 ∧ s.queue._queue = [()] ∧ ¬ s.Drained := by
  refine ⟨_,rfl,by decide,rfl,rfl,?_⟩
  intro h
  cases h (by decide) rfl

end SharedQueue
end OctCommu.Thread
