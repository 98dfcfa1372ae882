import Mathlib.Data.List.Basic
import Mathlib.Tactic.Common

/-! # `ThreadPool`

An owner outside the pool starts and stops it and queues tasks; the workers run
`run`. A stop is a number of posts to the semaphore that counts the queued tasks:
the worker that consumes a post and finds no task leaves. Every post, wait and
mutex section is one step.
-/
namespace OctCommu.Thread
variable {T : Type*}

structure TaskQueue (T : Type*) where
  _queue : List T
  _sem : ℕ

namespace TaskQueue

/-- The locked part of `push_task`. -/
def emplace_back (q : TaskQueue T) (task : T) : TaskQueue T := { q with _queue := q._queue ++ [task] }

/-- The locked part of `push_task_first`. -/
def emplace_front (q : TaskQueue T) (task : T) : TaskQueue T := { q with _queue := task :: q._queue }

def post (q : TaskQueue T) : TaskQueue T := { q with _sem := q._sem + 1 }

/-- The wait at the start of `get_task`. -/
def wait (q : TaskQueue T) : Option (TaskQueue T) :=
  if q._sem = 0 then none else some { q with _sem := q._sem - 1 }

/-- The locked part of `get_task`. -/
def pop_front (q : TaskQueue T) : Option T × TaskQueue T :=
  match q._queue with
  | [] => (none,q)
  | task :: tasks => (some task,{ q with _queue := tasks })

end TaskQueue

inductive Run (T : Type*) where
  | waiting
  | taking
  | running (task : T)
  | exited

/-- A thread of `_thread_group`, with the number of stops issued before it was created. -/
structure Worker (T : Type*) where
  born : ℕ
  pc : Run T

/-- What the owner is doing, with the threads still to create or the exits still to post. -/
inductive Owner where
  | idle
  | posting
  | starting (total : ℕ)
  | exiting (n : ℕ)
  | joining
  deriving DecidableEq

structure ThreadPool (T : Type*) where
  _thread_num : ℕ
  _queue : TaskQueue T
  _thread_group : List (Worker T)
  owner : Owner
  /-- A `start` has returned and no stop has been issued since. -/
  up : Bool
  stops : ℕ
  submitted : List T
  executed : List T

def ThreadPool.fresh (thread_num : ℕ) : ThreadPool T where
  _thread_num := thread_num
  _queue := ⟨[],0⟩
  _thread_group := []
  owner := .idle
  up := false
  stops := 0
  submitted := []
  executed := []

inductive Label (T : Type*) where
  | start
  | create_thread
  | started
  | stop
  /-- One post of `push_exit`, or its end. -/
  | push_exit
  | join_all
  | async (task : T)
  | async_first (task : T)
  | post
  | wait (i : ℕ)
  | get_task (i : ℕ)
  /-- The task returns, or throws. -/
  | finish (i : ℕ)

def Label.isWorker : Label T → Bool
  | .wait _ | .get_task _ | .finish _ => true
  | _ => false

namespace ThreadPool

def move (s : ThreadPool T) (i : ℕ) (w : Worker T) (pc : Run T) : ThreadPool T :=
  { s with _thread_group := s._thread_group.set i { w with pc := pc } }

def step (s : ThreadPool T) : Label T → Option (ThreadPool T)
  | .start =>
    if s.owner ≠ .idle then none
    else if s._thread_num = 0 then some s
    else some { s with owner := .starting (s._thread_num - s._thread_group.length) }
  | .create_thread =>
    match s.owner with
    | .starting (k + 1) => some { s with
        _thread_group := s._thread_group ++ [⟨s.stops,.waiting⟩]
        owner := .starting k }
    | _ => none
  | .started =>
    match s.owner with
    | .starting 0 => some { s with owner := .idle, up := true }
    | _ => none
  | .stop =>
    if s.owner ≠ .idle then none
    else some { s with owner := .exiting s._thread_num, up := false, stops := s.stops + 1 }
  | .push_exit =>
    match s.owner with
    | .exiting (k + 1) => some { s with _queue := s._queue.post, owner := .exiting k }
    | .exiting 0 => some { s with owner := .joining }
    | _ => none
  | .join_all =>
    if s.owner ≠ .joining then none
    else if s._thread_group.all fun w => w.pc matches .exited then
      some { s with _thread_group := [], owner := .idle }
    else none
  | .async task =>
    if s.owner ≠ .idle then none
    else some { s with
      _queue := s._queue.emplace_back task
      owner := .posting
      submitted := s.submitted ++ [task] }
  | .async_first task =>
    if s.owner ≠ .idle then none
    else some { s with
      _queue := s._queue.emplace_front task
      owner := .posting
      submitted := s.submitted ++ [task] }
  | .post =>
    if s.owner ≠ .posting then none
    else some { s with _queue := s._queue.post, owner := .idle }
  | .wait i =>
    match s._thread_group[i]?, s._queue.wait with
    | some ⟨born,.waiting⟩, some q => some { s.move i ⟨born,.waiting⟩ .taking with _queue := q }
    | _, _ => none
  | .get_task i =>
    match s._thread_group[i]? with
    | some ⟨born,.taking⟩ =>
      match s._queue.pop_front with
      | (none,_) => some (s.move i ⟨born,.taking⟩ .exited)
      | (some task,q) => some { s.move i ⟨born,.taking⟩ (.running task) with _queue := q }
    | _ => none
  | .finish i =>
    match s._thread_group[i]? with
    | some ⟨born,.running task⟩ =>
      some { s.move i ⟨born,.running task⟩ .waiting with executed := s.executed ++ [task] }
    | _ => none

end ThreadPool
end OctCommu.Thread
