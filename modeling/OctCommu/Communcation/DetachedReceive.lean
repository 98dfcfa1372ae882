import OctCommu.Communcation.ReceiveChunks
import OctCommu.Lib.Runs

/-! # Detached receiving in a TCP server link

`MyonRecv` runs under `recv_func_mutex_` and is cut where another thread can
come between: at its look at the callback, its `put` and its `async`. A worker
task and `setOnReadFunc` exclude each other, so each of them is one step.
-/
namespace OctCommu.Communcation
open Memory Util Network.SockUtil Runs
variable {inet_ntop6 : List UInt8 → Text}

/-- A run of the worker task. Without a callback it returns before it takes anything. -/
def recvDataWorker (s : TCPCommon) : TCPCommon × List RecvEffect :=
  if s.on_recv_data_func_ then
    let r := s.recv_blocking_queue_.take
    let t := { s with recv_blocking_queue_ := r.2 }
    if r.1.buf.currentLen = 0 then (t,[])
    else (t,[.called (r.1.call r.1.buf.currentLen)])
  else (s,[])

def setOnReadFunc (s : TCPCommon) (cb : Bool) : TCPCommon := { s with on_recv_data_func_ := cb }

/-- Where the thread in `MyonRecv` is: its chunk is copied, or queued without a task yet. -/
inductive MyonRecvPc where
  | idle
  | copied (pdata : List UInt8) (fb : RecvBuffer)
  | queued

/-- The link, the tasks its pool still has to run, and what was put and called back so far. -/
structure DetachedLink where
  common : TCPCommon
  tasks : ℕ
  pc : MyonRecvPc
  chunks : List (List UInt8)
  delivered : List (List UInt8)

inductive DetachedAct where
  | MyonRecv (pdata : List UInt8) (addr : ℕ → UInt8)
  | put
  | async
  | worker
  | setOnReadFunc (cb : Bool)

/-- The bytes of the callbacks among some effects. -/
def calledBytes (effects : List RecvEffect) : List (List UInt8) :=
  effects.filterMap fun e => match e with
    | .called c => some c.pdata
    | .bad_function_call => none
    | .async => none

def asyncCount (effects : List RecvEffect) : ℕ :=
  (effects.filter fun e => match e with
    | .async => true
    | _ => false).length

namespace DetachedLink

/-- A link in detached mode before its first chunk. -/
def start (is_ipv4_ cb : Bool) : DetachedLink :=
  ⟨⟨true,true,is_ipv4_,cb,.fresh⟩,0,.idle,[],[]⟩

def step (inet_ntop6 : List UInt8 → Text) (l : DetachedLink) : DetachedAct → Option DetachedLink
  | .MyonRecv pdata addr =>
    match l.pc with
    | .idle =>
      if l.common.on_recv_data_func_ then
        some { l with pc := .copied pdata (.fill inet_ntop6 pdata addr l.common.is_ipv4_) }
      else some l
    | _ => none
  | .put =>
    match l.pc with
    | .copied pdata fb => some { l with
        common := { l.common with recv_blocking_queue_ := l.common.recv_blocking_queue_.put fb }
        pc := .queued
        chunks := l.chunks ++ [pdata] }
    | _ => none
  | .async =>
    match l.pc with
    | .queued => some { l with pc := .idle, tasks := l.tasks + 1 }
    | _ => none
  | .worker =>
    if 0 < l.tasks then
      some { l with
        common := (recvDataWorker l.common).1
        tasks := l.tasks - 1
        delivered := l.delivered ++ calledBytes (recvDataWorker l.common).2 }
    else none
  | .setOnReadFunc cb => some { l with common := Communcation.setOnReadFunc l.common cb }

/-- The chunks that wait in the queue. -/
def waiting (l : DetachedLink) : List (List UInt8) :=
  l.common.recv_blocking_queue_.queue_.map fun fb => fb.buf.contents

/-- The task `MyonRecv` still owes. -/
def owed (l : DetachedLink) : ℕ :=
  match l.pc with
  | .queued => 1
  | _ => 0

/-- No more chunks wait than tasks will come for them, and callbacks get the chunks in their order.
A drained pool leaves nothing behind. -/
structure Paired (l : DetachedLink) : Prop where
  count : l.waiting.length ≤ l.tasks + l.owed
  order : l.delivered ++ l.waiting = l.chunks
  drained : l.tasks = 0 → l.owed = 0 → l.waiting = [] ∧ l.delivered = l.chunks

/-- Chunks are not empty, and the queue stays below the size from which it drops elements. -/
def Undropped (l : DetachedLink) : DetachedAct → Prop
  | .MyonRecv pdata _ => pdata ≠ []
  | .put => l.common.recv_blocking_queue_.size ≤ 128
  | _ => True

instance (l : DetachedLink) : DecidablePred l.Undropped
  | .MyonRecv pdata _ => inferInstanceAs (Decidable (pdata ≠ []))
  | .put => inferInstanceAs (Decidable (l.common.recv_blocking_queue_.size ≤ 128))
  | .async => isTrue trivial
  | .worker => isTrue trivial
  | .setOnReadFunc _ => isTrue trivial

/-- Workers find a callback, and chunks fit the buffer they are copied to. -/
def TaskTakes (l : DetachedLink) : DetachedAct → Prop
  | .worker => l.common.on_recv_data_func_ = true
  | .put => ∀ pdata fb, l.pc = .copied pdata fb → pdata.length < MAX_RECV_BUF_LEN
  | _ => True

/-- A copy that is on its way, with the bytes it was made of. -/
def CopyOf (inet_ntop6 : List UInt8 → Text) (pdata : List UInt8) (fb : RecvBuffer) : Prop :=
  pdata ≠ [] ∧ ∃ addr flag, fb = .fill inet_ntop6 pdata addr flag

structure Inv (inet_ntop6 : List UInt8 → Text) (l : DetachedLink) : Prop where
  count : l.waiting.length = l.tasks + l.owed
  order : l.delivered ++ l.waiting = l.chunks
  whole : ∀ bytes ∈ l.waiting, bytes ≠ []
  copy : ∀ pdata fb, l.pc = .copied pdata fb → CopyOf inet_ntop6 pdata fb

theorem inv_start (is_ipv4_ cb : Bool) : (start is_ipv4_ cb).Inv inet_ntop6 :=
  ⟨rfl,rfl,by simp [start, waiting, BlockingQueue.fresh],by simp [start]⟩

theorem Inv.paired {l : DetachedLink} (h : l.Inv inet_ntop6) : l.Paired := by
  refine ⟨Nat.le_of_eq h.count,h.order,?_⟩
  intro ht ho
  have hw : l.waiting = [] := by
    apply List.eq_nil_of_length_eq_zero
    rw [h.count, ht, ho]
  have horder := h.order
  rw [hw, List.append_nil] at horder
  exact ⟨hw,horder⟩

theorem waiting_put {l : DetachedLink} (h : l.common.recv_blocking_queue_.size ≤ 128)
    (fb : RecvBuffer) :
    ((l.common.recv_blocking_queue_.put fb).queue_.map fun fb => fb.buf.contents) =
      l.waiting ++ [fb.buf.contents] := by
  rw [BlockingQueue.queue_put_of_le h, List.map_append]
  rfl

theorem recvDataWorker_unset {s : TCPCommon} (h : s.on_recv_data_func_ = false) :
    recvDataWorker s = (s,[]) := by
  simp [recvDataWorker, h]

/-- With a callback the oldest chunk is taken and handed over. -/
theorem recvDataWorker_take {s : TCPCommon} {fb : RecvBuffer} {rest : List RecvBuffer}
    (hcb : s.on_recv_data_func_ = true) (hq : s.recv_blocking_queue_.queue_ = fb :: rest)
    (hne : fb.buf.contents ≠ []) :
    recvDataWorker s = ({ s with recv_blocking_queue_ := ⟨rest⟩ },
      [.called (fb.call fb.buf.currentLen)]) := by
  have hlen : fb.buf.currentLen ≠ 0 := by
    intro h
    apply hne
    apply List.eq_nil_of_length_eq_zero
    rw [FixedBuffer.contents_length]
    exact h
  simp [recvDataWorker, hcb, BlockingQueue.take, hq, hlen]

theorem Inv.worker {l t : DetachedLink} (hi : l.Inv inet_ntop6)
    (hcb : l.common.on_recv_data_func_ = true) (ht : step inet_ntop6 l .worker = some t) :
    t.Inv inet_ntop6 := by
  obtain ⟨hpos,⟨⟩⟩ := Option.ite_none_right_eq_some.mp ht
  obtain ⟨hcount,horder,hwhole,hcopy⟩ := hi
  have hlen : 0 < l.waiting.length := by omega
  cases hq : l.common.recv_blocking_queue_.queue_ with
  | nil =>
    simp only [waiting, hq, List.map_nil, List.length_nil] at hlen
    omega
  | cons fb rest =>
    have hw : l.waiting = fb.buf.contents :: rest.map fun fb => fb.buf.contents := by
      simp only [waiting, hq, List.map_cons]
    rw [hw] at hcount horder hwhole
    have hne := hwhole _ (List.mem_cons_self ..)
    rw [recvDataWorker_take hcb hq hne]
    refine ⟨?_,?_,?_,hcopy⟩
    · change (rest.map fun fb => fb.buf.contents).length = l.tasks - 1 + l.owed
      simp only [List.length_cons] at hcount
      omega
    · change (l.delivered ++ [fb.buf.contents]) ++ (rest.map fun fb => fb.buf.contents) = l.chunks
      rw [List.append_assoc]
      exact horder
    · exact fun bytes hb => hwhole bytes (List.mem_cons_of_mem _ hb)

theorem step_good {l t : DetachedLink} {a : DetachedAct} (hi : l.Inv inet_ntop6)
    (hu : l.Undropped a) (hc : l.TaskTakes a) (ht : step inet_ntop6 l a = some t) :
    t.Inv inet_ntop6 := by
  cases a with
  | MyonRecv pdata addr =>
    cases hpc : l.pc with
    | idle =>
      have hcount := hi.count
      simp only [step, hpc] at ht
      split at ht
      · cases ht
        refine ⟨?_,hi.order,hi.whole,?_⟩
        · simp only [owed, hpc] at hcount
          exact hcount
        · intro _ _ he
          cases he
          exact ⟨hu,addr,l.common.is_ipv4_,rfl⟩
      · cases ht
        exact hi
    | copied pdata fb => simp [step, hpc] at ht
    | queued => simp [step, hpc] at ht
  | put =>
    cases hpc : l.pc with
    | idle => simp [step, hpc] at ht
    | copied pdata fb =>
      obtain ⟨hne,addr,flag,hfb⟩ := hi.copy pdata fb hpc
      have hcont : fb.buf.contents = pdata := by
        rw [hfb, RecvBuffer.contents_fill, if_pos (hc pdata fb hpc)]
      have hw := waiting_put hu fb
      rw [hcont] at hw
      have hcount := hi.count
      simp only [owed, hpc] at hcount
      simp only [step, hpc] at ht
      cases ht
      refine ⟨?_,?_,?_,by simp⟩
      · simp only [waiting, owed] at hw hcount ⊢
        rw [hw, List.length_append, hcount]
        rfl
      · simp only [waiting] at hw ⊢
        rw [hw, ← List.append_assoc]
        exact congrArg (fun xs => xs ++ [pdata]) hi.order
      · simp only [waiting] at hw ⊢
        rw [hw]
        intro bytes hb
        rcases List.mem_append.mp hb with hb | hb
        · exact hi.whole bytes hb
        · rw [List.mem_singleton.mp hb]
          exact hne
    | queued => simp [step, hpc] at ht
  | async =>
    cases hpc : l.pc with
    | idle => simp [step, hpc] at ht
    | copied pdata fb => simp [step, hpc] at ht
    | queued =>
      have hcount := hi.count
      simp only [owed, hpc] at hcount
      simp only [step, hpc] at ht
      cases ht
      exact ⟨hcount,hi.order,hi.whole,by simp⟩
  | worker => exact hi.worker hc ht
  | setOnReadFunc cb =>
    cases ht
    exact ⟨hi.count,hi.order,hi.whole,hi.copy⟩

/-- A worker without a callback uses up its task, and a chunk that does not fit is queued empty. -/
theorem step_bad {l t : DetachedLink} {a : DetachedAct} (hi : l.Inv inet_ntop6)
    (hu : l.Undropped a) (ht : step inet_ntop6 l a = some t) (hp : t.Paired) : l.TaskTakes a := by
  cases a with
  | worker =>
    obtain ⟨hpos,⟨⟩⟩ := Option.ite_none_right_eq_some.mp ht
    cases hcb : l.common.on_recv_data_func_ with
    | true => exact hcb
    | false =>
      have hcount := hp.count
      rw [recvDataWorker_unset hcb] at hcount
      have hle : l.waiting.length ≤ l.tasks - 1 + l.owed := hcount
      have heq := hi.count
      omega
  | put =>
    intro pdata fb hpc
    by_cases hlt : pdata.length < MAX_RECV_BUF_LEN
    · exact hlt
    · obtain ⟨hne,addr,flag,hfb⟩ := hi.copy pdata fb hpc
      have hcont : fb.buf.contents = [] := by
        rw [hfb, RecvBuffer.contents_fill, if_neg hlt]
      have hw := waiting_put hu fb
      simp only [step, hpc] at ht
      cases ht
      have horder := hp.order
      simp only [waiting] at horder
      rw [hw, hcont, ← List.append_assoc, hi.order] at horder
      simp only [List.append_cancel_left_eq, List.cons.injEq, and_true] at horder
      exact absurd horder.symm hne
  | MyonRecv pdata addr => trivial
  | async => trivial
  | setOnReadFunc cb => trivial

/-- Chunks and tasks stay paired just as long as every worker finds a callback and every chunk fits
its buffer. -/
theorem taskTakes_iff_paired (is_ipv4_ cb : Bool) (as : List DetachedAct)
    (hu : EveryStep (step inet_ntop6) Undropped (start is_ipv4_ cb) as) :
    EveryStep (step inet_ntop6) TaskTakes (start is_ipv4_ cb) as ↔
      EveryState (step inet_ntop6) Paired (start is_ipv4_ cb) as := by
  have hs : (start is_ipv4_ cb).Inv inet_ntop6 := inv_start is_ipv4_ cb
  apply hu.iff_everyState hs
  · intro l hi
    exact hi.paired
  · intro l a t hi hu hc ht
    exact step_good hi hu hc ht
  · intro l a t hi hu ht hp
    exact step_bad hi hu ht hp

/-- One chunk, delivered by its worker. -/
theorem taskTakes_iff_paired_one_chunk :
    EveryStep (step fun _ => [58,58]) TaskTakes (start true true)
        [.MyonRecv [7] fun _ => 0,.put,.async,.worker] ↔
      EveryState (step fun _ => [58,58]) Paired (start true true)
        [.MyonRecv [7] fun _ => 0,.put,.async,.worker] :=
  taskTakes_iff_paired true true _ (by decide)

/-- The callback is cleared before the worker runs: the chunk stays without a task. -/
theorem not_paired_cleared_callback :
    EveryStep (step fun _ => [58,58]) Undropped (start true true)
        [.MyonRecv [7] fun _ => 0,.put,.async,.setOnReadFunc false,.worker] ∧
      ¬ EveryState (step fun _ => [58,58]) Paired (start true true)
        [.MyonRecv [7] fun _ => 0,.put,.async,.setOnReadFunc false,.worker] := by
  refine ⟨by decide,?_⟩
  intro h
  exact absurd (h.last rfl).count (by decide)

end DetachedLink
end OctCommu.Communcation
