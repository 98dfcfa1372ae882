import OctCommu.Communcation.TCPSteps

/-! # An inert TCP link has nothing pending

Whatever is pending leads to an activity: an event is shown that makes it
happen or leads to a pending thing of another kind.
-/
namespace OctCommu.Communcation
open Memory Util Network Network.SockUtil Runs
variable {P : Type*} {inet_ntop6 : List UInt8 → Text}

/-- No fd and no task. A connection timer may run: it only reports a failure. -/
structure TcpSocket.Silent (k : TcpSocket) : Prop where
  idle : k.phase = .idle
  connectTasks : k.connectTasks = 0
  errTasks : k.errTasks = 0

/-- No timer will connect again, and the socket has nothing to report. -/
structure TCPClientImp.Quiet (c : TCPClientImp) : Prop where
  unarmed : c.client._timer_reconnect = none
  silent : ∀ k, c._sock = some k → k.Silent

/-- No connection is served whose data is called back at once or by a worker that runs, and the queued
runs of such a worker will find no bytes. -/
structure TCPServerImp.Drained (s : TCPServerImp P) : Prop where
  sessions : s.sessions = 0 ∨ s.common.is_detach_recv_ = true ∧ s.started = false
  empty : s.started = true →
    ∀ fb ∈ s.common.recv_blocking_queue_.queue_.take s.tasks, fb.buf.currentLen = 0

def TCPAct.isInit : TCPAct P → Bool
  | .init .. => true
  | _ => false

namespace TCPImp

/-- The server has a callback, or can be given one. -/
def Callable (s : TCPImp P) : Prop :=
  s.tcp_server_imp_.common.on_recv_data_func_ = true ∨ TT_CLIENT ≠ s.tcp_type_

/-- Neither of the two objects has anything pending that leads to an activity. -/
structure Quiet (s : TCPImp P) : Prop where
  client : s.tcp_client_imp_.Quiet
  closed : ∀ p, s.tcp_server_imp_.listening p = false
  drained : s.Callable → s.tcp_server_imp_.Drained

/-- Until the next `init` no attempt is made, no connection accepted, no callback called. -/
def Inert [DecidableEq P] (_poller : P) (inet_ntop6 : List UInt8 → Text) (s : TCPImp P) : Prop :=
  Frozen (step _poller inet_ntop6) (fun a => a.isInit = false) activity s

section
variable [DecidableEq P] {_poller : P} {s : TCPImp P}

theorem Inert.step {t : TCPImp P} {a : TCPAct P} (hi : s.Inert _poller inet_ntop6)
    (ha : a.isInit = false) (ht : TCPImp.step _poller inet_ntop6 s a = some t) :
    t.activity = s.activity ∧ t.Inert _poller inet_ntop6 :=
  Frozen.after hi ha ht

/-- Inertness passes along the events of the client, which make no attempt and no call. -/
theorem Inert.client {e : ClientEvent} {k : TcpSocket} {c : TCPClientImp} {attempts recvs : ℕ}
    (hi : s.Inert _poller inet_ntop6) (hk : s.tcp_client_imp_._sock = some k)
    (hr : s.tcp_client_imp_.sockEvent inet_ntop6 k e = some (c,attempts,recvs)) :
    attempts = 0 ∧ recvs = 0 ∧ Inert _poller inet_ntop6 { s with tcp_client_imp_ := c } := by
  obtain ⟨hact,ht⟩ := hi.step (a := .client e) rfl (step_client hk hr)
  have hattempts : s.activity.attempts + attempts = s.activity.attempts :=
    congrArg Activity.attempts hact
  have hrecvs : s.activity.recvs + recvs = s.activity.recvs := congrArg Activity.recvs hact
  obtain rfl : attempts = 0 := by omega
  obtain rfl : recvs = 0 := by omega
  exact ⟨rfl,rfl,ht⟩

theorem Inert.server {e : ServerEvent P} {v : TCPServerImp P} {accepts recvs : ℕ}
    (hi : s.Inert _poller inet_ntop6)
    (hr : s.tcp_server_imp_.event inet_ntop6 e = some (v,accepts,recvs)) :
    accepts = 0 ∧ recvs = 0 ∧ Inert _poller inet_ntop6 { s with tcp_server_imp_ := v } := by
  obtain ⟨hact,ht⟩ := hi.step (a := .server e) rfl (step_server hr)
  have haccepts : s.activity.accepts + accepts = s.activity.accepts :=
    congrArg Activity.accepts hact
  have hrecvs : s.activity.recvs + recvs = s.activity.recvs := congrArg Activity.recvs hact
  obtain rfl : accepts = 0 := by omega
  obtain rfl : recvs = 0 := by omega
  exact ⟨rfl,rfl,ht⟩

variable {k : TcpSocket}

/-- A queued attempt is made. -/
theorem Inert.connectTasks (hi : s.Inert _poller inet_ntop6)
    (hk : s.tcp_client_imp_._sock = some k) : k.connectTasks = 0 := by
  by_contra hne
  have hpos : 0 < k.connectTasks := by omega
  have h := (hi.client (e := .connect_l .failed) hk (if_pos hpos)).1
  cases h

/-- An armed timer queues one. -/
theorem Inert.unarmed (hi : s.Inert _poller inet_ntop6) (hk : s.tcp_client_imp_._sock = some k) :
    s.tcp_client_imp_.client._timer_reconnect = none := by
  by_contra hne
  have harmed : s.tcp_client_imp_.client._timer_reconnect.isSome := Option.isSome_iff_ne_none.mpr hne
  obtain ⟨_,_,ht⟩ := hi.client (e := .reConnectServer) hk (if_pos harmed)
  have h : k.connectTasks + 1 = 0 := ht.connectTasks (k := k.connect) rfl
  omega

/-- The error handler arms the timer. -/
theorem Inert.errTasks (hi : s.Inert _poller inet_ntop6) (hl : s.tcp_client_imp_.Linked)
    (hk : s.tcp_client_imp_._sock = some k) : k.errTasks = 0 := by
  by_contra hne
  have hpos : 0 < k.errTasks := by omega
  obtain ⟨_,_,ht⟩ := hi.client (e := .on_err) hk (if_pos hpos)
  obtain ⟨sock_ptr,hptr⟩ := Option.isSome_iff_exists.mp (hl.same.mp (by rw [hk]; rfl))
  have h := ht.unarmed rfl
  simp only [TCPClientImp.on_err, hptr] at h
  rcases s.tcp_client_imp_.client.onSockErr_cases sock_ptr with ⟨hother,_⟩ | ⟨_,he⟩
  · exact hother hptr
  · rw [he] at h
    cases h

/-- An error on an open fd queues its handler. -/
theorem Inert.hasFd (hi : s.Inert _poller inet_ntop6) (hl : s.tcp_client_imp_.Linked)
    (hk : s.tcp_client_imp_._sock = some k) : k.hasFd = false := by
  by_contra hne
  have hfd : k.hasFd = true := by simpa using hne
  obtain ⟨_,_,ht⟩ := hi.client (e := .emitErr) hk (if_pos hfd)
  have hl : TCPClientImp.Linked { s.tcp_client_imp_ with _sock := some k.emitErr } :=
    TCPClientImp.linked_of_isSome rfl (hl.same.mp (by rw [hk]; rfl))
  have h := ht.errTasks hl rfl
  rw [TcpSocket.emitErr, if_pos hfd] at h
  cases h

theorem Inert.idle (hi : s.Inert _poller inet_ntop6) (hl : s.tcp_client_imp_.Linked)
    (hk : s.tcp_client_imp_._sock = some k) : k.phase = .idle := by
  have hfd := hi.hasFd hl hk
  cases hp : k.phase with
  | idle => rfl
  | resolving =>
    -- the name resolves, and an fd is there
    obtain ⟨_,_,ht⟩ := hi.client (e := .resolved true) hk (if_pos hp)
    have hl : TCPClientImp.Linked
        { s.tcp_client_imp_ with _sock := some { k with phase := .connecting } } :=
      TCPClientImp.linked_of_isSome rfl (hl.same.mp (by rw [hk]; rfl))
    exact absurd (ht.hasFd hl rfl) (by simp [TcpSocket.hasFd])
  | connecting => simp [TcpSocket.hasFd, hp] at hfd
  | connected => simp [TcpSocket.hasFd, hp] at hfd

theorem Inert.quiet_client (hi : s.Inert _poller inet_ntop6) (hl : s.tcp_client_imp_.Linked) :
    s.tcp_client_imp_.Quiet := by
  cases hk : s.tcp_client_imp_._sock with
  | none =>
    constructor
    · by_contra hne
      have h := hl.timer (Option.isSome_iff_ne_none.mpr hne)
      rw [hk] at h
      cases h
    · intro k h
      rw [hk] at h
      cases h
  | some k =>
    refine ⟨hi.unarmed hk,?_⟩
    intro k' h
    cases hk.symm.trans h
    exact ⟨hi.idle hl hk,hi.connectTasks hk,hi.errTasks hl hk⟩

theorem Inert.closed (hi : s.Inert _poller inet_ntop6) (p : P) :
    s.tcp_server_imp_.listening p = false := by
  by_contra hne
  have hp : s.tcp_server_imp_.listening p = true := by simpa using hne
  have h := (hi.server (e := .onAccept p true) (if_pos hp)).1
  cases h

/-- A worker that finds a callback takes the head of the queue and calls unless it is empty. -/
theorem event_recvDataWorker {v : TCPServerImp P} {fb : RecvBuffer} {rest : List RecvBuffer} {n : ℕ}
    (hcb : v.common.on_recv_data_func_ = true) (hrun : v.started = true)
    (hq : v.common.recv_blocking_queue_.queue_ = fb :: rest) (ht : v.tasks = n + 1) :
    v.event inet_ntop6 .recvDataWorker = some ({ v with
      common := { v.common with recv_blocking_queue_ := ⟨rest⟩ }
      tasks := n },0,if fb.buf.currentLen = 0 then 0 else 1) := by
  simp only [TCPServerImp.event, hrun, ht, Nat.succ_pos, and_self, if_true, recvDataWorker, hcb,
    BlockingQueue.take, hq, Nat.add_sub_cancel]
  split <;> rfl

theorem Inert.empty {n : ℕ} (hi : s.Inert _poller inet_ntop6)
    (hcb : s.tcp_server_imp_.common.on_recv_data_func_ = true)
    (hrun : s.tcp_server_imp_.started = true) (hn : s.tcp_server_imp_.tasks = n) :
    ∀ fb ∈ s.tcp_server_imp_.common.recv_blocking_queue_.queue_.take n, fb.buf.currentLen = 0 := by
  induction n generalizing s with
  | zero => simp
  | succ n ih =>
    cases hq : s.tcp_server_imp_.common.recv_blocking_queue_.queue_ with
    | nil => simp
    | cons fb rest =>
      obtain ⟨_,hrecvs,ht⟩ := hi.server (event_recvDataWorker hcb hrun hq hn)
      intro fb' hfb'
      rw [List.take_succ_cons] at hfb'
      rcases List.mem_cons.mp hfb' with rfl | hfb'
      · by_contra hne
        rw [if_neg hne] at hrecvs
        cases hrecvs
      · exact ih ht hcb hrun rfl fb' hfb'

/-- The queued copies of chunks that did not fit. -/
def empties (queue_ : List RecvBuffer) : ℕ := queue_.countP fun fb => fb.buf.currentLen = 0

/-- A copy of one byte is not empty. -/
theorem currentLen_fill_byte (inet_ntop6 : List UInt8 → Text) (addr : ℕ → UInt8) (flag : Bool) :
    (RecvBuffer.fill inet_ntop6 [7] addr flag).buf.currentLen ≠ 0 := by
  have h := RecvBuffer.contents_fill inet_ntop6 [7] addr flag
  rw [if_pos (by decide)] at h
  have hlen := (RecvBuffer.fill inet_ntop6 [7] addr flag).buf.contents_length
  rw [h] at hlen
  exact fun hz => absurd (hlen.trans hz) (by decide)

theorem empties_put (q : BlockingQueue RecvBuffer 128) {fb : RecvBuffer}
    (hfb : fb.buf.currentLen ≠ 0) : empties (q.put fb).queue_ ≤ empties q.queue_ := by
  have hdrop := (List.drop_sublist (q.size - 128) q.queue_).countP_le
    (p := fun fb => fb.buf.currentLen = 0)
  simpa only [empties, BlockingQueue.queue_put, List.countP_append, List.countP_singleton, hfb,
    decide_false, Bool.false_eq_true, if_false, Nat.add_zero] using hdrop

theorem event_MyonRecv_detached {v : TCPServerImp P} (hcb : v.common.on_recv_data_func_ = true)
    (hdetach : v.common.is_detach_recv_ = true) (hpos : 0 < v.sessions) :
    v.event inet_ntop6 (.MyonRecv [7] fun _ => 0) = some ({ v with
      common := { v.common with
        recv_blocking_queue_ := v.common.recv_blocking_queue_.put
          (.fill inet_ntop6 [7] (fun _ => 0) v.common.is_ipv4_) }
      tasks := v.tasks + 1 },0,0) := by
  simp [TCPServerImp.event, MyonRecv, hcb, hdetach, hpos, asyncCount, calledBytes]

/-- One more chunk and one more run, again and again, get past the empty copies in front. -/
theorem Inert.not_started (hi : s.Inert _poller inet_ntop6)
    (hcb : s.tcp_server_imp_.common.on_recv_data_func_ = true)
    (hdetach : s.tcp_server_imp_.common.is_detach_recv_ = true)
    (hpos : 0 < s.tcp_server_imp_.sessions) : s.tcp_server_imp_.started = false := by
  apply Bool.eq_false_iff.mpr
  intro hrun
  generalize hn : empties s.tcp_server_imp_.common.recv_blocking_queue_.queue_ = n
  induction n using Nat.strong_induction_on generalizing s with
  | h n ih =>
    obtain ⟨_,_,ht⟩ := hi.server (event_MyonRecv_detached hcb hdetach hpos)
    have hle := empties_put s.tcp_server_imp_.common.recv_blocking_queue_
      (currentLen_fill_byte inet_ntop6 (fun _ => 0) s.tcp_server_imp_.common.is_ipv4_)
    cases hq : (s.tcp_server_imp_.common.recv_blocking_queue_.put
        (.fill inet_ntop6 [7] (fun _ => 0) s.tcp_server_imp_.common.is_ipv4_)).queue_ with
    | nil => simp [BlockingQueue.queue_put] at hq
    | cons front rest =>
      obtain ⟨_,hrecvs,hu⟩ := ht.server (event_recvDataWorker hcb hrun hq rfl)
      have hfront : front.buf.currentLen = 0 := by
        by_contra hne
        rw [if_neg hne] at hrecvs
        cases hrecvs
      have hlt : empties rest < n := by
        rw [hq, hn] at hle
        simp only [empties, List.countP_cons, hfront, decide_true, if_true] at hle
        simp only [empties]
        omega
      exact ih _ hlt hu hcb hdetach hpos hrun rfl

/-- Data of a served connection calls back at once, or after some runs of a worker. -/
theorem Inert.sessions (hi : s.Inert _poller inet_ntop6)
    (hcb : s.tcp_server_imp_.common.on_recv_data_func_ = true) :
    s.tcp_server_imp_.sessions = 0 ∨
      s.tcp_server_imp_.common.is_detach_recv_ = true ∧ s.tcp_server_imp_.started = false := by
  rcases Nat.eq_zero_or_pos s.tcp_server_imp_.sessions with hz | hpos
  · exact .inl hz
  cases hdetach : s.tcp_server_imp_.common.is_detach_recv_ with
  | true => exact .inr ⟨rfl,hi.not_started hcb hdetach hpos⟩
  | false =>
    have hevent : s.tcp_server_imp_.event inet_ntop6 (.MyonRecv [7] fun _ => 0) =
        some (s.tcp_server_imp_,0,1) := by
      simp [TCPServerImp.event, MyonRecv, hcb, hdetach, hpos, asyncCount, calledBytes]
    cases (hi.server hevent).2.1

theorem Inert.drained (hi : s.Inert _poller inet_ntop6) (hc : s.Callable) :
    s.tcp_server_imp_.Drained := by
  by_cases hcb : s.tcp_server_imp_.common.on_recv_data_func_ = true
  · exact ⟨hi.sessions hcb,fun hrun => hi.empty hcb hrun rfl⟩
  · -- the application sets a callback first
    have hrole : TT_CLIENT ≠ s.tcp_type_ := hc.resolve_left hcb
    have ht := (hi.step (a := .setOnReadFunc true) rfl rfl).2
    simp only [setOnReadFunc, if_neg hrole] at ht
    have hsessions := ht.sessions rfl
    exact ⟨hsessions,fun hrun => ht.empty rfl hrun rfl⟩

theorem Inert.quiet (hi : s.Inert _poller inet_ntop6) (hl : s.tcp_client_imp_.Linked) : s.Quiet :=
  ⟨hi.quiet_client hl,hi.closed,hi.drained⟩

end
end TCPImp
end OctCommu.Communcation
