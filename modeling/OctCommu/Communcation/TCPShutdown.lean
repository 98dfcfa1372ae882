import OctCommu.Communcation.TCPInert

/-! # What still happens after a shutdown

A shutdown leaves nothing behind only when nothing was pending before it: the
error it causes restarts the reconnect timer, and the listening socket of a
server belongs to another object.
-/
namespace OctCommu.Communcation
open Memory Util Network Network.SockUtil Runs
variable {P : Type*} {inet_ntop6 : List UInt8 → Text}

theorem TcpSocket.silent_emitErr {k : TcpSocket} : k.emitErr.Silent ↔ k.Silent := by
  by_cases h : k.hasFd
  · constructor
    · intro hs
      have herr := hs.errTasks
      rw [emitErr, if_pos h] at herr
      cases herr
    · intro hs
      have hidle := hs.idle
      simp [hasFd, hidle] at h
  · rw [emitErr, if_neg h]

namespace TCPClientImp
variable {c : TCPClientImp}

theorem quiet_shutdown : c.shutdown.Quiet ↔ c.Quiet := by
  have hsock : c.shutdown._sock = c._sock.map TcpSocket.emitErr := rfl
  constructor
  · intro h
    refine ⟨h.unarmed,?_⟩
    intro k hk
    apply TcpSocket.silent_emitErr.mp
    apply h.silent
    rw [hsock, hk]
    rfl
  · intro h
    refine ⟨h.unarmed,?_⟩
    intro k' hk'
    rw [hsock] at hk'
    obtain ⟨k,hk,rfl⟩ := Option.map_eq_some_iff.mp hk'
    exact TcpSocket.silent_emitErr.mpr (h.silent k hk)

/-- The connection timer is all that can still fire. -/
theorem Quiet.sockEvent {k : TcpSocket} {e : ClientEvent} {r : TCPClientImp × ℕ × ℕ} (h : c.Quiet)
    (hk : c._sock = some k) (hr : c.sockEvent inet_ntop6 k e = some r) :
    r.1.Quiet ∧ r.2 = (0,0) := by
  obtain ⟨hidle,hconnect,herr⟩ := h.silent k hk
  have hfd : k.hasFd = false := by simp [TcpSocket.hasFd, hidle]
  cases e with
  | conTimer =>
    obtain ⟨_,⟨⟩⟩ := Option.ite_none_right_eq_some.mp hr
    refine ⟨⟨h.unarmed,?_⟩,rfl⟩
    intro k' hk'
    cases hk'
    exact ⟨rfl,hconnect,herr⟩
  | connect_l result => simp [TCPClientImp.sockEvent, hconnect] at hr
  | resolved connects => simp [TCPClientImp.sockEvent, hidle] at hr
  | onConnected err => simp [TCPClientImp.sockEvent, hidle] at hr
  | emitErr => simp [TCPClientImp.sockEvent, hfd] at hr
  | on_err => simp [TCPClientImp.sockEvent, herr] at hr
  | reConnectServer => simp [TCPClientImp.sockEvent, h.unarmed] at hr
  | onRecv pdata addr => simp [TCPClientImp.sockEvent, hidle] at hr

end TCPClientImp

namespace TCPServerImp
variable {v : TCPServerImp P}

theorem recvDataWorker_empty {common : TCPCommon} (hcb : common.on_recv_data_func_ = true)
    (h : (common.recv_blocking_queue_.queue_.head?.getD default).buf.currentLen = 0) :
    recvDataWorker common =
      ({ common with recv_blocking_queue_ := ⟨common.recv_blocking_queue_.queue_.tail⟩ },[]) := by
  simp only [recvDataWorker, hcb, if_true, BlockingQueue.take_eq, h]

/-- A queued run finds no callback or an empty copy. -/
theorem recvDataWorker_quiet {m : ℕ} (hrun : v.started = true) (ht : v.tasks = m + 1)
    (hd : v.common.on_recv_data_func_ = true → v.Drained) :
    (recvDataWorker v.common).2 = [] ∧
      (recvDataWorker v.common).1.on_recv_data_func_ = v.common.on_recv_data_func_ ∧
      (recvDataWorker v.common).1.is_detach_recv_ = v.common.is_detach_recv_ ∧
      ∀ fb ∈ (recvDataWorker v.common).1.recv_blocking_queue_.queue_.take m,
        fb ∈ v.common.recv_blocking_queue_.queue_.take v.tasks := by
  rw [ht]
  cases hcb : v.common.on_recv_data_func_ with
  | false =>
    rw [DetachedLink.recvDataWorker_unset hcb]
    exact ⟨rfl,hcb,rfl,fun fb hfb => List.take_subset_take_left _ (Nat.le_succ m) hfb⟩
  | true =>
    have hempty := (hd hcb).empty hrun
    rw [ht] at hempty
    have hhead : (v.common.recv_blocking_queue_.queue_.head?.getD default).buf.currentLen = 0 := by
      cases hq : v.common.recv_blocking_queue_.queue_ with
      | nil => rfl
      | cons fb rest =>
        apply hempty
        rw [hq]
        exact List.mem_cons_self ..
    rw [recvDataWorker_empty hcb hhead]
    refine ⟨rfl,hcb,rfl,?_⟩
    intro fb hfb
    cases hq : v.common.recv_blocking_queue_.queue_ with
    | nil => simp [hq] at hfb
    | cons head rest =>
      simp only [hq, List.tail_cons] at hfb
      exact List.mem_cons_of_mem _ hfb

/-- `callable` says whether a callback is set or can be set. -/
theorem event_quiet [DecidableEq P] {callable : Prop} {e : ServerEvent P}
    {r : TCPServerImp P × ℕ × ℕ} (hclosed : ∀ p, v.listening p = false)
    (hcall : v.common.on_recv_data_func_ = true → callable) (hd : callable → v.Drained)
    (hr : v.event inet_ntop6 e = some r) :
    (∀ p, r.1.listening p = false) ∧ (callable → r.1.Drained) ∧
      r.1.common.on_recv_data_func_ = v.common.on_recv_data_func_ ∧ r.2 = (0,0) := by
  cases e with
  | onAccept q toParent => simp [event, hclosed] at hr
  | emitErr q => simp [event, hclosed] at hr
  | MyonRecv pdata addr =>
    obtain ⟨⟨hpos,_⟩,⟨⟩⟩ := Option.ite_none_right_eq_some.mp hr
    cases hcb : v.common.on_recv_data_func_ with
    | false =>
      have hrecv : MyonRecv inet_ntop6 v.common pdata addr = (v.common,[]) := by
        simp [MyonRecv, hcb]
      rw [hrecv]
      exact ⟨hclosed,hd,hcb,rfl⟩
    | true =>
      -- a served connection only fills the queue of a worker that does not run
      have hsess := (hd (hcall hcb)).sessions
      obtain ⟨hdetach,hrun⟩ := hsess.resolve_left (by omega)
      have hrecv : MyonRecv inet_ntop6 v.common pdata addr = ({ v.common with
          recv_blocking_queue_ := v.common.recv_blocking_queue_.put
            (.fill inet_ntop6 pdata addr v.common.is_ipv4_) },[.async]) := by
        simp [MyonRecv, hcb, hdetach]
      rw [hrecv]
      exact ⟨hclosed,fun _ => ⟨hsess,fun h => absurd (hrun.symm.trans h) Bool.noConfusion⟩,hcb,rfl⟩
  | sessionErr =>
    obtain ⟨_,⟨⟩⟩ := Option.ite_none_right_eq_some.mp hr
    refine ⟨hclosed,?_,rfl,rfl⟩
    intro h
    refine ⟨?_,(hd h).empty⟩
    rcases (hd h).sessions with hz | hidle
    · exact .inl (by simp [hz])
    · exact .inr hidle
  | recvDataWorker =>
    obtain ⟨⟨hrun,hpos⟩,⟨⟩⟩ := Option.ite_none_right_eq_some.mp hr
    have ht : v.tasks = v.tasks - 1 + 1 := by omega
    obtain ⟨hcalls,hcb,hdetach,hsub⟩ := recvDataWorker_quiet hrun ht fun h => hd (hcall h)
    refine ⟨hclosed,?_,hcb,?_⟩
    · intro h
      refine ⟨?_,fun _ fb hfb => (hd h).empty hrun fb (hsub fb hfb)⟩
      rcases (hd h).sessions with hz | ⟨hd',hidle⟩
      · exact .inl hz
      · exact .inr ⟨hdetach.trans hd',hidle⟩
    · rw [hcalls]
      rfl

end TCPServerImp

namespace TCPImp
variable {s t : TCPImp P}

theorem quiet_shutdown : s.shutdown.Quiet ↔ s.Quiet := by
  unfold shutdown
  split
  · constructor
    · intro h
      exact ⟨TCPClientImp.quiet_shutdown.mp h.client,h.closed,h.drained⟩
    · intro h
      exact ⟨TCPClientImp.quiet_shutdown.mpr h.client,h.closed,h.drained⟩
  · constructor
    · rintro ⟨hclient,hclosed,hdrained⟩
      exact ⟨hclient,hclosed,fun hc => ⟨(hdrained hc).sessions,(hdrained hc).empty⟩⟩
    · rintro ⟨hclient,hclosed,hdrained⟩
      exact ⟨hclient,hclosed,fun hc => ⟨(hdrained hc).sessions,(hdrained hc).empty⟩⟩

theorem Quiet.setOnReadFunc (h : s.Quiet) (cb : Bool) : (s.setOnReadFunc cb).Quiet := by
  unfold TCPImp.setOnReadFunc
  split
  · exact ⟨⟨h.client.unarmed,h.client.silent⟩,h.closed,h.drained⟩
  · rename_i hrole
    have hd := h.drained (Or.inr hrole)
    exact ⟨h.client,h.closed,fun _ => ⟨hd.sessions,hd.empty⟩⟩

theorem Quiet.step [DecidableEq P] {_poller : P} {a : TCPAct P} (h : s.Quiet)
    (ha : a.isInit = false) (ht : TCPImp.step _poller inet_ntop6 s a = some t) :
    t.Quiet ∧ t.activity = s.activity := by
  cases a with
  | init init_param result => cases ha
  | shutdown =>
    cases ht
    refine ⟨quiet_shutdown.mpr h,?_⟩
    unfold shutdown
    split <;> rfl
  | setOnReadFunc cb =>
    cases ht
    refine ⟨h.setOnReadFunc cb,?_⟩
    unfold TCPImp.setOnReadFunc
    split <;> rfl
  | client e =>
    obtain ⟨k,⟨c,n⟩,hk,hr,rfl⟩ := step_client_cases ht
    obtain ⟨hc,rfl⟩ := h.client.sockEvent hk hr
    exact ⟨⟨hc,h.closed,h.drained⟩,rfl⟩
  | server e =>
    obtain ⟨⟨v,n⟩,hr,rfl⟩ := Option.map_eq_some_iff.mp ht
    obtain ⟨hclosed,hd,hcb,rfl⟩ := TCPServerImp.event_quiet h.closed
      (Or.inl : _ → s.Callable) h.drained hr
    refine ⟨⟨h.client,hclosed,?_⟩,rfl⟩
    intro hc
    apply hd
    rcases hc with hc | hc
    · exact Or.inl (hcb.symm.trans hc)
    · exact Or.inr hc

theorem Quiet.inert [DecidableEq P] {_poller : P} (h : s.Quiet) : s.Inert _poller inet_ntop6 :=
  frozen_of_preserves (fun _ _ _ hs ha ht => hs.step ha ht) h

/-- Whatever happened before, a shutdown link is inert if and only if nothing was pending when it
was shut down. -/
theorem inert_shutdown_iff_quiet [DecidableEq P] {_poller : P} {as : List (TCPAct P)}
    (h : exec (step _poller inet_ntop6) start as = some s) :
    s.shutdown.Inert _poller inet_ntop6 ↔ s.Quiet := by
  rw [← quiet_shutdown]
  constructor
  · intro hi
    exact hi.quiet (linked_shutdown (linked_of_run h))
  · intro hq
    exact hq.inert

/-- A configuration of either role. -/
def initParam (tcp_type_ : ℤ) : TCPInit := ⟨tcp_type_,[49],true,false⟩

/-- A server whose port is taken has nothing to shut down. -/
theorem inert_shutdown_iff_quiet_port_taken :
    (start.init 0 (initParam TT_SERVER) .noSocket : TCPImp ℕ).shutdown.Inert 0 (fun _ => [58,58]) ↔
      (start.init 0 (initParam TT_SERVER) .noSocket : TCPImp ℕ).Quiet :=
  inert_shutdown_iff_quiet
    (rfl : exec (step 0 _) start [.init (initParam TT_SERVER) .noSocket] = some _)

/-- A connected client makes an attempt five seconds after its shutdown, a server goes on
accepting. -/
theorem not_inert_shutdown :
    (∃ s : TCPImp ℕ, exec (step 0 fun _ => [58,58]) start
        [.init (initParam TT_CLIENT) .noSocket,.client (.connect_l .connecting),
          .client (.onConnected false)] = some s ∧
      ¬ s.shutdown.Inert 0 fun _ => [58,58]) ∧
    ∃ s : TCPImp ℕ, exec (step 0 fun _ => [58,58]) start
        [.init (initParam TT_SERVER) (.listens fun _ => false)] = some s ∧
      ¬ s.shutdown.Inert 0 fun _ => [58,58] := by
  constructor
  · refine ⟨_,rfl,?_⟩
    intro hi
    have h := hi [.client .on_err,.client .reConnectServer,.client (.connect_l .connecting)] _
      (by simp [TCPAct.isInit]) rfl
    exact absurd (congrArg Activity.attempts h) (by decide)
  · refine ⟨_,rfl,?_⟩
    intro hi
    have h := hi [.server (.onAccept 0 true)] _ (by simp [TCPAct.isInit]) rfl
    exact absurd (congrArg Activity.accepts h) (by decide)

end TCPImp
end OctCommu.Communcation
