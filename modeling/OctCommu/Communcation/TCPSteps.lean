import OctCommu.Communcation.TCPImp

/-! # Steps of a TCP link

The pointer a `TcpClient` holds and the socket behind it go together, and there
is a socket wherever there is a reconnect timer.
-/
namespace OctCommu.Communcation
open Memory Util Network Network.SockUtil Runs
variable {P : Type*} {inet_ntop6 : List UInt8 → Text}

/-- A socket where there is a reconnect timer, seen alike from the `TcpClient`. -/
structure TCPClientImp.Linked (c : TCPClientImp) : Prop where
  same : c._sock.isSome ↔ c.client._sock.isSome
  timer : c.client._timer_reconnect.isSome → c._sock.isSome

namespace TCPClientImp

theorem linked_fresh : fresh.Linked := ⟨by simp [fresh, TcpClient.fresh],by simp [fresh, TcpClient.fresh]⟩

theorem linked_of_isSome {c : TCPClientImp} (h : c._sock.isSome) (hc : c.client._sock.isSome) :
    c.Linked :=
  ⟨⟨fun _ => hc,fun _ => h⟩,fun _ => h⟩

theorem linked_init (c : TCPClientImp) (init_param : TCPInit) : (c.init init_param).Linked := by
  apply linked_of_isSome rfl
  simp [init, TcpClient.startConnect_eq]

theorem Linked.shutdown {c : TCPClientImp} (h : c.Linked) : c.shutdown.Linked := by
  constructor
  · simpa [TCPClientImp.shutdown, SocketHelper.shutdown] using h.same
  · simpa [TCPClientImp.shutdown, SocketHelper.shutdown] using h.timer

theorem recv_fst_cases (inet_ntop6 : List UInt8 → Text) (c : TCPClientImp) (pdata : List UInt8)
    (addr : ℕ → UInt8) :
    ∃ common, (c.recv inet_ntop6 pdata addr).1 = { c with common := common } ∨
      (c.recv inet_ntop6 pdata addr).1 = shutdown { c with common := common } := by
  refine ⟨(onRecv inet_ntop6 c.common pdata addr).1,?_⟩
  simp only [recv]
  split
  · right
    rfl
  · left
    rfl

/-- An event leaves both pointers to the socket set. -/
theorem sockEvent_isSome {c : TCPClientImp} {k : TcpSocket} {e : ClientEvent}
    {r : TCPClientImp × ℕ × ℕ} (hk : c._sock = some k) (hr : c.sockEvent inet_ntop6 k e = some r) :
    r.1._sock.isSome ∧ r.1.client._sock = c.client._sock := by
  cases e with
  | connect_l result =>
    obtain ⟨_,⟨⟩⟩ := Option.ite_none_right_eq_some.mp hr
    cases result <;> simp [connect_l]
  | resolved connects =>
    obtain ⟨_,⟨⟩⟩ := Option.ite_none_right_eq_some.mp hr
    cases connects <;> simp [connected]
  | onConnected err =>
    obtain ⟨_,⟨⟩⟩ := Option.ite_none_right_eq_some.mp hr
    simp [connected]
  | conTimer =>
    obtain ⟨_,⟨⟩⟩ := Option.ite_none_right_eq_some.mp hr
    simp [connected]
  | emitErr =>
    obtain ⟨_,⟨⟩⟩ := Option.ite_none_right_eq_some.mp hr
    simp
  | on_err =>
    obtain ⟨_,⟨⟩⟩ := Option.ite_none_right_eq_some.mp hr
    refine ⟨rfl,?_⟩
    simp only [on_err]
    split
    · exact TcpClient._sock_onSockErr ..
    · rfl
  | reConnectServer =>
    obtain ⟨_,⟨⟩⟩ := Option.ite_none_right_eq_some.mp hr
    simp
  | onRecv pdata addr =>
    obtain ⟨_,⟨⟩⟩ := Option.ite_none_right_eq_some.mp hr
    obtain ⟨common,h | h⟩ := recv_fst_cases inet_ntop6 c pdata addr
    · simp [h, hk]
    · simp [h, hk, shutdown, SocketHelper.shutdown]

theorem Linked.sockEvent {c : TCPClientImp} {k : TcpSocket} {e : ClientEvent}
    {r : TCPClientImp × ℕ × ℕ} (h : c.Linked) (hk : c._sock = some k)
    (hr : c.sockEvent inet_ntop6 k e = some r) : r.1.Linked := by
  obtain ⟨hsock,hclient⟩ := sockEvent_isSome hk hr
  apply linked_of_isSome hsock
  rw [hclient]
  apply h.same.mp
  rw [hk]
  rfl

end TCPClientImp

namespace TCPImp
variable [DecidableEq P] {_poller : P} {s t : TCPImp P}

theorem step_client {e : ClientEvent} {k : TcpSocket} {r : TCPClientImp × ℕ × ℕ}
    (hk : s.tcp_client_imp_._sock = some k)
    (hr : s.tcp_client_imp_.sockEvent inet_ntop6 k e = some r) :
    step _poller inet_ntop6 s (.client e) = some { s with
      tcp_client_imp_ := r.1
      activity := { s.activity with
        attempts := s.activity.attempts + r.2.1
        recvs := s.activity.recvs + r.2.2 } } := by
  simp only [step, clientEvent, hk, Option.bind_some, hr, Option.map_some]

theorem step_server {e : ServerEvent P} {r : TCPServerImp P × ℕ × ℕ}
    (hr : s.tcp_server_imp_.event inet_ntop6 e = some r) :
    step _poller inet_ntop6 s (.server e) = some { s with
      tcp_server_imp_ := r.1
      activity := { s.activity with
        accepts := s.activity.accepts + r.2.1
        recvs := s.activity.recvs + r.2.2 } } := by
  simp only [step, serverEvent, hr, Option.map_some]

theorem step_client_cases {e : ClientEvent} (h : step _poller inet_ntop6 s (.client e) = some t) :
    ∃ k r, s.tcp_client_imp_._sock = some k ∧
      s.tcp_client_imp_.sockEvent inet_ntop6 k e = some r ∧
      t = { s with
        tcp_client_imp_ := r.1
        activity := { s.activity with
          attempts := s.activity.attempts + r.2.1
          recvs := s.activity.recvs + r.2.2 } } := by
  obtain ⟨k,hk,h⟩ := Option.bind_eq_some_iff.mp h
  obtain ⟨r,hr,rfl⟩ := Option.map_eq_some_iff.mp h
  exact ⟨k,r,hk,hr,rfl⟩

omit [DecidableEq P] in
theorem linked_shutdown (h : s.tcp_client_imp_.Linked) : s.shutdown.tcp_client_imp_.Linked := by
  unfold shutdown
  split
  · exact h.shutdown
  · exact h

theorem linked_step {a : TCPAct P} (h : s.tcp_client_imp_.Linked)
    (ht : step _poller inet_ntop6 s a = some t) : t.tcp_client_imp_.Linked := by
  cases a with
  | init init_param result =>
    cases ht
    simp only [init]
    split
    · exact TCPClientImp.linked_init ..
    · exact h
  | shutdown =>
    cases ht
    exact linked_shutdown h
  | setOnReadFunc cb =>
    cases ht
    simp only [setOnReadFunc]
    split
    · exact ⟨h.same,h.timer⟩
    · exact h
  | client e =>
    obtain ⟨k,r,hk,hr,rfl⟩ := step_client_cases ht
    exact h.sockEvent hk hr
  | server e =>
    obtain ⟨r,_,rfl⟩ := Option.map_eq_some_iff.mp ht
    exact h

theorem linked_of_run {as : List (TCPAct P)} (h : exec (step _poller inet_ntop6) start as = some s) :
    s.tcp_client_imp_.Linked := by
  have hrun : EveryState (step _poller inet_ntop6) (fun s => s.tcp_client_imp_.Linked) start as :=
    everyState_of_preserves (fun s a t hs ht => linked_step hs ht) TCPClientImp.linked_fresh as
  exact hrun.last h

end TCPImp
end OctCommu.Communcation
