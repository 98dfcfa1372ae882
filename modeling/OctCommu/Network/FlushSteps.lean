import OctCommu.Network.SocketSend

/-! # What the steps of a flush can do

`flushData` is inverted once, as far as the bytes are concerned, and so are the
steps of the two kinds of threads that run it.
-/
namespace OctCommu.Network
open Runs
variable {I : Type*} [DecidableEq I]

def Flush.tmp : Flush → List Packet
  | .sendLoop tmp _ | .startSendable tmp | .startModify tmp | .rollback tmp => tmp
  | _ => []

def FlushOut.tmp : FlushOut → List Packet
  | .next pc => pc.tmp
  | _ => []

def FlushOut.pc : FlushOut → Option Flush
  | .next pc => some pc
  | _ => none

def FlushOut.socket (t : Socket) : FlushOut → Socket
  | .emitErr => t.closeSock
  | _ => t

def FlushOut.poller (sock : ℕ) : FlushOut → Poller
  | .next pc => .flush sock pc
  | .ret _ => .idle
  | .emitErr => .emitErr

def State.appTmp (s : State I) : List Packet :=
  match s.holder with
  | some (_,_,pc) => pc.tmp
  | none => []

def State.appPc (s : State I) : Option Flush := s.holder.map fun h => h.2.2

def Poller.pc : Poller → Option Flush
  | .flush _ pc => some pc
  | _ => none

def Poller.tmp : Poller → List Packet
  | .flush _ pc => pc.tmp
  | _ => []

/-- The bytes of these packets that the kernel has not taken. -/
def unsent (packets : List Packet) : List Cell := (packets.map BufferSendMsg.pending).flatten

@[simp] theorem unsent_nil : unsent [] = [] := rfl

@[simp] theorem unsent_cons (p : Packet) (ps : List Packet) :
    unsent (p :: ps) = p.pending ++ unsent ps := by
  simp [unsent]

@[simp] theorem unsent_append (l r : List Packet) : unsent (l ++ r) = unsent l ++ unsent r := by
  simp [unsent]

@[simp] theorem sendFrom_tmp (poller_thread : Bool) (tmp : List Packet) :
    (sendFrom poller_thread tmp).tmp = tmp := by
  cases tmp <;> cases poller_thread <;> rfl

@[simp] theorem waitWriteAble_tmp (poller_thread : Bool) (tmp : List Packet) :
    (waitWriteAble poller_thread tmp).tmp = tmp := by
  cases poller_thread <;> rfl

omit [DecidableEq I] in
theorem appTmp_of_holder {s : State I} {i : I} {sock : ℕ} {out : FlushOut}
    (h : s.holder = out.pc.map fun pc => (i,sock,pc)) : s.appTmp = out.tmp := by
  rw [State.appTmp, h]
  cases out <;> rfl

omit [DecidableEq I] in
theorem appPc_of_holder {s : State I} {i : I} {sock : ℕ} {out : FlushOut}
    (h : s.holder = out.pc.map fun pc => (i,sock,pc)) : s.appPc = out.pc := by
  rw [State.appPc, h]
  cases out <;> rfl

@[simp] theorem FlushOut.poller_tmp (out : FlushOut) (sock : ℕ) :
    (out.poller sock).tmp = out.tmp := by
  cases out <;> rfl

@[simp] theorem sendFrom_ne_emitErr (poller_thread : Bool) (tmp : List Packet) :
    sendFrom poller_thread tmp ≠ .emitErr := by
  cases tmp <;> cases poller_thread <;> nofun

@[simp] theorem waitWriteAble_ne_emitErr (poller_thread : Bool) (tmp : List Packet) :
    waitWriteAble poller_thread tmp ≠ .emitErr := by
  cases poller_thread <;> nofun

inductive FlushStep (b : Bool) (sock : ℕ) (s : Socket) :
    Flush → FlushAct → Socket → FlushOut → Prop
  | noSending : s._send_buf_sending = [] → FlushStep b sock s .takeSending .go s (.next .takeWaiting)
  | takeSending : s._send_buf_sending ≠ [] → FlushStep b sock s .takeSending .go
      { s with _send_buf_sending := [] } (sendFrom b s._send_buf_sending)
  | noWaiting : s._send_buf_waiting = [] → FlushStep b sock s .takeWaiting .go s
      (if b then .next .stopSendable else .ret true)
  | takeWaiting : s._send_buf_waiting ≠ [] → FlushStep b sock s .takeWaiting .go
      { s with _send_buf_waiting := [] } (sendFrom b [.create s._send_buf_waiting])
  | sent (p : Packet) (ps : List Packet) (r n : ℕ) :
      p._remain_size ≠ 0 → 0 < n → n ≤ p.offered.length →
      FlushStep b sock s (.sendLoop (p :: ps) r) (.accept n) (s.transmit sock (p.offered.take n))
        (if (p.send_l n).1.empty then sendFrom b ps else .next (.sendLoop ((p.send_l n).1 :: ps) r))
  | blocked (p : Packet) (ps : List Packet) (r : ℕ) (a : FlushAct) :
      FlushStep b sock s (.sendLoop (p :: ps) r) a s (waitWriteAble b (p :: ps))
  | failed (p : Packet) (ps : List Packet) (r : ℕ) :
      FlushStep b sock s (.sendLoop (p :: ps) r) .error s .emitErr
  | startSendable (tmp : List Packet) : FlushStep b sock s (.startSendable tmp) .go
      { s with _sendable := false } (.next (.startModify tmp))
  | startModify (tmp : List Packet) : FlushStep b sock s (.startModify tmp) .go
      (s.modifyEvent sock true) (.next (.rollback tmp))
  | rollback (tmp : List Packet) : FlushStep b sock s (.rollback tmp) .go
      { s with _send_buf_sending := tmp ++ s._send_buf_sending } (.ret true)
  | stopSendable : FlushStep b sock s .stopSendable .go { s with _sendable := true } (.next .stopModify)
  | stopModify : FlushStep b sock s .stopModify .go (s.modifyEvent sock false) (.ret true)

theorem flushData_step {b : Bool} {sock : ℕ} {s t : Socket} {pc : Flush} {a : FlushAct}
    {out : FlushOut} (h : flushData b sock s pc a = some (t,out)) : FlushStep b sock s pc a t out := by
  unfold flushData at h
  split at h
  · cases hs : s._send_buf_sending with
    | nil =>
      have he : { s with _send_buf_sending := [] } = s := by rw [← hs]
      rw [hs, he] at h
      cases h
      exact .noSending hs
    | cons p ps =>
      rw [hs] at h
      cases h
      have hst : FlushStep b sock s _ _ _ _ := .takeSending (by simp [hs])
      rwa [hs] at hst
  · cases hw : s._send_buf_waiting with
    | nil =>
      rw [hw] at h
      cases h
      exact .noWaiting hw
    | cons buf bufs =>
      rw [hw] at h
      cases h
      have hst : FlushStep b sock s _ _ _ _ := .takeWaiting (by simp [hw])
      rwa [hw] at hst
  · split at h
    · rename_i hn
      cases h
      exact .sent _ _ _ _ hn.1 hn.2.1 hn.2.2
    · cases h
  · cases h
    exact .blocked _ _ _ _
  · split at h
    · cases h
      exact .blocked _ _ _ _
    · cases h
      exact .failed _ _ _
  · cases h
    exact .startSendable _
  · cases h
    exact .startModify _
  · cases h
    exact .rollback _
  · cases h
    exact .stopSendable
  · cases h
    exact .stopModify
  · cases h

/-- Everything a step of `flushData` can do to the bytes. -/
theorem FlushStep.data {b : Bool} {sock : ℕ} {s t : Socket} {pc : Flush} {a : FlushAct}
    {out : FlushOut} (h : FlushStep b sock s pc a t out) :
    (pc = .takeSending ∧ t = { s with _send_buf_sending := [] } ∧
      out.tmp = s._send_buf_sending) ∨
    (pc = .takeWaiting ∧ s._send_buf_waiting ≠ [] ∧ t = { s with _send_buf_waiting := [] } ∧
      out.tmp = [.create s._send_buf_waiting]) ∨
    (∃ p ps n, pc.tmp = p :: ps ∧ p._remain_size ≠ 0 ∧ 0 < n ∧ n ≤ p.offered.length ∧
      t = s.transmit sock (p.offered.take n) ∧
      out.tmp = if (p.send_l n).1.empty then ps else (p.send_l n).1 :: ps) ∨
    (t = { s with _send_buf_sending := pc.tmp ++ s._send_buf_sending } ∧ out.tmp = []) ∨
    (a = .error ∧ t = s ∧ out = .emitErr) ∨
    (∃ sendable events, t = { s with _sendable := sendable, events := events } ∧
      out.tmp = pc.tmp) := by
  have frame {u : Socket} {o : FlushOut} (sendable : Bool) (events : ℕ → Registration)
      (hu : u = { s with _sendable := sendable, events := events }) (ho : o.tmp = pc.tmp) :
      ∃ sendable events, u = { s with _sendable := sendable, events := events } ∧ o.tmp = pc.tmp :=
    ⟨sendable,events,hu,ho⟩
  cases h with
  | noSending hs =>
    refine .inl ⟨rfl,?_,?_⟩
    · rw [← hs]
    · rw [hs]
      rfl
  | takeSending _ => exact .inl ⟨rfl,rfl,sendFrom_tmp b _⟩
  | noWaiting hw =>
    refine .inr (.inr (.inr (.inr (.inr (frame s._sendable s.events rfl ?_)))))
    cases b <;> rfl
  | takeWaiting hw => exact .inr (.inl ⟨rfl,hw,rfl,sendFrom_tmp b _⟩)
  | sent p ps r n hr hn hle =>
    refine .inr (.inr (.inl ⟨p,ps,n,rfl,hr,hn,hle,rfl,?_⟩))
    by_cases he : (p.send_l n).1.empty = true
    · rw [if_pos he, if_pos he]
      exact sendFrom_tmp b ps
    · rw [if_neg he, if_neg he]
      rfl
  | blocked p ps r a =>
    exact .inr (.inr (.inr (.inr (.inr (frame s._sendable s.events rfl (waitWriteAble_tmp b _))))))
  | failed p ps r => exact .inr (.inr (.inr (.inr (.inl ⟨rfl,rfl,rfl⟩))))
  | startSendable tmp => exact .inr (.inr (.inr (.inr (.inr (frame false s.events rfl rfl)))))
  | startModify tmp => exact .inr (.inr (.inr (.inr (.inr (frame s._sendable _ rfl rfl)))))
  | rollback tmp => exact .inr (.inr (.inr (.inl ⟨rfl,rfl⟩)))
  | stopSendable => exact .inr (.inr (.inr (.inr (.inr (frame true s.events rfl rfl)))))
  | stopModify => exact .inr (.inr (.inr (.inr (.inr (frame s._sendable _ rfl rfl)))))

theorem taken_append_pending {p : Packet} (hp : p.Counted) {n : ℕ} (hn : 0 < n)
    (hle : n ≤ p.offered.length) (hr : p._remain_size ≠ 0) (ps : List Packet) :
    p.offered.take n ++ unsent (if (p.send_l n).1.empty then ps else (p.send_l n).1 :: ps) =
      unsent (p :: ps) := by
  obtain ⟨hq,hpend⟩ := BufferSendMsg.send_l_spec hp hn hle hr
  obtain ⟨rest,hrest⟩ := BufferSendMsg.offered_initial hr
  have htake : p.offered.take n = p.pending.take n := by
    rw [← hrest, List.take_append_of_le_length hle]
  have hunsent : unsent (if (p.send_l n).1.empty then ps else (p.send_l n).1 :: ps) =
      p.pending.drop n ++ unsent ps := by
    split
    · rename_i he
      have hnil : p.pending.drop n = [] := by
        rw [← hpend, BufferSendMsg.pending, if_pos (by simpa [BufferSendMsg.empty] using he)]
      rw [hnil, List.nil_append]
    · rw [unsent_cons, hpend]
  rw [hunsent, htake, ← List.append_assoc, List.take_append_drop, unsent_cons]

theorem step_send {s t : State I} {i : I} {buf : List UInt8} {try_flush : Bool}
    (h : step s (.send i buf try_flush) = some t) :
    ∃ app, t = { s with app := app } ∨ t = { s with socket := s.socket.append buf, app := app } := by
  simp only [step] at h
  split at h
  · split at h <;> cases h
    · exact ⟨_,.inl rfl⟩
    · exact ⟨_,.inr rfl⟩
  · cases h

theorem step_flushAll {s t : State I} {i : I} (h : step s (.flushAll i) = some t) :
    ∃ app, t = { s with app := app } := by
  simp only [step] at h
  split at h <;> cases h
  exact ⟨_,rfl⟩

/-- The critical section is entered with no thread inside, and left at once without a fd or
without `_sendable`. -/
theorem step_enter {s t : State I} {i : I} {timeout : Bool}
    (h : step s (.enter i timeout) = some t) : s.holder = none ∧
    ((∃ sock, s.socket._sock_fd = some sock ∧ s.socket._sendable = true ∧
        t = { s with holder := some (i,sock,.takeSending) }) ∨
      (∃ caller r, t = s.leave i caller r s.socket) ∨
      (∃ caller r, timeout = true ∧ t = s.leave i caller r s.socket.closeSock)) := by
  simp only [step] at h
  split at h
  · rename_i caller hh _
    refine ⟨hh,?_⟩
    split at h
    · cases h
      exact .inr (.inl ⟨caller,_,rfl⟩)
    · rename_i sock hfd
      split at h
      · rename_i hsend
        cases h
        exact .inl ⟨sock,hfd,hsend,rfl⟩
      · split at h <;> cases h
        · rename_i htimeout
          exact .inr (.inr ⟨caller,_,htimeout,rfl⟩)
        · exact .inr (.inl ⟨caller,_,rfl⟩)
  · cases h

theorem step_writeAble {s t : State I} (h : step s .writeAble = some t) : ∃ sock,
    s.poller = .idle ∧ s.socket._sock_fd = some sock ∧ t = { s with poller := .checkWaiting sock } := by
  simp only [step] at h
  split at h
  · rename_i sock hp hfd
    split at h <;> cases h
    exact ⟨sock,hp,hfd,rfl⟩
  · cases h

theorem step_app {s t : State I} {a : FlushAct} (h : step s (.app a) = some t) :
    ∃ i sock pc u out, s.holder = some (i,sock,pc) ∧
      flushData false sock s.socket pc a = some (u,out) ∧ t.poller = s.poller ∧
      t.socket = out.socket u ∧ t.holder = out.pc.map fun pc => (i,sock,pc) := by
  simp only [step] at h
  split at h
  · rename_i i sock pc hh
    refine ⟨i,sock,pc,?_⟩
    split at h
    · rename_i u pc' _ hf
      cases h
      exact ⟨u,.next pc',hh,hf,rfl,rfl,rfl⟩
    · rename_i caller u ok _ hf
      cases h
      exact ⟨u,.ret ok,hh,hf,rfl,rfl,rfl⟩
    · rename_i caller u _ hf
      cases h
      exact ⟨u,.emitErr,hh,hf,rfl,rfl,rfl⟩
    · cases h
  · cases h

theorem step_poller {s t : State I} {a : FlushAct} (h : step s (.poller a) = some t) :
    (∃ sock pc u out, s.poller = .flush sock pc ∧
      flushData true sock s.socket pc a = some (u,out) ∧
      t = { s with socket := u, poller := out.poller sock }) ∨
    (∃ sock, s.poller = .checkWaiting sock ∧
      t = { s with poller := .checkSending sock s.socket._send_buf_waiting.isEmpty }) ∨
    (∃ sock w, s.poller = .checkSending sock w ∧ ∃ pc, (pc = .stopSendable ∨ pc = .takeSending) ∧
      t = { s with poller := .flush sock pc }) ∨
    (s.poller = .emitErr ∧ ∃ p, (p = .closing ∨ p = .idle) ∧ t = { s with poller := p }) ∨
    (s.poller = .closing ∧ s.holder = none ∧
      t = { s with socket := s.socket.closeSock, poller := .idle }) := by
  simp only [step] at h
  split at h
  · rename_i sock hp
    cases h
    exact .inr (.inl ⟨sock,hp,rfl⟩)
  · rename_i sock w hp
    cases h
    refine .inr (.inr (.inl ⟨sock,w,hp,_,?_,rfl⟩))
    split
    · exact .inl rfl
    · exact .inr rfl
  · rename_i sock pc hp
    refine .inl ⟨sock,pc,?_⟩
    split at h
    · rename_i u pc' hf
      cases h
      exact ⟨u,.next pc',hp,hf,rfl⟩
    · rename_i u ok hf
      cases h
      exact ⟨u,.ret ok,hp,hf,rfl⟩
    · rename_i u hf
      cases h
      exact ⟨u,.emitErr,hp,hf,rfl⟩
    · cases h
  · rename_i hp
    split at h
    · cases h
    · cases h
      refine .inr (.inr (.inr (.inl ⟨hp,_,?_,rfl⟩)))
      split
      · exact .inl rfl
      · exact .inr rfl
  · rename_i hp
    split at h
    · cases h
    · rename_i hh
      cases h
      exact .inr (.inr (.inr (.inr ⟨hp,by simpa using hh,rfl⟩)))
  · cases h

/-! ### A connection that stays open -/

/-- No error, no timeout, and nothing that closes or replaces the connection. -/
def Label.KeepsOpen : Label I → Prop
  | .enter _ timeout => timeout = false
  | .app a | .poller a => a ≠ .error
  | .closeSock | .install | .onConnected => False
  | _ => True

def Poller.On (sock : ℕ) : Poller → Prop
  | .idle => True
  | .checkWaiting k | .checkSending k _ | .flush k _ => k = sock
  | .emitErr | .closing => False

structure State.Open (s : State I) : Prop where
  fd : s.socket._sock_fd = some 0
  holder : ∀ i sock pc, s.holder = some (i,sock,pc) → sock = 0
  poller : s.poller.On 0

omit [DecidableEq I] in
theorem open_opened : (State.opened : State I).Open := ⟨rfl,nofun,trivial⟩

theorem FlushStep.sock_fd {b : Bool} {sock : ℕ} {s t : Socket} {pc : Flush} {a : FlushAct}
    {out : FlushOut} (h : FlushStep b sock s pc a t out) : t._sock_fd = s._sock_fd := by
  cases h <;> rfl

theorem FlushStep.ne_emitErr {b : Bool} {sock : ℕ} {s t : Socket} {pc : Flush} {a : FlushAct}
    {out : FlushOut} (h : FlushStep b sock s pc a t out) (ha : a ≠ .error) : out ≠ .emitErr := by
  cases h with
  | takeSending _ | takeWaiting _ => exact sendFrom_ne_emitErr b _
  | noWaiting _ => cases b <;> nofun
  | sent p ps r n =>
    split
    · exact sendFrom_ne_emitErr b _
    · nofun
  | blocked p ps r a => exact waitWriteAble_ne_emitErr b _
  | failed p ps r => exact absurd rfl ha
  | _ => nofun

theorem FlushStep.socket_eq {b : Bool} {sock : ℕ} {s t : Socket} {pc : Flush} {a : FlushAct}
    {out : FlushOut} (h : FlushStep b sock s pc a t out) (ha : a ≠ .error) : out.socket t = t := by
  cases out with
  | emitErr => exact absurd rfl (h.ne_emitErr ha)
  | _ => rfl

theorem step_open {s t : State I} {l : Label I} (hs : s.Open) (hl : l.KeepsOpen)
    (h : step s l = some t) : t.Open := by
  obtain ⟨hfd,hholder,hpoller⟩ := hs
  cases l with
  | send i buf try_flush =>
    obtain ⟨app,rfl | rfl⟩ := step_send h <;> exact ⟨hfd,hholder,hpoller⟩
  | flushAll i =>
    obtain ⟨app,rfl⟩ := step_flushAll h
    exact ⟨hfd,hholder,hpoller⟩
  | enter i timeout =>
    obtain ⟨_,⟨sock,hsock,_,rfl⟩ | ⟨caller,r,rfl⟩ | ⟨_,_,rfl,_⟩⟩ := step_enter h
    · refine ⟨hfd,?_,hpoller⟩
      intro j k pc he
      cases he
      exact Option.some.inj (hsock.symm.trans hfd)
    · exact ⟨hfd,nofun,hpoller⟩
    · cases hl
  | app a =>
    obtain ⟨i,sock,pc,u,out,hh,hf,hp,hsock,hh'⟩ := step_app h
    have hst := flushData_step hf
    refine ⟨?_,?_,hp ▸ hpoller⟩
    · rw [hsock, hst.socket_eq hl, hst.sock_fd, hfd]
    · intro j k pc' he
      rw [hh'] at he
      obtain ⟨pc'',_,he⟩ := Option.map_eq_some_iff.mp he
      cases he
      exact hholder i sock pc hh
  | writeAble =>
    obtain ⟨sock,_,hsock,rfl⟩ := step_writeAble h
    exact ⟨hfd,hholder,Option.some.inj (hsock.symm.trans hfd)⟩
  | poller a =>
    obtain ⟨sock,pc,u,out,hp,hf,rfl⟩ | ⟨sock,hp,rfl⟩ | ⟨sock,w,hp,pc,_,rfl⟩ | ⟨hp,_⟩ | ⟨hp,_⟩ :=
      step_poller h
    · have hst := flushData_step hf
      rw [hp] at hpoller
      refine ⟨hst.sock_fd.trans hfd,hholder,?_⟩
      cases out with
      | next pc => exact hpoller
      | ret ok => trivial
      | emitErr => exact absurd rfl (hst.ne_emitErr hl)
    · rw [hp] at hpoller
      exact ⟨hfd,hholder,hpoller⟩
    · rw [hp] at hpoller
      exact ⟨hfd,hholder,hpoller⟩
    · rw [hp] at hpoller
      exact hpoller.elim
    · rw [hp] at hpoller
      exact hpoller.elim
  | closeSock | install | onConnected => exact hl.elim

end OctCommu.Network
