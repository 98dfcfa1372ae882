import OctCommu.Lib.Runs
import OctCommu.Network.BufferSendMsg

/-! # What the value of `Socket::send` tells

`send_l` queues its buffer before it tries to flush, so a flush that fails has to take
the buffer back. A fatal error drops the packet being sent; the other failures, and the
buffers that were not packed yet, stay queued. All calls are made by one thread, and
a packet is known by what it has not sent.
-/
namespace OctCommu.Network.RefusedSend
open Runs

/-- A buffer of `_send_buf_waiting`, with the number of buffers queued before it. -/
structure Queued where
  number : ℕ
  data : List UInt8
  deriving DecidableEq

/-- What the kernel takes as a whole: a byte of a TCP packet, a datagram of a UDP packet. -/
structure Piece where
  number : ℕ
  bytes : List UInt8
  deriving DecidableEq

/-- A `BufferList`. -/
abbrev Packet := List Piece

def pieces (is_udp : Bool) (q : Queued) : List Piece :=
  if is_udp then [⟨q.number,q.data⟩] else q.data.map fun b => ⟨q.number,[b]⟩

def create (is_udp : Bool) (list : List Queued) : Packet := list.flatMap (pieces is_udp)

/-- What `packet->send` has sent, or the error it met with nothing sent. -/
inductive Answer where
  | sent (n : ℕ)
  | again
  | error
  deriving DecidableEq

structure SockFD where
  rawFd : ℕ
  is_udp : Bool
  deriving DecidableEq

/-- The members `send` works on, how many fds and buffers there have been, and what was sent to which
fd. -/
structure State where
  _sock_fd : Option SockFD
  _sendable : Bool
  _send_buf_waiting : List Queued
  _send_buf_sending : List Packet
  fds : ℕ
  sends : ℕ
  wire : List (ℕ × Piece)
  deriving DecidableEq

/-- How the send loop of `flushData` ends: its local list, what was sent, whether it returns false, and the
answers that are left. -/
structure Sending where
  tmp : List Packet
  wire : List Piece
  failed : Bool
  answers : List Answer

def sendPackets (is_udp : Bool) : List Packet → List Answer → Option Sending
  | [], as => some ⟨[],[],false,as⟩
  | _ :: _, [] => none
  | p :: ps, .sent n :: as =>
    if 0 < n ∧ n ≤ p.length then
      if n = p.length then (sendPackets is_udp ps as).map fun r => { r with wire := p ++ r.wire }
      else some ⟨p.drop n :: ps,p.take n,false,as⟩
    else none
  | p :: ps, .again :: as => some ⟨p :: ps,[],false,as⟩
  | _ :: ps, .error :: as =>
    -- over UDP the packet is dropped; over TCP `emitErr`, and all local packets are
    if is_udp then sendPackets is_udp ps as else some ⟨[],[],true,as⟩

namespace State

def fresh : State := ⟨none,true,[],[],0,0,[]⟩

def closeSock (s : State) : State := { s with _sock_fd := none }

def install (s : State) (is_udp : Bool) : State :=
  { s.closeSock with
    _sock_fd := some ⟨s.fds,is_udp⟩
    fds := s.fds + 1 }

def append (s : State) (data : List UInt8) : State :=
  { s with
    _send_buf_waiting := s._send_buf_waiting ++ [⟨s.sends,data⟩]
    sends := s.sends + 1 }

/-- `flushData` from its send loop on, without the call it ends with. -/
def flushPackets (s : State) (sock : SockFD) (poller_thread : Bool) (tmp : List Packet)
    (answers : List Answer) : Option (Bool × State × List Answer) :=
  (sendPackets sock.is_udp tmp answers).map fun r =>
    let t := { s with wire := s.wire ++ r.wire.map fun x => (sock.rawFd,x) }
    if r.failed then (false,t.closeSock,r.answers)
    else if r.tmp.isEmpty then (true,t,r.answers)
    else (true,{ t with
      _sendable := if poller_thread then t._sendable else false
      _send_buf_sending := r.tmp ++ t._send_buf_sending },r.answers)

/-- `flushData` with nothing in `_send_buf_sending`. If all is sent, the poller thread calls it once more
and finds nothing. -/
def flushWaiting (s : State) (sock : SockFD) (poller_thread : Bool) (answers : List Answer) :
    Option (Bool × State × List Answer) :=
  match s._send_buf_waiting with
  | [] => some (true,if poller_thread then { s with _sendable := true } else s,answers)
  | q :: qs =>
    (flushPackets { s with _send_buf_waiting := [] } sock poller_thread
      [create sock.is_udp (q :: qs)] answers).map fun r =>
        if poller_thread ∧ r.1 ∧ r.2.1._send_buf_sending.isEmpty then
          (true,{ r.2.1 with _sendable := true },r.2.2)
        else r

def flushData (s : State) (sock : SockFD) (poller_thread : Bool) (answers : List Answer) :
    Option (Bool × State × List Answer) :=
  match s._send_buf_sending with
  | [] => s.flushWaiting sock poller_thread answers
  | p :: ps =>
    (flushPackets { s with _send_buf_sending := [] } sock poller_thread (p :: ps) answers).bind fun r =>
      if poller_thread ∧ r.1 ∧ r.2.1._send_buf_sending.isEmpty then
        r.2.1.flushWaiting sock poller_thread r.2.2
      else some r

/-- `timeout` is what the clock says. -/
def flushAll (s : State) (timeout : Bool) (answers : List Answer) : Option (ℤ × State × List Answer) :=
  match s._sock_fd with
  | none => some (-1,s,answers)
  | some sock =>
    if s._sendable then (s.flushData sock false answers).map fun r => (if r.1 then 0 else -1,r.2)
    else if timeout then some (-1,s.closeSock,answers)
    else some (0,s,answers)

def send_l (s : State) (data : List UInt8) (try_flush timeout : Bool) (answers : List Answer) :
    Option (ℤ × State × List Answer) :=
  if data.length = 0 then some (0,s,answers)
  else if try_flush then
    ((s.append data).flushAll timeout answers).map fun r => (if r.1 ≠ 0 then -1 else data.length,r.2)
  else some (data.length,s.append data,answers)

def onWriteAble (s : State) (answers : List Answer) : Option (Bool × State × List Answer) :=
  s._sock_fd.bind fun sock =>
    if s._send_buf_waiting.isEmpty ∧ s._send_buf_sending.isEmpty then
      some (true,{ s with _sendable := true },answers)
    else s.flushData sock true answers

end State

inductive Act where
  | send_l (data : List UInt8) (try_flush timeout : Bool) (answers : List Answer)
  | flushAll (timeout : Bool) (answers : List Answer)
  | onWriteAble (answers : List Answer)
  | closeSock
  | install (is_udp : Bool)
  deriving DecidableEq

/-- A call that uses up its answers. -/
def spent {R : Type*} (r : Option (R × State × List Answer)) : Option (R × State) :=
  r.bind fun r => if r.2.2.isEmpty then some (r.1,r.2.1) else none

def step (s : State) : Act → Option State
  | .send_l data try_flush timeout answers =>
    (spent (s.send_l data try_flush timeout answers)).map Prod.snd
  | .flushAll timeout answers => (spent (s.flushAll timeout answers)).map Prod.snd
  | .onWriteAble answers => (spent (s.onWriteAble answers)).map Prod.snd
  | .closeSock => some s.closeSock
  | .install is_udp => some (s.install is_udp)

/-! ### Where a buffer is -/

def InPackets (ps : List Packet) (k : ℕ) : Prop := ∃ p ∈ ps, ∃ x ∈ p, x.number = k

/-- Something of the `k`-th buffer is in one of the two caches. -/
def State.Holds (s : State) (k : ℕ) : Prop :=
  (∃ q ∈ s._send_buf_waiting, q.number = k) ∨ InPackets s._send_buf_sending k

/-- What of the `k`-th buffer was written, to any fd. -/
def State.written (s : State) (k : ℕ) : List UInt8 :=
  (s.wire.filter fun x => x.2.number = k).flatMap fun x => x.2.bytes

/-- The `k`-th buffer is in no cache, and no later run writes any of it. -/
def State.Gone (s : State) (k : ℕ) : Prop :=
  ¬ s.Holds k ∧ ∀ as t, exec step s as = some t → t.written k = s.written k

/-- The value of a `send` that queued the `k`-th buffer tells what became of it. -/
structure Told (k : ℕ) (data : List UInt8) (ret : ℤ) (t : State) : Prop where
  refused : ret = -1 → t.Gone k
  accepted : 0 < ret → t.written k = data ∨ t.Holds k

/-- The flush is not refused by `flushAll`, and an error meets the packet the buffer is in over TCP, a packet it is
not in over UDP. -/
def Settled (s : State) (try_flush timeout : Bool) (answers : List Answer) : Prop :=
  try_flush = false ∨ ∃ sock, s._sock_fd = some sock ∧ (s._sendable = true ∨ timeout = false) ∧
    (Answer.error ∈ answers → (sock.is_udp = true ↔ s._send_buf_sending ≠ []))

/-! ### The packets of the source -/

/-- The calls of `sendmsg` in one `BufferSendMsg::send`, with what they take together. -/
inductive MsgSends : BufferSendMsg Piece → ℕ → BufferSendMsg Piece → Prop where
  | stop (p : BufferSendMsg Piece) : MsgSends p 0 p
  | next {p q : BufferSendMsg Piece} {n m : ℕ} (hr : p._remain_size ≠ 0) (hn : 0 < n)
      (hle : n ≤ p.offered.length) (h : MsgSends (p.send_l n).1 m q) : MsgSends p (n + m) q

theorem pending_create (list : List Queued) :
    (BufferSendMsg.create (list.map (pieces false))).pending = create false list := by
  rw [BufferSendMsg.pending_create]
  rfl

/-- A TCP packet loses the pieces that were sent from its front, and is empty when all were. -/
theorem MsgSends.pending {p q : BufferSendMsg Piece} {n : ℕ} (h : MsgSends p n q) (hp : p.Counted) :
    q.pending = p.pending.drop n ∧ n ≤ p.pending.length ∧
      (q.empty = true ↔ n = p.pending.length) := by
  induction h with
  | stop p =>
    refine ⟨rfl,Nat.zero_le _,?_⟩
    rw [hp, BufferSendMsg.empty, decide_eq_true_iff]
    exact eq_comm
  | @next p q n m hr hn hle _ ih =>
    obtain ⟨hcounted,hpending⟩ := BufferSendMsg.send_l_spec hp hn hle hr
    have hoffered := (BufferSendMsg.offered_initial hr).length_le
    obtain ⟨hdrop,hm,hempty⟩ := ih hcounted
    rw [hpending, List.length_drop] at hm hempty
    refine ⟨by rw [hdrop, hpending, List.drop_drop],by omega,hempty.trans ?_⟩
    omega

/-! ### What a flush does -/

/-- The pieces that are sent and kept are those of the packets; over TCP an error ends the loop, over UDP
none does. -/
structure Sends (is_udp : Bool) (tmp : List Packet) (answers : List Answer) (r : Sending) : Prop where
  wire : ∀ x ∈ r.wire, InPackets tmp x.number
  kept : ∀ k, InPackets r.tmp k → InPackets tmp k
  failed : r.answers = [] → (r.failed = true ↔ is_udp = false ∧ .error ∈ answers)

theorem InPackets.cons {p : Packet} {ps : List Packet} {k : ℕ} (h : InPackets ps k) :
    InPackets (p :: ps) k := by
  obtain ⟨q,hq,hx⟩ := h
  exact ⟨q,List.mem_cons_of_mem p hq,hx⟩

theorem InPackets.head {p : Packet} {x : Piece} (h : x ∈ p) (ps : List Packet) :
    InPackets (p :: ps) x.number := ⟨p,List.mem_cons_self,x,h,rfl⟩

theorem sendPackets_sends {is_udp : Bool} {tmp : List Packet} {answers : List Answer} {r : Sending}
    (h : sendPackets is_udp tmp answers = some r) : Sends is_udp tmp answers r := by
  induction tmp, answers using sendPackets.induct is_udp generalizing r with
  | case1 as =>
    cases h
    refine ⟨nofun,fun _ hk => hk,?_⟩
    rintro rfl
    simp
  | case2 p ps => cases h
  | case3 p ps as hn ih =>
    rw [sendPackets, if_pos hn, if_pos rfl] at h
    obtain ⟨t,ht,rfl⟩ := Option.map_eq_some_iff.mp h
    obtain ⟨hwire,hkept,hfailed⟩ := ih ht
    refine ⟨?_,fun k hk => (hkept k hk).cons,?_⟩
    · intro x hx
      rcases List.mem_append.mp hx with hx | hx
      · exact .head hx ps
      · exact (hwire x hx).cons
    · simpa using hfailed
  | case4 p ps n as hn hall =>
    rw [sendPackets, if_pos hn, if_neg hall] at h
    cases h
    refine ⟨fun x hx => .head (List.mem_of_mem_take hx) ps,?_,?_⟩
    · rintro k ⟨q,hq,x,hx,rfl⟩
      rcases List.mem_cons.mp hq with rfl | hq
      · exact .head (List.mem_of_mem_drop hx) ps
      · exact .cons ⟨q,hq,x,hx,rfl⟩
    · rintro rfl
      simp
  | case5 p ps n as hn =>
    rw [sendPackets, if_neg hn] at h
    cases h
  | case6 p ps as =>
    cases h
    refine ⟨nofun,fun _ hk => hk,?_⟩
    rintro rfl
    simp
  | case7 p ps as hudp ih =>
    rw [sendPackets, if_pos hudp] at h
    obtain ⟨hwire,hkept,hfailed⟩ := ih h
    refine ⟨fun x hx => (hwire x hx).cons,fun k hk => (hkept k hk).cons,?_⟩
    simpa [hudp] using hfailed
  | case8 p ps as hudp =>
    rw [sendPackets, if_neg hudp] at h
    cases h
    refine ⟨nofun,nofun,?_⟩
    simp at hudp
    simp [hudp]

/-- A flush writes and keeps only what was in the caches, and may close the fd. -/
structure Flushed (s t : State) : Prop where
  fd : ∀ sock, t._sock_fd = some sock → s._sock_fd = some sock
  sends : t.sends = s.sends
  holds : ∀ k, t.Holds k → s.Holds k
  wire : ∃ added, t.wire = s.wire ++ added ∧ ∀ x ∈ added, s.Holds x.2.number

variable {s t u : State} {sock : SockFD} {poller_thread : Bool} {answers : List Answer} {k : ℕ}

theorem Flushed.refl (s : State) : Flushed s s :=
  ⟨fun _ h => h,rfl,fun _ hk => hk,[],by simp,nofun⟩

theorem Flushed.trans (h : Flushed s t) (h' : Flushed t u) : Flushed s u := by
  obtain ⟨hfd,hsends,hholds,added,hwire,hadded⟩ := h
  obtain ⟨hfd',hsends',hholds',added',hwire',hadded'⟩ := h'
  refine ⟨fun sock hs => hfd sock (hfd' sock hs),hsends'.trans hsends,
    fun k hk => hholds k (hholds' k hk),added ++ added',?_,?_⟩
  · rw [hwire', hwire, List.append_assoc]
  · intro x hx
    rcases List.mem_append.mp hx with hx | hx
    · exact hadded x hx
    · exact hholds _ (hadded' x hx)

theorem Flushed.closeSock (s : State) : Flushed s s.closeSock :=
  ⟨nofun,rfl,fun _ hk => hk,[],by simp [State.closeSock],nofun⟩

theorem Flushed.sendable (s : State) (b : Bool) : Flushed s { s with _sendable := b } :=
  ⟨fun _ h => h,rfl,fun _ hk => hk,[],by simp,nofun⟩

/-- The send loop, on packets that were taken out of the caches of `s`. -/
theorem flushPackets_flushed {tmp : List Packet} {r : Bool × State × List Answer}
    (h : u.flushPackets sock poller_thread tmp answers = some r) (hfd : u._sock_fd = s._sock_fd)
    (hsends : u.sends = s.sends) (hwire : u.wire = s.wire) (hu : ∀ k, u.Holds k → s.Holds k)
    (htmp : ∀ k, InPackets tmp k → s.Holds k) : Flushed s r.2.1 := by
  have hopen : ∀ sock, u._sock_fd = some sock → s._sock_fd = some sock := fun _ h => hfd ▸ h
  obtain ⟨r',hr,rfl⟩ := Option.map_eq_some_iff.mp h
  obtain ⟨hsent,hkept,_⟩ := sendPackets_sends hr
  have hadded : ∃ added, u.wire ++ r'.wire.map (fun x => (sock.rawFd,x)) = s.wire ++ added ∧
      ∀ x ∈ added, s.Holds x.2.number := by
    refine ⟨_,by rw [hwire],?_⟩
    intro x hx
    obtain ⟨y,hy,rfl⟩ := List.mem_map.mp hx
    exact htmp _ (hsent y hy)
  dsimp only
  split
  · exact ⟨nofun,hsends,hu,hadded⟩
  split
  · exact ⟨hopen,hsends,hu,hadded⟩
  · refine ⟨hopen,hsends,?_,hadded⟩
    rintro k (hk | ⟨p,hp,hx⟩)
    · exact hu k (.inl hk)
    · rcases List.mem_append.mp hp with hp | hp
      · exact htmp k (hkept k ⟨p,hp,hx⟩)
      · exact hu k (.inr ⟨p,hp,hx⟩)

theorem pieces_number {is_udp : Bool} {q : Queued} {x : Piece} (hx : x ∈ pieces is_udp q) :
    x.number = q.number := by
  cases is_udp with
  | true =>
    obtain rfl := List.mem_singleton.mp hx
    rfl
  | false =>
    obtain ⟨b,_,rfl⟩ := List.mem_map.mp hx
    rfl

theorem mem_create {is_udp : Bool} {list : List Queued} (h : InPackets [create is_udp list] k) :
    ∃ q ∈ list, q.number = k := by
  obtain ⟨p,hp,x,hx,rfl⟩ := h
  obtain rfl := List.mem_singleton.mp hp
  obtain ⟨q,hq,hx⟩ := List.mem_flatMap.mp hx
  exact ⟨q,hq,(pieces_number hx).symm⟩

theorem flushWaiting_flushed {r : Bool × State × List Answer}
    (h : s.flushWaiting sock poller_thread answers = some r) : Flushed s r.2.1 := by
  unfold State.flushWaiting at h
  split at h
  · cases h
    split
    · exact .sendable s true
    · exact .refl s
  · rename_i q qs hwaiting
    obtain ⟨r',hr,rfl⟩ := Option.map_eq_some_iff.mp h
    have hflushed : Flushed s r'.2.1 := by
      refine flushPackets_flushed hr rfl rfl rfl ?_ ?_
      · rintro k (⟨q,hq,_⟩ | hk)
        · cases hq
        · exact .inr hk
      · intro k hk
        exact .inl (hwaiting ▸ mem_create hk)
    split
    · exact hflushed.trans (.sendable _ true)
    · exact hflushed

theorem flushData_flushed {r : Bool × State × List Answer}
    (h : s.flushData sock poller_thread answers = some r) : Flushed s r.2.1 := by
  unfold State.flushData at h
  split at h
  · exact flushWaiting_flushed h
  · rename_i p ps hsending
    obtain ⟨r',hr,h⟩ := Option.bind_eq_some_iff.mp h
    have hflushed : Flushed s r'.2.1 := by
      refine flushPackets_flushed hr rfl rfl rfl ?_ ?_
      · rintro k (hk | ⟨q,hq,_⟩)
        · exact .inl hk
        · cases hq
      · intro k hk
        exact .inr (hsending ▸ hk)
    split at h
    · exact hflushed.trans (flushWaiting_flushed h)
    · cases h
      exact hflushed

theorem flushAll_flushed {timeout : Bool} {r : ℤ × State × List Answer}
    (h : s.flushAll timeout answers = some r) : Flushed s r.2.1 := by
  unfold State.flushAll at h
  split at h
  · cases h
    exact .refl s
  split at h
  · obtain ⟨r',hr,rfl⟩ := Option.map_eq_some_iff.mp h
    exact flushData_flushed hr
  split at h
  · cases h
    exact .closeSock s
  · cases h
    exact .refl s

theorem onWriteAble_flushed {r : Bool × State × List Answer}
    (h : s.onWriteAble answers = some r) : Flushed s r.2.1 := by
  obtain ⟨sock,_,h⟩ := Option.bind_eq_some_iff.mp h
  split at h
  · cases h
    exact .sendable s true
  · exact flushData_flushed h

/-! ### What a step does -/

/-- From `s` to `t` only buffers that were in the caches or are new are kept and written. -/
structure Moves (s t : State) : Prop where
  sends : s.sends ≤ t.sends
  holds : ∀ k, t.Holds k → s.Holds k ∨ (s.sends ≤ k ∧ k < t.sends)
  wire : ∃ added, t.wire = s.wire ++ added ∧
    ∀ x ∈ added, s.Holds x.2.number ∨ (s.sends ≤ x.2.number ∧ x.2.number < t.sends)

theorem Flushed.moves (h : Flushed s t) : Moves s t := by
  obtain ⟨_,hsends,hholds,added,hwire,hadded⟩ := h
  exact ⟨hsends.ge,fun k hk => .inl (hholds k hk),added,hwire,fun x hx => .inl (hadded x hx)⟩

theorem holds_append (data : List UInt8) (h : (s.append data).Holds k) : s.Holds k ∨ k = s.sends := by
  rcases h with ⟨q,hq,rfl⟩ | hk
  · rcases List.mem_append.mp hq with hq | hq
    · exact .inl (.inl ⟨q,hq,rfl⟩)
    · obtain rfl := List.mem_singleton.mp hq
      exact .inr rfl
  · exact .inl (.inr hk)

theorem append_moves {data : List UInt8} (h : Flushed (s.append data) t) : Moves s t := by
  obtain ⟨_,hsends,hholds,added,hwire,hadded⟩ := h
  have hnew : ∀ k, (s.append data).Holds k → s.Holds k ∨ (s.sends ≤ k ∧ k < t.sends) := by
    intro k hk
    refine (holds_append data hk).imp_right ?_
    rintro rfl
    rw [hsends]
    exact ⟨le_rfl,Nat.lt_succ_self _⟩
  refine ⟨?_,fun k hk => hnew k (hholds k hk),added,hwire,fun x hx => hnew _ (hadded x hx)⟩
  rw [hsends]
  exact Nat.le_succ _

theorem spent_eq_some {R : Type*} {r : Option (R × State × List Answer)} {v : R}
    (h : spent r = some (v,t)) : r = some (v,t,[]) := by
  obtain ⟨⟨v',t',as⟩,hr,h⟩ := Option.bind_eq_some_iff.mp h
  split at h
  · rename_i has
    have hnil : as = [] := List.isEmpty_iff.mp has
    cases h
    rw [hr, hnil]
  · cases h

theorem send_l_flushed {data : List UInt8} {try_flush timeout : Bool} {r : ℤ × State × List Answer}
    (h : s.send_l data try_flush timeout answers = some r) :
    Flushed s r.2.1 ∨ Flushed (s.append data) r.2.1 := by
  unfold State.send_l at h
  split at h
  · cases h
    exact .inl (.refl s)
  split at h
  · obtain ⟨r',hr,rfl⟩ := Option.map_eq_some_iff.mp h
    have hflushed := flushAll_flushed hr
    exact .inr hflushed
  · cases h
    exact .inr (.refl _)

theorem step_moves {a : Act} (h : step s a = some t) : Moves s t := by
  cases a with
  | send_l data try_flush timeout answers =>
    obtain ⟨⟨v,_⟩,hr,rfl⟩ := Option.map_eq_some_iff.mp h
    exact (send_l_flushed (spent_eq_some hr)).elim Flushed.moves append_moves
  | flushAll timeout answers =>
    obtain ⟨⟨v,_⟩,hr,rfl⟩ := Option.map_eq_some_iff.mp h
    exact (flushAll_flushed (spent_eq_some hr)).moves
  | onWriteAble answers =>
    obtain ⟨⟨v,_⟩,hr,rfl⟩ := Option.map_eq_some_iff.mp h
    exact (onWriteAble_flushed (spent_eq_some hr)).moves
  | closeSock =>
    cases h
    exact (Flushed.closeSock s).moves
  | install is_udp =>
    cases h
    exact ⟨le_rfl,fun _ hk => .inl hk,[],by simp [State.install, State.closeSock],nofun⟩

theorem step_fd {a : Act} (h : step s a = some t) (hfd : t._sock_fd = some sock) :
    s._sock_fd = some sock ∨ a = .install sock.is_udp := by
  cases a with
  | send_l data try_flush timeout answers =>
    obtain ⟨⟨v,_⟩,hr,rfl⟩ := Option.map_eq_some_iff.mp h
    exact .inl ((send_l_flushed (spent_eq_some hr)).elim (fun hf => hf.fd sock hfd) fun hf => hf.fd sock hfd)
  | flushAll timeout answers =>
    obtain ⟨⟨v,_⟩,hr,rfl⟩ := Option.map_eq_some_iff.mp h
    exact .inl ((flushAll_flushed (spent_eq_some hr)).fd sock hfd)
  | onWriteAble answers =>
    obtain ⟨⟨v,_⟩,hr,rfl⟩ := Option.map_eq_some_iff.mp h
    exact .inl ((onWriteAble_flushed (spent_eq_some hr)).fd sock hfd)
  | closeSock =>
    cases h
    cases hfd
  | install is_udp =>
    cases h
    cases hfd
    exact .inr rfl

/-- Everything that is kept or was written has been queued. -/
structure Inv (s : State) : Prop where
  holds : ∀ k, s.Holds k → k < s.sends
  wire : ∀ x ∈ s.wire, x.2.number < s.sends

theorem inv_fresh : Inv .fresh := by
  refine ⟨?_,nofun⟩
  rintro k (⟨q,hq,_⟩ | ⟨p,hp,_⟩)
  · cases hq
  · cases hp

theorem Moves.inv (h : Moves s t) (hs : Inv s) : Inv t := by
  obtain ⟨hsends,hholds,added,hwire,hadded⟩ := h
  constructor
  · intro k hk
    rcases hholds k hk with hk | hk
    · exact (hs.holds k hk).trans_le hsends
    · exact hk.2
  · rw [hwire]
    intro x hx
    rcases List.mem_append.mp hx with hx | hx
    · exact (hs.wire x hx).trans_le hsends
    · rcases hadded x hx with hx | hx
      · exact (hs.holds _ hx).trans_le hsends
      · exact hx.2

theorem exec_moves {as : List Act} (h : exec step s as = some t) (hs : Inv s) : Inv t := by
  have hall : EveryState step Inv s as :=
    (everyStep_of_forall (C := fun _ _ => True) (fun _ _ => trivial) _ _).preserves
      (fun _ _ _ hs _ h => (step_moves h).inv hs) hs
  exact hall.last h

/-- A buffer that was queued before and is in no cache stays so, and nothing of it is written. -/
theorem Moves.absent (h : Moves s t) (hk : k < s.sends) (habsent : ¬ s.Holds k) :
    ¬ t.Holds k ∧ t.written k = s.written k := by
  obtain ⟨_,hholds,added,hwire,hadded⟩ := h
  constructor
  · intro ht
    rcases hholds k ht with hs | hnew
    · exact habsent hs
    · exact absurd hk (Nat.not_lt.mpr hnew.1)
  · have hnone : added.filter (fun x => x.2.number = k) = [] := by
      rw [List.filter_eq_nil_iff]
      intro x hx
      have hne : x.2.number ≠ k := by
        rintro rfl
        rcases hadded x hx with hs | hnew
        · exact habsent hs
        · exact absurd hk (Nat.not_lt.mpr hnew.1)
      simpa using hne
    rw [State.written, State.written, hwire, List.filter_append, hnone, List.append_nil]

theorem gone_of_absent (hk : k < s.sends) (habsent : ¬ s.Holds k) : s.Gone k := by
  refine ⟨habsent,?_⟩
  intro as t h
  induction as generalizing s with
  | nil =>
    cases h
    rfl
  | cons a as ih =>
    obtain ⟨u,hu,h⟩ := Option.bind_eq_some_iff.mp h
    have hmoves := step_moves hu
    obtain ⟨hnot,hwritten⟩ := hmoves.absent hk habsent
    rw [ih (hk.trans_le hmoves.sends) hnot h, hwritten]

/-! ### What a send does to its own buffer -/

/-- One packet: it is sent, it is kept from some piece on, or it is dropped. -/
theorem sendPackets_single {is_udp : Bool} {p : Packet} {r : Sending} (hp : p ≠ [])
    (h : sendPackets is_udp [p] answers = some r) (hr : r.answers = []) :
    (.error ∉ answers ∧ r.failed = false ∧
      ((r.tmp = [] ∧ r.wire = p) ∨ ∃ n < p.length, r.tmp = [p.drop n])) ∨
    (.error ∈ answers ∧ r.tmp = [] ∧ r.wire = [] ∧ (r.failed = true ↔ is_udp = false)) := by
  cases answers with
  | nil => cases h
  | cons a as =>
    cases a with
    | sent n =>
      rw [sendPackets] at h
      split at h
      · rename_i hn
        split at h
        · obtain ⟨r',hr',rfl⟩ := Option.map_eq_some_iff.mp h
          cases hr'
          obtain rfl : as = [] := hr
          exact .inl ⟨by simp,rfl,.inl ⟨rfl,by simp⟩⟩
        · rename_i hall
          cases h
          obtain rfl : as = [] := hr
          exact .inl ⟨by simp,rfl,.inr ⟨n,by omega,rfl⟩⟩
      · cases h
    | again =>
      cases h
      obtain rfl : as = [] := hr
      exact .inl ⟨by simp,rfl,.inr ⟨0,List.length_pos_iff.mpr hp,rfl⟩⟩
    | error =>
      rw [sendPackets] at h
      split at h
      · rename_i hudp
        cases h
        obtain rfl : as = [] := hr
        exact .inr ⟨by simp,rfl,rfl,by simp [hudp]⟩
      · rename_i hudp
        cases h
        exact .inr ⟨by simp,rfl,rfl,by simpa using hudp⟩

theorem pieces_bytes (is_udp : Bool) (q : Queued) : (pieces is_udp q).flatMap Piece.bytes = q.data := by
  cases is_udp with
  | true => simp [pieces]
  | false => simp [pieces, List.flatMap_map]

theorem pieces_ne_nil (is_udp : Bool) {q : Queued} (h : q.data ≠ []) : pieces is_udp q ≠ [] := by
  intro hnil
  have hbytes := pieces_bytes is_udp q
  rw [hnil] at hbytes
  exact h hbytes.symm

theorem create_append (is_udp : Bool) (qs : List Queued) (q : Queued) :
    create is_udp (qs ++ [q]) = create is_udp qs ++ pieces is_udp q := by
  simp [create]

/-- The last buffer of a packet is sent last. -/
theorem inPackets_drop (is_udp : Bool) (qs : List Queued) {q : Queued} (h : q.data ≠ []) {n : ℕ}
    (hn : n < (create is_udp (qs ++ [q])).length) :
    InPackets [(create is_udp (qs ++ [q])).drop n] q.number := by
  obtain ⟨front,x,hx⟩ := List.eq_nil_or_concat (pieces is_udp q) |>.resolve_left (pieces_ne_nil is_udp h)
  rw [List.concat_eq_append] at hx
  have hmem : x ∈ pieces is_udp q := by
    rw [hx]
    simp
  have hnumber : x.number = q.number := pieces_number hmem
  refine ⟨_,List.mem_singleton_self _,x,?_,hnumber⟩
  rw [create_append, hx, ← List.append_assoc] at hn ⊢
  simp only [List.length_append, List.length_singleton] at hn
  rw [List.drop_append_of_le_length (by rw [List.length_append]; omega)]
  simp

/-- Of a packet that is sent whole, the last buffer is written. -/
theorem written_create {is_udp : Bool} {qs : List Queued} {q : Queued} {fd : ℕ}
    (hqs : ∀ q' ∈ qs, q'.number ≠ q.number) (hs : ∀ x ∈ s.wire, x.2.number ≠ q.number)
    (ht : t.wire = s.wire ++ (create is_udp (qs ++ [q])).map fun x => (fd,x)) :
    t.written q.number = q.data := by
  have hold : s.wire.filter (fun x => x.2.number = q.number) = [] := by
    rw [List.filter_eq_nil_iff]
    intro x hx
    simpa using hs x hx
  have hfront : (create is_udp qs).filter (fun x => x.number = q.number) = [] := by
    rw [List.filter_eq_nil_iff]
    intro x hx
    obtain ⟨q',hq',hx⟩ := List.mem_flatMap.mp hx
    rw [pieces_number hx]
    simpa using hqs q' hq'
  have hlast : (pieces is_udp q).filter (fun x => x.number = q.number) = pieces is_udp q := by
    rw [List.filter_eq_self]
    intro x hx
    simpa using pieces_number hx
  rw [State.written, ht, List.filter_append, hold, List.nil_append, List.filter_map, List.flatMap_map,
    create_append]
  simp only [Function.comp_def, List.filter_append, hfront, hlast, List.nil_append]
  exact pieces_bytes is_udp q

/-- Everything the send loop can do to the members. -/
theorem flushPackets_spec {tmp : List Packet} {ok : Bool} {as : List Answer}
    (h : s.flushPackets sock poller_thread tmp answers = some (ok,t,as)) :
    ∃ r, sendPackets sock.is_udp tmp answers = some r ∧ r.answers = as ∧ ok = !r.failed ∧
      t.wire = s.wire ++ r.wire.map (fun x => (sock.rawFd,x)) ∧
      t._send_buf_waiting = s._send_buf_waiting ∧
      t._send_buf_sending = if r.failed then s._send_buf_sending else r.tmp ++ s._send_buf_sending := by
  obtain ⟨r,hr,h⟩ := Option.map_eq_some_iff.mp h
  refine ⟨r,hr,?_⟩
  dsimp only at h
  by_cases hf : r.failed = true
  · rw [if_pos hf] at h
    cases h
    exact ⟨rfl,by rw [hf]; rfl,rfl,rfl,(if_pos hf).symm⟩
  · rw [if_neg hf] at h
    rw [Bool.not_eq_true] at hf
    by_cases hnil : r.tmp.isEmpty = true
    · rw [if_pos hnil] at h
      cases h
      have htmp : r.tmp = [] := List.isEmpty_iff.mp hnil
      exact ⟨rfl,by rw [hf]; rfl,rfl,rfl,by simp [hf, htmp]⟩
    · rw [if_neg hnil] at h
      cases h
      exact ⟨rfl,by rw [hf]; rfl,rfl,rfl,by simp [hf]⟩

/-- Behind packets that are still to be sent, a buffer stays in `_send_buf_waiting`. -/
theorem flushData_behind {ok : Bool} (h : s.flushData sock false answers = some (ok,t,[]))
    (hne : s._send_buf_sending ≠ []) : t._send_buf_waiting = s._send_buf_waiting ∧
      (ok = false ↔ sock.is_udp = false ∧ .error ∈ answers) := by
  obtain ⟨p,ps,hsending⟩ := List.exists_cons_of_ne_nil hne
  unfold State.flushData at h
  rw [hsending] at h
  obtain ⟨r,hr,h⟩ := Option.bind_eq_some_iff.mp h
  simp only [Bool.false_eq_true, false_and, if_false, Option.some.injEq] at h
  subst h
  obtain ⟨r',hr',hanswers,hok,_,hwaiting,_⟩ := flushPackets_spec hr
  refine ⟨hwaiting,?_⟩
  rw [hok, Bool.not_eq_false', (sendPackets_sends hr').failed hanswers]

/-- What became of the buffer that was queued last when the flush packed it. -/
inductive Packed (q : Queued) (is_udp ok : Bool) (answers : List Answer) (t : State) : Prop where
  | done (herror : .error ∉ answers) (hok : ok = true) (hwritten : t.written q.number = q.data)
  | kept (herror : .error ∉ answers) (hok : ok = true) (hholds : t.Holds q.number)
  | dropped (herror : .error ∈ answers) (hok : ok = true ↔ is_udp = true) (habsent : ¬ t.Holds q.number)
      (hunwritten : t.written q.number = [])

theorem flushData_packed {ok : Bool} {qs : List Queued} {q : Queued}
    (h : s.flushData sock false answers = some (ok,t,[])) (hsending : s._send_buf_sending = [])
    (hwaiting : s._send_buf_waiting = qs ++ [q]) (hdata : q.data ≠ [])
    (hqs : ∀ q' ∈ qs, q'.number ≠ q.number) (hwire : ∀ x ∈ s.wire, x.2.number ≠ q.number) :
    Packed q sock.is_udp ok answers t := by
  have hne : create sock.is_udp (qs ++ [q]) ≠ [] := by
    rw [create_append]
    exact List.append_ne_nil_of_right_ne_nil _ (pieces_ne_nil _ hdata)
  have hflush : State.flushPackets { s with _send_buf_waiting := [] } sock false
      [create sock.is_udp (qs ++ [q])] answers = some (ok,t,[]) := by
    unfold State.flushData State.flushWaiting at h
    rw [hsending, hwaiting] at h
    cases hqs : qs ++ [q] with
    | nil => simp at hqs
    | cons q' qs' =>
      rw [hqs] at h
      simpa [hsending] using h
  obtain ⟨r,hr,hanswers,hok,htwire,htwaiting,htsending⟩ := flushPackets_spec hflush
  simp only [hsending, List.append_nil] at htwaiting htsending
  obtain ⟨herror,hf,⟨htmp,hrwire⟩ | ⟨n,hn,htmp⟩⟩ | ⟨herror,htmp,hrwire,hf⟩ :=
    sendPackets_single hne hr hanswers
  · rw [hrwire] at htwire
    exact .done herror (by rw [hok, hf]; rfl) (written_create hqs hwire htwire)
  · refine .kept herror (by rw [hok, hf]; rfl) (.inr ?_)
    rw [htsending, hf, htmp]
    exact inPackets_drop _ qs hdata hn
  · refine .dropped herror ?_ ?_ ?_
    · rw [hok, Bool.not_eq_true', ← Bool.not_eq_true, hf, Bool.not_eq_false]
    · rintro (⟨q',hq',_⟩ | ⟨p,hp,_⟩)
      · rw [htwaiting] at hq'
        cases hq'
      · rw [htsending, htmp] at hp
        simp at hp
    · have hnone : s.wire.filter (fun x => x.2.number = q.number) = [] := by
        rw [List.filter_eq_nil_iff]
        intro x hx
        simpa using hwire x hx
      rw [State.written, htwire, hrwire, List.map_nil, List.append_nil, hnone]
      rfl

variable {data : List UInt8} {ret : ℤ} {try_flush timeout : Bool}

/-- What a send of a buffer that is not empty comes to. -/
inductive Sent (s : State) (data : List UInt8) (try_flush timeout : Bool) (answers : List Answer) (ret : ℤ)
    (t : State) : Prop where
  | accepted (hret : ret = data.length) (hqueued : t.written s.sends = data ∨ t.Holds s.sends)
      (herror : .error ∈ answers → ∃ sock, s._sock_fd = some sock ∧ sock.is_udp = true)
      (hsettled : Settled s try_flush timeout answers)
  /-- The send fails and the buffer stays. -/
  | left (hret : ret = -1) (hholds : t.Holds s.sends) (hsettled : ¬ Settled s try_flush timeout answers)
  /-- The send fails, and its packet is dropped. -/
  | dropped (hret : ret = -1) (habsent : ¬ t.Holds s.sends) (hunwritten : t.written s.sends = [])
      (herror : .error ∈ answers) (hsettled : Settled s try_flush timeout answers)
  /-- A packet of a UDP socket is dropped, and the send does not fail. -/
  | lost (hret : ret = data.length) (habsent : ¬ t.Holds s.sends) (hunwritten : t.written s.sends = [])
      (hudp : ∃ sock, s._sock_fd = some sock ∧ sock.is_udp = true)
      (hsettled : ¬ Settled s try_flush timeout answers)

theorem holds_of_waiting (data : List UInt8) (h : t._send_buf_waiting = (s.append data)._send_buf_waiting) :
    t.Holds s.sends := by
  refine .inl ⟨⟨s.sends,data⟩,?_,rfl⟩
  rw [h]
  exact List.mem_append_right _ (List.mem_singleton_self _)

/-- A flush that reaches `flushData` is settled by the error it meets. -/
theorem settled_iff (hfd : s._sock_fd = some sock) (hsendable : s._sendable = true ∨ timeout = false) :
    Settled s true timeout answers ↔
      (.error ∈ answers → (sock.is_udp = true ↔ s._send_buf_sending ≠ [])) := by
  simp [Settled, hfd, hsendable]

theorem flushData_sent (hinv : Inv s) (hdata : data ≠ []) {ok : Bool} (hfd : s._sock_fd = some sock)
    (hsendable : s._sendable = true)
    (h : (s.append data).flushData sock false answers = some (ok,t,[])) :
    Sent s data true timeout answers (if ok then data.length else -1) t := by
  have hsettled : Settled s true timeout answers ↔
      (.error ∈ answers → (sock.is_udp = true ↔ s._send_buf_sending ≠ [])) :=
    settled_iff hfd (.inl hsendable)
  by_cases hsending : s._send_buf_sending = []
  · have hpacked := flushData_packed (q := ⟨s.sends,data⟩) h hsending rfl hdata
      (fun q hq => (hinv.holds q.number (.inl ⟨q,hq,rfl⟩)).ne) (fun x hx => (hinv.wire x hx).ne)
    cases hpacked with
    | done herror hok hwritten =>
      rw [hok, if_pos rfl]
      exact .accepted rfl (.inl hwritten) (fun he => absurd he herror)
        (hsettled.mpr fun he => absurd he herror)
    | kept herror hok hholds =>
      rw [hok, if_pos rfl]
      exact .accepted rfl (.inr hholds) (fun he => absurd he herror)
        (hsettled.mpr fun he => absurd he herror)
    | dropped herror hok habsent hunwritten =>
      cases hudp : sock.is_udp with
      | true =>
        rw [hok.mpr hudp, if_pos rfl]
        refine .lost rfl habsent hunwritten ⟨sock,hfd,hudp⟩ ?_
        exact fun hset => (hsettled.mp hset herror).mp hudp hsending
      | false =>
        have hfalse : ok ≠ true := by
          rw [Ne, hok, hudp]
          exact Bool.false_ne_true
        rw [if_neg hfalse]
        refine .dropped rfl habsent hunwritten herror (hsettled.mpr fun _ => ?_)
        rw [hudp]
        exact iff_of_false Bool.false_ne_true fun hne => hne hsending
  · obtain ⟨hwaiting,hok⟩ := flushData_behind h hsending
    have hholds : t.Holds s.sends := holds_of_waiting data hwaiting
    cases ok with
    | true =>
      have hudp : .error ∈ answers → sock.is_udp = true := by
        intro he
        rw [← Bool.not_eq_false]
        exact fun hudp => absurd (hok.mpr ⟨hudp,he⟩) (by decide)
      refine .accepted rfl (.inr hholds) (fun he => ⟨sock,hfd,hudp he⟩) (hsettled.mpr fun he => ?_)
      exact iff_of_true (hudp he) hsending
    | false =>
      obtain ⟨hudp,he⟩ := hok.mp rfl
      refine .left rfl hholds fun hset => ?_
      exact absurd ((hsettled.mp hset he).mpr hsending) (by rw [hudp]; decide)

theorem flushAll_sent (hinv : Inv s) (hdata : data ≠ []) {code : ℤ}
    (h : (s.append data).flushAll timeout answers = some (code,t,[])) :
    Sent s data true timeout answers (if code ≠ 0 then -1 else data.length) t := by
  unfold State.flushAll at h
  split at h
  · rename_i hfd
    have hfd : s._sock_fd = none := hfd
    cases h
    exact .left rfl (holds_of_waiting data rfl) (by simp [Settled, hfd])
  rename_i sock hfd
  have hfd : s._sock_fd = some sock := hfd
  by_cases hsendable : (s.append data)._sendable = true
  · rw [if_pos hsendable] at h
    obtain ⟨⟨ok,_⟩,hflush,h⟩ := Option.map_eq_some_iff.mp h
    cases h
    have hsent : Sent s data true timeout answers (if ok then data.length else -1) t :=
      flushData_sent hinv hdata hfd hsendable hflush
    cases ok with
    | true => exact hsent
    | false => exact hsent
  · rw [if_neg hsendable] at h
    cases timeout with
    | true =>
      cases h
      refine .left rfl (holds_of_waiting data rfl) ?_
      rintro (hf | ⟨_,_,hb | ht,_⟩)
      · cases hf
      · exact hsendable hb
      · cases ht
    | false =>
      cases h
      exact .accepted rfl (.inr (holds_of_waiting data rfl)) nofun ((settled_iff hfd (.inr rfl)).mpr nofun)

theorem send_l_sent (hinv : Inv s) (hdata : data ≠ [])
    (h : s.send_l data try_flush timeout answers = some (ret,t,[])) :
    Sent s data try_flush timeout answers ret t := by
  unfold State.send_l at h
  rw [if_neg (by simpa using hdata)] at h
  cases try_flush with
  | false =>
    cases h
    exact .accepted rfl (.inr (holds_of_waiting data rfl)) nofun (.inl rfl)
  | true =>
    obtain ⟨⟨code,_⟩,hr,h⟩ := Option.map_eq_some_iff.mp h
    cases h
    exact flushAll_sent hinv hdata hr

theorem send_l_sends (hdata : data ≠ [])
    (h : s.send_l data try_flush timeout answers = some (ret,t,[])) : t.sends = s.sends + 1 := by
  unfold State.send_l at h
  rw [if_neg (by simpa using hdata)] at h
  cases try_flush with
  | false =>
    cases h
    rfl
  | true =>
    obtain ⟨⟨code,_⟩,hr,h⟩ := Option.map_eq_some_iff.mp h
    cases h
    exact (flushAll_flushed hr).sends

/-! ### When the value is right -/

theorem not_told_of_holds (h : t.Holds k) : ¬ Told k data (-1) t := fun ht => (ht.refused rfl).1 h

/-- In every reachable state a send tells what became of its buffer just when its flush is settled. -/
theorem send_told_iff {as : List Act} (hs : exec step .fresh as = some s)
    (h : spent (s.send_l data try_flush timeout answers) = some (ret,t)) :
    Told s.sends data ret t ↔ data = [] ∨ Settled s try_flush timeout answers := by
  have h := spent_eq_some h
  by_cases hdata : data = []
  · rw [State.send_l, if_pos (by rw [hdata]; rfl)] at h
    cases h
    exact iff_of_true ⟨nofun,fun hpos => absurd hpos (Int.lt_irrefl 0)⟩ (.inl hdata)
  rw [or_iff_right hdata]
  have hlen : (0 : ℤ) < data.length := Int.natCast_pos.mpr (List.length_pos_iff.mpr hdata)
  cases send_l_sent (exec_moves hs inv_fresh) hdata h with
  | accepted hret hqueued _ hsettled =>
    have hne : ret ≠ -1 := by omega
    exact iff_of_true ⟨fun hr => absurd hr hne,fun _ => hqueued⟩ hsettled
  | left hret hholds hsettled =>
    subst hret
    exact iff_of_false (not_told_of_holds hholds) hsettled
  | dropped hret habsent _ _ hsettled =>
    have hneg : ¬ 0 < ret := by omega
    have hold : s.sends < t.sends := by
      rw [send_l_sends hdata h]
      exact Nat.lt_succ_self _
    exact iff_of_true ⟨fun _ => gone_of_absent hold habsent,fun hpos => absurd hpos hneg⟩ hsettled
  | lost hret habsent hunwritten _ hsettled =>
    refine iff_of_false (fun ht => ?_) hsettled
    rcases ht.accepted (hret ▸ hlen) with hw | hh
    · exact hdata (hw.symm.trans hunwritten)
    · exact habsent hh

/-- A TCP connection takes one byte of two. -/
theorem send_told_partial : ∃ t, spent ((State.fresh.install false).send_l [1,2] true false [.sent 1]) =
    some (2,t) ∧ Told 0 [1,2] 2 t := by
  have hopen : exec step .fresh [.install false] = some (State.fresh.install false) := rfl
  have hsend : ∃ t, spent ((State.fresh.install false).send_l [1,2] true false [.sent 1]) = some (2,t) :=
    ⟨_,rfl⟩
  obtain ⟨t,ht⟩ := hsend
  refine ⟨t,ht,(send_told_iff hopen ht).mpr (.inr (.inr ⟨⟨0,false⟩,rfl,.inl rfl,?_⟩))⟩
  decide

/-- Without an fd the send returns -1, and the next connection gets the bytes. -/
theorem refused_buffer_sent : ∃ t, spent (State.fresh.send_l [7] true false []) = some (-1,t) ∧
    ¬ Told 0 [7] (-1) t ∧
    ∃ u, exec step t [.install false,.flushAll false [.sent 1]] = some u ∧ u.wire = [(0,⟨0,[7]⟩)] := by
  refine ⟨State.fresh.append [7],rfl,?_,_,rfl,rfl⟩
  exact not_told_of_holds (holds_of_waiting [7] rfl)

end OctCommu.Network.RefusedSend
