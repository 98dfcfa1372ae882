import OctCommu.Communcation.TCPImp
import OctCommu.Network.RefusedSend

/-! # What `TCPImp::send` queues

A client hands its pointer down to the `Socket` of its connection, where a length of
zero stands for `strlen`, and the value comes back as an `int`. A server hands it to the
`TCPServerImp` that owns the `TcpServer`, which is a session of no socket.
-/
namespace OctCommu.Communcation.TCPSend
open Memory Network.RefusedSend Runs

/-- A pointer by the bytes that can be read from it on, and a length within them. -/
structure Argument where
  pdata : List UInt8
  len : ℕ
  len_le : len ≤ pdata.length
  len_lt : len < sizeModulus

/-- Without a terminator the rest of the memory is not described. -/
def strlen (pdata : List UInt8) : ℕ := (pdata.takeWhile (· ≠ 0)).length

/-- The returned value, the object behind the call, what was appended to a send queue, and whether
`pdata` was read. -/
structure Result (S : Type*) where
  ret : ℤ
  after : S
  appended : List UInt8
  read : Bool

/-- `Socket::send(buf, size)`; the buffer it makes holds a copy. -/
def socketSend (sock : State) (pdata : List UInt8) (size : ℕ) (try_flush timeout : Bool)
    (answers : List Answer) : Option (Result State) :=
  let len := if size = 0 then strlen pdata else size
  if len = 0 then if answers.isEmpty then some ⟨0,sock,[],true⟩ else none
  else (spent (sock.send_l (pdata.take len) try_flush timeout answers)).map fun r =>
    ⟨r.1,r.2,pdata.take len,true⟩

structure SocketHelper where
  _sock : Option State
  _try_flush : Bool

def SocketHelper.fresh : SocketHelper := ⟨none,true⟩

def SocketHelper.send (h : SocketHelper) (arg : Argument) (timeout : Bool) (answers : List Answer) :
    Option (Result SocketHelper) :=
  match h._sock with
  | none => if answers.isEmpty then some ⟨-1,h,[],false⟩ else none
  | some sock => (socketSend sock arg.pdata arg.len h._try_flush timeout answers).map fun r =>
      ⟨r.ret,{ h with _sock := some r.after },r.appended,r.read⟩

/-- A `TCPImp` with the sessions of its `TcpServer`. -/
structure Link where
  tcp_type_ : ℤ
  tcp_client_imp_ : SocketHelper
  tcp_server_imp_ : SocketHelper
  sessions : List SocketHelper

namespace Link

def fresh : Link := ⟨0,.fresh,.fresh,[]⟩

def send (p : Link) (arg : Argument) (timeout : Bool) (answers : List Answer) : Option (Result Link) :=
  if p.tcp_type_ = TT_CLIENT then
    (p.tcp_client_imp_.send arg timeout answers).map fun r =>
      ⟨toInt32 r.ret,{ p with tcp_client_imp_ := r.after },r.appended,r.read⟩
  else
    -- `sendData`, on the object that accepted no connection
    (p.tcp_server_imp_.send arg timeout answers).map fun r =>
      ⟨toInt32 r.ret,{ p with tcp_server_imp_ := r.after },r.appended,r.read⟩

/-- The sockets of the connections, in either role. -/
def connections (p : Link) : List State :=
  if p.tcp_type_ = TT_CLIENT then p.tcp_client_imp_._sock.toList else p.sessions.filterMap SocketHelper._sock

def Established (p : Link) : Prop := ∃ sock ∈ p.connections, sock._sock_fd.isSome = true

end Link

inductive LinkAct where
  | init (tcp_type_ : ℤ)
  /-- Whatever happens on the client's socket, or on that of a session. -/
  | client (a : Act)
  | session (i : ℕ) (a : Act)
  | onAccept
  | sessionErr (i : ℕ)
  | send (arg : Argument) (timeout : Bool) (answers : List Answer)

/-- Neither role opens a UDP socket. -/
def SocketHelper.step (h : SocketHelper) (a : Act) : Option SocketHelper :=
  if a = .install true then none
  else h._sock.bind fun sock =>
    (Network.RefusedSend.step sock a).map fun sock' => { h with _sock := some sock' }

def step (p : Link) : LinkAct → Option Link
  | .init tcp_type_ =>
    some { p with
      tcp_type_ := tcp_type_
      tcp_client_imp_ :=
        -- `startConnect` makes a new socket
        if tcp_type_ = TT_CLIENT then { p.tcp_client_imp_ with _sock := some .fresh }
        else p.tcp_client_imp_ }
  | .client a => (p.tcp_client_imp_.step a).map fun h => { p with tcp_client_imp_ := h }
  | .session i a =>
    p.sessions[i]?.bind fun h => (h.step a).map fun h' => { p with sessions := p.sessions.set i h' }
  | .onAccept => some { p with sessions := p.sessions ++ [⟨some (State.fresh.install false),true⟩] }
  | .sessionErr i => some { p with sessions := p.sessions.eraseIdx i }
  | .send arg timeout answers => (p.send arg timeout answers).map Result.after

/-- Behind the call a buffer that it appended to the queue of a connection is there, or written. -/
def Queued (p q : Link) (data : List UInt8) : Prop :=
  ∃ (i : ℕ) (s t : State), p.connections[i]? = some s ∧ q.connections[i]? = some t ∧
    s.sends < t.sends ∧ (t.written s.sends = data ∨ t.Holds s.sends)

/-- The send queued what it was given, and its value says so. -/
structure Exact (p : Link) (arg : Argument) (r : Result Link) : Prop where
  appended : r.appended = arg.pdata.take arg.len
  unread : arg.len = 0 → r.read = false
  positive : 0 < r.ret ↔ Queued p r.after (arg.pdata.take arg.len)
  value : 0 < r.ret → r.ret = arg.len

/-- A client's length is one that an `int` holds, unless the send fails, and its flush is settled; a server
is given nothing to send. -/
def Sendable (p : Link) (arg : Argument) (timeout : Bool) (answers : List Answer) : Prop :=
  if p.tcp_type_ = TT_CLIENT then
    0 < arg.len ∧ (arg.len < 2147483648 ∨ .error ∈ answers) ∧
      ∃ sock, p.tcp_client_imp_._sock = some sock ∧
        Settled sock p.tcp_client_imp_._try_flush timeout answers
  else arg.len = 0

/-- The outer server object never gets a socket; that of the client has sent over TCP only. -/
structure Kept (p : Link) : Prop where
  server : p.tcp_server_imp_._sock = none
  client : ∀ sock, p.tcp_client_imp_._sock = some sock →
    Network.RefusedSend.Inv sock ∧ ∀ fd, sock._sock_fd = some fd → fd.is_udp = false

variable {p q : Link} {arg : Argument} {timeout : Bool} {answers : List Answer} {r : Result Link}

theorem kept_fresh : Kept .fresh := ⟨rfl,nofun⟩

/-- Everything `Socket::send` can do; a length of zero makes `strlen` read the pointer. -/
theorem socketSend_cases {sock : State} {pdata : List UInt8} {size : ℕ} {try_flush : Bool}
    {r : Result State} (h : socketSend sock pdata size try_flush timeout answers = some r) :
    r.read = true ∧ ((size = 0 ∧ r.after = sock) ∨
      ∃ len, (size ≠ 0 → len = size) ∧ r.appended = pdata.take len ∧
        sock.send_l (pdata.take len) try_flush timeout answers = some (r.ret,r.after,[])) := by
  unfold socketSend at h
  dsimp only at h
  by_cases hlen : (if size = 0 then strlen pdata else size) = 0
  · rw [if_pos hlen] at h
    split at h
    · cases h
      refine ⟨rfl,.inl ⟨?_,rfl⟩⟩
      by_contra hsize
      rw [if_neg hsize] at hlen
      exact hsize hlen
    · cases h
  · rw [if_neg hlen] at h
    obtain ⟨r',hr,rfl⟩ := Option.map_eq_some_iff.mp h
    exact ⟨rfl,.inr ⟨_,fun hsize => if_neg hsize,rfl,spent_eq_some hr⟩⟩

/-- What a step over TCP keeps of a socket. -/
theorem socket_kept {s t : State} {a : Act} (ha : a ≠ .install true)
    (hs : Network.RefusedSend.Inv s ∧ ∀ fd, s._sock_fd = some fd → fd.is_udp = false)
    (h : Network.RefusedSend.step s a = some t) :
    Network.RefusedSend.Inv t ∧ ∀ fd, t._sock_fd = some fd → fd.is_udp = false := by
  refine ⟨(step_moves h).inv hs.1,?_⟩
  intro fd hfd
  rcases step_fd h hfd with hold | hnew
  · exact hs.2 fd hold
  · rw [← Bool.not_eq_true]
    intro hudp
    rw [hudp] at hnew
    exact ha hnew

theorem helper_send_none {h : SocketHelper} (hsock : h._sock = none) {r : Result SocketHelper}
    (hr : h.send arg timeout answers = some r) : r = ⟨-1,h,[],false⟩ := by
  unfold SocketHelper.send at hr
  rw [hsock] at hr
  dsimp only at hr
  split at hr
  · cases hr
    rfl
  · cases hr

theorem helper_send_some {h : SocketHelper} {sock : State} (hsock : h._sock = some sock)
    {r : Result SocketHelper} (hr : h.send arg timeout answers = some r) :
    ∃ r', socketSend sock arg.pdata arg.len h._try_flush timeout answers = some r' ∧
      r = ⟨r'.ret,{ h with _sock := some r'.after },r'.appended,r'.read⟩ := by
  unfold SocketHelper.send at hr
  rw [hsock] at hr
  obtain ⟨r',hr',rfl⟩ := Option.map_eq_some_iff.mp hr
  exact ⟨r',hr',rfl⟩

theorem send_client (ht : p.tcp_type_ = TT_CLIENT) {sock : State}
    (hsock : p.tcp_client_imp_._sock = some sock) (h : p.send arg timeout answers = some r) :
    ∃ r', socketSend sock arg.pdata arg.len p.tcp_client_imp_._try_flush timeout answers = some r' ∧
      r = ⟨toInt32 r'.ret,{ p with tcp_client_imp_ := { p.tcp_client_imp_ with _sock := some r'.after } },
        r'.appended,r'.read⟩ := by
  unfold Link.send at h
  rw [if_pos ht] at h
  obtain ⟨r',hr,rfl⟩ := Option.map_eq_some_iff.mp h
  obtain ⟨r'',hr'',rfl⟩ := helper_send_some hsock hr
  exact ⟨r'',hr'',rfl⟩

/-- A server appends nothing, reads nothing and returns -1. -/
theorem send_server (hp : Kept p) (ht : p.tcp_type_ ≠ TT_CLIENT)
    (h : p.send arg timeout answers = some r) : r = ⟨-1,p,[],false⟩ := by
  unfold Link.send at h
  rw [if_neg ht] at h
  obtain ⟨r',hr,rfl⟩ := Option.map_eq_some_iff.mp h
  obtain rfl := helper_send_none hp.server hr
  rfl

theorem send_kept (hp : Kept p) (h : p.send arg timeout answers = some r) : Kept r.after := by
  by_cases ht : p.tcp_type_ = TT_CLIENT
  · cases hsock : p.tcp_client_imp_._sock with
    | none =>
      unfold Link.send at h
      rw [if_pos ht] at h
      obtain ⟨r',hr,rfl⟩ := Option.map_eq_some_iff.mp h
      obtain rfl := helper_send_none hsock hr
      exact ⟨hp.server,hp.client⟩
    | some sock =>
      obtain ⟨r',hr',rfl⟩ := send_client ht hsock h
      refine ⟨hp.server,?_⟩
      intro new hnew
      cases hnew
      obtain ⟨_,⟨_,hsame⟩ | ⟨len,_,_,hsend⟩⟩ := socketSend_cases hr'
      · rw [hsame]
        exact hp.client sock hsock
      · refine socket_kept (a := .send_l (arg.pdata.take len) p.tcp_client_imp_._try_flush timeout answers)
          (by simp) (hp.client sock hsock) ?_
        simp [Network.RefusedSend.step, spent, hsend]
  · obtain rfl := send_server hp ht h
    exact hp

theorem step_kept {a : LinkAct} (hp : Kept p) (h : step p a = some q) : Kept q := by
  cases a with
  | init tcp_type_ =>
    cases h
    refine ⟨hp.server,?_⟩
    intro sock hsock
    dsimp only at hsock
    split at hsock
    · cases hsock
      exact ⟨inv_fresh,nofun⟩
    · exact hp.client sock hsock
  | client a =>
    obtain ⟨h',hr,rfl⟩ := Option.map_eq_some_iff.mp h
    refine ⟨hp.server,?_⟩
    intro sock hsock
    unfold SocketHelper.step at hr
    split at hr
    · cases hr
    · rename_i ha
      obtain ⟨old,hold,hr⟩ := Option.bind_eq_some_iff.mp hr
      obtain ⟨new,hstep,rfl⟩ := Option.map_eq_some_iff.mp hr
      cases hsock
      exact socket_kept ha (hp.client old hold) hstep
  | session i a =>
    obtain ⟨_,_,h⟩ := Option.bind_eq_some_iff.mp h
    obtain ⟨_,_,rfl⟩ := Option.map_eq_some_iff.mp h
    exact ⟨hp.server,hp.client⟩
  | onAccept =>
    cases h
    exact ⟨hp.server,hp.client⟩
  | sessionErr i =>
    cases h
    exact ⟨hp.server,hp.client⟩
  | send arg timeout answers =>
    obtain ⟨r,hr,rfl⟩ := Option.map_eq_some_iff.mp h
    exact send_kept hp hr

theorem exec_kept {as : List LinkAct} (h : exec step .fresh as = some p) : Kept p := by
  have hall : EveryState step Kept .fresh as :=
    (everyStep_of_forall (C := fun _ _ => True) (fun _ _ => trivial) _ _).preserves
      (fun _ _ _ hp _ h => step_kept hp h) kept_fresh
  exact hall.last h

theorem queued_client (ht : p.tcp_type_ = TT_CLIENT) {s t : State} {data : List UInt8}
    (hs : p.tcp_client_imp_._sock = some s) (hq : q.tcp_type_ = TT_CLIENT)
    (hqs : q.tcp_client_imp_._sock = some t) (hsends : s.sends < t.sends) :
    Queued p q data ↔ t.written s.sends = data ∨ t.Holds s.sends := by
  have hp : p.connections = [s] := by simp [Link.connections, ht, hs]
  have hq : q.connections = [t] := by simp [Link.connections, hq, hqs]
  constructor
  · rintro ⟨i,s',t',hi,hj,_,hw⟩
    rw [hp, List.getElem?_singleton] at hi
    rw [hq, List.getElem?_singleton] at hj
    split at hi
    · rename_i hzero
      rw [if_pos hzero] at hj
      cases hi
      cases hj
      exact hw
    · cases hi
  · intro hw
    exact ⟨0,s,t,by rw [hp]; rfl,by rw [hq]; rfl,hsends,hw⟩

theorem not_queued_self (data : List UInt8) : ¬ Queued p p data := by
  rintro ⟨i,s,t,hs,ht,hlt,_⟩
  rw [hs] at ht
  cases ht
  exact Nat.lt_irrefl _ hlt

/-- The `int` made of the value of a send over TCP tells what became of its bytes just when the send fits an
`int` or fails, and is settled. -/
theorem tcp_value_iff {sock t : State} {data : List UInt8} {try_flush : Bool} {ret : ℤ}
    (hinv : Network.RefusedSend.Inv sock) (htcp : ∀ fd, sock._sock_fd = some fd → fd.is_udp = false)
    (hdata : data ≠ []) (h : sock.send_l data try_flush timeout answers = some (ret,t,[])) :
    (0 < toInt32 ret ↔ t.written sock.sends = data ∨ t.Holds sock.sends) ∧
        (0 < toInt32 ret → toInt32 ret = data.length) ↔
      (data.length < 2147483648 ∨ .error ∈ answers) ∧ Settled sock try_flush timeout answers := by
  have hlen : 0 < data.length := List.length_pos_iff.mpr hdata
  have hnoUdp : ¬ ∃ fd, sock._sock_fd = some fd ∧ fd.is_udp = true := by
    rintro ⟨fd,hfd,hudp⟩
    rw [htcp fd hfd] at hudp
    cases hudp
  have hneg : toInt32 (-1) = -1 := by decide
  cases send_l_sent hinv hdata h with
  | accepted hret hq herror hsettled =>
    have hnoError : .error ∉ answers := fun he => hnoUdp (herror he)
    rw [hret, iff_true_right hq, or_iff_left hnoError, and_iff_left hsettled]
    constructor
    · rintro ⟨hpos,hvalue⟩
      have hlt := toInt32_lt data.length
      rw [hvalue hpos] at hlt
      omega
    · intro hlt
      rw [toInt32_of_lt (by omega) (by omega)]
      exact ⟨by omega,fun _ => rfl⟩
  | left hret hholds hsettled =>
    rw [hret, hneg]
    refine iff_of_false (fun hc => ?_) fun hc => hsettled hc.2
    exact absurd (hc.1.mpr (.inr hholds)) (by decide)
  | dropped hret habsent hunwritten herror hsettled =>
    rw [hret, hneg]
    refine iff_of_true ⟨iff_of_false (by decide) ?_,fun hpos => absurd hpos (by decide)⟩
      ⟨.inr herror,hsettled⟩
    rintro (hw | hh)
    · exact hdata (hw.symm.trans hunwritten)
    · exact habsent hh
  | lost _ _ _ hudp _ => exact absurd hudp hnoUdp

theorem client_exact_iff (hp : Kept p) (ht : p.tcp_type_ = TT_CLIENT) {sock : State}
    (hsock : p.tcp_client_imp_._sock = some sock) (hlen : 0 < arg.len)
    (h : p.send arg timeout answers = some r) : Exact p arg r ↔
      (arg.len < 2147483648 ∨ .error ∈ answers) ∧ Settled sock p.tcp_client_imp_._try_flush timeout answers := by
  obtain ⟨r',hr',rfl⟩ := send_client ht hsock h
  obtain ⟨_,⟨hzero,_⟩ | ⟨len,hsize,happended,hsend⟩⟩ := socketSend_cases hr'
  · omega
  obtain rfl := hsize (Nat.pos_iff_ne_zero.mp hlen)
  obtain ⟨hinv,htcp⟩ := hp.client sock hsock
  have hdatalen : (arg.pdata.take arg.len).length = arg.len := List.length_take_of_le arg.len_le
  have hdata : arg.pdata.take arg.len ≠ [] := by
    rw [← List.length_pos_iff, hdatalen]
    exact hlen
  have hsends : sock.sends < r'.after.sends := by
    rw [send_l_sends hdata hsend]
    exact Nat.lt_succ_self _
  have hqueued : Queued p { p with
      tcp_client_imp_ := { p.tcp_client_imp_ with _sock := some r'.after } } (arg.pdata.take arg.len) ↔
      r'.after.written sock.sends = arg.pdata.take arg.len ∨ r'.after.Holds sock.sends :=
    queued_client ht hsock ht rfl hsends
  have hvalues := tcp_value_iff hinv htcp hdata hsend
  rw [hdatalen] at hvalues
  rw [← hvalues]
  constructor
  · rintro ⟨_,_,hpositive,hvalue⟩
    exact ⟨hpositive.trans hqueued,hvalue⟩
  · rintro ⟨hpositive,hvalue⟩
    exact ⟨happended,fun hzero => absurd hzero (Nat.pos_iff_ne_zero.mp hlen),
      hpositive.trans hqueued.symm,hvalue⟩

/-- In every reachable state with a connection a send is exact just when it is sendable. -/
theorem send_exact_iff {as : List LinkAct} (hp : exec step .fresh as = some p) (he : p.Established)
    (h : p.send arg timeout answers = some r) : Exact p arg r ↔ Sendable p arg timeout answers := by
  have hkept := exec_kept hp
  by_cases ht : p.tcp_type_ = TT_CLIENT
  · obtain ⟨sock,hmem,_⟩ := he
    rw [Link.connections, if_pos ht, Option.mem_toList] at hmem
    have hsock : p.tcp_client_imp_._sock = some sock := hmem
    have hiff : Sendable p arg timeout answers ↔ 0 < arg.len ∧
        (arg.len < 2147483648 ∨ .error ∈ answers) ∧
          Settled sock p.tcp_client_imp_._try_flush timeout answers := by
      simp [Sendable, ht, hsock]
    rw [hiff]
    rcases Nat.eq_zero_or_pos arg.len with hzero | hpos
    · refine iff_of_false (fun hexact => ?_) fun hc => absurd hc.1 (by omega)
      obtain ⟨r',hr',rfl⟩ := send_client ht hsock h
      have hread := hexact.unread hzero
      rw [(socketSend_cases hr').1] at hread
      cases hread
    · rw [and_iff_right hpos]
      exact client_exact_iff hkept ht hsock hpos h
  · obtain rfl := send_server hkept ht h
    have hsendable : Sendable p arg timeout answers ↔ arg.len = 0 := by simp [Sendable, ht]
    rw [hsendable]
    constructor
    · intro hexact
      have hnil := congrArg List.length hexact.appended
      rw [List.length_take_of_le arg.len_le] at hnil
      exact hnil.symm
    · intro hzero
      have hneg : ¬ (0 : ℤ) < -1 := by decide
      exact ⟨by rw [hzero]; rfl,fun _ => rfl,iff_of_false hneg (not_queued_self _),
        fun hpos => absurd hpos hneg⟩

/-- A client with an open connection. -/
def connected : Link :=
  { Link.fresh with tcp_type_ := TT_CLIENT, tcp_client_imp_ := ⟨some (State.fresh.install false),true⟩ }

theorem exec_connected : exec step .fresh [.init TT_CLIENT,.client (.install false)] = some connected := rfl

theorem send_exact_two : ∃ r, connected.send ⟨[1,2],2,by decide,by decide⟩ false [.sent 2] = some r ∧
    Exact connected ⟨[1,2],2,by decide,by decide⟩ r := by
  have hsend : ∃ r, connected.send ⟨[1,2],2,by decide,by decide⟩ false [.sent 2] = some r := ⟨_,rfl⟩
  obtain ⟨r,hr⟩ := hsend
  refine ⟨r,hr,(send_exact_iff exec_connected ⟨_,List.mem_singleton_self _,rfl⟩ hr).mpr ?_⟩
  exact ⟨by decide,.inl (by decide),_,rfl,.inr ⟨⟨0,false⟩,rfl,.inl rfl,by decide⟩⟩

/-- A server with a session sends nothing; a client with length zero sends the string it is given. -/
theorem sends_inexact :
    (∃ p, exec step .fresh [.init TT_SERVER,.onAccept] = some p ∧ p.Established ∧
      ∃ r, p.send ⟨[7],1,by decide,by decide⟩ false [] = some r ∧ r.appended = [] ∧
        ¬ Exact p ⟨[7],1,by decide,by decide⟩ r) ∧
    ∃ r, connected.send ⟨[7,0],0,by decide,by decide⟩ false [.sent 1] = some r ∧ r.ret = 1 ∧
      r.appended = [7] ∧ ¬ Exact connected ⟨[7,0],0,by decide,by decide⟩ r := by
  constructor
  · refine ⟨_,rfl,⟨_,List.mem_singleton_self _,rfl⟩,_,rfl,rfl,?_⟩
    intro h
    cases h.appended
  · refine ⟨_,rfl,by decide,by decide,?_⟩
    intro h
    cases h.unread rfl

end OctCommu.Communcation.TCPSend
