import OctCommu.Communcation.TCPImp
import OctCommu.Communcation.UDPInitSound

/-! # When a TCP server says that it listens

`SockUtil::listen` binds the local address, or every address where the text is none.
`start_l` throws when the socket does not listen, and nobody between it and the
caller of `init` catches: what was installed in front of it stays.
-/
namespace OctCommu.Communcation.ServerListen
open Network.SockUtil
variable {P : Type*}

/-- `TCPInit` with the address to listen on. -/
structure ServerInit extends TCPInit where
  target_port_ : UInt16
  local_ip_ : Text

/-- What the system says of itself, and of the call that failed last. -/
structure Host where
  support_ipv6 : Bool
  inet_pton6 : Text → Option (Vector UInt8 16)
  get_uv_errmsg : Text

def INADDR_ANY : Vector UInt8 4 := #v[0,0,0,0]
def IN6ADDR_ANY_INIT : Vector UInt8 16 := Vector.replicate 16 0

def is_ipv4 (host : Text) : Bool := (inet_pton4 host).isSome

/-- Another text than an IPv4 address is replaced after a warning. -/
def bind_sock4 (ifr_ip : Text) (port : UInt16) : Endpoint :=
  match inet_pton4 ifr_ip with
  | some [a,b,c,d] => .v4 #v[a,b,c,d] port
  | _ => .v4 INADDR_ANY port

def bind_sock6 (o : Host) (ifr_ip : Text) (port : UInt16) : Endpoint :=
  match o.inet_pton6 (c_str ifr_ip) with
  | some addr => .v6 addr port
  | none => .v6 IN6ADDR_ANY_INIT port

/-- The address that `SockUtil::listen` binds; with port 0 the system picks one. -/
def boundAddr (o : Host) (port : UInt16) (local_ip : Text) : Endpoint :=
  if o.support_ipv6 then
    if is_ipv4 local_ip then bind_sock4 local_ip port else bind_sock6 o local_ip port
  else bind_sock4 local_ip port

inductive Handler where
  | MyonRecv
  | MyonError
  deriving DecidableEq

/-- A `TcpServer` with the sockets of its clones: where the one on each poller listens. -/
structure TcpServer (P : Type*) where
  recv_data_func_ : Option Handler
  tcp_error_func_ : Option Handler
  _session_alloc : Bool
  _timer : Bool
  sockets : P → Option Endpoint

/-- The constructor makes the `TcpServer`, and nothing takes it away. -/
structure TCPServerImp (P : Type*) where
  tcp_init_ : ServerInit
  is_to_recv_ : Bool
  is_ipv4_ : Bool
  error_msg_ : Text
  /-- The pool has its thread. -/
  m_recvThreadPool : Bool
  tcp_server_ : Option (TcpServer P)
  made : tcp_server_.isSome

def bytes (str : String) : Text := str.toUTF8.toList

/-- Whether `Socket::listen` says so, and where the clones listen from then on. -/
def listened : ListenResult P → Bool
  | .noSocket => false
  | .noEvent => false
  | .listens _ => true

def clones : ListenResult P → P → Bool
  | .noSocket => fun _ => false
  | .noEvent => fun _ => false
  | .listens clones => clones

namespace TcpServer
variable [DecidableEq P] (_poller : P)

/-- The second `Socket::listen` closes the old socket first. -/
def listen (s : TcpServer P) (e : Endpoint) : ListenResult P → TcpServer P
  | .noSocket => s
  | .noEvent => { s with sockets := Function.update s.sockets _poller none }
  | .listens _ => { s with sockets := Function.update s.sockets _poller (some e) }

/-- `cloneFrom` drops what `cloneFromListenSocket` answers. -/
def cloneAll (s : TcpServer P) (clones : P → Bool) : TcpServer P :=
  { s with sockets := fun q =>
      if q = _poller then s.sockets q
      else if clones q then s.sockets _poller
      else none }

def start_l (o : Host) (s : TcpServer P) (port : UInt16) (host : Text) (result : ListenResult P) :
    TcpServer P × Except Text Unit :=
  let s := s.listen _poller (boundAddr o port host) result
  if listened result then (cloneAll _poller { s with _timer := true } (clones result),.ok ())
  else
    (s,.error (bytes "listen on " ++ host ++ bytes ":" ++ bytes (toString port.toNat) ++
      bytes " failed:" ++ o.get_uv_errmsg))

/-- `start`: the session type is fixed before the attempt. -/
def start (o : Host) (s : TcpServer P) (port : UInt16) (host : Text) (result : ListenResult P) :
    TcpServer P × Except Text Unit :=
  start_l _poller o { s with _session_alloc := true } port host result

end TcpServer

namespace TCPServerImp

def fresh (tcp_init_ : ServerInit) : TCPServerImp P where
  tcp_init_ := tcp_init_
  is_to_recv_ := false
  is_ipv4_ := true
  error_msg_ := []
  m_recvThreadPool := false
  tcp_server_ := some ⟨none,none,false,false,fun _ => none⟩
  made := rfl

/-- The code that is returned, or the text of the exception that leaves it. -/
def init [DecidableEq P] (_poller : P) (o : Host) (s : TCPServerImp P) (init_param : ServerInit)
    (result : ListenResult P) : TCPServerImp P × Except Text ℤ :=
  let s := { s with tcp_init_ := init_param, is_to_recv_ := init_param.is_to_recv_ }
  match s.tcp_server_ with
  | some server =>
    let server := { server with
      recv_data_func_ := some .MyonRecv
      tcp_error_func_ := some .MyonError }
    let s := { s with
      m_recvThreadPool := s.m_recvThreadPool || (s.is_to_recv_ && s.tcp_init_.is_detach_recv_)
      is_ipv4_ := init_param.is_ipv4_ }
    let r := server.start _poller o init_param.target_port_ init_param.local_ip_ result
    ({ s with tcp_server_ := some r.1, made := rfl },r.2.map fun _ => 0)
  | none => ({ s with error_msg_ := bytes "failed to crerate tcp server" },.ok (-2))

/-- The text is that of the address. `::` is also what the code takes for all addresses of an
IPv4 socket, and `0.0.0.0` for those of an IPv6 socket. -/
def Names (o : Host) (ip : Text) (e : Endpoint) : Prop :=
  Denotes o.inet_pton6 ip e ∨ c_str ip = [58,58] ∧ e = .v4 INADDR_ANY e.port ∨
    c_str ip = inet_ntoa INADDR_ANY.toList ∧ e = .v6 IN6ADDR_ANY_INIT e.port

def ListensOn (o : Host) (s : TCPServerImp P) (ip : Text) (port : UInt16) : Prop :=
  ∃ server q e, s.tcp_server_ = some server ∧ server.sockets q = some e ∧ Names o ip e ∧ e.port = port

/-- A failed call that gives a code and a text, and leaves nothing else of its own. -/
structure Refuses (s t : TCPServerImp P) (r : Except Text ℤ) : Prop where
  code : ∃ ret : ℤ, r = .ok ret ∧ ret ≠ 0
  text : t.error_msg_ ≠ []
  pool : t.m_recvThreadPool = false
  installed : t = { s with error_msg_ := t.error_msg_, m_recvThreadPool := t.m_recvThreadPool }

structure Reports (o : Host) (s : TCPServerImp P) (p : ServerInit)
    (r : TCPServerImp P × Except Text ℤ) : Prop where
  zero_iff : r.2 = .ok 0 ↔ r.1.ListensOn o p.local_ip_ p.target_port_
  refuses : r.2 ≠ .ok 0 → s.Refuses r.1 r.2

end TCPServerImp

/-- One of the parsers that are tried reads the text, or it is `::`. -/
def Readable (o : Host) (ip : Text) : Prop :=
  is_ipv4 ip = true ∨
    if o.support_ipv6 = true then (o.inet_pton6 (c_str ip)).isSome = true else c_str ip = [58,58]

theorem bind_sock4_port (ifr_ip : Text) (port : UInt16) : (bind_sock4 ifr_ip port).port = port := by
  unfold bind_sock4
  split
  · rfl
  · rfl

theorem boundAddr_port (o : Host) (port : UInt16) (local_ip : Text) :
    (boundAddr o port local_ip).port = port := by
  have h6 : (bind_sock6 o local_ip port).port = port := by
    unfold bind_sock6
    split
    · rfl
    · rfl
  unfold boundAddr
  split
  · split
    · exact bind_sock4_port local_ip port
    · exact h6
  · exact bind_sock4_port local_ip port

theorem bind_sock4_of_ipv4 {o : Host} {ip : Text} (h : is_ipv4 ip = true) (port : UInt16) :
    Denotes o.inet_pton6 ip (bind_sock4 ip port) := by
  obtain ⟨addr,ha⟩ := Option.isSome_iff_exists.mp h
  obtain ⟨hlen,htext⟩ := inet_pton4_eq_some.mp ha
  match addr, hlen with
  | [a,b,c,d], _ =>
    simp only [bind_sock4, ha]
    exact htext

theorem bind_sock4_of_not {ip : Text} (h : is_ipv4 ip ≠ true) (port : UInt16) :
    bind_sock4 ip port = .v4 INADDR_ANY port := by
  have hn : inet_pton4 ip = none := by simpa [is_ipv4] using h
  simp only [bind_sock4, hn]

/-- A dotted text is one that the parser reads. -/
theorem is_ipv4_of_c_str {ip : Text} {addr : Vector UInt8 4} (h : c_str ip = inet_ntoa addr.toList) :
    is_ipv4 ip = true :=
  Option.isSome_iff_exists.mpr ⟨addr.toList,inet_pton4_eq_some.mpr ⟨by simp,h⟩⟩

namespace TCPServerImp

/-- The bound address is the one asked for exactly where the text can be read. -/
theorem names_boundAddr (o : Host) (ip : Text) (port : UInt16) :
    Names o ip (boundAddr o port ip) ↔ Readable o ip := by
  unfold Readable boundAddr
  by_cases h4 : is_ipv4 ip = true
  · have hd := bind_sock4_of_ipv4 (o := o) h4 port
    simp only [h4, if_true, ite_self, true_or, iff_true]
    exact .inl hd
  · have hdot : ∀ addr : Vector UInt8 4, c_str ip ≠ inet_ntoa addr.toList :=
      fun addr h => h4 (is_ipv4_of_c_str h)
    by_cases h6 : o.support_ipv6 = true
    · simp only [h4, h6, if_true]
      cases ha : o.inet_pton6 (c_str ip) with
      | none => simp [bind_sock6, ha, Names, Denotes, hdot]
      | some addr => simp [bind_sock6, ha, Names, Denotes]
    · simp [h4, h6, bind_sock4_of_not h4, Names, Denotes, hdot, Endpoint.port]

variable [DecidableEq P] {_poller : P} {o : Host} {s : TCPServerImp P} {p : ServerInit}
  {result : ListenResult P}

theorem init_eq {server : TcpServer P} (hs : s.tcp_server_ = some server) :
    s.init _poller o p result =
      let r := { server with
        recv_data_func_ := some .MyonRecv
        tcp_error_func_ := some .MyonError }.start _poller o p.target_port_ p.local_ip_ result
      (⟨p,p.is_to_recv_,p.is_ipv4_,s.error_msg_,
        s.m_recvThreadPool || (p.is_to_recv_ && p.is_detach_recv_),some r.1,rfl⟩,
        r.2.map fun _ => 0) := by
  obtain ⟨_,_,_,_,_,tcp_server_,_⟩ := s
  cases hs
  rfl

omit [DecidableEq P] in
theorem exists_server (s : TCPServerImp P) : ∃ server, s.tcp_server_ = some server :=
  Option.isSome_iff_exists.mp s.made

/-- A socket that does not listen ends the call with an exception. -/
theorem init_throws (h : listened result = false) :
    ∃ what, (s.init _poller o p result).2 = .error what := by
  obtain ⟨server,hs⟩ := s.exists_server
  rw [init_eq hs]
  simp only [TcpServer.start, TcpServer.start_l, h, Bool.false_eq_true, if_false]
  exact ⟨_,rfl⟩

theorem init_returns (h : listened result = true) : (s.init _poller o p result).2 = .ok 0 := by
  obtain ⟨server,hs⟩ := s.exists_server
  rw [init_eq hs]
  simp only [TcpServer.start, TcpServer.start_l, h, if_true]
  rfl

/-- Where the sockets are once the call has returned. -/
theorem sockets_of_listened {server : TcpServer P} {e : Endpoint} (h : listened result = true) (q : P) :
    (TcpServer.cloneAll _poller { server.listen _poller e result with _timer := true }
      (clones result)).sockets q =
        if q = _poller then some e else if clones result q then some e else none := by
  cases result with
  | noSocket => cases h
  | noEvent => cases h
  | listens cs =>
    simp only [TcpServer.cloneAll, TcpServer.listen, Function.update_self]
    by_cases hq : q = _poller
    · simp [hq]
    · simp [hq]

/-- All its sockets are bound to one address. -/
theorem listensOn_init (h : listened result = true) :
    (s.init _poller o p result).1.ListensOn o p.local_ip_ p.target_port_ ↔ Readable o p.local_ip_ := by
  obtain ⟨server,hs⟩ := s.exists_server
  rw [← names_boundAddr o p.local_ip_ p.target_port_, init_eq hs]
  simp only [TcpServer.start, TcpServer.start_l, h, if_true]
  constructor
  · rintro ⟨t,q,e,ht,hq,hn,-⟩
    cases ht
    rw [sockets_of_listened h] at hq
    have he : boundAddr o p.target_port_ p.local_ip_ = e := by
      split at hq
      · exact Option.some.inj hq
      · split at hq
        · exact Option.some.inj hq
        · cases hq
    rw [he]
    exact hn
  · intro hn
    refine ⟨_,_poller,_,rfl,?_,hn,boundAddr_port ..⟩
    rw [sockets_of_listened h, if_pos rfl]

omit [DecidableEq P] in
/-- An exception that leaves a call which could not listen breaks every promise of a refusal. -/
theorem not_reports_of_throws {r : TCPServerImp P × Except Text ℤ}
    (h : ∃ what, r.2 = .error what) : ¬ s.Reports o p r := by
  obtain ⟨what,hw⟩ := h
  intro hr
  obtain ⟨ret,hret,-⟩ := (hr.refuses (by simp [hw])).code
  rw [hw] at hret
  cases hret

/-- The call reports what it did exactly when the socket listens and the local address is read. -/
theorem reports_iff (_poller : P) (o : Host) (s : TCPServerImp P) (p : ServerInit)
    (result : ListenResult P) :
    s.Reports o p (s.init _poller o p result) ↔
      listened result = true ∧ Readable o p.local_ip_ := by
  cases h : listened result with
  | false =>
    simp only [Bool.false_eq_true, false_and, iff_false]
    exact not_reports_of_throws (init_throws h)
  | true =>
    have hret : (s.init _poller o p result).2 = .ok 0 := init_returns h
    have hlisten : (s.init _poller o p result).1.ListensOn o p.local_ip_ p.target_port_ ↔
        Readable o p.local_ip_ := listensOn_init h
    rw [← hlisten]
    constructor
    · intro hr
      exact ⟨rfl,hr.zero_iff.mp hret⟩
    · rintro ⟨-,hl⟩
      exact ⟨iff_of_true hret hl,fun hne => absurd hret hne⟩

/-- A port that is taken: the handlers are installed, the pool runs, and there is no text. -/
theorem taken_port_unreported :
    let o : Host := ⟨false,fun _ => none,bytes "address already in use"⟩
    let p : ServerInit := ⟨⟨TT_SERVER,[],true,true⟩,10086,inet_ntoa [127,0,0,1]⟩
    let s : TCPServerImp Unit := .fresh ⟨⟨TT_CLIENT,[],false,false⟩,10086,inet_ntoa [127,0,0,1]⟩
    let r := s.init () o p .noSocket
    (∃ what, r.2 = .error what) ∧ r.1.m_recvThreadPool = true ∧ r.1.error_msg_ = [] ∧
      r.1.tcp_server_.map (·.recv_data_func_) = some (some .MyonRecv) ∧ ¬ s.Reports o p r := by
  intro o p s r
  have ht : ∃ what, r.2 = .error what := init_throws rfl
  exact ⟨ht,rfl,rfl,rfl,not_reports_of_throws ht⟩

/-- The server of the whole link, which knows whether a poller listens but not where. -/
structure Forgets (c : Communcation.TCPServerImp P) (s : TCPServerImp P) : Prop where
  is_to_recv_ : c.common.is_to_recv_ = s.is_to_recv_
  is_detach_recv_ : c.common.is_detach_recv_ = s.tcp_init_.is_detach_recv_
  is_ipv4_ : c.common.is_ipv4_ = s.is_ipv4_
  started : c.started = s.m_recvThreadPool
  listening : ∀ server ∈ s.tcp_server_, ∀ q, c.listening q = (server.sockets q).isSome

theorem start_l_forgets {c : P → Bool} {server : TcpServer P} (port : UInt16) (host : Text)
    (h : ∀ q, c q = (server.sockets q).isSome) (q : P) :
    Communcation.TCPServerImp.start_l _poller c result q =
      ((server.start_l _poller o port host result).1.sockets q).isSome := by
  cases result with
  | noSocket => exact h q
  | noEvent =>
    by_cases hq : q = _poller
    · simp [Communcation.TCPServerImp.start_l, TcpServer.start_l, TcpServer.listen, listened, hq]
    · simp [Communcation.TCPServerImp.start_l, TcpServer.start_l, TcpServer.listen, listened, hq, h]
  | listens cs =>
    have hsock : (server.start_l _poller o port host (.listens cs)).1.sockets q =
        if q = _poller then some (boundAddr o port host)
        else if cs q then some (boundAddr o port host) else none := sockets_of_listened rfl q
    rw [hsock]
    by_cases hp : q = _poller
    · simp [Communcation.TCPServerImp.start_l, hp]
    · cases hc : cs q with
      | false => simp [Communcation.TCPServerImp.start_l, hp, hc]
      | true => simp [Communcation.TCPServerImp.start_l, hp, hc]

/-- The link's own `init` is this one without the addresses. -/
theorem Forgets.init {c : Communcation.TCPServerImp P} (h : Forgets c s) :
    Forgets (c.init _poller p.toTCPInit result) (s.init _poller o p result).1 := by
  obtain ⟨server,hs⟩ := s.exists_server
  rw [init_eq hs]
  refine ⟨rfl,rfl,rfl,by rw [← h.started]; rfl,?_⟩
  rintro t ⟨⟩ q
  let t : TcpServer P := { server with
    recv_data_func_ := some .MyonRecv
    tcp_error_func_ := some .MyonError
    _session_alloc := true }
  have hl : ∀ q, c.listening q = (t.sockets q).isSome := h.listening server hs
  exact start_l_forgets p.target_port_ p.local_ip_ hl q

end TCPServerImp

end OctCommu.Communcation.ServerListen
