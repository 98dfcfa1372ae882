import OctCommu.Lib.Runs
import OctCommu.Network.SockUtil
import Mathlib.Data.List.Perm.Basic
import Mathlib.Logic.Function.Basic

/-! # `UdpServer`

A server with its clones and the sessions of its peers, each on the thread of its
poller. Handling a datagram up to its posts is one step: what another thread does
between the look-up of a session and its creation is as if it had come before.
-/
namespace OctCommu.Network
open Runs SockUtil

abbrev PeerIdType := List UInt8

def s_in6_addr_maped : List UInt8 := [0,0,0,0,0,0,0,0,0,0,255,255,0,0,0,0]

/-- `sin_port` as it is loaded. -/
def sin_port (port : UInt16) : ℕ := port.toNat / 256 + 256 * (port.toNat % 256)

def makeSockId : Endpoint → PeerIdType
  | .v4 addr port =>
    [UInt8.ofNat (sin_port port / 256),UInt8.ofNat (sin_port port)] ++ s_in6_addr_maped.take 12 ++
      addr.toList
  | .v6 addr port => [UInt8.ofNat (sin_port port / 256),UInt8.ofNat (sin_port port)] ++ addr.toList

/-- The address as IPv6; one of IPv4 is mapped. -/
def in6_addr : Endpoint → List UInt8
  | .v4 addr _ => s_in6_addr_maped.take 12 ++ addr.toList
  | .v6 addr _ => addr.toList

theorem makeSockId_eq (e : Endpoint) : makeSockId e =
    UInt8.ofNat (sin_port e.port / 256) :: UInt8.ofNat (sin_port e.port) :: in6_addr e := by
  cases e with
  | v4 addr port => rfl
  | v6 addr port => rfl

/-- Two peers share a session when they are one: the same port, and the same address once an IPv4
address is mapped. -/
theorem makeSockId_eq_iff (e f : Endpoint) :
    makeSockId e = makeSockId f ↔ e.port = f.port ∧ in6_addr e = in6_addr f := by
  rw [makeSockId_eq, makeSockId_eq]
  constructor
  · intro h
    obtain ⟨hhigh,h⟩ := List.cons.inj h
    obtain ⟨hlow,hip⟩ := List.cons.inj h
    refine ⟨?_,hip⟩
    have hhigh := congrArg UInt8.toNat hhigh
    have hlow := congrArg UInt8.toNat hlow
    rw [UInt8.toNat_ofNat', UInt8.toNat_ofNat'] at hhigh hlow
    have he := e.port.toNat_lt
    have hf := f.port.toNat_lt
    unfold sin_port at hhigh hlow
    apply UInt16.toNat_inj.mp
    omega
  · rintro ⟨hport,hip⟩
    rw [hport, hip]

structure Datagram where
  source : Endpoint
  payload : List UInt8

/-- The socket of a server or clone, by its poller, or that of a session. -/
inductive UdpFd where
  | server (poller : ℕ)
  | peer (session : ℕ)
  deriving DecidableEq

/-- A call of `Socket::onRead`, which keeps the source of the last datagram on its stack. -/
structure ReadCall where
  number : ℕ
  fd : UdpFd
  addr : Endpoint

/-- The address of `addr` in one of these calls. -/
structure AddrPtr where
  poller : ℕ
  call : ℕ

/-- What goes from hand to hand: a datagram by its number, its bytes, and the pointer. -/
structure UdpPacket where
  number : ℕ
  buf : List UInt8
  addr : AddrPtr

structure UdpSession where
  id : PeerIdType
  poller : ℕ
  alive : Bool

inductive PostTarget where
  | session (k : ℕ)
  | create (poller : ℕ) (id : PeerIdType)

structure PostedPacket where
  target : PostTarget
  packet : UdpPacket

/-- A call of `onRecv`; `addr` is what the pointer showed, if it still pointed to something. -/
structure Delivery where
  number : ℕ
  id : PeerIdType
  buf : List UInt8
  addr : Option Endpoint

structure UdpServer where
  _session_map : PeerIdType → Option ℕ
  sessions : List UdpSession
  calls : ℕ
  reading : ℕ → Option ReadCall
  posted : List PostedPacket
  arrived : List Datagram
  delivered : List Delivery

inductive UdpAct where
  /-- `poller` is that of the socket which `createSocket` makes, if it is asked for one. -/
  | onRead (fd : UdpFd) (d : Datagram) (poller : Option ℕ)
  | readReturns (poller : ℕ)
  | run (n : ℕ)
  /-- The error handler of a session. -/
  | onErr (k : ℕ)
  | destroy (k : ℕ)

namespace UdpServer

def fresh : UdpServer := ⟨fun _ => none,[],0,fun _ => none,[],[],[]⟩

/-- The thread on which a socket is read. -/
def thread (s : UdpServer) : UdpFd → Option ℕ
  | .server poller => some poller
  | .peer k => s.sessions[k]?.map UdpSession.poller

def load (s : UdpServer) (ptr : AddrPtr) : Option Endpoint :=
  match s.reading ptr.poller with
  | some c => if c.number = ptr.call then some c.addr else none
  | none => none

/-- The next `recvfrom`, in the call that reads this socket or in a new one. -/
def recvfrom (s : UdpServer) (p : ℕ) (fd : UdpFd) (d : Datagram) : Option (UdpServer × UdpPacket) :=
  match s.reading p with
  | none => some ({ s with
      reading := Function.update s.reading p (some ⟨s.calls,fd,d.source⟩)
      calls := s.calls + 1
      arrived := s.arrived ++ [d] },⟨s.arrived.length,d.payload,⟨p,s.calls⟩⟩)
  | some c =>
    if c.fd = fd then
      some ({ s with
        reading := Function.update s.reading p (some { c with addr := d.source })
        arrived := s.arrived ++ [d] },⟨s.arrived.length,d.payload,⟨p,c.number⟩⟩)
    else none

def emitSessionRecv (s : UdpServer) (v : UdpSession) (x : UdpPacket) : UdpServer :=
  { s with delivered := s.delivered ++ [⟨x.number,v.id,x.buf,s.load x.addr⟩] }

def async (s : UdpServer) (target : PostTarget) (x : UdpPacket) : UdpServer :=
  { s with posted := s.posted ++ [⟨target,x⟩] }

def session_creator (s : UdpServer) (q : ℕ) (id : PeerIdType) : UdpServer × ℕ :=
  match s._session_map id with
  | some k => (s,k)
  | none => ({ s with
      sessions := s.sessions ++ [⟨id,q,true⟩]
      _session_map := Function.update s._session_map id (some s.sessions.length) },s.sessions.length)

/-- The end of `onRead_l`, with the session that was found or made. -/
def toSession (s : UdpServer) (p k : ℕ) (x : UdpPacket) : UdpServer :=
  match s.sessions[k]? with
  | none => s
  | some v => if v.poller = p then s.emitSessionRecv v x else s.async (.session k) x

def createSession (s : UdpServer) (p : ℕ) (id : PeerIdType) (x : UdpPacket) : Option ℕ → UdpServer
  | none => s
  | some q =>
    if q = p then
      let r := s.session_creator q id
      r.1.toSession p r.2 x
    else s.async (.create q id) x

def onRead_l (s : UdpServer) (p : ℕ) (id : PeerIdType) (x : UdpPacket) (poller : Option ℕ) : UdpServer :=
  match s._session_map id with
  | some k => s.toSession p k x
  | none => s.createSession p id x poller

/-- What is installed with `setOnRead`, on the server's socket and on that of a session. -/
def handler (s : UdpServer) (p : ℕ) (fd : UdpFd) (d : Datagram) (x : UdpPacket) (poller : Option ℕ) :
    UdpServer :=
  match fd with
  | .server _ => s.onRead_l p (makeSockId d.source) x poller
  | .peer k =>
    match s.sessions[k]? with
    | none => s
    | some v =>
      if v.id = makeSockId d.source then
        if v.alive then s.emitSessionRecv v x else s
      -- the id is that of this session
      else s.onRead_l p v.id x poller

/-- A posted task, on its thread. -/
def runPosted (s : UdpServer) (t : PostedPacket) : UdpServer :=
  match t.target with
  | .session k =>
    match s.sessions[k]? with
    | none => s
    | some v => if v.alive then s.emitSessionRecv v t.packet else s
  | .create q id =>
    let r := s.session_creator q id
    match r.1.sessions[r.2]? with
    | none => r.1
    | some v => r.1.emitSessionRecv v t.packet

def targetThread (s : UdpServer) : PostTarget → Option ℕ
  | .session k => s.sessions[k]?.map UdpSession.poller
  | .create q _ => some q

def step (s : UdpServer) : UdpAct → Option UdpServer
  | .onRead fd d poller =>
    (s.thread fd).bind fun p => (s.recvfrom p fd d).map fun r => r.1.handler p fd d r.2 poller
  | .readReturns p =>
    (s.reading p).map fun _ => { s with reading := Function.update s.reading p none }
  | .run n =>
    s.posted[n]?.bind fun t => (s.targetThread t.target).bind fun q =>
      match s.reading q with
      | some _ => none
      | none => some ({ s with posted := s.posted.eraseIdx n }.runPosted t)
  | .onErr k => s.sessions[k]?.map fun v =>
    { s with _session_map := Function.update s._session_map v.id none }
  | .destroy k => s.sessions[k]?.bind fun v =>
    if s._session_map v.id = some k then none
    else some { s with sessions := s.sessions.set k { v with alive := false } }

/-- Each datagram was handed over once at most, to the session of its source, with its bytes and its
source. -/
structure Exact (s : UdpServer) : Prop where
  once : (s.delivered.map Delivery.number).Nodup
  right : ∀ y ∈ s.delivered, ∃ d, s.arrived[y.number]? = some d ∧ y.id = makeSockId d.source ∧
    y.buf = d.payload ∧ y.addr = some d.source

def live (s : UdpServer) : PostTarget → Prop
  | .session k => ∀ v ∈ s.sessions[k]?, v.alive = true
  | .create _ _ => True

/-- What a session's socket reads comes from its peer, and a task that was posted runs while the call
that read its datagram still shows the source of it. -/
def Own (s : UdpServer) : UdpAct → Prop
  | .onRead (.peer k) d _ => ∀ v ∈ s.sessions[k]?, v.id = makeSockId d.source
  | .run n => ∀ t ∈ s.posted[n]?, s.live t.target →
    ∃ d, s.arrived[t.packet.number]? = some d ∧ s.load t.packet.addr = some d.source
  | _ => True

def TargetIs (s : UdpServer) (id : PeerIdType) : PostTarget → Prop
  | .session k => ∃ v, s.sessions[k]? = some v ∧ v.id = id
  | .create _ i => i = id

/-- A packet is that of a datagram and is to go to the session of its source. -/
def Carries (s : UdpServer) (t : PostedPacket) : Prop :=
  ∃ d, s.arrived[t.packet.number]? = some d ∧ t.packet.buf = d.payload ∧
    s.TargetIs (makeSockId d.source) t.target

structure Inv (s : UdpServer) : Prop where
  map : ∀ id k, s._session_map id = some k → ∃ v, s.sessions[k]? = some v ∧ v.id = id
  posted : ∀ t ∈ s.posted, s.Carries t
  right : ∀ y ∈ s.delivered, ∃ d, s.arrived[y.number]? = some d ∧ y.id = makeSockId d.source ∧
    y.buf = d.payload ∧ y.addr = some d.source
  once : (s.delivered.map Delivery.number ++ s.posted.map fun t => t.packet.number).Nodup

/-- The packet in hand is that of `d`, and nobody else has it. -/
structure Ready (s : UdpServer) (x : UdpPacket) (d : Datagram) : Prop where
  arrived : s.arrived[x.number]? = some d
  buf : x.buf = d.payload
  addr : s.load x.addr = some d.source
  fresh : x.number ∉ s.delivered.map Delivery.number ++ s.posted.map fun t => t.packet.number

variable {s : UdpServer} {x : UdpPacket} {d : Datagram}

theorem inv_fresh : fresh.Inv where
  map _ _ h := by cases h
  posted _ h := absurd h List.not_mem_nil
  right _ h := absurd h List.not_mem_nil
  once := List.nodup_nil

theorem Inv.exact (h : s.Inv) : s.Exact :=
  ⟨(List.nodup_append.mp h.once).1,h.right⟩

theorem Inv.emitSessionRecv (h : s.Inv) (hx : s.Ready x d) {v : UdpSession}
    (hv : v.id = makeSockId d.source) : (s.emitSessionRecv v x).Inv where
  map := h.map
  posted := h.posted
  right := by
    intro y hy
    rcases List.mem_append.mp hy with hy | hy
    · exact h.right y hy
    · obtain rfl := List.mem_singleton.mp hy
      exact ⟨d,hx.arrived,hv,hx.buf,hx.addr⟩
  once := by
    simp only [UdpServer.emitSessionRecv, List.map_append, List.map_cons, List.map_nil,
      List.append_assoc, List.singleton_append]
    exact (List.perm_middle.nodup_iff).mpr (List.nodup_cons.mpr ⟨hx.fresh,h.once⟩)

theorem Inv.async (h : s.Inv) (hx : s.Ready x d) {target : PostTarget}
    (ht : s.TargetIs (makeSockId d.source) target) : (s.async target x).Inv where
  map := h.map
  posted := by
    intro t ht'
    rcases List.mem_append.mp ht' with ht' | ht'
    · exact h.posted t ht'
    · obtain rfl := List.mem_singleton.mp ht'
      exact ⟨d,hx.arrived,hx.buf,ht⟩
  right := h.right
  once := by
    simp only [UdpServer.async, List.map_append, List.map_cons, List.map_nil]
    rw [← List.append_assoc]
    exact (List.perm_append_singleton _ _).nodup_iff.mpr (List.nodup_cons.mpr ⟨hx.fresh,h.once⟩)

theorem getElem?_append_of_some {α : Type*} {l : List α} {n : ℕ} {a : α} (h : l[n]? = some a)
    (m : List α) : (l ++ m)[n]? = some a :=
  List.getElem?_append_left (List.getElem?_eq_some_iff.mp h).1 ▸ h

/-- Sessions keep their id. -/
def Extends (s u : UdpServer) : Prop :=
  ∀ (k : ℕ) (v : UdpSession), s.sessions[k]? = some v → ∃ w, u.sessions[k]? = some w ∧ w.id = v.id

theorem TargetIs.mono {u : UdpServer} {id : PeerIdType} {target : PostTarget}
    (h : s.TargetIs id target) (hu : s.Extends u) : u.TargetIs id target := by
  cases target with
  | session k =>
    obtain ⟨v,hv,rfl⟩ := h
    exact hu k v hv
  | create q i => exact h

theorem Carries.mono {u : UdpServer} {t : PostedPacket} (h : s.Carries t) (hu : s.Extends u)
    (ha : ∀ (n : ℕ) (d : Datagram), s.arrived[n]? = some d → u.arrived[n]? = some d) : u.Carries t := by
  obtain ⟨d,hd,hb,htarget⟩ := h
  exact ⟨d,ha _ d hd,hb,htarget.mono hu⟩

theorem extends_of_eq {u : UdpServer} (h : u.sessions = s.sessions) : s.Extends u :=
  fun k v hv => ⟨v,by rw [h]; exact hv,rfl⟩

/-- The session that is found or made has the id; everything else is as it was. -/
theorem session_creator_spec (h : s.Inv) (q : ℕ) (id : PeerIdType) :
    (∃ v, (s.session_creator q id).1.sessions[(s.session_creator q id).2]? = some v ∧ v.id = id) ∧
    (s.session_creator q id).1.Inv ∧
    ∀ x d, s.Ready x d → (s.session_creator q id).1.Ready x d := by
  unfold session_creator
  cases hm : s._session_map id with
  | some k => exact ⟨h.map id k hm,h,fun x d hx => hx⟩
  | none =>
    have hlast : (s.sessions ++ [⟨id,q,true⟩])[s.sessions.length]? = some ⟨id,q,true⟩ :=
      List.getElem?_concat_length
    refine ⟨⟨⟨id,q,true⟩,hlast,rfl⟩,⟨?_,?_,h.right,h.once⟩,
      fun x d hx => ⟨hx.arrived,hx.buf,hx.addr,hx.fresh⟩⟩
    · intro i k hk
      by_cases hi : i = id
      · subst hi
        simp only [Function.update_self] at hk
        cases hk
        exact ⟨_,hlast,rfl⟩
      · simp only [Function.update_of_ne hi] at hk
        obtain ⟨v,hv,hvi⟩ := h.map i k hk
        exact ⟨v,getElem?_append_of_some hv _,hvi⟩
    · intro t ht
      exact Carries.mono (h.posted t ht) (fun k v hv => ⟨v,getElem?_append_of_some hv _,rfl⟩) fun _ _ ha => ha

theorem Inv.toSession (h : s.Inv) (hx : s.Ready x d) (p : ℕ) {k : ℕ} {v : UdpSession}
    (hk : s.sessions[k]? = some v) (hv : v.id = makeSockId d.source) : (s.toSession p k x).Inv := by
  unfold UdpServer.toSession
  simp only [hk]
  split
  · exact h.emitSessionRecv hx hv
  · exact h.async hx ⟨v,hk,hv⟩

theorem Inv.onRead_l (h : s.Inv) (hx : s.Ready x d) (p : ℕ) (poller : Option ℕ) :
    (s.onRead_l p (makeSockId d.source) x poller).Inv := by
  unfold UdpServer.onRead_l
  cases hm : s._session_map (makeSockId d.source) with
  | some k =>
    obtain ⟨v,hk,hv⟩ := h.map _ k hm
    exact h.toSession hx p hk hv
  | none =>
    cases poller with
    | none => exact h
    | some q =>
      simp only [createSession]
      split
      · obtain ⟨⟨v,hk,hv⟩,hinv,hready⟩ := session_creator_spec h q (makeSockId d.source)
        exact hinv.toSession (hready x d hx) p hk hv
      · exact h.async hx rfl

/-- One more datagram arrives. -/
theorem Inv.arrive (h : s.Inv) (calls : ℕ) (reading : ℕ → Option ReadCall) (d : Datagram) :
    Inv { s with calls := calls, reading := reading, arrived := s.arrived ++ [d] } where
  map := h.map
  posted t ht := Carries.mono (h.posted t ht) (extends_of_eq rfl) fun _ _ ha => getElem?_append_of_some ha _
  right y hy := by
    obtain ⟨e,ha,hrest⟩ := h.right y hy
    exact ⟨e,getElem?_append_of_some ha _,hrest⟩
  once := h.once

theorem Inv.number_lt (h : s.Inv) :
    ∀ n ∈ s.delivered.map Delivery.number ++ s.posted.map (fun t => t.packet.number),
      n < s.arrived.length := by
  intro n hn
  rcases List.mem_append.mp hn with hn | hn
  · obtain ⟨y,hy,rfl⟩ := List.mem_map.mp hn
    obtain ⟨e,ha,_⟩ := h.right y hy
    exact (List.getElem?_eq_some_iff.mp ha).1
  · obtain ⟨t,ht,rfl⟩ := List.mem_map.mp hn
    obtain ⟨e,ha,_⟩ := h.posted t ht
    exact (List.getElem?_eq_some_iff.mp ha).1

theorem recvfrom_spec (h : s.Inv) {t : UdpServer} {p : ℕ} {fd : UdpFd}
    (hr : s.recvfrom p fd d = some (t,x)) : t.Inv ∧ t.Ready x d ∧ t.sessions = s.sessions := by
  have hfresh : s.arrived.length ∉
      s.delivered.map Delivery.number ++ s.posted.map fun t => t.packet.number := fun hn =>
    absurd (h.number_lt _ hn) (lt_irrefl _)
  unfold recvfrom at hr
  split at hr
  · cases hr
    refine ⟨h.arrive _ _ d,⟨List.getElem?_concat_length,rfl,?_,hfresh⟩,rfl⟩
    simp [load]
  · split at hr
    · cases hr
      refine ⟨h.arrive _ _ d,⟨List.getElem?_concat_length,rfl,?_,hfresh⟩,rfl⟩
      simp [load]
    · cases hr

theorem Inv.handler (h : s.Inv) (hx : s.Ready x d) (p : ℕ) (fd : UdpFd) (poller : Option ℕ)
    (hown : ∀ k, fd = .peer k → ∀ v ∈ s.sessions[k]?, v.id = makeSockId d.source) :
    (s.handler p fd d x poller).Inv := by
  cases fd with
  | server q => exact h.onRead_l hx p poller
  | peer k =>
    simp only [UdpServer.handler]
    split
    · exact h
    · rename_i v hv
      rw [if_pos (hown k rfl v hv)]
      split
      · exact h.emitSessionRecv hx (hown k rfl v hv)
      · exact h

/-- What is taken out of the posted tasks is in hand again. -/
theorem Inv.take (h : s.Inv) {n : ℕ} {t : PostedPacket} (ht : s.posted[n]? = some t) :
    Inv { s with posted := s.posted.eraseIdx n } ∧
    (∀ e, s.arrived[t.packet.number]? = some e → t.packet.buf = e.payload →
      s.load t.packet.addr = some e.source →
      Ready { s with posted := s.posted.eraseIdx n } t.packet e) := by
  obtain ⟨hn,ht⟩ := List.getElem?_eq_some_iff.mp ht
  have hperm : (t :: s.posted.eraseIdx n).Perm s.posted := by
    rw [← ht]
    exact List.getElem_cons_eraseIdx_perm hn
  have honce : (t.packet.number :: (s.delivered.map Delivery.number ++
      (s.posted.eraseIdx n).map fun t => t.packet.number)).Nodup := by
    rw [← List.perm_middle.nodup_iff]
    exact ((hperm.map fun t => t.packet.number).append_left _).nodup_iff.mpr h.once
  obtain ⟨hfresh,honce⟩ := List.nodup_cons.mp honce
  refine ⟨⟨h.map,?_,h.right,honce⟩,fun e ha hb hl => ⟨ha,hb,hl,hfresh⟩⟩
  intro u hu
  exact h.posted u (hperm.mem_iff.mp (List.mem_cons_of_mem _ hu))

theorem Inv.runPosted (h : s.Inv) {t : PostedPacket} (hx : s.live t.target → s.Ready t.packet d)
    (ht : s.TargetIs (makeSockId d.source) t.target) : (s.runPosted t).Inv := by
  unfold UdpServer.runPosted
  cases hT : t.target with
  | session k =>
    rw [hT] at ht hx
    obtain ⟨v,hk,hv⟩ := ht
    simp only [hk]
    split
    · rename_i ha
      refine h.emitSessionRecv (hx ?_) hv
      intro w hw
      rw [hk] at hw
      cases hw
      exact ha
    · exact h
  | create q id =>
    rw [hT] at ht hx
    obtain rfl : id = makeSockId d.source := ht
    obtain ⟨⟨v,hk,hv⟩,hinv,hready⟩ := session_creator_spec h q (makeSockId d.source)
    simp only [hk]
    exact hinv.emitSessionRecv (hready _ d (hx trivial)) hv

/-- Sessions keep their id when one of them is destroyed. -/
theorem Inv.destroy (h : s.Inv) {k : ℕ} {v : UdpSession} (hk : s.sessions[k]? = some v) :
    Inv { s with sessions := s.sessions.set k { v with alive := false } } := by
  have hkeep : s.Extends { s with sessions := s.sessions.set k { v with alive := false } } := by
    intro j w hw
    by_cases hj : k = j
    · subst hj
      rw [hk] at hw
      cases hw
      exact ⟨{ v with alive := false },
        List.getElem?_set_self (List.getElem?_eq_some_iff.mp hk).1,rfl⟩
    · exact ⟨w,by rwa [List.getElem?_set_ne hj],rfl⟩
  refine ⟨?_,fun t ht => Carries.mono (h.posted t ht) hkeep fun _ _ ha => ha,h.right,h.once⟩
  intro i j hj
  obtain ⟨w,hw,rfl⟩ := h.map i j hj
  exact hkeep j w hw

/-- A change of the map or of the calls that read leaves the tasks as they are. -/
theorem Inv.frame (h : s.Inv) (reading : ℕ → Option ReadCall) {m : PeerIdType → Option ℕ}
    (hm : ∀ id k, m id = some k → s._session_map id = some k) :
    Inv { s with reading := reading, _session_map := m } where
  map id k hk := h.map id k (hm id k hk)
  posted t ht := Carries.mono (h.posted t ht) (extends_of_eq rfl) fun _ _ ha => ha
  right := h.right
  once := h.once

theorem live_of_sessions {u : UdpServer} (h : u.sessions = s.sessions) {target : PostTarget}
    (hl : u.live target) : s.live target := by
  cases target with
  | session k =>
    simp only [live] at hl ⊢
    rwa [h] at hl
  | create q i => trivial

theorem step_inv {t : UdpServer} {a : UdpAct} (hs : s.Inv) (hc : s.Own a) (h : step s a = some t) :
    t.Inv := by
  cases a with
  | onRead fd d poller =>
    obtain ⟨p,hp,h⟩ := Option.bind_eq_some_iff.mp h
    obtain ⟨⟨u,x⟩,hr,rfl⟩ := Option.map_eq_some_iff.mp h
    obtain ⟨hinv,hready,hsess⟩ := recvfrom_spec hs hr
    apply hinv.handler hready
    rintro k rfl v hv
    rw [hsess] at hv
    exact hc v hv
  | readReturns p =>
    obtain ⟨c,_,rfl⟩ := Option.map_eq_some_iff.mp h
    exact hs.frame _ fun _ _ hk => hk
  | run n =>
    obtain ⟨t,ht,h⟩ := Option.bind_eq_some_iff.mp h
    obtain ⟨q,_,h⟩ := Option.bind_eq_some_iff.mp h
    split at h
    · cases h
    · cases h
      obtain ⟨hinv,hready⟩ := hs.take ht
      obtain ⟨e,ha,hb,htarget⟩ := hs.posted t (List.mem_of_getElem? ht)
      apply hinv.runPosted (d := e) _ (htarget.mono (extends_of_eq rfl))
      intro hlive
      obtain ⟨e',ha',hl⟩ := hc t ht (live_of_sessions rfl hlive)
      rw [ha] at ha'
      cases ha'
      exact hready e ha hb hl
  | onErr k =>
    obtain ⟨v,_,rfl⟩ := Option.map_eq_some_iff.mp h
    apply hs.frame s.reading
    intro id j hj
    by_cases hid : id = v.id
    · subst hid
      simp at hj
    · simpa [Function.update_of_ne hid] using hj
  | destroy k =>
    obtain ⟨v,hv,h⟩ := Option.bind_eq_some_iff.mp h
    split at h
    · cases h
    · cases h
      exact hs.destroy hv

/-- Dispatch is exact in every run in which no socket of a session reads the datagram of another peer
and no address is read after its time. -/
theorem everyState_exact {acts : List UdpAct} (h : EveryStep step Own fresh acts) :
    EveryState step Exact fresh acts :=
  (h.preserves (fun _ _ _ hs hc ht => step_inv hs hc ht) inv_fresh).mono fun _ hs => hs.exact

/-- The socket of the session is made on another poller, whose task runs while the first still reads. -/
theorem everyState_exact_posted : EveryState step Exact fresh
    [.onRead (.server 0) ⟨.v4 #v[10,0,0,1] 5000,[1,2]⟩ (some 1),.run 0] := by
  apply everyState_exact
  intro s hs
  refine ⟨trivial,?_⟩
  obtain rfl := Option.some.inj hs
  intro t _
  refine ⟨?_,trivial⟩
  intro x hx _
  obtain rfl := Option.some.inj hx
  exact ⟨_,rfl,rfl⟩

/-- The session's socket reads the datagram of another peer, and the session is given it; or the call
that read a datagram has returned when the posted task looks for its source. -/
theorem dispatch_fails :
    (∃ s, exec step fresh [.onRead (.server 0) ⟨.v4 #v[10,0,0,1] 5000,[1]⟩ (some 0),.readReturns 0,
        .onRead (.peer 0) ⟨.v4 #v[10,0,0,2] 5000,[2]⟩ none] = some s ∧
      s.delivered = [⟨0,makeSockId (.v4 #v[10,0,0,1] 5000),[1],some (.v4 #v[10,0,0,1] 5000)⟩,
        ⟨1,makeSockId (.v4 #v[10,0,0,1] 5000),[2],some (.v4 #v[10,0,0,2] 5000)⟩] ∧ ¬ s.Exact) ∧
    (∃ s, exec step fresh [.onRead (.server 0) ⟨.v4 #v[10,0,0,1] 5000,[1]⟩ (some 1),.readReturns 0,
        .run 0] = some s ∧
      s.delivered = [⟨0,makeSockId (.v4 #v[10,0,0,1] 5000),[1],none⟩] ∧ ¬ s.Exact) := by
  constructor
  · refine ⟨_,rfl,rfl,?_⟩
    intro h
    obtain ⟨d,hd,hid,_⟩ := h.right _ (List.mem_cons_of_mem _ List.mem_cons_self)
    obtain rfl := Option.some.inj hd
    exact absurd hid (by decide)
  · refine ⟨_,rfl,rfl,?_⟩
    intro h
    obtain ⟨d,_,_,_,haddr⟩ := h.right _ List.mem_cons_self
    cases haddr

end UdpServer
end OctCommu.Network
