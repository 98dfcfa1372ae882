import OctCommu.Lib.Runs
import Mathlib.Logic.Function.Basic

/-! # The handlers of a `TcpServer` and of its clones

Every poller but the server's own gets a clone that listens on the same socket.
Who accepts a connection and who serves it are different servers in general.
Callbacks and create-socket functions are opaque values.
-/
namespace OctCommu.Network
open Runs
variable {P C F : Type*}

/-- The functions of one server. -/
structure ServerFuncs (C F : Type*) where
  _on_create_socket : C
  recv_data_func_ : Option F
  tcp_error_func_ : Option F
  tcp_flush_func_ : Option F
  tcp_connect_func_ : Option F
  deriving DecidableEq

/-- What is fixed: the parent's poller and all pollers, the function that stands for an empty
create-socket function, and what a create-socket function holds after it was moved from. -/
structure ServerSetup (P C : Type*) where
  _poller : P
  pool : List P
  createSocketDefault : C
  movedFrom : C → Option C

/-- The parent, its clones, and the connections that are accepted but not served yet, each with the
server it was dispatched to (`none` for the parent). Of every peer socket and session created it is
recorded what it got, and what the parent held. `late` is the create-socket function that was set
since the clones were last given the parent's. -/
structure TcpServer (P C F : Type*) where
  funcs : ServerFuncs C F
  _cloned_server : P → Option (ServerFuncs C F)
  listening : Bool
  dispatched : List (Option P)
  sockets : List (C × C)
  sessions : List (ServerFuncs C F × ServerFuncs C F)
  late : Option C

inductive ServerAct (P C F : Type*) where
  | setOnRecvDataFunc (cb : Option F)
  | setTCPErrorFunc (cb : Option F)
  | setTcpFlushFunc (cb : Option F)
  | setTcpConnectFunc (cb : Option F)
  | setOnCreateSocket (cb : Option C)
  /-- `closes`: whether the old socket was closed before the listening failed. -/
  | start_l (listens closes : Bool)
  /-- The server of poller `q` accepts, the load balancer picks poller `d`. -/
  | onAccept (q d : P)
  | onAcceptConnection (i : ℕ)

namespace ServerFuncs

def setOnCreateSocket (x : ServerSetup P C) (f : ServerFuncs C F) (cb : Option C) :
    ServerFuncs C F :=
  { f with _on_create_socket := cb.getD x.createSocketDefault }

/-- The constructor of a server. -/
def fresh (x : ServerSetup P C) : ServerFuncs C F := ⟨x.createSocketDefault,none,none,none,none⟩

/-- The callbacks are not copied. -/
def cloneFrom (f that : ServerFuncs C F) : ServerFuncs C F :=
  { f with _on_create_socket := that._on_create_socket }

/-- No callback is set. -/
def Silent (f : ServerFuncs C F) : Prop :=
  f.recv_data_func_ = none ∧ f.tcp_error_func_ = none ∧ f.tcp_flush_func_ = none ∧
    f.tcp_connect_func_ = none

end ServerFuncs

namespace TcpServer

def start (x : ServerSetup P C) : TcpServer P C F where
  funcs := .fresh x
  _cloned_server := fun _ => none
  listening := false
  dispatched := []
  sockets := []
  sessions := []
  late := none

/-- The clones are passed the function the parent has just moved from. -/
def setOnCreateSocket (x : ServerSetup P C) (s : TcpServer P C F) (cb : Option C) :
    TcpServer P C F :=
  { s with
    funcs := s.funcs.setOnCreateSocket x cb
    _cloned_server := fun p =>
      (s._cloned_server p).map fun f => f.setOnCreateSocket x (cb.bind x.movedFrom)
    late := cb }

/-- When listening fails an exception is thrown in front of the cloning; a port that cannot be bound
leaves the old socket listening. -/
def start_l [DecidableEq P] (x : ServerSetup P C) (s : TcpServer P C F) (listens closes : Bool) :
    TcpServer P C F :=
  if listens then
    { s with
      listening := true
      _cloned_server := fun p =>
        if p ∈ x.pool ∧ p ≠ x._poller then
          some (((s._cloned_server p).getD (.fresh x)).cloneFrom s.funcs)
        else s._cloned_server p
      late := none }
  else { s with listening := s.listening && !closes }

/-- The server whose listening socket poller `q` watches. -/
def acceptor [DecidableEq P] (x : ServerSetup P C) (s : TcpServer P C F) (q : P) :
    Option (ServerFuncs C F) :=
  if q = x._poller then (if s.listening then some s.funcs else none) else s._cloned_server q

def getServer (s : TcpServer P C F) (d : P) : Option P :=
  if (s._cloned_server d).isSome then some d else none

/-- The functions of a server, given as `getServer` gives it. -/
def server (s : TcpServer P C F) : Option P → Option (ServerFuncs C F)
  | none => some s.funcs
  | some p => s._cloned_server p

def step [DecidableEq P] (x : ServerSetup P C) (s : TcpServer P C F) :
    ServerAct P C F → Option (TcpServer P C F)
  | .setOnRecvDataFunc cb => some { s with funcs := { s.funcs with recv_data_func_ := cb } }
  | .setTCPErrorFunc cb => some { s with funcs := { s.funcs with tcp_error_func_ := cb } }
  | .setTcpFlushFunc cb => some { s with funcs := { s.funcs with tcp_flush_func_ := cb } }
  | .setTcpConnectFunc cb => some { s with funcs := { s.funcs with tcp_connect_func_ := cb } }
  | .setOnCreateSocket cb => some (s.setOnCreateSocket x cb)
  | .start_l listens closes => some (s.start_l x listens closes)
  | .onAccept q d => (s.acceptor x q).map fun f =>
    { s with
      sockets := s.sockets ++ [(f._on_create_socket,s.funcs._on_create_socket)]
      dispatched := s.dispatched ++ [s.getServer d] }
  | .onAcceptConnection i => s.dispatched[i]?.bind fun server => (s.server server).map fun f =>
    { s with
      dispatched := s.dispatched.eraseIdx i
      sessions := s.sessions ++ [(f,s.funcs)] }

/-- Whatever was created got what the parent held at that moment. -/
structure GetsCurrent (s : TcpServer P C F) : Prop where
  sockets : ∀ r ∈ s.sockets, r.1 = r.2
  sessions : ∀ r ∈ s.sessions, r.1 = r.2

/-- The clones hold the parent's create-socket function. -/
def InStep (x : ServerSetup P C) (s : TcpServer P C F) : Prop :=
  ∀ cb, s.late = some cb → (x.movedFrom cb).getD x.createSocketDefault = cb

/-- A clone accepts only while the clones are in step, and serves only while besides the parent has
no callback that it could miss. -/
def ParentServes (x : ServerSetup P C) (s : TcpServer P C F) : ServerAct P C F → Prop
  | .onAccept q _ => q ≠ x._poller → s.InStep x
  | .onAcceptConnection i => ∀ p, s.dispatched[i]? = some (some p) → s.InStep x ∧ s.funcs.Silent
  | _ => True

/-- What is known of a clone: its callbacks are never set, and which create-socket function it got. -/
structure CloneOf (x : ServerSetup P C) (s : TcpServer P C F) (f : ServerFuncs C F) : Prop where
  silent : f.Silent
  create : f._on_create_socket = match s.late with
    | none => s.funcs._on_create_socket
    | some cb => (x.movedFrom cb).getD x.createSocketDefault

structure Inv (x : ServerSetup P C) (s : TcpServer P C F) : Prop where
  current : s.GetsCurrent
  late : ∀ cb, s.late = some cb → s.funcs._on_create_socket = cb
  clones : ∀ p f, s._cloned_server p = some f → s.CloneOf x f
  domain : ∀ p, (s._cloned_server p).isSome → p ∈ x.pool ∧ p ≠ x._poller

theorem inv_start (x : ServerSetup P C) : (start x : TcpServer P C F).Inv x :=
  ⟨⟨by simp [start],by simp [start]⟩,by simp [start],by simp [start],by simp [start]⟩

theorem silent_fresh (x : ServerSetup P C) : (ServerFuncs.fresh x : ServerFuncs C F).Silent :=
  ⟨rfl,rfl,rfl,rfl⟩

theorem CloneOf.create_eq {x : ServerSetup P C} {s : TcpServer P C F} {f : ServerFuncs C F}
    (h : s.CloneOf x f) (hlate : ∀ cb, s.late = some cb → s.funcs._on_create_socket = cb) :
    f._on_create_socket = s.funcs._on_create_socket ↔ s.InStep x := by
  have hc := h.create
  unfold InStep
  cases hl : s.late with
  | none =>
    rw [hl] at hc
    simp [hc]
  | some cb =>
    rw [hl] at hc
    rw [hc, hlate cb hl]
    simp

/-- A clone has the parent's functions just while they are in step and the parent is silent. -/
theorem CloneOf.eq_iff {x : ServerSetup P C} {s : TcpServer P C F} {f : ServerFuncs C F}
    (h : s.CloneOf x f) (hlate : ∀ cb, s.late = some cb → s.funcs._on_create_socket = cb) :
    f = s.funcs ↔ s.InStep x ∧ s.funcs.Silent := by
  constructor
  · intro he
    refine ⟨(h.create_eq hlate).mp (congrArg _ he),?_⟩
    rw [← he]
    exact h.silent
  · rintro ⟨hs,hr,he,hf,hc⟩
    have hcreate := (h.create_eq hlate).mpr hs
    obtain ⟨hr',he',hf',hc'⟩ := h.silent
    cases hx : f
    cases hy : s.funcs
    simp only [hx, hy] at *
    simp [*]

/-- Setters of callbacks change nothing that the clones depend on. -/
theorem Inv.of_callback {x : ServerSetup P C} {s : TcpServer P C F} (hi : s.Inv x)
    {g : ServerFuncs C F} (hg : g._on_create_socket = s.funcs._on_create_socket) :
    Inv x { s with funcs := g } := by
  obtain ⟨hc,hl,hk,hd⟩ := hi
  refine ⟨⟨hc.sockets,hc.sessions⟩,?_,?_,hd⟩
  · intro cb hcb
    exact hg.trans (hl cb hcb)
  · intro p f hf
    obtain ⟨hs,hcreate⟩ := hk p f hf
    refine ⟨hs,?_⟩
    simp only [hg]
    exact hcreate

theorem Inv.setOnCreateSocket {x : ServerSetup P C} {s : TcpServer P C F} (hi : s.Inv x)
    (cb : Option C) : (s.setOnCreateSocket x cb).Inv x := by
  refine ⟨⟨hi.current.sockets,hi.current.sessions⟩,?_,?_,?_⟩
  · intro c hc
    change cb = some c at hc
    simp [TcpServer.setOnCreateSocket, ServerFuncs.setOnCreateSocket, hc]
  · intro p f hf
    obtain ⟨g,hg,rfl⟩ := Option.map_eq_some_iff.mp hf
    refine ⟨(hi.clones p g hg).silent,?_⟩
    cases cb with
    | none => rfl
    | some c => rfl
  · intro p hp
    rw [TcpServer.setOnCreateSocket, Option.isSome_map] at hp
    exact hi.domain p hp

variable [DecidableEq P]

theorem Inv.start_l {x : ServerSetup P C} {s : TcpServer P C F} (hi : s.Inv x) (listens closes : Bool) :
    (s.start_l x listens closes).Inv x := by
  cases listens with
  | false =>
    refine ⟨⟨hi.current.sockets,hi.current.sessions⟩,hi.late,?_,hi.domain⟩
    intro p f hf
    obtain ⟨hs,hc⟩ := hi.clones p f hf
    exact ⟨hs,hc⟩
  | true =>
    refine ⟨⟨hi.current.sockets,hi.current.sessions⟩,by simp [TcpServer.start_l],?_,?_⟩
    · intro p f hf
      simp only [TcpServer.start_l, if_true] at hf
      split at hf
      · cases hf
        refine ⟨?_,rfl⟩
        cases hg : s._cloned_server p with
        | none => exact silent_fresh x
        | some g => exact (hi.clones p g hg).silent
      · rename_i hp
        exact absurd (hi.domain p (Option.isSome_iff_exists.mpr ⟨f,hf⟩)) hp
    · intro p hp
      simp only [TcpServer.start_l, if_true] at hp
      split at hp
      · assumption
      · exact hi.domain p hp

/-- A clone that accepts. -/
theorem acceptor_of_ne {x : ServerSetup P C} {s : TcpServer P C F} {q : P} (h : q ≠ x._poller) :
    s.acceptor x q = s._cloned_server q := by
  rw [acceptor, if_neg h]

theorem step_good {x : ServerSetup P C} {s t : TcpServer P C F} {a : ServerAct P C F}
    (hi : s.Inv x) (hc : s.ParentServes x a) (ht : s.step x a = some t) : t.Inv x := by
  cases a with
  | setOnRecvDataFunc cb =>
    cases ht
    exact hi.of_callback rfl
  | setTCPErrorFunc cb =>
    cases ht
    exact hi.of_callback rfl
  | setTcpFlushFunc cb =>
    cases ht
    exact hi.of_callback rfl
  | setTcpConnectFunc cb =>
    cases ht
    exact hi.of_callback rfl
  | setOnCreateSocket cb =>
    cases ht
    exact hi.setOnCreateSocket cb
  | start_l listens closes =>
    cases ht
    exact hi.start_l listens closes
  | onAccept q d =>
    obtain ⟨f,hf,rfl⟩ := Option.map_eq_some_iff.mp ht
    obtain ⟨⟨hsock,hsess⟩,hl,hk,hd⟩ := hi
    have he : f._on_create_socket = s.funcs._on_create_socket := by
      by_cases hq : q = x._poller
      · simp only [acceptor, if_pos hq, Option.ite_none_right_eq_some, Option.some.injEq] at hf
        rw [← hf.2]
      · rw [acceptor_of_ne hq] at hf
        exact ((hk q f hf).create_eq hl).mpr (hc hq)
    refine ⟨⟨?_,hsess⟩,hl,fun p g hg => ⟨(hk p g hg).silent,(hk p g hg).create⟩,hd⟩
    intro r hr
    rcases List.mem_append.mp hr with hr | hr
    · exact hsock r hr
    · rw [List.mem_singleton.mp hr]
      exact he
  | onAcceptConnection i =>
    obtain ⟨server,hserver,hmap⟩ := Option.bind_eq_some_iff.mp ht
    obtain ⟨f,hf,rfl⟩ := Option.map_eq_some_iff.mp hmap
    obtain ⟨⟨hsock,hsess⟩,hl,hk,hd⟩ := hi
    have he : f = s.funcs := by
      cases server with
      | none => exact (Option.some.inj hf).symm
      | some p => exact ((hk p f hf).eq_iff hl).mpr (hc p hserver)
    refine ⟨⟨hsock,?_⟩,hl,fun p g hg => ⟨(hk p g hg).silent,(hk p g hg).create⟩,hd⟩
    intro r hr
    rcases List.mem_append.mp hr with hr | hr
    · exact hsess r hr
    · rw [List.mem_singleton.mp hr]
      exact he

theorem step_bad {x : ServerSetup P C} {s t : TcpServer P C F} {a : ServerAct P C F}
    (hi : s.Inv x) (ht : s.step x a = some t) (hp : t.GetsCurrent) : s.ParentServes x a := by
  cases a with
  | onAccept q d =>
    intro hq
    obtain ⟨f,hf,rfl⟩ := Option.map_eq_some_iff.mp ht
    rw [acceptor_of_ne hq] at hf
    apply ((hi.clones q f hf).create_eq hi.late).mp
    exact hp.sockets _ (List.mem_append_right _ (List.mem_singleton_self _))
  | onAcceptConnection i =>
    intro p hpos
    obtain ⟨server,hserver,hmap⟩ := Option.bind_eq_some_iff.mp ht
    obtain ⟨f,hf,rfl⟩ := Option.map_eq_some_iff.mp hmap
    cases hserver.symm.trans hpos
    apply ((hi.clones p f hf).eq_iff hi.late).mp
    exact hp.sessions _ (List.mem_append_right _ (List.mem_singleton_self _))
  | setOnRecvDataFunc cb => trivial
  | setTCPErrorFunc cb => trivial
  | setTcpFlushFunc cb => trivial
  | setTcpConnectFunc cb => trivial
  | setOnCreateSocket cb => trivial
  | start_l listens closes => trivial

/-- Every connection gets the parent's current functions just as long as clones are in step when
they accept, and serve a parent without callbacks. -/
theorem parentServes_iff_getsCurrent (x : ServerSetup P C) (as : List (ServerAct P C F)) :
    EveryStep (step x) (ParentServes x) (start x) as ↔
      EveryState (step x) GetsCurrent (start x) as := by
  apply everyStep_iff_everyState (inv_start x)
  · intro s hi
    exact hi.current
  · intro s a t hi hc ht
    exact step_good hi hc ht
  · intro s a t hi ht hp
    exact step_bad hi ht hp

/-- Two pollers: a receive callback is set, and the connection is dispatched to the clone. -/
theorem not_getsCurrent_clone : ¬ EveryState
    (step (⟨false,[false,true],0,fun _ => none⟩ : ServerSetup Bool ℕ)) GetsCurrent
    (start ⟨false,[false,true],0,fun _ => none⟩ : TcpServer Bool ℕ ℕ)
    [.setOnRecvDataFunc (some 1),.start_l true true,.onAccept false true,.onAcceptConnection 0] := by
  intro h
  have hs := (h.last rfl).sessions
  exact absurd (hs (⟨0,none,none,none,none⟩,⟨0,some 1,none,none,none⟩) (by decide)) (by decide)

end TcpServer
end OctCommu.Network
