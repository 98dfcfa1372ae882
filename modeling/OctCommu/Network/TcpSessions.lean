import OctCommu.Lib.Decimal
import OctCommu.Lib.Runs
import OctCommu.Network.SockUtil
import Mathlib.Data.List.Perm.Basic
import Mathlib.Logic.Function.Basic

/-! # The sessions of the `TcpServer`s

A server and its clones, each on its poller, and the `SessionMap` they share. What
happens between two calls of the loop of `onManagerSession` comes from the call in
front. Only its `SessionHelper` holds a session, and only the session holds its socket.
-/
namespace OctCommu.Network
open Runs SockUtil
variable {P : Type*}

/-- `to_string` of the number of a file descriptor. -/
def fdText : ℤ → Text
  | .ofNat n => Decimal.toText n
  | .negSucc n => 45 :: Decimal.toText (n + 1)

structure TcpSession (P : Type*) where
  server : P
  _id : Text
  /-- whether the error of its socket has been reported -/
  errored : Bool
  /-- how often `onError` was called -/
  onError : ℕ

/-- Where a server is in `onManagerSession`; `round` is the map it found. -/
inductive Managing where
  | idle
  | on (round called rest : List ℕ)

structure TcpServers (P : Type*) where
  /-- all sessions that were made, numbered -/
  sessions : List (TcpSession P)
  s_session_index : ℕ
  _map_session : Text → Option ℕ
  _session_map : P → List ℕ
  _is_on_manager : P → Managing
  /-- what the handlers have posted to the poller -/
  erasing : P → List ℕ
  alive : P → Bool

inductive SessionAct (P : Type*) where
  | onAcceptConnection (p : P) (fd : ℤ)
  /-- the order in which the map is walked -/
  | onManagerSession (p : P) (order : List ℕ)
  | onManager (p : P)
  /-- something that is no `std::exception` is thrown -/
  | escape (p : P)
  | onErr (i : ℕ)
  | erase (p : P)
  /-- the last pointer to a server goes. The sockets of `failing` report an error meanwhile: the callback
  of one drops the pointer, or one is closed in a callback that the destructor makes -/
  | destroy (p : P) (failing : List ℕ)

namespace TcpServers

def fresh : TcpServers P := ⟨[],0,fun _ => none,fun _ => [],fun _ => .idle,fun _ => [],fun _ => true⟩

variable [DecidableEq P]

def getIdentifier (s : TcpServers P) (fd : ℤ) : Text :=
  Decimal.toText ((s.s_session_index + 1) % 18446744073709551616) ++ 45 :: fdText fd

def onAcceptConnection (s : TcpServers P) (p : P) (fd : ℤ) : TcpServers P :=
  let id := s.getIdentifier fd
  { s with
    sessions := s.sessions ++ [⟨p,id,false,0⟩]
    s_session_index := (s.s_session_index + 1) % 18446744073709551616
    _map_session := if (s._map_session id).isSome then s._map_session
      else Function.update s._map_session id (some s.sessions.length)
    _session_map := Function.update s._session_map p (s._session_map p ++ [s.sessions.length]) }

/-- The destructor of a helper; a server that is gone cannot be locked. -/
def destroyHelper (s : TcpServers P) (i : ℕ) : TcpServers P :=
  match s.sessions[i]? with
  | none => s
  | some x => { s with
      sessions := if s.alive x.server then s.sessions
        else s.sessions.set i { x with onError := x.onError + 1 }
      _map_session := Function.update s._map_session x._id none }

def eraseSession (s : TcpServers P) (p : P) (i : ℕ) : TcpServers P :=
  if i ∈ s._session_map p then
    destroyHelper { s with
      _session_map := Function.update s._session_map p ((s._session_map p).erase i) } i
  else s

/-- The handler of a session's socket. -/
def onErr (s : TcpServers P) (i : ℕ) (x : TcpSession P) : TcpServers P :=
  let s := { s with sessions := s.sessions.set i { x with errored := true, onError := x.onError + 1 } }
  match s._is_on_manager x.server with
  | .idle => s.eraseSession x.server i
  | .on _ _ _ => { s with erasing := Function.update s.erasing x.server (s.erasing x.server ++ [i]) }

/-- The handler of a session's socket under which the server goes: it is told, and not erased any more. -/
def tell (s : TcpServers P) (i : ℕ) : TcpServers P :=
  { s with sessions := s.sessions.modify i fun x => { x with errored := true, onError := x.onError + 1 } }

def destroy (s : TcpServers P) (p : P) : TcpServers P :=
  (s._session_map p).foldl destroyHelper { s with
    alive := Function.update s.alive p false
    _session_map := Function.update s._session_map p [] }

def manage (s : TcpServers P) (p : P) (m : Managing) : TcpServers P :=
  { s with _is_on_manager := Function.update s._is_on_manager p m }

def step (s : TcpServers P) : SessionAct P → Option (TcpServers P)
  | .onAcceptConnection p fd =>
    match s._is_on_manager p with
    | .idle => if s.alive p then some (s.onAcceptConnection p fd) else none
    | .on _ _ _ => none
  | .onManagerSession p order =>
    match s._is_on_manager p with
    | .idle => if s.alive p ∧ order.isPerm (s._session_map p) then some (s.manage p (.on order [] order))
      else none
    | .on _ _ _ => none
  | .onManager p =>
    match s._is_on_manager p with
    | .on round called (i :: rest) => some (s.manage p (.on round (called ++ [i]) rest))
    | .on _ _ [] => some (s.manage p .idle)
    | .idle => none
  | .escape p =>
    match s._is_on_manager p with
    | .on _ _ _ => some (s.manage p .idle)
    | .idle => none
  | .onErr i => s.sessions[i]?.bind fun x =>
      if i ∈ s._session_map x.server then some (s.onErr i x) else none
  | .erase p =>
    match s._is_on_manager p, s.erasing p with
    | .idle, i :: rest =>
      let s := { s with erasing := Function.update s.erasing p rest }
      some (if s.alive p then s.eraseSession p i else s)
    | _, _ => none
  | .destroy p failing =>
    match s._is_on_manager p with
    | .idle =>
      if s.alive p ∧ ∀ i ∈ failing, i ∈ s._session_map p then some ((failing.foldl tell s).destroy p)
      else none
    | .on _ _ _ => none

/-- While the removal of a session is posted its server stays and its socket reports no second error, as
two threads in `emitErr` can make it; no socket reports one while its server goes. -/
def Settled (s : TcpServers P) : SessionAct P → Prop
  | .destroy p failing => s.erasing p = [] ∧ failing = []
  | .onErr i => ∀ x, s.sessions[i]? = some x → i ∉ s.erasing x.server
  | _ => True

/-- A session is told of one error, and of one when it is gone. -/
def ToldOnce (l : List (TcpSession P)) (maps : P → List ℕ) : Prop :=
  ∀ (i : ℕ) (x : TcpSession P), l[i]? = some x →
    x.onError = if i ∈ maps x.server then (if x.errored then 1 else 0) else 1

/-- `SessionMap::get` finds the sessions that are in the map of a server, and no others. -/
def Found (l : List (TcpSession P)) (maps : P → List ℕ) (map : Text → Option ℕ) : Prop :=
  l.length < 18446744073709551616 → ∀ (i : ℕ) (x : TcpSession P), l[i]? = some x →
    (map x._id = some i ↔ i ∈ maps x.server)

structure Sound (s : TcpServers P) : Prop where
  once : ToldOnce s.sessions s._session_map
  /-- the map is not changed while it is walked, and no session of it is left out -/
  walk : ∀ p round called rest, s._is_on_manager p = .on round called rest →
    round.Perm (s._session_map p) ∧ round = called ++ rest
  named : Found s.sessions s._session_map s._map_session

/-- Each session in the map of a server was made for it, and a server that is gone has none. -/
structure Housed (l : List (TcpSession P)) (maps : P → List ℕ) (alive : P → Bool) : Prop where
  valid : ∀ p, ∀ i ∈ maps p, ∃ x, l[i]? = some x ∧ x.server = p
  nodup : ∀ p, (maps p).Nodup
  dead : ∀ p, alive p = false → maps p = []

/-- The sessions whose removal is posted are those in the map that have failed. -/
structure Posted (l : List (TcpSession P)) (maps : P → List ℕ) (alive : P → Bool)
    (erasing : P → List ℕ) : Prop where
  failed : ∀ p, alive p = true → ∀ (i : ℕ) (x : TcpSession P), l[i]? = some x →
    (i ∈ erasing p ↔ i ∈ maps p ∧ x.errored = true)
  made : ∀ p, ∀ i ∈ erasing p, i < l.length
  nodup : ∀ p, (erasing p).Nodup

/-- An identifier begins with the number of its session. -/
structure Tagged (l : List (TcpSession P)) (index : ℕ) (map : Text → Option ℕ) : Prop where
  index : index = l.length % 18446744073709551616
  ids : ∀ (i : ℕ) (x : TcpSession P), l[i]? = some x →
    ∃ fd, x._id = Decimal.toText ((i + 1) % 18446744073709551616) ++ 45 :: fdText fd
  tags : ∀ id i, map id = some i → ∃ x, l[i]? = some x ∧ x._id = id

structure Inv (s : TcpServers P) : Prop extends Sound s where
  housed : Housed s.sessions s._session_map s.alive
  posted : Posted s.sessions s._session_map s.alive s.erasing
  tagged : Tagged s.sessions s.s_session_index s._map_session

variable {s t : TcpServers P} {p q : P} {i j : ℕ} {x y : TcpSession P}
variable {l l' : List (TcpSession P)} {maps : P → List ℕ} {alive : P → Bool} {erasing : P → List ℕ}
variable {index : ℕ} {map : Text → Option ℕ}

omit [DecidableEq P] in
theorem inv_fresh : (fresh : TcpServers P).Inv where
  once _ _ h := by simp [fresh] at h
  walk _ _ _ _ h := by cases h
  named _ _ _ h := by simp [fresh] at h
  housed := ⟨fun _ _ h => absurd h List.not_mem_nil,fun _ => List.nodup_nil,fun _ h => by cases h⟩
  posted := ⟨fun _ _ _ _ h => by simp [fresh] at h,fun _ _ h => absurd h List.not_mem_nil,
    fun _ => List.nodup_nil⟩
  tagged := ⟨rfl,fun _ _ h => by simp [fresh] at h,fun _ _ h => by cases h⟩

omit [DecidableEq P] in
/-- Identifiers are those of one session each. -/
theorem Tagged.id_ne (h : Tagged l index map) (hlen : l.length < 18446744073709551616)
    (hx : l[i]? = some x) (hy : l[j]? = some y) (hne : i ≠ j) : x._id ≠ y._id := by
  intro hid
  have hi := (List.getElem?_eq_some_iff.mp hx).1
  have hj := (List.getElem?_eq_some_iff.mp hy).1
  obtain ⟨fd,hfd⟩ := h.ids i x hx
  obtain ⟨fd',hfd'⟩ := h.ids j y hy
  rw [hfd, hfd'] at hid
  have hindex := Decimal.toText_append_inj (by rintro ⟨hlow,_⟩; exact absurd hlow (by decide)) hid
  omega

omit [DecidableEq P] in
theorem Housed.server_eq (h : Housed l maps alive) (hi : i ∈ maps p) (hx : l[i]? = some x) :
    x.server = p := by
  obtain ⟨y,hy,hserver⟩ := h.valid p i hi
  rw [hx] at hy
  rwa [Option.some.inj hy]

omit [DecidableEq P] in
theorem Housed.lives (h : Housed l maps alive) (hi : i ∈ maps p) : alive p = true := by
  by_contra hdead
  rw [h.dead p (by simpa using hdead)] at hi
  cases hi

/-! ### Sessions that keep their server and their name -/

def Alike (l l' : List (TcpSession P)) : Prop :=
  l'.map (fun x => (x.server,x._id)) = l.map fun x => (x.server,x._id)

omit [DecidableEq P] in
theorem Alike.symm (h : Alike l l') : Alike l' l := Eq.symm h

omit [DecidableEq P] in
theorem Alike.length (h : Alike l l') : l'.length = l.length := by
  simpa using congrArg List.length h

omit [DecidableEq P] in
theorem Alike.get (h : Alike l l') (hy : l'[j]? = some y) :
    ∃ x, l[j]? = some x ∧ x.server = y.server ∧ x._id = y._id := by
  have hj := congrArg (·[j]?) h
  simp only [List.getElem?_map, hy, Option.map_some] at hj
  obtain ⟨x,hx,heq⟩ := Option.map_eq_some_iff.mp hj.symm
  exact ⟨x,hx,(Prod.ext_iff.mp heq).1,(Prod.ext_iff.mp heq).2⟩

omit [DecidableEq P] in
theorem Alike.housed (h : Alike l l') (hh : Housed l maps alive) : Housed l' maps alive := by
  refine ⟨?_,hh.nodup,hh.dead⟩
  intro p i hi
  obtain ⟨x,hx,hserver⟩ := hh.valid p i hi
  obtain ⟨y,hy,hys,_⟩ := h.symm.get hx
  exact ⟨y,hy,hys.trans hserver⟩

omit [DecidableEq P] in
theorem Alike.tagged (h : Alike l l') (ht : Tagged l index map) : Tagged l' index map := by
  refine ⟨by rw [h.length]; exact ht.index,?_,?_⟩
  · intro i y hy
    obtain ⟨x,hx,_,hid⟩ := h.get hy
    rw [← hid]
    exact ht.ids i x hx
  · intro id i hi
    obtain ⟨x,hx,hid⟩ := ht.tags id i hi
    obtain ⟨y,hy,_,hyid⟩ := h.symm.get hx
    exact ⟨y,hy,hyid.trans hid⟩

omit [DecidableEq P] in
theorem Alike.found (h : Alike l l') (hf : Found l maps map) : Found l' maps map := by
  intro hlen i y hy
  obtain ⟨x,hx,hserver,hid⟩ := h.get hy
  rw [← hserver, ← hid]
  exact hf (by rw [← h.length]; exact hlen) i x hx

/-! ### A session is made -/

omit [DecidableEq P] in
theorem concat_cases (hy : (l ++ [x])[j]? = some y) : l[j]? = some y ∨ j = l.length ∧ y = x := by
  rw [List.getElem?_append] at hy
  split at hy
  · exact Or.inl hy
  · obtain ⟨hj,hy⟩ := List.getElem?_eq_some_iff.mp hy
    rw [List.length_singleton] at hj
    have hj : j = l.length := by omega
    subst hj
    simp only [Nat.sub_self, List.getElem_cons_zero] at hy
    exact Or.inr ⟨rfl,hy.symm⟩

omit [DecidableEq P] in
theorem concat_of_get (hy : l[j]? = some y) : (l ++ [x])[j]? = some y := by
  rw [List.getElem?_append_left (List.getElem?_eq_some_iff.mp hy).1]
  exact hy

/-- The map of `p` gets the next session. -/
def house (maps : P → List ℕ) (p : P) (i : ℕ) : P → List ℕ := Function.update maps p (maps p ++ [i])

theorem mem_house : j ∈ house maps p i q ↔ j ∈ maps q ∨ q = p ∧ j = i := by
  rw [house, Function.update_apply]
  split
  · rename_i hq
    subst hq
    simp
  · rename_i hq
    simp [hq]

theorem mem_house_of_get (hy : l[j]? = some y) : j ∈ house maps p l.length q ↔ j ∈ maps q :=
  mem_house.trans (or_iff_left fun hc => absurd hc.2 (List.getElem?_eq_some_iff.mp hy).1.ne)

theorem Housed.concat (h : Housed l maps alive) (halive : alive x.server = true) :
    Housed (l ++ [x]) (house maps x.server l.length) alive := by
  refine ⟨?_,?_,?_⟩
  · intro q j hj
    rcases mem_house.mp hj with hj | ⟨rfl,rfl⟩
    · obtain ⟨y,hy,hserver⟩ := h.valid q j hj
      exact ⟨y,concat_of_get hy,hserver⟩
    · exact ⟨x,List.getElem?_concat_length,rfl⟩
  · intro q
    rw [house, Function.update_apply]
    split
    · refine List.nodup_append.mpr ⟨h.nodup _,List.pairwise_singleton _ _,?_⟩
      rintro j hj k hk rfl
      obtain rfl := List.mem_singleton.mp hk
      obtain ⟨y,hy,_⟩ := h.valid _ _ hj
      exact absurd (List.getElem?_eq_some_iff.mp hy).1 (Nat.lt_irrefl _)
    · exact h.nodup q
  · intro q hq
    rw [house, Function.update_of_ne]
    · exact h.dead q hq
    · rintro rfl
      rw [halive] at hq
      cases hq

theorem Posted.concat (h : Posted l maps alive erasing) (herr : x.errored = false) :
    Posted (l ++ [x]) (house maps x.server l.length) alive erasing := by
  refine ⟨?_,?_,h.nodup⟩
  · intro q hq j y hy
    rcases concat_cases hy with hy | ⟨rfl,rfl⟩
    · rw [mem_house_of_get hy]
      exact h.failed q hq j y hy
    · refine iff_of_false (fun hin => ?_) fun hc => ?_
      · exact absurd (h.made q _ hin) (Nat.lt_irrefl _)
      · rw [herr] at hc
        cases hc.2
  · intro q j hj
    have hlt := h.made q j hj
    rw [List.length_append, List.length_singleton]
    omega

theorem ToldOnce.concat (h : ToldOnce l maps) (herr : x.errored = false) (hzero : x.onError = 0) :
    ToldOnce (l ++ [x]) (house maps x.server l.length) := by
  intro j y hy
  rcases concat_cases hy with hy | ⟨rfl,rfl⟩
  · rw [h j y hy]
    simp only [mem_house_of_get hy]
  · rw [if_pos (mem_house.mpr (Or.inr ⟨rfl,rfl⟩)), herr, hzero]
    rfl

omit [DecidableEq P] in
/-- The number of the next session is in no identifier so far. -/
theorem Tagged.ids_ne (h : Tagged l index map) (hlen : l.length + 1 < 18446744073709551616) (fd : ℤ)
    (hy : l[j]? = some y) : y._id ≠ Decimal.toText ((index + 1) % 18446744073709551616) ++ 45 :: fdText fd := by
  intro hid
  obtain ⟨fd',hfd⟩ := h.ids j y hy
  have hlt := (List.getElem?_eq_some_iff.mp hy).1
  rw [hfd, h.index] at hid
  have heq := Decimal.toText_append_inj (by rintro ⟨hlow,_⟩; exact absurd hlow (by decide)) hid
  omega

/-- `emplace` leaves an entry that is there. -/
def record (map : Text → Option ℕ) (id : Text) (i : ℕ) : Text → Option ℕ :=
  if (map id).isSome then map else Function.update map id (some i)

omit [DecidableEq P] in
theorem Tagged.concat (h : Tagged l index map) {fd : ℤ}
    (hid : x._id = Decimal.toText ((index + 1) % 18446744073709551616) ++ 45 :: fdText fd) :
    Tagged (l ++ [x]) ((index + 1) % 18446744073709551616) (record map x._id l.length) := by
  have hindex : (index + 1) % 18446744073709551616 = (l.length + 1) % 18446744073709551616 := by
    rw [h.index]
    omega
  refine ⟨by rw [List.length_append, List.length_singleton]; exact hindex,?_,?_⟩
  · intro j y hy
    rcases concat_cases hy with hy | ⟨rfl,rfl⟩
    · exact h.ids j y hy
    · exact ⟨fd,by rw [hid, hindex]⟩
  · intro id j hj
    have hold : map id = some j → ∃ y, (l ++ [x])[j]? = some y ∧ y._id = id := by
      intro hj
      obtain ⟨y,hy,hyid⟩ := h.tags id j hj
      exact ⟨y,concat_of_get hy,hyid⟩
    unfold record at hj
    split at hj
    · exact hold hj
    · rw [Function.update_apply] at hj
      split at hj
      · rename_i hxid
        obtain rfl := Option.some.inj hj
        exact ⟨x,List.getElem?_concat_length,hxid.symm⟩
      · exact hold hj

theorem Found.concat (h : Found l maps map) (ht : Tagged l index map) {fd : ℤ}
    (hid : x._id = Decimal.toText ((index + 1) % 18446744073709551616) ++ 45 :: fdText fd) :
    Found (l ++ [x]) (house maps x.server l.length) (record map x._id l.length) := by
  intro hlen j y hy
  rw [List.length_append, List.length_singleton] at hlen
  have hnone : map x._id = none := by
    cases hm : map x._id with
    | none => rfl
    | some k =>
      obtain ⟨z,hz,hzid⟩ := ht.tags _ k hm
      exact absurd (hzid.trans hid) (ht.ids_ne hlen fd hz)
  rw [record, hnone, Option.isSome_none, if_neg Bool.false_ne_true, Function.update_apply]
  rcases concat_cases hy with hy | ⟨rfl,rfl⟩
  · rw [if_neg (by rw [hid]; exact ht.ids_ne hlen fd hy), mem_house_of_get hy]
    exact h (by omega) j y hy
  · rw [if_pos rfl]
    exact iff_of_true rfl (mem_house.mpr (Or.inr ⟨rfl,rfl⟩))

theorem Inv.onAcceptConnection (h : s.Inv) (halive : s.alive p = true) (hidle : s._is_on_manager p = .idle)
    (fd : ℤ) : (s.onAcceptConnection p fd).Inv where
  once := h.once.concat (x := ⟨p,s.getIdentifier fd,false,0⟩) rfl rfl
  walk := by
    intro q round called rest hq
    have hqp : q ≠ p := by
      rintro rfl
      change s._is_on_manager q = _ at hq
      rw [hidle] at hq
      cases hq
    change _ ∧ _
    rw [show (s.onAcceptConnection p fd)._session_map q = s._session_map q from Function.update_of_ne hqp _ _]
    exact h.walk q round called rest hq
  named := h.named.concat (x := ⟨p,s.getIdentifier fd,false,0⟩) h.tagged rfl
  housed := h.housed.concat (x := ⟨p,s.getIdentifier fd,false,0⟩) halive
  posted := h.posted.concat (x := ⟨p,s.getIdentifier fd,false,0⟩) rfl
  tagged := h.tagged.concat (x := ⟨p,s.getIdentifier fd,false,0⟩) rfl

/-! ### Sessions go -/

/-- The sessions `gone` leave the map of their server; each of them has been told of one error then. -/
structure Removes (s t : TcpServers P) (gone : List ℕ) : Prop where
  sessions : ∀ j : ℕ, t.sessions[j]? = s.sessions[j]?.map fun x => if j ∈ gone then { x with onError := 1 } else x
  member : ∀ p j, j ∈ t._session_map p ↔ j ∈ s._session_map p ∧ j ∉ gone
  sublist : ∀ p, (t._session_map p).Sublist (s._session_map p)
  forgets : ∀ id k, t._map_session id = some k ↔
    s._map_session id = some k ∧ ∀ i ∈ gone, ∀ x, s.sessions[i]? = some x → x._id ≠ id
  index : t.s_session_index = s.s_session_index
  dead : ∀ p, t.alive p = false → s.alive p = false ∨ t._session_map p = []
  posted : ∀ p, t.alive p = true → s.alive p = true ∧ ∀ j, j ∈ t.erasing p ↔ j ∈ s.erasing p ∧ j ∉ gone
  rest : ∀ p, (t.erasing p).Sublist (s.erasing p)
  manager : t._is_on_manager = s._is_on_manager
  walked : ∀ p, s._is_on_manager p ≠ .idle → t._session_map p = s._session_map p

variable {gone : List ℕ}

omit [DecidableEq P] in
theorem Removes.get (h : Removes s t gone) (hy : t.sessions[j]? = some y) :
    ∃ x, s.sessions[j]? = some x ∧ y = if j ∈ gone then { x with onError := 1 } else x := by
  rw [h.sessions, Option.map_eq_some_iff] at hy
  obtain ⟨x,hx,rfl⟩ := hy
  exact ⟨x,hx,rfl⟩

omit [DecidableEq P] in
theorem Removes.alike (h : Removes s t gone) : Alike s.sessions t.sessions := by
  apply List.ext_getElem?
  intro j
  rw [List.getElem?_map, List.getElem?_map, h.sessions, Option.map_map]
  congr 1
  funext x
  simp only [Function.comp_apply]
  split <;> rfl

omit [DecidableEq P] in
theorem Removes.housed (h : Removes s t gone) (hs : s.Inv) : Housed t.sessions t._session_map t.alive := by
  refine h.alike.housed ⟨?_,fun p => (hs.housed.nodup p).sublist (h.sublist p),?_⟩
  · exact fun p i hi => hs.housed.valid p i ((h.member p i).mp hi).1
  · intro p hp
    rcases h.dead p hp with hdead | hnil
    · have hsub := h.sublist p
      rw [hs.housed.dead p hdead] at hsub
      exact List.sublist_nil.mp hsub
    · exact hnil

omit [DecidableEq P] in
theorem Removes.told (h : Removes s t gone) (hs : s.Inv) : ToldOnce t.sessions t._session_map := by
  intro j y hy
  obtain ⟨x,hx,rfl⟩ := h.get hy
  by_cases hj : j ∈ gone
  · rw [if_pos hj]
    simp only [h.member, hj, not_true_eq_false, and_false, if_false]
  · rw [if_neg hj, hs.once j x hx]
    simp only [h.member, hj, not_false_eq_true, and_true]

omit [DecidableEq P] in
theorem Removes.found (h : Removes s t gone) (hs : s.Inv) : Found t.sessions t._session_map t._map_session := by
  intro hlen j y hy
  rw [h.alike.length] at hlen
  obtain ⟨x,hx,hserver,hid⟩ := h.alike.get hy
  rw [← hserver, ← hid, h.member, h.forgets, hs.named hlen j x hx]
  refine and_congr_right fun _ => ⟨fun hall hj => hall j hj x hx rfl,?_⟩
  rintro hj i hi z hz hzid
  refine hs.tagged.id_ne hlen hz hx ?_ hzid
  rintro rfl
  exact hj hi

omit [DecidableEq P] in
theorem Removes.failed (h : Removes s t gone) (hs : s.Inv) :
    Posted t.sessions t._session_map t.alive t.erasing := by
  refine ⟨?_,?_,fun p => (hs.posted.nodup p).sublist (h.rest p)⟩
  · intro p hp j y hy
    obtain ⟨x,hx,rfl⟩ := h.get hy
    obtain ⟨halive,hposted⟩ := h.posted p hp
    rw [hposted, h.member, hs.posted.failed p halive j x hx]
    by_cases hj : j ∈ gone <;> simp [hj]
  · intro p j hj
    rw [h.alike.length]
    exact hs.posted.made p j ((h.rest p).subset hj)

omit [DecidableEq P] in
theorem Removes.inv (gone : List ℕ) (h : Removes s t gone) (hs : s.Inv) : t.Inv where
  once := h.told hs
  walk := by
    intro p round called rest hp
    rw [h.manager] at hp
    rw [h.walked p (by rw [hp]; exact fun hc => by cases hc)]
    exact hs.walk p round called rest hp
  named := h.found hs
  housed := h.housed hs
  posted := h.failed hs
  tagged := by
    obtain ⟨_,hids,htags⟩ := h.alike.tagged hs.tagged
    refine ⟨by rw [h.index, h.alike.length]; exact hs.tagged.index,hids,?_⟩
    exact fun id k hk => htags id k ((h.forgets id k).mp hk).1

omit [DecidableEq P] in
theorem set_onError_self (hx : s.sessions[i]? = some x) (hone : x.onError = 1) (j : ℕ) :
    s.sessions[j]? = s.sessions[j]?.map fun x => if j ∈ [i] then { x with onError := 1 } else x := by
  by_cases hj : j = i
  · subst hj
    rw [hx, Option.map_some, if_pos (List.mem_singleton.mpr rfl), ← hone]
  · simp [hj]

/-- A session of the map that has failed leaves it. -/
theorem Inv.eraseSession (h : s.Inv) (halive : s.alive p = true) (hidle : s._is_on_manager p = .idle)
    (hmem : i ∈ s._session_map p) (hx : s.sessions[i]? = some x) (herr : x.errored = true)
    (rest : List ℕ) (hsub : rest.Sublist (s.erasing p)) (hrest : ∀ j, j ∈ rest ↔ j ∈ s.erasing p ∧ j ≠ i) :
    (TcpServers.eraseSession { s with erasing := Function.update s.erasing p rest } p i).Inv := by
  have hserver := h.housed.server_eq hmem hx
  have hone : x.onError = 1 := by
    rw [h.once i x hx, hserver, if_pos hmem, if_pos herr]
  have hother : ∀ {q j}, q ≠ p → j ∈ s._session_map q → j ≠ i := by
    rintro q j hqp hj rfl
    exact hqp ((h.housed.server_eq hj hx).symm.trans hserver)
  have heq : TcpServers.eraseSession { s with erasing := Function.update s.erasing p rest } p i =
      { s with
        erasing := Function.update s.erasing p rest
        _session_map := Function.update s._session_map p ((s._session_map p).erase i)
        _map_session := Function.update s._map_session x._id none } := by
    simp only [TcpServers.eraseSession, hmem, if_true, destroyHelper, hx, hserver, halive]
  rw [heq]
  refine Removes.inv (s := s) [i] ⟨set_onError_self hx hone,?_,?_,?_,rfl,fun _ hq => Or.inl hq,?_,?_,rfl,?_⟩ h
  · intro q j
    dsimp only
    rw [Function.update_apply, List.mem_singleton]
    split
    · rename_i hq
      subst hq
      rw [(h.housed.nodup q).mem_erase_iff, and_comm]
    · rename_i hq
      exact (and_iff_left_of_imp (hother hq)).symm
  · intro q
    dsimp only
    rw [Function.update_apply]
    split
    · rename_i hq
      rw [hq]
      exact List.erase_sublist
    · exact List.Sublist.refl _
  · intro id k
    simp only [Function.update_apply, List.mem_singleton, forall_eq, hx, Option.some.injEq, forall_eq']
    by_cases hid : id = x._id
    · simp [hid]
    · simp [hid, Ne.symm hid]
  · intro q hq
    refine ⟨hq,fun j => ?_⟩
    dsimp only
    rw [Function.update_apply, List.mem_singleton]
    split
    · rename_i hqp
      rw [hqp]
      exact hrest j
    · rename_i hqp
      refine (and_iff_left_of_imp fun hj => hother hqp ?_).symm
      have hlt := h.posted.made q j hj
      exact ((h.posted.failed q hq j _ (List.getElem?_eq_getElem hlt)).mp hj).1
  · intro q
    dsimp only
    rw [Function.update_apply]
    split
    · rename_i hqp
      rw [hqp]
      exact hsub
    · exact List.Sublist.refl _
  · intro q hq
    dsimp only
    rw [Function.update_of_ne]
    rintro rfl
    exact hq hidle

/-! ### The error of a session's socket -/

omit [DecidableEq P] in
theorem set_cases {z : TcpSession P} (hx : l[i]? = some x) (hz : (l.set i y)[j]? = some z) :
    j = i ∧ z = y ∨ j ≠ i ∧ l[j]? = some z := by
  rw [List.getElem?_set] at hz
  by_cases hij : i = j
  · rw [if_pos hij, if_pos (List.getElem?_eq_some_iff.mp hx).1] at hz
    exact Or.inl ⟨hij.symm,(Option.some.inj hz).symm⟩
  · rw [if_neg hij] at hz
    exact Or.inr ⟨Ne.symm hij,hz⟩

omit [DecidableEq P] in
theorem Alike.set (hx : l[i]? = some x) (hserver : y.server = x.server) (hid : y._id = x._id) :
    Alike l (l.set i y) := by
  obtain ⟨hlt,rfl⟩ := List.getElem?_eq_some_iff.mp hx
  rw [Alike, List.map_set, hserver, hid]
  apply List.ext_getElem?
  intro j
  rw [List.getElem?_set]
  split
  · rename_i hij
    subst hij
    simp [hlt]
  · rfl

omit [DecidableEq P] in
theorem ToldOnce.fail (h : ToldOnce l maps) (hx : l[i]? = some x) (hmem : i ∈ maps x.server)
    (herr : x.errored = false) :
    ToldOnce (l.set i { x with errored := true, onError := x.onError + 1 }) maps := by
  intro j y hy
  rcases set_cases hx hy with ⟨rfl,rfl⟩ | ⟨_,hy⟩
  · have honce := h j x hx
    rw [if_pos hmem, herr] at honce
    dsimp only
    rw [if_pos hmem, honce]
    rfl
  · exact h j y hy

theorem Posted.fail (h : Posted l maps alive erasing) (hh : Housed l maps alive) (hx : l[i]? = some x)
    (hmem : i ∈ maps x.server) (hnew : i ∉ erasing x.server) :
    Posted (l.set i { x with errored := true, onError := x.onError + 1 }) maps alive
      (house erasing x.server i) := by
  refine ⟨?_,?_,?_⟩
  · intro q hq j y hy
    rw [mem_house]
    rcases set_cases hx hy with ⟨rfl,rfl⟩ | ⟨hne,hy⟩
    · by_cases hqs : q = x.server
      · subst hqs
        simp [hmem]
      · have hno : j ∉ maps q := fun hin => hqs (hh.server_eq hin hx).symm
        refine iff_of_false ?_ fun hc => hno hc.1
        rintro (hin | ⟨hqp,_⟩)
        · exact hno ((h.failed q hq j x hx).mp hin).1
        · exact hqs hqp
    · rw [h.failed q hq j y hy]
      exact or_iff_left fun hc => hne hc.2
  · intro q j hj
    rw [List.length_set]
    rcases mem_house.mp hj with hj | ⟨_,rfl⟩
    · exact h.made q j hj
    · exact (List.getElem?_eq_some_iff.mp hx).1
  · intro q
    rw [house, Function.update_apply]
    split
    · refine List.nodup_append.mpr ⟨h.nodup _,List.pairwise_singleton _ _,?_⟩
      rintro j hj k hk rfl
      obtain rfl := List.mem_singleton.mp hk
      exact hnew hj
    · exact h.nodup q

/-- The error of a session's socket, with the removal of the session posted. -/
theorem Inv.fail (h : s.Inv) (hx : s.sessions[i]? = some x) (hmem : i ∈ s._session_map x.server)
    (hnew : i ∉ s.erasing x.server) : Inv { s with
      sessions := s.sessions.set i { x with errored := true, onError := x.onError + 1 }
      erasing := house s.erasing x.server i } := by
  have halike : Alike s.sessions (s.sessions.set i { x with errored := true, onError := x.onError + 1 }) :=
    Alike.set hx rfl rfl
  have herr : x.errored = false := by
    by_contra hc
    exact hnew ((h.posted.failed _ (h.housed.lives hmem) i x hx).mpr ⟨hmem,by simpa using hc⟩)
  exact ⟨⟨h.once.fail hx hmem herr,h.walk,halike.found h.named⟩,halike.housed h.housed,
    h.posted.fail h.housed hx hmem hnew,halike.tagged h.tagged⟩

theorem Inv.onErr (h : s.Inv) (hx : s.sessions[i]? = some x) (hmem : i ∈ s._session_map x.server)
    (hnew : i ∉ s.erasing x.server) : (s.onErr i x).Inv := by
  have hfail := h.fail hx hmem hnew
  have hlt := (List.getElem?_eq_some_iff.mp hx).1
  unfold TcpServers.onErr
  cases hm : s._is_on_manager x.server with
  | on round called rest =>
    simp only [hm]
    exact hfail
  | idle =>
    simp only [hm]
    have herase := hfail.eraseSession (p := x.server) (i := i)
      (x := { x with errored := true, onError := x.onError + 1 }) (h.housed.lives hmem) hm hmem (by simp [hlt]) rfl
      (s.erasing x.server) ?_ ?_
    · simpa only [house, Function.update_idem, Function.update_eq_self] using herase
    · simp only [house, Function.update_self]
      exact List.sublist_append_left _ _
    · intro j
      rw [mem_house]
      constructor
      · exact fun hj => ⟨Or.inl hj,fun hji => hnew (hji ▸ hj)⟩
      · exact fun hj => hj.1.resolve_right fun hc => hj.2 hc.2

theorem onErr_get (hx : s.sessions[i]? = some x) (halive : s.alive x.server = true) :
    (s.onErr i x).sessions[i]? = some { x with errored := true, onError := x.onError + 1 } := by
  have hset : (s.sessions.set i { x with errored := true, onError := x.onError + 1 })[i]? =
      some { x with errored := true, onError := x.onError + 1 } := by
    simp [(List.getElem?_eq_some_iff.mp hx).1]
  unfold TcpServers.onErr
  cases hm : s._is_on_manager x.server with
  | on round called rest =>
    simp only [hm]
    exact hset
  | idle =>
    simp only [hm, TcpServers.eraseSession]
    split
    · simp only [destroyHelper, hset, halive, if_true]
    · exact hset

/-- A second report while the removal is posted reaches the session again. -/
theorem Inv.not_sound_onErr (h : s.Inv) (hx : s.sessions[i]? = some x) (hmem : i ∈ s._session_map x.server)
    (hposted : i ∈ s.erasing x.server) : ¬(s.onErr i x).Sound := by
  intro hsound
  have halive := h.housed.lives hmem
  have herr := ((h.posted.failed _ halive i x hx).mp hposted).2
  have honce := h.once i x hx
  rw [if_pos hmem, if_pos herr] at honce
  have htwice := hsound.once i _ (onErr_get hx halive)
  simp only [honce, if_true, ite_self] at htwice
  cases htwice

theorem Inv.erase (h : s.Inv) {rest : List ℕ} (hidle : s._is_on_manager p = .idle)
    (hq : s.erasing p = i :: rest) (halive : s.alive p = true) :
    (TcpServers.eraseSession { s with erasing := Function.update s.erasing p rest } p i).Inv := by
  have hin : i ∈ s.erasing p := by
    rw [hq]
    exact List.mem_cons_self
  have hlt := h.posted.made p i hin
  obtain ⟨hmem,herr⟩ := (h.posted.failed p halive i _ (List.getElem?_eq_getElem hlt)).mp hin
  have hnodup := h.posted.nodup p
  rw [hq] at hnodup
  obtain ⟨hnot,hnodup⟩ := List.nodup_cons.mp hnodup
  apply h.eraseSession halive hidle hmem (List.getElem?_eq_getElem hlt) herr rest
  · rw [hq]
    exact List.sublist_cons_self i rest
  · intro j
    rw [hq, List.mem_cons]
    constructor
    · exact fun hj => ⟨Or.inr hj,fun hji => hnot (hji ▸ hj)⟩
    · exact fun hj => hj.1.resolve_left hj.2

/-- The removal of a session of a server that is gone does nothing. -/
theorem Inv.drop (h : s.Inv) {rest : List ℕ} (hq : s.erasing p = i :: rest) (hdead : s.alive p = false) :
    Inv { s with erasing := Function.update s.erasing p rest } := by
  have hsub : ∀ q, (Function.update s.erasing p rest q).Sublist (s.erasing q) := by
    intro q
    rw [Function.update_apply]
    split
    · rename_i hqp
      rw [hqp, hq]
      exact List.sublist_cons_self i rest
    · exact List.Sublist.refl _
  refine ⟨⟨h.once,h.walk,h.named⟩,h.housed,⟨?_,fun q j hj => h.posted.made q j ((hsub q).subset hj),
    fun q => (h.posted.nodup q).sublist (hsub q)⟩,h.tagged⟩
  intro q halive j y hy
  have hqp : q ≠ p := by
    rintro rfl
    dsimp only at halive
    rw [hdead] at halive
    cases halive
  dsimp only
  rw [Function.update_of_ne hqp]
  exact h.posted.failed q halive j y hy

theorem Inv.manage (h : s.Inv) {m : Managing} (hm : ∀ round called rest, m = .on round called rest →
    round.Perm (s._session_map p) ∧ round = called ++ rest) : (s.manage p m).Inv := by
  refine ⟨⟨h.once,?_,h.named⟩,h.housed,h.posted,h.tagged⟩
  intro q round called rest hq
  change Function.update s._is_on_manager p m q = _ at hq
  rw [Function.update_apply] at hq
  split at hq
  · rename_i hqp
    rw [hqp]
    exact hm round called rest hq
  · exact h.walk q round called rest hq

/-! ### A server goes -/

omit [DecidableEq P] in
theorem destroyHelper_get (s : TcpServers P) (i : ℕ) (hdead : ∀ x, s.sessions[i]? = some x → s.alive x.server = false)
    (j : ℕ) : (s.destroyHelper i).sessions[j]? =
      s.sessions[j]?.map fun x => if j = i then { x with onError := x.onError + 1 } else x := by
  unfold destroyHelper
  cases hx : s.sessions[i]? with
  | none =>
    by_cases hj : j = i
    · rw [hj, hx]
      rfl
    · simp [hj]
  | some x =>
    simp only [hdead x hx, Bool.false_eq_true, if_false, List.getElem?_set]
    by_cases hj : i = j
    · subst hj
      rw [if_pos rfl, if_pos (List.getElem?_eq_some_iff.mp hx).1, hx, Option.map_some, if_pos rfl]
    · simp [hj, Ne.symm hj]

omit [DecidableEq P] in
theorem destroyHelper_map (s : TcpServers P) (i : ℕ) (id : Text) (k : ℕ) :
    (s.destroyHelper i)._map_session id = some k ↔
      s._map_session id = some k ∧ ∀ x, s.sessions[i]? = some x → x._id ≠ id := by
  unfold destroyHelper
  cases hx : s.sessions[i]? with
  | none => simp
  | some x =>
    simp only [Function.update_apply, Option.some.injEq, forall_eq']
    by_cases hid : id = x._id
    · simp [hid]
    · simp [hid, Ne.symm hid]

omit [DecidableEq P] in
/-- Helpers whose server is gone tell their sessions of its end and leave the `SessionMap`. -/
theorem foldl_destroyHelper (l : List ℕ) (hnodup : l.Nodup) (s : TcpServers P)
    (hdead : ∀ i ∈ l, ∀ x, s.sessions[i]? = some x → s.alive x.server = false) :
    ∃ sessions map, l.foldl destroyHelper s = { s with sessions := sessions, _map_session := map } ∧
      (∀ j, sessions[j]? = s.sessions[j]?.map fun x => if j ∈ l then { x with onError := x.onError + 1 } else x) ∧
      ∀ id k, map id = some k ↔
        s._map_session id = some k ∧ ∀ i ∈ l, ∀ x, s.sessions[i]? = some x → x._id ≠ id := by
  induction l generalizing s with
  | nil => exact ⟨s.sessions,s._map_session,rfl,by simp,by simp⟩
  | cons i l ih =>
    obtain ⟨hi,hnodup⟩ := List.nodup_cons.mp hnodup
    have hget := s.destroyHelper_get i (hdead i List.mem_cons_self)
    have hrest : s.destroyHelper i = { s with
        sessions := (s.destroyHelper i).sessions
        _map_session := (s.destroyHelper i)._map_session } := by
      unfold destroyHelper
      split <;> rfl
    have halive : (s.destroyHelper i).alive = s.alive := by rw [hrest]
    have hsame : ∀ {j : ℕ}, j ∈ l → (s.destroyHelper i).sessions[j]? = s.sessions[j]? := by
      intro j hj
      have hne : j ≠ i := fun hc => hi (hc ▸ hj)
      rw [hget]
      simp [hne]
    obtain ⟨sessions,map,heq,hsessions,hmap⟩ := ih hnodup (s.destroyHelper i) (by
      intro j hj x hx
      rw [halive]
      exact hdead j (List.mem_cons_of_mem i hj) x (by rw [← hsame hj]; exact hx))
    refine ⟨sessions,map,?_,?_,?_⟩
    · rw [List.foldl_cons, heq, hrest]
    · intro j
      rw [hsessions, hget, Option.map_map]
      congr 1
      funext x
      by_cases hj : j = i
      · simp [hj, hi]
      · simp [hj]
    · intro id k
      rw [hmap, destroyHelper_map]
      constructor
      · rintro ⟨⟨hk,hx⟩,hl⟩
        refine ⟨hk,?_⟩
        intro j hj y hy
        rcases List.mem_cons.mp hj with rfl | hj
        · exact hx y hy
        · exact hl j hj y (by rw [hsame hj]; exact hy)
      · rintro ⟨hk,hl⟩
        refine ⟨⟨hk,hl i List.mem_cons_self⟩,?_⟩
        intro j hj y hy
        rw [hsame hj] at hy
        exact hl j (List.mem_cons_of_mem i hj) y hy

omit [DecidableEq P] in
theorem Alike.modify (l : List (TcpSession P)) (i : ℕ) {f : TcpSession P → TcpSession P}
    (hf : ∀ x, (f x).server = x.server ∧ (f x)._id = x._id) : Alike l (l.modify i f) := by
  apply List.ext_getElem?
  intro j
  rw [List.getElem?_map, List.getElem?_map, List.getElem?_modify, Option.map_eq_map, Option.map_map]
  congr 1
  funext x
  rw [Function.comp_apply]
  split
  · rw [(hf x).1, (hf x).2]
  · rfl

omit [DecidableEq P] in
/-- The reports that come while a server goes are counted, and change nothing else of a session. -/
theorem foldl_tell (failing : List ℕ) (s : TcpServers P) : ∃ sessions,
    failing.foldl tell s = { s with sessions := sessions } ∧ Alike s.sessions sessions ∧
    ∀ j : ℕ, sessions[j]?.map TcpSession.onError =
      s.sessions[j]?.map fun x => x.onError + failing.count j := by
  induction failing generalizing s with
  | nil => exact ⟨s.sessions,rfl,rfl,fun j => rfl⟩
  | cons i failing ih =>
    obtain ⟨sessions,heq,halike,hcount⟩ := ih (s.tell i)
    refine ⟨sessions,heq,?_,?_⟩
    · have htell : Alike s.sessions (s.tell i).sessions := Alike.modify s.sessions i fun x => ⟨rfl,rfl⟩
      exact halike.trans htell
    · intro j
      rw [hcount, tell, List.getElem?_modify, Option.map_eq_map, Option.map_map]
      congr 1
      funext x
      rw [Function.comp_apply, List.count_cons]
      by_cases hij : i = j
      · simp [hij, Nat.add_comm, Nat.add_left_comm]
      · simp [hij]

/-- The state after the destructor of a server. -/
theorem Housed.destroy_eq (h : Housed s.sessions s._session_map s.alive) (p : P) : ∃ sessions map,
    s.destroy p = { s with
      sessions := sessions
      _map_session := map
      _session_map := Function.update s._session_map p []
      alive := Function.update s.alive p false } ∧
    (∀ j : ℕ, sessions[j]? =
      s.sessions[j]?.map fun x => if j ∈ s._session_map p then { x with onError := x.onError + 1 } else x) ∧
    ∀ id k, map id = some k ↔ s._map_session id = some k ∧
      ∀ i ∈ s._session_map p, ∀ x, s.sessions[i]? = some x → x._id ≠ id := by
  apply foldl_destroyHelper _ (h.nodup p)
  intro i hi x hx
  dsimp only
  rw [h.server_eq hi hx, Function.update_self]

omit [DecidableEq P] in
/-- A session that has not failed has been told of nothing. -/
theorem Inv.onError_of_settled (h : s.Inv) (halive : s.alive p = true) (hsettled : s.erasing p = [])
    (hi : i ∈ s._session_map p) (hx : s.sessions[i]? = some x) : x.onError = 0 := by
  have herr : ¬x.errored = true := by
    intro hc
    have hin := (h.posted.failed p halive i x hx).mpr ⟨hi,hc⟩
    rw [hsettled] at hin
    cases hin
  rw [h.once i x hx, h.housed.server_eq hi hx, if_pos hi, if_neg herr]

/-- A server that goes while no removal is posted tells each of its sessions once. -/
theorem Inv.destroy (h : s.Inv) (hidle : s._is_on_manager p = .idle) (halive : s.alive p = true)
    (hsettled : s.erasing p = []) : (s.destroy p).Inv := by
  obtain ⟨sessions,map,heq,hget,hmap⟩ := h.housed.destroy_eq p
  rw [heq]
  refine Removes.inv (s := s) (s._session_map p) ⟨?_,?_,?_,hmap,rfl,?_,?_,fun _ => List.Sublist.refl _,
    rfl,?_⟩ h
  · intro j
    dsimp only
    rw [hget]
    cases hx : s.sessions[j]? with
    | none => rfl
    | some x =>
      by_cases hj : j ∈ s._session_map p
      · simp [hj, h.onError_of_settled halive hsettled hj hx]
      · simp [hj]
  · intro q j
    dsimp only
    rw [Function.update_apply]
    split
    · rename_i hq
      simp [hq]
    · rename_i hq
      refine (and_iff_left_of_imp fun hj hc => hq ?_).symm
      obtain ⟨x,hx,hserver⟩ := h.housed.valid q j hj
      exact hserver.symm.trans (h.housed.server_eq hc hx)
  · intro q
    dsimp only
    rw [Function.update_apply]
    split
    · exact List.nil_sublist _
    · exact List.Sublist.refl _
  · intro q hq
    dsimp only at hq ⊢
    rw [Function.update_apply] at hq ⊢
    split
    · exact Or.inr rfl
    · rename_i hqp
      rw [if_neg hqp] at hq
      exact Or.inl hq
  · intro q hq
    have hqp : q ≠ p := by
      rintro rfl
      dsimp only at hq
      rw [Function.update_self] at hq
      cases hq
    dsimp only at hq
    rw [Function.update_of_ne hqp] at hq
    refine ⟨hq,fun j => (and_iff_left_of_imp fun hj hc => hqp ?_).symm⟩
    obtain ⟨x,hx,hserver⟩ := h.housed.valid p j hc
    have hin := ((h.posted.failed q hq j x hx).mp hj).1
    exact (h.housed.server_eq hin hx).symm.trans hserver
  · intro q hq
    dsimp only
    rw [Function.update_of_ne]
    rintro rfl
    exact hq hidle

/-- A session that has been told of an error is told a second time when its server goes. -/
theorem Housed.not_sound_destroy (h : Housed s.sessions s._session_map s.alive) (hmem : i ∈ s._session_map p)
    (hx : s.sessions[i]? = some x) (htold : 0 < x.onError) : ¬(s.destroy p).Sound := by
  intro hsound
  obtain ⟨sessions,map,heq,hget,_⟩ := h.destroy_eq p
  rw [heq] at hsound
  have htwice := hsound.once i { x with onError := x.onError + 1 } (by
    dsimp only
    rw [hget, hx, Option.map_some, if_pos hmem])
  simp only [h.server_eq hmem hx, Function.update_self, List.not_mem_nil, if_false] at htwice
  omega

theorem Inv.not_sound_posted (h : s.Inv) (halive : s.alive p = true) (hposted : s.erasing p ≠ []) :
    ¬(s.destroy p).Sound := by
  obtain ⟨i,hi⟩ := List.exists_mem_of_ne_nil _ hposted
  obtain ⟨x,hx⟩ : ∃ x, s.sessions[i]? = some x := ⟨_,List.getElem?_eq_getElem (h.posted.made p i hi)⟩
  obtain ⟨hmem,herr⟩ := (h.posted.failed p halive i x hx).mp hi
  have honce := h.once i x hx
  rw [h.housed.server_eq hmem hx, if_pos hmem, if_pos herr] at honce
  exact h.housed.not_sound_destroy hmem hx (by omega)

theorem Inv.not_sound_failing (h : s.Inv) {failing : List ℕ} (hmem : ∀ i ∈ failing, i ∈ s._session_map p)
    (hne : failing ≠ []) : ¬((failing.foldl tell s).destroy p).Sound := by
  obtain ⟨i,hi⟩ := List.exists_mem_of_ne_nil _ hne
  obtain ⟨sessions,heq,halike,hcount⟩ := foldl_tell failing s
  obtain ⟨x,hx,_⟩ := h.housed.valid p i (hmem i hi)
  have htold := hcount i
  rw [hx, Option.map_some] at htold
  obtain ⟨y,hy,htold⟩ := Option.map_eq_some_iff.mp htold
  rw [heq]
  refine (halike.housed h.housed).not_sound_destroy (hmem i hi) hy ?_
  have := List.count_pos_iff.mpr hi
  omega

theorem Inv.step (h : s.Inv) {a : SessionAct P} (hsettled : s.Settled a) (ht : step s a = some t) : t.Inv := by
  cases a with
  | onAcceptConnection p fd =>
    simp only [TcpServers.step] at ht
    split at ht
    · rename_i hidle
      split at ht
      · rename_i halive
        obtain rfl := Option.some.inj ht
        exact h.onAcceptConnection halive hidle fd
      · cases ht
    · cases ht
  | onManagerSession p order =>
    simp only [TcpServers.step] at ht
    split at ht
    · split at ht
      · rename_i hperm
        obtain rfl := Option.some.inj ht
        apply h.manage
        rintro round called rest ⟨⟩
        exact ⟨List.isPerm_iff.mp hperm.2,rfl⟩
      · cases ht
    · cases ht
  | onManager p =>
    simp only [TcpServers.step] at ht
    split at ht
    · rename_i round called i rest hon
      obtain rfl := Option.some.inj ht
      obtain ⟨hperm,hround⟩ := h.walk p _ _ _ hon
      apply h.manage
      rintro _ _ _ ⟨⟩
      refine ⟨hperm,?_⟩
      rw [hround, List.append_assoc, List.singleton_append]
    · obtain rfl := Option.some.inj ht
      exact h.manage fun _ _ _ hm => by cases hm
    · cases ht
  | escape p =>
    simp only [TcpServers.step] at ht
    split at ht
    · obtain rfl := Option.some.inj ht
      exact h.manage fun _ _ _ hm => by cases hm
    · cases ht
  | onErr i =>
    obtain ⟨x,hx,ht⟩ := Option.bind_eq_some_iff.mp ht
    split at ht
    · rename_i hguard
      obtain rfl := Option.some.inj ht
      exact h.onErr hx hguard (hsettled x hx)
    · cases ht
  | erase p =>
    simp only [TcpServers.step] at ht
    split at ht
    · rename_i i rest hidle hq
      obtain rfl := Option.some.inj ht
      split
      · rename_i halive
        exact h.erase hidle hq halive
      · rename_i hdead
        exact h.drop hq (by simpa using hdead)
    · cases ht
  | destroy p failing =>
    obtain ⟨hposted,rfl⟩ := hsettled
    simp only [TcpServers.step] at ht
    split at ht
    · rename_i hidle
      obtain ⟨⟨halive,_⟩,ht⟩ := Option.ite_none_right_eq_some.mp ht
      obtain rfl := Option.some.inj ht
      exact h.destroy hidle halive hposted
    · cases ht

end TcpServers

end OctCommu.Network
