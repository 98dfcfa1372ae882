import OctCommu.Lib.Runs
import OctCommu.Network.TcpClient

/-! # The manager timer of a `TcpClient`

A client that was started once and is not shut down, with the socket it connects
again and again. `_timer` is made in `startConnect` alone, and every failed attempt
and every error takes it away; the line that would make it again is commented out.
-/
namespace OctCommu.Network
open Runs

inductive Link where
  | down
  | connecting
  | connected
  deriving DecidableEq

/-- A client and the connection its socket has. Attempts are numbered; `reported` is the attempt that
`onSockConnect` reported as a success, until an error event of it arrives, and `posted` are the error
events under way, by attempt. No attempt has failed and no error has arrived while `undisturbed`. -/
structure ClientLink where
  client : TcpClient
  _con_timer : Bool
  link : Link
  attempt : ℕ
  reported : Option ℕ
  posted : List ℕ
  undisturbed : Bool
  deriving DecidableEq

inductive LinkAct where
  /-- `_timer_reconnect` fires; `failed` if `connect` finds at once that it cannot connect. -/
  | reConnectServer (failed : Bool)
  | connectSucceeded
  | connectFailed
  /-- `_con_timer` fires. -/
  | connectTimeout
  /-- The socket closes itself and posts the error. -/
  | emitErr
  | onErr
  /-- `_timer` fires. -/
  | onManager
  deriving DecidableEq

namespace ClientLink

/-- `con_cb` with an error. -/
def fail (s : ClientLink) : ClientLink :=
  { s with
    client := s.client.onSockConnect true
    _con_timer := false
    link := .down
    undisturbed := false }

/-- `connect_l`: the socket is closed, and the timeout starts even when the attempt is over by then. -/
def connect (s : ClientLink) (failed : Bool) : ClientLink :=
  let s := { s with link := .connecting, attempt := s.attempt + 1, reported := none }
  { (if failed then s.fail else s) with _con_timer := true }

/-- After `startConnect`. -/
def started (failed : Bool) : ClientLink :=
  connect ⟨TcpClient.fresh.startConnect,false,.down,0,none,[],true⟩ failed

def step (s : ClientLink) : LinkAct → Option ClientLink
  | .reConnectServer failed =>
    if s.client._timer_reconnect.isSome then
      some (connect { s with client := s.client.reConnectServer } failed)
    else none
  | .connectSucceeded =>
    if s.link = .connecting then
      some { s with
        client := s.client.onSockConnect false
        _con_timer := false
        link := .connected
        reported := some s.attempt }
    else none
  | .connectFailed => if s.link = .connecting then some s.fail else none
  | .connectTimeout => if s._con_timer then some s.fail else none
  | .emitErr =>
    if s.link = .down then none
    else some { s with _con_timer := false, link := .down, posted := s.posted ++ [s.attempt] }
  | .onErr =>
    match s.posted with
    | [] => none
    | k :: posted => some { s with
        client := s.client.onSockErr 0
        reported := if s.reported = some k then none else s.reported
        posted := posted
        undisturbed := false }
  | .onManager => if s.client._timer.isSome then some s else none

/-- `alive()`: the timer is there, or the socket is open. -/
def alive (s : ClientLink) : Bool := s.client._timer.isSome || s.link ≠ .down

/-- The manager timer runs while a connection is reported, and the retry timer while none is. -/
structure Managed (s : ClientLink) : Prop where
  manager : s.reported.isSome → s.client._timer = some ⟨2⟩ ∧ s.alive
  retry : s.reported = none → s.client._timer_reconnect.isSome

/-- An attempt succeeds only while none has failed and no error has arrived, and an error that arrives
while a connection is reported is its own. -/
def Kept (s : ClientLink) : LinkAct → Prop
  | .connectSucceeded => s.undisturbed = true
  | .onErr => ∀ k ∈ s.posted.head?, s.reported = none ∨ s.reported = some k
  | _ => True

structure Inv (s : ClientLink) : Prop where
  sock : s.client._sock = some 0
  timer : s.client._timer = if s.undisturbed then some ⟨2⟩ else none
  pending : s.link = .connecting ∨ s._con_timer = true → s.reported = none
  held : s.reported.isSome → s.undisturbed = true
  retry : s.reported = none → s.client._timer_reconnect.isSome

theorem Inv.managed {s : ClientLink} (h : s.Inv) : s.Managed where
  manager hr := by
    have ht : s.client._timer = some ⟨2⟩ := by rw [h.timer, if_pos (h.held hr)]
    exact ⟨ht,by simp [alive, ht]⟩
  retry := h.retry

theorem inv_connect {s : ClientLink} (hsock : s.client._sock = some 0)
    (htimer : s.client._timer = if s.undisturbed then some ⟨2⟩ else none)
    (hretry : s.client._timer_reconnect.isSome) (failed : Bool) : (s.connect failed).Inv := by
  cases failed with
  | false => exact ⟨hsock,htimer,fun _ => rfl,by simp [connect],fun _ => hretry⟩
  | true => exact ⟨hsock,rfl,fun _ => rfl,by simp [connect, fail],fun _ => hretry⟩

theorem inv_started (failed : Bool) : (started failed).Inv := inv_connect rfl rfl rfl failed

/-- An attempt that fails is not the connection that is reported. -/
theorem Inv.fail {s : ClientLink} (h : s.Inv) (hr : s.reported = none) : s.fail.Inv where
  sock := h.sock
  timer := rfl
  pending _ := hr
  held hs := by
    rw [show s.fail.reported = none from hr] at hs
    cases hs
  retry := h.retry

theorem step_good {s t : ClientLink} {a : LinkAct} (hs : s.Inv) (hc : s.Kept a)
    (h : step s a = some t) : t.Inv := by
  cases a with
  | reConnectServer failed =>
    simp only [step] at h
    split at h
    · rename_i hretry
      cases h
      exact inv_connect (s := { s with client := s.client.reConnectServer }) hs.sock hs.timer hretry failed
    · cases h
  | connectSucceeded =>
    simp only [step] at h
    split at h
    · cases h
      exact ⟨hs.sock,hs.timer,by simp,fun _ => hc,by simp⟩
    · cases h
  | connectFailed =>
    simp only [step] at h
    split at h
    · rename_i hl
      cases h
      exact hs.fail (hs.pending (.inl hl))
    · cases h
  | connectTimeout =>
    simp only [step] at h
    split at h
    · rename_i hl
      cases h
      exact hs.fail (hs.pending (.inr hl))
    · cases h
  | emitErr =>
    simp only [step] at h
    split at h
    · cases h
    · cases h
      exact ⟨hs.sock,hs.timer,by simp,hs.held,hs.retry⟩
  | onErr =>
    simp only [step] at h
    split at h
    · cases h
    · rename_i k posted hp
      cases h
      have hnone : (if s.reported = some k then none else s.reported) = none := by
        rcases hc k (by simp [hp]) with hr | hr
        · simp [hr]
        · simp [hr]
      have hclient : s.client.onSockErr 0 =
          { s.client with _timer := none, _timer_reconnect := some ⟨5⟩ } := by
        rcases s.client.onSockErr_cases 0 with ⟨hne,_⟩ | ⟨_,he⟩
        · exact absurd hs.sock hne
        · exact he
      refine ⟨?_,?_,fun _ => hnone,?_,?_⟩
      · rw [TcpClient._sock_onSockErr]
        exact hs.sock
      · rw [hclient]
        rfl
      · intro hsome
        rw [hnone] at hsome
        cases hsome
      · intro _
        rw [hclient]
        rfl
  | onManager =>
    simp only [step] at h
    split at h
    · cases h
      exact hs
    · cases h

theorem step_bad {s t : ClientLink} {a : LinkAct} (hs : s.Inv) (h : step s a = some t)
    (ht : t.Managed) : s.Kept a := by
  cases a with
  | connectSucceeded =>
    simp only [step] at h
    split at h
    · cases h
      have htimer : s.client._timer = some ⟨2⟩ := (ht.manager rfl).1
      rw [hs.timer] at htimer
      by_contra hu
      have hu : ¬ s.undisturbed = true := hu
      rw [if_neg hu] at htimer
      cases htimer
    · cases h
  | onErr =>
    intro k hk
    simp only [step] at h
    split at h
    · cases h
    · rename_i j posted hp
      cases h
      obtain rfl : j = k := by simpa [hp] using hk
      by_contra hne
      obtain ⟨hr,hk⟩ := not_or.mp hne
      have hsome : (if s.reported = some j then none else s.reported).isSome := by
        rw [if_neg hk]
        exact Option.isSome_iff_ne_none.mpr hr
      -- the error of another attempt took the timer of this connection away
      have htimer := (ht.manager hsome).1
      rcases s.client.onSockErr_cases 0 with ⟨hsock,_⟩ | ⟨_,he⟩
      · exact hsock hs.sock
      · simp only [he] at htimer
        cases htimer
  | _ => trivial

theorem everyStep_kept_iff (failed : Bool) (acts : List LinkAct) :
    EveryStep step Kept (started failed) acts ↔ EveryState step Managed (started failed) acts :=
  everyStep_iff_everyState (inv_started failed) (fun _ hs => hs.managed)
    (fun _ _ _ hs hc h => step_good hs hc h) (fun _ _ _ hs h ht => step_bad hs h ht)

/-- The second attempt succeeds, and nobody made the timer again. -/
theorem reconnect_unmanaged : ∃ s,
    exec step (started false) [.connectFailed,.reConnectServer false,.connectSucceeded] = some s ∧
    s.reported = some 2 ∧ s.link = .connected ∧ s.client._timer = none ∧ ¬ s.Managed := by
  refine ⟨_,rfl,rfl,rfl,rfl,?_⟩
  intro h
  cases (h.manager rfl).1

end ClientLink
end OctCommu.Network
