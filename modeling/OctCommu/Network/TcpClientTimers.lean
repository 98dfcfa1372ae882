import OctCommu.Lib.Runs
import OctCommu.Network.TcpClient

/-! # Which pointers of a `TcpClient` are set

The timer `~TcpClient` stops without a look exists between `startConnect` and the
next failure, error or shutdown only.
-/
namespace OctCommu.Network
open Runs

/-- The result of an attempt and an error arrive from a socket that was created before. -/
inductive ClientAct where
  | startConnect
  | onSockConnect (ex : Bool)
  | onSockErr (sock_ptr : ℕ)
  | restartConnectTimer
  /-- `_timer_reconnect` fires. -/
  | reConnectServer
  | shutdown
  | destroy
  deriving DecidableEq

/-- A client with all that happened to it, the latest first. -/
structure ClientHistory where
  client : TcpClient
  past : List ClientAct
  destroyed : Bool

/-- The calls of `startConnect` in a history. -/
def starts : List ClientAct → ℕ
  | [] => 0
  | .startConnect :: past => starts past + 1
  | _ :: past => starts past

/-- Of `startConnect`, a failed attempt, an error of the current socket and `shutdown` the latest
is a `startConnect`. -/
def StartedLast : List ClientAct → Prop
  | [] => False
  | .startConnect :: _ => True
  | .onSockConnect ex :: past => ex = false ∧ StartedLast past
  | .onSockErr sock_ptr :: past => sock_ptr + 1 ≠ starts past ∧ StartedLast past
  | .shutdown :: _ => False
  | .restartConnectTimer :: past | .reConnectServer :: past | .destroy :: past => StartedLast past

instance decidableStartedLast : DecidablePred StartedLast
  | [] => isFalse id
  | .startConnect :: _ => isTrue trivial
  | .onSockConnect ex :: past =>
    have : Decidable (StartedLast past) := decidableStartedLast past
    inferInstanceAs (Decidable (ex = false ∧ StartedLast past))
  | .onSockErr sock_ptr :: past =>
    have : Decidable (StartedLast past) := decidableStartedLast past
    inferInstanceAs (Decidable (sock_ptr + 1 ≠ starts past ∧ StartedLast past))
  | .shutdown :: _ => isFalse id
  | .restartConnectTimer :: past | .reConnectServer :: past | .destroy :: past =>
    decidableStartedLast past

namespace ClientHistory

def start : ClientHistory := ⟨.fresh,[],false⟩

def act (s : TcpClient) : ClientAct → Option TcpClient
  | .startConnect => some s.startConnect
  | .onSockConnect ex => if 0 < s.sockets then some (s.onSockConnect ex) else none
  | .onSockErr sock_ptr => if sock_ptr < s.sockets then some (s.onSockErr sock_ptr) else none
  | .restartConnectTimer => some s.restartConnectTimer
  | .reConnectServer => if s._timer_reconnect.isSome then some s.reConnectServer else none
  | .shutdown => some s.shutdown
  | .destroy => some s.destroy

def step (s : ClientHistory) (a : ClientAct) : Option ClientHistory :=
  if s.destroyed then none
  else (act s.client a).map fun c => ⟨c,a :: s.past,a = .destroy⟩

/-- No empty pointer was read through. -/
def Safe (s : ClientHistory) : Prop := s.client.nullDeref = false

instance : DecidablePred Safe := fun s => inferInstanceAs (Decidable (s.client.nullDeref = false))

/-- The client is destroyed right after a `startConnect` that nothing undid, and its reconnect
timer fires only when it was started before. -/
def Held (s : ClientHistory) : ClientAct → Prop
  | .destroy => StartedLast s.past
  | .reConnectServer => 0 < starts s.past
  | _ => True

instance (s : ClientHistory) : DecidablePred s.Held
  | .destroy => inferInstanceAs (Decidable (StartedLast s.past))
  | .reConnectServer => inferInstanceAs (Decidable (0 < starts s.past))
  | .startConnect | .onSockConnect _ | .onSockErr _ | .restartConnectTimer | .shutdown =>
    isTrue trivial

/-- The history tells which pointers are set. -/
structure Inv (s : ClientHistory) : Prop where
  safe : s.Safe
  sockets : s.client.sockets = starts s.past
  tracked : s.client.Tracked
  timer : s.destroyed = false → (s.client._timer.isSome ↔ StartedLast s.past)

theorem inv_start : start.Inv :=
  ⟨rfl,rfl,TcpClient.tracked_fresh,fun _ => by simp [start, TcpClient.fresh, StartedLast]⟩

theorem step_cases {s t : ClientHistory} {a : ClientAct} (h : step s a = some t) :
    s.destroyed = false ∧ ∃ c, act s.client a = some c ∧ t = ⟨c,a :: s.past,a = .destroy⟩ := by
  unfold step at h
  split at h
  · cases h
  · rename_i hd
    obtain ⟨c,hc,rfl⟩ := Option.map_eq_some_iff.mp h
    exact ⟨Bool.eq_false_iff.mpr hd,c,hc,rfl⟩

theorem deref_safe {α : Type*} {c : TcpClient} {p : Option α} (h : c.nullDeref = false)
    (hp : p.isNone = false) : (c.deref p).nullDeref = false := by
  simp [TcpClient.deref, h, hp]

theorem step_good {s t : ClientHistory} {a : ClientAct} (hi : s.Inv) (hc : s.Held a)
    (ht : step s a = some t) : t.Inv := by
  obtain ⟨hd,c,hact,rfl⟩ := step_cases ht
  obtain ⟨hsafe,hsockets,htracked,htimer⟩ := hi
  have htimer := htimer hd
  cases a with
  | startConnect =>
    cases hact
    refine ⟨?_,?_,TcpClient.tracked_startConnect _,fun _ => ?_⟩
    · simpa only [Safe, TcpClient.startConnect_eq] using hsafe
    · simp only [TcpClient.startConnect_eq, starts, hsockets]
    · simp only [TcpClient.startConnect_eq, Option.isSome_some, StartedLast]
  | onSockConnect ex =>
    obtain ⟨hpos,⟨⟩⟩ := Option.ite_none_right_eq_some.mp hact
    cases ex with
    | true =>
      exact ⟨hsafe,hsockets,htracked,fun _ => by simp [TcpClient.onSockConnect, StartedLast]⟩
    | false =>
      refine ⟨?_,hsockets,htracked,fun _ => ?_⟩
      · exact deref_safe (c := { s.client with _timer_reconnect := none }) hsafe
          (htracked.isNone_of_pos hpos)
      · change s.client._timer.isSome ↔ false = false ∧ StartedLast s.past
        rw [htimer]
        simp
  | onSockErr sock_ptr =>
    obtain ⟨hlt,⟨⟩⟩ := Option.ite_none_right_eq_some.mp hact
    have hsock : s.client._sock = some (starts s.past - 1) := by
      rw [htracked, if_neg (by omega), hsockets]
    rcases s.client.onSockErr_cases sock_ptr with ⟨hne,he⟩ | ⟨heq,he⟩
    · rw [he]
      refine ⟨hsafe,hsockets,htracked,fun _ => ?_⟩
      have hold : sock_ptr + 1 ≠ starts s.past := by
        intro h
        apply hne
        rw [hsock, ← h, Nat.add_sub_cancel]
      simp only [StartedLast, htimer, hold, ne_eq, not_false_eq_true, true_and]
    · rw [he]
      refine ⟨hsafe,hsockets,htracked,fun _ => ?_⟩
      have hcurrent : sock_ptr + 1 = starts s.past := by
        have h : starts s.past - 1 = sock_ptr := Option.some.inj (hsock.symm.trans heq)
        omega
      simp [StartedLast, hcurrent]
  | restartConnectTimer =>
    cases hact
    exact ⟨hsafe,hsockets,htracked,fun _ => htimer⟩
  | reConnectServer =>
    obtain ⟨_,⟨⟩⟩ := Option.ite_none_right_eq_some.mp hact
    refine ⟨?_,hsockets,htracked,fun _ => htimer⟩
    apply deref_safe hsafe
    apply htracked.isNone_of_pos
    rw [hsockets]
    exact hc
  | shutdown =>
    cases hact
    exact ⟨hsafe,hsockets,htracked,fun _ => by simp [TcpClient.shutdown, StartedLast]⟩
  | destroy =>
    cases hact
    refine ⟨?_,hsockets,htracked,fun h => by cases h⟩
    exact deref_safe hsafe (Option.isNone_eq_false_iff.mpr (htimer.mpr hc))

/-- Both readings that `Held` speaks of go through an empty pointer otherwise. -/
theorem step_bad {s t : ClientHistory} {a : ClientAct} (hi : s.Inv) (ht : step s a = some t)
    (hp : t.Safe) : s.Held a := by
  obtain ⟨hd,c,hact,rfl⟩ := step_cases ht
  cases a with
  | destroy =>
    cases hact
    simp only [Safe, TcpClient.destroy, TcpClient.deref, Bool.or_eq_false_iff] at hp
    exact (hi.timer hd).mp (Option.isNone_eq_false_iff.mp hp.2)
  | reConnectServer =>
    obtain ⟨_,⟨⟩⟩ := Option.ite_none_right_eq_some.mp hact
    simp only [Safe, TcpClient.reConnectServer, TcpClient.deref, Bool.or_eq_false_iff] at hp
    have hpos := hi.tracked.isSome_iff.mp (Option.isNone_eq_false_iff.mp hp.2)
    rw [hi.sockets] at hpos
    exact hpos
  | startConnect | onSockConnect | onSockErr | restartConnectTimer | shutdown => trivial

/-- No empty pointer is read through just as long as the client is destroyed, and its reconnect
timer fires, in such moments only. -/
theorem held_iff_safe (as : List ClientAct) :
    EveryStep step Held start as ↔ EveryState step Safe start as := by
  apply everyStep_iff_everyState inv_start
  · intro s hi
    exact hi.safe
  · intro s a t hi hc ht
    exact step_good hi hc ht
  · intro s a t hi ht hp
    exact step_bad hi ht hp

/-- A client that never connected is destroyed, as the one of every server link is. -/
theorem not_safe_never_started : ¬ EveryState step Safe start [.destroy] :=
  fun h => absurd (h.last rfl) (by decide)

/-- The first attempt fails before the client is destroyed. -/
example : ¬ EveryState step Safe start [.startConnect,.onSockConnect true,.destroy] :=
  fun h => absurd (h.last rfl) (by decide)

/-- `TCPImp::shutdown` reaches the client in the client role only. -/
def tcpImpShutdown (client : Bool) : List ClientAct := if client then [.shutdown] else []

/-- `~TCPImp` shuts down, then its member, the client, is destroyed. -/
def tcpImpDestroyed (client : Bool) : List ClientAct := tcpImpShutdown client ++ [.destroy]

theorem not_startedLast_of_starts {past : List ClientAct} (h : starts past = 0) :
    ¬ StartedLast past := by
  induction past with
  | nil => exact id
  | cons a past ih =>
    cases a with
    | startConnect => cases h
    | onSockConnect ex => exact fun hs => ih h hs.2
    | onSockErr sock_ptr => exact fun hs => ih h hs.2
    | restartConnectTimer | reConnectServer | destroy => exact ih h
    | shutdown => exact id

theorem not_safe_destroy {s t : ClientHistory} (hi : s.Inv) (h : ¬ StartedLast s.past)
    (ht : step s .destroy = some t) : ¬ t.Safe :=
  fun hp => h (step_bad hi ht hp)

/-- In the client role the shutdown of `~TCPImp` itself takes the timer away, and a link that was
a server all its life never had one. -/
theorem not_safe_tcpImpDestroyed {s t : ClientHistory} {client : Bool} (hi : s.Inv)
    (h : client = false → starts s.past = 0)
    (ht : exec step s (tcpImpDestroyed client) = some t) : ¬ t.Safe := by
  cases client with
  | true =>
    obtain ⟨u,hu,ht⟩ := Option.bind_eq_some_iff.mp ht
    obtain ⟨v,hv,ht⟩ := Option.bind_eq_some_iff.mp ht
    cases ht
    have hui := step_good (a := .shutdown) hi trivial hu
    obtain ⟨_,c,_,rfl⟩ := step_cases hu
    exact not_safe_destroy hui id hv
  | false =>
    obtain ⟨v,hv,ht⟩ := Option.bind_eq_some_iff.mp ht
    cases ht
    exact not_safe_destroy hi (not_startedLast_of_starts (h rfl)) hv

end ClientHistory
end OctCommu.Network
