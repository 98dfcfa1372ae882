import OctCommu.Lib.Runs

/-! # The outcome of `Socket::connect`

What happens on the poller thread of a socket. Attempts are numbered as `connect_l`
is entered. An attempt that fails within `connect_l` is reported there, and its
callback may connect again before `connect_l` goes on to arm the timer.
-/
namespace OctCommu.Network
open Runs

/-- The `SockFD` of an attempt. -/
structure ConnectFD where
  attempt : ℕ
  connected : Bool
  deriving DecidableEq

/-- How `connect_l` gets its socket: for an address at once, for a name from another thread. -/
inductive ConnectUrl where
  /-- Whether `SockUtil::connect` and `addEvent` succeed. -/
  | ip (sock added : Bool)
  | name
  deriving DecidableEq

structure ConnectSocket where
  /-- The attempt whose timeout it is. -/
  _con_timer : Option ℕ
  /-- The attempt that waits for its name. -/
  _async_con_cb : Option ℕ
  _sock_fd : Option ConnectFD
  attempts : ℕ
  /-- The attempts whose name is still being resolved. -/
  resolving : List ℕ
  /-- The runs of `connect_l` that are inside `con_cb`, the innermost first. -/
  entered : List ℕ
  /-- The attempts that failed within `connect_l`. -/
  failedAtOnce : List ℕ
  /-- The attempts whose `con_cb_in` was called, the latest first. -/
  reports : List ℕ
  deriving DecidableEq

inductive ConnectAct where
  | connect_l (url : ConnectUrl)
  /-- The innermost `connect_l` goes on when `con_cb` returns. -/
  | armTimer
  | async_con_cb (k : ℕ) (sock added : Bool)
  /-- The socket is writable: has it an error, and can it be attached? -/
  | onConnected (err attached : Bool)
  | con_timer
  | closeSock
  deriving DecidableEq

namespace ConnectSocket

def fresh : ConnectSocket := ⟨none,none,none,0,[],[],[],[]⟩

def closeSock (s : ConnectSocket) : ConnectSocket :=
  { s with _con_timer := none, _async_con_cb := none, _sock_fd := none }

/-- The local `con_cb` of attempt `k`. -/
def con_cb (s : ConnectSocket) (k : ℕ) (err : Bool) : ConnectSocket :=
  { s with
    _async_con_cb := none
    _con_timer := none
    _sock_fd := if err then none else s._sock_fd
    reports := k :: s.reports }

/-- The function behind `_async_con_cb`. -/
def async_con_cb (s : ConnectSocket) (k : ℕ) (sock added : Bool) : ConnectSocket :=
  if sock = false then s.con_cb k true
  else if added = false then s.con_cb k true
  else { s with _sock_fd := some ⟨k,false⟩ }

/-- Without a failure nothing of the application runs in between. -/
def connect_l (s : ConnectSocket) (url : ConnectUrl) : ConnectSocket :=
  let k := s.attempts
  let s := { s.closeSock with attempts := k + 1 }
  match url with
  | .ip sock added =>
    let s := s.async_con_cb k sock added
    if sock && added then { s with _con_timer := some k }
    else { s with entered := k :: s.entered, failedAtOnce := k :: s.failedAtOnce }
  | .name => { s with resolving := k :: s.resolving, _async_con_cb := some k, _con_timer := some k }

def onConnected (s : ConnectSocket) (sock : ConnectFD) (err attached : Bool) : ConnectSocket :=
  if err then s.con_cb sock.attempt true
  else if attached = false then s.con_cb sock.attempt true
  else { s with _sock_fd := some { sock with connected := true } }.con_cb sock.attempt false

/-- No event is handled while the poller thread is inside `connect_l`. -/
def step (s : ConnectSocket) : ConnectAct → Option ConnectSocket
  | .connect_l url => some (s.connect_l url)
  | .armTimer =>
    match s.entered with
    | k :: entered => some { s with entered := entered, _con_timer := some k }
    | [] => none
  | .async_con_cb k sock added =>
    if s.entered = [] ∧ k ∈ s.resolving then
      let t := { s with resolving := s.resolving.erase k }
      -- a result that comes too late is thrown away
      some (if s._async_con_cb = some k then t.async_con_cb k sock added else t)
    else none
  | .onConnected err attached =>
    match s.entered,s._sock_fd with
    | [],some ⟨k,false⟩ => some (s.onConnected ⟨k,false⟩ err attached)
    | _,_ => none
  | .con_timer =>
    match s.entered,s._con_timer with
    | [],some k => some (s.con_cb k true)
    | _,_ => none
  | .closeSock => some s.closeSock

/-- Each attempt has at most one outcome. -/
def OneOutcome (s : ConnectSocket) : Prop := s.reports.Nodup

/-- The timeout of an attempt that failed at once does not come. -/
def Pending (s : ConnectSocket) : ConnectAct → Prop
  | .con_timer => ∀ k, s._con_timer = some k → k ∉ s.failedAtOnce
  | _ => True

/-- What may still report an attempt belongs to one that was not reported, but for the timer of an
attempt that failed at once. -/
structure Inv (s : ConnectSocket) : Prop where
  once : s.reports.Nodup
  known : ∀ k ∈ s.reports, k < s.attempts
  name : ∀ k, s._async_con_cb = some k → k < s.attempts ∧ k ∉ s.reports
  sock : ∀ k, s._sock_fd = some ⟨k,false⟩ → k < s.attempts ∧ k ∉ s.reports
  timer : ∀ k, s._con_timer = some k → k ∈ s.failedAtOnce ∨ (k < s.attempts ∧ k ∉ s.reports)
  failed : ∀ k ∈ s.failedAtOnce, k ∈ s.reports
  entered : ∀ k ∈ s.entered, k ∈ s.failedAtOnce

theorem inv_fresh : fresh.Inv := by
  constructor <;> simp [fresh]

section
variable {s t : ConnectSocket}

theorem Inv.closeSock (h : s.Inv) : s.closeSock.Inv where
  once := h.once
  known := h.known
  name := by simp [ConnectSocket.closeSock]
  sock := by simp [ConnectSocket.closeSock]
  timer := by simp [ConnectSocket.closeSock]
  failed := h.failed
  entered := h.entered

/-- The report of an attempt that has none disarms everything else. -/
theorem Inv.con_cb (h : s.Inv) {k : ℕ} {err : Bool} (hk : k < s.attempts) (hnew : k ∉ s.reports)
    (hsock : err = false → ∀ j, s._sock_fd ≠ some ⟨j,false⟩) : (s.con_cb k err).Inv where
  once := List.nodup_cons.mpr ⟨hnew,h.once⟩
  known := by
    intro j hj
    rcases List.mem_cons.mp hj with rfl | hj
    · exact hk
    · exact h.known j hj
  name := by simp [ConnectSocket.con_cb]
  sock := by
    intro j hj
    cases err with
    | true => simp [ConnectSocket.con_cb] at hj
    | false => exact absurd hj (hsock rfl j)
  timer := by simp [ConnectSocket.con_cb]
  failed := fun j hj => List.mem_cons_of_mem _ (h.failed j hj)
  entered := h.entered

/-- A failure is reported; a socket is kept for its writable event. -/
theorem Inv.async_con_cb (h : s.Inv) {k : ℕ} (hk : k < s.attempts) (hnew : k ∉ s.reports)
    (sock added : Bool) : (s.async_con_cb k sock added).Inv := by
  unfold ConnectSocket.async_con_cb
  split
  · exact h.con_cb hk hnew (by simp)
  · split
    · exact h.con_cb hk hnew (by simp)
    · refine ⟨h.once,h.known,h.name,?_,h.timer,h.failed,h.entered⟩
      intro j hj
      cases hj
      exact ⟨hk,hnew⟩

/-- A new attempt begins with everything reset. -/
theorem Inv.enter (h : s.Inv) : { s.closeSock with attempts := s.attempts + 1 }.Inv where
  once := h.once
  known := fun k hk => (h.known k hk).trans (Nat.lt_succ_self _)
  name := by simp [ConnectSocket.closeSock]
  sock := by simp [ConnectSocket.closeSock]
  timer := by simp [ConnectSocket.closeSock]
  failed := h.failed
  entered := h.entered

theorem reports_of_failed {k : ℕ} {sock added : Bool} (h : ¬ (sock && added) = true) :
    s.async_con_cb k sock added = s.con_cb k true := by
  cases sock with
  | false => rfl
  | true =>
    cases added with
    | false => rfl
    | true => exact absurd rfl h

theorem Inv.connect_l (h : s.Inv) (url : ConnectUrl) : (s.connect_l url).Inv := by
  have he := h.enter
  have hk : s.attempts < s.attempts + 1 := Nat.lt_succ_self _
  have hnew : s.attempts ∉ s.reports := fun hm => absurd (h.known _ hm) (Nat.lt_irrefl _)
  cases url with
  | name =>
    refine ⟨he.once,he.known,?_,he.sock,?_,he.failed,he.entered⟩
    · intro k hs
      cases hs
      exact ⟨hk,hnew⟩
    · intro k hs
      cases hs
      exact .inr ⟨hk,hnew⟩
  | ip sock added =>
    have ha := he.async_con_cb hk hnew sock added
    simp only [ConnectSocket.connect_l]
    split
    · rename_i hboth
      refine ⟨ha.once,ha.known,ha.name,ha.sock,?_,ha.failed,ha.entered⟩
      intro k hs
      cases hs
      obtain ⟨rfl,rfl⟩ := Bool.and_eq_true_iff.mp hboth
      exact .inr ⟨hk,hnew⟩
    · rename_i hboth
      have hrep := reports_of_failed (s := { s.closeSock with attempts := s.attempts + 1 })
        (k := s.attempts) hboth
      rw [hrep] at ha ⊢
      refine ⟨ha.once,ha.known,ha.name,ha.sock,?_,?_,?_⟩
      · intro k hs
        cases hs
      · intro k hm
        rcases List.mem_cons.mp hm with rfl | hm
        · exact List.mem_cons_self
        · exact ha.failed k hm
      · intro k hm
        rcases List.mem_cons.mp hm with rfl | hm
        · exact List.mem_cons_self
        · exact List.mem_cons_of_mem _ (ha.entered k hm)

theorem Inv.onConnected (h : s.Inv) {k : ℕ} (hs : s._sock_fd = some ⟨k,false⟩) (err attached : Bool) :
    (s.onConnected ⟨k,false⟩ err attached).Inv := by
  obtain ⟨hk,hnew⟩ := h.sock k hs
  unfold ConnectSocket.onConnected
  split
  · exact h.con_cb hk hnew (by simp)
  · split
    · exact h.con_cb hk hnew (by simp)
    · have hc : { s with _sock_fd := some (⟨k,true⟩ : ConnectFD) }.Inv :=
        ⟨h.once,h.known,h.name,by simp,h.timer,h.failed,h.entered⟩
      exact hc.con_cb hk hnew (by simp)

theorem step_good {a : ConnectAct} (h : s.Inv) (hc : s.Pending a) (ht : step s a = some t) : t.Inv := by
  cases a with
  | connect_l url =>
    cases ht
    exact h.connect_l url
  | armTimer =>
    simp only [step] at ht
    split at ht
    · rename_i k entered he
      cases ht
      have hent : ∀ j ∈ k :: entered, j ∈ s.failedAtOnce := fun j hj => h.entered j (he ▸ hj)
      refine ⟨h.once,h.known,h.name,h.sock,?_,h.failed,?_⟩
      · intro j hj
        cases hj
        exact .inl (hent _ List.mem_cons_self)
      · exact fun j hj => hent j (List.mem_cons_of_mem _ hj)
    · cases ht
  | async_con_cb k sock added =>
    obtain ⟨_,⟨⟩⟩ := Option.ite_none_right_eq_some.mp ht
    have hr : { s with resolving := s.resolving.erase k }.Inv :=
      ⟨h.once,h.known,h.name,h.sock,h.timer,h.failed,h.entered⟩
    split
    · rename_i hname
      obtain ⟨hk,hnew⟩ := h.name k hname
      exact hr.async_con_cb hk hnew sock added
    · exact hr
  | onConnected err attached =>
    simp only [step] at ht
    split at ht
    · rename_i k _ hs
      cases ht
      exact h.onConnected hs err attached
    · cases ht
  | con_timer =>
    simp only [step] at ht
    split at ht
    · rename_i k _ hs
      cases ht
      obtain ⟨hk,hnew⟩ := (h.timer k hs).resolve_left (hc k hs)
      exact h.con_cb hk hnew (by simp)
    · cases ht
  | closeSock =>
    cases ht
    exact h.closeSock

/-- An attempt that failed at once has been reported when its timeout comes. -/
theorem step_bad {a : ConnectAct} (h : s.Inv) (ht : step s a = some t) (hp : t.OneOutcome) :
    s.Pending a := by
  cases a with
  | con_timer =>
    intro k hs hfailed
    simp only [step] at ht
    split at ht
    · rename_i j _ hj
      cases ht
      obtain rfl := Option.some.inj (hs.symm.trans hj)
      exact (List.nodup_cons.mp hp).1 (h.failed _ hfailed)
    · cases ht
  | connect_l | armTimer | async_con_cb | onConnected | closeSock => trivial

end

/-- Every attempt is reported at most once just as long as no timeout comes for one that failed at
once. -/
theorem pending_iff_oneOutcome (as : List ConnectAct) :
    EveryStep step Pending fresh as ↔ EveryState step OneOutcome fresh as := by
  apply everyStep_iff_everyState inv_fresh
  · intro s h
    exact h.once
  · intro s a t h hc ht
    exact step_good h hc ht
  · intro s a t h ht hp
    exact step_bad h ht hp

/-- An address that cannot be reached at once, and the timeout after it. -/
theorem not_oneOutcome_failed_at_once : ¬ EveryState step OneOutcome fresh
    [.connect_l (.ip false false),.armTimer,.con_timer] := by
  intro h
  exact absurd (h.last rfl) (by unfold OneOutcome; decide)

end ConnectSocket
end OctCommu.Network
