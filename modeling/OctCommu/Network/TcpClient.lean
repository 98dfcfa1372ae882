import Mathlib.Tactic.Common

/-! # The pointers of a `TcpClient`

Sockets are numbered in the order in which `startConnect` creates them. What an
attempt to connect does on its socket is not part of this model.
-/
namespace OctCommu.Network

/-- A timer that is running, with its period in seconds. -/
structure Timer where
  second : ℕ
  deriving DecidableEq

/-- The three pointers; `nullDeref` records that an empty one was read through. -/
structure TcpClient where
  _timer : Option Timer
  _timer_reconnect : Option Timer
  _sock : Option ℕ
  sockets : ℕ
  nullDeref : Bool
  deriving DecidableEq

namespace TcpClient

/-- The constructor leaves both timers empty. -/
def fresh : TcpClient := ⟨none,none,none,0,false⟩

def deref {α : Type*} (s : TcpClient) (p : Option α) : TcpClient :=
  { s with nullDeref := s.nullDeref || p.isNone }

def setSock (s : TcpClient) : TcpClient := { s with _sock := some s.sockets, sockets := s.sockets + 1 }

/-- The timer holds a plain `this`, and `getSock()` is not checked. -/
def reConnectServer (s : TcpClient) : TcpClient := s.deref s._sock

def restartConnectTimer (s : TcpClient) : TcpClient := { s with _timer_reconnect := some ⟨5⟩ }

def startConnect (s : TcpClient) : TcpClient :=
  let s := { s with _timer := some ⟨2⟩ }
  let s := s.setSock
  -- `sock_ptr->setOnErr`
  let s := s.deref s._sock
  let s := { s with _timer_reconnect := some ⟨5⟩ }
  s.reConnectServer

/-- `TCPClientImp::onErr` ends with `restartConnectTimer`. -/
def onErr (s : TcpClient) : TcpClient := s.restartConnectTimer

/-- What `startConnect` hands to `setOnErr`: a socket that was replaced is not listened to. -/
def onSockErr (s : TcpClient) (sock_ptr : ℕ) : TcpClient :=
  if some sock_ptr ≠ s._sock then s else onErr { s with _timer := none }

def onSockConnect (s : TcpClient) (ex : Bool) : TcpClient :=
  if ex then { s with _timer := none }
  else
    let s := { s with _timer_reconnect := none }
    -- `sock_ptr->setOnFlush` and `sock_ptr->setOnRead`
    s.deref s._sock

/-- The socket is only told when there is one. -/
def shutdown (s : TcpClient) : TcpClient := { s with _timer := none }

/-- `~TcpClient`. -/
def destroy (s : TcpClient) : TcpClient := { s.deref s._timer with _timer := none }

@[simp]
theorem _sock_onSockConnect (s : TcpClient) (ex : Bool) : (s.onSockConnect ex)._sock = s._sock := by
  cases ex <;> rfl

@[simp]
theorem _sock_shutdown (s : TcpClient) : s.shutdown._sock = s._sock := rfl

@[simp]
theorem _timer_reconnect_shutdown (s : TcpClient) : s.shutdown._timer_reconnect = s._timer_reconnect :=
  rfl

@[simp]
theorem _sock_reConnectServer (s : TcpClient) : s.reConnectServer._sock = s._sock := rfl

/-- The socket of the latest `startConnect`. -/
def Tracked (s : TcpClient) : Prop := s._sock = if s.sockets = 0 then none else some (s.sockets - 1)

theorem tracked_fresh : fresh.Tracked := rfl

theorem Tracked.isSome_iff {s : TcpClient} (h : s.Tracked) : s._sock.isSome ↔ 0 < s.sockets := by
  rw [h]
  split <;> simp <;> omega

theorem Tracked.isNone_of_pos {s : TcpClient} (h : s.Tracked) (hpos : 0 < s.sockets) :
    s._sock.isNone = false := by
  rw [Option.isNone_eq_false_iff]
  exact h.isSome_iff.mpr hpos

theorem startConnect_eq (s : TcpClient) :
    s.startConnect = ⟨some ⟨2⟩,some ⟨5⟩,some s.sockets,s.sockets + 1,s.nullDeref⟩ := by
  simp [startConnect, setSock, reConnectServer, deref]

theorem tracked_startConnect (s : TcpClient) : s.startConnect.Tracked := by
  rw [startConnect_eq]
  rfl

/-- The socket the handler was installed for is the current one, or nothing happens. -/
theorem onSockErr_cases (s : TcpClient) (sock_ptr : ℕ) :
    (s._sock ≠ some sock_ptr ∧ s.onSockErr sock_ptr = s) ∨
      (s._sock = some sock_ptr ∧
        s.onSockErr sock_ptr = { s with _timer := none, _timer_reconnect := some ⟨5⟩ }) := by
  by_cases h : s._sock = some sock_ptr
  · right
    refine ⟨h,?_⟩
    simp [onSockErr, h, onErr, restartConnectTimer]
  · left
    refine ⟨h,?_⟩
    simp only [onSockErr]
    exact if_pos fun he => h he.symm

@[simp]
theorem _sock_onSockErr (s : TcpClient) (sock_ptr : ℕ) : (s.onSockErr sock_ptr)._sock = s._sock := by
  rcases s.onSockErr_cases sock_ptr with ⟨_,h⟩ | ⟨_,h⟩
  · rw [h]
  · rw [h]

end TcpClient
end OctCommu.Network
