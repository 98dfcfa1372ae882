import OctCommu.Lib.Threads

/-! # Threads at a condition variable

A thread that waits is asleep until it is notified; then it is awake and has still to get
the lock and to look again. It may also wake without a notification.
-/
namespace OctCommu.Monitor
open Threads

inductive Waiter
  | away
  | asleep
  | woken
  deriving DecidableEq

abbrev Waiters := List Waiter

namespace Waiters

def asleep (ws : Waiters) : ℕ := ws.countP (· = .asleep)

def woken (ws : Waiters) : ℕ := ws.countP (· = .woken)

/-- Thread `t` goes from `a` to `b`. -/
def move (ws : Waiters) (t : ℕ) (a b : Waiter) : Option Waiters :=
  if ws[t]? = some a then some (ws.set t b) else none

/-- Which of those that sleep is woken is not said; `none` is for none. -/
def notify_one (ws : Waiters) (chosen : Option ℕ) : Option Waiters :=
  match chosen with
  | some t => ws.move t .asleep .woken
  | none => if ws.asleep = 0 then some ws else none

def notify_all (ws : Waiters) : Waiters := ws.map fun w => if w = .asleep then .woken else w

variable {ws vs : Waiters} {t : ℕ} {a b : Waiter}

theorem move_counts (h : ws.move t a b = some vs) :
    (vs.asleep + if a = .asleep then 1 else 0) = ws.asleep + (if b = .asleep then 1 else 0) ∧
    (vs.woken + if a = .woken then 1 else 0) = ws.woken + (if b = .woken then 1 else 0) := by
  unfold move at h
  split at h
  · rename_i ha
    obtain rfl := Option.some.inj h
    have hasleep := countP_set ha b fun w => decide (w = .asleep)
    have hwoken := countP_set ha b fun w => decide (w = .woken)
    simp only [decide_eq_true_eq] at hasleep hwoken
    exact ⟨hasleep,hwoken⟩
  · cases h

theorem notify_one_counts {chosen : Option ℕ} (h : ws.notify_one chosen = some vs) :
    (ws.asleep = 0 ∧ vs = ws) ∨ (vs.asleep + 1 = ws.asleep ∧ vs.woken = ws.woken + 1) := by
  cases chosen with
  | some t => exact Or.inr (by simpa using move_counts h)
  | none =>
    simp only [notify_one] at h
    by_cases hzero : ws.asleep = 0
    · rw [if_pos hzero] at h
      exact Or.inl ⟨hzero,(Option.some.inj h).symm⟩
    · rw [if_neg hzero] at h
      cases h

theorem asleep_notify_all (ws : Waiters) : ws.notify_all.asleep = 0 := by
  unfold asleep notify_all
  rw [List.countP_map, List.countP_eq_zero]
  intro w _
  cases w <;> simp

end Waiters
end OctCommu.Monitor
