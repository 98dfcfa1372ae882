import OctCommu.Lib.Runs
import Mathlib.Data.List.Basic

/-! # Error reports of a TCP link

`MyonError` of the server is called with a temporary, `onErr` of the client makes a
string of its own; in detached mode both post a task with a reference to it. The
worker reads through the reference whenever its callback does, and the string is gone
when the handler has returned.
-/
namespace OctCommu.Communcation
open Runs
variable {X : Type*}

inductive ErrorRole where
  | server
  | client
  deriving DecidableEq

/-- Errors are numbered as they come, with their texts. `handling` are those whose handler has not
returned, `queued` and `running` the tasks of the pool, and `received` is what callbacks saw. -/
structure ErrorReports (X : Type*) where
  is_detach_recv_ : Bool
  on_tcp_error_func_ : Bool
  error_msg_ : Option X
  texts : List X
  handling : List ℕ
  queued : List ℕ
  running : List ℕ
  received : List (ℕ × Option X)
  deriving DecidableEq

inductive ErrorAct (X : Type*) where
  | init (is_detach_recv_ : Bool)
  | setOnErrorFunc (cb : Bool)
  /-- The handler up to its return. -/
  | onErr (role : ErrorRole) (text : X)
  | returns (n : ℕ)
  /-- A worker takes a task and calls back, the callback reads its argument, and ends. -/
  | call (n : ℕ)
  | read (n : ℕ)
  | done (n : ℕ)
  deriving DecidableEq

namespace ErrorReports

def fresh : ErrorReports X := ⟨false,false,none,[],[],[],[],[]⟩

/-- The `init` of the client does not keep its parameter. -/
def detached (s : ErrorReports X) : ErrorRole → Bool
  | .server => s.is_detach_recv_
  | .client => false

/-- What the reference to the text of this error shows. -/
def load (s : ErrorReports X) (n : ℕ) : Option X := if n ∈ s.handling then s.texts[n]? else none

def onErr (s : ErrorReports X) (role : ErrorRole) (text : X) : ErrorReports X :=
  let n := s.texts.length
  let s := { s with texts := s.texts ++ [text], handling := s.handling ++ [n] }
  if s.on_tcp_error_func_ then
    let s := { s with error_msg_ := some text }
    if s.detached role then { s with queued := s.queued ++ [n] }
    else { s with received := s.received ++ [(n,s.load n)] }
  else s

def step (s : ErrorReports X) : ErrorAct X → Option (ErrorReports X)
  | .init is_detach_recv_ => some { s with is_detach_recv_ := is_detach_recv_ }
  | .setOnErrorFunc cb => some { s with on_tcp_error_func_ := cb }
  | .onErr role text => some (s.onErr role text)
  | .returns n => if n ∈ s.handling then some { s with handling := s.handling.erase n } else none
  | .call n =>
    if n ∈ s.queued then some { s with queued := s.queued.erase n, running := s.running ++ [n] } else none
  | .read n =>
    if n ∈ s.running then some { s with received := s.received ++ [(n,s.load n)] } else none
  | .done n => if n ∈ s.running then some { s with running := s.running.erase n } else none

/-- Every callback saw the text of its own error. -/
def OwnText (s : ErrorReports X) : Prop :=
  ∀ y ∈ s.received, ∃ text, s.texts[y.1]? = some text ∧ y.2 = some text

/-- A callback of the pool reads the text while the handler that posted it has not returned. -/
def InTime (s : ErrorReports X) : ErrorAct X → Prop
  | .read n => n ∈ s.handling
  | _ => True

structure Inv (s : ErrorReports X) : Prop where
  own : s.OwnText
  handling : ∀ n ∈ s.handling, n < s.texts.length

variable {s t : ErrorReports X}

theorem load_of_mem (hs : s.Inv) {n : ℕ} (hn : n ∈ s.handling) :
    ∃ text, s.texts[n]? = some text ∧ s.load n = some text := by
  have hlt := hs.handling n hn
  refine ⟨s.texts[n],List.getElem?_eq_getElem hlt,?_⟩
  rw [load, if_pos hn, List.getElem?_eq_getElem hlt]

/-- What is received next is right. -/
theorem ownText_append (h : s.OwnText) {n : ℕ} {o : Option X}
    (hn : ∃ text, s.texts[n]? = some text ∧ o = some text) :
    OwnText { s with received := s.received ++ [(n,o)] } := by
  intro y hy
  rcases List.mem_append.mp hy with hy | hy
  · exact h y hy
  · obtain rfl := List.mem_singleton.mp hy
    exact hn

theorem Inv.enter (hs : s.Inv) (text : X) : Inv { s with
    texts := s.texts ++ [text]
    handling := s.handling ++ [s.texts.length] } where
  own := by
    intro y hy
    obtain ⟨x,hx,hy⟩ := hs.own y hy
    refine ⟨x,?_,hy⟩
    rw [List.getElem?_append_left (List.getElem?_eq_some_iff.mp hx).1]
    exact hx
  handling := by
    intro n hn
    rw [List.length_append, List.length_singleton]
    rcases List.mem_append.mp hn with hn | hn
    · exact Nat.lt_succ_of_lt (hs.handling n hn)
    · obtain rfl := List.mem_singleton.mp hn
      exact Nat.lt_succ_self _

theorem Inv.onErr (hs : s.Inv) (role : ErrorRole) (text : X) : (s.onErr role text).Inv := by
  have henter := hs.enter text
  simp only [ErrorReports.onErr]
  split
  · split
    · exact ⟨henter.own,henter.handling⟩
    · have hload := load_of_mem henter (n := s.texts.length) (by simp)
      exact ⟨ownText_append henter.own hload,henter.handling⟩
  · exact henter

theorem step_good {a : ErrorAct X} (hs : s.Inv) (hc : s.InTime a) (h : step s a = some t) : t.Inv := by
  cases a with
  | init is_detach_recv_ | setOnErrorFunc cb =>
    cases h
    exact ⟨hs.own,hs.handling⟩
  | onErr role text =>
    cases h
    exact hs.onErr role text
  | returns n =>
    simp only [step] at h
    split at h
    · cases h
      exact ⟨hs.own,fun m hm => hs.handling m (List.mem_of_mem_erase hm)⟩
    · cases h
  | call n | done n =>
    simp only [step] at h
    split at h
    · cases h
      exact ⟨hs.own,hs.handling⟩
    · cases h
  | read n =>
    simp only [step] at h
    split at h
    · cases h
      exact ⟨ownText_append hs.own (load_of_mem hs hc),hs.handling⟩
    · cases h

theorem step_bad {a : ErrorAct X} (h : step s a = some t) (ht : t.OwnText) : s.InTime a := by
  cases a with
  | read n =>
    simp only [step] at h
    split at h
    · cases h
      obtain ⟨text,_,hload⟩ := ht (n,s.load n) (by simp)
      by_contra hn
      have hn : n ∉ s.handling := hn
      rw [load, if_neg hn] at hload
      cases hload
    · cases h
  | _ => trivial

theorem inv_fresh : (fresh : ErrorReports X).Inv where
  own _ hy := absurd hy List.not_mem_nil
  handling _ hn := absurd hn List.not_mem_nil

theorem everyStep_inTime_iff (acts : List (ErrorAct X)) :
    EveryStep step InTime fresh acts ↔ EveryState step OwnText fresh acts :=
  everyStep_iff_everyState inv_fresh (fun _ hs => hs.own) (fun _ _ _ hs hc h => step_good hs hc h)
    (fun _ _ _ _ h ht => step_bad h ht)

/-- Nothing is posted to the pool while the server is not detached. -/
structure Direct (s : ErrorReports X) : Prop where
  attached : s.is_detach_recv_ = false
  queued : s.queued = []
  running : s.running = []

theorem step_direct {a : ErrorAct X} (hs : s.Direct) (ha : a ≠ .init true) (h : step s a = some t) :
    t.Direct := by
  obtain ⟨hd,hq,hr⟩ := hs
  cases a with
  | init is_detach_recv_ =>
    cases h
    refine ⟨?_,hq,hr⟩
    cases is_detach_recv_ with
    | false => rfl
    | true => exact absurd rfl ha
  | setOnErrorFunc cb =>
    cases h
    exact ⟨hd,hq,hr⟩
  | onErr role text =>
    cases h
    have hrole : ∀ r, s.detached r = false := fun r => by cases r <;> simp [detached, hd]
    simp only [onErr]
    split
    · split
      · rename_i hdet
        cases (hrole role).symm.trans hdet
      · exact ⟨hd,hq,hr⟩
    · exact ⟨hd,hq,hr⟩
  | returns n =>
    simp only [step] at h
    split at h
    · cases h
      exact ⟨hd,hq,hr⟩
    · cases h
  | call n =>
    simp [step, hq] at h
  | read n | done n =>
    simp [step, hr] at h

/-- Without a detached server the texts are right whatever happens. -/
theorem everyStep_inTime_of_direct {acts : List (ErrorAct X)} (h : ∀ a ∈ acts, a ≠ .init true) :
    EveryStep step InTime fresh acts := by
  have hdirect : (fresh : ErrorReports X).Direct := ⟨rfl,rfl,rfl⟩
  have hboth : EveryStep step (fun s a => s.InTime a ∧ a ≠ .init true) fresh acts := by
    refine (everyStep_of_label fresh h).of_preserves hdirect ?_ fun s a t hs hc ht =>
      step_direct hs hc.2 ht
    intro s a t hs ha ht
    refine ⟨?_,ha⟩
    cases a with
    | read n => simp [step, hs.running] at ht
    | _ => trivial
  exact hboth.mono fun _ _ hc => hc.1

/-- The handler has returned when the worker's callback reads. -/
theorem report_late : ∃ s : ErrorReports ℕ,
    exec step fresh [.init true,.setOnErrorFunc true,.onErr .server 7,.returns 0,.call 0,.read 0] =
      some s ∧ s.texts = [7] ∧ s.received = [(0,none)] ∧ ¬ s.OwnText := by
  refine ⟨_,rfl,rfl,rfl,?_⟩
  intro h
  obtain ⟨text,_,ht⟩ := h (0,none) List.mem_cons_self
  cases ht

end ErrorReports
end OctCommu.Communcation
