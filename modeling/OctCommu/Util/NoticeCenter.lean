import OctCommu.Lib.Runs
import Mathlib.Data.List.Basic
import Mathlib.Logic.Function.Basic

/-! # `NoticeCenter`

Any number of threads add and delete listeners and emit events. Each section under a
lock is one step. The dispatcher a thread was given stays its own while the center
forgets it, so what is added to it then is never called.
-/
namespace OctCommu.Util
open Runs
variable {T E : Type*} [DecidableEq T] [DecidableEq E]

/-- The function that was added in the call of `addListener` with this number. -/
structure Listener (T E : Type*) where
  tag : T
  event : E
  number : ℕ
  deriving DecidableEq

/-- A dispatcher, with the event for which it was made. -/
structure EventDispatcher (T E : Type*) where
  event : E
  _mapListener : List (Listener T E)
  deriving DecidableEq

/-- Where a thread is between two sections; a dispatcher is its number. What an emission has to call
is noted when it begins and when it copies. -/
inductive Noticing (T E : Type*) where
  | outside
  | adding (tag : T) (event : E) (dispatcher : ℕ)
  | deleting (tag : T) (event : E) (dispatcher : ℕ)
  | erasing (tag : T) (event : E) (dispatcher : ℕ)
  | emitting (dispatcher : ℕ) (expects : List (Listener T E))
  | calling (expects rest called : List (Listener T E))
  deriving DecidableEq

/-- An emission that is over. -/
structure Emission (T E : Type*) where
  expects : List (Listener T E)
  called : List (Listener T E)
  interrupted : Bool
  deriving DecidableEq

/-- `standing` are the listeners whose `addListener` has returned and for whose tag no `delListener`
was under way then or has begun since, nor a `clearAll`. -/
structure NoticeCenter (T E : Type*) where
  _mapListener : E → Option ℕ
  dispatchers : List (EventDispatcher T E)
  threads : List (Noticing T E)
  added : ℕ
  standing : List (Listener T E)
  emissions : List (Emission T E)

inductive NoticeAct (T E : Type*) where
  | addListener (t : ℕ) (tag : T) (event : E)
  | add (t : ℕ)
  | delListener (t : ℕ) (tag : T) (event : E)
  | del (t : ℕ)
  | delDispatcher (t : ℕ)
  /-- `delListener(tag)`. -/
  | delTag (t : ℕ) (tag : T)
  | clearAll (t : ℕ)
  | emitEvent (t : ℕ) (event : E)
  /-- The copy has the listeners in any order. -/
  | copy (t : ℕ) (copy : List (Listener T E))
  | call (t : ℕ) (interrupt : Bool)
  | emitted (t : ℕ)

namespace EventDispatcher

def addListener (x : EventDispatcher T E) (l : Listener T E) : EventDispatcher T E :=
  { x with _mapListener := x._mapListener ++ [l] }

def delListener (x : EventDispatcher T E) (tag : T) : EventDispatcher T E :=
  { x with _mapListener := x._mapListener.filter fun l => l.tag ≠ tag }

end EventDispatcher

def Noticing.deletes (tag : T) : Noticing T E → Bool
  | .deleting tag' _ _ | .erasing tag' _ _ => tag' = tag
  | _ => false

namespace NoticeCenter

def fresh (n : ℕ) : NoticeCenter T E := ⟨fun _ => none,[],List.replicate n .outside,0,[],[]⟩

def listeners (s : NoticeCenter T E) (d : ℕ) : List (Listener T E) :=
  match s.dispatchers[d]? with
  | none => []
  | some x => x._mapListener

def move (s : NoticeCenter T E) (t : ℕ) (pc : Noticing T E) : NoticeCenter T E :=
  { s with threads := s.threads.set t pc }

def finish (s : NoticeCenter T E) (t : ℕ) (e : Emission T E) : NoticeCenter T E :=
  { s with emissions := s.emissions ++ [e], threads := s.threads.set t .outside }

/-- `getDispatcher(event, true)`. -/
def getDispatcher (s : NoticeCenter T E) (event : E) : NoticeCenter T E × ℕ :=
  match s._mapListener event with
  | some d => (s,d)
  | none => ({ s with
      _mapListener := Function.update s._mapListener event (some s.dispatchers.length)
      dispatchers := s.dispatchers ++ [⟨event,[]⟩] },s.dispatchers.length)

/-- A `delListener` for this tag begins. -/
def begins (s : NoticeCenter T E) (tag : T) : NoticeCenter T E :=
  { s with standing := s.standing.filter fun l => l.tag ≠ tag }

def add (s : NoticeCenter T E) (tag : T) (event : E) (d : ℕ) : NoticeCenter T E :=
  let l : Listener T E := ⟨tag,event,s.added⟩
  { s with
    dispatchers := s.dispatchers.modify d fun x => x.addListener l
    added := s.added + 1
    standing := if s.threads.any (Noticing.deletes tag) then s.standing else s.standing ++ [l] }

def del (s : NoticeCenter T E) (tag : T) (d : ℕ) : NoticeCenter T E :=
  { s with dispatchers := s.dispatchers.modify d fun x => x.delListener tag }

def delDispatcher (s : NoticeCenter T E) (event : E) (d : ℕ) : NoticeCenter T E :=
  if s._mapListener event = some d then
    { s with _mapListener := Function.update s._mapListener event none }
  else s

/-- The dispatchers that the center has lose the tag, and those that are empty by then are erased. -/
def delTag (s : NoticeCenter T E) (tag : T) : NoticeCenter T E :=
  let s := { s with dispatchers := s.dispatchers.mapIdx fun (d : ℕ) (x : EventDispatcher T E) =>
    if s._mapListener x.event = some d then x.delListener tag else x }
  { s with _mapListener := fun event =>
      (s._mapListener event).filter fun d => ¬ (s.listeners d).isEmpty }

def step (s : NoticeCenter T E) (a : NoticeAct T E) : Option (NoticeCenter T E) :=
  match a with
  | .addListener t tag event =>
    match s.threads[t]? with
    | some .outside =>
      let r := s.getDispatcher event
      some (r.1.move t (.adding tag event r.2))
    | _ => none
  | .add t =>
    match s.threads[t]? with
    | some (.adding tag event d) => some ((s.add tag event d).move t .outside)
    | _ => none
  | .delListener t tag event =>
    match s.threads[t]? with
    | some .outside =>
      match s._mapListener event with
      | none => some (s.begins tag)
      | some d => some ((s.begins tag).move t (.deleting tag event d))
    | _ => none
  | .del t =>
    match s.threads[t]? with
    | some (.deleting tag event d) =>
      let s := s.del tag d
      some (s.move t (if (s.listeners d).isEmpty then .erasing tag event d else .outside))
    | _ => none
  | .delDispatcher t =>
    match s.threads[t]? with
    | some (.erasing _ event d) => some ((s.delDispatcher event d).move t .outside)
    | _ => none
  | .delTag t tag =>
    match s.threads[t]? with
    | some .outside => some ((s.begins tag).delTag tag)
    | _ => none
  | .clearAll t =>
    match s.threads[t]? with
    | some .outside => some { s with _mapListener := fun _ => none, standing := [] }
    | _ => none
  | .emitEvent t event =>
    match s.threads[t]? with
    | some .outside =>
      let expects := s.standing.filter fun l => l.event = event
      match s._mapListener event with
      | none => some (s.finish t ⟨expects,[],false⟩)
      | some d => some (s.move t (.emitting d expects))
    | _ => none
  | .copy t copy =>
    match s.threads[t]? with
    | some (.emitting d expects) =>
      if copy.isPerm (s.listeners d) then
        some (s.move t (.calling (expects.filter fun l => l ∈ s.standing) copy []))
      else none
    | _ => none
  | .call t interrupt =>
    match s.threads[t]? with
    | some (.calling expects (l :: rest) called) =>
      if interrupt then
        some (s.finish t ⟨expects,called ++ [l],true⟩)
      else some (s.move t (.calling expects rest (called ++ [l])))
    | _ => none
  | .emitted t =>
    match s.threads[t]? with
    | some (.calling expects [] called) =>
      some (s.finish t ⟨expects,called,false⟩)
    | _ => none

/-- The dispatcher an emission finds has every listener that stands, and an emission calls those that
stood when it began and when it copied, unless a listener interrupts it. -/
structure Kept (s : NoticeCenter T E) : Prop where
  found : ∀ l ∈ s.standing, ∃ d, s._mapListener l.event = some d ∧ l ∈ s.listeners d
  called : ∀ e ∈ s.emissions, e.interrupted = false → ∀ l ∈ e.expects, l ∈ e.called

/-- A listener is added to the dispatcher that the center has, unless its tag is being deleted; and a
dispatcher is forgotten when no listener of the event stands. -/
def Attached (s : NoticeCenter T E) : NoticeAct T E → Prop
  | .add t => ∀ tag event d, s.threads[t]? = some (.adding tag event d) →
    s.threads.any (Noticing.deletes tag) = false → s._mapListener event = some d
  | .delDispatcher t => ∀ tag event d, s.threads[t]? = some (.erasing tag event d) →
    s._mapListener event = some d → ∀ l ∈ s.standing, l.event ≠ event
  | _ => True

/-- What is known of a thread between its sections. -/
def Knows (s : NoticeCenter T E) : Noticing T E → Prop
  | .deleting tag _ _ | .erasing tag _ _ => ∀ l ∈ s.standing, l.tag ≠ tag
  | .emitting d expects => ∀ l ∈ expects, l.number < s.added ∧ (l ∈ s.standing → l ∈ s.listeners d)
  | .calling expects rest called => ∀ l ∈ expects, l ∈ called ++ rest
  | _ => True

structure Inv (s : NoticeCenter T E) : Prop extends Kept s where
  dispatcher : ∀ event d, s._mapListener event = some d → d < s.dispatchers.length
  number : ∀ d, ∀ l ∈ s.listeners d, l.number < s.added
  threads : ∀ pc ∈ s.threads, s.Knows pc

variable {s : NoticeCenter T E}

omit [DecidableEq T] [DecidableEq E] in
theorem mem_listeners {d : ℕ} {l : Listener T E} :
    l ∈ s.listeners d ↔ ∃ x, s.dispatchers[d]? = some x ∧ l ∈ x._mapListener := by
  unfold listeners
  cases s.dispatchers[d]? with
  | none => simp
  | some x => simp

omit [DecidableEq E] in
theorem mem_listeners_add {tag : T} {event : E} {d e : ℕ} {l : Listener T E} :
    l ∈ (s.add tag event d).listeners e ↔
      l ∈ s.listeners e ∨ (d = e ∧ d < s.dispatchers.length ∧ l = ⟨tag,event,s.added⟩) := by
  simp only [mem_listeners, add, List.getElem?_modify]
  by_cases hd : d = e
  · subst hd
    by_cases hlt : d < s.dispatchers.length
    · simp [EventDispatcher.addListener, hlt]
    · simp [hlt]
  · simp [hd]

omit [DecidableEq E] in
theorem mem_listeners_del {tag : T} {d e : ℕ} {l : Listener T E} :
    l ∈ (s.del tag d).listeners e ↔ l ∈ s.listeners e ∧ (d = e → l.tag ≠ tag) := by
  simp only [mem_listeners, del, List.getElem?_modify]
  by_cases hd : d = e
  · subst hd
    cases s.dispatchers[d]? with
    | none => simp
    | some x => simp [EventDispatcher.delListener]
  · simp [hd]

omit [DecidableEq T] in
theorem mem_listeners_getDispatcher {event : E} {d : ℕ} {l : Listener T E} :
    l ∈ (s.getDispatcher event).1.listeners d ↔ l ∈ s.listeners d := by
  unfold getDispatcher
  split
  · rfl
  · simp only [mem_listeners]
    rcases lt_trichotomy d s.dispatchers.length with h | h | h
    · rw [List.getElem?_append_left h]
    · subst h
      simp
    · rw [List.getElem?_eq_none (by simp; omega), List.getElem?_eq_none h.le]

omit [DecidableEq E] in
theorem mem_listeners_delTag {tag : T} {d : ℕ} {l : Listener T E} :
    l ∈ (s.delTag tag).listeners d ↔ ∃ x, s.dispatchers[d]? = some x ∧ l ∈ x._mapListener ∧
      (s._mapListener x.event = some d → l.tag ≠ tag) := by
  simp only [mem_listeners, delTag, List.getElem?_mapIdx]
  cases s.dispatchers[d]? with
  | none => simp
  | some x =>
    by_cases h : s._mapListener x.event = some d
    · simp [h, EventDispatcher.delListener]
    · simp [h]

omit [DecidableEq E] in
/-- What the center forgets in `delListener(tag)` has no listener left. -/
theorem map_delTag {tag : T} {event : E} {d : ℕ} {l : Listener T E}
    (h : s._mapListener event = some d) (hl : l ∈ (s.delTag tag).listeners d) :
    (s.delTag tag)._mapListener event = some d := by
  have hne : ¬ ((s.delTag tag).listeners d).isEmpty := by
    rw [List.isEmpty_iff]
    exact List.ne_nil_of_mem hl
  have hmap : (s.delTag tag)._mapListener event =
      (s._mapListener event).filter fun d => ¬ ((s.delTag tag).listeners d).isEmpty := rfl
  rw [hmap, h, Option.filter_some_pos (by simpa using hne)]

omit [DecidableEq E] in
theorem Knows.mono {u : NoticeCenter T E} {pc : Noticing T E} (h : s.Knows pc)
    (hstanding : ∀ l ∈ u.standing, l ∈ s.standing ∨ (l.number = s.added ∧ pc.deletes l.tag = false))
    (hadded : s.added ≤ u.added)
    (hkeep : ∀ d, ∀ l ∈ u.standing, l ∈ s.listeners d → l ∈ u.listeners d) : u.Knows pc := by
  cases pc with
  | outside => trivial
  | adding tag event d => trivial
  | deleting tag event d | erasing tag event d =>
    intro l hl
    rcases hstanding l hl with hs | ⟨_,hdel⟩
    · exact h l hs
    · exact fun he => absurd he.symm (of_decide_eq_false hdel)
  | emitting d expects =>
    intro l hl
    obtain ⟨hlt,hmem⟩ := h l hl
    refine ⟨hlt.trans_le hadded,fun hu => ?_⟩
    rcases hstanding l hu with hs | ⟨hnum,_⟩
    · exact hkeep d l hu (hmem hs)
    · exact absurd hnum hlt.ne
  | calling expects rest called => exact h

omit [DecidableEq E] in
/-- A step after which no listener stands that did not stand before. -/
theorem Inv.advance {u : NoticeCenter T E} (hs : s.Inv) (hstanding : ∀ l ∈ u.standing, l ∈ s.standing)
    (hadded : u.added = s.added)
    (hkeep : ∀ d, ∀ l ∈ u.standing, l ∈ s.listeners d → l ∈ u.listeners d)
    (hnew : ∀ d, ∀ l ∈ u.listeners d, l ∈ s.listeners d)
    (hmap : ∀ l ∈ u.standing, ∀ d, s._mapListener l.event = some d → l ∈ u.listeners d →
      u._mapListener l.event = some d)
    (hdispatcher : ∀ event d, u._mapListener event = some d → d < u.dispatchers.length)
    (hcalled : ∀ e ∈ u.emissions, e ∈ s.emissions ∨
      (e.interrupted = false → ∀ l ∈ e.expects, l ∈ e.called))
    (hthreads : ∀ pc ∈ u.threads, pc ∈ s.threads ∨ u.Knows pc) : u.Inv where
  found l hl := by
    obtain ⟨d,hd,hmem⟩ := hs.found l (hstanding l hl)
    have hu := hkeep d l hl hmem
    exact ⟨d,hmap l hl d hd hu,hu⟩
  called e he := (hcalled e he).elim (hs.called e) id
  dispatcher := hdispatcher
  number d l hl := by
    rw [hadded]
    exact hs.number d l (hnew d l hl)
  threads pc hpc := by
    rcases hthreads pc hpc with h | h
    · exact (hs.threads pc h).mono (fun l hl => .inl (hstanding l hl)) hadded.ge hkeep
    · exact h

omit [DecidableEq T] [DecidableEq E] in
theorem inv_fresh (n : ℕ) : (fresh n : NoticeCenter T E).Inv where
  found l hl := absurd hl List.not_mem_nil
  called e he := absurd he List.not_mem_nil
  dispatcher event d h := by cases h
  number d l hl := by simp [listeners, fresh] at hl
  threads pc hpc := by
    obtain rfl := List.eq_of_mem_replicate hpc
    trivial

omit [DecidableEq E] in
theorem Inv.move (hs : s.Inv) (t : ℕ) {pc : Noticing T E} (hpc : s.Knows pc) : (s.move t pc).Inv := by
  refine hs.advance (fun _ hl => hl) rfl (fun _ _ _ hl => hl) (fun _ _ hl => hl)
    (fun _ _ _ hd _ => hd) hs.dispatcher (fun _ he => .inl he) ?_
  intro x hx
  rcases List.mem_or_eq_of_mem_set hx with h | rfl
  · exact .inl h
  · exact .inr (hpc.mono (fun _ hl => .inl hl) le_rfl fun _ _ _ hl => hl)

theorem Inv.getDispatcher (hs : s.Inv) (event : E) : (s.getDispatcher event).1.Inv := by
  cases hm : s._mapListener event with
  | some d =>
    simp only [NoticeCenter.getDispatcher, hm]
    exact hs
  | none =>
    have heq : (s.getDispatcher event).1 = { s with
        _mapListener := Function.update s._mapListener event (some s.dispatchers.length)
        dispatchers := s.dispatchers ++ [⟨event,[]⟩] } := by
      simp only [NoticeCenter.getDispatcher, hm]
    have hmem (d : ℕ) (l : Listener T E) :
        l ∈ (s.getDispatcher event).1.listeners d ↔ l ∈ s.listeners d := mem_listeners_getDispatcher
    rw [heq] at hmem ⊢
    refine hs.advance (fun _ hl => hl) rfl (fun d l _ hl => (hmem d l).mpr hl)
      (fun d l hl => (hmem d l).mp hl) ?_ ?_ (fun _ he => .inl he) (fun _ hpc => .inl hpc)
    · intro l _ d hd _
      have hne : l.event ≠ event := by
        rintro rfl
        rw [hm] at hd
        cases hd
      simp only [Function.update_of_ne hne]
      exact hd
    · intro e d hd
      simp only [List.length_append, List.length_singleton]
      by_cases he : e = event
      · subst he
        simp only [Function.update_self] at hd
        cases hd
        exact Nat.lt_succ_self _
      · simp only [Function.update_of_ne he] at hd
        exact Nat.lt_succ_of_lt (hs.dispatcher e d hd)

omit [DecidableEq E] in
theorem Inv.begins (hs : s.Inv) (tag : T) : (s.begins tag).Inv :=
  hs.advance (fun _ hl => (List.mem_filter.mp hl).1) rfl (fun _ _ _ hl => hl) (fun _ _ hl => hl)
    (fun _ _ _ hd _ => hd) hs.dispatcher (fun _ he => .inl he) (fun _ hpc => .inl hpc)

omit [DecidableEq E] in
theorem not_standing_begins {tag : T} : ∀ l ∈ (s.begins tag).standing, l.tag ≠ tag := by
  intro l hl
  simpa using (List.mem_filter.mp hl).2

omit [DecidableEq E] in
theorem Inv.del (hs : s.Inv) {tag : T} (htag : ∀ l ∈ s.standing, l.tag ≠ tag) (d : ℕ) :
    (s.del tag d).Inv := by
  refine hs.advance (fun _ hl => hl) rfl
    (fun e l hl hmem => mem_listeners_del.mpr ⟨hmem,fun _ => htag l hl⟩)
    (fun e l hl => (mem_listeners_del.mp hl).1) (fun _ _ _ hd _ => hd) ?_ (fun _ he => .inl he)
    (fun _ hpc => .inl hpc)
  intro event e he
  simp only [NoticeCenter.del, List.length_modify]
  exact hs.dispatcher event e he

theorem Inv.delDispatcher (hs : s.Inv) {event : E} {d : ℕ}
    (hnone : s._mapListener event = some d → ∀ l ∈ s.standing, l.event ≠ event) :
    (s.delDispatcher event d).Inv := by
  unfold NoticeCenter.delDispatcher
  split
  · rename_i hd
    refine hs.advance (fun _ hl => hl) rfl (fun _ _ _ hl => hl) (fun _ _ hl => hl) ?_ ?_
      (fun _ he => .inl he) (fun _ hpc => .inl hpc)
    · intro l hl e he _
      simp only [Function.update_of_ne (hnone hd l hl)]
      exact he
    · intro e k hk
      by_cases he : e = event
      · subst he
        simp only [Function.update_self] at hk
        cases hk
      · simp only [Function.update_of_ne he] at hk
        exact hs.dispatcher e k hk
  · exact hs

omit [DecidableEq E] in
theorem Inv.delTag (hs : s.Inv) {tag : T} (htag : ∀ l ∈ s.standing, l.tag ≠ tag) :
    (s.delTag tag).Inv := by
  refine hs.advance (fun _ hl => hl) rfl ?_ ?_ (fun l _ d hd hl => map_delTag hd hl) ?_
    (fun _ he => .inl he) (fun _ hpc => .inl hpc)
  · intro d l hl hmem
    obtain ⟨x,hx,hlx⟩ := mem_listeners.mp hmem
    exact mem_listeners_delTag.mpr ⟨x,hx,hlx,fun _ => htag l hl⟩
  · intro d l hl
    obtain ⟨x,hx,hlx,_⟩ := mem_listeners_delTag.mp hl
    exact mem_listeners.mpr ⟨x,hx,hlx⟩
  · intro event d hd
    have hd : s._mapListener event = some d := (Option.filter_eq_some_iff.mp hd).1
    simp only [NoticeCenter.delTag, List.length_mapIdx]
    exact hs.dispatcher event d hd

omit [DecidableEq E] in
theorem Inv.finish (hs : s.Inv) (t : ℕ) {e : Emission T E}
    (he : e.interrupted = false → ∀ l ∈ e.expects, l ∈ e.called) : (s.finish t e).Inv := by
  refine hs.advance (fun _ hl => hl) rfl (fun _ _ _ hl => hl) (fun _ _ hl => hl)
    (fun _ _ _ hd _ => hd) hs.dispatcher ?_ ?_
  · intro x hx
    rcases List.mem_append.mp hx with hx | hx
    · exact .inl hx
    · obtain rfl := List.mem_singleton.mp hx
      exact .inr he
  · intro x hx
    rcases List.mem_or_eq_of_mem_set hx with h | rfl
    · exact .inl h
    · exact .inr trivial

omit [DecidableEq E] in
/-- What is added stands if nobody deletes its tag, and then the center has its dispatcher. -/
theorem Inv.add (hs : s.Inv) {tag : T} {event : E} {d : ℕ}
    (hd : s.threads.any (Noticing.deletes tag) = false → s._mapListener event = some d) :
    (s.add tag event d).Inv := by
  have hstanding : ∀ l ∈ (s.add tag event d).standing, l ∈ s.standing ∨
      (l = ⟨tag,event,s.added⟩ ∧ s.threads.any (Noticing.deletes tag) = false) := by
    intro l hl
    simp only [NoticeCenter.add] at hl
    split at hl
    · exact .inl hl
    · rename_i hdel
      rcases List.mem_append.mp hl with hl | hl
      · exact .inl hl
      · exact .inr ⟨List.mem_singleton.mp hl,by simpa using hdel⟩
  constructor
  · constructor
    · intro l hl
      rcases hstanding l hl with hl | ⟨rfl,hdel⟩
      · obtain ⟨e,he,hmem⟩ := hs.found l hl
        exact ⟨e,he,mem_listeners_add.mpr (.inl hmem)⟩
      · have hmap := hd hdel
        exact ⟨d,hmap,mem_listeners_add.mpr (.inr ⟨rfl,hs.dispatcher _ _ hmap,rfl⟩)⟩
    · exact hs.called
  · intro e k hk
    simp only [NoticeCenter.add, List.length_modify]
    exact hs.dispatcher e k hk
  · intro e l hl
    rcases mem_listeners_add.mp hl with hl | ⟨_,_,rfl⟩
    · exact Nat.lt_succ_of_lt (hs.number e l hl)
    · exact Nat.lt_succ_self _
  · intro pc hpc
    apply (hs.threads pc hpc).mono _ (Nat.le_succ _) fun e l _ hl => mem_listeners_add.mpr (.inl hl)
    intro l hl
    rcases hstanding l hl with hl | ⟨rfl,hdel⟩
    · exact .inl hl
    · right
      refine ⟨rfl,?_⟩
      rw [List.any_eq_false] at hdel
      simpa using hdel pc hpc

omit [DecidableEq E] in
theorem Inv.clearAll (hs : s.Inv) :
    Inv { s with _mapListener := fun _ => none, standing := [] } :=
  hs.advance (fun _ hl => absurd hl List.not_mem_nil) rfl (fun _ _ _ hl => hl) (fun _ _ hl => hl)
    (fun _ hl => absurd hl List.not_mem_nil) (fun _ _ hd => by cases hd) (fun _ he => .inl he)
    (fun _ hpc => .inl hpc)

section
variable {u : NoticeCenter T E} {t : ℕ}

omit [DecidableEq T] in
/-- The dispatcher of an event has all its listeners that stand. -/
theorem Inv.expects (hs : s.Inv) {event : E} {l : Listener T E}
    (hl : l ∈ s.standing.filter fun l => l.event = event) :
    ∃ d, s._mapListener event = some d ∧ l ∈ s.listeners d := by
  obtain ⟨hl,he⟩ := List.mem_filter.mp hl
  rw [← of_decide_eq_true he]
  exact hs.found l hl

theorem Inv.step_emitEvent (hs : s.Inv) {event : E} (h : step s (.emitEvent t event) = some u) : u.Inv := by
  simp only [step] at h
  split at h
  · split at h
    · rename_i hnone
      cases h
      apply hs.finish
      intro _ l hl
      obtain ⟨d,hd,_⟩ := hs.expects hl
      rw [hnone] at hd
      cases hd
    · rename_i d hd
      cases h
      apply hs.move
      intro l hl
      obtain ⟨e,hmap,hmem⟩ := hs.expects hl
      rw [hd] at hmap
      cases hmap
      exact ⟨hs.number d l hmem,fun _ => hmem⟩
  · cases h

theorem Inv.step_copy (hs : s.Inv) {copy : List (Listener T E)} (h : step s (.copy t copy) = some u) : u.Inv := by
  simp only [step] at h
  split at h
  · rename_i d expects hpc
    obtain ⟨hperm,h⟩ := Option.ite_none_right_eq_some.mp h
    cases h
    apply hs.move
    intro l hl
    obtain ⟨hl,hst⟩ := List.mem_filter.mp hl
    have hmem := (hs.threads _ (List.mem_of_getElem? hpc) l hl).2 (of_decide_eq_true hst)
    exact (List.isPerm_iff.mp hperm).mem_iff.mpr hmem
  · cases h

theorem Inv.step_call (hs : s.Inv) {interrupt : Bool} (h : step s (.call t interrupt) = some u) : u.Inv := by
  simp only [step] at h
  split at h
  · rename_i expects l rest called hpc
    have hall := hs.threads _ (List.mem_of_getElem? hpc)
    split at h
    · cases h
      exact hs.finish t fun hi => by cases hi
    · cases h
      apply hs.move
      intro x hx
      simpa using hall x hx
  · cases h

theorem Inv.step_emitted (hs : s.Inv) (h : step s (.emitted t) = some u) : u.Inv := by
  simp only [step] at h
  split at h
  · rename_i expects called hpc
    cases h
    apply hs.finish
    intro _ l hl
    simpa using hs.threads _ (List.mem_of_getElem? hpc) l hl
  · cases h

theorem Inv.step_del (hs : s.Inv) (h : step s (.del t) = some u) : u.Inv := by
  simp only [step] at h
  split at h
  · rename_i tag event d hpc
    cases h
    have htag := hs.threads _ (List.mem_of_getElem? hpc)
    apply (hs.del htag d).move t
    split
    · exact htag
    · trivial
  · cases h

theorem step_inv {a : NoticeAct T E} (hs : s.Inv) (hc : s.Attached a) (h : step s a = some u) : u.Inv := by
  cases a with
  | addListener t tag event =>
    simp only [step] at h
    split at h <;> cases h
    exact (hs.getDispatcher event).move t trivial
  | add t =>
    simp only [step] at h
    split at h <;> cases h
    rename_i tag event d hpc
    exact (hs.add (hc tag event d hpc)).move t trivial
  | delListener t tag event =>
    simp only [step] at h
    split at h
    · split at h <;> cases h
      · exact hs.begins tag
      · exact (hs.begins tag).move t not_standing_begins
    · cases h
  | del t => exact hs.step_del h
  | delDispatcher t =>
    simp only [step] at h
    split at h <;> cases h
    rename_i tag event d hpc
    exact (hs.delDispatcher (hc tag event d hpc)).move t trivial
  | delTag t tag =>
    simp only [step] at h
    split at h <;> cases h
    exact (hs.begins tag).delTag not_standing_begins
  | clearAll t =>
    simp only [step] at h
    split at h <;> cases h
    exact hs.clearAll
  | emitEvent t event => exact hs.step_emitEvent h
  | copy t copy => exact hs.step_copy h
  | call t interrupt => exact hs.step_call h
  | emitted t => exact hs.step_emitted h

end

/-- A listener that stands where the center does not look is lost at once. -/
theorem step_lost {u : NoticeCenter T E} {a : NoticeAct T E} (hs : s.Inv) (h : step s a = some u)
    (hu : u.Kept) : s.Attached a := by
  cases a with
  | add t =>
    intro tag event d hpc hdel
    simp only [step, hpc] at h
    cases h
    have hst : (⟨tag,event,s.added⟩ : Listener T E) ∈ ((s.add tag event d).move t .outside).standing := by
      simp [move, add, hdel]
    obtain ⟨e,he,hmem⟩ := hu.found _ hst
    rcases mem_listeners_add.mp hmem with hold | ⟨rfl,_⟩
    · exact absurd (hs.number e _ hold) (lt_irrefl _)
    · exact he
  | delDispatcher t =>
    intro tag event d hpc hd l hl he
    simp only [step, hpc] at h
    cases h
    have hst : l ∈ ((s.delDispatcher event d).move t .outside).standing := by
      simpa [move, delDispatcher, hd] using hl
    obtain ⟨e,hmap,_⟩ := hu.found l hst
    simp [move, delDispatcher, hd, he] at hmap
  | _ => trivial

theorem everyStep_attached_iff (n : ℕ) (acts : List (NoticeAct T E)) :
    EveryStep step Attached (fresh n) acts ↔ EveryState step Kept (fresh n) acts :=
  everyStep_iff_everyState (inv_fresh n) (fun _ hs => hs.toKept)
    (fun _ _ _ hs hc h => step_inv hs hc h) (fun _ _ _ hs h hu => step_lost hs h hu)

/-- Between the moment when the dispatcher was found empty and its removal a listener is added. -/
theorem addListener_lost : ∃ s : NoticeCenter ℕ ℕ,
    exec step (fresh 2) [.addListener 0 1 7,.add 0,.delListener 0 1 7,.addListener 1 2 7,.del 0,.add 1,
      .delDispatcher 0,.emitEvent 1 7] = some s ∧
    s.standing = [⟨2,7,1⟩] ∧ s._mapListener 7 = none ∧ s.emissions = [⟨[⟨2,7,1⟩],[],false⟩] ∧
    ¬ s.Kept := by
  refine ⟨_,rfl,rfl,rfl,rfl,?_⟩
  intro h
  obtain ⟨d,hd,_⟩ := h.found _ List.mem_cons_self
  cases hd

end NoticeCenter
end OctCommu.Util
