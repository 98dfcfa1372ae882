import OctCommu.Lib.Runs
import OctCommu.Util.RingDispatcher
import Mathlib.Algebra.GroupWithZero.Nat
import Mathlib.Logic.Function.Basic

/-! # `RingBuffer` and the readers on its pollers

Any thread writes; each poller runs what was posted to it in order. A task of a poller
is one step, and so is a call of the ring, which holds its mutex. `history` is what was
written to the ring itself; the tasks a poller has yet to run are its queue.
-/
namespace OctCommu.Util.RingBuffer
open Runs
variable {P T : Type*}

inductive PollerTask (T : Type*) where
  | write (d : ℕ) (data : T) (is_key : Bool)
  | clearCache (d : ℕ)
  | dealloc (d r : ℕ)

namespace PollerTask

def dispatcher : PollerTask T → ℕ
  | .write d _ _ => d
  | .clearCache d => d
  | .dealloc d _ => d

/-- The dispatcher a task keeps; the deleter of a reader has a weak pointer. -/
def second : PollerTask T → Option ℕ
  | .write d _ _ => some d
  | .clearCache d => some d
  | .dealloc _ _ => none

def written (d : ℕ) : PollerTask T → Option (Bool × T)
  | .write e data is_key => if e = d then some (is_key,data) else none
  | .clearCache _ => none
  | .dealloc _ _ => none

end PollerTask

structure Ring (P T : Type*) where
  _storage : RingStorage T
  _delegate : Bool
  _total_count : ℤ
  _dispatcher_map : P → Option ℕ
  /-- all dispatchers that were made, numbered -/
  dispatchers : List (RingReaderDispatcher P T)
  queue : P → List (PollerTask T)
  history : List (Bool × T)
  delegated : List (Bool × T)
  alive : Bool

inductive RingAct (P T : Type*) where
  | write (data : T) (is_key : Bool)
  | setDelegate (delegate : Bool)
  | clearCache
  | attach (poller : P) (isCurrentThread use_cache : Bool)
  | setReadCB (d r : ℕ) (cb : Bool)
  /-- the last pointer to a reader goes, on its poller thread -/
  | release (d r : ℕ)
  /-- the same elsewhere, and then its deleter -/
  | expire (d r : ℕ)
  | post (d r : ℕ)
  | run (poller : P)
  /-- the end of the ring, and of a dispatcher nobody keeps -/
  | destroy
  | reap (d : ℕ)

namespace Ring

def fresh (max_size max_gop_size : ℕ) : Ring P T :=
  ⟨.create max_size max_gop_size,false,0,fun _ => none,[],fun _ => [],[],[],true⟩

def set (s : Ring P T) (d : ℕ) (x : RingReaderDispatcher P T) : Ring P T :=
  { s with dispatchers := s.dispatchers.set d x }

def readerCount (s : Ring P T) : ℤ := s._total_count

/-- What is on its way to a dispatcher. -/
def pending (s : Ring P T) (p : P) (d : ℕ) : List (Bool × T) :=
  (s.queue p).filterMap (PollerTask.written d)

/-- A task for every dispatcher of the map. -/
def asyncAll (s : Ring P T) (task : ℕ → PollerTask T) : Ring P T :=
  { s with queue := fun p => match s._dispatcher_map p with
      | some d => s.queue p ++ [task d]
      | none => s.queue p }

def write (s : Ring P T) (data : T) (is_key : Bool) : Ring P T :=
  if s._delegate then { s with delegated := s.delegated ++ [(is_key,data)] }
  else { s.asyncAll fun d => .write d data is_key with
    _storage := s._storage.write data is_key
    history := s.history ++ [(is_key,data)] }

def clearCache (s : Ring P T) : Ring P T :=
  { s.asyncAll .clearCache with _storage := s._storage.clearCache }

/-- Whether anything keeps the dispatcher. -/
def strong (s : Ring P T) (d : ℕ) (x : RingReaderDispatcher P T) : Bool :=
  s._dispatcher_map x.poller = some d || (s.queue x.poller).any fun t => t.second = some d

def setPtr (ptr : ReaderPtr) (x : RingReader T) : RingReader T := { x with ptr := ptr }

/-- A step of one reader, which has to be in the given state. -/
def reader (s : Ring P T) (d r : ℕ) (ptr : ReaderPtr)
    (f : RingReaderDispatcher P T → Ring P T) : Option (Ring P T) :=
  s.dispatchers[d]?.bind fun x =>
    if x.readers[r]?.any fun y => y.ptr = ptr then some (f x) else none

section
variable [DecidableEq P]

/-- Through the weak pointer of a dispatcher. -/
def onSizeChanged (p : P) (add_flag : Bool) (s : Ring P T) (size : ℤ) : Ring P T :=
  if s.alive then { s with
    _dispatcher_map := if size = 0 then Function.update s._dispatcher_map p none else s._dispatcher_map
    _total_count := if add_flag then s._total_count + 1 else s._total_count - 1 }
  else s

/-- The dispatcher of a poller, made when it has none. -/
def dispatcher (s : Ring P T) (p : P) : Ring P T × ℕ :=
  match s._dispatcher_map p with
  | some d => (s,d)
  | none =>
    ({ s with
      dispatchers := s.dispatchers ++ [.create p s._storage.clone s.history]
      _dispatcher_map := Function.update s._dispatcher_map p (some s.dispatchers.length) },
    s.dispatchers.length)

/-- On another thread `attach` throws, when the dispatcher is there already. -/
def attach (s : Ring P T) (p : P) (isCurrentThread use_cache : Bool) : Option (Ring P T) :=
  let (s,d) := s.dispatcher p
  if isCurrentThread then
    s.dispatchers[d]?.map fun x =>
      let x := x.attach use_cache
      (s.set d x).onSizeChanged p true x._reader_size
  else some s

/-- The task of a reader's deleter. -/
def dealloc (s : Ring P T) (d r : ℕ) (x : RingReaderDispatcher P T) : Ring P T :=
  if s.strong d x && decide (r ∈ x._reader_map) then
    let y := x.erase r
    (s.set d (y.update r (setPtr .deleted))).onSizeChanged x.poller false y._reader_size
  else s.set d (x.update r (setPtr .deleted))

def runTask (s : Ring P T) (p : P) (t : PollerTask T) : Option (Ring P T) :=
  s.dispatchers[t.dispatcher]?.map fun x =>
    match t with
    | .write d data is_key =>
      let (y,sizes) := x.write data is_key
      sizes.foldl (onSizeChanged p false) (s.set d y)
    | .clearCache d => s.set d x.clearCache
    | .dealloc d r => s.dealloc d r x

def step (s : Ring P T) : RingAct P T → Option (Ring P T)
  | .write data is_key => if s.alive then some (s.write data is_key) else none
  | .setDelegate delegate => if s.alive then some { s with _delegate := delegate } else none
  | .clearCache => if s.alive then some s.clearCache else none
  | .attach p isCurrentThread use_cache =>
    if s.alive then s.attach p isCurrentThread use_cache else none
  | .setReadCB d r cb => s.reader d r .held fun x => s.set d (x.update r (x.setReadCB cb))
  | .release d r => s.reader d r .held fun x =>
      let x := x.update r (setPtr .expired)
      (s.set d x).dealloc d r x
  | .expire d r => s.reader d r .held fun x => s.set d (x.update r (setPtr .expired))
  | .post d r => s.reader d r .expired fun x =>
      { s.set d (x.update r (setPtr .posted)) with
        queue := Function.update s.queue x.poller (s.queue x.poller ++ [.dealloc d r]) }
  | .run p =>
    match s.queue p with
    | [] => none
    | t :: ts => { s with queue := Function.update s.queue p ts }.runTask p t
  | .destroy => if s.alive then some { s with alive := false, _dispatcher_map := fun _ => none } else none
  | .reap d => s.dispatchers[d]?.bind fun x =>
      if x.deleted || s.strong d x then none else some (s.set d x.destroy)

end

/-! ### What the readers get -/

/-- A reader that is held gets one stretch of the stream, in order: it starts in the cache or where the
callback was set, and what it has not got yet is on its way. -/
def Delivers (s : Ring P T) : Prop :=
  ∀ (d : ℕ) (x : RingReaderDispatcher P T), s.dispatchers[d]? = some x → ∀ y ∈ x.readers,
    y.ptr = .held → y._read_cb = true → ∃ m ≤ y.since, y.since ≤ s.history.length ∧
      (y.use_cache = false → m = y.since) ∧
      y.received ++ (s.pending x.poller d).map Prod.snd = (s.history.drop m).map Prod.snd

def readersWith (s : Ring P T) (p : RingReader T → Bool) : ℕ :=
  (s.dispatchers.map fun x => x.readers.countP p).sum

/-- Every reader that is held is counted, and one that is gone at most until its deleter has run. -/
def Counts (s : Ring P T) : Prop :=
  s.alive = true → (s.readersWith fun y => y.ptr = .held : ℤ) ≤ s.readerCount ∧
    s.readerCount ≤ (s.readersWith fun y => y.ptr ≠ .deleted)

/-- A reader is told once at most that the stream has ended, and only at its end. -/
def EndsOnce (s : Ring P T) : Prop :=
  ∀ (d : ℕ) (x : RingReaderDispatcher P T), s.dispatchers[d]? = some x → ∀ y ∈ x.readers,
    y.detached ≤ 1 ∧ (y.ptr = .held → (y.detached = 1 ↔ x.deleted = true)) ∧
    (y.ptr = .held → y.detached = 1 → s.alive = false ∧ s.pending x.poller d = [])

/-- One dispatcher of the ring. -/
structure Dispatches (s : Ring P T) (d : ℕ) (x : RingReaderDispatcher P T) : Prop where
  inv : x.Inv
  streaming : (s._dispatcher_map x.poller = some d ∨ ∃ y ∈ x.readers, y.ptr = .held) →
    x.past ++ s.pending x.poller d = s.history
  mapped : s.alive = true → x._reader_map ≠ [] → s._dispatcher_map x.poller = some d
  unheld : s.alive = true → x.deleted = true → ∀ y ∈ x.readers, y.ptr ≠ .held
  undeleted : s.alive = true → ∀ r ∈ x._reader_map, ∀ y, x.readers[r]? = some y → y.ptr ≠ .deleted
  kept : s.strong d x = true → x.deleted = false

/-- The reader of a task is gone. -/
def Gone (x : RingReaderDispatcher P T) (r : ℕ) : Prop := ∃ y, x.readers[r]? = some y ∧ y.ptr ≠ .held

structure Inv (s : Ring P T) : Prop where
  latest : s._storage.Latest s.history
  dispatches : ∀ d x, s.dispatchers[d]? = some x → s.Dispatches d x
  map : ∀ p d, s._dispatcher_map p = some d → ∃ x, s.dispatchers[d]? = some x ∧ x.poller = p
  tasks : ∀ p, ∀ t ∈ s.queue p, ∃ x, s.dispatchers[t.dispatcher]? = some x ∧ x.poller = p ∧
    ∀ d r, t = .dealloc d r → Gone x r
  total : s.alive = true → s._total_count = (s.dispatchers.map fun x => x._reader_map.length).sum
  dead : s.alive = false → ∀ p, s._dispatcher_map p = none

variable {s t : Ring P T} {d : ℕ} {x y : RingReaderDispatcher P T}

theorem inv_fresh (max_size max_gop_size : ℕ) : (fresh max_size max_gop_size : Ring P T).Inv where
  latest := latest_create max_size max_gop_size
  dispatches _ _ h := by simp [fresh] at h
  map _ _ h := by cases h
  tasks _ _ h := absurd h List.not_mem_nil
  total _ := rfl
  dead h := by cases h

theorem strong_iff : s.strong d x = true ↔
    s._dispatcher_map x.poller = some d ∨ ∃ t ∈ s.queue x.poller, t.second = some d := by
  simp [strong]

theorem sum_set {α : Type*} (f : α → ℕ) {l : List α} {i : ℕ} {a : α} (h : l[i]? = some a) (b : α) :
    ((l.set i b).map f).sum + f a = (l.map f).sum + f b := by
  induction l generalizing i with
  | nil => simp at h
  | cons c l ih =>
    cases i with
    | zero =>
      obtain rfl : c = a := by simpa using h
      simp only [List.set_cons_zero, List.map_cons, List.sum_cons]
      omega
    | succ i =>
      have hrest := ih (i := i) (by simpa using h)
      simp only [List.set_cons_succ, List.map_cons, List.sum_cons]
      omega

/-- A step that changes one dispatcher, may take it out of the map, and may queue the removal of a reader
that is gone. -/
structure Replaces (s t : Ring P T) (d : ℕ) (x y : RingReaderDispatcher P T) : Prop where
  dispatchers : t.dispatchers = s.dispatchers.set d y
  history : t.history = s.history
  storage : t._storage = s._storage
  alive : t.alive = s.alive
  poller : y.poller = x.poller
  shrinks : ∀ p e, t._dispatcher_map p = some e → s._dispatcher_map p = some e
  others : ∀ p e, e ≠ d → s._dispatcher_map p = some e → t._dispatcher_map p = some e
  tasks : ∀ p, ∀ a ∈ t.queue p, a ∈ s.queue p ∨ ∃ r, a = .dealloc d r ∧ p = x.poller ∧ Gone y r
  pending : ∀ p e, e ≠ d → t.pending p e = s.pending p e
  gone : ∀ r, Gone x r → Gone y r
  total : s.alive = true →
    t._total_count + x._reader_map.length = s._total_count + y._reader_map.length

theorem Inv.replaces (h : s.Inv) (hx : s.dispatchers[d]? = some x) (hr : s.Replaces t d x y)
    (hy : t.Dispatches d y) : t.Inv where
  latest := by rw [hr.storage, hr.history]; exact h.latest
  dispatches := by
    intro e z hz
    rw [hr.dispatchers, List.getElem?_set] at hz
    split at hz
    · rename_i hde
      subst hde
      split at hz
      · cases hz
        exact hy
      · cases hz
    · rename_i hne
      have hne : e ≠ d := fun he => hne he.symm
      have hd := h.dispatches e z hz
      refine ⟨hd.inv,?_,?_,?_,?_,?_⟩
      · rw [hr.pending _ _ hne, hr.history]
        exact fun hs => hd.streaming (hs.imp_left (hr.shrinks _ _))
      · rw [hr.alive]
        exact fun ha hm => hr.others _ _ hne (hd.mapped ha hm)
      · rw [hr.alive]
        exact hd.unheld
      · rw [hr.alive]
        exact hd.undeleted
      · intro hs
        apply hd.kept
        rcases strong_iff.mp hs with hs | ⟨a,ha,hs⟩
        · exact strong_iff.mpr (Or.inl (hr.shrinks _ _ hs))
        · rcases hr.tasks _ a ha with ha | ⟨r,rfl,_⟩
          · exact strong_iff.mpr (Or.inr ⟨a,ha,hs⟩)
          · cases hs
  map := by
    intro p e he
    obtain ⟨z,hz,hp⟩ := h.map p e (hr.shrinks p e he)
    rw [hr.dispatchers, List.getElem?_set]
    by_cases hde : d = e
    · subst hde
      obtain rfl : x = z := Option.some.inj (hx.symm.trans hz)
      exact ⟨y,by simp [(List.getElem?_eq_some_iff.mp hx).1],hr.poller.trans hp⟩
    · exact ⟨z,by simp [hde, hz],hp⟩
  tasks := by
    intro p a ha
    rw [hr.dispatchers, List.getElem?_set]
    have hlt := (List.getElem?_eq_some_iff.mp hx).1
    rcases hr.tasks p a ha with ha | ⟨r,rfl,rfl,hgone⟩
    · obtain ⟨z,hz,hp,hg⟩ := h.tasks p a ha
      by_cases hde : d = a.dispatcher
      · rw [← hde] at hz ⊢
        obtain rfl : x = z := Option.some.inj (hx.symm.trans hz)
        exact ⟨y,by simp [hlt],hr.poller.trans hp,fun e r he => hr.gone r (hg e r he)⟩
      · exact ⟨z,by simp [hde, hz],hp,hg⟩
    · refine ⟨y,by simp [PollerTask.dispatcher, hlt],hr.poller,?_⟩
      intro e q he
      obtain ⟨rfl,rfl⟩ := PollerTask.dealloc.inj he
      exact hgone
  total := by
    intro ha
    rw [hr.alive] at ha
    have hsum := sum_set (fun z : RingReaderDispatcher P T => z._reader_map.length) hx y
    have htotal := hr.total ha
    have hs := h.total ha
    rw [hr.dispatchers]
    omega
  dead := by
    intro ha p
    rw [hr.alive] at ha
    cases hm : t._dispatcher_map p with
    | none => rfl
    | some e =>
      have hs := hr.shrinks p e hm
      rw [h.dead ha p] at hs
      cases hs

/-- A change of one dispatcher alone, in which the map of readers stays as it is. -/
theorem Inv.set (h : s.Inv) (hx : s.dispatchers[d]? = some x) (hpoller : y.poller = x.poller)
    (hmap : y._reader_map = x._reader_map) (hgone : ∀ r, Gone x r → Gone y r)
    (hy : (s.set d y).Dispatches d y) : (s.set d y).Inv :=
  h.replaces hx
    ⟨rfl,rfl,rfl,rfl,hpoller,fun _ _ h => h,fun _ _ _ h => h,fun _ _ h => Or.inl h,fun _ _ _ => rfl,hgone,
      fun _ => by rw [hmap]; rfl⟩ hy

theorem gone_update {r : ℕ} (f : RingReader T → RingReader T)
    (hf : ∀ z : RingReader T, z.ptr ≠ .held → (f z).ptr ≠ .held) (q : ℕ) (h : Gone x q) :
    Gone (x.update r f) q := by
  obtain ⟨z,hz,hptr⟩ := h
  refine ⟨_,by rw [RingReaderDispatcher.getElem?_update, hz, Option.map_some],?_⟩
  split
  · exact hf z hptr
  · exact hptr

/-- What holds of a dispatcher when one of its readers has changed. -/
theorem Dispatches.update (h : s.Dispatches d x) {r : ℕ} {f : RingReader T → RingReader T}
    (hinv : (x.update r f).Inv) (hheld : ∀ z, x.readers[r]? = some z → (f z).ptr = .held → z.ptr = .held)
    (hdeleted : s.alive = true → r ∈ x._reader_map → ∀ z, z.ptr ≠ .deleted → (f z).ptr ≠ .deleted) :
    (s.set d (x.update r f)).Dispatches d (x.update r f) where
  inv := hinv
  streaming := by
    intro hs
    refine h.streaming (hs.imp_right ?_)
    rintro ⟨z,hz,hptr⟩
    obtain ⟨q,hq⟩ := List.mem_iff_getElem?.mp hz
    rw [RingReaderDispatcher.getElem?_update] at hq
    obtain ⟨w,hw,rfl⟩ := Option.map_eq_some_iff.mp hq
    refine ⟨w,List.mem_of_getElem? hw,?_⟩
    by_cases hrq : r = q
    · subst hrq
      simp only [if_true] at hptr
      exact hheld w hw hptr
    · simpa [hrq] using hptr
  mapped := h.mapped
  unheld := by
    intro ha hd z hz hptr
    obtain ⟨q,hq⟩ := List.mem_iff_getElem?.mp hz
    rw [RingReaderDispatcher.getElem?_update] at hq
    obtain ⟨w,hw,rfl⟩ := Option.map_eq_some_iff.mp hq
    have hno := h.unheld ha hd w (List.mem_of_getElem? hw)
    by_cases hrq : r = q
    · subst hrq
      simp only [if_true] at hptr
      exact hno (hheld w hw hptr)
    · exact hno (by simpa [hrq] using hptr)
  undeleted := by
    intro ha q hq z hz
    rw [RingReaderDispatcher.getElem?_update] at hz
    obtain ⟨w,hw,rfl⟩ := Option.map_eq_some_iff.mp hz
    have hno := h.undeleted ha q hq w hw
    by_cases hrq : r = q
    · subst hrq
      simp only [if_true]
      exact hdeleted ha hq w hno
    · simpa [hrq] using hno
  kept := h.kept

theorem reader_eq_some {r : ℕ} {ptr : ReaderPtr} {f : RingReaderDispatcher P T → Ring P T}
    (h : s.reader d r ptr f = some t) : ∃ x y, s.dispatchers[d]? = some x ∧ x.readers[r]? = some y ∧
      y.ptr = ptr ∧ t = f x := by
  obtain ⟨x,hx,h⟩ := Option.bind_eq_some_iff.mp h
  split at h
  · rename_i hy
    obtain ⟨y,hy,hptr⟩ := (Option.any_eq_true _ _).mp hy
    exact ⟨x,y,hx,hy,of_decide_eq_true hptr,(Option.some.inj h).symm⟩
  · cases h

/-- A task for every dispatcher of the map, together with what it writes to the ring. -/
theorem Inv.asyncAll (h : s.Inv) (ha : s.alive = true) (task : ℕ → PollerTask T)
    (items : List (Bool × T)) (storage : RingStorage T)
    (hdispatcher : ∀ d, (task d).dispatcher = d) (hdealloc : ∀ d e r, task d ≠ .dealloc e r)
    (hwritten : ∀ d e, ((task d).written e).toList = if d = e then items else [])
    (hstorage : storage.Latest (s.history ++ items)) :
    Inv { s.asyncAll task with _storage := storage, history := s.history ++ items } where
  latest := hstorage
  dispatches := by
    intro d x hx
    have hd := h.dispatches d x hx
    have hpending : (s.asyncAll task).pending x.poller d =
        s.pending x.poller d ++ if s._dispatcher_map x.poller = some d then items else [] := by
      unfold pending Ring.asyncAll
      dsimp only
      cases hm : s._dispatcher_map x.poller with
      | none => simp
      | some e =>
        have hw := hwritten e d
        cases hv : (task e).written d with
        | none =>
          rw [hv] at hw
          simp [hv, ← hw]
        | some v =>
          rw [hv] at hw
          simp [hv, ← hw]
    refine ⟨hd.inv,?_,hd.mapped,hd.unheld,hd.undeleted,?_⟩
    · intro hs
      have hm : s._dispatcher_map x.poller = some d := by
        rcases hs with hs | ⟨y,hy,hptr⟩
        · exact hs
        · obtain ⟨r,hr⟩ := List.mem_iff_getElem?.mp hy
          have hdel : x.deleted = false := by
            by_contra hdel
            exact hd.unheld ha (by simpa using hdel) y hy hptr
          exact hd.mapped ha (List.ne_nil_of_mem (hd.inv.mapped hdel r y hr hptr))
      have hstream := hd.streaming (Or.inl hm)
      change x.past ++ (s.asyncAll task).pending x.poller d = s.history ++ items
      rw [hpending, if_pos hm, ← hstream, List.append_assoc]
    · intro hs
      apply hd.kept
      rcases strong_iff.mp hs with hs | ⟨a,ha,hs⟩
      · exact strong_iff.mpr (Or.inl hs)
      · change a ∈ (s.asyncAll task).queue x.poller at ha
        unfold Ring.asyncAll at ha
        dsimp only at ha
        split at ha
        · rename_i e hm
          rcases List.mem_append.mp ha with ha | ha
          · exact strong_iff.mpr (Or.inr ⟨a,ha,hs⟩)
          · obtain rfl := List.mem_singleton.mp ha
            have he := hdispatcher e
            have : e = d := by
              cases hv : task e with
              | dealloc f r => exact absurd hv (hdealloc e f r)
              | write f data is_key =>
                rw [hv] at hs he
                exact he.symm.trans (Option.some.inj hs)
              | clearCache f =>
                rw [hv] at hs he
                exact he.symm.trans (Option.some.inj hs)
            exact strong_iff.mpr (Or.inl (this ▸ hm))
        · exact strong_iff.mpr (Or.inr ⟨a,ha,hs⟩)
  map := h.map
  tasks := by
    intro p a ha
    change a ∈ (s.asyncAll task).queue p at ha
    unfold Ring.asyncAll at ha
    dsimp only at ha
    split at ha
    · rename_i e hm
      rcases List.mem_append.mp ha with ha | ha
      · exact h.tasks p a ha
      · obtain rfl := List.mem_singleton.mp ha
        obtain ⟨x,hx,hp⟩ := h.map p e hm
        exact ⟨x,by rw [hdispatcher]; exact hx,hp,fun f r hf => absurd hf (hdealloc e f r)⟩
    · exact h.tasks p a ha
  total := h.total
  dead := h.dead

theorem Inv.write (h : s.Inv) (ha : s.alive = true) (data : T) (is_key : Bool) : (s.write data is_key).Inv := by
  unfold Ring.write
  split
  · refine ⟨h.latest,fun d x hx => ?_,h.map,h.tasks,h.total,h.dead⟩
    have hd := h.dispatches d x hx
    exact ⟨hd.inv,hd.streaming,hd.mapped,hd.unheld,hd.undeleted,hd.kept⟩
  · apply h.asyncAll ha
    · exact fun _ => rfl
    · exact fun _ _ _ he => by cases he
    · intro d e
      by_cases hde : d = e
      · simp [PollerTask.written, hde]
      · simp [PollerTask.written, hde]
    · exact h.latest.write data is_key

theorem Inv.clearCache (h : s.Inv) (ha : s.alive = true) : s.clearCache.Inv := by
  have hall := h.asyncAll ha .clearCache [] s._storage.clearCache
    (fun _ => rfl) (fun _ _ _ he => by cases he) (fun d e => by simp [PollerTask.written])
    (latest_clearCache _)
  rw [List.append_nil] at hall
  exact hall

theorem Inv.setReadCB (h : s.Inv) (hx : s.dispatchers[d]? = some x) (r : ℕ) (cb : Bool) :
    (s.set d (x.update r (x.setReadCB cb))).Inv := by
  have hptr : ∀ z, (x.setReadCB cb z).ptr = z.ptr := by
    intro z
    cases cb <;> rfl
  apply h.set (y := x.update r (x.setReadCB cb)) hx rfl rfl
  · intro q
    exact gone_update _ (fun z hz => by rwa [hptr]) q
  · apply (h.dispatches d x hx).update ((h.dispatches d x hx).inv.setReadCB r cb)
    · intro z _ hz
      rwa [hptr] at hz
    · intro _ _ z hz
      rwa [hptr]

/-- A reader that is held, or gone, goes further. -/
theorem Inv.setPtr (h : s.Inv) (hx : s.dispatchers[d]? = some x) {r : ℕ} (ptr : ReaderPtr)
    (hheld : ptr ≠ .held) (hdeleted : ptr ≠ .deleted) : (s.set d (x.update r (setPtr ptr))).Inv := by
  apply h.set (y := x.update r (Ring.setPtr ptr)) hx rfl rfl
  · exact gone_update _ fun _ _ => hheld
  · apply (h.dispatches d x hx).update
    · exact (h.dispatches d x hx).inv.update r _ (fun _ _ hz => absurd hz hheld)
        (fun _ _ hz => absurd hz hheld) fun _ => rfl
    · exact fun _ _ hz => absurd hz hheld
    · exact fun _ _ _ _ => hdeleted

theorem gone_setPtr {r : ℕ} {z : RingReader T} {ptr : ReaderPtr} (hz : x.readers[r]? = some z)
    (hptr : ptr ≠ .held) : Gone (x.update r (Ring.setPtr ptr)) r :=
  ⟨_,by rw [RingReaderDispatcher.getElem?_update, hz, Option.map_some, if_pos rfl],hptr⟩

theorem Gone.lock {r : ℕ} (h : Gone x r) : x.lock r = false := by
  obtain ⟨z,hz,hptr⟩ := h
  simp [RingReaderDispatcher.lock, hz, hptr]

/-- A dispatcher that is neither in the map nor kept by a task has no readers while the ring is there. -/
theorem Dispatches.reader_map_nil (h : s.Dispatches d x) (ha : s.alive = true) (hs : s.strong d x = false) :
    x._reader_map = [] := by
  by_contra hne
  rw [strong_iff.mpr (Or.inl (h.mapped ha hne))] at hs
  cases hs

theorem Dispatches.destroy (h : s.Dispatches d x) (hd : x.deleted = false) (hs : s.strong d x = false) :
    (s.set d x.destroy).Dispatches d x.destroy where
  inv := h.inv.destroy hd
  streaming := by
    rintro (hm | ⟨z,hz,hptr⟩)
    · exact h.streaming (Or.inl hm)
    · refine h.streaming (Or.inr ?_)
      obtain ⟨r,hr⟩ := List.mem_iff_getElem?.mp hz
      simp only [RingReaderDispatcher.destroy, List.getElem?_mapIdx] at hr
      obtain ⟨w,hw,rfl⟩ := Option.map_eq_some_iff.mp hr
      refine ⟨w,List.mem_of_getElem? hw,?_⟩
      split at hptr <;> exact hptr
  mapped _ hne := absurd rfl hne
  unheld := by
    intro ha _ z hz hptr
    obtain ⟨r,hr⟩ := List.mem_iff_getElem?.mp hz
    simp only [RingReaderDispatcher.destroy, List.getElem?_mapIdx] at hr
    obtain ⟨w,hw,rfl⟩ := Option.map_eq_some_iff.mp hr
    have hheld : w.ptr = .held := by split at hptr <;> exact hptr
    have hmem := h.inv.mapped hd r w hw hheld
    rw [h.reader_map_nil ha hs] at hmem
    cases hmem
  undeleted _ r hr := by cases hr
  kept ht := absurd (hs.symm.trans ht) Bool.false_ne_true

theorem Inv.reap (h : s.Inv) (hx : s.dispatchers[d]? = some x) (hd : x.deleted = false)
    (hs : s.strong d x = false) : (s.set d x.destroy).Inv := by
  have hdisp := h.dispatches d x hx
  refine h.replaces hx ⟨rfl,rfl,rfl,rfl,rfl,fun _ _ h => h,fun _ _ _ h => h,fun _ _ h => Or.inl h,
    fun _ _ _ => rfl,?_,?_⟩ (hdisp.destroy hd hs)
  · rintro r ⟨z,hz,hptr⟩
    refine ⟨_,by rw [RingReaderDispatcher.destroy, List.getElem?_mapIdx, hz, Option.map_some],?_⟩
    split <;> exact hptr
  · intro ha
    rw [hdisp.reader_map_nil ha hs]
    rfl

theorem Inv.destroy (h : s.Inv) : Inv { s with alive := false, _dispatcher_map := fun _ => none } where
  latest := h.latest
  dispatches := by
    intro d x hx
    have hd := h.dispatches d x hx
    have hno : ¬(false = true) := Bool.false_ne_true
    refine ⟨hd.inv,?_,fun ha => absurd ha hno,fun ha => absurd ha hno,fun ha => absurd ha hno,?_⟩
    · rintro (hm | hheld)
      · cases hm
      · exact hd.streaming (Or.inr hheld)
    · intro hs
      apply hd.kept
      rcases strong_iff.mp hs with hs | hs
      · cases hs
      · exact strong_iff.mpr (Or.inr hs)
  map p d hm := by cases hm
  tasks := h.tasks
  total ha := by cases ha
  dead _ _ := rfl

section
variable [DecidableEq P]

/-- The removal of a reader is queued. -/
theorem Inv.post (h : s.Inv) (hx : s.dispatchers[d]? = some x) {r : ℕ} {z : RingReader T}
    (hz : x.readers[r]? = some z) : Inv { s.set d (x.update r (Ring.setPtr .posted)) with
      queue := Function.update s.queue x.poller (s.queue x.poller ++ [.dealloc d r]) } := by
  have hset := h.setPtr hx (r := r) .posted (by decide) (by decide)
  have hlt := (List.getElem?_eq_some_iff.mp hx).1
  have hpending : ∀ p e, pending { s.set d (x.update r (Ring.setPtr .posted)) with
      queue := Function.update s.queue x.poller (s.queue x.poller ++ [.dealloc d r]) } p e =
      s.pending p e := by
    intro p e
    unfold pending
    dsimp only
    rw [Function.update_apply]
    split
    · rename_i hp
      rw [hp]
      simp [PollerTask.written]
    · rfl
  have htasks : ∀ p, ∀ a ∈ Function.update s.queue x.poller (s.queue x.poller ++ [.dealloc d r]) p,
      a ∈ s.queue p ∨ a = .dealloc d r ∧ p = x.poller := by
    intro p a ha
    rw [Function.update_apply] at ha
    split at ha
    · rename_i hp
      subst hp
      rcases List.mem_append.mp ha with ha | ha
      · exact Or.inl ha
      · exact Or.inr ⟨List.mem_singleton.mp ha,rfl⟩
    · exact Or.inl ha
  have hdisp := hset.dispatches d (x.update r (Ring.setPtr .posted)) (by simp [Ring.set, hlt])
  refine h.replaces hx ⟨rfl,rfl,rfl,rfl,rfl,fun _ _ h => h,fun _ _ _ h => h,?_,
    fun p e _ => hpending p e,gone_update _ fun _ _ => by simp [Ring.setPtr],fun _ => rfl⟩
    ⟨hdisp.inv,?_,hdisp.mapped,hdisp.unheld,hdisp.undeleted,?_⟩
  · intro p a ha
    refine (htasks p a ha).imp_right ?_
    rintro ⟨rfl,hp⟩
    exact ⟨r,rfl,hp,gone_setPtr hz (by decide)⟩
  · intro hs
    rw [hpending]
    exact hdisp.streaming hs
  · intro hs
    apply hdisp.kept
    rcases strong_iff.mp hs with hs | ⟨a,ha,hs⟩
    · exact strong_iff.mpr (Or.inl hs)
    · rcases htasks _ a ha with ha | ⟨rfl,_⟩
      · exact strong_iff.mpr (Or.inr ⟨a,ha,hs⟩)
      · cases hs

theorem foldl_onSizeChanged (p : P) (sizes : List ℤ) (u : Ring P T) :
    sizes.foldl (onSizeChanged p false) u = { u with
      _dispatcher_map := if u.alive = true ∧ 0 ∈ sizes then Function.update u._dispatcher_map p none
        else u._dispatcher_map
      _total_count := if u.alive then u._total_count - sizes.length else u._total_count } := by
  induction sizes generalizing u with
  | nil => simp
  | cons size sizes ih =>
    rw [List.foldl_cons, ih]
    unfold onSizeChanged
    by_cases ha : u.alive = true
    · have hcount : u._total_count - 1 - (sizes.length : ℤ) = u._total_count - (sizes.length + 1 : ℕ) := by
        push_cast
        omega
      simp only [ha, if_true, Bool.false_eq_true, if_false, List.mem_cons, List.length_cons, hcount, true_and]
      by_cases h0 : size = 0
      · subst h0
        simp
      · simp [h0, Ne.symm h0]
    · simp [ha]

/-- A dispatcher that reports it has no readers leaves the map. -/
theorem shrinks_map {m : P → Option ℕ} {p : P} (hm : m p = some d) (c : Prop) [Decidable c] :
    (∀ q e, (if c then Function.update m p none else m) q = some e → m q = some e) ∧
    ∀ q e, e ≠ d → m q = some e → (if c then Function.update m p none else m) q = some e := by
  constructor
  · intro q e he
    split at he
    · rw [Function.update_apply] at he
      split at he
      · cases he
      · exact he
    · exact he
  · intro q e hne he
    split
    · rw [Function.update_apply]
      split
      · rename_i hq
        rw [hq, hm] at he
        exact absurd (Option.some.inj he).symm hne
      · exact he
    · exact he

theorem pending_pop {p : P} {a : PollerTask T} {rest : List (PollerTask T)} (hq : s.queue p = a :: rest)
    (q : P) (e : ℕ) : s.pending q e =
      (if q = p then (a.written e).toList else []) ++
        pending { s with queue := Function.update s.queue p rest } q e := by
  unfold pending
  dsimp only
  rw [Function.update_apply]
  split
  · rename_i hqp
    rw [hqp, hq]
    cases hw : a.written e with
    | none => simp [hw]
    | some v => simp [hw]
  · rfl

theorem mem_pop {p : P} {a b : PollerTask T} {rest : List (PollerTask T)} (hq : s.queue p = a :: rest)
    {q : P} (hb : b ∈ Function.update s.queue p rest q) : b ∈ s.queue q := by
  rw [Function.update_apply] at hb
  split at hb
  · rename_i hqp
    rw [hqp, hq]
    exact List.mem_cons_of_mem _ hb
  · exact hb

/-- A task that writes nothing is taken. -/
theorem Inv.pop (h : s.Inv) {p : P} {a : PollerTask T} {rest : List (PollerTask T)}
    (hq : s.queue p = a :: rest) (ha : ∀ e, a.written e = none) :
    Inv { s with queue := Function.update s.queue p rest } where
  latest := h.latest
  dispatches := by
    intro d x hx
    have hd := h.dispatches d x hx
    refine ⟨hd.inv,?_,hd.mapped,hd.unheld,hd.undeleted,?_⟩
    · intro hs
      have hpop := pending_pop hq x.poller d
      rw [ha, Option.toList_none, ite_self, List.nil_append] at hpop
      rw [← hpop]
      exact hd.streaming hs
    · intro hs
      apply hd.kept
      refine strong_iff.mpr ((strong_iff.mp hs).imp_right ?_)
      exact fun ⟨b,hb,hs⟩ => ⟨b,mem_pop hq hb,hs⟩
  map := h.map
  tasks q b hb := h.tasks q b (mem_pop hq hb)
  total := h.total
  dead := h.dead

theorem Inv.runWrite (h : s.Inv) {p : P} {data : T} {is_key : Bool} {rest : List (PollerTask T)}
    (hq : s.queue p = .write d data is_key :: rest) (hx : s.dispatchers[d]? = some x)
    (hy : (x.write data is_key).1 = y) :
    Inv ((x.write data is_key).2.foldl (onSizeChanged p false)
      (Ring.set { s with queue := Function.update s.queue p rest } d y)) := by
  have hd := h.dispatches d x hx
  obtain ⟨z,hz,hp,_⟩ := h.tasks p (.write d data is_key) (by rw [hq]; exact List.mem_cons_self)
  obtain rfl : x = z := Option.some.inj (hx.symm.trans hz)
  obtain ⟨hpoller,hdel,hpast⟩ := RingReaderDispatcher.write_fields hd.inv.nodup data is_key
  have halive : x.deleted = false := by
    apply hd.kept
    refine strong_iff.mpr (Or.inr ⟨.write d data is_key,?_,rfl⟩)
    rw [hp, hq]
    exact List.mem_cons_self
  obtain ⟨hlen,hzero⟩ := hd.inv.length_write halive data is_key
  have hinv := hd.inv.write halive data is_key
  have hmem := RingReaderDispatcher.mem_map_write hd.inv.nodup data is_key
  have hptr := fun {r : ℕ} {w : RingReader T} => RingReaderDispatcher.ptr_write (r := r) (x := w)
    hd.inv.nodup data is_key
  have hget := RingReaderDispatcher.getElem?_write hd.inv.nodup data is_key
  rw [hy] at hpoller hdel hpast hlen hzero hinv hmem hptr hget
  rw [foldl_onSizeChanged]
  have hmapped : s.alive = true → (x.write data is_key).2 ≠ [] → s._dispatcher_map p = some d := by
    intro ha hne
    rw [← hp]
    apply hd.mapped ha
    intro hnil
    rw [hnil, List.length_nil] at hlen
    have hpos := List.length_pos_of_ne_nil hne
    omega
  have hshrinks : (∀ q e, (if s.alive = true ∧ 0 ∈ (x.write data is_key).2 then
        Function.update s._dispatcher_map p none else s._dispatcher_map) q = some e →
        s._dispatcher_map q = some e) ∧
      ∀ q e, e ≠ d → s._dispatcher_map q = some e → (if s.alive = true ∧ 0 ∈ (x.write data is_key).2 then
        Function.update s._dispatcher_map p none else s._dispatcher_map) q = some e := by
    by_cases hc : s.alive = true ∧ 0 ∈ (x.write data is_key).2
    · exact shrinks_map (hmapped hc.1 (List.ne_nil_of_mem hc.2)) _
    · simp only [hc, if_false, imp_self, implies_true, and_self]
  refine h.replaces hx ⟨rfl,rfl,rfl,rfl,hpoller,hshrinks.1,hshrinks.2,?_,?_,?_,?_⟩ ⟨hinv,?_,?_,?_,?_,?_⟩
  · exact fun q a ha => Or.inl (mem_pop hq ha)
  · intro q e hne
    rw [pending_pop hq q e]
    simp only [PollerTask.written, Ne.symm hne, if_false, Option.toList_none, ite_self, List.nil_append]
    rfl
  · rintro r ⟨w,hw,hheld⟩
    refine ⟨_,by rw [hget, hw, Option.map_some],?_⟩
    rw [if_neg fun hc => hheld hc.2]
    exact hheld
  · intro ha
    change (if s.alive then _ else _) + _ = _
    rw [if_pos ha]
    dsimp only [Ring.set]
    omega
  · intro hs
    have hstream : x.past ++ s.pending x.poller d = s.history := by
      apply hd.streaming
      rcases hs with hs | ⟨w,hw,hheld⟩
      · left
        have hs := hshrinks.1 _ _ hs
        rwa [hpoller] at hs
      · right
        obtain ⟨r,hr⟩ := List.mem_iff_getElem?.mp hw
        obtain ⟨v,hv,hvptr,_⟩ := hptr hr
        exact ⟨v,List.mem_of_getElem? hv,hvptr ▸ hheld⟩
    have hpop := pending_pop hq x.poller d
    rw [if_pos hp] at hpop
    simp only [hpop, PollerTask.written, if_true, Option.toList_some] at hstream
    rw [hpoller, hpast, List.append_assoc]
    exact hstream
  · intro ha hne
    have h0 : 0 ∉ (x.write data is_key).2 := fun h0 => hne (hzero h0)
    change (if s.alive = true ∧ 0 ∈ (x.write data is_key).2 then Function.update s._dispatcher_map p none
      else s._dispatcher_map) y.poller = some d
    rw [if_neg fun hc => h0 hc.2, hpoller]
    apply hd.mapped ha
    obtain ⟨r,hr⟩ := List.exists_mem_of_ne_nil _ hne
    exact List.ne_nil_of_mem ((hmem r).mp hr).1
  · intro _ hdeleted
    rw [hdel, halive] at hdeleted
    cases hdeleted
  · intro ha r hr w hw
    obtain ⟨v,hv,hvptr,_⟩ := hptr hw
    rw [hvptr]
    exact hd.undeleted ha r ((hmem r).mp hr).1 v hv
  · exact fun _ => hdel.trans halive

theorem set_onSizeChanged (p : P) (add_flag : Bool) (size : ℤ) (x y : RingReaderDispatcher P T) :
    onSizeChanged p add_flag (s.set d y) size = (onSizeChanged p add_flag (s.set d x) size).set d y := by
  unfold onSizeChanged Ring.set
  dsimp only
  split <;> simp

/-- A reader that is gone leaves the map of its dispatcher. -/
theorem Inv.eraseReader (h : s.Inv) (hx : s.dispatchers[d]? = some x) {r : ℕ} (hgone : Gone x r)
    (hmem : r ∈ x._reader_map) (hs : s.strong d x = true) :
    (onSizeChanged x.poller false (s.set d (x.erase r)) (x.erase r)._reader_size).Inv := by
  have hd := h.dispatches d x hx
  have hdel := hd.kept hs
  have hinv := hd.inv.erase hmem hgone.lock
  have hsize := hinv.size hdel
  have hlen : (x.erase r)._reader_map.length = x._reader_map.length - 1 := List.length_erase_of_mem hmem
  have hpos := List.length_pos_of_mem hmem
  have hfold := foldl_onSizeChanged x.poller [(x.erase r)._reader_size] (s.set d (x.erase r))
  rw [List.foldl_cons, List.foldl_nil] at hfold
  rw [hfold]
  have hshrinks : (∀ q e, (if s.alive = true ∧ 0 ∈ [(x.erase r)._reader_size] then
        Function.update s._dispatcher_map x.poller none else s._dispatcher_map) q = some e →
        s._dispatcher_map q = some e) ∧
      ∀ q e, e ≠ d → s._dispatcher_map q = some e → (if s.alive = true ∧ 0 ∈ [(x.erase r)._reader_size] then
        Function.update s._dispatcher_map x.poller none else s._dispatcher_map) q = some e := by
    by_cases hc : s.alive = true ∧ 0 ∈ [(x.erase r)._reader_size]
    · exact shrinks_map (hd.mapped hc.1 (List.ne_nil_of_mem hmem)) _
    · simp only [hc, if_false, imp_self, implies_true, and_self]
  refine h.replaces hx ⟨rfl,rfl,rfl,rfl,rfl,hshrinks.1,hshrinks.2,fun _ _ ha => Or.inl ha,fun _ _ _ => rfl,
    fun _ hg => hg,?_⟩ ⟨hinv,?_,?_,hd.unheld,?_,fun _ => hdel⟩
  · intro ha
    change (if s.alive then _ else _) + _ = _
    rw [if_pos ha, hlen]
    dsimp only [Ring.set, List.length_singleton]
    omega
  · exact fun ht => hd.streaming (ht.imp_left (hshrinks.1 _ _))
  · intro ha hne
    change (if s.alive = true ∧ 0 ∈ [(x.erase r)._reader_size] then
      Function.update s._dispatcher_map x.poller none else s._dispatcher_map) x.poller = some d
    have hpos := List.length_pos_of_ne_nil hne
    rw [if_neg]
    · exact hd.mapped ha (List.ne_nil_of_mem hmem)
    · rintro ⟨_,h0⟩
      have h0 := List.mem_singleton.mp h0
      omega
  · exact fun ha q hq => hd.undeleted ha q (List.mem_of_mem_erase hq)

theorem Inv.dealloc (h : s.Inv) (hx : s.dispatchers[d]? = some x) {r : ℕ} (hgone : Gone x r) :
    (s.dealloc d r x).Inv := by
  have hdelete : ∀ {u : Ring P T} {w : RingReaderDispatcher P T}, u.Inv → u.dispatchers[d]? = some w →
      (u.alive = true → r ∉ w._reader_map) → (u.set d (w.update r (Ring.setPtr .deleted))).Inv := by
    intro u w hu hw hno
    apply hu.set (y := w.update r (Ring.setPtr .deleted)) hw rfl rfl
    · exact gone_update _ fun _ _ => by simp [Ring.setPtr]
    · apply (hu.dispatches d w hw).update
      · exact (hu.dispatches d w hw).inv.update r _ (fun _ _ hz => by cases hz)
          (fun _ _ hz => by cases hz) fun _ => rfl
      · exact fun _ _ hz => by cases hz
      · exact fun ha hmem => absurd hmem (hno ha)
  have hlt := (List.getElem?_eq_some_iff.mp hx).1
  unfold Ring.dealloc
  split
  · rename_i hc
    obtain ⟨hs,hmem⟩ := Bool.and_eq_true_iff.mp hc
    have hmem := of_decide_eq_true hmem
    dsimp only
    rw [set_onSizeChanged x.poller false _ (x.erase r)]
    apply hdelete (h.eraseReader hx hgone hmem hs)
    · unfold onSizeChanged
      split <;> simp [Ring.set, hlt]
    · intro _ hr
      exact (List.Nodup.mem_erase_iff (h.dispatches d x hx).inv.nodup).mp hr |>.1 rfl
  · rename_i hc
    apply hdelete h hx
    intro ha hmem
    have hs : s.strong d x = false := by
      by_contra hs
      apply hc
      rw [Bool.not_eq_false] at hs
      rw [hs, decide_eq_true hmem]
      rfl
    rw [(h.dispatches d x hx).reader_map_nil ha hs] at hmem
    cases hmem

/-- A poller without a dispatcher gets one, with a copy of the cache. -/
theorem Inv.dispatcher (h : s.Inv) (ha : s.alive = true) (p : P) : (s.dispatcher p).1.Inv ∧
    (s.dispatcher p).1._dispatcher_map p = some (s.dispatcher p).2 ∧ (s.dispatcher p).1.alive = true := by
  unfold Ring.dispatcher
  cases hm : s._dispatcher_map p with
  | some d => exact ⟨h,hm,ha⟩
  | none =>
    refine ⟨⟨h.latest,?_,?_,?_,?_,?_⟩,Function.update_self ..,ha⟩
    · intro e z hz
      rw [List.getElem?_append] at hz
      split at hz
      · rename_i hlt
        have hd := h.dispatches e z hz
        have hne : ∀ {q : P}, Function.update s._dispatcher_map p (some s.dispatchers.length) q = some e →
            s._dispatcher_map q = some e := by
          intro q hq
          rw [Function.update_apply] at hq
          split at hq
          · exact absurd (Option.some.inj hq) hlt.ne'
          · exact hq
        refine ⟨hd.inv,fun hs => hd.streaming (hs.imp_left hne),?_,hd.unheld,hd.undeleted,?_⟩
        · intro ha hmap
          have hz := hd.mapped ha hmap
          change Function.update s._dispatcher_map p (some s.dispatchers.length) z.poller = some e
          rw [Function.update_apply, if_neg]
          · exact hz
          · intro hp
            rw [hp, hm] at hz
            cases hz
        · intro hs
          exact hd.kept (strong_iff.mpr ((strong_iff.mp hs).imp_left hne))
      · rename_i hge
        obtain ⟨hi,hz⟩ := List.getElem?_eq_some_iff.mp hz
        simp only [List.length_singleton] at hi
        obtain rfl : e = s.dispatchers.length := by omega
        simp only [Nat.sub_self, List.getElem_cons_zero] at hz
        subst hz
        have hno : s.pending p s.dispatchers.length = [] := by
          apply List.filterMap_eq_nil_iff.mpr
          intro t ht
          obtain ⟨w,hw,_⟩ := h.tasks p t ht
          have hlt := (List.getElem?_eq_some_iff.mp hw).1
          cases t with
          | write e data is_key => exact if_neg hlt.ne
          | clearCache e => rfl
          | dealloc e r => rfl
        refine ⟨RingReaderDispatcher.inv_create p h.latest,fun _ => ?_,fun _ hne => absurd rfl hne,
          fun _ hdel => absurd hdel Bool.false_ne_true,fun _ r hr => absurd hr List.not_mem_nil,fun _ => rfl⟩
        change s.history ++ s.pending p s.dispatchers.length = s.history
        rw [hno, List.append_nil]
    · intro q e he
      change Function.update s._dispatcher_map p (some s.dispatchers.length) q = some e at he
      rw [Function.update_apply] at he
      split at he
      · rename_i hq
        obtain rfl := Option.some.inj he
        exact ⟨.create p s._storage.clone s.history,by simp,hq.symm⟩
      · obtain ⟨z,hz,hp⟩ := h.map q e he
        exact ⟨z,List.getElem?_append_left (List.getElem?_eq_some_iff.mp hz).1 ▸ hz,hp⟩
    · intro q t ht
      obtain ⟨z,hz,hrest⟩ := h.tasks q t ht
      exact ⟨z,List.getElem?_append_left (List.getElem?_eq_some_iff.mp hz).1 ▸ hz,hrest⟩
    · intro ha
      have htotal := h.total ha
      simpa [RingReaderDispatcher.create] using htotal
    · intro hdead
      rw [ha] at hdead
      cases hdead

theorem Inv.attach (h : s.Inv) (ha : s.alive = true) {p : P} {isCurrentThread use_cache : Bool}
    (ht : s.attach p isCurrentThread use_cache = some t) : t.Inv := by
  obtain ⟨hu,hm,halive⟩ := h.dispatcher ha p
  unfold Ring.attach at ht
  generalize s.dispatcher p = u at ht hu hm halive
  obtain ⟨u,d⟩ := u
  dsimp only at ht hu hm halive
  split at ht
  · obtain ⟨x,hx,rfl⟩ := Option.map_eq_some_iff.mp ht
    obtain ⟨w,hw,hp⟩ := hu.map p d hm
    obtain rfl : x = w := Option.some.inj (hx.symm.trans hw)
    have hd := hu.dispatches d x hx
    have hdel := hd.kept (strong_iff.mpr (Or.inl (hp ▸ hm)))
    have hinv := hd.inv.attach hdel use_cache
    have hsize := hd.inv.size hdel
    have hlen : (x.attach use_cache)._reader_map.length = x._reader_map.length + 1 := by
      simp [RingReaderDispatcher.attach]
    have hnz : (x.attach use_cache)._reader_size ≠ 0 := by
      simp only [RingReaderDispatcher.attach]
      omega
    unfold onSizeChanged
    rw [if_pos (show (u.set d (x.attach use_cache)).alive = true from halive), if_neg hnz]
    refine hu.replaces hx ⟨rfl,rfl,rfl,rfl,rfl,fun _ _ h => h,fun _ _ _ h => h,fun _ _ h => Or.inl h,
      fun _ _ _ => rfl,?_,?_⟩ ⟨hinv,?_,?_,?_,?_,fun _ => hdel⟩
    · rintro r ⟨z,hz,hptr⟩
      exact ⟨z,List.getElem?_append_left (List.getElem?_eq_some_iff.mp hz).1 ▸ hz,hptr⟩
    · intro _
      rw [hlen]
      simp only [if_true, Ring.set]
      push_cast
      omega
    · exact fun _ => hd.streaming (Or.inl (hp ▸ hm))
    · exact fun _ _ => hp ▸ hm
    · intro _ hdeleted
      exact absurd (hdel.symm.trans hdeleted) Bool.false_ne_true
    · intro halive r hr z hz hptr
      by_cases hlt : r < x.readers.length
      · have hz : x.readers[r]? = some z := List.getElem?_append_left hlt ▸ hz
        refine hd.undeleted halive r ?_ z hz hptr
        rcases List.mem_append.mp hr with hr | hr
        · exact hr
        · obtain rfl := List.mem_singleton.mp hr
          exact absurd hlt (Nat.lt_irrefl _)
      · have hr : r = x.readers.length := by
          rcases List.mem_append.mp hr with hr | hr
          · exact absurd (hd.inv.valid r hr) hlt
          · exact List.mem_singleton.mp hr
        subst hr
        simp only [RingReaderDispatcher.attach, List.getElem?_concat_length, Option.some.injEq] at hz
        subst hz
        cases hptr
  · cases ht
    exact hu

end

end Ring

end OctCommu.Util.RingBuffer
