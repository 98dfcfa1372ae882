import OctCommu.Lib.Runs
import OctCommu.Lib.Threads
import Mathlib.Data.List.Perm.Basic

/-! # `ResourcePool` among any number of threads

The flag `_busy` is tried, never waited for. What a thread does between winning it and
clearing it, and the steps of the deleter of a pointer, are steps of their own; `setSize`
does without the flag, and its `reserve` begins and ends between any two of them. What becomes of
a vector that is moved under a thread is left open.
-/
namespace OctCommu.Util
open Runs

/-- Which call made a pointer, and whether it was given an `on_recycle`. -/
inductive Obtained where
  | obtain (on_recycle : Bool)
  | obtain2
  deriving DecidableEq

/-- Where a thread is: in `getPtr` with `_busy` won, before and after the object is taken; in the
deleter, before and after the pool is locked; in `recycle` with `_busy` won, before and after the
size is read and after the object is stored. -/
inductive PoolCall where
  | outside
  | getting (k : Obtained)
  | got (k : Obtained) (i : ℕ)
  | releasing (k : Obtained) (i : ℕ)
  | recycling (i : ℕ)
  | storing (i : ℕ)
  | keeping (i : ℕ)
  | stored
  deriving DecidableEq

namespace PoolCall

def carries (i : ℕ) : PoolCall → Bool
  | got _ j | releasing _ j | recycling j | storing j | keeping j => j = i
  | _ => false

def inside : PoolCall → Bool
  | getting _ | got _ _ | storing _ | keeping _ | stored => true
  | _ => false

/-- It has a pointer to the pool of its own. -/
def locked : PoolCall → Bool
  | recycling _ | storing _ | keeping _ | stored => true
  | _ => false

def calling : PoolCall → Bool
  | getting _ | got _ _ => true
  | _ => false

def keeps : PoolCall → Bool
  | keeping _ => true
  | _ => false

end PoolCall

/-- A pool, its threads, the users' pointers and how many `reserve` move the vector. The last six are what happened: the objects that were
made and deleted, those handed out with an `on_recycle` and those it was called for, the largest size
that was set, and whether the vector was moved while a thread worked on it. -/
structure ResourcePool where
  _pool_size : ℕ
  /-- the back of the vector first -/
  _objs : List ℕ
  _busy : Bool
  owner : Bool
  freed : Bool
  threads : List PoolCall
  used : List (Obtained × ℕ)
  reserving : ℕ
  made : ℕ
  deleted : List ℕ
  given : List ℕ
  called : List ℕ
  largest : ℕ
  raced : Bool

inductive PoolAct where
  /-- `ok`: whether the constructor of an object returns -/
  | obtain (t : ℕ) (k : Obtained) (ok : Bool)
  | getPtr (t : ℕ) (ok : Bool)
  | clear (t : ℕ)
  /-- the last pointer to an object goes -/
  | release (t n : ℕ)
  | lock (t : ℕ) (quit : Bool)
  | recycle (t : ℕ)
  | store (t : ℕ)
  | keep (t : ℕ)
  /-- `moves`: whether `reserve` finds the capacity too small -/
  | setSize (n : ℕ) (moves : Bool)
  /-- a `reserve` that moves the vector is over -/
  | reserved
  | reset
  /-- the last pointer to the pool goes -/
  | free

namespace ResourcePool

def fresh (n : ℕ) : ResourcePool := ⟨8,[],false,true,false,List.replicate n .outside,[],0,0,[],[],[],8,false⟩

/-- Thread `t` goes on to `b`. -/
def move (s : ResourcePool) (t : ℕ) (b : PoolCall) : ResourcePool :=
  { s with threads := s.threads.set t b }

def give (s : ResourcePool) (k : Obtained) (i : ℕ) : ResourcePool :=
  { s with
    used := s.used ++ [(k,i)]
    given := if k = Obtained.obtain true then s.given ++ [i] else s.given }

def delete (s : ResourcePool) (i : ℕ) : ResourcePool := { s with deleted := s.deleted ++ [i] }

/-- A thread wins `_busy`. -/
def enter (s : ResourcePool) : ResourcePool :=
  { s with _busy := true, raced := s.raced || decide (0 < s.reserving) }

/-- Somebody has a pointer to the pool. -/
def strong (s : ResourcePool) : Bool := s.owner || s.threads.any PoolCall.locked

def step (s : ResourcePool) : PoolAct → Option ResourcePool
  | .obtain t k ok =>
    if s.owner ∧ s.threads[t]? = some .outside then
      if s._busy then
        some (if ok then { s with made := s.made + 1 }.give k s.made else s)
      else some (s.enter.move t (.getting k))
    else none
  | .getPtr t ok =>
    match s.threads[t]? with
    | some (.getting k) =>
      match s._objs with
      -- an exception of the constructor leaves `_busy` set
      | [] => some (if ok then { s with made := s.made + 1 }.move t (.got k s.made) else s.move t .outside)
      | i :: objs => some ({ s with _objs := objs }.move t (.got k i))
    | _ => none
  | .clear t =>
    match s.threads[t]? with
    | some (.got k i) => some (({ s with _busy := false }.move t .outside).give k i)
    | some .stored => some ({ s with _busy := false }.move t .outside)
    | _ => none
  | .release t n =>
    match s.threads[t]?, s.used[n]? with
    | some .outside, some (k,i) => some ({ s with
        used := s.used.eraseIdx n
        called := if k = Obtained.obtain true then s.called ++ [i] else s.called }.move t (.releasing k i))
    | _, _ => none
  | .lock t quit =>
    match s.threads[t]? with
    | some (.releasing k i) =>
      if quit ∧ k = .obtain2 then none
      else if s.strong ∧ quit = false then some (s.move t (.recycling i))
      else some ((s.delete i).move t .outside)
    | _ => none
  | .recycle t =>
    match s.threads[t]? with
    | some (.recycling i) =>
      if s._busy then some ((s.delete i).move t .outside)
      else some (s.enter.move t (.storing i))
    | _ => none
  | .store t =>
    match s.threads[t]? with
    | some (.storing i) =>
      if s._pool_size ≤ s._objs.length then some ((s.delete i).move t .stored)
      else some (s.move t (.keeping i))
    | _ => none
  | .keep t =>
    match s.threads[t]? with
    | some (.keeping i) => some ({ s with _objs := i :: s._objs }.move t .stored)
    | _ => none
  | .setSize n moves =>
    if s.owner then
      some { s with
        _pool_size := n
        largest := max s.largest n
        reserving := if moves then s.reserving + 1 else s.reserving
        raced := s.raced || (moves && (decide (0 < s.reserving) || s.threads.any PoolCall.inside)) }
    else none
  | .reserved => if 0 < s.reserving then some { s with reserving := s.reserving - 1 } else none
  | .reset =>
    if s.owner ∧ s.reserving = 0 ∧ s.threads.any PoolCall.calling = false then some { s with owner := false }
    else none
  | .free =>
    if s.strong = false ∧ s.freed = false then
      some { s with _objs := [], deleted := s.deleted ++ s._objs, freed := true }
    else none

/-- The objects in the hands of a thread. -/
def carried (s : ResourcePool) : List ℕ := s.threads.filterMap fun
  | .got _ i | .releasing _ i | .recycling i | .storing i | .keeping i => some i
  | _ => none

/-- No `setSize` moves a vector that somebody works on, and nobody begins to while one does. -/
def Unraced (s : ResourcePool) : PoolAct → Prop
  | .setSize _ moves => moves → s.reserving = 0 ∧ ∀ c ∈ s.threads, c.inside = false
  | .obtain _ _ _ | .recycle _ => s._busy = false → s.reserving = 0
  | _ => True

structure Sound (s : ResourcePool) : Prop where
  /-- every object is in one place: stored, with one user, in the hands of one thread, or deleted once -/
  placed : (s._objs ++ s.used.map Prod.snd ++ s.carried ++ s.deleted).Perm (List.range s.made)
  exclusive : s.threads.countP PoolCall.inside ≤ 1
  size : s._objs.length ≤ s.largest
  /-- `on_recycle` is called once for each pointer that has one -/
  recycled : (s.called ++ (s.used.filter fun u => u.1 = Obtained.obtain true).map Prod.snd).Perm s.given
  /-- a pool that is gone keeps nothing, and nobody works on it -/
  gone : s.freed = true → s._objs = [] ∧ ∀ c ∈ s.threads, c.inside = false
  unraced : s.raced = false

/-- How many places an object is in. -/
def places (s : ResourcePool) (x : ℕ) : ℕ :=
  s._objs.count x + (s.used.map Prod.snd).count x + s.threads.countP (PoolCall.carries x) + s.deleted.count x

structure Inv (s : ResourcePool) : Prop where
  placed : ∀ x, s.places x = (List.range s.made).count x
  lock : s.threads.countP PoolCall.inside ≤ if s._busy then 1 else 0
  size : s._objs.length ≤ s.largest
  bound : s._pool_size ≤ s.largest
  /-- between its test and its `emplace_back` nobody else stores -/
  room : 0 < s.threads.countP PoolCall.keeps → s._objs.length < s.largest
  recycled : (s.called ++ (s.used.filter fun u => u.1 = Obtained.obtain true).map Prod.snd).Perm s.given
  owned : s.owner = false → s.threads.countP PoolCall.calling = 0
  gone : s.freed = true → s.owner = false ∧ s._objs = [] ∧ s.threads.countP PoolCall.locked = 0
  unraced : s.raced = false

variable {s u : ResourcePool}

theorem count_carried (s : ResourcePool) (x : ℕ) : s.carried.count x = s.threads.countP (PoolCall.carries x) := by
  unfold carried
  rw [List.count, List.countP_filterMap]
  apply List.countP_congr
  intro c _
  cases c <;> simp [PoolCall.carries]

theorem Inv.sound (h : s.Inv) : s.Sound where
  placed := by
    rw [List.perm_iff_count]
    intro x
    rw [List.count_append, List.count_append, List.count_append, count_carried]
    exact h.placed x
  exclusive := h.lock.trans (by split <;> decide)
  size := h.size
  recycled := h.recycled
  gone hf := by
    obtain ⟨ho,hobjs,hlocked⟩ := h.gone hf
    refine ⟨hobjs,?_⟩
    intro c hc
    have hl := List.countP_eq_zero.mp hlocked c hc
    have hk := List.countP_eq_zero.mp (h.owned ho) c hc
    cases c <;> simp_all [PoolCall.locked, PoolCall.calling, PoolCall.inside]
  unraced := h.unraced

theorem inv_fresh (n : ℕ) : (fresh n).Inv := by
  have hout : ∀ p : PoolCall → Bool, p .outside = false → (fresh n).threads.countP p = 0 := by
    intro p hp
    simp [fresh, List.countP_replicate, hp]
  refine ⟨?_,?_,Nat.zero_le _,le_rfl,fun _ => Nat.succ_pos 7,List.Perm.nil,fun _ => hout _ rfl,
    fun h => (by cases h),rfl⟩
  · intro x
    have hx := hout (PoolCall.carries x) rfl
    simp only [places, hx]
    simp [fresh]
  · rw [hout _ rfl]
    exact Nat.zero_le _

theorem Inv.keeps_le (h : s.Inv) : s.threads.countP PoolCall.keeps ≤ 1 := by
  have hinside : s.threads.countP PoolCall.keeps ≤ s.threads.countP PoolCall.inside := by
    apply List.countP_mono_left
    intro c _ hc
    cases c <;> first | rfl | cases hc
  exact hinside.trans (h.lock.trans (by split <;> decide))

/-- A thread goes on from `a` to `b`: no object is lost or doubled, `_busy` covers those inside, and
nobody comes to a pool that is gone. -/
theorem Inv.move (h : s.Inv) {t : ℕ} {a b : PoolCall} (ht : s.threads[t]? = some a)
    (hthreads : u.threads = s.threads.set t b)
    (hsame : u._pool_size = s._pool_size ∧ u.largest = s.largest ∧ u.owner = s.owner ∧ u.freed = s.freed ∧
      u.raced = s.raced)
    (hplaces : ∀ x, u._objs.count x + (u.used.map Prod.snd).count x + (if b.carries x then 1 else 0) +
        u.deleted.count x + (List.range s.made).count x =
      s._objs.count x + (s.used.map Prod.snd).count x + (if a.carries x then 1 else 0) +
        s.deleted.count x + (List.range u.made).count x)
    (hlock : (if b.inside then 1 else 0) + (if s._busy then 1 else 0) ≤
      (if a.inside then 1 else 0) + if u._busy then 1 else 0)
    (hsize : u._objs.length ≤ s._objs.length ∨ a.keeps = true ∧ u._objs.length ≤ s.largest)
    (hroom : b.keeps = true → u._objs.length < s.largest)
    (hrecycled : (u.called ++ (u.used.filter fun u => u.1 = Obtained.obtain true).map Prod.snd).Perm u.given)
    (hcalling : b.calling = true → s.owner = true)
    (hgone : s.freed = true → u._objs = [] ∧ (b.locked = true → a.locked = true)) : u.Inv := by
  obtain ⟨hpool,hlargest,howner,hfreed,hraced⟩ := hsame
  have hinside := Threads.countP_set ht b PoolCall.inside
  refine ⟨?_,?_,?_,by rw [hpool, hlargest]; exact h.bound,?_,hrecycled,?_,?_,hraced.trans h.unraced⟩
  · intro x
    have hx := h.placed x
    have hux := hplaces x
    have hcarries := Threads.countP_set ht b (PoolCall.carries x)
    simp only [places] at hx ⊢
    rw [hthreads]
    omega
  · have hl := h.lock
    rw [hthreads]
    omega
  · rw [hlargest]
    exact hsize.elim (fun hle => hle.trans h.size) And.right
  · rw [hthreads, hlargest]
    intro hpos
    have hkeeps := Threads.countP_set ht b PoolCall.keeps
    by_cases hb : b.keeps = true
    · exact hroom hb
    · rw [if_neg hb] at hkeeps
      rcases hsize with hle | ⟨ha,_⟩
      · exact hle.trans_lt (h.room (by omega))
      -- the thread that stores was the only one
      · rw [if_pos ha] at hkeeps
        have hone := h.keeps_le
        omega
  · intro ho
    rw [howner] at ho
    have hz := h.owned ho
    have hc := Threads.countP_set ht b PoolCall.calling
    have hb : b.calling = false := by
      by_contra hb
      rw [hcalling (by simpa using hb)] at ho
      cases ho
    rw [hb] at hc
    rw [hthreads]
    simp only [Bool.false_eq_true, if_false] at hc
    omega
  · intro hf
    rw [hfreed] at hf
    obtain ⟨ho,_,hz⟩ := h.gone hf
    obtain ⟨hobjs,hb⟩ := hgone hf
    have ha : a.locked = false := by
      by_contra ha
      exact absurd (Threads.countP_pos ht (p := PoolCall.locked) (by simpa using ha)) (by omega)
    have hb : b.locked = false := by
      by_contra hc
      rw [hb (by simpa using hc)] at ha
      cases ha
    have hc := Threads.countP_set ht b PoolCall.locked
    rw [ha, hb] at hc
    refine ⟨howner.trans ho,hobjs,?_⟩
    rw [hthreads]
    simp only [Bool.false_eq_true, if_false] at hc
    omega

/-- The object of a pointer that is handed out. -/
theorem give_recycled (s : ResourcePool) (k : Obtained) (i : ℕ)
    (h : (s.called ++ (s.used.filter fun u => u.1 = Obtained.obtain true).map Prod.snd).Perm s.given) :
    ((s.give k i).called ++ ((s.give k i).used.filter fun u => u.1 = Obtained.obtain true).map Prod.snd).Perm
      (s.give k i).given := by
  by_cases hk : k = Obtained.obtain true
  · simp only [give, hk, List.filter_append, List.map_append, if_true, ← List.append_assoc]
    exact h.append_right [i]
  · simpa only [give, hk, List.filter_append, List.filter_cons, decide_false, Bool.false_eq_true, if_false,
      List.filter_nil, List.append_nil] using h

theorem raced_enter (hc : s._busy = false → s.reserving = 0) (hbusy : ¬s._busy = true) : s.enter.raced = s.raced := by
  simp [enter, hc (Bool.eq_false_iff.mpr hbusy)]

theorem Inv.obtain (h : s.Inv) {t : ℕ} {k : Obtained} {ok : Bool} (hc : s.Unraced (.obtain t k ok))
    (hu : step s (.obtain t k ok) = some u) : u.Inv := by
  simp only [step] at hu
  split at hu
  · rename_i hguard
    obtain ⟨howner,ht⟩ := hguard
    have hset : s.threads.set t .outside = s.threads := by
      obtain ⟨hlt,ht⟩ := List.getElem?_eq_some_iff.mp ht
      rw [← ht, List.set_getElem_self]
    split at hu
    · obtain rfl := Option.some.inj hu
      cases ok with
      | false => exact h
      | true =>
        rw [if_pos rfl]
        refine h.move (b := .outside) ht hset.symm ⟨rfl,rfl,rfl,rfl,rfl⟩ ?_ le_rfl (Or.inl le_rfl)
          (fun hc => by cases hc) (give_recycled { s with made := s.made + 1 } k s.made h.recycled)
          (fun hc => by cases hc) fun hf => ⟨(h.gone hf).2.1,id⟩
        intro x
        simp only [give, List.map_append, List.count_append, List.range_succ, List.map_cons, List.map_nil]
        omega
    · rename_i hbusy
      obtain rfl := Option.some.inj hu
      refine h.move ht rfl ⟨rfl,rfl,rfl,rfl,raced_enter hc hbusy⟩ (fun _ => rfl)
        (by simp [ResourcePool.move, enter, hbusy, PoolCall.inside]) (Or.inl le_rfl)
        (fun hc => by cases hc) h.recycled (fun _ => howner) fun hf => ⟨(h.gone hf).2.1,fun hc => by cases hc⟩
  · cases hu

theorem Inv.getPtr (h : s.Inv) {t : ℕ} {ok : Bool} (hu : step s (.getPtr t ok) = some u) : u.Inv := by
  simp only [step] at hu
  split at hu
  · rename_i k ht
    have howner : s.owner = true := by
      by_contra ho
      exact absurd (Threads.countP_pos ht (p := PoolCall.calling) rfl) (by rw [h.owned (by simpa using ho)]; decide)
    split at hu
    · rename_i hobjs
      obtain rfl := Option.some.inj hu
      cases ok with
      | false =>
        rw [if_neg (by decide)]
        refine h.move ht rfl ⟨rfl,rfl,rfl,rfl,rfl⟩ (fun _ => rfl) (Nat.add_le_add_right (Nat.zero_le _) _)
          (Or.inl le_rfl) (fun hc => by cases hc) h.recycled (fun hc => by cases hc)
          fun hf => ⟨(h.gone hf).2.1,fun hc => by cases hc⟩
      | true =>
        rw [if_pos rfl]
        refine h.move ht rfl ⟨rfl,rfl,rfl,rfl,rfl⟩ ?_ le_rfl (Or.inl le_rfl) (fun hc => by cases hc) h.recycled
          (fun _ => howner) fun hf => ⟨(h.gone hf).2.1,fun hc => by cases hc⟩
        intro x
        simp only [ResourcePool.move, List.range_succ, List.count_append, PoolCall.carries,
          List.count_singleton, beq_iff_eq, decide_eq_true_eq, Bool.false_eq_true, if_false]
        omega
    · rename_i i objs hobjs
      obtain rfl := Option.some.inj hu
      refine h.move ht rfl ⟨rfl,rfl,rfl,rfl,rfl⟩ ?_ le_rfl (Or.inl ?_) (fun hc => by cases hc) h.recycled
        (fun _ => howner) ?_
      · intro x
        rw [hobjs]
        simp only [ResourcePool.move, List.count_cons, PoolCall.carries, beq_iff_eq, decide_eq_true_eq,
          Bool.false_eq_true, if_false]
        omega
      · rw [hobjs]
        exact Nat.le_succ _
      · intro hf
        have hgone := (h.gone hf).1
        rw [howner] at hgone
        cases hgone
  · cases hu

/-- Whoever is inside has won `_busy`. -/
theorem Inv.busy (h : s.Inv) {t : ℕ} {a : PoolCall} (ht : s.threads[t]? = some a) (ha : a.inside = true) :
    s._busy = true := by
  by_contra hbusy
  have hlock := h.lock
  have hpos := Threads.countP_pos ht ha
  rw [if_neg hbusy] at hlock
  omega

theorem Inv.clear (h : s.Inv) {t : ℕ} (hu : step s (.clear t) = some u) : u.Inv := by
  simp only [step] at hu
  split at hu
  · rename_i k i ht
    obtain rfl := Option.some.inj hu
    have hbusy := h.busy ht rfl
    refine h.move ht rfl ⟨rfl,rfl,rfl,rfl,rfl⟩ ?_ ?_ (Or.inl le_rfl) (fun hc => by cases hc)
      (give_recycled ({ s with _busy := false }.move t .outside) k i h.recycled) (fun hc => by cases hc)
      fun hf => ⟨(h.gone hf).2.1,fun hc => by cases hc⟩
    · intro x
      simp only [give, ResourcePool.move, List.map_append, List.count_append, List.map_cons, List.map_nil,
        List.count_singleton, PoolCall.carries, beq_iff_eq, decide_eq_true_eq, Bool.false_eq_true, if_false]
      omega
    · rw [hbusy]
      exact le_rfl
  · rename_i ht
    obtain rfl := Option.some.inj hu
    have hbusy := h.busy ht rfl
    refine h.move ht rfl ⟨rfl,rfl,rfl,rfl,rfl⟩ (fun _ => rfl) ?_ (Or.inl le_rfl) (fun hc => by cases hc) h.recycled
      (fun hc => by cases hc) fun hf => ⟨(h.gone hf).2.1,fun hc => by cases hc⟩
    rw [hbusy]
    exact le_rfl
  · cases hu

theorem Inv.release (h : s.Inv) {t n : ℕ} (hu : step s (.release t n) = some u) : u.Inv := by
  simp only [step] at hu
  split at hu
  · rename_i k i ht hn
    obtain rfl := Option.some.inj hu
    obtain ⟨hlt,hget⟩ := List.getElem?_eq_some_iff.mp hn
    have hperm := List.getElem_cons_eraseIdx_perm hlt
    rw [hget] at hperm
    refine h.move ht rfl ⟨rfl,rfl,rfl,rfl,rfl⟩ ?_ le_rfl (Or.inl le_rfl) (fun hc => by cases hc) ?_
      (fun hc => by cases hc) fun hf => ⟨(h.gone hf).2.1,fun hc => by cases hc⟩
    · intro x
      have hcount := (hperm.map Prod.snd).count_eq x
      simp only [List.map_cons, List.count_cons, beq_iff_eq] at hcount
      simp only [ResourcePool.move, PoolCall.carries, decide_eq_true_eq, Bool.false_eq_true, if_false]
      omega
    · have hfilter := (hperm.filter fun u => u.1 = Obtained.obtain true).map Prod.snd
      by_cases hk : k = Obtained.obtain true
      · simp only [hk, List.filter_cons, decide_true, if_true, List.map_cons] at hfilter
        simp only [ResourcePool.move, hk, if_true, List.append_assoc, List.singleton_append]
        exact (hfilter.append_left s.called).trans h.recycled
      · simp only [hk, List.filter_cons, decide_false, Bool.false_eq_true, if_false] at hfilter
        simp only [ResourcePool.move, hk, if_false]
        exact (hfilter.append_left s.called).trans h.recycled
  · cases hu

/-- An object that a thread had is deleted. -/
theorem Inv.delete (h : s.Inv) {t i : ℕ} {a b : PoolCall} (ht : s.threads[t]? = some a)
    (ha : ∀ x, a.carries x = decide (i = x)) (hb : ∀ x, b.carries x = false)
    (hinside : b.inside = true → a.inside = true) (hcalling : b.calling = false)
    (hlocked : b.locked = true → a.locked = true) : ((s.delete i).move t b).Inv := by
  have hkeeps : ¬b.keeps = true := by
    intro hc
    cases b with
    | keeping j => simpa [PoolCall.carries] using hb j
    | _ => cases hc
  refine h.move ht rfl ⟨rfl,rfl,rfl,rfl,rfl⟩ ?_ ?_ (Or.inl le_rfl) (fun hc => absurd hc hkeeps) h.recycled
    (fun hc => ?_) fun hf => ⟨(h.gone hf).2.1,hlocked⟩
  · intro x
    simp only [ResourcePool.delete, ResourcePool.move, ha, hb, List.count_append, List.count_singleton, beq_iff_eq,
      decide_eq_true_eq, Bool.false_eq_true, if_false]
    omega
  · apply Nat.add_le_add_right
    cases hc : b.inside with
    | false => exact Nat.zero_le _
    | true => rw [hinside hc]
  · rw [hcalling] at hc
    cases hc

theorem Inv.lock_step (h : s.Inv) {t : ℕ} {quit : Bool} (hu : step s (.lock t quit) = some u) : u.Inv := by
  simp only [step] at hu
  split at hu
  · rename_i k i ht
    split at hu
    · cases hu
    · split at hu
      · rename_i hstrong
        obtain rfl := Option.some.inj hu
        refine h.move ht rfl ⟨rfl,rfl,rfl,rfl,rfl⟩ (fun _ => rfl) le_rfl (Or.inl le_rfl) (fun hc => by cases hc)
          h.recycled (fun hc => by cases hc) ?_
        intro hf
        obtain ⟨howner,_,hlocked⟩ := h.gone hf
        have hs := hstrong.1
        rw [strong, howner, Bool.false_or, List.any_eq_true] at hs
        obtain ⟨c,hc,hc'⟩ := hs
        exact absurd hc' (List.countP_eq_zero.mp hlocked c hc)
      · obtain rfl := Option.some.inj hu
        exact h.delete ht (fun _ => rfl) (fun _ => rfl) (fun hc => by cases hc) rfl fun hc => by cases hc
  · cases hu

theorem Inv.recycle (h : s.Inv) {t : ℕ} (hc : s.Unraced (.recycle t)) (hu : step s (.recycle t) = some u) :
    u.Inv := by
  simp only [step] at hu
  split at hu
  · rename_i i ht
    split at hu
    · obtain rfl := Option.some.inj hu
      exact h.delete ht (fun _ => rfl) (fun _ => rfl) (fun hc => by cases hc) rfl fun hc => by cases hc
    · rename_i hbusy
      obtain rfl := Option.some.inj hu
      refine h.move ht rfl ⟨rfl,rfl,rfl,rfl,raced_enter hc hbusy⟩ (fun _ => rfl) ?_ (Or.inl le_rfl)
        (fun hc => by cases hc) h.recycled (fun hc => by cases hc) fun hf => ⟨(h.gone hf).2.1,fun _ => rfl⟩
      rw [if_neg hbusy]
      exact le_rfl
  · cases hu

theorem Inv.store (h : s.Inv) {t : ℕ} (hu : step s (.store t) = some u) : u.Inv := by
  simp only [step] at hu
  split at hu
  · rename_i i ht
    split at hu
    · obtain rfl := Option.some.inj hu
      exact h.delete ht (fun _ => rfl) (fun _ => rfl) (fun _ => rfl) rfl fun _ => rfl
    · rename_i hsize
      obtain rfl := Option.some.inj hu
      have hroom : s._objs.length < s.largest := (Nat.lt_of_not_le hsize).trans_le h.bound
      exact h.move ht rfl ⟨rfl,rfl,rfl,rfl,rfl⟩ (fun _ => rfl) le_rfl (Or.inl le_rfl) (fun _ => hroom) h.recycled
        (fun hc => by cases hc) fun hf => ⟨(h.gone hf).2.1,fun _ => rfl⟩
  · cases hu

theorem Inv.keep (h : s.Inv) {t : ℕ} (hu : step s (.keep t) = some u) : u.Inv := by
  simp only [step] at hu
  split at hu
  · rename_i i ht
    obtain rfl := Option.some.inj hu
    have hroom := h.room (Threads.countP_pos ht rfl)
    refine h.move ht rfl ⟨rfl,rfl,rfl,rfl,rfl⟩ ?_ le_rfl (Or.inr ⟨rfl,hroom⟩) (fun hc => by cases hc) h.recycled
      (fun hc => by cases hc) ?_
    · intro x
      simp only [ResourcePool.move, List.count_cons, PoolCall.carries, beq_iff_eq, decide_eq_true_eq,
        Bool.false_eq_true, if_false]
      omega
    · intro hf
      exact absurd (Threads.countP_pos ht (p := PoolCall.locked) rfl) (by rw [(h.gone hf).2.2]; decide)
  · cases hu

theorem Inv.free (h : s.Inv) (hu : step s .free = some u) : u.Inv := by
  simp only [step] at hu
  split at hu
  · rename_i hguard
    obtain ⟨hstrong,_⟩ := hguard
    obtain rfl := Option.some.inj hu
    rw [strong, Bool.or_eq_false_iff, List.any_eq_false] at hstrong
    have hlocked : s.threads.countP PoolCall.locked = 0 := List.countP_eq_zero.mpr hstrong.2
    refine ⟨?_,h.lock,Nat.zero_le _,h.bound,?_,h.recycled,h.owned,fun _ => ⟨hstrong.1,rfl,hlocked⟩,h.unraced⟩
    · intro x
      have hx := h.placed x
      simp only [places, List.count_append, List.count_nil] at hx ⊢
      omega
    · intro hpos
      exact Nat.lt_of_le_of_lt (Nat.zero_le _) (h.room hpos)
  · cases hu

theorem Inv.setSize (h : s.Inv) {n : ℕ} {moves : Bool} (hc : s.Unraced (.setSize n moves))
    (hu : step s (.setSize n moves) = some u) : u.Inv := by
  obtain ⟨_,hu⟩ := Option.ite_none_right_eq_some.mp hu
  obtain rfl := Option.some.inj hu
  refine ⟨h.placed,h.lock,h.size.trans (Nat.le_max_left _ _),Nat.le_max_right _ _,
    fun hpos => (h.room hpos).trans_le (Nat.le_max_left _ _),h.recycled,h.owned,h.gone,?_⟩
  cases moves with
  | false => simp [h.unraced]
  | true =>
    obtain ⟨hreserving,hinside⟩ := hc rfl
    have hnone : s.threads.any PoolCall.inside = false :=
      List.any_eq_false.mpr fun c hmem => by simp [hinside c hmem]
    simp [h.unraced, hreserving, hnone]

theorem Inv.step (h : s.Inv) {a : PoolAct} (hc : s.Unraced a) (hu : step s a = some u) : u.Inv := by
  cases a with
  | obtain t k ok => exact h.obtain hc hu
  | getPtr t ok => exact h.getPtr hu
  | clear t => exact h.clear hu
  | release t n => exact h.release hu
  | lock t quit => exact h.lock_step hu
  | recycle t => exact h.recycle hc hu
  | store t => exact h.store hu
  | keep t => exact h.keep hu
  | setSize n moves => exact h.setSize hc hu
  | reserved =>
    obtain ⟨-,hu⟩ := Option.ite_none_right_eq_some.mp hu
    obtain rfl := Option.some.inj hu
    exact ⟨h.placed,h.lock,h.size,h.bound,h.room,h.recycled,h.owned,h.gone,h.unraced⟩
  | reset =>
    obtain ⟨hguard,hu⟩ := Option.ite_none_right_eq_some.mp hu
    obtain rfl := Option.some.inj hu
    refine ⟨h.placed,h.lock,h.size,h.bound,h.room,h.recycled,fun _ => ?_,fun hf => ⟨rfl,(h.gone hf).2⟩,h.unraced⟩
    exact List.countP_eq_zero.mpr (List.any_eq_false.mp hguard.2.2)
  | free => exact h.free hu

/-- Where nothing was raced, no thread had won `_busy` while the vector was moved. -/
theorem reserving_of_enter (h : s.enter.raced = false) : s.reserving = 0 := by
  simp only [enter, Bool.or_eq_false_iff, decide_eq_false_iff_not] at h
  omega

theorem Sound.unraced_of_step (hsound : u.Sound) {a : PoolAct} (hu : step s a = some u) : s.Unraced a := by
  have hraced := hsound.unraced
  cases a with
  | setSize m moves =>
    intro hmoves
    obtain ⟨-,hu⟩ := Option.ite_none_right_eq_some.mp hu
    obtain rfl := Option.some.inj hu
    simp only [hmoves, Bool.true_and, Bool.or_eq_false_iff, decide_eq_false_iff_not] at hraced
    refine ⟨by omega,fun c hmem => ?_⟩
    simpa using List.any_eq_false.mp hraced.2.2 c hmem
  | obtain t k ok =>
    intro hbusy
    obtain ⟨-,hu⟩ := Option.ite_none_right_eq_some.mp hu
    rw [if_neg (by simp [hbusy])] at hu
    obtain rfl := Option.some.inj hu
    exact reserving_of_enter hraced
  | recycle t =>
    intro hbusy
    simp only [ResourcePool.step] at hu
    split at hu
    · rw [if_neg (by simp [hbusy])] at hu
      obtain rfl := Option.some.inj hu
      exact reserving_of_enter hraced
    · cases hu
  | _ => trivial

/-- In every run of any number of threads no object is lost, handed to two users or deleted twice, exactly
while no `setSize` moves the vector while a thread works on it. -/
theorem everyStep_unraced_iff (n : ℕ) (acts : List PoolAct) :
    EveryStep ResourcePool.step Unraced (fresh n) acts ↔ EveryState ResourcePool.step Sound (fresh n) acts :=
  everyStep_iff_everyState (inv_fresh n) (fun _ h => h.sound) (fun _ _ _ h hc hu => h.step hc hu)
    fun _ _ _ _ hu hsound => hsound.unraced_of_step hu

end ResourcePool

end OctCommu.Util
