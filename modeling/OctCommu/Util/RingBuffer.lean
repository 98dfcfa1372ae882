import OctCommu.Lib.Runs
import Mathlib.Algebra.GroupWithZero.Nat

/-! # The cache `_RingStorage` of the ring buffer

The cache is a list of groups, and a key item starts a new one. Groups leave it from
the front, when there are too many of them or of their items.
-/
namespace OctCommu.Util.RingBuffer
open Runs
variable {T : Type*}

def RING_MIN_SIZE : ℕ := 32

abbrev Gop (T : Type*) := List (Bool × T)

structure RingStorage (T : Type*) where
  _started : Bool
  _have_idr : Bool
  _size : ℕ
  _max_size : ℕ
  _max_gop_size : ℕ
  _data_cache : List (Gop T)

namespace RingStorage

def clearCache (s : RingStorage T) : RingStorage T :=
  { s with _size := 0, _have_idr := false, _data_cache := [[]] }

def create (max_size max_gop_size : ℕ) : RingStorage T :=
  let max_size := if max_size < RING_MIN_SIZE then RING_MIN_SIZE else max_size
  clearCache ⟨false,false,0,max_size,max_gop_size,[]⟩

def popFrontGop (s : RingStorage T) : RingStorage T :=
  match s._data_cache with
  | [] => s
  | gop :: gops =>
    { s with
      _size := s._size - gop.length
      _data_cache := if gops.isEmpty then [[]] else gops }

/-- The loop that leaves the last group only, for at most so many rounds. -/
def popOldGops : ℕ → RingStorage T → RingStorage T
  | 0, s => s
  | n + 1, s => if 1 < s._data_cache.length then popOldGops n s.popFrontGop else s

/-- A group behind the others, unless the last one is empty yet. -/
def newGop (s : RingStorage T) : RingStorage T :=
  if (s._data_cache.getLast?.getD []).isEmpty then s
  else { s with _data_cache := s._data_cache ++ [[]] }

/-- What a key item does in front of the write. -/
def startGop (s : RingStorage T) : RingStorage T :=
  let s := { s with _have_idr := true, _started := true }.newGop
  if s._max_gop_size < s._data_cache.length then s.popFrontGop else s

def emplace_back (s : RingStorage T) (item : Bool × T) : RingStorage T :=
  { s with
    _size := s._size + 1
    _data_cache := s._data_cache.dropLast ++ [s._data_cache.getLast?.getD [] ++ [item]] }

/-- What happens when the cache has too many items; each round of the loop takes a group off it. -/
def limit (s : RingStorage T) : RingStorage T :=
  if s._max_size < s._size then
    let s := popOldGops s._data_cache.length s
    if s._max_size < s._size then s.clearCache else s
  else s

def write (s : RingStorage T) (data : T) (is_key : Bool) : RingStorage T :=
  let s := if is_key then s.startGop else s
  if s._have_idr = false ∧ s._started = true then s
  else (s.emplace_back (is_key,data)).limit

/-- A copy of every field. -/
def clone (s : RingStorage T) : RingStorage T where
  _started := s._started
  _have_idr := s._have_idr
  _size := s._size
  _max_size := s._max_size
  _max_gop_size := s._max_gop_size
  _data_cache := s._data_cache

end RingStorage

/-! ### Storages and their copies -/

inductive Call (T : Type*) where
  | write (i : ℕ) (data : T) (is_key : Bool)
  | clearCache (i : ℕ)
  | clone (i : ℕ)

/-- A storage of items that remember whether a key had been written before them, and whether one has been
written now. -/
structure Cache (T : Type*) where
  storage : RingStorage (T × Bool)
  keyed : Bool

/-- The calls on a storage that was made and on the copies of it. -/
def step (w : List (Cache T)) : Call T → Option (List (Cache T))
  | .write i data is_key => w[i]?.map fun c =>
      w.set i ⟨c.storage.write (data,c.keyed) is_key,c.keyed || is_key⟩
  | .clearCache i => w[i]?.map fun c => w.set i { c with storage := c.storage.clearCache }
  | .clone i => w[i]?.map fun c => w ++ [{ c with storage := c.storage.clone }]

/-- A group that a key item starts. -/
def Keyed (gop : Gop (T × Bool)) : Prop := ∃ data, gop.head? = some (true,data)

/-- What a reader of the cache relies on. -/
structure Consistent (max_size max_gop_size : ℕ) (c : Cache T) : Prop where
  limits : c.storage._max_size = max max_size RING_MIN_SIZE ∧ c.storage._max_gop_size = max_gop_size
  nonempty : c.storage._data_cache ≠ []
  size : c.storage._size = (c.storage._data_cache.map List.length).sum
  size_le : c.storage._size ≤ c.storage._max_size
  gops : c.storage._data_cache.length ≤ max 1 c.storage._max_gop_size
  first : ∀ gop ∈ c.storage._data_cache, ∀ (i : ℕ) (data : T × Bool), gop[i]? = some (true,data) → i = 0
  starts : ∀ gop ∈ c.storage._data_cache.tail, Keyed gop
  covered : ∀ gop ∈ c.storage._data_cache, ∀ (i : ℕ) (data : T), gop[i]? = some (false,data,true) →
    ∃ j < i, ∃ key : T × Bool, gop[j]? = some (true,key)

/-- A group: key items stand at its front only, and where an item came behind a key there is one. -/
structure Group (gop : Gop (T × Bool)) : Prop where
  first : ∀ (i : ℕ) (data : T × Bool), gop[i]? = some (true,data) → i = 0
  covered : ∀ data, (false,data,true) ∈ gop → Keyed gop

/-- The cache is the groups `olds` and, behind them, the group that is written to. -/
structure Groups (s : RingStorage (T × Bool)) (olds : List (Gop (T × Bool)))
    (back : Gop (T × Bool)) : Prop where
  cache : s._data_cache = olds ++ [back]
  size : s._size = (olds.map List.length).sum + back.length
  group : ∀ gop ∈ olds, Group gop
  starts : ∀ gop ∈ olds.tail, Keyed gop

/-- The group that is written to starts with a key unless it is the first one, and with a key in the cache
it does so always. -/
structure Back (c : Cache T) (olds : List (Gop (T × Bool))) (back : Gop (T × Bool)) : Prop where
  group : Group back
  behind : olds ≠ [] → Keyed back
  idr : c.storage._have_idr = true → Keyed back
  started : c.storage._started = c.keyed

structure Inv (max_size max_gop_size : ℕ) (c : Cache T) : Prop where
  limits : c.storage._max_size = max max_size RING_MIN_SIZE ∧ c.storage._max_gop_size = max_gop_size
  parts : ∃ olds back, Groups c.storage olds back ∧ Back c olds back ∧
    olds.length + 1 ≤ max 1 max_gop_size
  size_le : c.storage._size ≤ c.storage._max_size

variable {s : RingStorage (T × Bool)} {olds : List (Gop (T × Bool))} {gop back : Gop (T × Bool)}
  {c : Cache T} {max_size max_gop_size : ℕ}

theorem group_nil : Group ([] : Gop (T × Bool)) := ⟨by simp,by simp⟩

theorem group_single (data : T × Bool) : Group [(true,data)] := by
  refine ⟨?_,by simp⟩
  intro i d h
  cases i with
  | zero => rfl
  | succ i => simp at h

/-- A further item of a group: it is no key, and was not written behind one unless there is one. -/
theorem Group.snoc (h : Group gop) {data : T} {late : Bool} (hlate : late = true → Keyed gop) :
    Group (gop ++ [(false,data,late)]) := by
  refine ⟨?_,?_⟩
  · intro i d hi
    rcases Nat.lt_or_ge i gop.length with hlt | hge
    · rw [List.getElem?_append_left hlt] at hi
      exact h.first i d hi
    · rw [List.getElem?_append_right hge] at hi
      have hmem := List.mem_of_getElem? hi
      simp at hmem
  · intro d hd
    have hkeyed : Keyed gop := by
      rcases List.mem_append.mp hd with hd | hd
      · exact h.covered d hd
      · have heq := List.mem_singleton.mp hd
        simp only [Prod.mk.injEq, true_and] at heq
        exact hlate heq.2.symm
    obtain ⟨key,hkey⟩ := hkeyed
    exact ⟨key,by rw [List.head?_append, hkey]; rfl⟩

theorem Keyed.snoc (h : Keyed gop) (item : Bool × T × Bool) : Keyed (gop ++ [item]) := by
  obtain ⟨key,hkey⟩ := h
  exact ⟨key,by rw [List.head?_append, hkey]; rfl⟩

theorem Groups.popFrontGop (h : Groups s (gop :: olds) back) : Groups s.popFrontGop olds back := by
  have hpop : s.popFrontGop = { s with _size := s._size - gop.length, _data_cache := olds ++ [back] } := by
    rw [RingStorage.popFrontGop, h.cache, List.cons_append]
    simp
  rw [hpop]
  refine ⟨rfl,?_,fun g hg => h.group g (by simp [hg]),?_⟩
  · have hsize := h.size
    rw [List.map_cons, List.sum_cons] at hsize
    simp only
    omega
  · intro g hg
    exact h.starts g (List.mem_of_mem_tail hg)

theorem popFrontGop_fields (s : RingStorage T) : s.popFrontGop._have_idr = s._have_idr ∧
    s.popFrontGop._started = s._started ∧ s.popFrontGop._max_size = s._max_size ∧
    s.popFrontGop._max_gop_size = s._max_gop_size := by
  unfold RingStorage.popFrontGop
  split <;> exact ⟨rfl,rfl,rfl,rfl⟩

/-- The rounds of the loop are enough. -/
theorem Groups.popOldGops (h : Groups s olds back) {n : ℕ} (hn : olds.length ≤ n) :
    Groups (RingStorage.popOldGops n s) [] back ∧
    (RingStorage.popOldGops n s)._have_idr = s._have_idr ∧
    (RingStorage.popOldGops n s)._started = s._started ∧
    (RingStorage.popOldGops n s)._max_size = s._max_size ∧
    (RingStorage.popOldGops n s)._max_gop_size = s._max_gop_size := by
  induction n generalizing s olds with
  | zero =>
    obtain rfl := List.length_eq_zero_iff.mp (Nat.le_zero.mp hn)
    exact ⟨h,rfl,rfl,rfl,rfl⟩
  | succ n ih =>
    rw [RingStorage.popOldGops]
    cases olds with
    | nil =>
      rw [if_neg (by simp [h.cache])]
      exact ⟨h,rfl,rfl,rfl,rfl⟩
    | cons gop olds =>
      rw [if_pos (by simp [h.cache])]
      obtain ⟨hi,hs,hm,hg⟩ := popFrontGop_fields s
      obtain ⟨hgroups,hi',hs',hm',hg'⟩ := ih h.popFrontGop (Nat.le_of_succ_le_succ hn)
      exact ⟨hgroups,hi'.trans hi,hs'.trans hs,hm'.trans hm,hg'.trans hg⟩

/-- An empty cache that no key reaches. -/
theorem inv_clearCache (h : c.storage._max_size = max max_size RING_MIN_SIZE ∧
    c.storage._max_gop_size = max_gop_size) (hs : c.storage._started = c.keyed) :
    Inv max_size max_gop_size { c with storage := c.storage.clearCache } := by
  refine ⟨h,⟨[],[],⟨rfl,rfl,by simp,by simp⟩,⟨group_nil,by simp,?_,hs⟩,Nat.le_max_left 1 _⟩,Nat.zero_le _⟩
  intro hidr
  cases hidr

theorem inv_create (max_size max_gop_size : ℕ) :
    Inv max_size max_gop_size (⟨.create max_size max_gop_size,false⟩ : Cache T) := by
  have hmax : (RingStorage.create max_size max_gop_size : RingStorage (T × Bool))._max_size =
      max max_size RING_MIN_SIZE := by
    simp only [RingStorage.create, RingStorage.clearCache]
    split_ifs <;> omega
  exact inv_clearCache (c := ⟨.create max_size max_gop_size,false⟩) ⟨hmax,rfl⟩ rfl

/-- The overflow leaves the last group, if it is not too large itself. -/
theorem inv_limit (hl : c.storage._max_size = max max_size RING_MIN_SIZE ∧
    c.storage._max_gop_size = max_gop_size) (hg : Groups c.storage olds back) (hb : Back c olds back)
    (hn : olds.length + 1 ≤ max 1 max_gop_size) :
    Inv max_size max_gop_size { c with storage := c.storage.limit } := by
  by_cases hover : c.storage._max_size < c.storage._size
  · obtain ⟨hgroups,hi,hs,hm,hgop⟩ := hg.popOldGops (n := c.storage._data_cache.length)
      (by simp [hg.cache])
    have hl' : (RingStorage.popOldGops c.storage._data_cache.length c.storage)._max_size =
        max max_size RING_MIN_SIZE ∧
        (RingStorage.popOldGops c.storage._data_cache.length c.storage)._max_gop_size = max_gop_size :=
      ⟨hm.trans hl.1,hgop.trans hl.2⟩
    rw [RingStorage.limit, if_pos hover]
    by_cases hstill : (RingStorage.popOldGops c.storage._data_cache.length c.storage)._max_size <
        (RingStorage.popOldGops c.storage._data_cache.length c.storage)._size
    · rw [if_pos hstill]
      exact inv_clearCache (c := { c with storage := RingStorage.popOldGops _ c.storage }) hl'
        (hs.trans hb.started)
    · rw [if_neg hstill]
      refine ⟨hl',⟨[],back,hgroups,⟨hb.group,by simp,?_,hs.trans hb.started⟩,Nat.le_max_left 1 _⟩,
        Nat.le_of_not_lt hstill⟩
      intro hidr
      exact hb.idr (hi.symm.trans hidr)
  · rw [RingStorage.limit, if_neg hover]
    exact ⟨hl,⟨olds,back,hg,hb,hn⟩,Nat.le_of_not_lt hover⟩

theorem Groups.emplace_back (h : Groups s olds back) (item : Bool × T × Bool) :
    Groups (s.emplace_back item) olds (back ++ [item]) := by
  refine ⟨?_,?_,h.group,h.starts⟩
  · simp [RingStorage.emplace_back, h.cache]
  · simp only [RingStorage.emplace_back, h.size, List.length_append, List.length_singleton]
    omega

theorem Groups.newGop (h : Groups s olds back) (hgroup : Group back) (hbehind : olds ≠ [] → Keyed back) :
    ∃ olds', Groups s.newGop olds' [] ∧ olds'.length ≤ olds.length + 1 ∧
      s.newGop._have_idr = s._have_idr ∧ s.newGop._started = s._started ∧
      s.newGop._max_size = s._max_size ∧ s.newGop._max_gop_size = s._max_gop_size := by
  have hlast : s._data_cache.getLast?.getD [] = back := by simp [h.cache]
  rw [RingStorage.newGop, hlast]
  cases back with
  | nil => exact ⟨olds,h,Nat.le_succ _,rfl,rfl,rfl,rfl⟩
  | cons item back =>
    refine ⟨olds ++ [item :: back],⟨?_,?_,?_,?_⟩,by simp,rfl,rfl,rfl,rfl⟩
    · simp [h.cache]
    · simp [h.size]
    · intro g hg
      rcases List.mem_append.mp hg with hg | hg
      · exact h.group g hg
      · rwa [List.mem_singleton.mp hg]
    · intro g hg
      cases olds with
      | nil => simp at hg
      | cons o os =>
        rcases List.mem_append.mp hg with hg | hg
        · exact h.starts g hg
        · rw [List.mem_singleton.mp hg]
          exact hbehind (by simp)

/-- A key item finds an empty group behind the others, and not too many of them. -/
theorem Groups.startGop (h : Groups s olds back) (hgroup : Group back) (hbehind : olds ≠ [] → Keyed back)
    (hn : olds.length + 1 ≤ max 1 s._max_gop_size) : ∃ olds', Groups s.startGop olds' [] ∧
    olds'.length + 1 ≤ max 1 s._max_gop_size ∧ s.startGop._have_idr = true ∧
    s.startGop._started = true ∧ s.startGop._max_size = s._max_size ∧
    s.startGop._max_gop_size = s._max_gop_size := by
  have hflags : Groups { s with _have_idr := true, _started := true } olds back :=
    ⟨h.cache,h.size,h.group,h.starts⟩
  obtain ⟨olds',hnew,hlen,hi,hs,hm,hg⟩ := hflags.newGop hgroup hbehind
  obtain ⟨hi',hs',hm',hg'⟩ := popFrontGop_fields { s with _have_idr := true, _started := true }.newGop
  have hcount := congrArg List.length hnew.cache
  rw [List.length_append, List.length_singleton] at hcount
  rw [RingStorage.startGop]
  simp only [hg, hcount]
  by_cases hmany : s._max_gop_size < olds'.length + 1
  · rw [if_pos hmany]
    refine ⟨olds'.tail,?_,?_,hi'.trans hi,hs'.trans hs,hm'.trans hm,hg'.trans hg⟩
    · cases olds' with
      | nil =>
        rw [RingStorage.popFrontGop, hnew.cache]
        exact ⟨rfl,by simp [hnew.size],by simp,by simp⟩
      | cons g gs => exact hnew.popFrontGop
    · rw [List.length_tail]
      omega
  · rw [if_neg hmany]
    exact ⟨olds',hnew,by omega,hi,hs,hm,hg⟩

theorem Inv.write (h : Inv max_size max_gop_size c) (data : T) (is_key : Bool) :
    Inv max_size max_gop_size ⟨c.storage.write (data,c.keyed) is_key,c.keyed || is_key⟩ := by
  obtain ⟨hl,⟨olds,back,hg,hb,hn⟩,hle⟩ := h
  cases is_key with
  | true =>
    obtain ⟨olds',hstart,hn',hi,hs,hm,hgop⟩ := hg.startGop hb.group hb.behind (by rwa [hl.2])
    simp only [RingStorage.write, if_true, hi, hs, Bool.true_eq_false, false_and, if_false, Bool.or_true]
    have hkeyed : Keyed [(true,data,c.keyed)] := ⟨(data,c.keyed),rfl⟩
    apply inv_limit (c := ⟨c.storage.startGop.emplace_back (true,data,c.keyed),true⟩)
      ⟨hm.trans hl.1,hgop.trans hl.2⟩ (hstart.emplace_back _)
    · exact ⟨group_single _,fun _ => hkeyed,fun _ => hkeyed,hs⟩
    · rwa [hl.2] at hn'
  | false =>
    simp only [RingStorage.write, Bool.false_eq_true, if_false, Bool.or_false]
    by_cases hdrop : c.storage._have_idr = false ∧ c.storage._started = true
    · rw [if_pos hdrop]
      exact ⟨hl,⟨olds,back,hg,hb,hn⟩,hle⟩
    · rw [if_neg hdrop]
      -- a key has been written and not cleared, or none has been written at all
      have hlate : c.keyed = true → Keyed back := by
        intro hkeyed
        rw [← hb.started] at hkeyed
        apply hb.idr
        cases hidr : c.storage._have_idr with
        | true => rfl
        | false => exact absurd ⟨hidr,hkeyed⟩ hdrop
      apply inv_limit (c := ⟨c.storage.emplace_back (false,data,c.keyed),c.keyed⟩) hl (hg.emplace_back _)
      · exact ⟨hb.group.snoc hlate,fun hne => (hb.behind hne).snoc _,fun hi => (hb.idr hi).snoc _,hb.started⟩
      · exact hn

theorem Inv.consistent (h : Inv max_size max_gop_size c) : Consistent max_size max_gop_size c := by
  obtain ⟨hl,⟨olds,back,hg,hb,hn⟩,hle⟩ := h
  have hgroup : ∀ gop ∈ c.storage._data_cache, Group gop := by
    intro gop hgop
    rw [hg.cache] at hgop
    rcases List.mem_append.mp hgop with hgop | hgop
    · exact hg.group gop hgop
    · rw [List.mem_singleton.mp hgop]
      exact hb.group
  refine ⟨hl,by simp [hg.cache],by simp [hg.cache, hg.size],hle,?_,fun gop hgop => (hgroup gop hgop).first,
    ?_,?_⟩
  · rw [hg.cache, List.length_append, List.length_singleton, hl.2]
    exact hn
  · intro gop hgop
    rw [hg.cache] at hgop
    cases olds with
    | nil => simp at hgop
    | cons o os =>
      rcases List.mem_append.mp hgop with hgop | hgop
      · exact hg.starts gop hgop
      · rw [List.mem_singleton.mp hgop]
        exact hb.behind (by simp)
  · intro gop hgop i data hi
    obtain ⟨key,hkey⟩ := (hgroup gop hgop).covered data (List.mem_of_getElem? hi)
    rw [List.head?_eq_getElem?] at hkey
    refine ⟨0,?_,key,hkey⟩
    apply Nat.pos_of_ne_zero
    rintro rfl
    rw [hkey] at hi
    cases hi

/-- One storage of a family changes. -/
theorem forall_mem_set {w : List (Cache T)} {p : Cache T → Prop} {i : ℕ} {c' : Cache T}
    (h : ∀ c ∈ w, p c) (hc : p c') : ∀ c ∈ w.set i c', p c := by
  intro d hd
  rcases List.mem_or_eq_of_mem_set hd with hd | rfl
  · exact h d hd
  · exact hc

theorem step_inv {w w' : List (Cache T)} {call : Call T} (h : ∀ c ∈ w, Inv max_size max_gop_size c)
    (hw : step w call = some w') : ∀ c ∈ w', Inv max_size max_gop_size c := by
  cases call with
  | write i data is_key =>
    obtain ⟨c,hc,rfl⟩ := Option.map_eq_some_iff.mp hw
    exact forall_mem_set h ((h c (List.mem_of_getElem? hc)).write data is_key)
  | clearCache i =>
    obtain ⟨c,hc,rfl⟩ := Option.map_eq_some_iff.mp hw
    obtain ⟨hl,⟨_,_,_,hb,_⟩,_⟩ := h c (List.mem_of_getElem? hc)
    exact forall_mem_set h (inv_clearCache hl hb.started)
  | clone i =>
    obtain ⟨c,hc,rfl⟩ := Option.map_eq_some_iff.mp hw
    intro d hd
    rcases List.mem_append.mp hd with hd | hd
    · exact h d hd
    · rw [List.mem_singleton.mp hd]
      exact h c (List.mem_of_getElem? hc)

/-- The cache of a storage, and of every copy of it, stays as a reader relies on it. -/
theorem ring_consistent (max_size max_gop_size : ℕ) (calls : List (Call T)) :
    EveryState step (fun w => ∀ c ∈ w, Consistent max_size max_gop_size c)
      [⟨.create max_size max_gop_size,false⟩] calls := by
  have hkeep : ∀ (w : List (Cache T)) call w', (∀ c ∈ w, Inv max_size max_gop_size c) →
      step w call = some w' → ∀ c ∈ w', Inv max_size max_gop_size c := fun w call w' => step_inv
  refine (everyState_of_preserves hkeep ?_ calls).mono fun w h c hc => (h c hc).consistent
  intro c hc
  rw [List.mem_singleton.mp hc]
  exact inv_create max_size max_gop_size

example : (((RingStorage.create 32 1).write 7 false).write 8 true)._data_cache = [[(true,8)]] := rfl

end OctCommu.Util.RingBuffer
