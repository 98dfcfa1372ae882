import OctCommu.Util.RingBuffer

/-! # `_RingReaderDispatcher` and its readers

The readers of one poller. A call of the callback of a reader is an entry of what the
reader received; the callbacks do not call back. `past` is what was written to the ring
up to the last write that got here, also before the dispatcher was made.
-/
namespace OctCommu.Util.RingBuffer
open List
variable {P T : Type*}

/-! ### What a storage has of the items written to it -/

def RingStorage.items (s : RingStorage T) : List (Bool × T) := s._data_cache.flatten

/-- The storage holds the latest of the items `past`. -/
structure RingStorage.Latest (s : RingStorage T) (past : List (Bool × T)) : Prop where
  nonempty : s._data_cache ≠ []
  suffix : s.items <:+ past
  dropping : s._have_idr = false → s._started = true → s.items = []

variable {s : RingStorage T} {past : List (Bool × T)}

theorem latest_clearCache (past : List (Bool × T)) : s.clearCache.Latest past where
  nonempty := by simp [RingStorage.clearCache]
  suffix := by simp [RingStorage.clearCache, RingStorage.items]
  dropping _ _ := by simp [RingStorage.clearCache, RingStorage.items]

theorem latest_create (max_size max_gop_size : ℕ) :
    (RingStorage.create (T := T) max_size max_gop_size).Latest [] :=
  latest_clearCache []

theorem RingStorage.Latest.popFrontGop (h : s.Latest past) : s.popFrontGop.Latest past := by
  have hsuffix : s.popFrontGop.items <:+ s.items := by
    cases hc : s._data_cache with
    | nil => simp [RingStorage.popFrontGop, RingStorage.items, hc]
    | cons gop gops =>
      cases gops with
      | nil => simp [RingStorage.popFrontGop, RingStorage.items, hc]
      | cons next gops => simp [RingStorage.popFrontGop, RingStorage.items, hc]
  constructor
  · have := h.nonempty
    unfold RingStorage.popFrontGop
    split
    · exact this
    · split
      · simp
      · simp_all
  · exact hsuffix.trans h.suffix
  · intro hidr hstarted
    have hfield : s.popFrontGop._have_idr = s._have_idr ∧ s.popFrontGop._started = s._started := by
      unfold RingStorage.popFrontGop
      split <;> exact ⟨rfl,rfl⟩
    rw [hfield.1] at hidr
    rw [hfield.2] at hstarted
    rw [h.dropping hidr hstarted] at hsuffix
    exact List.suffix_nil.mp hsuffix

theorem RingStorage.Latest.popOldGops (h : s.Latest past) (n : ℕ) :
    (RingStorage.popOldGops n s).Latest past := by
  induction n generalizing s with
  | zero => exact h
  | succ n ih =>
    unfold RingStorage.popOldGops
    split
    · exact ih h.popFrontGop
    · exact h

theorem RingStorage.Latest.limit (h : s.Latest past) : s.limit.Latest past := by
  unfold RingStorage.limit
  split
  · dsimp only
    split
    · exact latest_clearCache past
    · exact h.popOldGops _
  · exact h

/-- A key item starts a group; no item comes with it yet. -/
theorem RingStorage.Latest.startGop (h : s.Latest past) :
    s.startGop.Latest past ∧ s.startGop._have_idr = true := by
  have hnew : RingStorage.Latest { s with _have_idr := true, _started := true }.newGop past ∧
      { s with _have_idr := true, _started := true }.newGop._have_idr = true := by
    unfold RingStorage.newGop
    split
    · exact ⟨⟨h.nonempty,h.suffix,fun hidr => by cases hidr⟩,rfl⟩
    · refine ⟨⟨by simp,?_,fun hidr => by cases hidr⟩,rfl⟩
      simpa [RingStorage.items] using h.suffix
  unfold RingStorage.startGop
  dsimp only
  split
  · refine ⟨hnew.1.popFrontGop,?_⟩
    unfold RingStorage.popFrontGop
    split <;> exact hnew.2
  · exact hnew

theorem items_emplace_back (h : s._data_cache ≠ []) (item : Bool × T) :
    (s.emplace_back item).items = s.items ++ [item] := by
  obtain ⟨front,back,hc⟩ : ∃ front back, s._data_cache = front ++ [back] :=
    ⟨_,_,(List.dropLast_append_getLast h).symm⟩
  simp [RingStorage.emplace_back, RingStorage.items, hc]

theorem RingStorage.Latest.store (h : s.Latest past) (item : Bool × T) :
    (if s._have_idr = false ∧ s._started = true then s else (s.emplace_back item).limit).Latest
      (past ++ [item]) := by
  split
  · rename_i hdrop
    refine ⟨h.nonempty,?_,h.dropping⟩
    rw [h.dropping hdrop.1 hdrop.2]
    exact List.nil_suffix
  · rename_i hkeep
    apply RingStorage.Latest.limit
    refine ⟨by simp [RingStorage.emplace_back],?_,?_⟩
    · rw [items_emplace_back h.nonempty]
      obtain ⟨front,hfront⟩ := h.suffix
      exact ⟨front,by rw [← hfront, List.append_assoc]⟩
    · intro hidr hstarted
      exact absurd ⟨hidr,hstarted⟩ hkeep

/-- A write keeps the latest items, with the new one or, without a key to start from, none. -/
theorem RingStorage.Latest.write (h : s.Latest past) (data : T) (is_key : Bool) :
    (s.write data is_key).Latest (past ++ [(is_key,data)]) := by
  cases is_key with
  | true => exact h.startGop.1.store (true,data)
  | false => exact h.store (false,data)

/-! ### Readers -/

/-- The shared pointer of a reader: held, or gone with its deleter not run, posted or finished. -/
inductive ReaderPtr where
  | held
  | expired
  | posted
  | deleted
  deriving DecidableEq

structure RingReader (T : Type*) where
  ptr : ReaderPtr
  /-- whether `_storage` is that of the dispatcher -/
  use_cache : Bool
  _read_cb : Bool
  /-- what the present callback was called with -/
  received : List T
  /-- how much had been written when the callback was set -/
  since : ℕ
  detached : ℕ

structure RingReaderDispatcher (P T : Type*) where
  poller : P
  _storage : RingStorage T
  _reader_size : ℤ
  /-- all readers that were attached; the map has the numbers of those still in it -/
  readers : List (RingReader T)
  _reader_map : List ℕ
  past : List (Bool × T)
  deleted : Bool

namespace RingReaderDispatcher

def create (poller : P) (storage : RingStorage T) (past : List (Bool × T)) : RingReaderDispatcher P T :=
  ⟨poller,storage,0,[],[],past,false⟩

def attach (d : RingReaderDispatcher P T) (use_cache : Bool) : RingReaderDispatcher P T :=
  { d with
    readers := d.readers ++ [⟨.held,use_cache,false,[],0,0⟩]
    _reader_map := d._reader_map ++ [d.readers.length]
    _reader_size := d._reader_size + 1 }

def lock (d : RingReaderDispatcher P T) (r : ℕ) : Bool := d.readers[r]?.any fun x => x.ptr = .held

def update (d : RingReaderDispatcher P T) (r : ℕ) (f : RingReader T → RingReader T) :
    RingReaderDispatcher P T :=
  { d with readers := d.readers.modify r f }

def onRead (data : T) (x : RingReader T) : RingReader T :=
  if x._read_cb then { x with received := x.received ++ [data] } else x

def erase (d : RingReaderDispatcher P T) (r : ℕ) : RingReaderDispatcher P T :=
  { d with _reader_map := d._reader_map.erase r, _reader_size := d._reader_size - 1 }

/-- The loop of `write` over the map, and the sizes it reports. -/
def writeLoop (data : T) : RingReaderDispatcher P T → List ℕ → RingReaderDispatcher P T × List ℤ
  | d, [] => (d,[])
  | d, r :: rs =>
    if d.lock r then writeLoop data (d.update r (onRead data)) rs
    else
      let d := d.erase r
      let e := writeLoop data d rs
      (e.1,d._reader_size :: e.2)

def write (d : RingReaderDispatcher P T) (data : T) (is_key : Bool) :
    RingReaderDispatcher P T × List ℤ :=
  let e := writeLoop data d d._reader_map
  ({ e.1 with
    _storage := e.1._storage.write data is_key
    past := e.1.past ++ [(is_key,data)] },e.2)

def clearCache (d : RingReaderDispatcher P T) : RingReaderDispatcher P T :=
  if d._reader_size = 0 then { d with _storage := d._storage.clearCache } else d

/-- A callback gets what the cache has at once. -/
def setReadCB (d : RingReaderDispatcher P T) (cb : Bool) (x : RingReader T) : RingReader T :=
  if cb then
    { x with
      _read_cb := true
      received := if x.use_cache then d._storage.items.map Prod.snd else []
      since := d.past.length }
  else { x with _read_cb := false }

/-- The destructor. -/
def destroy (d : RingReaderDispatcher P T) : RingReaderDispatcher P T :=
  { d with
    readers := d.readers.mapIdx fun r x =>
      if r ∈ d._reader_map ∧ x.ptr = .held then { x with detached := x.detached + 1 } else x
    _reader_map := []
    deleted := true }

end RingReaderDispatcher

/-- A callback was called with all that was written since some point, and that point is not later than the
one it was set at. -/
def RingReader.Streams (x : RingReader T) (past : List (Bool × T)) : Prop :=
  ∃ m ≤ x.since, x.since ≤ past.length ∧ (x.use_cache = false → m = x.since) ∧
    x.received = (past.drop m).map Prod.snd

structure RingReaderDispatcher.Inv (d : RingReaderDispatcher P T) : Prop where
  latest : d._storage.Latest d.past
  size : d.deleted = false → d._reader_size = d._reader_map.length
  nodup : d._reader_map.Nodup
  valid : ∀ r ∈ d._reader_map, r < d.readers.length
  mapped : d.deleted = false → ∀ r x, d.readers[r]? = some x → x.ptr = .held → r ∈ d._reader_map
  streams : ∀ x ∈ d.readers, x.ptr = .held → x._read_cb = true → x.Streams d.past
  detached : ∀ x ∈ d.readers, x.detached ≤ 1 ∧ (x.detached = 1 → d.deleted = true) ∧
    (x.ptr = .held → d.deleted = true → x.detached = 1)

theorem RingReader.Streams.onRead {x : RingReader T} (h : x.Streams past) (hcb : x._read_cb = true)
    (data : T) (is_key : Bool) :
    (RingReaderDispatcher.onRead data x).Streams (past ++ [(is_key,data)]) := by
  obtain ⟨m,hm,hsince,hcache,hgot⟩ := h
  refine ⟨m,?_,?_,?_,?_⟩
  · simpa [RingReaderDispatcher.onRead, hcb] using hm
  · simp only [RingReaderDispatcher.onRead, hcb, if_true, List.length_append, List.length_singleton]
    omega
  · simpa [RingReaderDispatcher.onRead, hcb] using hcache
  · simp only [RingReaderDispatcher.onRead, hcb, if_true]
    rw [hgot, List.drop_append_of_le_length (hm.trans hsince), List.map_append]
    rfl

namespace RingReaderDispatcher

@[simp] theorem onRead_ptr (data : T) (x : RingReader T) : (onRead data x).ptr = x.ptr := by
  unfold onRead
  split <;> rfl

@[simp] theorem onRead_cb (data : T) (x : RingReader T) : (onRead data x)._read_cb = x._read_cb := by
  unfold onRead
  split <;> simp_all

@[simp] theorem onRead_detached (data : T) (x : RingReader T) : (onRead data x).detached = x.detached := by
  unfold onRead
  split <;> rfl

variable {d : RingReaderDispatcher P T}

theorem getElem?_update (r : ℕ) (f : RingReader T → RingReader T) (q : ℕ) :
    (d.update r f).readers[q]? = d.readers[q]?.map fun x => if r = q then f x else x := by
  simp only [update, List.getElem?_modify]
  rfl

theorem lock_update (r : ℕ) (f : RingReader T → RingReader T) (hf : ∀ x, (f x).ptr = x.ptr) :
    (d.update r f).lock = d.lock := by
  funext i
  simp only [lock, getElem?_update]
  cases d.readers[i]? with
  | none => rfl
  | some x =>
    by_cases hi : r = i
    · simp [hi, hf]
    · simp [hi]

theorem lock_iff {r : ℕ} : d.lock r = true ↔ ∃ x, d.readers[r]? = some x ∧ x.ptr = .held := by
  simp [lock, Option.any_eq_true]

/-- Whom the loop calls, whom it takes out of the map, and how often it reports. -/
theorem writeLoop_spec (data : T) (rs : List ℕ) (hrs : rs.Nodup) (hmap : d._reader_map.Nodup) :
    (writeLoop data d rs).1 = { d with
      readers := d.readers.mapIdx fun r x => if r ∈ rs ∧ x.ptr = .held then onRead data x else x
      _reader_map := d._reader_map.filter fun r => d.lock r || r ∉ rs
      _reader_size := d._reader_size - (writeLoop data d rs).2.length } ∧
    (writeLoop data d rs).2.length = rs.countP fun r => d.lock r = false := by
  induction rs generalizing d with
  | nil =>
    have hid : d.readers.mapIdx (fun _ x => x) = d.readers := by
      apply List.ext_getElem?
      simp
    simp [writeLoop, hid]
  | cons r rs ih =>
    obtain ⟨hr,hrs⟩ := List.nodup_cons.mp hrs
    unfold writeLoop
    by_cases hlock : d.lock r = true
    · simp only [hlock, if_true]
      have hlocks := lock_update (d := d) r (onRead data) (onRead_ptr data)
      obtain ⟨hspec,hcount⟩ := ih (d := d.update r (onRead data)) hrs hmap
      rw [hlocks] at hspec hcount
      constructor
      · rw [hspec]
        simp only [update, RingReaderDispatcher.mk.injEq, true_and, and_true]
        constructor
        · apply List.ext_getElem?
          intro i
          simp only [List.getElem?_mapIdx, List.getElem?_modify, List.mem_cons]
          cases hx : d.readers[i]? with
          | none => simp
          | some x =>
            by_cases hi : r = i
            · subst hi
              obtain ⟨y,hy,hheld⟩ := lock_iff.mp hlock
              obtain rfl : x = y := Option.some.inj (hx.symm.trans hy)
              simp [hr, hheld]
            · simp [hi, Ne.symm hi]
        · apply List.filter_congr
          intro i _
          by_cases hi : i = r
          · simp [hi, hlock]
          · simp [hi]
      · rw [hcount]
        simp [hlock]
    · have hlock : d.lock r = false := by simpa using hlock
      simp only [hlock, Bool.false_eq_true, if_false]
      have hlocks : (d.erase r).lock = d.lock := rfl
      obtain ⟨hspec,hcount⟩ := ih (d := d.erase r) hrs (hmap.erase r)
      rw [hlocks] at hspec hcount
      constructor
      · rw [hspec]
        simp only [erase, RingReaderDispatcher.mk.injEq, true_and, and_true, List.length_cons]
        refine ⟨?_,?_,?_⟩
        · push_cast
          omega
        · apply List.ext_getElem?
          intro i
          simp only [List.getElem?_mapIdx, List.mem_cons]
          cases hx : d.readers[i]? with
          | none => simp
          | some x =>
            by_cases hi : i = r
            · subst hi
              have hnot : x.ptr ≠ .held := fun hheld => by
                simp [lock, hx, hheld] at hlock
              simp [hnot]
            · simp [hi]
        · rw [hmap.erase_eq_filter, List.filter_filter]
          apply List.filter_congr
          intro i _
          by_cases hi : i = r
          · simp [hi, hlock, hr]
          · simp [hi]
      · simp only [List.length_cons, hcount]
        simp [hlock]

/-- When a size of zero is reported, the map is empty in the end. -/
theorem writeLoop_zero (data : T) (rs : List ℕ) (h : 0 ∈ (writeLoop data d rs).2) :
    (writeLoop data d rs).1._reader_size ≤ 0 := by
  have hle : ∀ (rs : List ℕ) (d : RingReaderDispatcher P T),
      (writeLoop data d rs).1._reader_size ≤ d._reader_size := by
    intro rs
    induction rs with
    | nil => exact fun d => Int.le_refl _
    | cons r rs ih =>
      intro d
      unfold writeLoop
      split
      · exact ih _
      · have hrest := ih (d.erase r)
        simp only [erase] at hrest ⊢
        omega
  induction rs generalizing d with
  | nil => simp [writeLoop] at h
  | cons r rs ih =>
    unfold writeLoop at h ⊢
    split
    · rename_i hlock
      rw [if_pos hlock] at h
      exact ih h
    · rename_i hlock
      rw [if_neg hlock] at h
      rcases List.mem_cons.mp h with h0 | h
      · have hrest := hle rs (d.erase r)
        dsimp only at h0 ⊢
        omega
      · exact ih h

theorem write_fields (h : d._reader_map.Nodup) (data : T) (is_key : Bool) :
    (d.write data is_key).1.poller = d.poller ∧ (d.write data is_key).1.deleted = d.deleted ∧
    (d.write data is_key).1.past = d.past ++ [(is_key,data)] := by
  obtain ⟨hspec,_⟩ := writeLoop_spec data d._reader_map h h
  refine ⟨?_,?_,?_⟩ <;> simp only [write, hspec]

theorem getElem?_write (h : d._reader_map.Nodup) (data : T) (is_key : Bool) (r : ℕ) :
    (d.write data is_key).1.readers[r]? = d.readers[r]?.map fun x =>
      if r ∈ d._reader_map ∧ x.ptr = .held then onRead data x else x := by
  obtain ⟨hspec,_⟩ := writeLoop_spec data d._reader_map h h
  simp only [write, hspec, List.getElem?_mapIdx]

theorem mem_map_write (h : d._reader_map.Nodup) (data : T) (is_key : Bool) (r : ℕ) :
    r ∈ (d.write data is_key).1._reader_map ↔ r ∈ d._reader_map ∧ d.lock r = true := by
  obtain ⟨hspec,_⟩ := writeLoop_spec data d._reader_map h h
  simp only [write, hspec, List.mem_filter, Bool.or_eq_true, decide_eq_true_eq]
  constructor
  · rintro ⟨hr,hlock | hno⟩
    · exact ⟨hr,hlock⟩
    · exact absurd hr hno
  · exact fun ⟨hr,hlock⟩ => ⟨hr,Or.inl hlock⟩

/-- The pointers of the readers are not touched. -/
theorem ptr_write (h : d._reader_map.Nodup) (data : T) (is_key : Bool) {r : ℕ} {x : RingReader T}
    (hx : (d.write data is_key).1.readers[r]? = some x) : ∃ y, d.readers[r]? = some y ∧ x.ptr = y.ptr ∧
      x = if r ∈ d._reader_map ∧ y.ptr = .held then onRead data y else y := by
  rw [getElem?_write h] at hx
  obtain ⟨y,hy,rfl⟩ := Option.map_eq_some_iff.mp hx
  refine ⟨y,hy,?_,rfl⟩
  split
  · exact onRead_ptr data y
  · rfl

/-! ### What the operations keep -/

theorem inv_create (poller : P) (h : s.Latest past) : (create poller s past).Inv where
  latest := h
  size _ := rfl
  nodup := List.nodup_nil
  valid _ h := absurd h List.not_mem_nil
  mapped _ r x h := by simp [create] at h
  streams _ h := absurd h List.not_mem_nil
  detached _ h := absurd h List.not_mem_nil

theorem Inv.attach (h : d.Inv) (hd : d.deleted = false) (use_cache : Bool) : (d.attach use_cache).Inv where
  latest := h.latest
  size _ := by simp [RingReaderDispatcher.attach, h.size hd]
  nodup := by
    simp only [RingReaderDispatcher.attach]
    refine List.nodup_append.mpr ⟨h.nodup,by simp,?_⟩
    intro r hr _ hl
    obtain rfl := List.mem_singleton.mp hl
    exact (h.valid r hr).ne
  valid := by
    intro r hr
    simp only [RingReaderDispatcher.attach, List.length_append, List.length_singleton]
    rcases List.mem_append.mp hr with hr | hr
    · exact Nat.lt_succ_of_lt (h.valid r hr)
    · obtain rfl := List.mem_singleton.mp hr
      exact Nat.lt_succ_self _
  mapped := by
    intro _ r x hx hheld
    simp only [RingReaderDispatcher.attach, List.mem_append, List.mem_singleton]
    by_cases hr : r < d.readers.length
    · left
      exact h.mapped hd r x (List.getElem?_append_left hr ▸ hx) hheld
    · right
      have hlt := (List.getElem?_eq_some_iff.mp hx).1
      rw [show (d.attach use_cache).readers.length = d.readers.length + 1 by
        simp [RingReaderDispatcher.attach]] at hlt
      omega
  streams := by
    intro x hx hheld hcb
    rcases List.mem_append.mp hx with hx | hx
    · exact h.streams x hx hheld hcb
    · obtain rfl := List.mem_singleton.mp hx
      cases hcb
  detached := by
    intro x hx
    rcases List.mem_append.mp hx with hx | hx
    · exact h.detached x hx
    · obtain rfl := List.mem_singleton.mp hx
      refine ⟨Nat.zero_le 1,fun hone => absurd hone Nat.zero_ne_one,fun _ hdel => ?_⟩
      exact absurd (hd.symm.trans hdel) Bool.false_ne_true

/-- A change of one reader that leaves the others and the map alone. -/
theorem Inv.update (h : d.Inv) (r : ℕ) (f : RingReader T → RingReader T)
    (hptr : ∀ x, d.readers[r]? = some x → (f x).ptr = .held → x.ptr = .held)
    (hstreams : ∀ x, d.readers[r]? = some x → (f x).ptr = .held → (f x)._read_cb = true →
      (f x).Streams d.past)
    (hdetached : ∀ x, (f x).detached = x.detached) : (d.update r f).Inv where
  latest := h.latest
  size := h.size
  nodup := h.nodup
  valid i hi := by simpa [RingReaderDispatcher.update] using h.valid i hi
  mapped := by
    intro hd i x hx hheld
    rw [getElem?_update] at hx
    obtain ⟨y,hy,rfl⟩ := Option.map_eq_some_iff.mp hx
    by_cases hi : r = i
    · subst hi
      simp only [if_true] at hheld
      exact h.mapped hd r y hy (hptr y hy hheld)
    · simp only [hi, if_false] at hheld
      exact h.mapped hd i y hy hheld
  streams := by
    intro x hx hheld hcb
    obtain ⟨i,hi⟩ := List.mem_iff_getElem?.mp hx
    rw [getElem?_update] at hi
    obtain ⟨y,hy,rfl⟩ := Option.map_eq_some_iff.mp hi
    by_cases hr : r = i
    · subst hr
      simp only [if_true] at hheld hcb ⊢
      exact hstreams y hy hheld hcb
    · simp only [hr, if_false] at hheld hcb ⊢
      exact h.streams y (List.mem_of_getElem? hy) hheld hcb
  detached := by
    intro x hx
    obtain ⟨i,hi⟩ := List.mem_iff_getElem?.mp hx
    rw [getElem?_update] at hi
    obtain ⟨y,hy,rfl⟩ := Option.map_eq_some_iff.mp hi
    obtain ⟨hle,hdel,hall⟩ := h.detached y (List.mem_of_getElem? hy)
    by_cases hr : r = i
    · subst hr
      simp only [if_true, hdetached]
      exact ⟨hle,hdel,fun hheld => hall (hptr y hy hheld)⟩
    · simp only [hr, if_false]
      exact ⟨hle,hdel,hall⟩

/-- What a reader gets at first is the end of what has been written. -/
theorem Inv.setReadCB (h : d.Inv) (r : ℕ) (cb : Bool) : (d.update r (d.setReadCB cb)).Inv := by
  apply h.update r
  · intro x _ hheld
    cases cb <;> exact hheld
  · intro x _ _ hcb
    cases cb with
    | false => cases hcb
    | true =>
      cases hcache : x.use_cache with
      | false =>
        refine ⟨d.past.length,?_⟩
        simp [RingReaderDispatcher.setReadCB, hcache]
      | true =>
        obtain ⟨front,hfront⟩ := h.latest.suffix
        refine ⟨front.length,?_⟩
        simp [RingReaderDispatcher.setReadCB, hcache, ← hfront]
  · intro x
    cases cb <;> rfl

theorem Inv.clearCache (h : d.Inv) : d.clearCache.Inv := by
  unfold RingReaderDispatcher.clearCache
  split
  · exact ⟨latest_clearCache _,h.size,h.nodup,h.valid,h.mapped,h.streams,h.detached⟩
  · exact h

theorem Inv.write (h : d.Inv) (hd : d.deleted = false) (data : T) (is_key : Bool) :
    (d.write data is_key).1.Inv := by
  obtain ⟨hspec,hcount⟩ := writeLoop_spec data d._reader_map h.nodup h.nodup
  obtain ⟨_,hdel,hpast⟩ := write_fields h.nodup data is_key
  constructor
  · have hlatest := h.latest.write data is_key
    simpa only [RingReaderDispatcher.write, hspec] using hlatest
  · intro _
    have hlen := List.length_eq_countP_add_countP (fun r => d.lock r) (l := d._reader_map)
    have hsize := h.size hd
    have hfilter : (d._reader_map.filter fun r => d.lock r || r ∉ d._reader_map) =
        d._reader_map.filter fun r => d.lock r := by
      apply List.filter_congr
      intro r hr
      simp [hr]
    simp only [RingReaderDispatcher.write]
    rw [hspec]
    simp only [hcount, hfilter, ← List.countP_eq_length_filter]
    simp only [Bool.not_eq_true] at hlen
    omega
  · have hnodup : (writeLoop data d d._reader_map).1._reader_map.Nodup := by
      rw [hspec]
      exact h.nodup.filter _
    exact hnodup
  · intro r hr
    have hr := h.valid r ((mem_map_write h.nodup data is_key r).mp hr).1
    simpa [RingReaderDispatcher.write, hspec] using hr
  · intro _ r x hx hheld
    obtain ⟨y,hy,hptr,_⟩ := ptr_write h.nodup data is_key hx
    rw [hptr] at hheld
    exact (mem_map_write h.nodup data is_key r).mpr ⟨h.mapped hd r y hy hheld,lock_iff.mpr ⟨y,hy,hheld⟩⟩
  · intro x hx hheld hcb
    obtain ⟨r,hr⟩ := List.mem_iff_getElem?.mp hx
    obtain ⟨y,hy,hptr,rfl⟩ := ptr_write h.nodup data is_key hr
    rw [hptr] at hheld
    rw [if_pos ⟨h.mapped hd r y hy hheld,hheld⟩] at hcb ⊢
    rw [onRead_cb] at hcb
    rw [hpast]
    exact (h.streams y (List.mem_of_getElem? hy) hheld hcb).onRead hcb data is_key
  · intro x hx
    obtain ⟨r,hr⟩ := List.mem_iff_getElem?.mp hx
    obtain ⟨y,hy,_,rfl⟩ := ptr_write h.nodup data is_key hr
    rw [hdel]
    have hy := h.detached y (List.mem_of_getElem? hy)
    split
    · simpa using hy
    · exact hy

/-- The sizes that are reported are as many as the readers that leave. -/
theorem Inv.length_write (h : d.Inv) (hd : d.deleted = false) (data : T) (is_key : Bool) :
    (d.write data is_key).1._reader_map.length + (d.write data is_key).2.length = d._reader_map.length ∧
    (0 ∈ (d.write data is_key).2 → (d.write data is_key).1._reader_map = []) := by
  obtain ⟨hspec,_⟩ := writeLoop_spec data d._reader_map h.nodup h.nodup
  have hnew := (h.write hd data is_key).size ((write_fields h.nodup data is_key).2.1.trans hd)
  have hnow : (d.write data is_key).1._reader_size = d._reader_size - (d.write data is_key).2.length := by
    simp only [RingReaderDispatcher.write]
    rw [hspec]
  have hold := h.size hd
  constructor
  · omega
  · intro h0
    have hle : (d.write data is_key).1._reader_size ≤ 0 := writeLoop_zero data d._reader_map h0
    exact List.eq_nil_of_length_eq_zero (by omega)

/-- An expired reader leaves the map. -/
theorem Inv.erase (h : d.Inv) {r : ℕ} (hmem : r ∈ d._reader_map) (hr : d.lock r = false) :
    (d.erase r).Inv where
  latest := h.latest
  size hd := by
    have hlen := List.length_erase_of_mem hmem
    have hpos := List.length_pos_of_mem hmem
    have hsize := h.size hd
    simp only [RingReaderDispatcher.erase]
    omega
  nodup := h.nodup.erase r
  valid i hi := h.valid i (List.mem_of_mem_erase hi)
  mapped := by
    intro hd i x hx hheld
    refine (List.mem_erase_of_ne ?_).mpr (h.mapped hd i x hx hheld)
    rintro rfl
    have hlock : d.lock i = true := lock_iff.mpr ⟨x,hx,hheld⟩
    rw [hr] at hlock
    cases hlock
  streams := h.streams
  detached := h.detached

/-- The readers that are held get the call that the stream has ended. -/
theorem Inv.destroy (h : d.Inv) (hd : d.deleted = false) : d.destroy.Inv := by
  have hreaders : ∀ i x, d.destroy.readers[i]? = some x → ∃ y, d.readers[i]? = some y ∧
      x = if i ∈ d._reader_map ∧ y.ptr = .held then { y with detached := y.detached + 1 } else y := by
    intro i x hx
    simp only [RingReaderDispatcher.destroy, List.getElem?_mapIdx] at hx
    obtain ⟨y,hy,rfl⟩ := Option.map_eq_some_iff.mp hx
    exact ⟨y,hy,rfl⟩
  constructor
  · exact h.latest
  · intro hdel
    cases hdel
  · exact List.nodup_nil
  · intro r hr
    cases hr
  · intro hdel
    cases hdel
  · intro x hx hheld hcb
    obtain ⟨r,hr⟩ := List.mem_iff_getElem?.mp hx
    obtain ⟨y,hy,rfl⟩ := hreaders r x hr
    by_cases hin : r ∈ d._reader_map ∧ y.ptr = .held
    · rw [if_pos hin] at hheld hcb ⊢
      exact h.streams y (List.mem_of_getElem? hy) hheld hcb
    · rw [if_neg hin] at hheld hcb ⊢
      exact h.streams y (List.mem_of_getElem? hy) hheld hcb
  · intro x hx
    obtain ⟨r,hr⟩ := List.mem_iff_getElem?.mp hx
    obtain ⟨y,hy,rfl⟩ := hreaders r x hr
    obtain ⟨hle,hdel,_⟩ := h.detached y (List.mem_of_getElem? hy)
    have hzero : y.detached = 0 := by
      by_contra hne
      rw [hdel (by omega)] at hd
      cases hd
    split
    · exact ⟨by simp [hzero],fun _ => rfl,fun _ _ => by simp [hzero]⟩
    · rename_i hno
      refine ⟨by omega,fun _ => rfl,fun hheld _ => ?_⟩
      exact absurd ⟨h.mapped hd r y hy hheld,hheld⟩ hno

end RingReaderDispatcher

end OctCommu.Util.RingBuffer
