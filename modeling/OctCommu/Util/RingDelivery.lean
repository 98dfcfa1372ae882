import OctCommu.Util.RingReaders
import Mathlib.Algebra.Order.BigOperators.Group.List
import Mathlib.Algebra.Order.Ring.Nat
import Mathlib.Data.List.Perm.Subperm

/-! # Delivery to the readers of a `RingBuffer`

What holds in every state of every run of the ring: what a reader has got, how many
readers are reported, who is told that the stream has ended, and what the cache of a
poller has.
-/
namespace OctCommu.Util.RingBuffer
open Runs
variable {P T : Type*}

namespace Ring

variable {s t : Ring P T} {d : ℕ} {x y : RingReaderDispatcher P T}

section
variable [DecidableEq P]

theorem step_inv {a : RingAct P T} (h : s.Inv) (hs : step s a = some t) : t.Inv := by
  cases a with
  | write data is_key =>
    obtain ⟨ha,hs⟩ := Option.ite_none_right_eq_some.mp hs
    cases hs
    exact h.write ha data is_key
  | setDelegate delegate =>
    obtain ⟨ha,hs⟩ := Option.ite_none_right_eq_some.mp hs
    cases hs
    refine ⟨h.latest,fun d x hx => ?_,h.map,h.tasks,h.total,h.dead⟩
    have hd := h.dispatches d x hx
    exact ⟨hd.inv,hd.streaming,hd.mapped,hd.unheld,hd.undeleted,hd.kept⟩
  | clearCache =>
    obtain ⟨ha,hs⟩ := Option.ite_none_right_eq_some.mp hs
    cases hs
    exact h.clearCache ha
  | attach p isCurrentThread use_cache =>
    obtain ⟨ha,hs⟩ := Option.ite_none_right_eq_some.mp hs
    exact h.attach ha hs
  | setReadCB d r cb =>
    obtain ⟨x,z,hx,_,_,rfl⟩ := reader_eq_some hs
    exact h.setReadCB hx r cb
  | release d r =>
    obtain ⟨x,z,hx,hz,_,rfl⟩ := reader_eq_some hs
    have hlt := (List.getElem?_eq_some_iff.mp hx).1
    apply (h.setPtr hx (r := r) .expired (by decide) (by decide)).dealloc
    · simp [Ring.set, hlt]
    · exact gone_setPtr hz (by decide)
  | expire d r =>
    obtain ⟨x,z,hx,_,_,rfl⟩ := reader_eq_some hs
    exact h.setPtr hx _ (by decide) (by decide)
  | post d r =>
    obtain ⟨x,z,hx,hz,_,rfl⟩ := reader_eq_some hs
    exact h.post hx hz
  | run p =>
    simp only [step] at hs
    cases hq : s.queue p with
    | nil =>
      rw [hq] at hs
      cases hs
    | cons a rest =>
      rw [hq] at hs
      obtain ⟨x,hx,rfl⟩ := Option.map_eq_some_iff.mp hs
      cases a with
      | write d data is_key => exact h.runWrite hq hx rfl
      | clearCache d =>
        have hu := h.pop hq fun _ => rfl
        have hd := hu.dispatches d x hx
        have hinv := hd.inv.clearCache
        have hfields : x.clearCache.poller = x.poller ∧ x.clearCache._reader_map = x._reader_map ∧
            x.clearCache.readers = x.readers ∧ x.clearCache.past = x.past ∧
            x.clearCache.deleted = x.deleted := by
          unfold RingReaderDispatcher.clearCache
          split <;> exact ⟨rfl,rfl,rfl,rfl,rfl⟩
        obtain ⟨hpoller,hmap,hreaders,hpast,hdel⟩ := hfields
        apply hu.set (y := x.clearCache) hx hpoller hmap
        · simp only [Gone, hreaders, imp_self, implies_true]
        · refine ⟨hinv,?_,?_,?_,?_,?_⟩
          · rw [hpoller, hreaders, hpast]
            exact hd.streaming
          · rw [hpoller, hmap]
            exact hd.mapped
          · rw [hreaders, hdel]
            exact hd.unheld
          · rw [hreaders, hmap]
            exact hd.undeleted
          · unfold strong
            rw [hpoller, hdel]
            exact hd.kept
      | dealloc d r =>
        obtain ⟨w,hw,_,hgone⟩ := h.tasks p (.dealloc d r) (by rw [hq]; exact List.mem_cons_self)
        obtain rfl : x = w := Option.some.inj (hx.symm.trans hw)
        exact (h.pop hq fun _ => rfl).dealloc hx (hgone d r rfl)
  | destroy =>
    obtain ⟨ha,hs⟩ := Option.ite_none_right_eq_some.mp hs
    cases hs
    exact h.destroy
  | reap d =>
    obtain ⟨x,hx,hs⟩ := Option.bind_eq_some_iff.mp hs
    split at hs
    · cases hs
    · rename_i hc
      cases hs
      rw [Bool.not_eq_true, Bool.or_eq_false_iff] at hc
      exact h.reap hx hc.1 hc.2

theorem everyState_inv (max_size max_gop_size : ℕ) (acts : List (RingAct P T)) :
    EveryState step Inv (fresh max_size max_gop_size) acts :=
  everyState_of_preserves (fun _ _ _ h hs => step_inv h hs) (inv_fresh max_size max_gop_size) acts

end

theorem countP_eq_length_range {α : Type*} (p : α → Bool) (l : List α) :
    l.countP p = ((List.range l.length).filter fun i => l[i]?.any p).length := by
  induction l using List.reverseRecOn with
  | nil => rfl
  | append_singleton l a ih =>
    have hfront : (List.range l.length).filter (fun i => (l ++ [a])[i]?.any p) =
        (List.range l.length).filter fun i => l[i]?.any p := by
      apply List.filter_congr
      intro i hi
      rw [List.getElem?_append_left (List.mem_range.mp hi)]
    rw [List.countP_append, List.length_append, List.length_singleton, List.range_succ, List.filter_append,
      List.length_append, hfront, ih]
    cases hp : p a <;> simp [hp]

theorem Dispatches.held_le (h : s.Dispatches d x) (ha : s.alive = true) :
    (x.readers.countP fun y => y.ptr = .held) ≤ x._reader_map.length := by
  cases hdel : x.deleted with
  | true =>
    rw [List.countP_eq_zero.mpr]
    · exact Nat.zero_le _
    · intro y hy
      simpa using h.unheld ha hdel y hy
  | false =>
    rw [countP_eq_length_range]
    refine (List.Nodup.subperm ((List.nodup_range).filter _) ?_).length_le
    intro r hr
    obtain ⟨y,hy,hptr⟩ := (Option.any_eq_true _ _).mp (List.mem_filter.mp hr).2
    exact h.inv.mapped hdel r y hy (of_decide_eq_true hptr)

theorem Dispatches.le_undeleted (h : s.Dispatches d x) (ha : s.alive = true) :
    x._reader_map.length ≤ x.readers.countP fun y => y.ptr ≠ .deleted := by
  rw [countP_eq_length_range]
  refine (List.Nodup.subperm h.inv.nodup ?_).length_le
  intro r hr
  have hlt := h.inv.valid r hr
  refine List.mem_filter.mpr ⟨List.mem_range.mpr hlt,?_⟩
  rw [List.getElem?_eq_getElem hlt]
  exact decide_eq_true (h.undeleted ha r hr _ (List.getElem?_eq_getElem hlt))

theorem Inv.counts (h : s.Inv) : s.Counts := by
  intro ha
  have htotal := h.total ha
  have heach : ∀ x ∈ s.dispatchers, ∃ d, s.Dispatches d x := by
    intro x hx
    obtain ⟨d,hd⟩ := List.mem_iff_getElem?.mp hx
    exact ⟨d,h.dispatches d x hd⟩
  unfold readerCount readersWith
  rw [htotal]
  constructor
  · exact_mod_cast List.sum_le_sum fun x hx => by
      obtain ⟨d,hd⟩ := heach x hx
      exact hd.held_le ha
  · exact_mod_cast List.sum_le_sum fun x hx => by
      obtain ⟨d,hd⟩ := heach x hx
      exact hd.le_undeleted ha

theorem Inv.endsOnce (h : s.Inv) : s.EndsOnce := by
  intro d x hx y hy
  have hd := h.dispatches d x hx
  obtain ⟨hle,hdel,hall⟩ := hd.inv.detached y hy
  refine ⟨hle,fun hheld => ⟨hdel,hall hheld⟩,fun hheld hone => ⟨?_,?_⟩⟩
  · by_contra ha
    exact hd.unheld (by simpa using ha) (hdel hone) y hy hheld
  · apply List.filterMap_eq_nil_iff.mpr
    intro t ht
    have hno : t.second ≠ some d := by
      intro hs
      have hkept := hd.kept (strong_iff.mpr (Or.inr ⟨t,ht,hs⟩))
      rw [hdel hone] at hkept
      cases hkept
    cases t with
    | write e data is_key => exact if_neg fun he => hno (congrArg some he)
    | clearCache e => rfl
    | dealloc e r => rfl

section
variable [DecidableEq P]

/-- The number of readers that the ring reports misses none that is held. -/
theorem everyState_counts (max_size max_gop_size : ℕ) (acts : List (RingAct P T)) :
    EveryState step Counts (fresh max_size max_gop_size) acts :=
  (everyState_inv max_size max_gop_size acts).mono fun _ h => h.counts

theorem everyState_endsOnce (max_size max_gop_size : ℕ) (acts : List (RingAct P T)) :
    EveryState step EndsOnce (fresh max_size max_gop_size) acts :=
  (everyState_inv max_size max_gop_size acts).mono fun _ h => h.endsOnce

end

/-! ### The caches of the pollers -/

def replay (items : List (Bool × T)) (storage : RingStorage T) : RingStorage T :=
  items.foldl (fun c item => c.write item.2 item.1) storage

/-- The cache of a poller's dispatcher, once what is on its way has got there, is that of the ring. -/
def Replicas (s : Ring P T) : Prop :=
  ∀ p d, s._dispatcher_map p = some d → ∃ x, s.dispatchers[d]? = some x ∧ x.poller = p ∧
    replay (s.pending p d) x._storage = s._storage

/-- Without calls of `clearCache` each cache is that of the items that have got to it. -/
structure Replays (base : RingStorage T) (s : Ring P T) : Prop where
  ring : s._storage = replay s.history base
  dispatchers : ∀ x ∈ s.dispatchers, x._storage = replay x.past base
  unclear : ∀ p, ∀ t ∈ s.queue p, ∀ d, t ≠ .clearCache d

theorem replay_append (xs ys : List (Bool × T)) (storage : RingStorage T) :
    replay (xs ++ ys) storage = replay ys (replay xs storage) :=
  List.foldl_append

/-- A step of one dispatcher that leaves the queues and the ring's own cache. -/
theorem Replays.set {base : RingStorage T} (h : s.Replays base) (hx : s.dispatchers[d]? = some x)
    (hstorage : y._storage = x._storage) (hpast : y.past = x.past) : (s.set d y).Replays base where
  ring := h.ring
  dispatchers z hz := by
    rcases List.mem_or_eq_of_mem_set hz with hz | rfl
    · exact h.dispatchers z hz
    · rw [hstorage, hpast]
      exact h.dispatchers x (List.mem_of_getElem? hx)
  unclear := h.unclear

theorem Replays.write {base : RingStorage T} (h : s.Replays base) (data : T) (is_key : Bool) :
    (s.write data is_key).Replays base := by
  unfold Ring.write
  split
  · exact ⟨h.ring,h.dispatchers,h.unclear⟩
  · refine ⟨?_,h.dispatchers,?_⟩
    · change s._storage.write data is_key = replay (s.history ++ [(is_key,data)]) base
      rw [replay_append, ← h.ring]
      rfl
    · intro p b hb e
      dsimp only [asyncAll] at hb
      split at hb
      · rcases List.mem_append.mp hb with hb | hb
        · exact h.unclear p b hb e
        · obtain rfl := List.mem_singleton.mp hb
          exact fun he => by cases he
      · exact h.unclear p b hb e

section
variable [DecidableEq P]

theorem Replays.onSizeChanged {base : RingStorage T} (h : s.Replays base) (p : P) (add_flag : Bool)
    (size : ℤ) : (onSizeChanged p add_flag s size).Replays base := by
  unfold Ring.onSizeChanged
  split
  · exact ⟨h.ring,h.dispatchers,h.unclear⟩
  · exact h

theorem Replays.dealloc {base : RingStorage T} (h : s.Replays base) (hx : s.dispatchers[d]? = some x)
    (r : ℕ) : (s.dealloc d r x).Replays base := by
  unfold Ring.dealloc
  split
  · apply Replays.onSizeChanged
    exact h.set hx rfl rfl
  · exact h.set hx rfl rfl

theorem Replays.pop {base : RingStorage T} (h : s.Replays base) {p : P} {a : PollerTask T}
    {rest : List (PollerTask T)} (hq : s.queue p = a :: rest) :
    Replays base { s with queue := Function.update s.queue p rest } :=
  ⟨h.ring,h.dispatchers,fun q b hb => h.unclear q b (mem_pop hq hb)⟩

theorem Replays.attach {base : RingStorage T} (h : s.Replays base) {p : P} {isCurrentThread use_cache : Bool}
    (ht : s.attach p isCurrentThread use_cache = some t) : t.Replays base := by
  have hu : (s.dispatcher p).1.Replays base := by
    unfold Ring.dispatcher
    split
    · exact h
    · refine ⟨h.ring,?_,h.unclear⟩
      intro x hx
      rcases List.mem_append.mp hx with hx | hx
      · exact h.dispatchers x hx
      · obtain rfl := List.mem_singleton.mp hx
        exact h.ring
  unfold Ring.attach at ht
  dsimp only at ht
  split at ht
  · obtain ⟨x,hx,rfl⟩ := Option.map_eq_some_iff.mp ht
    apply Replays.onSizeChanged
    exact hu.set hx rfl rfl
  · cases ht
    exact hu

theorem Replays.step {base : RingStorage T} (h : s.Replays base) (hinv : s.Inv) {a : RingAct P T}
    (ha : a ≠ .clearCache) (hs : step s a = some t) : t.Replays base := by
  cases a with
  | write data is_key =>
    obtain ⟨_,hs⟩ := Option.ite_none_right_eq_some.mp hs
    cases hs
    exact h.write data is_key
  | setDelegate delegate =>
    obtain ⟨_,hs⟩ := Option.ite_none_right_eq_some.mp hs
    cases hs
    exact ⟨h.ring,h.dispatchers,h.unclear⟩
  | clearCache => exact absurd rfl ha
  | attach p isCurrentThread use_cache =>
    obtain ⟨_,hs⟩ := Option.ite_none_right_eq_some.mp hs
    exact h.attach hs
  | setReadCB d r cb =>
    obtain ⟨x,_,hx,_,_,rfl⟩ := reader_eq_some hs
    exact h.set hx rfl rfl
  | release d r =>
    obtain ⟨x,_,hx,_,_,rfl⟩ := reader_eq_some hs
    have hlt := (List.getElem?_eq_some_iff.mp hx).1
    apply (h.set (y := x.update r (setPtr .expired)) hx rfl rfl).dealloc
    simp [Ring.set, hlt]
  | expire d r =>
    obtain ⟨x,_,hx,_,_,rfl⟩ := reader_eq_some hs
    exact h.set hx rfl rfl
  | post d r =>
    obtain ⟨x,_,hx,_,_,rfl⟩ := reader_eq_some hs
    have hset := h.set (y := x.update r (setPtr .posted)) hx rfl rfl
    refine ⟨hset.ring,hset.dispatchers,?_⟩
    intro p b hb e
    change b ∈ Function.update s.queue x.poller (s.queue x.poller ++ [.dealloc d r]) p at hb
    rw [Function.update_apply] at hb
    split at hb
    · rcases List.mem_append.mp hb with hb | hb
      · exact h.unclear _ b hb e
      · obtain rfl := List.mem_singleton.mp hb
        exact fun he => by cases he
    · exact h.unclear p b hb e
  | run p =>
    simp only [Ring.step] at hs
    cases hq : s.queue p with
    | nil =>
      rw [hq] at hs
      cases hs
    | cons b rest =>
      rw [hq] at hs
      obtain ⟨x,hx,rfl⟩ := Option.map_eq_some_iff.mp hs
      cases b with
      | write d data is_key =>
        have hnodup := (hinv.dispatches d x hx).inv.nodup
        obtain ⟨hspec,_⟩ := RingReaderDispatcher.writeLoop_spec data x._reader_map hnodup hnodup
        dsimp only
        rw [foldl_onSizeChanged]
        refine ⟨h.ring,?_,(h.pop hq).unclear⟩
        intro z hz
        rcases List.mem_or_eq_of_mem_set hz with hz | rfl
        · exact h.dispatchers z hz
        · have hstorage : (x.write data is_key).1._storage = x._storage.write data is_key := by
            simp only [RingReaderDispatcher.write, hspec]
          rw [hstorage, (RingReaderDispatcher.write_fields hnodup data is_key).2.2, replay_append,
            ← h.dispatchers x (List.mem_of_getElem? hx)]
          rfl
      | clearCache d =>
        exact absurd rfl (h.unclear p (.clearCache d) (by rw [hq]; exact List.mem_cons_self) d)
      | dealloc d r => exact (h.pop hq).dealloc hx r
  | destroy =>
    obtain ⟨_,hs⟩ := Option.ite_none_right_eq_some.mp hs
    cases hs
    exact ⟨h.ring,h.dispatchers,h.unclear⟩
  | reap d =>
    obtain ⟨x,hx,hs⟩ := Option.bind_eq_some_iff.mp hs
    split at hs
    · cases hs
    · cases hs
      exact h.set hx rfl rfl

end

end Ring

end OctCommu.Util.RingBuffer
