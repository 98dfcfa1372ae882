import OctCommu.Lib.Runs
import OctCommu.Network.BufferLikeString

/-! # `BufferLikeString` and plain strings

The calls of a buffer are made on a string too. The two agree except where a
call looks at the storage past the offsets, or at nothing at all.
-/
namespace OctCommu.Network.BufferLikeString
open Memory Runs StdString

/-- The bytes that an argument has when the call is made. -/
def bytesOf (b : BufferLikeString) : Source → List UInt8
  | .bytes data => data
  | .own off len => (b._str.drop off.toNat).take len.toNat

/-- The call on the string `s` beside `b`: what it leaves and returns, or `none` when it throws. -/
def stringCall (b : BufferLikeString) (s : List UInt8) : StrCall → Option (List UInt8 × List UInt8)
  | .append data _ _ => some (s ++ data,[])
  | .push_back c _ => some (s ++ [c],[])
  | .insert pos t _ => (StdString.insert s pos.toNat t).map fun s => (s,[])
  | .erase pos n => (StdString.erase s pos.toNat n.toNat).map fun s => (s,[])
  | .assign src _ => some (b.bytesOf src,[])
  | .clear => some ([],[])
  | .resize size c _ => some (StdString.resize s size.toNat c,[])
  | .substr pos n _ => (StdString.substr s pos.toNat n.toNat).map fun t => (s,t)
  | .index pos => some (s,(s.drop pos.toNat).take 1)

/-- A position to insert at lies in the value. -/
def Allowed (b : BufferLikeString) : StrCall → Prop
  | .insert pos _ _ => pos.toNat ≤ b.size
  | .assign src room => b.Starts (.assign src room)
  | _ => True

instance (b : BufferLikeString) : DecidablePred b.Allowed
  | .insert .. => inferInstanceAs (Decidable (_ ≤ _))
  | .assign src room => inferInstanceAs (Decidable (b.Starts (.assign src room)))
  | .append .. | .push_back .. | .erase .. | .clear | .resize .. | .substr .. | .index _ => isTrue trivial

/-- A buffer with the result of its last call, and a string with its own; there is no string behind a
call that throws on it. -/
structure Pair where
  buffer : BufferLikeString
  result : List UInt8
  str : Option (List UInt8 × List UInt8)

/-- A call that does not throw. -/
def step (p : Pair) (a : StrCall) : Option Pair :=
  if p.buffer.Allowed a then
    let r := p.buffer.call a
    r.2.map fun result => ⟨r.1,result,p.str.bind fun s => p.buffer.stringCall s.1 a⟩
  else none

def Pair.create (str : List UInt8) : Pair := ⟨.create str,[],some (str,[])⟩

structure Refines (p : Pair) : Prop where
  same : p.str = some (p.buffer.value,p.result)
  offsets : p.buffer._erase_head + p.buffer._erase_tail ≤ p.buffer._str.length

/-- The end of a range from `pos` on is beyond the last `size_t`. -/
def Wraps (pos n : ℕ) : Prop := n ≠ npos ∧ sizeModulus ≤ pos + n

/-- The calls that do the same as on a string. The empty range is assigned to the empty value only; what
`resize` keeps of the storage is the value and then the padding; and a range whose end wraps starts in the
value, with no erased tail behind it. -/
def Agrees (b : BufferLikeString) : StrCall → Prop
  | .assign src _ => src.len = 0 → b.size = 0
  | .resize size c _ => b._str.take size.toNat = b.value.take size.toNat ++
      List.replicate (min size.toNat b._str.length - b.size) c
  | .erase pos n => pos.toNat ≠ 0 → Wraps pos.toNat n.toNat →
      (pos.toNat + n.toNat) % sizeModulus < b.size → pos.toNat ≤ b.size ∧ b._erase_tail = 0
  | .substr pos n _ => Wraps pos.toNat n.toNat → pos.toNat ≤ b.size ∧ b._erase_tail = 0
  | _ => True

/-- The call made of `b` the buffer `c`, and of its value the value of `c`. -/
structure Same (b c : BufferLikeString) (a : StrCall) (r : List UInt8) : Prop where
  same : b.stringCall b.value a = some (c.value,r)
  offsets : c._erase_head + c._erase_tail ≤ c._str.length

variable {b c : BufferLikeString} {H V T : List UInt8} {a : StrCall} {r : List UInt8}

theorem same_of_parts (h : b.Parts H V T) {H' T' : List UInt8} (V' : List UInt8)
    (hc : c.Parts H' V' T') (hs : b.stringCall V a = some (V',r)) : Same b c a r := by
  refine ⟨?_,hc.offsets_le⟩
  rw [h.value_eq, hc.value_eq]
  exact hs

theorem returned_eq {x : BufferLikeString × Bool} (h : returned x = (c,some r)) :
    x = (c,true) ∧ r = [] := by
  obtain ⟨d,ok⟩ := x
  cases ok with
  | true =>
    cases h
    exact ⟨rfl,rfl⟩
  | false => cases h

/-- A range that wraps is longer than any string. -/
theorem Parts.le_of_wraps (h : b.Parts H V T) {pos n : ℕ} (hw : sizeModulus ≤ pos + n) :
    V.length + T.length ≤ pos + n := by
  have hlt := h.length_lt
  omega

theorem Parts.in_value_iff (h : b.Parts H V T) {pos : ℕ} :
    pos ≤ b.size ∧ b._erase_tail = 0 ↔ pos ≤ V.length ∧ T = [] := by
  rw [h.size_eq, h.tail, List.length_eq_zero_iff]

/-- What `erase` does with a range that wraps. -/
theorem Parts.erase_wraps_iff (h : b.Parts H V T) {pos n : UInt64}
    (hw : sizeModulus ≤ pos.toNat + n.toNat) {s : List UInt8}
    (hs : StdString.erase b._str ((b._erase_head + pos.toNat) % sizeModulus) n.toNat = some s) :
    Same b { b with _str := s } (.erase pos n) [] ↔ pos.toNat ≤ b.size ∧ b._erase_tail = 0 := by
  have hlong := h.le_of_wraps hw
  rw [h.in_value_iff]
  have hstring (hle : pos.toNat ≤ V.length) :
      b.stringCall V (.erase pos n) = some (V.take pos.toNat,[]) := by
    rw [stringCall, StdString.erase, if_neg (Nat.not_lt.mpr hle), List.drop_eq_nil_of_le (by omega),
      List.append_nil]
    rfl
  have hstorage (hle : pos.toNat ≤ V.length) : s = H ++ V.take pos.toNat := by
    rw [h.index_eq (by omega), h.str, erase_to_end _ _ _ hle hlong] at hs
    exact (Option.some.inj hs).symm
  constructor
  · intro hsame
    have hle : pos.toNat ≤ V.length := by
      by_contra hlt
      have hnone := hsame.same
      rw [h.value_eq, stringCall, StdString.erase, if_pos (Nat.not_le.mp hlt)] at hnone
      cases hnone
    refine ⟨hle,?_⟩
    obtain rfl := hstorage hle
    have hval := hsame.same
    rw [h.value_eq, hstring hle] at hval
    have hfits := h.fits
    have hcfits : ({ b with _str := H ++ V.take pos.toNat } : BufferLikeString)._str.length ≤ max_size := by
      rw [h.str] at hfits
      simp only [List.length_append, List.length_take] at hfits ⊢
      omega
    obtain ⟨H',V',T',hp⟩ := parts_of_offsets hsame.offsets hcfits
    -- the value is shorter by what is left in the tail
    have hV : V.take pos.toNat = V' := by
      rw [hp.value_eq] at hval
      exact congrArg Prod.fst (Option.some.inj hval)
    have hstr := congrArg List.length hp.str
    have hh := h.head.symm.trans hp.head
    have ht := h.tail.symm.trans hp.tail
    simp only [List.length_append, ← hV] at hstr
    exact List.length_eq_zero_iff.mp (by omega)
  · rintro ⟨hle,rfl⟩
    obtain rfl := hstorage hle
    refine same_of_parts h (V.take pos.toNat) ⟨?_,h.head,h.tail,?_⟩ (hstring hle)
    · simp
    · have hfits := h.fits
      rw [h.str] at hfits
      simp only [List.length_append, List.length_take] at hfits ⊢
      omega

theorem Parts.fits_left (h : b.Parts H V T) {s : List UInt8} {pos n : ℕ}
    (hs : StdString.erase b._str pos n = some s) : s.length ≤ max_size := by
  have hfits := h.fits
  rw [StdString.erase, Option.ite_none_left_eq_some] at hs
  obtain ⟨_,hs⟩ := hs
  cases hs
  simp only [List.length_append, List.length_take, List.length_drop]
  omega

/-- A call leaves a storage that fits, and agrees with the string exactly under its condition. -/
def Decided (b c : BufferLikeString) (a : StrCall) (r : List UInt8) : Prop :=
  c._str.length ≤ max_size ∧ (Same b c a r ↔ b.Agrees a)

/-- A call with no condition. -/
theorem decided_of_parts (h : b.Parts H V T) {H' V' T' : List UInt8} (hc : c.Parts H' V' T')
    (hs : b.stringCall V a = some (V',r)) (ha : b.Agrees a) : Decided b c a r :=
  ⟨hc.fits,iff_of_true (same_of_parts h _ hc hs) ha⟩

theorem Parts.erase_decided (h : b.Parts H V T) {pos n : UInt64}
    (hc : b.erase pos.toNat n.toNat = (c,true)) : Decided b c (.erase pos n) [] := by
  have hlt := h.length_lt
  by_cases hzero : pos.toNat = 0
  · rw [hzero] at hc
    have hag : b.Agrees (.erase pos n) := fun hne => absurd hzero hne
    by_cases hall : n.toNat = npos
    · rw [hall] at hc
      obtain ⟨hs,hp⟩ := h.erase_all hc
      exact decided_of_parts h hp (by rw [stringCall, hzero, hall, hs]; rfl) hag
    · obtain ⟨hs,hp⟩ := h.erase_front hall hc
      exact decided_of_parts h hp (by rw [stringCall, hzero, hs]; rfl) hag
  by_cases hend : n.toNat = npos ∨ b.size ≤ (pos.toNat + n.toNat) % sizeModulus
  · simp only [BufferLikeString.erase, if_neg hzero, if_pos hend] at hc
    split_ifs at hc with hout
    · cases hc
    have hin : pos.toNat < V.length := by
      rw [h.size_eq] at hout
      omega
    have hlong : V.length ≤ pos.toNat + n.toNat := by
      rcases hend with hall | hmod
      · rw [hall, npos]
        rw [sizeModulus] at hlt
        omega
      · rw [h.size_eq] at hmod
        exact Nat.le_trans hmod (Nat.mod_le _ _)
    cases hc
    refine decided_of_parts h (h.erase_end hin) ?_ ?_
    · rw [stringCall, StdString.erase, if_neg (by omega), List.drop_eq_nil_of_le hlong, List.append_nil]
      rfl
    · intro _ hw hmod
      rcases hend with hall | hle
      · exact absurd hall hw.1
      · omega
  simp only [BufferLikeString.erase, if_neg hzero, if_neg hend] at hc
  rw [not_or, Nat.not_le] at hend
  obtain ⟨hnpos,hmod⟩ := hend
  rw [if_neg (Nat.lt_asymm hmod)] at hc
  cases hs : StdString.erase b._str ((b._erase_head + pos.toNat) % sizeModulus) n.toNat with
  | none => simp [hs] at hc
  | some s =>
    simp only [hs] at hc
    cases hc
    refine ⟨h.fits_left hs,?_⟩
    by_cases hw : sizeModulus ≤ pos.toNat + n.toNat
    · rw [h.erase_wraps_iff hw hs]
      exact ⟨fun hin _ _ _ => hin,fun hag => hag hzero ⟨hnpos,hw⟩ hmod⟩
    · rw [Nat.mod_eq_of_lt (Nat.not_le.mp hw), h.size_eq] at hmod
      refine iff_of_true ?_ fun _ hwraps => absurd hwraps.2 hw
      rw [h.index_eq (by omega), h.str, erase_middle _ _ _ (Nat.le_of_lt hmod)] at hs
      obtain ⟨V',hV,rfl⟩ := Option.map_eq_some_iff.mp hs
      have hfits : (H ++ V' ++ T).length ≤ max_size := by
        have hle := h.fits
        rw [StdString.erase, Option.ite_none_left_eq_some] at hV
        cases hV.2
        rw [h.str] at hle
        simp only [List.length_append, List.length_take, List.length_drop] at hle ⊢
        omega
      refine same_of_parts h V' ⟨rfl,h.head,h.tail,hfits⟩ ?_
      rw [stringCall, hV]
      rfl

/-- What `substr` does with a range that wraps. -/
theorem Parts.substr_wraps_iff (h : b.Parts H V T) {pos n : UInt64} {room : Bool}
    (hw : sizeModulus ≤ pos.toNat + n.toNat)
    (hr : StdString.substr b._str ((b._erase_head + pos.toNat) % sizeModulus) n.toNat = some r) :
    Same b b (.substr pos n room) r ↔ pos.toNat ≤ b.size ∧ b._erase_tail = 0 := by
  have hlong := h.le_of_wraps hw
  rw [h.in_value_iff]
  have hstring (hle : pos.toNat ≤ V.length) :
      b.stringCall V (.substr pos n room) = some (V,V.drop pos.toNat) := by
    rw [stringCall, StdString.substr, if_neg (Nat.not_lt.mpr hle), List.take_of_length_le (by simp; omega)]
    rfl
  have hresult (hle : pos.toNat ≤ V.length) : r = V.drop pos.toNat ++ T := by
    rw [h.index_eq (by omega), h.str, substr_to_end _ _ _ hle hlong] at hr
    exact (Option.some.inj hr).symm
  constructor
  · intro hsame
    have hle : pos.toNat ≤ V.length := by
      by_contra hlt
      have hnone := hsame.same
      rw [h.value_eq, stringCall, StdString.substr, if_pos (Nat.not_le.mp hlt)] at hnone
      cases hnone
    have hval := hsame.same
    rw [h.value_eq, hstring hle, hresult hle] at hval
    have hdrop := congrArg Prod.snd (Option.some.inj hval)
    exact ⟨hle,List.append_right_eq_self.mp hdrop.symm⟩
  · rintro ⟨hle,rfl⟩
    rw [hresult hle, List.append_nil]
    exact same_of_parts h _ h (hstring hle)

theorem Parts.substr_decided (h : b.Parts H V T) {pos n : UInt64} {room : Bool}
    (hr : b.substr pos.toNat n.toNat = some r) : Decided b b (.substr pos n room) r := by
  refine ⟨h.fits,?_⟩
  have hlt := h.length_lt
  unfold BufferLikeString.substr at hr
  by_cases hall : n.toNat = npos
  · rw [if_pos hall, Option.ite_none_left_eq_some, h.size_eq] at hr
    obtain ⟨hin,hr⟩ := hr
    rw [h.index_eq (by omega), h.str, substr_middle _ _ _ (by omega)] at hr
    refine iff_of_true (same_of_parts h _ h ?_) fun hw => absurd hall hw.1
    have hfull : (V.drop pos.toNat).take n.toNat = V.drop pos.toNat := by
      apply List.take_of_length_le
      rw [hall, npos, List.length_drop]
      rw [sizeModulus] at hlt
      omega
    have hrest : (V.drop pos.toNat).take (V.length - pos.toNat) = V.drop pos.toNat :=
      List.take_of_length_le (by simp)
    rw [StdString.substr, if_neg (by omega), hrest] at hr
    cases hr
    rw [stringCall, StdString.substr, if_neg (by omega), hfull]
    rfl
  rw [if_neg hall, Option.ite_none_left_eq_some, h.size_eq] at hr
  obtain ⟨hmod,hr⟩ := hr
  by_cases hw : sizeModulus ≤ pos.toNat + n.toNat
  · rw [h.substr_wraps_iff hw hr]
    exact ⟨fun hin _ => hin,fun hag => hag ⟨hall,hw⟩⟩
  · rw [Nat.mod_eq_of_lt (Nat.not_le.mp hw)] at hmod
    rw [h.index_eq (by omega), h.str, substr_middle _ _ _ (by omega)] at hr
    refine iff_of_true (same_of_parts h _ h ?_) fun hwraps => absurd hwraps.2 hw
    rw [stringCall, hr]
    rfl

/-- An empty range is not assigned at all. -/
theorem Parts.assign_decided (h : b.Parts H V T) {src : Source} {room : Bool}
    (hs : b.Starts (.assign src room)) (hc : b.assign src room = (c,true)) :
    Decided b c (.assign src room) [] := by
  by_cases hnil : src.len = 0
  · unfold BufferLikeString.assign at hc
    rw [if_pos hnil] at hc
    cases hc
    have hbytes : b.bytesOf src = [] := by
      cases src with
      | bytes data => exact List.length_eq_zero_iff.mp hnil
      | own off len =>
        have hl : len.toNat = 0 := hnil
        rw [bytesOf, hl, List.take_zero]
    refine ⟨h.fits,?_⟩
    constructor
    · intro hsame _
      have hval := hsame.same
      rw [stringCall, hbytes, h.value_eq] at hval
      have hV : [] = V := congrArg Prod.fst (Option.some.inj hval)
      rw [h.size_eq, ← hV]
      rfl
    · intro hag
      have hV : V = [] := List.length_eq_zero_iff.mp (h.size_eq ▸ hag hnil)
      subst hV
      exact same_of_parts h _ h (by rw [stringCall, hbytes])
  · obtain ⟨H',T',hp⟩ := h.assign hnil hs hc
    refine decided_of_parts h hp ?_ fun hz => absurd hz hnil
    cases src with
    | bytes data => rfl
    | own off len => rfl

theorem Parts.resize_decided (h : b.Parts H V T) {size : UInt64} {ch : UInt8} {room : Bool}
    (hc : b.resize size.toNat ch room = (c,true)) : Decided b c (.resize size ch room) [] := by
  have hp := parts_resize hc
  refine ⟨hp.fits,?_⟩
  have hle : V.length ≤ b._str.length := by
    rw [h.str]
    simp only [List.length_append]
    omega
  have hagrees : b.Agrees (.resize size ch room) ↔
      StdString.resize b._str size.toNat ch = StdString.resize V size.toNat ch := by
    rw [resize_part_iff hle, Agrees, h.value_eq, h.size_eq]
  rw [hagrees]
  constructor
  · intro hsame
    have hval := hsame.same
    rw [h.value_eq, hp.value_eq, stringCall] at hval
    exact (congrArg Prod.fst (Option.some.inj hval)).symm
  · intro heq
    exact same_of_parts h _ hp (by rw [stringCall, heq])

/-- Every call that does not throw. -/
theorem Parts.call_decided (h : b.Parts H V T) (ha : b.Allowed a) (hc : b.call a = (c,some r)) :
    Decided b c a r := by
  cases a with
  | append data capacity room =>
    obtain ⟨hok,rfl⟩ := returned_eq hc
    obtain ⟨H',hp⟩ := h.append hok
    exact decided_of_parts h hp rfl trivial
  | push_back ch room =>
    obtain ⟨hok,rfl⟩ := returned_eq hc
    obtain ⟨T',hp⟩ := h.push_back hok
    exact decided_of_parts h hp rfl trivial
  | insert pos s room =>
    obtain ⟨hok,rfl⟩ := returned_eq hc
    obtain ⟨V',hV,hp⟩ := h.insert (by rw [← h.size_eq]; exact ha) hok
    exact decided_of_parts h hp (by rw [stringCall, hV]; rfl) trivial
  | erase pos n =>
    obtain ⟨hok,rfl⟩ := returned_eq hc
    exact h.erase_decided hok
  | assign src room =>
    obtain ⟨hok,rfl⟩ := returned_eq hc
    cases src with
    | bytes data => exact h.assign_decided trivial hok
    | own off len => exact h.assign_decided ha hok
  | clear =>
    cases hc
    exact decided_of_parts h (parts_clear b) rfl trivial
  | resize size ch room =>
    obtain ⟨hok,rfl⟩ := returned_eq hc
    exact h.resize_decided hok
  | substr pos n room =>
    obtain ⟨rfl,hr⟩ := Prod.mk.inj hc
    obtain ⟨t,ht,hfit⟩ := Option.bind_eq_some_iff.mp hr
    obtain ⟨rfl,_⟩ := fits_eq_some hfit
    exact h.substr_decided ht
  | index pos =>
    obtain ⟨rfl,hr⟩ := Prod.mk.inj hc
    refine decided_of_parts h h ?_ trivial
    rw [BufferLikeString.index, Option.ite_none_left_eq_some, h.size_eq] at hr
    obtain ⟨hin,hr⟩ := hr
    cases hr
    rw [h.index_eq (by omega), h.str, List.append_assoc, List.drop_length_add_append,
      List.drop_append_of_le_length (by omega), List.take_append_of_le_length (by simp; omega)]
    rfl

/-! ### Runs -/

/-- The invariant: the string is the value, and the storage has its parts. -/
structure Inv (p : Pair) : Prop where
  refines : Refines p
  parts : ∃ H V T, p.buffer.Parts H V T

theorem inv_create {str : List UInt8} (h : str.length ≤ max_size) : Inv (.create str) := by
  have hp : (BufferLikeString.create str).Parts [] str [] := ⟨by simp [BufferLikeString.create],rfl,rfl,h⟩
  exact ⟨⟨by rw [Pair.create, hp.value_eq],hp.offsets_le⟩,_,_,_,hp⟩

variable {p q : Pair}

theorem step_decided (h : Inv p) (hq : step p a = some q) :
    Decided p.buffer q.buffer a q.result ∧ (Refines q ↔ Same p.buffer q.buffer a q.result) := by
  obtain ⟨H,V,T,hp⟩ := h.parts
  rw [step, Option.ite_none_right_eq_some] at hq
  obtain ⟨ha,hq⟩ := hq
  obtain ⟨result,hr,rfl⟩ := Option.map_eq_some_iff.mp hq
  refine ⟨hp.call_decided ha (Prod.ext rfl hr),?_⟩
  have hstr : (p.str.bind fun s => p.buffer.stringCall s.1 a) = p.buffer.stringCall p.buffer.value a := by
    rw [h.refines.same]
    rfl
  constructor
  · intro hs
    exact ⟨hstr.symm.trans hs.same,hs.offsets⟩
  · intro hs
    exact ⟨hstr.trans hs.same,hs.offsets⟩

/-- The buffer is the string in the runs whose calls all meet the condition, and in no other. -/
theorem refines_iff_agrees (str : List UInt8) (h : str.length ≤ max_size) (calls : List StrCall) :
    EveryStep step (fun p a => p.buffer.Agrees a) (.create str) calls ↔
      EveryState step Refines (.create str) calls := by
  apply everyStep_iff_everyState (inv_create h) (fun p hp => hp.refines)
  · intro p a q hp hc hq
    obtain ⟨⟨hfits,hiff⟩,hrefines⟩ := step_decided hp hq
    have hq := hrefines.mpr (hiff.mpr hc)
    exact ⟨hq,parts_of_offsets hq.offsets hfits⟩
  · intro p a q hp hq hr
    obtain ⟨⟨_,hiff⟩,hrefines⟩ := step_decided hp hq
    exact hiff.mp (hrefines.mp hr)

theorem refines_iff_agrees_abc :
    EveryStep step (fun p a => p.buffer.Agrees a) (.create [97,98,99])
        [.erase 0 1,.append [100] 15 true,.substr 1 2 true] ↔
      EveryState step Refines (.create [97,98,99]) [.erase 0 1,.append [100] 15 true,.substr 1 2 true] :=
  refines_iff_agrees [97,98,99] (by decide) _

/-- `abc` without its first byte, resized to two bytes, is `ab`. -/
theorem resize_behind_erase_not_refined : ¬ EveryState step Refines (.create [97,98,99])
    [.erase 0 1,.resize 2 0 true] := by
  intro h
  have hsame := ((h.2 _ rfl).2 _ rfl).same
  exact absurd hsame (by decide)

end OctCommu.Network.BufferLikeString
