import OctCommu.Lib.Memory
import Mathlib.Algebra.GroupWithZero.Nat
import Mathlib.Data.List.Basic

/-! # Base64

The coder moves eight bits in and six bits out, the decoder the other way; what is left
between two steps is the same on both sides. `int` and `unsigned` have 32 bits.
-/
namespace OctCommu.Util.Base64
open Memory

def b64 : List UInt8 :=
  ((List.range 26).map fun i => UInt8.ofNat (65 + i)) ++ ((List.range 26).map fun i => UInt8.ofNat (97 + i)) ++
    ((List.range 10).map fun i => UInt8.ofNat (48 + i)) ++ [43,47]

def map2 : List ℕ := [
  0x3e, 0xff, 0xff, 0xff, 0x3f, 0x34, 0x35, 0x36,
  0x37, 0x38, 0x39, 0x3a, 0x3b, 0x3c, 0x3d, 0xff,
  0xff, 0xff, 0xff, 0xff, 0xff, 0xff, 0x00, 0x01,
  0x02, 0x03, 0x04, 0x05, 0x06, 0x07, 0x08, 0x09,
  0x0a, 0x0b, 0x0c, 0x0d, 0x0e, 0x0f, 0x10, 0x11,
  0x12, 0x13, 0x14, 0x15, 0x16, 0x17, 0x18, 0x19,
  0xff, 0xff, 0xff, 0xff, 0xff, 0xff, 0x1a, 0x1b,
  0x1c, 0x1d, 0x1e, 0x1f, 0x20, 0x21, 0x22, 0x23,
  0x24, 0x25, 0x26, 0x27, 0x28, 0x29, 0x2a, 0x2b,
  0x2c, 0x2d, 0x2e, 0x2f, 0x30, 0x31, 0x32, 0x33]

/-- The value of a character, if it has one. -/
def sextet (c : UInt8) : Option ℕ :=
  if c.toNat < 43 ∨ map2.length ≤ c.toNat - 43 ∨ map2.getD (c.toNat - 43) 0xff = 0xff then none
  else some (map2.getD (c.toNat - 43) 0xff)

/-- The loop of the decoder in its `i`th round, with what it has written. -/
def decodeLoop (out_size : ℤ) : List UInt8 → ℕ → ℕ → List UInt8 → Option (List UInt8)
  | [], _, _, out => some out
  | c :: cs, i, v, out =>
    if c = 0 ∨ c = 61 then some out
    else (sextet c).bind fun m =>
      let v := (v * 64 + m) % 4294967296
      decodeLoop out_size cs (i + 1) v
        (if i % 4 ≠ 0 ∧ out.length < out_size then out ++ [UInt8.ofNat (v / 2 ^ (6 - 2 * (i % 4)))] else out)

def av_base64_decode (out_size : ℤ) (txt : List UInt8) : Option (List UInt8) := decodeLoop out_size txt 0 0 []

def digit (i_bits i_shift : ℕ) : UInt8 := b64.getD (i_bits * 64 % 4294967296 / 2 ^ i_shift % 64) 0

/-- The characters that one byte completes, and the bits that are left. -/
def encodeByte (i_bits : ℕ) (last : Bool) (i_shift : ℤ) : List UInt8 × ℤ :=
  if 6 < i_shift - 6 ∨ last = true ∧ 0 < i_shift - 6 then
    ((digit i_bits i_shift.toNat :: (encodeByte i_bits last (i_shift - 6)).1),
      (encodeByte i_bits last (i_shift - 6)).2)
  else ([digit i_bits i_shift.toNat],i_shift - 6)
termination_by i_shift.toNat
decreasing_by all_goals omega

def encodeLoop : List UInt8 → ℕ → ℤ → List UInt8
  | [], _, _ => []
  | b :: bs, i_bits, i_shift =>
    let i_bits := (i_bits * 256 + b.toNat) % 4294967296
    let r := encodeByte i_bits bs.isEmpty (i_shift + 8)
    r.1 ++ encodeLoop bs i_bits r.2

def pad (cs : List UInt8) : List UInt8 := cs ++ List.replicate ((4 - cs.length % 4) % 4) 61

def av_base64_encode_l (out_size : ℤ) (txt : List UInt8) (in_size : ℤ) : Option (List UInt8) :=
  -- a negative size is large as a `size_t`
  if in_size < 0 ∨ 1073741823 ≤ in_size ∨ out_size < (in_size + 2) / 3 * 4 + 1 then none
  else some (pad (encodeLoop (txt.take in_size.toNat) 0 0))

/-- `none`: the `resize` of a negative size throws. -/
def encodeBase64 (txt : List UInt8) : Option (List UInt8) :=
  if txt = [] then some []
  else
    let size := toInt32 ((txt.length + 2) / 3 * 4 + 1 + 10)
    if size < 0 then none else some ((av_base64_encode_l size txt (toInt32 txt.length)).getD [])

def decodeBase64 (txt : List UInt8) : List UInt8 :=
  if txt = [] then [] else (av_base64_decode (toInt32 (txt.length * 3 / 4 + 10)) txt).getD []

theorem sextet_b64 : ∀ x < 64, sextet (b64.getD x 0) = some x ∧ b64.getD x 0 ≠ 0 ∧ b64.getD x 0 ≠ 61 := by
  decide +kernel

variable {size : ℤ} {cs : List UInt8} {i v : ℕ} {out : List UInt8}

theorem ofNat_eq {n : ℕ} {b : UInt8} (h : n % 256 = b.toNat) : UInt8.ofNat n = b := by
  apply UInt8.toNat_inj.mp
  rw [UInt8.toNat_ofNat']
  exact h

theorem decodeLoop_digit (i_bits i_shift : ℕ) : decodeLoop size (digit i_bits i_shift :: cs) i v out =
    decodeLoop size cs (i + 1) ((v * 64 + i_bits * 64 % 4294967296 / 2 ^ i_shift % 64) % 4294967296)
      (if i % 4 ≠ 0 ∧ out.length < size then out ++ [UInt8.ofNat
        ((v * 64 + i_bits * 64 % 4294967296 / 2 ^ i_shift % 64) % 4294967296 / 2 ^ (6 - 2 * (i % 4)))] else out) := by
  obtain ⟨hsextet,hzero,hpad⟩ := sextet_b64 (i_bits * 64 % 4294967296 / 2 ^ i_shift % 64) (Nat.mod_lt _ (by decide))
  rw [decodeLoop, if_neg (by rw [digit]; exact fun hc => hc.elim hzero hpad), digit, hsextet, Option.bind_some]

/-- A character after the first of its four completes the byte `b`. -/
theorem decodeLoop_byte {i_bits i_shift : ℕ} {b : UInt8} (hroom : (out.length : ℤ) < size) (hi : i % 4 ≠ 0)
    (hb : (v * 64 + i_bits * 64 % 4294967296 / 2 ^ i_shift % 64) % 4294967296 / 2 ^ (6 - 2 * (i % 4)) % 256 = b.toNat) :
    decodeLoop size (digit i_bits i_shift :: cs) i v out = decodeLoop size cs (i + 1)
      ((v * 64 + i_bits * 64 % 4294967296 / 2 ^ i_shift % 64) % 4294967296) (out ++ [b]) := by
  rw [decodeLoop_digit, if_pos ⟨hi,hroom⟩, ofNat_eq hb]

theorem decodeLoop_first {i_bits i_shift : ℕ} (hi : i % 4 = 0) :
    decodeLoop size (digit i_bits i_shift :: cs) i v out = decodeLoop size cs (i + 1)
      ((v * 64 + i_bits * 64 % 4294967296 / 2 ^ i_shift % 64) % 4294967296) out := by
  rw [decodeLoop_digit, if_neg (fun hc => hc.1 hi)]

theorem decodeLoop_pad (k : ℕ) : decodeLoop size (List.replicate k 61) i v out = some out := by
  cases k with
  | zero => rfl
  | succ k => simp [List.replicate_succ, decodeLoop]

theorem encodeByte_of_more {i_bits : ℕ} {last : Bool} {i_shift : ℤ}
    (h : 6 < i_shift - 6 ∨ last = true ∧ 0 < i_shift - 6) : encodeByte i_bits last i_shift =
      (digit i_bits i_shift.toNat :: (encodeByte i_bits last (i_shift - 6)).1,
        (encodeByte i_bits last (i_shift - 6)).2) := by
  rw [encodeByte, if_pos h]

theorem encodeByte_of_done {i_bits : ℕ} {last : Bool} {i_shift : ℤ}
    (h : ¬(6 < i_shift - 6 ∨ last = true ∧ 0 < i_shift - 6)) :
    encodeByte i_bits last i_shift = ([digit i_bits i_shift.toNat],i_shift - 6) := by
  rw [encodeByte, if_neg h]

/-- Six bits to a character; at the end none is left. -/
theorem encodeByte_shift (i_bits : ℕ) (last : Bool) (i_shift : ℤ) (hpos : 0 < i_shift) :
    6 * ((encodeByte i_bits last i_shift).1.length : ℤ) + (encodeByte i_bits last i_shift).2 = i_shift ∧
    -6 < (encodeByte i_bits last i_shift).2 ∧ (last = true → (encodeByte i_bits last i_shift).2 ≤ 0) := by
  induction i_shift using encodeByte.induct last with
  | case1 i_shift hmore ih =>
    obtain ⟨hlength,hlow,hlast⟩ := ih (by omega)
    rw [encodeByte_of_more hmore]
    refine ⟨?_,hlow,hlast⟩
    rw [List.length_cons]
    push_cast
    omega
  | case2 i_shift hdone =>
    rw [encodeByte_of_done hdone]
    simp only [List.length_singleton]
    refine ⟨by omega,by omega,fun hlast => ?_⟩
    by_contra hleft
    exact hdone (Or.inr ⟨hlast,by omega⟩)

theorem encodeLoop_length (bs : List UInt8) (hne : bs ≠ []) (i_bits : ℕ) (i_shift : ℤ) (hpos : -6 < i_shift) :
    8 * (bs.length : ℤ) + i_shift ≤ 6 * (encodeLoop bs i_bits i_shift).length ∧
    6 * ((encodeLoop bs i_bits i_shift).length : ℤ) < 8 * bs.length + i_shift + 6 := by
  induction bs generalizing i_bits i_shift with
  | nil => exact absurd rfl hne
  | cons b bs ih =>
    obtain ⟨hlength,hlow,hlast⟩ := encodeByte_shift ((i_bits * 256 + b.toNat) % 4294967296) bs.isEmpty (i_shift + 8)
      (by omega)
    simp only [encodeLoop, List.length_append, List.length_cons]
    push_cast
    cases bs with
    | nil =>
      have hzero := hlast rfl
      simp only [encodeLoop, List.length_nil]
      push_cast
      omega
    | cons b' bs =>
      obtain ⟨hlo,hhi⟩ := ih (by simp) ((i_bits * 256 + b.toNat) % 4294967296) _ hlow
      simp only [List.length_cons] at hlo hhi ⊢
      push_cast at hlo hhi ⊢
      omega

/-- After the bytes `done` the decoder is one byte behind, and holds its upper bits. -/
def Behind (done : List UInt8) (i_bits : ℕ) (i_shift : ℤ) (i v : ℕ) (out : List UInt8) : Prop :=
  done = [] ∧ out = [] ∧ i_shift = 0 ∧ i % 4 = 0 ∨
  ∃ b, done = out ++ [b] ∧ i_bits % 256 = b.toNat ∧
    (i_shift = 2 ∧ i % 4 = 1 ∧ v % 64 = b.toNat / 4 ∨
     i_shift = 4 ∧ i % 4 = 2 ∧ v % 16 = b.toNat / 16 ∨
     i_shift = 6 ∧ i % 4 = 3 ∧ v % 4 = b.toNat / 64)

/-- A byte that others follow. -/
theorem Behind.byte {done : List UInt8} {i_bits : ℕ} {i_shift : ℤ} (h : Behind done i_bits i_shift i v out)
    (hsize : (done.length : ℤ) ≤ size) (b : UInt8) (tail : List UInt8) :
    ∃ i' v' out', decodeLoop size
        ((encodeByte ((i_bits * 256 + b.toNat) % 4294967296) false (i_shift + 8)).1 ++ tail) i v out =
      decodeLoop size tail i' v' out' ∧
      Behind (done ++ [b]) ((i_bits * 256 + b.toNat) % 4294967296)
        (encodeByte ((i_bits * 256 + b.toNat) % 4294967296) false (i_shift + 8)).2 i' v' out' := by
  have hb := b.toNat_lt
  rcases h with ⟨rfl,rfl,rfl,hi⟩ | ⟨a,rfl,ha,hcase⟩
  · rw [encodeByte_of_done (by decide)]
    refine ⟨_,_,_,decodeLoop_first hi,Or.inr ⟨b,rfl,by omega,Or.inl ⟨rfl,by omega,?_⟩⟩⟩
    change (_ + _ / 2 ^ 8 % 64) % _ % 64 = _
    omega
  · have hroom : (out.length : ℤ) < size := by
      rw [List.length_append, List.length_singleton] at hsize
      omega
    rcases hcase with ⟨rfl,hi,hv⟩ | ⟨rfl,hi,hv⟩ | ⟨rfl,hi,hv⟩
    · rw [encodeByte_of_done (by decide)]
      refine ⟨_,_,_,decodeLoop_byte (b := a) hroom (by omega) ?_,
        Or.inr ⟨b,rfl,by omega,Or.inr (Or.inl ⟨rfl,by omega,?_⟩)⟩⟩
      · rw [hi]
        change (_ + _ / 2 ^ 10 % 64) % _ / 2 ^ 4 % 256 = _
        omega
      · change (_ + _ / 2 ^ 10 % 64) % _ % 16 = _
        omega
    · rw [encodeByte_of_done (by decide)]
      refine ⟨_,_,_,decodeLoop_byte (b := a) hroom (by omega) ?_,
        Or.inr ⟨b,rfl,by omega,Or.inr (Or.inr ⟨rfl,by omega,?_⟩)⟩⟩
      · rw [hi]
        change (_ + _ / 2 ^ 12 % 64) % _ / 2 ^ 2 % 256 = _
        omega
      · change (_ + _ / 2 ^ 12 % 64) % _ % 4 = _
        omega
    · -- a whole character was left, which the next one follows at once
      rw [encodeByte_of_more (by decide), encodeByte_of_done (by decide)]
      refine ⟨_,_,_,(decodeLoop_byte (b := a) hroom (by omega) ?_).trans (decodeLoop_first (by omega)),
        Or.inr ⟨b,rfl,by omega,Or.inl ⟨rfl,by omega,?_⟩⟩⟩
      · rw [hi]
        change (_ + _ / 2 ^ 14 % 64) % _ / 2 ^ 0 % 256 = _
        omega
      · change (_ + _ / 2 ^ 8 % 64) % _ % 64 = _
        omega

/-- The last byte. -/
theorem Behind.last {done : List UInt8} {i_bits : ℕ} {i_shift : ℤ} (h : Behind done i_bits i_shift i v out)
    (hsize : (done.length : ℤ) < size) (b : UInt8) (tail : List UInt8) :
    ∃ i' v', decodeLoop size
        ((encodeByte ((i_bits * 256 + b.toNat) % 4294967296) true (i_shift + 8)).1 ++ tail) i v out =
      decodeLoop size tail i' v' (done ++ [b]) := by
  have hb := b.toNat_lt
  rcases h with ⟨rfl,rfl,rfl,hi⟩ | ⟨a,rfl,ha,hcase⟩
  · rw [encodeByte_of_more (by decide), encodeByte_of_done (by decide)]
    refine ⟨_,_,(decodeLoop_first hi).trans (decodeLoop_byte (b := b) hsize (by omega) ?_)⟩
    rw [show (i + 1) % 4 = 1 by omega]
    change (_ + _ / 2 ^ 2 % 64) % _ / 2 ^ 4 % 256 = _
    change ((_ + _ / 2 ^ 8 % 64) % _ * 64 + _) % _ / _ % _ = _
    omega
  · rw [List.length_append, List.length_singleton] at hsize
    have hroom : (out.length : ℤ) < size := by omega
    have hroom' : ((out ++ [a]).length : ℤ) < size := by
      rw [List.length_append, List.length_singleton]
      exact hsize
    rcases hcase with ⟨rfl,hi,hv⟩ | ⟨rfl,hi,hv⟩ | ⟨rfl,hi,hv⟩
    · rw [encodeByte_of_more (by decide), encodeByte_of_done (by decide)]
      refine ⟨_,_,(decodeLoop_byte (b := a) hroom (by omega) ?_).trans
        (decodeLoop_byte (b := b) hroom' (by omega) ?_)⟩
      · rw [hi]
        change (_ + _ / 2 ^ 10 % 64) % _ / 2 ^ 4 % 256 = _
        omega
      · rw [show (i + 1) % 4 = 2 by omega]
        change ((_ + _ / 2 ^ 10 % 64) % _ * 64 + _ / 2 ^ 4 % 64) % _ / 2 ^ 2 % 256 = _
        omega
    · rw [encodeByte_of_more (by decide), encodeByte_of_done (by decide)]
      refine ⟨_,_,(decodeLoop_byte (b := a) hroom (by omega) ?_).trans
        (decodeLoop_byte (b := b) hroom' (by omega) ?_)⟩
      · rw [hi]
        change (_ + _ / 2 ^ 12 % 64) % _ / 2 ^ 2 % 256 = _
        omega
      · rw [show (i + 1) % 4 = 3 by omega]
        change ((_ + _ / 2 ^ 12 % 64) % _ * 64 + _ / 2 ^ 6 % 64) % _ / 2 ^ 0 % 256 = _
        omega
    · rw [encodeByte_of_more (by decide), encodeByte_of_more (by decide), encodeByte_of_done (by decide)]
      refine ⟨_,_,(decodeLoop_byte (b := a) hroom (by omega) ?_).trans ((decodeLoop_first (by omega)).trans
        (decodeLoop_byte (b := b) hroom' (by omega) ?_))⟩
      · rw [hi]
        change (_ + _ / 2 ^ 14 % 64) % _ / 2 ^ 0 % 256 = _
        omega
      · rw [show (i + 1 + 1) % 4 = 1 by omega]
        change ((_ + _ / 2 ^ 8 % 64) % _ * 64 + _ / 2 ^ 2 % 64) % _ / 2 ^ 4 % 256 = _
        omega

/-- The decoder reads back what the coder writes, whatever stands behind it. -/
theorem Behind.loop {bs : List UInt8} (hne : bs ≠ []) {done : List UInt8} {i_bits : ℕ} {i_shift : ℤ}
    (h : Behind done i_bits i_shift i v out) (hsize : ((done ++ bs).length : ℤ) ≤ size) (tail : List UInt8) :
    ∃ i' v', decodeLoop size (encodeLoop bs i_bits i_shift ++ tail) i v out =
      decodeLoop size tail i' v' (done ++ bs) := by
  induction bs generalizing done i_bits i_shift i v out with
  | nil => exact absurd rfl hne
  | cons b bs ih =>
    rw [List.length_append, List.length_cons] at hsize
    simp only [encodeLoop, List.append_assoc]
    cases bs with
    | nil =>
      have hroom : (done.length : ℤ) < size := by omega
      obtain ⟨i',v',heq⟩ := h.last hroom b tail
      exact ⟨i',v',heq⟩
    | cons b' bs =>
      have hroom : (done.length : ℤ) ≤ size := by omega
      have hrest : ((done ++ [b] ++ b' :: bs).length : ℤ) ≤ size := by
        simp only [List.length_append, List.length_cons, List.length_nil] at hsize ⊢
        omega
      obtain ⟨i₁,v₁,out₁,heq₁,h₁⟩ := h.byte hroom b
        (encodeLoop (b' :: bs) ((i_bits * 256 + b.toNat) % 4294967296) _ ++ tail)
      obtain ⟨i',v',heq⟩ := ih (by simp) h₁ hrest
      refine ⟨i',v',?_⟩
      rw [List.isEmpty_cons, heq₁, heq, List.append_assoc, List.singleton_append]

/-- The text of `bs`: four characters for three bytes, and room enough to read it back. -/
theorem length_pad_encodeLoop {bs : List UInt8} (hne : bs ≠ []) :
    (pad (encodeLoop bs 0 0)).length = (bs.length + 2) / 3 * 4 := by
  obtain ⟨hlo,hhi⟩ := encodeLoop_length bs hne 0 0 (by decide)
  rw [pad, List.length_append, List.length_replicate]
  omega

theorem decodeBase64_pad {bs : List UInt8} (hne : bs ≠ []) (hlen : bs.length < 1073741823) :
    decodeBase64 (pad (encodeLoop bs 0 0)) = bs := by
  have hlength := length_pad_encodeLoop hne
  have hpos := List.length_pos_of_ne_nil hne
  have htxt : pad (encodeLoop bs 0 0) ≠ [] := by
    intro hnil
    rw [hnil, List.length_nil] at hlength
    omega
  rw [decodeBase64, if_neg htxt, hlength, toInt32_of_lt (by omega) (by omega), av_base64_decode, pad]
  have hbehind : Behind [] 0 0 0 0 [] := Or.inl ⟨rfl,rfl,rfl,rfl⟩
  have hroom : ((([] : List UInt8) ++ bs).length : ℤ) ≤ (((bs.length + 2) / 3 * 4 : ℕ) : ℤ) * 3 / 4 + 10 := by
    rw [List.nil_append]
    omega
  obtain ⟨i,v,heq⟩ := hbehind.loop hne hroom (List.replicate ((4 - (encodeLoop bs 0 0).length % 4) % 4) 61)
  rw [heq, decodeLoop_pad, List.nil_append, Option.getD_some]

end OctCommu.Util.Base64
