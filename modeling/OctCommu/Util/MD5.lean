import OctCommu.Lib.BlockStream
import Mathlib.Algebra.GroupWithZero.Nat
import Mathlib.Data.List.OfFn

/-! # MD5

`update` keeps what does not fill a block, and takes the blocks of a long input from the
input itself. Lengths and the index of its loop are 32 bit wide, the bits are counted in
two words. The message as a whole is padded and cut as in the standard.
-/
namespace OctCommu.Util.MD5
open BlockStream

structure Words where
  a : UInt32
  b : UInt32
  c : UInt32
  d : UInt32

def F (x y z : UInt32) : UInt32 := (x &&& y) ||| (~~~x &&& z)
def G (x y z : UInt32) : UInt32 := (x &&& z) ||| (y &&& ~~~z)
def H (x y z : UInt32) : UInt32 := x ^^^ y ^^^ z
def I (x y z : UInt32) : UInt32 := y ^^^ (x ||| ~~~z)

def rotate_left (x n : UInt32) : UInt32 := (x <<< n) ||| (x >>> (32 - n))

/-- `FF`, `GG`, `HH` and `II`; the words come out in the order in which the next one names them. -/
def operation (f : UInt32 → UInt32 → UInt32 → UInt32) (w : Words) (x s ac : UInt32) : Words :=
  ⟨w.d,rotate_left (w.a + f w.b w.c w.d + x + ac) s + w.b,w.b,w.c⟩

def round1 : List (ℕ × UInt32 × UInt32) := [
  (0,7,0xd76aa478),(1,12,0xe8c7b756),(2,17,0x242070db),(3,22,0xc1bdceee),
  (4,7,0xf57c0faf),(5,12,0x4787c62a),(6,17,0xa8304613),(7,22,0xfd469501),
  (8,7,0x698098d8),(9,12,0x8b44f7af),(10,17,0xffff5bb1),(11,22,0x895cd7be),
  (12,7,0x6b901122),(13,12,0xfd987193),(14,17,0xa679438e),(15,22,0x49b40821)]

def round2 : List (ℕ × UInt32 × UInt32) := [
  (1,5,0xf61e2562),(6,9,0xc040b340),(11,14,0x265e5a51),(0,20,0xe9b6c7aa),
  (5,5,0xd62f105d),(10,9,0x2441453),(15,14,0xd8a1e681),(4,20,0xe7d3fbc8),
  (9,5,0x21e1cde6),(14,9,0xc33707d6),(3,14,0xf4d50d87),(8,20,0x455a14ed),
  (13,5,0xa9e3e905),(2,9,0xfcefa3f8),(7,14,0x676f02d9),(12,20,0x8d2a4c8a)]

def round3 : List (ℕ × UInt32 × UInt32) := [
  (5,4,0xfffa3942),(8,11,0x8771f681),(11,16,0x6d9d6122),(14,23,0xfde5380c),
  (1,4,0xa4beea44),(4,11,0x4bdecfa9),(7,16,0xf6bb4b60),(10,23,0xbebfbc70),
  (13,4,0x289b7ec6),(0,11,0xeaa127fa),(3,16,0xd4ef3085),(6,23,0x4881d05),
  (9,4,0xd9d4d039),(12,11,0xe6db99e5),(15,16,0x1fa27cf8),(2,23,0xc4ac5665)]

def round4 : List (ℕ × UInt32 × UInt32) := [
  (0,6,0xf4292244),(7,10,0x432aff97),(14,15,0xab9423a7),(5,21,0xfc93a039),
  (12,6,0x655b59c3),(3,10,0x8f0ccc92),(10,15,0xffeff47d),(1,21,0x85845dd1),
  (8,6,0x6fa87e4f),(15,10,0xfe2ce6e0),(6,15,0xa3014314),(13,21,0x4e0811a1),
  (4,6,0xf7537e82),(11,10,0xbd3af235),(2,15,0x2ad7d2bb),(9,21,0xeb86d391)]

def decode (input : List UInt8) (i : ℕ) : UInt32 :=
  (input.getD (4 * i) 0).toUInt32 ||| (input.getD (4 * i + 1) 0).toUInt32 <<< 8 |||
    (input.getD (4 * i + 2) 0).toUInt32 <<< 16 ||| (input.getD (4 * i + 3) 0).toUInt32 <<< 24

def encode (words : List ℕ) : List UInt8 := words.flatMap fun w =>
  [UInt8.ofNat w,UInt8.ofNat (w / 256),UInt8.ofNat (w / 65536),UInt8.ofNat (w / 16777216)]

def round (f : UInt32 → UInt32 → UInt32 → UInt32) (block : List UInt8) (table : List (ℕ × UInt32 × UInt32))
    (w : Words) : Words :=
  table.foldl (fun w r => operation f w (decode block r.1) r.2.1 r.2.2) w

def transform (state : Words) (block : List UInt8) : Words :=
  let w := round I block round4 (round H block round3 (round G block round2 (round F block round1 state)))
  ⟨state.a + w.a,state.b + w.b,state.c + w.c,state.d + w.d⟩

def initState : Words := ⟨0x67452301,0xefcdab89,0x98badcfe,0x10325476⟩

structure Md5 where
  finalized : Bool
  buffer : List UInt8
  count0 : ℕ
  count1 : ℕ
  state : Words
  digest : List UInt8

/-- What the buffer holds at first is not written by `init`. -/
def init (junk : Fin 64 → UInt8) : Md5 := ⟨false,List.ofFn junk,0,0,initState,[]⟩

def memcpy (buffer : List UInt8) (index : ℕ) (input : List UInt8) : List UInt8 :=
  buffer.take index ++ input ++ buffer.drop (index + input.length)

/-- The loop over the blocks of the input; `none` reads past its end. -/
def updateLoop (input : List UInt8) (i : ℕ) (state : Words) : Option (ℕ × Words) :=
  if (i + 64) % 4294967296 ≤ input.length then
    if i + 64 ≤ input.length then updateLoop input (i + 64) (transform state ((input.drop i).take 64)) else none
  else some (i,state)
termination_by input.length - i

def update (m : Md5) (input : List UInt8) : Option Md5 :=
  let index := m.count0 / 8 % 64
  let bits := input.length * 8 % 4294967296
  let count0 := (m.count0 + bits) % 4294967296
  let count1 := ((if count0 < bits then m.count1 + 1 else m.count1) + input.length / 536870912) % 4294967296
  let firstpart := 64 - index
  if firstpart ≤ input.length then
    let buffer := memcpy m.buffer index (input.take firstpart)
    (updateLoop input firstpart (transform m.state buffer)).map fun r =>
      { m with
        count0 := count0
        count1 := count1
        state := r.2
        buffer := memcpy buffer 0 (input.drop r.1) }
  else some { m with
    count0 := count0
    count1 := count1
    buffer := memcpy m.buffer index input }

def padding : List UInt8 := 0x80 :: List.replicate 63 0

def finalize (m : Md5) : Option Md5 :=
  if m.finalized then some m
  else
    let bits := encode [m.count0,m.count1]
    let index := m.count0 / 8 % 64
    let padLen := if index < 56 then 56 - index else 120 - index
    (update m (padding.take padLen)).bind fun m => (update m bits).map fun m =>
      { m with
        finalized := true
        digest := encode [m.state.a.toNat,m.state.b.toNat,m.state.c.toNat,m.state.d.toNat]
        buffer := List.replicate 64 0
        count0 := 0
        count1 := 0 }

/-- The message with its padding: a bit, as many zeros as are missing, and its length in bits, the low
byte first. -/
def padded (message : List UInt8) : List UInt8 :=
  message ++ (0x80 :: List.replicate ((119 - message.length % 64) % 64) 0) ++
    (List.range 8).map fun i => UInt8.ofNat (8 * message.length / 256 ^ i)

def digestOf (message : List UInt8) : List UInt8 :=
  let w := (blocks 64 (padded message)).foldl transform initState
  encode [w.a.toNat,w.b.toNat,w.c.toNat,w.d.toNat]

/-- The length of an input is 32 bit wide. -/
abbrev Chunk := {c : List UInt8 // c.length < 4294967296}

def feed (m : Md5) : List Chunk → Option Md5
  | [] => some m
  | c :: cs => (update m c.val).bind fun m => feed m cs

/-- The index of the loop does not overflow. -/
def Fits (pos len : ℕ) : Prop := len < 4294967232 + (64 - pos % 64) % 64

def FitsAll : ℕ → List Chunk → Prop
  | _, [] => True
  | pos, c :: cs => Fits pos c.val.length ∧ FitsAll (pos + c.val.length) cs

/-- `m` was fed with the message. -/
structure Holds (m : Md5) (message : List UInt8) : Prop where
  finalized : m.finalized = false
  length : m.buffer.length = 64
  count0 : m.count0 = 8 * message.length % 4294967296
  count1 : m.count1 = 8 * message.length / 4294967296 % 4294967296
  absorbed : absorbs 64 transform (initState,[]) message = (m.state,m.buffer.take (message.length % 64))

variable {m : Md5} {message input : List UInt8}

theorem holds_init (junk : Fin 64 → UInt8) : Holds (init junk) [] := by
  refine ⟨rfl,List.length_ofFn,rfl,rfl,?_⟩
  rw [List.length_nil, Nat.zero_mod, List.take_zero]
  rfl

theorem Holds.index (h : Holds m message) : m.count0 / 8 % 64 = message.length % 64 := by
  rw [h.count0]
  omega

theorem memcpy_take {buffer : List UInt8} {index : ℕ} (h : index + input.length ≤ buffer.length) :
    (memcpy buffer index input).take (index + input.length) = buffer.take index ++ input := by
  have hlen : (buffer.take index ++ input).length = index + input.length := by
    rw [List.length_append, List.length_take_of_le (by omega)]
  rw [memcpy, ← hlen, List.take_left]

theorem memcpy_zero {buffer : List UInt8} : (memcpy buffer 0 input).take input.length = input := by
  rw [memcpy, List.take_zero, List.nil_append, List.take_left]

theorem memcpy_length {buffer : List UInt8} {index : ℕ} (h : index + input.length ≤ buffer.length) :
    (memcpy buffer index input).length = buffer.length := by
  simp only [memcpy, List.length_append, List.length_take, List.length_drop]
  omega

/-- The loop gets through the input unless its index overflows. -/
theorem updateLoop_eq (input : List UInt8) (i : ℕ) (state : Words) (hi : i ≤ input.length)
    (hlen : input.length < 4294967296) :
    updateLoop input i state =
      if i + (input.length - i) / 64 * 64 + 64 < 4294967296 then
        some (i + (input.length - i) / 64 * 64,(blocks 64 (input.drop i)).foldl transform state)
      else none := by
  fun_induction updateLoop input i state with
  | case1 i state hle hread ih =>
    have hsub : (input.length - i) / 64 = (input.length - (i + 64)) / 64 + 1 := by omega
    have hblock : ((input.drop i).take 64).length = 64 := by
      rw [List.length_take_of_le]
      rw [List.length_drop]
      omega
    have hblocks : blocks 64 (input.drop i) = (input.drop i).take 64 :: blocks 64 (input.drop (i + 64)) := by
      conv_lhs => rw [← List.take_append_drop 64 (input.drop i)]
      rw [blocks_append (by omega) hblock, List.drop_drop]
    rw [ih (by omega), hsub, hblocks, List.foldl_cons, Nat.succ_mul, Nat.add_right_comm i 64]
    rfl
  | case2 i state hle hread =>
    rw [if_neg (by omega)]
  | case3 i state hle =>
    have hshort : (input.drop i).length < 64 := by
      rw [List.length_drop]
      omega
    have hzero : (input.length - i) / 64 = 0 := by omega
    rw [hzero, if_pos (by omega), blocks_short hshort]
    rfl

/-- What the buffer holds stands before the input. -/
theorem Holds.absorbs_append (h : Holds m message) : absorbs 64 transform (initState,[]) (message ++ input) =
    absorbs 64 transform (m.state,m.buffer.take (message.length % 64)) input := by
  rw [BlockStream.absorbs_append, h.absorbed]

/-- The words that count the bits. -/
theorem Holds.counts (h : Holds m message) (input : List UInt8) (count0 bits : ℕ)
    (hbits : bits = input.length * 8 % 4294967296)
    (hcount : count0 = (m.count0 + bits) % 4294967296) :
    count0 = 8 * (message ++ input).length % 4294967296 ∧
      ((if count0 < bits then m.count1 + 1 else m.count1) + input.length / 536870912) % 4294967296 =
        8 * (message ++ input).length / 4294967296 % 4294967296 := by
  rw [h.count0] at hcount
  rw [h.count1, List.length_append]
  constructor
  · omega
  · split <;> omega

theorem Holds.update_short (h : Holds m message) (hshort : message.length % 64 + input.length < 64) :
    ∃ m', update m input = some m' ∧ Holds m' (message ++ input) := by
  have hfits : message.length % 64 + input.length ≤ m.buffer.length := by
    rw [h.length]
    omega
  have hpos : (message ++ input).length % 64 = message.length % 64 + input.length := by
    rw [List.length_append]
    omega
  have hkept : (m.buffer.take (message.length % 64)).length = message.length % 64 := by
    rw [List.length_take_of_le]
    omega
  obtain ⟨hcount0,hcount1⟩ := h.counts input _ _ rfl rfl
  have hnot : ¬64 - message.length % 64 ≤ input.length := by omega
  simp only [update, h.index, if_neg hnot]
  refine ⟨_,rfl,h.finalized,(memcpy_length hfits).trans h.length,hcount0,hcount1,?_⟩
  rw [h.absorbs_append, absorbs_short (by rw [hkept]; exact hshort), hpos, memcpy_take hfits]

/-- An input that fills the buffer. -/
theorem Holds.update_full (h : Holds m message) (hfull : 64 ≤ message.length % 64 + input.length)
    (hlen : input.length < 4294967296) (hfits : Fits message.length input.length) :
    ∃ m', update m input = some m' ∧ Holds m' (message ++ input) := by
  have hkept : (m.buffer.take (message.length % 64)).length = message.length % 64 := by
    rw [List.length_take_of_le]
    rw [h.length]
    omega
  have hle : 64 - message.length % 64 ≤ input.length := by omega
  have hindex :
      64 - message.length % 64 + (input.length - (64 - message.length % 64)) / 64 * 64 + 64 < 4294967296 := by
    unfold Fits at hfits
    omega
  have hfirst : (input.take (64 - message.length % 64)).length = 64 - message.length % 64 :=
    List.length_take_of_le hle
  have hbuffer : (memcpy m.buffer (message.length % 64) (input.take (64 - message.length % 64))).length = 64 := by
    rw [memcpy_length (by rw [hfirst, h.length]; omega), h.length]
  obtain ⟨hcount0,hcount1⟩ := h.counts input _ _ rfl rfl
  simp only [update, h.index, if_pos hle]
  rw [updateLoop_eq _ _ _ hle hlen, if_pos hindex]
  refine ⟨_,rfl,h.finalized,?_,hcount0,hcount1,?_⟩
  · exact (memcpy_length (by rw [hbuffer, List.length_drop]; omega)).trans hbuffer
  · have hne : input.take (64 - message.length % 64) ≠ [] := List.ne_nil_of_length_pos (by omega)
    have hblock : memcpy m.buffer (message.length % 64) (input.take (64 - message.length % 64)) =
        m.buffer.take (message.length % 64) ++ input.take (64 - message.length % 64) := by
      rw [memcpy, List.drop_eq_nil_of_le (by rw [h.length, hfirst]; omega), List.append_nil]
    have hrest :
        (input.drop (64 - message.length % 64 + (input.length - (64 - message.length % 64)) / 64 * 64)).length =
          (message ++ input).length % 64 := by
      rw [List.length_drop, List.length_append]
      omega
    rw [h.absorbs_append, ← hrest, memcpy_zero]
    conv_lhs => rw [← List.take_append_drop (64 - message.length % 64) input]
    rw [BlockStream.absorbs_append, absorbs_full hne (by rw [hkept, hfirst]; omega), absorbs_eq (by omega), hblock,
      List.length_drop, List.drop_drop]

theorem Holds.update_overflow (h : Holds m message) (hlen : input.length < 4294967296)
    (hfits : ¬Fits message.length input.length) : update m input = none := by
  unfold Fits at hfits
  have hle : 64 - message.length % 64 ≤ input.length := by omega
  simp only [update, h.index, if_pos hle]
  have hindex :
      ¬64 - message.length % 64 + (input.length - (64 - message.length % 64)) / 64 * 64 + 64 < 4294967296 := by
    omega
  rw [updateLoop_eq _ _ _ hle hlen, if_neg hindex]
  rfl

theorem Holds.update (h : Holds m message) (hlen : input.length < 4294967296)
    (hfits : Fits message.length input.length) : ∃ m', update m input = some m' ∧ Holds m' (message ++ input) := by
  by_cases hshort : message.length % 64 + input.length < 64
  · exact h.update_short hshort
  · exact h.update_full (by omega) hlen hfits

theorem Holds.update_small (h : Holds m message) (hsmall : input.length ≤ 64) :
    ∃ m', MD5.update m input = some m' ∧ Holds m' (message ++ input) :=
  h.update (by omega) (by unfold Fits; omega)

/-- Encoded words are taken apart byte by byte. -/
theorem encode_counts (len : ℕ) : encode [8 * len % 4294967296,8 * len / 4294967296 % 4294967296] =
    (List.range 8).map fun i => UInt8.ofNat (8 * len / 256 ^ i) := by
  have hbyte : ∀ x y : ℕ, x % 256 = y % 256 → UInt8.ofNat x = UInt8.ofNat y := by
    intro x y hxy
    apply UInt8.toNat_inj.mp
    rw [UInt8.toNat_ofNat', UInt8.toNat_ofNat']
    exact hxy
  change [_,_,_,_,_,_,_,_] = [_,_,_,_,_,_,_,_]
  simp only [List.cons.injEq, and_true]
  refine ⟨?_,?_,?_,?_,?_,?_,?_,?_⟩ <;> apply hbyte <;> omega

theorem padding_take (index : ℕ) (h : index < 64) :
    padding.take (if index < 56 then 56 - index else 120 - index) =
      0x80 :: List.replicate ((119 - index) % 64) 0 := by
  have hpad : (if index < 56 then 56 - index else 120 - index) = (119 - index) % 64 + 1 := by
    split <;> omega
  rw [hpad, padding, List.take_succ_cons, List.take_replicate, Nat.min_eq_left (by omega)]

theorem padded_length : (padded message).length % 64 = 0 := by
  simp only [padded, List.length_append, List.length_cons, List.length_replicate, List.length_map, List.length_range]
  omega

/-- The digest is that of everything that was fed. -/
theorem Holds.finalize (h : Holds m message) : ∃ m', finalize m = some m' ∧ m'.digest = digestOf message := by
  have hbits : encode [m.count0,m.count1] =
      (List.range 8).map fun i => UInt8.ofNat (8 * message.length / 256 ^ i) := by
    rw [h.count0, h.count1, encode_counts]
  have hzeros : (0x80 :: List.replicate ((119 - message.length % 64) % 64) (0 : UInt8)).length ≤ 64 := by
    rw [List.length_cons, List.length_replicate]
    omega
  have height : ((List.range 8).map fun i => UInt8.ofNat (8 * message.length / 256 ^ i)).length ≤ 64 := by
    rw [List.length_map, List.length_range]
    omega
  obtain ⟨p,hp,hpad⟩ := h.update_small hzeros
  obtain ⟨q,hq,hwhole⟩ := hpad.update_small height
  have habsorbed := hwhole.absorbed
  change absorbs 64 transform (initState,[]) (padded message) = _ at habsorbed
  rw [absorbs_whole (by omega) _ padded_length] at habsorbed
  have hstate : (blocks 64 (padded message)).foldl transform initState = q.state := congrArg Prod.fst habsorbed
  simp only [MD5.finalize, h.finalized, Bool.false_eq_true, if_false, hbits, h.index]
  rw [padding_take _ (Nat.mod_lt _ (by omega)), hp, Option.bind_some, hq, Option.map_some]
  refine ⟨_,rfl,?_⟩
  rw [digestOf, hstate]

theorem Holds.feed_iff (h : Holds m message) (chunks : List Chunk) :
    ((feed m chunks).bind MD5.finalize).map Md5.digest =
      some (digestOf (message ++ (chunks.map Subtype.val).flatten)) ↔ FitsAll message.length chunks := by
  induction chunks generalizing m message with
  | nil =>
    obtain ⟨m',hm',hdigest⟩ := h.finalize
    simp [feed, FitsAll, hm', hdigest]
  | cons c cs ih =>
    by_cases hfits : Fits message.length c.val.length
    · obtain ⟨m',hm',hholds⟩ := h.update c.prop hfits
      have hrest := ih hholds
      rw [List.length_append, List.append_assoc] at hrest
      simp only [feed, FitsAll, hm', Option.bind_some, List.map_cons, List.flatten_cons, hfits, true_and]
      exact hrest
    · simp [feed, FitsAll, hfits, h.update_overflow c.prop hfits]

/-- However a message is cut, its digest comes out exactly when the index never overflows; otherwise an
update reads past the end of its input. -/
theorem digest_iff (junk : Fin 64 → UInt8) (chunks : List Chunk) :
    ((feed (init junk) chunks).bind finalize).map Md5.digest = some (digestOf (chunks.map Subtype.val).flatten) ↔
      FitsAll 0 chunks :=
  (holds_init junk).feed_iff chunks

example : digestOf [] = [0xd4,0x1d,0x8c,0xd9,0x8f,0x00,0xb2,0x04,0xe9,0x80,0x09,0x98,0xec,0xf8,0x42,0x7e] := by
  decide +kernel

end OctCommu.Util.MD5
