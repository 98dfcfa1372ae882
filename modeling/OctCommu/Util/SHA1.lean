import OctCommu.Lib.BlockStream
import Mathlib.Algebra.GroupWithZero.Nat

/-! # SHA-1

The code keeps sixteen words of the schedule and overwrites them as the rounds go on; its
rounds write the functions of the standard another way. The standard's compression is
stated over the whole schedule, and a stream in pieces has the digest of what it adds up to.
-/
namespace OctCommu.Util.SHA1
open BlockStream

structure Words where
  v : UInt32
  w : UInt32
  x : UInt32
  y : UInt32
  z : UInt32

def rol (value bits : UInt32) : UInt32 := (value <<< bits) ||| (value >>> (32 - bits))

def blk (block : List UInt32) (i : ℕ) : UInt32 :=
  rol (block.getD ((i + 13) % 16) 0 ^^^ block.getD ((i + 8) % 16) 0 ^^^ block.getD ((i + 2) % 16) 0 ^^^
    block.getD i 0) 1

/-- One call of a round; the registers come out in the order in which the next call names them. -/
def operation (f : UInt32 → UInt32 → UInt32 → UInt32) (k : UInt32) (block : List UInt32) (r : Words) (i : ℕ) :
    Words :=
  ⟨r.z + (f r.w r.x r.y + block.getD i 0 + k + rol r.v 5),r.v,rol r.w 30,r.x,r.y⟩

abbrev Round := List UInt32 × Words → ℕ → List UInt32 × Words

def R0 : Round := fun (block,r) i =>
  (block,operation (fun w x y => (w &&& (x ^^^ y)) ^^^ y) 0x5a827999 block r i)

def R1 : Round := fun (block,r) i =>
  let block := block.set i (blk block i)
  (block,operation (fun w x y => (w &&& (x ^^^ y)) ^^^ y) 0x5a827999 block r i)

def R2 : Round := fun (block,r) i =>
  let block := block.set i (blk block i)
  (block,operation (fun w x y => w ^^^ x ^^^ y) 0x6ed9eba1 block r i)

def R3 : Round := fun (block,r) i =>
  let block := block.set i (blk block i)
  (block,operation (fun w x y => ((w ||| x) &&& y) ||| (w &&& x)) 0x8f1bbcdc block r i)

def R4 : Round := fun (block,r) i =>
  let block := block.set i (blk block i)
  (block,operation (fun w x y => w ^^^ x ^^^ y) 0xca62c1d6 block r i)

/-- The calls of `transform` one after the other. -/
def calls : List (Round × ℕ) :=
  [0,1,2,3,4,5,6,7,8,9,10,11,12,13,14,15].map (R0,·) ++
  [0,1,2,3].map (R1,·) ++
  [4,5,6,7,8,9,10,11,12,13,14,15,0,1,2,3,4,5,6,7].map (R2,·) ++
  [8,9,10,11,12,13,14,15,0,1,2,3,4,5,6,7,8,9,10,11].map (R3,·) ++
  [12,13,14,15,0,1,2,3,4,5,6,7,8,9,10,11,12,13,14,15].map (R4,·)

/-- The digest and the block as the rounds leave it. -/
def transform (digest : Words) (block : List UInt32) : Words × List UInt32 :=
  let (block,r) := calls.foldl (fun s call => call.1 s call.2) (block,digest)
  (⟨digest.v + r.v,digest.w + r.w,digest.x + r.x,digest.y + r.y,digest.z + r.z⟩,block)

def word (buffer : List UInt8) (i : ℕ) : UInt32 :=
  (buffer.getD (4 * i + 3) 0).toUInt32 ||| (buffer.getD (4 * i + 2) 0).toUInt32 <<< 8 |||
    (buffer.getD (4 * i + 1) 0).toUInt32 <<< 16 ||| (buffer.getD (4 * i) 0).toUInt32 <<< 24

def buffer_to_block (buffer : List UInt8) : List UInt32 := (List.range 16).map (word buffer)

structure Sha1 where
  digest : Words
  buffer : List UInt8
  transforms : ℕ

def reset : Sha1 := ⟨⟨0x67452301,0xefcdab89,0x98badcfe,0x10325476,0xc3d2e1f0⟩,[],0⟩

def counted (transforms : ℕ) : ℕ := (transforms + 1) % 18446744073709551616

def update (s : Sha1) (is : List UInt8) : Sha1 :=
  if (s.buffer ++ is.take (64 - s.buffer.length)).length = 64 then
    update
      ⟨(transform s.digest (buffer_to_block (s.buffer ++ is.take (64 - s.buffer.length)))).1,[],
        counted s.transforms⟩
      (is.drop (64 - s.buffer.length))
  else { s with buffer := s.buffer ++ is.take (64 - s.buffer.length) }
termination_by s.buffer.length + is.length
decreasing_by
  rename_i hfull
  rw [List.length_append, List.length_take] at hfull
  rw [List.length_nil, List.length_drop]
  omega

def bytes (w : UInt32) : List UInt8 := [(w >>> 24).toUInt8,(w >>> 16).toUInt8,(w >>> 8).toUInt8,w.toUInt8]

def Words.bytes (r : Words) : List UInt8 := [r.v,r.w,r.x,r.y,r.z].flatMap SHA1.bytes

/-- The digest, and the object that is left. -/
def final_bin (s : Sha1) : List UInt8 × Sha1 :=
  let total_bits := (s.transforms * 64 + s.buffer.length) * 8 % 18446744073709551616
  let orig := s.buffer ++ [0x80]
  let block := buffer_to_block (orig ++ List.replicate (64 - orig.length) 0)
  let (digest,block) :=
    if orig.length > 56 then
      let (digest,block) := transform s.digest block
      (digest,List.replicate 14 0 ++ block.drop 14)
    else (s.digest,block)
  let block := (block.set 15 (UInt32.ofNat total_bits)).set 14 (UInt32.ofNat (total_bits / 4294967296))
  ((transform digest block).1.bytes,reset)

/-- The schedule of the standard. -/
def W (block : List UInt32) (t : ℕ) : UInt32 :=
  if t < 16 then block.getD t 0
  else rol (W block (t - 3) ^^^ W block (t - 8) ^^^ W block (t - 14) ^^^ W block (t - 16)) 1

def f (t : ℕ) (b c d : UInt32) : UInt32 :=
  if t < 20 then (b &&& c) ||| (~~~b &&& d)
  else if t < 40 then b ^^^ c ^^^ d
  else if t < 60 then (b &&& c) ||| (b &&& d) ||| (c &&& d)
  else b ^^^ c ^^^ d

def K (t : ℕ) : UInt32 :=
  if t < 20 then 0x5a827999 else if t < 40 then 0x6ed9eba1 else if t < 60 then 0x8f1bbcdc else 0xca62c1d6

def step (block : List UInt32) (r : Words) (t : ℕ) : Words :=
  ⟨rol r.v 5 + f t r.w r.x r.y + r.z + W block t + K t,r.v,rol r.w 30,r.x,r.y⟩

/-- The compression of the standard. -/
def compress (digest : Words) (buffer : List UInt8) : Words :=
  let r := (List.range 80).foldl (step (buffer_to_block buffer)) digest
  ⟨digest.v + r.v,digest.w + r.w,digest.x + r.x,digest.y + r.y,digest.z + r.z⟩

/-- The length in bits, the high byte first. -/
def lengthBytes (len : ℕ) : List UInt8 := (List.range 8).map fun i => UInt8.ofNat (8 * len / 256 ^ (7 - i))

def padded (message : List UInt8) : List UInt8 :=
  message ++ (0x80 :: List.replicate ((119 - message.length % 64) % 64) 0) ++ lengthBytes message.length

def digestOf (message : List UInt8) : List UInt8 :=
  ((blocks 64 (padded message)).foldl compress reset.digest).bytes

theorem choose_eq (w x y : UInt32) : (w &&& (x ^^^ y)) ^^^ y = (w &&& x) ||| (~~~w &&& y) := by
  apply UInt32.toBitVec_inj.mp
  ext i hi
  cases hw : w.toBitVec[i] <;> simp [hw]

theorem majority_eq (w x y : UInt32) : ((w ||| x) &&& y) ||| (w &&& x) = (w &&& x) ||| (w &&& y) ||| (x &&& y) := by
  apply UInt32.toBitVec_inj.mp
  ext i hi
  cases hw : w.toBitVec[i] <;> cases hx : x.toBitVec[i] <;> cases hy : y.toBitVec[i] <;> simp [hw, hx, hy]

/-- The round that the call with number `t` makes. -/
def round (t : ℕ) : Round :=
  if t < 16 then R0 else if t < 20 then R1 else if t < 40 then R2 else if t < 60 then R3 else R4

theorem calls_eq : calls = (List.range 80).map fun t => (round t,t % 16) := rfl

/-- Before call `t` the block holds the last sixteen words of the schedule. -/
structure Window (first : List UInt32) (t : ℕ) (block : List UInt32) : Prop where
  length : block.length = 16
  word : ∀ s < max t 16, max t 16 ≤ s + 16 → block.getD (s % 16) 0 = W first s

variable {first block : List UInt32} {t : ℕ}

theorem window_start (h : first.length = 16) : Window first 0 first := by
  refine ⟨h,?_⟩
  intro s hs _
  rw [W, if_pos (by omega), Nat.mod_eq_of_lt (by omega)]

theorem Window.early (h : Window first t block) (ht : t < 16) : Window first (t + 1) block := by
  refine ⟨h.length,?_⟩
  intro s hs hlow
  exact h.word s (by omega) (by omega)

theorem Window.blk_eq (h : Window first t block) (ht : 16 ≤ t) : blk block (t % 16) = W first t := by
  have h3 : (t % 16 + 13) % 16 = (t - 3) % 16 := by omega
  have h8 : (t % 16 + 8) % 16 = (t - 8) % 16 := by omega
  have h14 : (t % 16 + 2) % 16 = (t - 14) % 16 := by omega
  have h16 : t % 16 = (t - 16) % 16 := by omega
  rw [W, if_neg (by omega), blk, h3, h8, h14, h16, h.word _ (by omega) (by omega), h.word _ (by omega) (by omega),
    h.word _ (by omega) (by omega), h.word _ (by omega) (by omega)]

/-- The word that is overwritten is the oldest one. -/
theorem Window.late (h : Window first t block) (ht : 16 ≤ t) :
    Window first (t + 1) (block.set (t % 16) (blk block (t % 16))) := by
  refine ⟨by rw [List.length_set, h.length],?_⟩
  intro s hs hlow
  rw [h.blk_eq ht, List.getD_eq_getElem?_getD]
  by_cases hnew : s = t
  · rw [hnew, List.getElem?_set_self (by rw [h.length]; omega), Option.getD_some]
  · rw [List.getElem?_set_ne (by omega), ← List.getD_eq_getElem?_getD]
    exact h.word s (by omega) (by omega)

theorem operation_eq {g : UInt32 → UInt32 → UInt32 → UInt32} {k : UInt32} (r : Words)
    (hg : g r.w r.x r.y = f t r.w r.x r.y) (hk : k = K t) (hword : block.getD (t % 16) 0 = W first t) :
    operation g k block r (t % 16) = step first r t := by
  unfold operation step
  rw [hg, hk, hword]
  congr 1
  ac_rfl

theorem Window.round (h : Window first t block) (r : Words) :
    ∃ block', SHA1.round t (block,r) (t % 16) = (block',step first r t) ∧ Window first (t + 1) block' := by
  by_cases hearly : t < 16
  · refine ⟨block,?_,h.early hearly⟩
    rw [SHA1.round, if_pos hearly, R0, operation_eq r _ _ (h.word t (by omega) (by omega))]
    · rw [f, if_pos (by omega), choose_eq]
    · rw [K, if_pos (by omega)]
  · have hlate := h.late (by omega)
    have hword := hlate.word t (by omega) (by omega)
    refine ⟨_,?_,hlate⟩
    unfold SHA1.round
    rw [if_neg hearly]
    split_ifs with h20 h40 h60
    · rw [R1, operation_eq r _ _ hword]
      · rw [f, if_pos h20, choose_eq]
      · rw [K, if_pos h20]
    · rw [R2, operation_eq r _ _ hword]
      · rw [f, if_neg h20, if_pos h40]
      · rw [K, if_neg h20, if_pos h40]
    · rw [R3, operation_eq r _ _ hword]
      · rw [f, if_neg h20, if_neg h40, if_pos h60, majority_eq]
      · rw [K, if_neg h20, if_neg h40, if_pos h60]
    · rw [R4, operation_eq r _ _ hword]
      · rw [f, if_neg h20, if_neg h40, if_neg h60]
      · rw [K, if_neg h20, if_neg h40, if_neg h60]

/-- The rounds on the small block follow those on the whole schedule. -/
theorem window_run (h : first.length = 16) (digest : Words) (t : ℕ) :
    ∃ block, ((List.range t).map fun t => (round t,t % 16)).foldl (fun s call => call.1 s call.2) (first,digest) =
      (block,(List.range t).foldl (step first) digest) ∧ Window first t block := by
  induction t with
  | zero => exact ⟨first,rfl,window_start h⟩
  | succ t ih =>
    obtain ⟨block,hrun,hwindow⟩ := ih
    obtain ⟨block',hround,hwindow'⟩ := hwindow.round ((List.range t).foldl (step first) digest)
    refine ⟨block',?_,hwindow'⟩
    rw [List.range_succ, List.map_append, List.foldl_append, hrun, List.foldl_append]
    exact hround

theorem buffer_to_block_length (buffer : List UInt8) : (buffer_to_block buffer).length = 16 := by
  rw [buffer_to_block, List.length_map, List.length_range]

theorem transform_eq (digest : Words) (buffer : List UInt8) :
    (transform digest (buffer_to_block buffer)).1 = compress digest buffer ∧
      (transform digest (buffer_to_block buffer)).2.length = 16 := by
  obtain ⟨block,hrun,hwindow⟩ := window_run (buffer_to_block_length buffer) digest 80
  rw [← calls_eq] at hrun
  simp only [transform, hrun, compress, hwindow.length, and_self]

/-- `s` was fed with the message. -/
structure Holds (s : Sha1) (message : List UInt8) : Prop where
  absorbed : absorbs 64 compress (reset.digest,[]) message = (s.digest,s.buffer)
  transforms : s.transforms = message.length / 64 % 18446744073709551616

theorem holds_reset : Holds reset [] := ⟨rfl,rfl⟩

theorem Holds.buffer_length {s : Sha1} {message : List UInt8} (h : Holds s message) :
    s.buffer.length = message.length % 64 := by
  rw [← absorbs_length (f := compress) (by omega) reset.digest message, h.absorbed]

theorem update_eq (s : Sha1) (is : List UInt8) (h : s.buffer.length < 64) (ht : s.transforms < 18446744073709551616) :
    absorbs 64 compress (s.digest,s.buffer) is = ((update s is).digest,(update s is).buffer) ∧
      (update s is).transforms = (s.transforms + (s.buffer.length + is.length) / 64) % 18446744073709551616 := by
  fun_induction update s is with
  | case1 s is hfull ih =>
    obtain ⟨hrest,hcount⟩ := ih (by simp only [List.length_nil]; omega) (Nat.mod_lt _ (by omega))
    rw [List.length_append] at hfull
    have hne : is.take (64 - s.buffer.length) ≠ [] := List.ne_nil_of_length_pos (by omega)
    rw [List.length_take] at hfull
    constructor
    · conv_lhs => rw [← List.take_append_drop (64 - s.buffer.length) is]
      rw [absorbs_append, absorbs_full hne (by simp only [List.length_take]; omega), ← hrest, (transform_eq _ _).1]
    · have hdiv : (s.buffer.length + is.length) / 64 = (is.length - (64 - s.buffer.length)) / 64 + 1 := by omega
      rw [hcount, hdiv]
      simp only [List.length_nil, List.length_drop, counted]
      omega
  | case2 s is hshort =>
    rw [List.length_append, List.length_take] at hshort
    have htake : is.take (64 - s.buffer.length) = is := List.take_of_length_le (by omega)
    constructor
    · rw [absorbs_short (by simp only; omega), htake]
    · have hdiv : (s.buffer.length + is.length) / 64 = 0 := by omega
      rw [hdiv, Nat.add_zero, Nat.mod_eq_of_lt ht]

variable {s : Sha1} {message : List UInt8}

theorem Holds.update (h : Holds s message) (is : List UInt8) : Holds (update s is) (message ++ is) := by
  have hlt : s.transforms < 18446744073709551616 := by
    rw [h.transforms]
    exact Nat.mod_lt _ (by omega)
  obtain ⟨habsorbed,hcount⟩ := update_eq s is (by rw [h.buffer_length]; omega) hlt
  constructor
  · rw [absorbs_append, h.absorbed, habsorbed]
  · rw [hcount, h.transforms, h.buffer_length, List.length_append]
    omega

theorem or_shift {lo k : ℕ} (hi : ℕ) (h : lo < 2 ^ k) : lo ||| hi * 2 ^ k = lo + hi * 2 ^ k := by
  rw [Nat.or_comm, ← Nat.shiftLeft_eq, ← Nat.shiftLeft_add_eq_or_of_lt h, Nat.add_comm]

theorem shifted (x : ℕ) (k : UInt32) (hk : k.toNat ≤ 24) :
    ((UInt8.ofNat x).toUInt32 <<< k).toNat = x % 256 * 2 ^ k.toNat := by
  have hpow : 2 ^ k.toNat ≤ 2 ^ 24 := Nat.pow_le_pow_right (by omega) hk
  have hle : x % 256 * 2 ^ k.toNat ≤ 255 * 2 ^ 24 := Nat.mul_le_mul (by omega) hpow
  have hmod : k.toNat % 32 = k.toNat := Nat.mod_eq_of_lt (by omega)
  rw [UInt32.toNat_shiftLeft, UInt8.toNat_toUInt32, UInt8.toNat_ofNat', Nat.shiftLeft_eq, hmod]
  exact Nat.mod_eq_of_lt (Nat.lt_of_le_of_lt hle (by decide))

/-- The bytes of a number, the low one first, make up its word. -/
theorem word_bytes (n : ℕ) : (UInt8.ofNat n).toUInt32 ||| (UInt8.ofNat (n / 256)).toUInt32 <<< 8 |||
    (UInt8.ofNat (n / 65536)).toUInt32 <<< 16 ||| (UInt8.ofNat (n / 16777216)).toUInt32 <<< 24 = UInt32.ofNat n := by
  apply UInt32.toNat_inj.mp
  have h8 : ((UInt8.ofNat (n / 256)).toUInt32 <<< 8).toNat = n / 256 % 256 * 2 ^ 8 := shifted _ _ (by decide)
  have h16 : ((UInt8.ofNat (n / 65536)).toUInt32 <<< 16).toNat = n / 65536 % 256 * 2 ^ 16 := shifted _ _ (by decide)
  have h24 : ((UInt8.ofNat (n / 16777216)).toUInt32 <<< 24).toNat = n / 16777216 % 256 * 2 ^ 24 :=
    shifted _ _ (by decide)
  rw [UInt32.toNat_or, UInt32.toNat_or, UInt32.toNat_or, UInt8.toNat_toUInt32, UInt8.toNat_ofNat', h8, h16, h24,
    UInt32.toNat_ofNat']
  rw [or_shift (n / 256 % 256) (by omega), or_shift (n / 65536 % 256) (by omega),
    or_shift (n / 16777216 % 256) (by omega)]
  omega

theorem word_append (x y : List UInt8) (n i : ℕ) (hx : x.length = 4 * n) :
    word (x ++ y) i = if i < n then word x i else word y (i - n) := by
  have hpart : ∀ k < 4, (x ++ y).getD (4 * i + k) 0 =
      if i < n then x.getD (4 * i + k) 0 else y.getD (4 * (i - n) + k) 0 := by
    intro k hk
    simp only [List.getD_eq_getElem?_getD]
    split_ifs with hlt
    · rw [List.getElem?_append_left (by omega)]
    · have hsub : 4 * i + k - x.length = 4 * (i - n) + k := by omega
      rw [List.getElem?_append_right (by omega), hsub]
  have h0 := hpart 0 (by omega)
  rw [Nat.add_zero, Nat.add_zero] at h0
  unfold word
  rw [h0, hpart 1 (by omega), hpart 2 (by omega), hpart 3 (by omega)]
  split_ifs <;> rfl

/-- A block that ends with the length. -/
theorem block_length (x : List UInt8) (len : ℕ) (hx : x.length = 56) : buffer_to_block (x ++ lengthBytes len) =
    (List.range 14).map (word x) ++
      [UInt32.ofNat (8 * len % 18446744073709551616 / 4294967296),UInt32.ofNat (8 * len % 18446744073709551616)] := by
  have hsame : ∀ n k : ℕ, n % 4294967296 = k % 4294967296 → UInt32.ofNat n = UInt32.ofNat k := by
    intro n k hnk
    apply UInt32.toNat_inj.mp
    rw [UInt32.toNat_ofNat', UInt32.toNat_ofNat']
    exact hnk
  have hhigh : word (lengthBytes len) 0 = UInt32.ofNat (8 * len % 18446744073709551616 / 4294967296) := by
    rw [hsame _ (8 * len / 4294967296) (by omega), ← word_bytes]
    simp only [Nat.div_div_eq_div_mul]
    rfl
  have hlow : word (lengthBytes len) 1 = UInt32.ofNat (8 * len % 18446744073709551616) := by
    rw [hsame _ (8 * len / 256 ^ 0) (by omega), ← word_bytes]
    simp only [Nat.div_div_eq_div_mul]
    rfl
  have hwords : ∀ i, word (x ++ lengthBytes len) i = if i < 14 then word x i else word (lengthBytes len) (i - 14) :=
    fun i => word_append x _ 14 i hx
  have hrange : List.range 16 = List.range 14 ++ [14,15] := rfl
  rw [buffer_to_block, hrange, List.map_append, ← hhigh, ← hlow]
  congr 1
  · apply List.map_congr_left
    intro i hi
    rw [hwords, if_pos (List.mem_range.mp hi)]
  · simp [hwords]

/-- The words of the length are put in the place of what the block ended with. -/
theorem block_total {block : List UInt32} {x : List UInt8} (len : ℕ) (hx : x.length = 56)
    (hblock : block.length = 16) (hfirst : block.take 14 = (List.range 14).map (word x)) :
    (block.set 15 (UInt32.ofNat (8 * len % 18446744073709551616))).set 14
      (UInt32.ofNat (8 * len % 18446744073709551616 / 4294967296)) = buffer_to_block (x ++ lengthBytes len) := by
  obtain ⟨u,v,huv⟩ : ∃ u v, block.drop 14 = [u,v] := by
    rw [← List.length_eq_two, List.length_drop]
    omega
  rw [block_length x len hx, ← hfirst]
  conv_lhs => rw [← List.take_append_drop 14 block, huv]
  have htake : (block.take 14).length = 14 := List.length_take_of_le (by omega)
  rw [List.set_append_right _ _ (by omega), List.set_append_right _ _ (by omega), htake]
  rfl

theorem block_take (x y : List UInt8) (hx : x.length = 56) :
    (buffer_to_block (x ++ y)).take 14 = (List.range 14).map (word x) := by
  rw [buffer_to_block, ← List.map_take, List.take_range]
  apply List.map_congr_left
  intro i hi
  have hlt : i < 14 := List.mem_range.mp hi
  rw [word_append x y 14 i hx, if_pos hlt]

theorem padded_length : (padded message).length % 64 = 0 := by
  simp only [padded, lengthBytes, List.length_append, List.length_cons, List.length_replicate, List.length_map,
    List.length_range]
  omega

theorem lengthBytes_length (len : ℕ) : (lengthBytes len).length = 8 := by
  rw [lengthBytes, List.length_map, List.length_range]

/-- The digest in terms of what is left in the buffer. -/
theorem Holds.digestOf_eq (h : Holds s message) : digestOf message = (absorbs 64 compress (s.digest,s.buffer)
    (0x80 :: List.replicate ((119 - message.length % 64) % 64) 0 ++ lengthBytes message.length)).1.bytes := by
  have hwhole : (blocks 64 (padded message)).foldl compress reset.digest =
      (absorbs 64 compress (reset.digest,[]) (padded message)).1 := by
    rw [absorbs_whole (by omega) _ padded_length]
  rw [digestOf, hwhole, padded, List.append_assoc, absorbs_append, h.absorbed]

theorem Holds.total_bits (h : Holds s message) : (s.transforms * 64 + s.buffer.length) * 8 % 18446744073709551616 =
    8 * message.length % 18446744073709551616 := by
  rw [h.transforms, h.buffer_length]
  omega

/-- The length fits into the block that was begun. -/
theorem Holds.final_short (h : Holds s message) (hshort : message.length % 64 < 56) :
    final_bin s = (digestOf message,reset) := by
  have hlen := h.buffer_length
  have horig : ¬(s.buffer ++ [0x80]).length > 56 := by
    rw [List.length_append, List.length_singleton]
    omega
  have hzeros : (119 - message.length % 64) % 64 = 55 - message.length % 64 := by omega
  have hx : (s.buffer ++ 0x80 :: List.replicate (55 - message.length % 64) 0).length = 56 := by
    simp only [List.length_append, List.length_cons, List.length_replicate]
    omega
  have hfill : s.buffer ++ [0x80] ++ List.replicate (64 - (s.buffer ++ [0x80]).length) 0 =
      (s.buffer ++ 0x80 :: List.replicate (55 - message.length % 64) 0) ++ List.replicate 8 0 := by
    have hcount : 64 - (s.buffer ++ [0x80]).length = 55 - message.length % 64 + 8 := by
      rw [List.length_append, List.length_singleton]
      omega
    rw [hcount, List.replicate_add]
    simp
  have hblock := block_total message.length hx (buffer_to_block_length _) (block_take _ (List.replicate 8 0) hx)
  simp only [final_bin, h.total_bits, if_neg horig]
  rw [hfill, hblock, (transform_eq _ _).1, h.digestOf_eq, hzeros, absorbs_full (by simp)]
  · simp
  · simp [lengthBytes_length]
    omega

/-- The zeros and the length need another block. -/
theorem Holds.final_long (h : Holds s message) (hlong : 56 ≤ message.length % 64) :
    final_bin s = (digestOf message,reset) := by
  have hlen := h.buffer_length
  have horig : (s.buffer ++ [0x80]).length > 56 := by
    rw [List.length_append, List.length_singleton]
    omega
  have hfill : 64 - (s.buffer ++ [0x80]).length = 63 - message.length % 64 := by
    rw [List.length_append, List.length_singleton]
    omega
  have hzeros : (0x80 : UInt8) :: List.replicate ((119 - message.length % 64) % 64) 0 ++ lengthBytes message.length =
      ([0x80] ++ List.replicate (63 - message.length % 64) 0) ++
        (List.replicate 56 0 ++ lengthBytes message.length) := by
    have hcount : (119 - message.length % 64) % 64 = 63 - message.length % 64 + 56 := by omega
    rw [hcount, List.replicate_add]
    simp
  obtain ⟨hdigest,hblock⟩ :=
    transform_eq s.digest (s.buffer ++ [0x80] ++ List.replicate (63 - message.length % 64) 0)
  simp only [final_bin, h.total_bits, if_pos horig]
  rw [hfill]
  generalize transform s.digest
    (buffer_to_block (s.buffer ++ [0x80] ++ List.replicate (63 - message.length % 64) 0)) = out at hdigest hblock ⊢
  have hlength : (List.replicate 14 0 ++ out.2.drop 14).length = 16 := by
    rw [List.length_append, List.length_replicate, List.length_drop, hblock]
  have hzero : (List.replicate 14 0 ++ out.2.drop 14).take 14 =
      (List.range 14).map (word (List.replicate 56 0)) := rfl
  have hlast := block_total message.length List.length_replicate hlength hzero
  have hfirst : absorbs 64 compress (s.digest,s.buffer) ([0x80] ++ List.replicate (63 - message.length % 64) 0) =
      (out.1,[]) := by
    rw [absorbs_full (by simp), hdigest, List.append_assoc]
    simp only [List.length_append, List.length_singleton, List.length_replicate]
    omega
  have hsecond : absorbs 64 compress (out.1,[]) (List.replicate 56 0 ++ lengthBytes message.length) =
      (compress out.1 (List.replicate 56 0 ++ lengthBytes message.length),[]) := by
    rw [absorbs_full (by simp), List.nil_append]
    rw [List.length_nil, List.length_append, List.length_replicate, lengthBytes_length]
  rw [hlast, (transform_eq _ _).1, h.digestOf_eq, hzeros, absorbs_append, hfirst, hsecond]

theorem Holds.final (h : Holds s message) : final_bin s = (digestOf message,reset) := by
  by_cases hshort : message.length % 64 < 56
  · exact h.final_short hshort
  · exact h.final_long (by omega)

/-- One object for one message after the other; each comes in pieces. -/
def digests (s : Sha1) : List (List (List UInt8)) → List (List UInt8)
  | [] => []
  | pieces :: rest =>
    let (digest,s) := final_bin (pieces.foldl SHA1.update s)
    digest :: digests s rest

theorem Holds.feed (h : Holds s message) (pieces : List (List UInt8)) :
    Holds (pieces.foldl SHA1.update s) (message ++ pieces.flatten) := by
  induction pieces generalizing s message with
  | nil => simpa using h
  | cons piece pieces ih =>
    rw [List.flatten_cons, ← List.append_assoc]
    exact ih (h.update piece)

/-- An object gives every message in turn the digest of the standard, in whatever pieces it comes. -/
theorem digests_eq (messages : List (List (List UInt8))) :
    digests reset messages = messages.map fun pieces => digestOf pieces.flatten := by
  induction messages with
  | nil => rfl
  | cons pieces rest ih =>
    rw [digests, (holds_reset.feed pieces).final, List.nil_append, List.map_cons, ← ih]

end OctCommu.Util.SHA1
