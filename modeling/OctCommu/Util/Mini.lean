import OctCommu.Lib.StdString
import Mathlib.Data.List.Forall2
import Mathlib.Data.List.Lex
import Mathlib.Data.List.TakeWhile
import Mathlib.Data.List.Perm.Subperm
import Mathlib.Algebra.GroupWithZero.Nat

/-! # INI files

The map is the list of its entries in the order of their keys. `trim` looks characters up
in a table that has no place for the last byte, and `dump` takes the first two tokens of
every key; what comes back from the file is compared with what was dumped.
-/
namespace OctCommu.Util

abbrev Text := List UInt8

/-- One of the characters ` \r\n\t`. -/
def isBlank (ch : UInt8) : Bool := ch = 32 || ch = 13 || ch = 10 || ch = 9

/-- The second loop of `TRIM`; `map.at` throws for the byte 255. -/
def trimFront : Text → Option Text
  | [] => some []
  | ch :: s => if ch = 255 then none else if isBlank ch then trimFront s else some (ch :: s)

def trim (s : Text) : Option Text := (trimFront s.reverse).bind fun s => trimFront s.reverse

/-- A character that `trim` stops at. -/
def Stop (ch : UInt8) : Prop := ch ≠ 255 ∧ isBlank ch = false

/-- A text that begins and ends with such a character. -/
def Trimmed (t : Text) : Prop := (∀ ch, t.head? = some ch → Stop ch) ∧ ∀ ch, t.getLast? = some ch → Stop ch

theorem trimFront_cons {ch : UInt8} (h : Stop ch) (s : Text) : trimFront (ch :: s) = some (ch :: s) := by
  simp [trimFront, h.1, h.2]

theorem trimFront_self {t : Text} (h : ∀ ch, t.head? = some ch → Stop ch) : trimFront t = some t := by
  cases t with
  | nil => rfl
  | cons ch t => exact trimFront_cons (h ch rfl) t

theorem trimFront_append {ch : UInt8} (h : Stop ch) (b r : Text) :
    trimFront (b ++ ch :: r) = (trimFront b).map (· ++ ch :: r) := by
  induction b with
  | nil => exact trimFront_cons h r
  | cons c b ih =>
    rw [List.cons_append, trimFront, trimFront]
    split_ifs
    · rfl
    · exact ih
    · rfl

theorem trimFront_eq_some {s t : Text} (h : trimFront s = some t) :
    (∃ p, s = p ++ t) ∧ ∀ ch, t.head? = some ch → Stop ch := by
  induction s with
  | nil =>
    obtain rfl : [] = t := Option.some.inj h
    exact ⟨⟨[],rfl⟩,by simp⟩
  | cons c s ih =>
    rw [trimFront] at h
    split_ifs at h with hc hb
    · obtain ⟨⟨p,rfl⟩,hstop⟩ := ih h
      exact ⟨⟨c :: p,rfl⟩,hstop⟩
    · obtain rfl := Option.some.inj h
      refine ⟨⟨[],rfl⟩,fun ch hch => ?_⟩
      obtain rfl : c = ch := by simpa using hch
      exact ⟨hc,by simpa using hb⟩

theorem trim_eq_some {s t : Text} (h : trim s = some t) : (∃ p q, s = p ++ t ++ q) ∧ Trimmed t := by
  obtain ⟨r,hr,ht⟩ := Option.bind_eq_some_iff.mp h
  obtain ⟨⟨q,hq⟩,hlast⟩ := trimFront_eq_some hr
  obtain ⟨⟨p,hp⟩,hhead⟩ := trimFront_eq_some ht
  have hs : s = r.reverse ++ q.reverse := by rw [← List.reverse_append, ← hq, List.reverse_reverse]
  refine ⟨⟨p,q.reverse,by rw [hs, hp]⟩,hhead,fun ch hch => hlast ch ?_⟩
  rw [← List.getLast?_reverse, hp, List.getLast?_append, hch]
  rfl

theorem trim_self {t : Text} (h : Trimmed t) : trim t = some t := by
  have hback : trimFront t.reverse = some t.reverse := trimFront_self (by simpa using h.2)
  rw [trim, hback, Option.bind_some, List.reverse_reverse, trimFront_self h.1]

theorem length_trim_le {s t : Text} (h : trim s = some t) : t.length ≤ s.length := by
  obtain ⟨⟨p,q,rfl⟩,-⟩ := trim_eq_some h
  simp only [List.length_append]
  omega

theorem trim_of_length {s t : Text} (h : trim s = some t) (hlen : s.length ≤ t.length) : t = s ∧ Trimmed s := by
  obtain ⟨⟨p,q,rfl⟩,ht⟩ := trim_eq_some h
  simp only [List.length_append] at hlen
  obtain rfl : p = [] := List.eq_nil_of_length_eq_zero (by omega)
  obtain rfl : q = [] := List.eq_nil_of_length_eq_zero (by omega)
  simpa using ht

theorem not_mem_of_trim {s t : Text} {ch : UInt8} (h : trim s = some t) (hs : ch ∉ s) : ch ∉ t := by
  obtain ⟨⟨p,q,rfl⟩,-⟩ := trim_eq_some h
  simp only [List.mem_append, not_or] at hs
  exact hs.1.2

theorem trim_return (s : Text) : trim (s ++ [13]) = trim s := by
  rw [trim, trim, List.reverse_append, List.reverse_singleton, List.singleton_append, trimFront,
    if_neg (by decide), if_pos (by decide)]

/-- The sign of a line is where the trimming stops. -/
theorem trim_line (b v : Text) : trim (b ++ 61 :: v) =
    (trimFront v.reverse).bind fun v' => (trimFront b).map fun b' => b' ++ 61 :: v'.reverse := by
  have hsign : Stop 61 := ⟨by decide,rfl⟩
  have hrev : (b ++ 61 :: v).reverse = v.reverse ++ 61 :: b.reverse := by simp
  rw [trim, hrev, trimFront_append hsign]
  cases trimFront v.reverse with
  | none => rfl
  | some v' =>
    rw [Option.map_some, Option.bind_some, Option.bind_some, ← trimFront_append hsign]
    simp

namespace Mini

abbrev Entry := Text × Text

/-- `operator[]` and the assignment. -/
def assign (k v : Text) : List Entry → List Entry
  | [] => [(k,v)]
  | e :: es => if k < e.1 then (k,v) :: e :: es else if k = e.1 then (k,v) :: es else e :: assign k v es

/-- The tokens from the one on that has begun with `cur`. -/
def tokenize (sep : UInt8) : Text → Text → List Text
  | cur, [] => if cur = [] then [] else [cur]
  | cur, ch :: self =>
    if ch = sep then if cur = [] then tokenize sep [] self else cur :: tokenize sep [] self
    else tokenize sep (cur ++ [ch]) self

/-- The tag after a line, and what the line assigns. -/
def parseLine (tag line : Text) : Option (Text × Option Entry) :=
  (trim line).bind fun line =>
    if line = [] ∨ line.head? = some 59 ∨ line.head? = some 35 then some (tag,none)
    else if 3 ≤ line.length ∧ line.head? = some 91 ∧ line.getLast? = some 93 then
      (trim ((line.drop 1).take (line.length - 2))).map fun tag => (tag,none)
    else
      (trim (tag ++ 46 :: line.takeWhile (· ≠ 61))).bind fun symbol =>
        (trim ((line.dropWhile (· ≠ 61)).drop 1)).map fun value => (tag,some (symbol,value))

/-- The assignments of the lines. -/
def parseLines (tag : Text) : List Text → Option (List Entry)
  | [] => some []
  | line :: lines => (parseLine tag line).bind fun r => (parseLines r.1 lines).map fun es => r.2.toList ++ es

def text (s : String) : Text := s.toList.map fun c => UInt8.ofNat c.toNat

/-- The loop of `dump`; without a second token there is no behaviour. -/
def dumpEntries (tag : Text) : List Entry → Option Text
  | [] => some []
  | e :: es =>
    match tokenize 46 [] e.1 with
    | kv0 :: kv1 :: _ =>
      (dumpEntries kv0 es).map fun rest =>
        (if tag ≠ kv0 then [13,10,91] ++ kv0 ++ [93,13,10] else []) ++ kv1 ++ 61 :: e.2 ++ [13,10] ++ rest
    | _ => none

/-- The default arguments of `dump`. -/
def header : Text := text "; auto-generated by mINI class \x7b"

def footer : Text := text "; \x7d ---"

end Mini

/-- The entries of the map. -/
@[ext] structure Mini where
  entries : List Mini.Entry
  sorted : entries.Pairwise (·.1 < ·.1)

namespace Mini

theorem mem_assign {k v : Text} {e : Entry} {es : List Entry} (h : e ∈ assign k v es) : e = (k,v) ∨ e ∈ es := by
  induction es with
  | nil => exact .inl (by simpa [assign] using h)
  | cons e' es ih =>
    rw [assign] at h
    split_ifs at h
    · simpa using h
    · obtain h | h := List.mem_cons.mp h
      · exact .inl h
      · exact .inr (.tail _ h)
    · obtain rfl | h := List.mem_cons.mp h
      · exact .inr (.head _)
      · exact (ih h).imp_right (.tail _)

theorem length_assign_le (k v : Text) (es : List Entry) : (assign k v es).length ≤ es.length + 1 := by
  induction es with
  | nil => simp [assign]
  | cons e es ih =>
    rw [assign]
    split_ifs <;> simp only [List.length_cons] <;> omega

theorem assign_sorted {k v : Text} {es : List Entry} (h : es.Pairwise (·.1 < ·.1)) :
    (assign k v es).Pairwise (·.1 < ·.1) := by
  induction es with
  | nil => simp [assign]
  | cons e es ih =>
    obtain ⟨he,hes⟩ := List.pairwise_cons.mp h
    rw [assign]
    split_ifs with hlt heq
    · refine List.pairwise_cons.mpr ⟨fun e' he' => ?_,h⟩
      obtain rfl | he' := List.mem_cons.mp he'
      · exact hlt
      · exact List.lt_trans hlt (he e' he')
    · exact List.pairwise_cons.mpr ⟨heq ▸ he,hes⟩
    · refine List.pairwise_cons.mpr ⟨fun e' he' => ?_,ih hes⟩
      obtain rfl | he' := mem_assign he'
      · grind
      · exact he e' he'

/-- A key after all others goes to the end. -/
theorem assign_last {k v : Text} {es : List Entry} (h : ∀ e ∈ es, e.1 < k) : assign k v es = es ++ [(k,v)] := by
  induction es with
  | nil => rfl
  | cons e es ih =>
    have he : e.1 < k := h e (.head _)
    rw [assign, if_neg (List.lt_asymm he), if_neg (by rintro rfl; exact List.lt_irrefl _ he),
      ih fun e' he' => h e' (.tail _ he'), List.cons_append]

def empty : Mini := ⟨[],.nil⟩

def set (m : Mini) (e : Entry) : Mini := ⟨assign e.1 e.2 m.entries,assign_sorted m.sorted⟩

def parse (m : Mini) (text : Text) : Option Mini := (parseLines [] (tokenize 10 [] text)).map (List.foldl set m)

def dump (m : Mini) (header footer : Text) : Option Text :=
  (dumpEntries [] m.entries).map fun output =>
    header ++ (if header = [] then [] else [13,10]) ++ output ++ [13,10] ++ footer
      ++ if footer = [] then [] else [13,10]

theorem mem_foldl_set {e : Entry} {es : List Entry} {m : Mini} (h : e ∈ (es.foldl set m).entries) :
    e ∈ m.entries ∨ e ∈ es := by
  induction es generalizing m with
  | nil => exact .inl h
  | cons e' es ih =>
    obtain h | h := ih h
    · obtain rfl | h := mem_assign h
      · exact .inr (.head _)
      · exact .inl h
    · exact .inr (.tail _ h)

theorem length_foldl_set_le (es : List Entry) (m : Mini) :
    (es.foldl set m).entries.length ≤ m.entries.length + es.length := by
  induction es generalizing m with
  | nil => simp
  | cons e es ih =>
    have hset : (m.set e).entries.length ≤ m.entries.length + 1 := length_assign_le _ _ _
    have hes := ih (m.set e)
    simp only [List.foldl_cons, List.length_cons]
    omega

/-- Entries that come in order are kept as they come. -/
theorem entries_foldl_set {es : List Entry} {m : Mini} (h : (m.entries ++ es).Pairwise (·.1 < ·.1)) :
    (es.foldl set m).entries = m.entries ++ es := by
  induction es generalizing m with
  | nil => simp
  | cons e es ih =>
    have hset : (m.set e).entries = m.entries ++ [e] :=
      assign_last fun e' he' => (List.pairwise_append.mp h).2.2 e' he' e (.head _)
    rw [List.foldl_cons, ih (by rw [hset]; simpa using h), hset]
    simp

theorem tokenize_last {sep : UInt8} {cur s : Text} (h : sep ∉ s) :
    tokenize sep cur s = if cur ++ s = [] then [] else [cur ++ s] := by
  induction s generalizing cur with
  | nil => simp [tokenize]
  | cons ch s ih =>
    obtain ⟨hch,hs⟩ := not_or.mp (mt List.mem_cons.mpr h)
    rw [tokenize, if_neg (Ne.symm hch), ih hs]
    simp

theorem tokenize_cons {sep : UInt8} {cur s : Text} (h : sep ∉ s) (hne : cur ++ s ≠ []) (rest : Text) :
    tokenize sep cur (s ++ sep :: rest) = (cur ++ s) :: tokenize sep [] rest := by
  induction s generalizing cur with
  | nil =>
    have hcur : cur ≠ [] := by simpa using hne
    simp [tokenize, hcur]
  | cons ch s ih =>
    obtain ⟨hch,hs⟩ := not_or.mp (mt List.mem_cons.mpr h)
    rw [List.cons_append, tokenize, if_neg (Ne.symm hch), ih hs (by simp), List.append_assoc]
    rfl

theorem mem_tokenize {sep : UInt8} {cur s t : Text} (ht : t ∈ tokenize sep cur s) (hcur : sep ∉ cur) :
    t ≠ [] ∧ sep ∉ t := by
  induction s generalizing cur with
  | nil =>
    rw [tokenize] at ht
    split_ifs at ht with hnil
    · cases ht
    · obtain rfl := List.mem_singleton.mp ht
      exact ⟨hnil,hcur⟩
  | cons ch s ih =>
    rw [tokenize] at ht
    split_ifs at ht with hch hnil
    · exact ih ht (by simp)
    · obtain rfl | ht := List.mem_cons.mp ht
      · exact ⟨hnil,hcur⟩
      · exact ih ht (by simp)
    · exact ih ht (by simp [hcur, Ne.symm hch])

/-- Where the first token stands. -/
theorem tokenize_first {sep : UInt8} {cur s a : Text} {r : List Text} (h : tokenize sep cur s = a :: r) :
    ∃ p q, cur ++ s = p ++ a ++ q := by
  induction s generalizing cur with
  | nil =>
    rw [tokenize] at h
    split_ifs at h
    obtain ⟨rfl,-⟩ := List.cons.inj h
    exact ⟨[],[],by simp⟩
  | cons ch s ih =>
    rw [tokenize] at h
    split_ifs at h with hch hnil
    · obtain ⟨p,q,hs⟩ := ih h
      exact ⟨cur ++ ch :: p,q,by rw [List.nil_append] at hs; simp [hs]⟩
    · obtain ⟨rfl,-⟩ := List.cons.inj h
      exact ⟨[],ch :: s,by simp⟩
    · obtain ⟨p,q,hs⟩ := ih h
      exact ⟨p,q,by simpa using hs⟩

/-- Where the first two tokens stand. -/
theorem tokenize_two {sep : UInt8} {cur s a b : Text} {r : List Text} (h : tokenize sep cur s = a :: b :: r) :
    ∃ p q t, cur ++ s = p ++ a ++ sep :: (q ++ b ++ t) := by
  induction s generalizing cur with
  | nil =>
    rw [tokenize] at h
    split_ifs at h
    simp at h
  | cons ch s ih =>
    rw [tokenize] at h
    split_ifs at h with hch hnil
    · obtain ⟨p,q,t,hs⟩ := ih h
      exact ⟨cur ++ ch :: p,q,t,by rw [List.nil_append] at hs; simp [hs]⟩
    · obtain ⟨rfl,htail⟩ := List.cons.inj h
      obtain ⟨q,t,hs⟩ := tokenize_first htail
      exact ⟨[],q,t,by rw [List.nil_append] at hs; simp [hs, hch]⟩
    · obtain ⟨p,q,t,hs⟩ := ih h
      exact ⟨p,q,t,by simpa using hs⟩

/-- The lines of a text that is one line after another. -/
theorem tokenize_lines {ls : List Text} (h : ∀ l ∈ ls, l ≠ [] ∧ 10 ∉ l) :
    tokenize 10 [] (ls.flatMap (· ++ [10])) = ls := by
  induction ls with
  | nil => rfl
  | cons l ls ih =>
    obtain ⟨hne,hl⟩ := h l (.head _)
    rw [List.flatMap_cons, List.append_assoc, List.singleton_append, tokenize_cons hl (by simpa using hne),
      ih fun l' hl' => h l' (.tail _ hl'), List.nil_append]

/-- The lines that `dump` writes for the entries. -/
def dumpLines (tag : Text) : List Entry → Option (List Text)
  | [] => some []
  | e :: es =>
    match tokenize 46 [] e.1 with
    | kv0 :: kv1 :: _ =>
      (dumpLines kv0 es).map fun rest =>
        (if tag ≠ kv0 then [[13],91 :: kv0 ++ [93,13]] else []) ++ (kv1 ++ 61 :: e.2 ++ [13]) :: rest
    | _ => none

theorem dumpEntries_eq (tag : Text) (es : List Entry) :
    dumpEntries tag es = (dumpLines tag es).map (·.flatMap (· ++ [10])) := by
  induction es generalizing tag with
  | nil => rfl
  | cons e es ih =>
    rw [dumpEntries, dumpLines]
    split
    · rename_i kv0 kv1 r hkv
      rw [ih, Option.map_map, Option.map_map]
      congr 1
      funext rest
      by_cases htag : tag = kv0 <;> simp [htag]
    · rfl

/-- No key and no value of the entries has a newline. -/
def OneLine (es : List Entry) : Prop := ∀ e ∈ es, 10 ∉ e.1 ∧ 10 ∉ e.2

theorem mem_dumpLines {tag : Text} {es : List Entry} {ls : List Text} (h : dumpLines tag es = some ls)
    (hes : OneLine es) : ∀ l ∈ ls, l ≠ [] ∧ 10 ∉ l := by
  induction es generalizing tag ls with
  | nil =>
    obtain rfl := Option.some.inj h
    simp
  | cons e es ih =>
    rw [dumpLines] at h
    split at h
    · rename_i kv0 kv1 r hkv
      obtain ⟨rest,hrest,rfl⟩ := Option.map_eq_some_iff.mp h
      obtain ⟨hk,hv⟩ := hes e (.head _)
      obtain ⟨p,q,t,hkey⟩ := tokenize_two hkv
      have hkey : 10 ∉ p ++ kv0 ++ 46 :: (q ++ kv1 ++ t) := by rwa [← hkey]
      simp only [List.mem_append, List.mem_cons, not_or] at hkey
      have hrest := ih hrest fun e' he' => hes e' (.tail _ he')
      intro l hl
      obtain hl | hl := List.mem_append.mp hl
      · split_ifs at hl
        · obtain rfl | hl := List.mem_cons.mp hl
          · simp
          · obtain rfl := List.mem_singleton.mp hl
            simp [hkey]
        · cases hl
      · obtain rfl | hl := List.mem_cons.mp hl
        · simp [hkey, hv]
        · exact hrest l hl
    · cases h

theorem parseLine_idle {line : Text} (line' : Text) (h : trim line = some line')
    (hline : line' = [] ∨ line'.head? = some 59 ∨ line'.head? = some 35) (tag : Text) :
    parseLine tag line = some (tag,none) := by
  rw [parseLine, h, Option.bind_some, if_pos hline]

theorem parseLine_section {kv0 : Text} (h : kv0 ≠ []) (tag : Text) :
    parseLine tag (91 :: kv0 ++ [93,13]) = (trim kv0).map (·,none) := by
  have hlast : (91 :: kv0 ++ [93]).getLast? = some 93 := List.getLast?_concat
  have htrimmed : Trimmed (91 :: kv0 ++ [93]) := by
    constructor
    · intro ch hch
      obtain rfl : 91 = ch := by simpa using hch
      exact ⟨by decide,rfl⟩
    · intro ch hch
      obtain rfl : 93 = ch := Option.some.inj (hlast.symm.trans hch)
      exact ⟨by decide,rfl⟩
  have hline : trim (91 :: kv0 ++ [93,13]) = some (91 :: kv0 ++ [93]) := by
    rw [← trim_self htrimmed, ← trim_return (91 :: kv0 ++ [93])]
    simp
  have hlen : 0 < kv0.length := List.length_pos_of_ne_nil h
  have hbody : ((91 :: kv0 ++ [93]).drop 1).take ((91 :: kv0 ++ [93]).length - 2) = kv0 := by simp
  rw [parseLine, hline, Option.bind_some, if_neg (by simp), if_pos ⟨by simp; omega,rfl,hlast⟩, hbody]

/-- What a line with a sign is made of when it assigns. -/
theorem parseLine_assigns {tag tag' b v : Text} {e : Entry}
    (h : parseLine tag (b ++ 61 :: v ++ [13]) = some (tag',some e)) :
    tag' = tag ∧ ∃ b' v' q, trimFront b = some b' ∧ v = v' ++ q ∧
      (¬((b' ++ 61 :: v').head? = some 59 ∨ (b' ++ 61 :: v').head? = some 35)) ∧
      (¬(3 ≤ (b' ++ 61 :: v').length ∧ (b' ++ 61 :: v').head? = some 91 ∧
        (b' ++ 61 :: v').getLast? = some 93)) ∧
      trim (tag ++ 46 :: (b' ++ 61 :: v').takeWhile (· ≠ 61)) = some e.1 ∧
      trim (((b' ++ 61 :: v').dropWhile (· ≠ 61)).drop 1) = some e.2 := by
  obtain ⟨line,hline,h⟩ := Option.bind_eq_some_iff.mp h
  rw [trim_return, trim_line] at hline
  obtain ⟨w,hw,hline⟩ := Option.bind_eq_some_iff.mp hline
  obtain ⟨b',hb,rfl⟩ := Option.map_eq_some_iff.mp hline
  obtain ⟨⟨p,hp⟩,-⟩ := trimFront_eq_some hw
  have hv : v = w.reverse ++ p.reverse := by rw [← List.reverse_append, ← hp, List.reverse_reverse]
  split_ifs at h with hcomment hsection
  · simp at h
  · simp at h
  · obtain ⟨symbol,hsymbol,h⟩ := Option.bind_eq_some_iff.mp h
    obtain ⟨value,hvalue,h⟩ := Option.map_eq_some_iff.mp h
    simp only [Prod.mk.injEq, Option.some.injEq] at h
    obtain ⟨rfl,rfl⟩ := h
    exact ⟨rfl,b',w.reverse,p.reverse,hb,hv,fun hc => hcomment (.inr hc),hsection,hsymbol,hvalue⟩

/-- What a section, a name and a value must be for a line to be read as it was written. -/
structure Line (tag name value : Text) : Prop where
  trimmed : Trimmed tag ∧ Trimmed name ∧ Trimmed value
  words : tag ≠ [] ∧ name ≠ []
  newline : 10 ∉ tag ∧ 10 ∉ name ∧ 10 ∉ value
  point : 46 ∉ tag ∧ 46 ∉ name
  sign : 61 ∉ name
  comment : name.head? ≠ some 59 ∧ name.head? ≠ some 35
  bracket : ¬(name.head? = some 91 ∧ value.getLast? = some 93)

def Plain (e : Entry) : Prop := ∃ tag name, e.1 = tag ++ 46 :: name ∧ Line tag name e.2

/-- No key grows on the way through the file, and one that keeps its length has kept its entry plain. -/
def Reads (e' e : Entry) : Prop :=
  e'.1.length ≤ e.1.length ∧ (e.1.length ≤ e'.1.length → e'.1 = e.1 ∧ (e'.2 = e.2 → Plain e))

theorem takeWhile_sign (b r : Text) : (b ++ 61 :: r).takeWhile (· ≠ 61) = b.takeWhile (· ≠ 61) := by
  induction b with
  | nil => simp
  | cons c b ih =>
    rw [List.cons_append, List.takeWhile_cons, List.takeWhile_cons, ih]

/-- The part before the sign has none when it is as long as the whole. -/
theorem not_mem_of_takeWhile {b : Text} (h : b.length ≤ (b.takeWhile (· ≠ 61)).length) : 61 ∉ b := by
  have hall : b.takeWhile (· ≠ 61) = b := (List.takeWhile_sublist _).eq_of_length_le h
  intro hmem
  rw [← hall] at hmem
  simpa using List.mem_takeWhile_imp hmem

theorem dropWhile_sign {b : Text} (h : 61 ∉ b) (r : Text) : ((b ++ 61 :: r).dropWhile (· ≠ 61)).drop 1 = r := by
  have hall : ∀ c ∈ b, decide (c ≠ 61) = true := by
    intro c hc
    exact decide_eq_true fun heq => h (heq ▸ hc)
  rw [List.dropWhile_append_of_pos hall]
  simp

theorem reads_of_assigns {e e' : Entry} {kv0 kv1 tag tag' : Text} {r : List Text}
    (hkv : tokenize 46 [] e.1 = kv0 :: kv1 :: r) (htag : trim kv0 = some tag)
    (hone : 10 ∉ e.1 ∧ 10 ∉ e.2) (h : parseLine tag (kv1 ++ 61 :: e.2 ++ [13]) = some (tag',some e')) :
    tag' = tag ∧ Reads e' e := by
  obtain ⟨rfl,b,v,q,hb,hv,hcomment,hbracket,hsymbol,hvalue⟩ := parseLine_assigns h
  obtain ⟨⟨p,hp⟩,hhead⟩ := trimFront_eq_some hb
  obtain ⟨p',q',t',hkey⟩ := tokenize_two hkv
  rw [List.nil_append] at hkey
  rw [takeWhile_sign] at hsymbol
  have hkeylen : kv0.length + 1 + kv1.length ≤ e.1.length := by
    rw [hkey]
    simp only [List.length_append, List.length_cons]
    omega
  have htaglen := length_trim_le htag
  have hsymlen := length_trim_le hsymbol
  have hnamelen : (b.takeWhile (· ≠ 61)).length ≤ b.length := (List.takeWhile_sublist _).length_le
  have hblen : b.length ≤ kv1.length := by
    rw [hp, List.length_append]
    omega
  simp only [List.length_append, List.length_cons] at hsymlen
  refine ⟨rfl,by omega,fun hlen => ?_⟩
  -- nothing was cut off anywhere
  have hsign : 61 ∉ b := not_mem_of_takeWhile (by omega)
  have hname : b.takeWhile (· ≠ 61) = b := (List.takeWhile_sublist _).eq_of_length_le (by omega)
  obtain rfl : p = [] := List.eq_nil_of_length_eq_zero (by rw [hp, List.length_append] at hkeylen; omega)
  obtain rfl : kv1 = b := hp
  rw [hname] at hsymbol
  have hlens := congrArg List.length hkey
  simp only [List.length_append, List.length_cons] at hlens
  obtain rfl : p' = [] := List.eq_nil_of_length_eq_zero (by omega)
  obtain rfl : q' = [] := List.eq_nil_of_length_eq_zero (by omega)
  obtain rfl : t' = [] := List.eq_nil_of_length_eq_zero (by omega)
  obtain ⟨rfl,htrimtag⟩ := trim_of_length htag (by omega)
  obtain ⟨hsym,htrimsym⟩ := trim_of_length hsymbol (by simp only [List.length_append, List.length_cons]; omega)
  have hkey : e.1 = tag' ++ 46 :: kv1 := by simpa using hkey
  refine ⟨hsym.trans hkey.symm,fun hval => ?_⟩
  have htokens : tag' ∈ tokenize 46 [] e.1 ∧ kv1 ∈ tokenize 46 [] e.1 := by simp [hkv]
  obtain ⟨hwtag,hptag⟩ := mem_tokenize htokens.1 (by simp)
  obtain ⟨hwname,hpname⟩ := mem_tokenize htokens.2 (by simp)
  rw [dropWhile_sign hsign, hval] at hvalue
  obtain rfl : q = [] := by
    have hlenv := length_trim_le hvalue
    rw [hv, List.length_append] at hlenv
    exact List.eq_nil_of_length_eq_zero (by omega)
  rw [List.append_nil] at hv
  subst hv
  obtain ⟨-,htrimval⟩ := trim_of_length hvalue (le_refl _)
  have hheadline : (kv1 ++ 61 :: e.2).head? = kv1.head? := List.head?_append_of_ne_nil _ hwname
  rw [hheadline] at hcomment hbracket
  have htrimname : Trimmed kv1 := by
    refine ⟨hhead,fun ch hch => htrimsym.2 ch ?_⟩
    rw [List.getLast?_append, List.getLast?_cons, hch]
    rfl
  have hnl : 10 ∉ tag' ∧ 10 ∉ kv1 := by
    have hnl := hone.1
    rw [hkey] at hnl
    simp only [List.mem_append, List.mem_cons, not_or] at hnl
    exact ⟨hnl.1,hnl.2.2⟩
  refine ⟨tag',kv1,hkey,⟨htrimtag,htrimname,htrimval⟩,⟨hwtag,hwname⟩,⟨hnl.1,hnl.2,hone.2⟩,
    ⟨hptag,hpname⟩,hsign,not_or.mp hcomment,fun ⟨hopen,hclose⟩ => hbracket ⟨?_,hopen,?_⟩⟩
  · have hpos : 0 < kv1.length := List.length_pos_of_ne_nil hwname
    have hposv : 0 < e.2.length := List.length_pos_of_ne_nil (by rintro hnil; simp [hnil] at hclose)
    simp only [List.length_append, List.length_cons]
    omega
  · rw [List.getLast?_append, List.getLast?_cons, hclose]
    rfl

/-- A plain entry is read back from its line. -/
theorem Line.parseLine {tag name value : Text} (h : Line tag name value) :
    parseLine tag (name ++ 61 :: value ++ [13]) = some (tag,some (tag ++ 46 :: name,value)) := by
  obtain ⟨hwtag,hwname⟩ := h.words
  have hback : trimFront value.reverse = some value.reverse := trimFront_self (by simpa using h.trimmed.2.2.2)
  have hline : trim (name ++ 61 :: value ++ [13]) = some (name ++ 61 :: value) := by
    rw [trim_return, trim_line, hback, Option.bind_some, trimFront_self h.trimmed.2.1.1, Option.map_some,
      List.reverse_reverse]
  have hhead : (name ++ 61 :: value).head? = name.head? := List.head?_append_of_ne_nil _ hwname
  have hbracket : ¬(3 ≤ (name ++ 61 :: value).length ∧ (name ++ 61 :: value).head? = some 91 ∧
      (name ++ 61 :: value).getLast? = some 93) := by
    rintro ⟨-,hopen,hclose⟩
    rw [List.getLast?_append, List.getLast?_cons] at hclose
    cases hlast : value.getLast? with
    | none => simp [hlast] at hclose
    | some c => exact h.bracket ⟨hhead ▸ hopen,by simpa [hlast] using hclose⟩
  have hname : name.takeWhile (· ≠ 61) = name := by
    refine List.takeWhile_eq_self_iff.mpr fun c hc => ?_
    exact decide_eq_true fun heq => h.sign (heq ▸ hc)
  have hsymbol : Trimmed (tag ++ 46 :: name) := by
    refine ⟨fun ch hch => h.trimmed.1.1 ch ?_,fun ch hch => h.trimmed.2.1.2 ch ?_⟩
    · rwa [List.head?_append_of_ne_nil _ hwtag] at hch
    · rw [List.getLast?_append, List.getLast?_cons] at hch
      cases hlast : name.getLast? with
      | none => exact absurd (List.getLast?_eq_none_iff.mp hlast) hwname
      | some c => simpa [hlast] using hch
  rw [Mini.parseLine, hline, Option.bind_some, hhead, if_neg (by simp [h.comment]), ← hhead, if_neg hbracket,
    takeWhile_sign, hname, trim_self hsymbol, Option.bind_some, dropWhile_sign h.sign, trim_self h.trimmed.2.2]
  rfl

theorem tokenize_key {tag name value : Text} (h : Line tag name value) :
    tokenize 46 [] (tag ++ 46 :: name) = [tag,name] := by
  rw [tokenize_cons h.point.1 (by simpa using h.words.1), tokenize_last h.point.2, List.nil_append,
    List.nil_append, if_neg h.words.2]

/-- Plain entries are dumped, and read back as they are. -/
theorem parseLines_dumpLines (tag : Text) {es : List Entry} (h : ∀ e ∈ es, Plain e) :
    ∃ ls, dumpLines tag es = some ls ∧ parseLines tag ls = some es := by
  induction es generalizing tag with
  | nil => exact ⟨[],rfl,rfl⟩
  | cons e es ih =>
    obtain ⟨kv0,kv1,hkey,hline⟩ := h e (.head _)
    obtain ⟨ls,hls,hes⟩ := ih kv0 fun e' he' => h e' (.tail _ he')
    have hlast : parseLines kv0 ((kv1 ++ 61 :: e.2 ++ [13]) :: ls) = some (e :: es) := by
      rw [parseLines, hline.parseLine, Option.bind_some, hes, ← hkey]
      rfl
    rw [dumpLines, hkey, tokenize_key hline]
    refine ⟨_,congrArg (Option.map _) hls,?_⟩
    split_ifs with htag
    · have hidle : parseLine tag [13] = some (tag,none) := parseLine_idle [] rfl (.inl rfl) tag
      have hsection := parseLine_section hline.words.1 tag
      rw [trim_self hline.trimmed.1] at hsection
      change parseLines tag ([13] :: (91 :: kv0 ++ [93,13]) :: (kv1 ++ 61 :: e.2 ++ [13]) :: ls) = some (e :: es)
      rw [parseLines, hidle, Option.bind_some, parseLines, hsection]
      simpa using hlast
    · rw [not_not] at htag
      subst htag
      simpa using hlast

/-- The line of the first entry, with the tag it is read under. -/
theorem parseLines_step {tag tag' : Text} {e : Entry} {es es' : List Entry} {ls : List Text}
    (hls : dumpLines tag (e :: es) = some ls) (hes : parseLines tag' ls = some es') :
    ∃ kv0 kv1 r rest t t' a es₁, tokenize 46 [] e.1 = kv0 :: kv1 :: r ∧ dumpLines kv0 es = some rest ∧
      (tag = kv0 ∧ t = tag' ∨ trim kv0 = some t) ∧ Mini.parseLine t (kv1 ++ 61 :: e.2 ++ [13]) = some (t',a) ∧
      parseLines t' rest = some es₁ ∧ es' = a.toList ++ es₁ := by
  rw [dumpLines] at hls
  split at hls
  · rename_i kv0 kv1 r hkv
    obtain ⟨rest,hrest,rfl⟩ := Option.map_eq_some_iff.mp hls
    have hline : ∃ t, (tag = kv0 ∧ t = tag' ∨ trim kv0 = some t) ∧
        parseLines t ((kv1 ++ 61 :: e.2 ++ [13]) :: rest) = some es' := by
      split_ifs at hes with htag
      · have hkv0 : kv0 ∈ tokenize 46 [] e.1 := by simp [hkv]
        have hidle : parseLine tag' [13] = some (tag',none) := parseLine_idle [] rfl (.inl rfl) tag'
        rw [List.cons_append, List.cons_append, List.nil_append, parseLines, hidle, Option.bind_some,
          Option.toList_none, parseLines, parseLine_section (mem_tokenize hkv0 (by simp)).1] at hes
        cases ht : trim kv0 with
        | none => simp [ht] at hes
        | some t => exact ⟨t,.inr rfl,by simpa [ht] using hes⟩
      · exact ⟨tag',.inl ⟨not_not.mp htag,rfl⟩,hes⟩
    obtain ⟨t,ht,hline⟩ := hline
    obtain ⟨⟨t',a⟩,ha,hline⟩ := Option.bind_eq_some_iff.mp hline
    obtain ⟨es₁,hes₁,rfl⟩ := Option.map_eq_some_iff.mp hline
    exact ⟨kv0,kv1,r,rest,t,t',a,es₁,hkv,hrest,ht,ha,hes₁,rfl⟩
  · cases hls

/-- A line assigns once at most. -/
theorem length_parseLines_le {tag tag' : Text} {es es' : List Entry} {ls : List Text}
    (hls : dumpLines tag es = some ls) (hes : parseLines tag' ls = some es') : es'.length ≤ es.length := by
  induction es generalizing tag tag' es' ls with
  | nil =>
    obtain rfl := Option.some.inj hls
    obtain rfl := Option.some.inj hes
    exact Nat.le_refl _
  | cons e es ih =>
    obtain ⟨kv0,kv1,r,rest,t,t',a,es₁,-,hrest,-,-,hes₁,rfl⟩ := parseLines_step hls hes
    have hlen := ih hrest hes₁
    have ha : a.toList.length ≤ 1 := by cases a <;> simp
    simp only [List.length_append, List.length_cons]
    omega

/-- When every entry has assigned, none was taken for a comment or a section, so that the tags are right. -/
theorem reads_parseLines {tag tag' : Text} {es es' : List Entry} {ls : List Text}
    (hls : dumpLines tag es = some ls) (hes : parseLines tag' ls = some es') (htag : trim tag = some tag')
    (hone : OneLine es) (hlen : es.length ≤ es'.length) : List.Forall₂ Reads es' es := by
  induction es generalizing tag tag' es' ls with
  | nil =>
    obtain rfl := Option.some.inj hls
    obtain rfl := Option.some.inj hes
    exact .nil
  | cons e es ih =>
    obtain ⟨kv0,kv1,r,rest,t,t',a,es₁,hkv,hrest,ht,ha,hes₁,rfl⟩ := parseLines_step hls hes
    have hle := length_parseLines_le hrest hes₁
    have ht : trim kv0 = some t := by
      obtain ⟨rfl,rfl⟩ | ht := ht
      · exact htag
      · exact ht
    cases a with
    | none =>
      simp only [Option.toList_none, List.nil_append, List.length_cons] at hlen
      omega
    | some e' =>
      obtain ⟨rfl,hreads⟩ := reads_of_assigns hkv ht (hone e (.head _)) ha
      refine .cons hreads (ih hrest hes₁ ht (fun e₁ he₁ => hone e₁ (.tail _ he₁)) ?_)
      simpa using hlen

/-- The characters of all keys together. -/
def keySize (es : List Entry) : ℕ := (es.map fun e => e.1.length).sum

theorem keySize_le {es es' : List Entry} (h : List.Forall₂ Reads es' es) : keySize es' ≤ keySize es := by
  induction h with
  | nil => exact Nat.le_refl _
  | cons hreads _ ih =>
    simp only [keySize, List.map_cons, List.sum_cons] at ih ⊢
    have := hreads.1
    omega

/-- When no character is lost, every key has kept its length. -/
theorem kept_of_keySize {es es' : List Entry} (h : List.Forall₂ Reads es' es) (hsize : keySize es ≤ keySize es') :
    List.Forall₂ (fun e' e => e'.1 = e.1 ∧ (e'.2 = e.2 → Plain e)) es' es := by
  induction h with
  | nil => exact .nil
  | @cons e' e es' es hreads htail ih =>
    have hle := keySize_le htail
    simp only [keySize, List.map_cons, List.sum_cons] at hsize hle ih
    have hhead := hreads.1
    exact .cons (hreads.2 (by omega)) (ih (by omega))

theorem parseLine_oneLine {tag tag' line : Text} {a : Option Entry} (h : parseLine tag line = some (tag',a))
    (htag : 10 ∉ tag) (hline : 10 ∉ line) : 10 ∉ tag' ∧ OneLine a.toList := by
  obtain ⟨t,ht,h⟩ := Option.bind_eq_some_iff.mp h
  have htl : 10 ∉ t := not_mem_of_trim ht hline
  split_ifs at h
  · obtain ⟨rfl,rfl⟩ := Prod.mk.inj (Option.some.inj h)
    exact ⟨htag,by simp [OneLine]⟩
  · obtain ⟨t',ht',h⟩ := Option.map_eq_some_iff.mp h
    obtain ⟨rfl,rfl⟩ := Prod.mk.inj h
    refine ⟨not_mem_of_trim ht' fun hmem => htl ?_,by simp [OneLine]⟩
    exact List.mem_of_mem_drop (List.mem_of_mem_take hmem)
  · obtain ⟨symbol,hsymbol,h⟩ := Option.bind_eq_some_iff.mp h
    obtain ⟨value,hvalue,h⟩ := Option.map_eq_some_iff.mp h
    obtain ⟨rfl,rfl⟩ := Prod.mk.inj h
    have hsym : 10 ∉ tag ++ 46 :: t.takeWhile (· ≠ 61) := by
      intro hmem
      obtain hmem | hmem := List.mem_append.mp hmem
      · exact htag hmem
      · obtain hmem | hmem := List.mem_cons.mp hmem
        · exact absurd hmem (by decide)
        · exact htl ((List.takeWhile_sublist _).subset hmem)
    have hval : 10 ∉ (t.dropWhile (· ≠ 61)).drop 1 := fun hmem =>
      htl ((List.dropWhile_sublist _).subset (List.mem_of_mem_drop hmem))
    simpa [OneLine] using And.intro htag ⟨not_mem_of_trim hsymbol hsym,not_mem_of_trim hvalue hval⟩

theorem parseLines_oneLine {tag : Text} {ls : List Text} {es : List Entry} (h : parseLines tag ls = some es)
    (htag : 10 ∉ tag) (hls : ∀ l ∈ ls, 10 ∉ l) : OneLine es := by
  induction ls generalizing tag es with
  | nil =>
    obtain rfl := Option.some.inj h
    simp [OneLine]
  | cons l ls ih =>
    obtain ⟨⟨tag',a⟩,ha,h⟩ := Option.bind_eq_some_iff.mp h
    obtain ⟨es₁,hes₁,rfl⟩ := Option.map_eq_some_iff.mp h
    obtain ⟨htag',hone⟩ := parseLine_oneLine ha htag (hls l (.head _))
    have hrest := ih hes₁ htag' fun l' hl' => hls l' (.tail _ hl')
    intro e he
    obtain he | he := List.mem_append.mp he
    · exact hone e he
    · exact hrest e he

theorem parseLines_append_idle {tail : List Text} (h : ∀ l ∈ tail, ∀ tag, parseLine tag l = some (tag,none))
    (tag : Text) (ls : List Text) : parseLines tag (ls ++ tail) = parseLines tag ls := by
  induction ls generalizing tag with
  | nil =>
    rw [List.nil_append]
    induction tail with
    | nil => rfl
    | cons l tail ih =>
      have htail := ih fun l' hl' => h l' (.tail _ hl')
      simp [parseLines, h l (.head _) tag, htail]
  | cons l ls ih =>
    rw [List.cons_append, parseLines, parseLines]
    congr 1
    funext r
    rw [ih]

/-- The header and the footer are comments. -/
theorem parse_dump {m m' : Mini} {ls : List Text} (hls : dumpLines [] m.entries = some ls)
    (hone : OneLine m.entries) :
    (m.dump header footer).bind m'.parse = (parseLines [] ls).map (List.foldl set m') := by
  have hdump : m.dump header footer =
      some (((header ++ [13]) :: (ls ++ [[13],footer ++ [13]])).flatMap (· ++ [10])) := by
    rw [dump, dumpEntries_eq, hls, if_neg (by decide), if_neg (by decide)]
    simp
  have hheader : ∀ tag, parseLine tag (header ++ [13]) = some (tag,none) :=
    parseLine_idle header (by rw [trim_return]; decide) (.inr (.inl (by decide)))
  have hfooter : ∀ tag, parseLine tag (footer ++ [13]) = some (tag,none) :=
    parseLine_idle footer (by rw [trim_return]; decide) (.inr (.inl (by decide)))
  have hlines : ∀ l ∈ (header ++ [13]) :: (ls ++ [[13],footer ++ [13]]), l ≠ [] ∧ 10 ∉ l := by
    have hmem := mem_dumpLines hls hone
    intro l hl
    simp only [List.mem_cons, List.mem_append, List.not_mem_nil, or_false] at hl
    obtain rfl | hl | rfl | rfl := hl
    · decide
    · exact hmem l hl
    · decide
    · decide
  have hidle : ∀ l ∈ [[13],footer ++ [13]], ∀ tag, parseLine tag l = some (tag,none) := by
    intro l hl
    obtain rfl | rfl : l = [13] ∨ l = footer ++ [13] := by simpa using hl
    · exact parseLine_idle [] rfl (.inl rfl)
    · exact hfooter
  rw [hdump, Option.bind_some, parse, tokenize_lines hlines, parseLines, hheader, Option.bind_some,
    parseLines_append_idle hidle]
  simp

/-- What is dumped and parsed again is the same map exactly when all its entries are plain. -/
theorem parse_dump_iff (m : Mini) :
    (m.dump header footer).bind empty.parse = some m ↔ ∀ e ∈ m.entries, Plain e := by
  constructor
  · intro h
    have hone : OneLine m.entries := by
      obtain ⟨s,-,hs⟩ := Option.bind_eq_some_iff.mp h
      obtain ⟨es,hes,rfl⟩ := Option.map_eq_some_iff.mp hs
      have hall := parseLines_oneLine hes (by simp) fun l hl => (mem_tokenize hl (by simp)).2
      intro e he
      obtain he | he := mem_foldl_set he
      · cases he
      · exact hall e he
    have hls : ∃ ls, dumpLines [] m.entries = some ls := by
      obtain ⟨s,hs,-⟩ := Option.bind_eq_some_iff.mp h
      obtain ⟨t,ht,-⟩ := Option.map_eq_some_iff.mp hs
      rw [dumpEntries_eq] at ht
      obtain ⟨ls,hls,-⟩ := Option.map_eq_some_iff.mp ht
      exact ⟨ls,hls⟩
    obtain ⟨ls,hls⟩ := hls
    rw [parse_dump hls hone] at h
    obtain ⟨es,hes,hm⟩ := Option.map_eq_some_iff.mp h
    have hle := length_parseLines_le hls hes
    have hge := length_foldl_set_le es empty
    rw [hm] at hge
    have hreads := reads_parseLines hls hes rfl hone (by simpa [empty] using hge)
    -- the keys are those of the assignments in some order, so that none of them is shorter
    have hkeys : (m.entries.map (·.1)).Perm (es.map (·.1)) := by
      have hnodup : (m.entries.map (·.1)).Nodup := by
        refine (List.pairwise_map.mpr m.sorted).imp ?_
        rintro a _ hlt rfl
        exact List.lt_irrefl a hlt
      refine (List.subperm_of_subset hnodup fun k hk => ?_).perm_of_length_le (by simpa using hle)
      obtain ⟨e,he,rfl⟩ := List.mem_map.mp hk
      rw [← hm] at he
      obtain he | he := mem_foldl_set he
      · cases he
      · exact List.mem_map.mpr ⟨e,he,rfl⟩
    have hsize : keySize m.entries = keySize es := by
      have hsum := (hkeys.map List.length).sum_nat
      simpa [keySize, Function.comp_def] using hsum
    have hkept := kept_of_keySize hreads hsize.le
    have hsame : es.map (·.1) = m.entries.map (·.1) := by
      rw [← List.forall₂_eq_eq_eq, List.forall₂_map_left_iff, List.forall₂_map_right_iff]
      exact hkept.imp fun _ _ h => h.1
    have hsorted : es.Pairwise (·.1 < ·.1) := by
      have hmap := List.pairwise_map.mpr m.sorted
      rw [← hsame] at hmap
      exact List.pairwise_map.mp hmap
    have hentries : m.entries = es := by
      rw [← hm, entries_foldl_set (by simpa [empty] using hsorted)]
      rfl
    rw [hentries] at hkept ⊢
    exact fun e he => (List.forall₂_same.mp hkept e he).2 rfl
  · intro h
    obtain ⟨ls,hls,hes⟩ := parseLines_dumpLines [] h
    have hone : OneLine m.entries := by
      intro e he
      obtain ⟨tag,name,hkey,hline⟩ := h e he
      refine ⟨?_,hline.newline.2.2⟩
      rw [hkey]
      simp [hline.newline.1, hline.newline.2.1]
    rw [parse_dump hls hone, hes, Option.map_some]
    exact congrArg some (Mini.ext (entries_foldl_set m.sorted))

end Mini
end OctCommu.Util
