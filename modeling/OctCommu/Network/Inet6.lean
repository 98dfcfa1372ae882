import OctCommu.Network.DottedQuad
import Mathlib.Data.List.TakeWhile

/-! # The texts of IPv6 addresses

`inet_pton6` reads groups of hexadecimal digits, one gap, and a dotted address at the end,
and moves what stands behind the gap by hand. It accepts what the grammar derives.
`uv_inet_pton` hands it a null pointer for a text without a zone.
-/
namespace OctCommu.Network.Inet6
open SockUtil

/-- The place of `ch` in `xdigits_l` or `xdigits_u`. -/
def xdigit (ch : UInt8) : Option ℕ :=
  if 48 ≤ ch.toNat ∧ ch.toNat ≤ 57 then some (ch.toNat - 48)
  else if 97 ≤ ch.toNat ∧ ch.toNat ≤ 102 then some (ch.toNat - 87)
  else if 65 ≤ ch.toNat ∧ ch.toNat ≤ 70 then some (ch.toNat - 55)
  else none

/-- The locals of `inet_pton6`: the bytes in front of `tp`, behind which `tmp` is zero. -/
structure Pton6 where
  tmp : List UInt8
  colonp : Option ℕ
  curtok : Text
  seen_xdigits : ℕ
  val : ℕ

def Pton6.push (s : Pton6) : Option Pton6 :=
  if 16 < s.tmp.length + 2 then none
  else some { s with
    tmp := s.tmp ++ [UInt8.ofNat (s.val / 256),UInt8.ofNat s.val]
    seen_xdigits := 0
    val := 0 }

def inet_pton6_loop (s : Pton6) : Text → Option Pton6
  | [] => some s
  | ch :: src =>
    match xdigit ch with
    | some d =>
      if 4 < s.seen_xdigits + 1 then none
      else inet_pton6_loop { s with val := s.val * 16 + d, seen_xdigits := s.seen_xdigits + 1 } src
    | none =>
      if ch = 58 then
        if s.seen_xdigits = 0 then
          if s.colonp.isSome then none
          else inet_pton6_loop { s with colonp := some s.tmp.length, curtok := src } src
        else if src = [] then none
        else s.push.bind fun s => inet_pton6_loop { s with curtok := src } src
      else if ch = 46 ∧ s.tmp.length + 4 ≤ 16 then
        (inet_pton4 s.curtok).map fun addr => { s with tmp := s.tmp ++ addr, seen_xdigits := 0 }
      else none

/-- The `n` bytes from `colonp` on are moved to the end one by one, the last one first. -/
def shift (tmp : List UInt8) (colonp n : ℕ) : List UInt8 :=
  (List.range n).foldl
    (fun tmp i => (tmp.set (16 - (i + 1)) (tmp.getD (colonp + (n - (i + 1))) 0)).set (colonp + (n - (i + 1))) 0) tmp

def inet_pton6 (src : Text) : Option (List UInt8) :=
  (match c_str src with
    | 58 :: src => if src.head? = some 58 then some src else none
    | src => some src).bind fun src =>
  (inet_pton6_loop ⟨[],none,src,0,0⟩ src).bind fun s =>
  (if s.seen_xdigits = 0 then some s else s.push).bind fun s =>
    match s.colonp with
    | some colonp =>
      if s.tmp.length = 16 then none
      else some (shift (s.tmp ++ List.replicate (16 - s.tmp.length) 0) colonp (s.tmp.length - colonp))
    | none => if s.tmp.length = 16 then some s.tmp else none

/-- What `uv_inet_pton` does with an `AF_INET6` text; the outer `none` reads through a null pointer. -/
def uv_inet_pton6 (src : Text) : Option (Option (List UInt8)) :=
  if 37 ∈ c_str src then
    let s := (c_str src).takeWhile (· ≠ 37)
    some (if 45 < s.length then none else inet_pton6 s)
  else none

/-- One to four hexadecimal digits. -/
structure HexGroup (str : Text) : Prop where
  nonempty : str ≠ []
  digits : ∀ ch ∈ str, (xdigit ch).isSome
  length : str.length ≤ 4

def hexValue (str : Text) : ℕ := str.foldl (fun n ch => n * 16 + (xdigit ch).getD 0) 0

def groupBytes (str : Text) : List UInt8 := [UInt8.ofNat (hexValue str / 256),UInt8.ofNat (hexValue str)]

/-- Groups with single colons between them, perhaps none. -/
def Groups (str : Text) (addr : List UInt8) : Prop :=
  ∃ parts, (∀ p ∈ parts, HexGroup p) ∧ str = [58].intercalate parts ∧ addr = parts.flatMap groupBytes

/-- Groups of which the last may be a dotted address for two. -/
def Tail (str : Text) (addr : List UInt8) : Prop :=
  Groups str addr ∨ ∃ parts quad bytes, (∀ p ∈ parts, HexGroup p) ∧ DottedQuad quad bytes ∧
    str = [58].intercalate (parts ++ [quad]) ∧ addr = parts.flatMap groupBytes ++ bytes

/-- Sixteen bytes of groups, or fewer with a gap of two colons for the zeros that are missing. -/
def Address (str : Text) (addr : List UInt8) : Prop :=
  (Tail str addr ∧ addr.length = 16) ∨
  ∃ left right before after, Groups left before ∧ Tail right after ∧ before.length + after.length < 16 ∧
    str = left ++ 58 :: 58 :: right ∧
    addr = before ++ List.replicate (16 - (before.length + after.length)) 0 ++ after

theorem shift_step (front back : List UInt8) (x : UInt8) (z : ℕ) :
    ((front ++ x :: (List.replicate z 0 ++ 0 :: back)).set (front.length + (z + 1)) x).set front.length 0 =
      front ++ (List.replicate (z + 1) 0 ++ x :: back) := by
  have hset : (List.replicate z 0 ++ 0 :: back).set z x = List.replicate z 0 ++ x :: back := by
    rw [List.set_append_right z x (by simp), List.length_replicate, Nat.sub_self, List.set_cons_zero]
  rw [List.set_append_right _ _ (Nat.le_add_right _ _), Nat.add_sub_cancel_left, List.set_cons_succ, hset,
    List.set_append_right _ _ le_rfl, Nat.sub_self, List.set_cons_zero]
  rfl

/-- Moving by hand does not lose what it overwrites. -/
theorem shift_eq {tmp : List UInt8} {colonp n : ℕ} (hlen : tmp.length = colonp + n) (hlt : tmp.length < 16) :
    shift (tmp ++ List.replicate (16 - tmp.length) 0) colonp n =
      tmp.take colonp ++ List.replicate (16 - tmp.length) 0 ++ tmp.drop colonp := by
  have hmoved : ∀ j ≤ n, (List.range j).foldl
      (fun tmp i => (tmp.set (16 - (i + 1)) (tmp.getD (colonp + (n - (i + 1))) 0)).set (colonp + (n - (i + 1))) 0)
      (tmp ++ List.replicate (16 - tmp.length) 0) =
        tmp.take (colonp + (n - j)) ++ (List.replicate (16 - tmp.length) 0 ++ tmp.drop (colonp + (n - j))) := by
    intro j hj
    induction j with
    | zero =>
      rw [Nat.sub_zero, ← hlen, List.take_length, List.drop_length, List.append_nil]
      rfl
    | succ j ih =>
      have hpos : colonp + (n - (j + 1)) < tmp.length := by omega
      obtain ⟨front,x,back,htmp,hfront⟩ : ∃ front x back, tmp = front ++ x :: back ∧
          front.length = colonp + (n - (j + 1)) := by
        have happend := List.take_append_drop (colonp + (n - (j + 1))) tmp
        rw [List.drop_eq_getElem_cons hpos] at happend
        exact ⟨_,_,_,happend.symm,List.length_take_of_le (Nat.le_of_lt hpos)⟩
      obtain ⟨z,hz⟩ : ∃ z, 16 - tmp.length = z + 1 := ⟨15 - tmp.length,by omega⟩
      have hnext : colonp + (n - j) = front.length + 1 := by omega
      have hlast : 16 - (j + 1) = front.length + (z + 1) := by omega
      have htake : tmp.take (front.length + 1) = front ++ [x] := by
        rw [htmp, List.take_length_add_append]
        rfl
      have hdrop : tmp.drop (front.length + 1) = back := by
        rw [htmp, List.drop_length_add_append]
        rfl
      have hfirst : tmp.take front.length = front := by rw [htmp, List.take_left]
      have hrest : tmp.drop front.length = x :: back := by rw [htmp, List.drop_left]
      rw [List.range_succ, List.foldl_append, ih (by omega), List.foldl_cons, List.foldl_nil, hnext, hlast,
        ← hfront, htake, hdrop, hfirst, hrest, hz, ← shift_step front back x z, List.replicate_succ', List.append_assoc,
        List.append_assoc]
      congr 2
      simp
  have hall := hmoved n le_rfl
  rw [Nat.sub_self, Nat.add_zero, ← List.append_assoc] at hall
  exact hall

/-- Both ends of a run of `inet_pton6` from the beginning of a token: the gap and the bytes. -/
def read (colonp : Option ℕ) (tmp : List UInt8) (src : Text) : Option (Option ℕ × List UInt8) :=
  ((inet_pton6_loop ⟨tmp,colonp,src,0,0⟩ src).bind fun s => if s.seen_xdigits = 0 then some s else s.push).map
    fun s => (s.colonp,s.tmp)

variable {colonp : Option ℕ} {tmp addr : List UInt8} {str src ds : Text} {ch : UInt8}

theorem loop_digits {s : Pton6} (hds : ∀ ch ∈ ds, (xdigit ch).isSome) (hseen : s.seen_xdigits ≤ 4) :
    inet_pton6_loop s (ds ++ src) = if 4 < s.seen_xdigits + ds.length then none
      else inet_pton6_loop { s with
        val := ds.foldl (fun n ch => n * 16 + (xdigit ch).getD 0) s.val
        seen_xdigits := s.seen_xdigits + ds.length } src := by
  induction ds generalizing s with
  | nil => rw [if_neg (by simpa using hseen)]; rfl
  | cons ch ds ih =>
    obtain ⟨d,hd⟩ := Option.isSome_iff_exists.mp (hds ch List.mem_cons_self)
    have hrest : ∀ ch ∈ ds, (xdigit ch).isSome := fun c hc => hds c (List.mem_cons_of_mem ch hc)
    rw [List.cons_append, inet_pton6_loop]
    simp only [hd, List.length_cons, List.foldl_cons, Option.getD_some]
    by_cases hfull : 4 < s.seen_xdigits + 1
    · rw [if_pos hfull, if_pos (by omega)]
    · rw [if_neg hfull, ih hrest (by simp only; omega)]
      simp only [Nat.add_assoc, Nat.add_comm 1]

theorem read_digits (hds : ∀ ch ∈ ds, (xdigit ch).isSome) (hlen : 4 < ds.length) :
    read colonp tmp (ds ++ src) = none := by
  rw [read, loop_digits hds (Nat.zero_le 4), if_pos (by omega)]
  rfl

theorem read_nil : read colonp tmp [] = some (colonp,tmp) := rfl

theorem loop_group (hds : HexGroup ds) :
    inet_pton6_loop ⟨tmp,colonp,str,0,0⟩ (ds ++ src) =
      inet_pton6_loop ⟨tmp,colonp,str,ds.length,hexValue ds⟩ src := by
  have hlen := hds.length
  rw [loop_digits hds.digits (Nat.zero_le 4), if_neg (by rw [Nat.zero_add]; omega), Nat.zero_add]
  rfl

theorem push_group (s : Pton6) (hval : s.val = hexValue ds) (hfits : s.tmp.length + 2 ≤ 16) :
    s.push = some ⟨s.tmp ++ groupBytes ds,s.colonp,s.curtok,0,0⟩ := by
  rw [Pton6.push, if_neg (by omega), hval]
  rfl

theorem push_full (s : Pton6) (hfull : 16 < s.tmp.length + 2) : s.push = none := if_pos hfull

theorem read_group (hds : HexGroup ds) :
    read colonp tmp ds = if tmp.length + 2 ≤ 16 then some (colonp,tmp ++ groupBytes ds) else none := by
  have hpos := List.length_pos_of_ne_nil hds.nonempty
  have hloop : inet_pton6_loop ⟨tmp,colonp,ds,0,0⟩ (ds ++ []) = _ := loop_group hds
  rw [List.append_nil, inet_pton6_loop] at hloop
  rw [read, hloop, Option.bind_some, if_neg (by simp only; omega)]
  split
  · rename_i hfits
    rw [push_group _ rfl hfits]
    rfl
  · rw [push_full _ (by simp only; omega)]
    rfl

theorem read_colon (hds : HexGroup ds) : read colonp tmp (ds ++ 58 :: src) =
    if src ≠ [] ∧ tmp.length + 2 ≤ 16 then read colonp (tmp ++ groupBytes ds) src else none := by
  have hpos := List.length_pos_of_ne_nil hds.nonempty
  have hx : xdigit 58 = none := rfl
  rw [read, loop_group hds, inet_pton6_loop]
  simp only [hx, if_true]
  rw [if_neg (by omega)]
  by_cases hsrc : src = []
  · rw [if_pos hsrc, if_neg (by simp [hsrc])]
    rfl
  · rw [if_neg hsrc]
    by_cases hfits : tmp.length + 2 ≤ 16
    · rw [push_group _ rfl hfits, if_pos ⟨hsrc,hfits⟩]
      rfl
    · rw [push_full _ (by simp only; omega), if_neg (by simp [hfits])]
      rfl

theorem read_dot (hds : ∀ ch ∈ ds, (xdigit ch).isSome) (hlen : ds.length ≤ 4) :
    read colonp tmp (ds ++ 46 :: src) = if tmp.length + 4 ≤ 16 then
      (inet_pton4 (ds ++ 46 :: src)).map fun addr => (colonp,tmp ++ addr) else none := by
  have hx : xdigit 46 = none := rfl
  rw [read, loop_digits hds (Nat.zero_le 4), if_neg (by rw [Nat.zero_add]; omega), inet_pton6_loop]
  simp only [hx, if_neg (show ¬(46 : UInt8) = 58 by decide), true_and]
  split
  · cases inet_pton4 (ds ++ 46 :: src) <;> rfl
  · rfl

theorem read_other (hds : ∀ ch ∈ ds, (xdigit ch).isSome) (hlen : ds.length ≤ 4) (hx : xdigit ch = none)
    (hcolon : ch ≠ 58) (hdot : ch ≠ 46) : read colonp tmp (ds ++ ch :: src) = none := by
  rw [read, loop_digits hds (Nat.zero_le 4), if_neg (by rw [Nat.zero_add]; omega), inet_pton6_loop]
  simp only [hx, if_neg hcolon, hdot, false_and, if_false]
  rfl

theorem read_gap : read colonp tmp (58 :: src) =
    if colonp.isSome then none else read (some tmp.length) tmp src := by
  rw [read, inet_pton6_loop]
  split
  · rename_i d hd
    cases hd
  · simp only [if_true]
    split
    · rfl
    · rfl

theorem intercalate_cons {parts : List Text} (hne : parts ≠ []) :
    [58].intercalate (str :: parts) = str ++ 58 :: [58].intercalate parts := by
  cases parts with
  | nil => exact absurd rfl hne
  | cons part parts => simp [List.intercalate]

theorem intercalate_ne_nil {parts : List Text} (hne : parts ≠ []) (hparts : ∀ p ∈ parts, p ≠ []) :
    [58].intercalate parts ≠ [] := by
  cases parts with
  | nil => exact absurd rfl hne
  | cons part parts =>
    cases parts with
    | nil => simpa [List.intercalate] using hparts part List.mem_cons_self
    | cons q parts => simp [List.intercalate]

theorem Groups.nil : Groups [] [] := ⟨[],fun _ h => absurd h List.not_mem_nil,rfl,rfl⟩

theorem Groups.cons (hds : HexGroup ds) (h : Groups src addr) (hne : src ≠ []) :
    Groups (ds ++ 58 :: src) (groupBytes ds ++ addr) := by
  obtain ⟨parts,hparts,rfl,rfl⟩ := h
  have hcons : parts ≠ [] := by
    rintro rfl
    exact hne rfl
  exact ⟨ds :: parts,List.forall_mem_cons.mpr ⟨hds,hparts⟩,(intercalate_cons hcons).symm,rfl⟩

theorem Groups.single (hds : HexGroup ds) : Groups ds (groupBytes ds) :=
  ⟨[ds],by simpa using hds,by simp [List.intercalate],by simp⟩

theorem Tail.cons (hds : HexGroup ds) (h : Tail src addr) (hne : src ≠ []) :
    Tail (ds ++ 58 :: src) (groupBytes ds ++ addr) := by
  rcases h with h | ⟨parts,quad,bytes,hparts,hquad,rfl,rfl⟩
  · exact Or.inl (h.cons hds hne)
  · refine Or.inr ⟨ds :: parts,quad,bytes,List.forall_mem_cons.mpr ⟨hds,hparts⟩,hquad,?_,?_⟩
    · rw [List.cons_append, intercalate_cons (by simp)]
    · rw [List.flatMap_cons, List.append_assoc]

/-- The groups in front of the gap, each with its colon. -/
def Lefts (str : Text) (addr : List UInt8) : Prop :=
  (str = [] ∧ addr = []) ∨ ∃ left, left ≠ [] ∧ Groups left addr ∧ str = left ++ [58]

theorem Lefts.cons (hds : HexGroup ds) (h : Lefts src addr) : Lefts (ds ++ 58 :: src) (groupBytes ds ++ addr) := by
  rcases h with ⟨rfl,rfl⟩ | ⟨left,hne,h,rfl⟩
  · exact Or.inr ⟨ds,hds.nonempty,by simpa using Groups.single hds,rfl⟩
  · exact Or.inr ⟨ds ++ 58 :: left,by simp,h.cons hds hne,by simp⟩

/-- What a run from the beginning of a token makes of a text. -/
def Reads (colonp : Option ℕ) (tmp : List UInt8) (src : Text) (r : Option ℕ × List UInt8) : Prop :=
  (∃ addr, Tail src addr ∧ r = (colonp,tmp ++ addr)) ∨
  (colonp = none ∧ ∃ left right before after, Lefts left before ∧ Tail right after ∧
    src = left ++ 58 :: right ∧ r = (some (tmp.length + before.length),tmp ++ before ++ after))

theorem Reads.colon {r : Option ℕ × List UInt8} (hds : HexGroup ds) (hne : src ≠ [])
    (h : Reads colonp (tmp ++ groupBytes ds) src r) : Reads colonp tmp (ds ++ 58 :: src) r := by
  rcases h with ⟨addr,htail,rfl⟩ | ⟨hcolonp,left,right,before,after,hleft,hright,rfl,rfl⟩
  · exact Or.inl ⟨_,htail.cons hds hne,by rw [List.append_assoc]⟩
  · refine Or.inr ⟨hcolonp,_,right,_,after,hleft.cons hds,hright,by simp,?_⟩
    rw [List.length_append, List.length_append, Nat.add_assoc, List.append_assoc tmp]

theorem exists_digits (src : Text) : ∃ ds rest, src = ds ++ rest ∧ (∀ ch ∈ ds, (xdigit ch).isSome) ∧
    ∀ ch ∈ rest.head?, xdigit ch = none := by
  induction src with
  | nil => exact ⟨[],[],rfl,fun _ h => absurd h List.not_mem_nil,fun _ h => (by cases h)⟩
  | cons ch src ih =>
    cases hx : xdigit ch with
    | none =>
      refine ⟨[],ch :: src,rfl,fun _ h => absurd h List.not_mem_nil,?_⟩
      intro c hc
      cases hc
      exact hx
    | some d =>
      obtain ⟨ds,rest,rfl,hds,hrest⟩ := ih
      exact ⟨ch :: ds,rest,rfl,List.forall_mem_cons.mpr ⟨by rw [hx]; rfl,hds⟩,hrest⟩

theorem read_sound {r : Option ℕ × List UInt8} (hzero : ∀ x ∈ src, x ≠ 0) (htmp : tmp.length ≤ 16)
    (h : read colonp tmp src = some r) : Reads colonp tmp src r ∧ r.2.length ≤ 16 := by
  induction hn : src.length using Nat.strong_induction_on generalizing src tmp colonp with
  | _ n ih =>
    obtain ⟨ds,rest,rfl,hds,hrest⟩ := exists_digits src
    by_cases hlen : 4 < ds.length
    · rw [read_digits hds hlen] at h
      cases h
    cases rest with
    | nil =>
      rw [List.append_nil] at h ⊢
      by_cases hnil : ds = []
      · subst hnil
        cases h
        exact ⟨Or.inl ⟨[],Or.inl Groups.nil,by rw [List.append_nil]⟩,htmp⟩
      · rw [read_group ⟨hnil,hds,by omega⟩] at h
        split at h
        · rename_i hfits
          cases h
          exact ⟨Or.inl ⟨_,Or.inl (Groups.single ⟨hnil,hds,by omega⟩),rfl⟩,by simpa [groupBytes] using hfits⟩
        · cases h
    | cons ch src =>
      have hx : xdigit ch = none := hrest ch rfl
      have hzeros : ∀ x ∈ src, x ≠ 0 := fun x hx => hzero x (by simp [hx])
      have hshorter : src.length < n := by
        rw [← hn, List.length_append, List.length_cons]
        omega
      by_cases hcolon : ch = 58
      · subst hcolon
        by_cases hnil : ds = []
        · subst hnil
          rw [List.nil_append, read_gap] at h
          split at h
          · cases h
          · rename_i hnone
            obtain ⟨hreads,hbound⟩ := ih _ hshorter hzeros htmp h rfl
            refine ⟨?_,hbound⟩
            rcases hreads with ⟨addr,htail,rfl⟩ | ⟨hc,_⟩
            · refine Or.inr ⟨by simpa using hnone,[],src,[],addr,Or.inl ⟨rfl,rfl⟩,htail,rfl,?_⟩
              rw [List.length_nil, Nat.add_zero, List.append_nil]
            · cases hc
        · have hgroup : HexGroup ds := ⟨hnil,hds,by omega⟩
          rw [read_colon hgroup] at h
          split at h
          · rename_i hfits
            obtain ⟨hreads,hbound⟩ := ih _ hshorter hzeros (by simpa [groupBytes] using hfits.2) h rfl
            exact ⟨hreads.colon hgroup hfits.1,hbound⟩
          · cases h
      · by_cases hdot : ch = 46
        · subst hdot
          rw [read_dot hds (by omega)] at h
          split at h
          · rename_i hfits
            obtain ⟨addr,haddr,rfl⟩ := Option.map_eq_some_iff.mp h
            have hquad := (inet_pton4_eq_some_iff hzero).mp haddr
            obtain ⟨_,_,hfour,_⟩ := id hquad
            refine ⟨Or.inl ⟨addr,Or.inr ⟨[],_,addr,fun _ h => absurd h List.not_mem_nil,hquad,?_,rfl⟩,rfl⟩,?_⟩
            · simp [List.intercalate]
            · rw [List.length_append, hfour]
              exact hfits
          · cases h
        · rw [read_other hds (by omega) hx hcolon hdot] at h
          cases h

theorem read_parts {parts : List Text} (hparts : ∀ p ∈ parts, HexGroup p) (hne : src ≠ [])
    (hfits : tmp.length + (parts.flatMap groupBytes).length ≤ 16) :
    read colonp tmp ([58].intercalate (parts ++ [src])) = read colonp (tmp ++ parts.flatMap groupBytes) src := by
  induction parts generalizing tmp with
  | nil => simp [List.intercalate]
  | cons p parts ih =>
    obtain ⟨hp,hparts⟩ := List.forall_mem_cons.mp hparts
    have hrest : [58].intercalate (parts ++ [src]) ≠ [] := by
      apply intercalate_ne_nil (by simp)
      intro q hq
      rcases List.mem_append.mp hq with hq | hq
      · exact (hparts q hq).nonempty
      · exact (List.mem_singleton.mp hq) ▸ hne
    have hlen : (tmp ++ groupBytes p).length = tmp.length + 2 := by simp [groupBytes]
    have hpair : (groupBytes p).length = 2 := rfl
    rw [List.flatMap_cons, List.length_append, hpair] at hfits
    rw [List.cons_append, intercalate_cons (by simp), read_colon hp, if_pos ⟨hrest,by omega⟩,
      ih hparts (by rw [hlen]; omega), List.flatMap_cons, List.append_assoc]

theorem isSome_xdigit (h : IsDigit ch) : (xdigit ch).isSome := by
  have hx : xdigit ch = some (ch.toNat - 48) := if_pos h
  rw [hx]
  rfl

theorem ne_colon (h : (xdigit ch).isSome) : ch ≠ 58 := by
  rintro rfl
  cases h

/-- A dotted address begins with up to three digits and a dot. -/
theorem quad_split (h : DottedQuad str addr) : ∃ ds src, str = ds ++ 46 :: src ∧ ds ≠ [] ∧
    (∀ ch ∈ ds, (xdigit ch).isSome) ∧ ds.length ≤ 4 := by
  obtain ⟨parts,hparts,hlen,rfl⟩ := h
  cases hparts with
  | nil => cases hlen
  | cons hoctet hparts =>
    rename_i p b parts bytes
    cases hparts with
    | nil => cases hlen
    | cons hnext hparts =>
      refine ⟨p,_,by simp only [List.intercalate]; rfl,hoctet.nonempty,
        fun ch hch => isSome_xdigit (hoctet.digits ch hch),?_⟩
      rw [octet_iff.mp hoctet]
      unfold decimal
      split_ifs <;> simp

theorem read_tail (h : Tail src addr) (hfits : tmp.length + addr.length ≤ 16) :
    read colonp tmp src = some (colonp,tmp ++ addr) := by
  rcases h with ⟨parts,hparts,rfl,rfl⟩ | ⟨parts,quad,bytes,hparts,hquad,rfl,rfl⟩
  · rcases List.eq_nil_or_concat parts with rfl | ⟨parts,p,rfl⟩
    · simp [List.intercalate, read_nil]
    · rw [List.concat_eq_append] at hparts hfits ⊢
      have hp : HexGroup p := hparts p (by simp)
      rw [List.flatMap_append, List.length_append] at hfits
      have hpair : ([p].flatMap groupBytes).length = 2 := rfl
      rw [read_parts (fun q hq => hparts q (by simp [hq])) hp.nonempty (by omega), read_group hp,
        if_pos (by rw [List.length_append]; omega), List.flatMap_append, List.append_assoc]
      simp
  · rw [List.length_append] at hfits
    obtain ⟨ds,src,rfl,_,hds,hlen⟩ := quad_split hquad
    obtain ⟨hfour,hshown⟩ := dottedQuad_iff.mp hquad
    have haddr : inet_pton4 (ds ++ 46 :: src) = some bytes := by
      rw [hshown]
      exact inet_pton4_eq_some.mpr ⟨hfour,c_str_eq_self (inet_ntoa_ne_zero _)⟩
    rw [read_parts hparts (by simp) (by omega), read_dot hds hlen, if_pos (by rw [List.length_append]; omega), haddr,
      Option.map_some, List.append_assoc]

theorem intercalate_snoc {parts : List Text} (hne : parts ≠ []) (last : Text) :
    [58].intercalate (parts ++ [last]) = [58].intercalate parts ++ 58 :: last := by
  induction parts with
  | nil => exact absurd rfl hne
  | cons p parts ih =>
    cases parts with
    | nil => simp [List.intercalate]
    | cons q parts =>
      have hlast : [58].intercalate (p :: (q :: parts ++ [last])) =
          p ++ 58 :: [58].intercalate (q :: parts ++ [last]) := intercalate_cons (by simp)
      have hfirst : [58].intercalate (p :: q :: parts) = p ++ 58 :: [58].intercalate (q :: parts) :=
        intercalate_cons (by simp)
      rw [List.cons_append, hlast, ih (by simp), hfirst, List.append_assoc, List.cons_append]

/-- A text with a gap. -/
theorem read_left {left right : Text} {before after : List UInt8} (hleft : Groups left before) (hne : left ≠ [])
    (hright : Tail right after) (hfits : tmp.length + (before.length + after.length) ≤ 16) :
    read none tmp (left ++ 58 :: 58 :: right) =
      some (some (tmp.length + before.length),tmp ++ before ++ after) := by
  obtain ⟨parts,hparts,rfl,rfl⟩ := hleft
  have hcons : parts ≠ [] := by
    rintro rfl
    exact hne rfl
  rw [← intercalate_snoc hcons, read_parts hparts (by simp) (by omega), read_gap, if_neg (by simp),
    read_tail hright (by rw [List.length_append]; omega), List.length_append]

theorem head_intercalate {p : Text} (parts : List Text) (hp : p ≠ []) :
    ([58].intercalate (p :: parts)).head? = p.head? := by
  cases parts with
  | nil => simp [List.intercalate]
  | cons q parts => rw [intercalate_cons (by simp), List.head?_append_of_ne_nil _ hp]

theorem head_digits (hne : ds ≠ []) (hds : ∀ ch ∈ ds, (xdigit ch).isSome) : ds.head? ≠ some 58 := by
  cases ds with
  | nil => exact absurd rfl hne
  | cons ch ds =>
    intro h
    exact ne_colon (hds ch List.mem_cons_self) (Option.some.inj h)

theorem Tail.head (h : Tail str addr) : str.head? ≠ some 58 := by
  have hgroups : ∀ p parts, HexGroup p → ([58].intercalate (p :: parts)).head? ≠ some 58 := by
    intro p parts hp
    rw [head_intercalate parts hp.nonempty]
    exact head_digits hp.nonempty hp.digits
  rcases h with ⟨parts,hparts,rfl,rfl⟩ | ⟨parts,quad,bytes,hparts,hquad,rfl,rfl⟩
  · cases parts with
    | nil => exact fun h => by cases h
    | cons p parts => exact hgroups p parts (hparts p List.mem_cons_self)
  · cases parts with
    | nil =>
      obtain ⟨ds,src,rfl,hne,hds,_⟩ := quad_split hquad
      rw [List.nil_append, head_intercalate [] (by simp), List.head?_append_of_ne_nil _ hne]
      exact head_digits hne hds
    | cons p parts => exact hgroups p _ (hparts p List.mem_cons_self)

/-- How `inet_pton6` ends. -/
def finish (r : Option ℕ × List UInt8) : Option (List UInt8) :=
  match r.1 with
  | some colonp =>
    if r.2.length = 16 then none
    else some (shift (r.2 ++ List.replicate (16 - r.2.length) 0) colonp (r.2.length - colonp))
  | none => if r.2.length = 16 then some r.2 else none

theorem inet_pton6_eq (hzero : ∀ x ∈ str, x ≠ 0) : inet_pton6 str =
    (match str with
      | 58 :: src => if src.head? = some 58 then some src else none
      | src => some src).bind fun src => (read none [] src).bind finish := by
  rw [inet_pton6, c_str_eq_self hzero]
  congr 1
  funext src
  unfold read
  cases inet_pton6_loop ⟨[],none,src,0,0⟩ src with
  | none => rfl
  | some s =>
    rw [Option.bind_some, Option.bind_some]
    cases (if s.seen_xdigits = 0 then some s else s.push) <;> rfl

theorem finish_gap {before after : List UInt8} (hbound : before.length + after.length ≤ 16) :
    finish (some before.length,before ++ after) = some addr ↔ before.length + after.length < 16 ∧
      addr = before ++ List.replicate (16 - (before.length + after.length)) 0 ++ after := by
  have hlen : (before ++ after).length = before.length + after.length := List.length_append
  have hsub : (before ++ after).length - before.length = after.length := by omega
  by_cases hfull : before.length + after.length = 16
  · have hnone : finish (some before.length,before ++ after) = none := if_pos (hlen.trans hfull)
    rw [hnone]
    exact iff_of_false (by simp) fun h => absurd hfull (Nat.ne_of_lt h.1)
  · have hsome : finish (some before.length,before ++ after) = some _ := if_neg (by rw [hlen]; exact hfull)
    rw [hsome, hsub, shift_eq hlen (by omega), List.take_left, List.drop_left, hlen, Option.some.injEq]
    constructor
    · rintro rfl
      exact ⟨by omega,rfl⟩
    · exact fun h => h.2.symm

/-- A text that begins with the gap. -/
theorem read_right (hzero : ∀ x ∈ src, x ≠ 0) : (read none [] (58 :: src)).bind finish = some addr ↔
    ∃ after, Tail src after ∧ after.length < 16 ∧ addr = List.replicate (16 - after.length) 0 ++ after := by
  have hgap := @finish_gap addr [] 
  rw [read_gap, if_neg (by simp)]
  constructor
  · intro h
    obtain ⟨r,hread,hfinish⟩ := Option.bind_eq_some_iff.mp h
    obtain ⟨hreads,hbound⟩ := read_sound hzero (by simp) hread
    rcases hreads with ⟨after,htail,rfl⟩ | ⟨hnone,_⟩
    · have hfits : after.length ≤ 16 := hbound
      obtain ⟨hlt,rfl⟩ := (hgap (by simpa using hfits)).mp hfinish
      rw [List.length_nil, Nat.zero_add] at hlt ⊢
      exact ⟨after,htail,hlt,rfl⟩
    · cases hnone
  · rintro ⟨after,htail,hlt,rfl⟩
    rw [read_tail htail (by simp only [List.length_nil]; omega), Option.bind_some]
    exact (hgap (by simp only [List.length_nil]; omega)).mpr ⟨by simpa using hlt,by simp⟩

theorem start_eq : (match str with
      | 58 :: src => if src.head? = some 58 then some src else none
      | src => some src) = some src ↔
    (str.head? ≠ some 58 ∧ str = src) ∨ ∃ rest, src = 58 :: rest ∧ str = 58 :: src := by
  split
  · rename_i rest
    constructor
    · intro h
      split at h
      · rename_i hhead
        cases h
        obtain ⟨rest,rfl⟩ := List.head?_eq_some_iff.mp hhead
        exact Or.inr ⟨rest,rfl,rfl⟩
      · cases h
    · rintro (⟨hhead,_⟩ | ⟨rest,rfl,h⟩)
      · exact absurd rfl hhead
      · cases h
        rfl
  · rename_i hfirst
    constructor
    · intro h
      cases h
      refine Or.inl ⟨?_,rfl⟩
      intro hhead
      obtain ⟨rest,rfl⟩ := List.head?_eq_some_iff.mp hhead
      exact hfirst rest rfl
    · rintro (⟨_,rfl⟩ | ⟨rest,rfl,rfl⟩)
      · rfl
      · exact absurd rfl (hfirst _)

/-- `inet_pton6` accepts what the grammar derives, and nothing else. -/
theorem inet_pton6_iff (hzero : ∀ x ∈ str, x ≠ 0) : inet_pton6 str = some addr ↔ Address str addr := by
  rw [inet_pton6_eq hzero, Option.bind_eq_some_iff]
  constructor
  · rintro ⟨src,hstart,h⟩
    rcases start_eq.mp hstart with ⟨hhead,rfl⟩ | ⟨rest,rfl,rfl⟩
    · obtain ⟨r,hread,hfinish⟩ := Option.bind_eq_some_iff.mp h
      obtain ⟨hreads,hbound⟩ := read_sound hzero (by simp) hread
      rcases hreads with ⟨after,htail,rfl⟩ | ⟨_,left,right,before,after,hleft,hright,rfl,rfl⟩
      · simp only [finish, List.nil_append] at hfinish
        split at hfinish
        · rename_i hlen
          cases hfinish
          exact Or.inl ⟨htail,hlen⟩
        · cases hfinish
      · rcases hleft with ⟨rfl,rfl⟩ | ⟨left,hne,hleft,rfl⟩
        · exact absurd rfl hhead
        · rw [List.length_nil, Nat.zero_add, List.nil_append] at hfinish
          rw [List.nil_append, List.length_append] at hbound
          obtain ⟨hlt,rfl⟩ := (finish_gap hbound).mp hfinish
          exact Or.inr ⟨left,right,before,after,hleft,hright,hlt,by simp,rfl⟩
    · have hzeros : ∀ x ∈ rest, x ≠ 0 := fun x hx => hzero x (by simp [hx])
      obtain ⟨after,htail,hlt,rfl⟩ := (read_right hzeros).mp h
      exact Or.inr ⟨[],rest,[],after,Groups.nil,htail,by simpa using hlt,rfl,by simp⟩
  · rintro (⟨htail,hlen⟩ | ⟨left,right,before,after,hleft,hright,hlt,rfl,rfl⟩)
    · refine ⟨str,start_eq.mpr (Or.inl ⟨htail.head,rfl⟩),?_⟩
      rw [read_tail htail (by simp only [List.length_nil]; omega), Option.bind_some, List.nil_append]
      exact if_pos hlen
    · by_cases hne : left = []
      · subst hne
        obtain ⟨parts,hparts,hleft,rfl⟩ := hleft
        have hnil : parts = [] := by
          by_contra hcons
          exact intercalate_ne_nil hcons (fun p hp => (hparts p hp).nonempty) hleft.symm
        subst hnil
        have hzeros : ∀ x ∈ right, x ≠ 0 := fun x hx => hzero x (by simp [hx])
        exact ⟨58 :: right,start_eq.mpr (Or.inr ⟨right,rfl,rfl⟩),
          (read_right hzeros).mpr ⟨after,hright,by simpa using hlt,by simp⟩⟩
      · have hhead : (left ++ 58 :: 58 :: right).head? ≠ some 58 := by
          rw [List.head?_append_of_ne_nil _ hne]
          exact Tail.head (Or.inl hleft)
        refine ⟨_,start_eq.mpr (Or.inl ⟨hhead,rfl⟩),?_⟩
        rw [read_left hleft hne hright (by simp only [List.length_nil]; omega), Option.bind_some, List.length_nil,
          Nat.zero_add, List.nil_append]
        exact (finish_gap (Nat.le_of_lt hlt)).mpr ⟨hlt,rfl⟩

theorem takeWhile_zone {ip : Text} (zone : Text) (hip : 37 ∉ ip) :
    (ip ++ 37 :: zone).takeWhile (· ≠ 37) = ip := by
  have hne : ∀ ch ∈ ip, decide (ch ≠ 37) = true := by
    intro ch hch
    exact decide_eq_true fun heq => hip (heq ▸ hch)
  rw [List.takeWhile_append_of_pos hne, List.takeWhile_cons_of_neg (by simp), List.append_nil]

/-- An `AF_INET6` text is read only in front of a zone, and then as the grammar has it; without a zone
the call goes through a null pointer. -/
theorem uv_inet_pton6_iff (src : Text) (addr : List UInt8) :
    (uv_inet_pton6 src = none ↔ 37 ∉ c_str src) ∧
    (uv_inet_pton6 src = some (some addr) ↔
      ∃ ip zone, c_str src = ip ++ 37 :: zone ∧ 37 ∉ ip ∧ ip.length ≤ 45 ∧ Address ip addr) := by
  have hzero : ∀ x ∈ c_str src, x ≠ 0 := by
    intro x hx
    simpa using List.mem_takeWhile_imp hx
  unfold uv_inet_pton6
  by_cases hmem : 37 ∈ c_str src
  · obtain ⟨ip,zone,heq,hip⟩ := List.eq_append_cons_of_mem hmem
    have hfirst : ∀ x ∈ ip, x ≠ 0 := fun x hx => hzero x (by simp [heq, hx])
    rw [if_pos hmem, heq, takeWhile_zone zone hip]
    refine ⟨iff_of_false (by simp) (by simp),?_⟩
    rw [Option.some.injEq]
    constructor
    · intro h
      split at h
      · cases h
      · exact ⟨ip,zone,rfl,hip,by omega,(inet_pton6_iff hfirst).mp h⟩
    · rintro ⟨ip',zone',hsame,hip',hlen,haddr⟩
      have hip_eq := takeWhile_zone zone' hip'
      rw [← hsame, takeWhile_zone zone hip] at hip_eq
      subst hip_eq
      rw [if_neg (by omega)]
      exact (inet_pton6_iff hfirst).mpr haddr
  · rw [if_neg hmem]
    refine ⟨by simp [hmem],iff_of_false (by simp) ?_⟩
    rintro ⟨ip,zone,heq,_⟩
    exact hmem (by simp [heq])

end OctCommu.Network.Inet6
