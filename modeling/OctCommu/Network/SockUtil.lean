import OctCommu.Lib.Memory

/-! # Socket addresses in `SockUtil`

Texts are lists of bytes. A `sockaddr` is the memory it is cast from: the family
in host order (little endian) at 0, the port in network order at 2, an IPv4
address at 4, an IPv6 address at 8. `inet_pton4` is translated from the source;
`inet_ntoa` is the C library's. IPv6 texts are left to the C library.
-/
namespace OctCommu.Network.SockUtil
open Memory

abbrev Text := List UInt8

def AF_INET : ℕ := 2
def AF_INET6 : ℕ := 10
def INET6_ADDRSTRLEN : ℕ := 46

/-- What a C function sees of `str`. -/
def c_str (str : Text) : Text := str.takeWhile (· ≠ 0)

def digit (d : ℕ) : UInt8 := UInt8.ofNat (48 + d)

/-- The digits of a number below 1000 without leading zeros. -/
def decimal (n : ℕ) : Text :=
  if n < 10 then [digit n]
  else if n < 100 then [digit (n / 10),digit (n % 10)]
  else [digit (n / 100),digit (n / 10 % 10),digit (n % 10)]

/-- The dotted text of an address. -/
def inet_ntoa : List UInt8 → Text
  | [] => []
  | [b] => decimal b.toNat
  | b :: bs => decimal b.toNat ++ 46 :: inet_ntoa bs

/-- The locals of `inet_pton4`: the octets in front of `tp`, the one it points at, and the rest. -/
structure Pton4 where
  tmp : List UInt8
  tp : ℕ
  saw_digit : Bool
  octets : ℕ

/-- The round of the loop for one character. -/
def inet_pton4_char (s : Pton4) (ch : UInt8) : Option Pton4 :=
  if 48 ≤ ch.toNat ∧ ch.toNat ≤ 57 then
    let nw := s.tp * 10 + (ch.toNat - 48)
    if s.saw_digit ∧ s.tp = 0 then none
    else if 255 < nw then none
    else if s.saw_digit then some { s with tp := nw }
    else if 4 < s.octets + 1 then none
    else some { s with tp := nw, saw_digit := true, octets := s.octets + 1 }
  else if ch = 46 ∧ s.saw_digit then
    if s.octets = 4 then none
    else some { s with tmp := s.tmp ++ [UInt8.ofNat s.tp], tp := 0, saw_digit := false }
  else none

def inet_pton4_loop : Pton4 → Text → Option (List UInt8)
  | s, [] => if s.octets < 4 then none else some (s.tmp ++ [UInt8.ofNat s.tp])
  | s, ch :: src => (inet_pton4_char s ch).bind fun t => inet_pton4_loop t src

/-- The four bytes written to `dst`, or `UV_EINVAL`. -/
def inet_pton4 (src : Text) : Option (List UInt8) := inet_pton4_loop ⟨[],0,false,0⟩ (c_str src)

theorem toNat_digit {d : ℕ} (h : d < 10) : (digit d).toNat = 48 + d := by
  rw [digit, UInt8.toNat_ofNat']
  omega

theorem ofNat_digit {ch : UInt8} (h : 48 ≤ ch.toNat) : digit (ch.toNat - 48) = ch := by
  have hs : 48 + (ch.toNat - 48) = ch.toNat := by omega
  rw [digit, hs, UInt8.ofNat_toNat]

theorem decimal_of_lt {n : ℕ} (h : n < 10) : decimal n = [digit n] := by
  rw [decimal, if_pos h]

/-- A further digit behind a number that is not zero. -/
theorem decimal_snoc {n d : ℕ} (hn : 0 < n) (hd : d < 10) (hlt : n * 10 + d < 1000) :
    decimal (n * 10 + d) = decimal n ++ [digit d] := by
  have hmod : (n * 10 + d) % 10 = d := by omega
  have hdiv : (n * 10 + d) / 10 = n := by omega
  have hten : ¬ n * 10 + d < 10 := by omega
  by_cases h : n < 10
  · have hlt : n * 10 + d < 100 := by omega
    rw [decimal_of_lt h]
    simp only [decimal, if_neg hten, if_pos hlt, hmod, hdiv, List.singleton_append]
  · have hge : ¬ n * 10 + d < 100 := by omega
    have hhun : (n * 10 + d) / 100 = n / 10 := by omega
    have hlt : n < 100 := by omega
    simp only [decimal, if_neg hten, if_neg hge, if_neg h, if_pos hlt, hmod, hdiv, hhun,
      List.cons_append, List.nil_append]

/-- The loop in front of a first digit. -/
theorem char_first {s : Pton4} {d : ℕ} (hd : d < 10) (hsaw : s.saw_digit = false)
    (htp : s.tp = 0) (ho : s.octets < 4) : inet_pton4_char s (digit d) =
      some { s with tp := d, saw_digit := true, octets := s.octets + 1 } := by
  have ht := toNat_digit hd
  have hrange : 48 ≤ (digit d).toNat ∧ (digit d).toNat ≤ 57 := by omega
  have hv : (digit d).toNat - 48 = d := by omega
  have hle : ¬ 255 < d := by omega
  have ho' : ¬ 4 < s.octets + 1 := by omega
  simp [inet_pton4_char, hrange, hv, hsaw, htp, hle, ho']

/-- The loop in front of a further digit. -/
theorem char_next {s : Pton4} {d : ℕ} (hd : d < 10) (hsaw : s.saw_digit = true)
    (htp : 0 < s.tp) (hle : s.tp * 10 + d ≤ 255) :
    inet_pton4_char s (digit d) = some { s with tp := s.tp * 10 + d } := by
  have ht := toNat_digit hd
  have hrange : 48 ≤ (digit d).toNat ∧ (digit d).toNat ≤ 57 := by omega
  have hv : (digit d).toNat - 48 = d := by omega
  have hz : s.tp ≠ 0 := by omega
  have hle' : ¬ 255 < s.tp * 10 + d := by omega
  simp [inet_pton4_char, hrange, hv, hsaw, hz, hle']

/-- The loop in front of an octet. -/
theorem loop_octet {s : Pton4} (b : UInt8) (rest : Text) (hsaw : s.saw_digit = false)
    (htp : s.tp = 0) (ho : s.octets < 4) : inet_pton4_loop s (decimal b.toNat ++ rest) =
      inet_pton4_loop { s with tp := b.toNat, saw_digit := true, octets := s.octets + 1 } rest := by
  have hb := b.toNat_lt
  generalize b.toNat = n at hb ⊢
  by_cases hten : n < 10
  · rw [decimal_of_lt hten, List.singleton_append]
    simp only [inet_pton4_loop, char_first hten hsaw htp ho, Option.bind_some]
  · by_cases hhun : n < 100
    · have hd := char_first (s := s) (d := n / 10) (by omega) hsaw htp ho
      have hsum : n / 10 * 10 + n % 10 = n := by omega
      have hn := char_next (d := n % 10)
        (s := { s with tp := n / 10, saw_digit := true, octets := s.octets + 1 })
        (by omega) rfl (by simp only; omega) (by simp only; omega)
      simp only [decimal, if_neg hten, if_pos hhun, List.cons_append, List.nil_append,
        inet_pton4_loop, hd, hn, Option.bind_some, hsum]
    · have hd := char_first (s := s) (d := n / 100) (by omega) hsaw htp ho
      have hsum : n / 100 * 10 + n / 10 % 10 = n / 10 := by omega
      have hn := char_next (d := n / 10 % 10)
        (s := { s with tp := n / 100, saw_digit := true, octets := s.octets + 1 })
        (by omega) rfl (by simp only; omega) (by simp only; omega)
      have hsum' : n / 10 * 10 + n % 10 = n := by omega
      have hn' := char_next (d := n % 10)
        (s := { s with tp := n / 10, saw_digit := true, octets := s.octets + 1 })
        (by omega) rfl (by simp only; omega) (by simp only; omega)
      simp only [decimal, if_neg hten, if_neg hhun, List.cons_append, List.nil_append,
        inet_pton4_loop, hd, hn, hn', Option.bind_some, hsum, hsum']

theorem loop_dot {s : Pton4} (rest : Text) (hsaw : s.saw_digit = true) (ho : s.octets < 4) :
    inet_pton4_loop s (46 :: rest) = inet_pton4_loop
      { s with tmp := s.tmp ++ [UInt8.ofNat s.tp], tp := 0, saw_digit := false } rest := by
  have hne : s.octets ≠ 4 := by omega
  simp [inet_pton4_loop, inet_pton4_char, hsaw, hne]

theorem mem_decimal {n : ℕ} (h : n < 1000) {x : UInt8} (hx : x ∈ decimal n) :
    48 ≤ x.toNat ∧ x.toNat ≤ 57 := by
  have hd : ∀ d < 10, 48 ≤ (digit d).toNat ∧ (digit d).toNat ≤ 57 := by
    intro d hd
    have ht := toNat_digit hd
    omega
  unfold decimal at hx
  split at hx
  · rename_i hten
    rw [List.mem_singleton.mp hx]
    exact hd n hten
  · split at hx
    · rcases List.mem_pair.mp hx with rfl | rfl
      · exact hd _ (by omega)
      · exact hd _ (by omega)
    · simp only [List.mem_cons, List.not_mem_nil, or_false] at hx
      obtain rfl | rfl | rfl := hx
      · exact hd _ (by omega)
      · exact hd _ (by omega)
      · exact hd _ (by omega)

/-- A dotted text has digits and dots only. -/
theorem mem_inet_ntoa {bs : List UInt8} {x : UInt8} (hx : x ∈ inet_ntoa bs) :
    46 ≤ x.toNat ∧ x.toNat ≤ 57 := by
  have hdec : ∀ b : UInt8, x ∈ decimal b.toNat → 46 ≤ x.toNat ∧ x.toNat ≤ 57 := by
    intro b hb
    have hlt := b.toNat_lt
    have := mem_decimal (by omega) hb
    omega
  induction bs with
  | nil => simp [inet_ntoa] at hx
  | cons b bs ih =>
    cases bs with
    | nil => exact hdec b hx
    | cons c bs =>
      simp only [inet_ntoa, List.mem_append, List.mem_cons] at hx
      rcases hx with hx | rfl | hx
      · exact hdec b hx
      · decide
      · exact ih hx

theorem inet_ntoa_ne_zero (bs : List UInt8) : ∀ x ∈ inet_ntoa bs, x ≠ 0 := by
  rintro x hx rfl
  exact absurd (mem_inet_ntoa hx).1 (by decide)

theorem colon_not_mem_inet_ntoa (bs : List UInt8) : 58 ∉ inet_ntoa bs := by
  intro hx
  exact absurd (mem_inet_ntoa hx).2 (by decide)

theorem c_str_eq_self {str : Text} (h : ∀ x ∈ str, x ≠ 0) : c_str str = str := by
  unfold c_str
  induction str with
  | nil => rfl
  | cons x str ih =>
    obtain ⟨hx,hr⟩ := List.forall_mem_cons.mp h
    rw [List.takeWhile_cons_of_pos (by simpa using hx), ih hr]

/-- The dotted text of every address is read back. -/
theorem inet_pton4_inet_ntoa (a b c d : UInt8) :
    inet_pton4 (inet_ntoa [a,b,c,d]) = some [a,b,c,d] := by
  unfold inet_pton4
  rw [c_str_eq_self (inet_ntoa_ne_zero _)]
  simp only [inet_ntoa]
  rw [loop_octet a _ rfl rfl (by decide), loop_dot _ rfl (by simp),
    loop_octet b _ rfl rfl (by simp), loop_dot _ rfl (by simp),
    loop_octet c _ rfl rfl (by simp), loop_dot _ rfl (by simp),
    ← List.append_nil (decimal d.toNat), loop_octet d _ rfl rfl (by simp)]
  simp [inet_pton4_loop]

/-- The text the loop has passed. -/
def Pton4.shown (s : Pton4) : Text :=
  (s.tmp.flatMap fun b => decimal b.toNat ++ [46]) ++ if s.saw_digit then decimal s.tp else []

structure Pton4.Inv (s : Pton4) : Prop where
  octets_eq : s.octets = s.tmp.length + s.saw_digit.toNat
  octets_le : s.octets ≤ 4
  tp_le : s.tp ≤ 255
  fresh : s.saw_digit = false → s.tp = 0 ∧ s.octets < 4

theorem char_step {s t : Pton4} {ch : UInt8} (hs : s.Inv) (h : inet_pton4_char s ch = some t) :
    t.Inv ∧ t.shown = s.shown ++ [ch] := by
  obtain ⟨tmp,tp,saw_digit,octets⟩ := s
  obtain ⟨ho,hle,htp,hfresh⟩ := hs
  unfold inet_pton4_char at h
  split at h
  · rename_i hr
    have hd : ch.toNat - 48 < 10 := by omega
    have hch := ofNat_digit hr.1
    cases saw_digit with
    | true =>
      simp only [true_and, if_true] at h
      split at h
      · cases h
      · split at h
        · cases h
        · rename_i hz hle'
          cases h
          have hs := decimal_snoc (n := tp) (by omega) hd (by omega)
          refine ⟨⟨ho,hle,by simp only; omega,by simp⟩,?_⟩
          simp only [Pton4.shown, if_true, hs, hch, List.append_assoc]
    | false =>
      obtain ⟨hz,hlt⟩ := hfresh rfl
      simp only at hz hlt ho
      subst hz
      simp only [Bool.false_eq_true, false_and, if_false, Nat.zero_mul, Nat.zero_add] at h
      split at h
      · cases h
      · split at h
        · cases h
        · cases h
          refine ⟨⟨?_,?_,?_,by simp⟩,?_⟩
          · simp only [Bool.toNat_true, Bool.toNat_false] at ho ⊢
            omega
          · simp only
            omega
          · simp only
            omega
          · simp only [Pton4.shown, if_true, decimal_of_lt hd, hch, Bool.false_eq_true, if_false,
              List.append_nil]
  · split at h
    · rename_i hdot
      obtain ⟨rfl,rfl⟩ := hdot
      split at h
      · cases h
      · rename_i hne
        cases h
        have hb : (UInt8.ofNat tp).toNat = tp := by
          rw [UInt8.toNat_ofNat']
          simp only at htp
          omega
        refine ⟨⟨?_,hle,by simp,?_⟩,?_⟩
        · simp only [Bool.toNat_true, Bool.toNat_false, List.length_append, List.length_singleton] at ho ⊢
          omega
        · have hle : octets ≤ 4 := hle
          have hne : octets ≠ 4 := hne
          intro _
          exact ⟨rfl,by simp only; omega⟩
        · simp only [Pton4.shown, List.flatMap_append, List.flatMap_singleton, hb, if_true,
            Bool.false_eq_true, if_false, List.append_nil, List.append_assoc]
    · cases h

theorem inet_ntoa_snoc (tmp : List UInt8) (b : UInt8) :
    inet_ntoa (tmp ++ [b]) = (tmp.flatMap fun b => decimal b.toNat ++ [46]) ++ decimal b.toNat := by
  induction tmp with
  | nil => rfl
  | cons x tmp ih =>
    have hne : tmp ++ [b] ≠ [] := by simp
    obtain ⟨y,ys,hy⟩ := List.exists_cons_of_ne_nil hne
    rw [hy] at ih
    rw [List.cons_append, hy]
    simp only [inet_ntoa, ih, List.flatMap_cons, List.append_assoc, List.cons_append, List.nil_append]

theorem loop_sound {s : Pton4} {src : Text} {a : List UInt8} (hs : s.Inv)
    (h : inet_pton4_loop s src = some a) : a.length = 4 ∧ inet_ntoa a = s.shown ++ src := by
  induction src generalizing s with
  | nil =>
    unfold inet_pton4_loop at h
    split at h
    · cases h
    · rename_i hge
      cases h
      obtain ⟨ho,hle,htp,hfresh⟩ := hs
      have hsaw : s.saw_digit = true := by
        cases hw : s.saw_digit with
        | true => rfl
        | false => exact absurd (hfresh hw).2 hge
      have hb : (UInt8.ofNat s.tp).toNat = s.tp := by
        rw [UInt8.toNat_ofNat']
        omega
      rw [hsaw, Bool.toNat_true] at ho
      refine ⟨?_,?_⟩
      · rw [List.length_append, List.length_singleton]
        omega
      · rw [inet_ntoa_snoc, hb, Pton4.shown, hsaw, if_pos rfl, List.append_nil]
  | cons ch src ih =>
    obtain ⟨t,ht,hl⟩ := Option.bind_eq_some_iff.mp h
    obtain ⟨hi,hshown⟩ := char_step hs ht
    obtain ⟨hlen,heq⟩ := ih hi hl
    refine ⟨hlen,?_⟩
    rw [heq, hshown, List.append_assoc, List.singleton_append]

/-- The parser accepts the dotted texts and nothing else. -/
theorem inet_pton4_eq_some {src : Text} {addr : List UInt8} :
    inet_pton4 src = some addr ↔ addr.length = 4 ∧ c_str src = inet_ntoa addr := by
  constructor
  · intro h
    have hi : (⟨[],0,false,0⟩ : Pton4).Inv := ⟨rfl,by decide,by decide,fun _ => ⟨rfl,by decide⟩⟩
    obtain ⟨hlen,heq⟩ := loop_sound hi h
    exact ⟨hlen,heq.symm⟩
  · rintro ⟨hlen,heq⟩
    match addr, hlen with
    | [a,b,c,d], _ =>
      have h := inet_pton4_inet_ntoa a b c d
      unfold inet_pton4 at h ⊢
      rw [c_str_eq_self (inet_ntoa_ne_zero _)] at h
      rw [heq]
      exact h

/-- A 16-bit value in network order, cut off from a `size_t`. -/
def htons (port : ℕ) : List UInt8 := [UInt8.ofNat (port / 256),UInt8.ofNat port]

/-- A 16-bit member as the host loads it. -/
def load16 (m : ℕ → UInt8) (pos : ℕ) : ℕ := (m pos).toNat + 256 * (m (pos + 1)).toNat

/-- The members in front of the address, in a structure of `size` zeroed bytes. -/
def sockaddrHead (outValue : ℕ → UInt8) (size family port : ℕ) : ℕ → UInt8 :=
  memcpy (memcpy (memset outValue 0 size) 0 [UInt8.ofNat family,0]) 2 (htons port)

def to_sockaddr_in (ip : Text) (port : ℕ) (outValue : ℕ → UInt8) : (ℕ → UInt8) × ℤ :=
  let m := sockaddrHead outValue 16 AF_INET port
  match inet_pton4 ip with
  | some addr => (memcpy m 4 addr,0)
  | none => (m,-22)

variable (inet_pton6 : Text → Option (Vector UInt8 16)) (inet_ntop6 : List UInt8 → Text)

def to_sockaddr_in6 (ipp : Text) (port : ℕ) (outValue : ℕ → UInt8) : (ℕ → UInt8) × ℤ :=
  let m := sockaddrHead outValue 28 AF_INET6 port
  match inet_pton6 (c_str ipp) with
  | some addr => (memcpy m 8 addr.toList,0)
  | none => (m,1)

/-- The three results, and the positions of the local array `ip` that were written. -/
structure PeerAddress where
  out_ip : Text
  out_port : ℕ
  out_family : ℕ
  written : List ℕ

/-- `true == isIPV6` reads an IPv4 address, and ports stay in network order. -/
def get_ip_port_from_addr (paddr : ℕ → UInt8) (isIPV6 : Bool) : PeerAddress :=
  if isIPV6 then
    { out_ip := inet_ntoa (segment paddr 4 4)
      out_port := load16 paddr 2
      out_family := load16 paddr 0
      written := [] }
  else
    let text := inet_ntop6 (segment paddr 8 16) ++ [0]
    let ip := memcpy (memcpy (fun _ => 0) 0 text) INET6_ADDRSTRLEN [0]
    { out_ip := segment ip 0 INET6_ADDRSTRLEN
      out_port := load16 paddr 2
      out_family := load16 paddr 0
      written := List.range text.length ++ [INET6_ADDRSTRLEN] }

/-- The sender of a datagram, or the target of one. -/
inductive Endpoint where
  | v4 (addr : Vector UInt8 4) (port : UInt16)
  | v6 (addr : Vector UInt8 16) (port : UInt16)

namespace Endpoint

def port : Endpoint → UInt16
  | .v4 _ port => port
  | .v6 _ port => port

def family : Endpoint → ℕ
  | .v4 .. => AF_INET
  | .v6 .. => AF_INET6

/-- Its printable form. -/
def ip (inet_ntop6 : List UInt8 → Text) : Endpoint → Text
  | .v4 addr _ => inet_ntoa addr.toList
  | .v6 addr _ => inet_ntop6 addr.toList

/-- The memory is a `sockaddr` of this endpoint; the bytes that are not members of it may be
anything. -/
def StoredIn (m : ℕ → UInt8) (e : Endpoint) : Prop :=
  segment m 0 2 = [UInt8.ofNat e.family,0] ∧ segment m 2 2 = htons e.port.toNat ∧
    match e with
    | .v4 addr _ => segment m 4 4 = addr.toList
    | .v6 addr _ => segment m 8 16 = addr.toList

end Endpoint

theorem segment_two (m : ℕ → UInt8) (pos : ℕ) : segment m pos 2 = [m pos,m (pos + 1)] := rfl

theorem load16_of_segment {m : ℕ → UInt8} {pos : ℕ} {a b : UInt8} (h : segment m pos 2 = [a,b]) :
    load16 m pos = a.toNat + 256 * b.toNat := by
  rw [segment_two] at h
  cases h
  rfl

theorem Endpoint.StoredIn.family_eq {m : ℕ → UInt8} {e : Endpoint} (h : e.StoredIn m) :
    load16 m 0 = e.family := by
  rw [load16_of_segment h.1]
  cases e with
  | v4 addr port => rfl
  | v6 addr port => rfl

/-- The raw port is the port with its bytes exchanged. -/
theorem Endpoint.StoredIn.port_eq {m : ℕ → UInt8} {e : Endpoint} (h : e.StoredIn m) :
    load16 m 2 = e.port.toNat / 256 + 256 * (e.port.toNat % 256) := by
  rw [load16_of_segment h.2.1, UInt8.toNat_ofNat', UInt8.toNat_ofNat']
  have := e.port.toNat_lt
  omega

theorem segment_sockaddrHead_family (m : ℕ → UInt8) (size family port : ℕ) :
    segment (sockaddrHead m size family port) 0 2 = [UInt8.ofNat family,0] := by
  unfold sockaddrHead
  rw [segment_memcpy_below _ (by decide)]
  exact segment_memcpy_self _ 0 [UInt8.ofNat family,0]

theorem segment_sockaddrHead_port (m : ℕ → UInt8) (size family port : ℕ) :
    segment (sockaddrHead m size family port) 2 2 = htons port :=
  segment_memcpy_self _ 2 (htons port)

/-- An address is written behind the family and the port. -/
theorem segment_sockaddrHead_below (m : ℕ → UInt8) (size family port pos : ℕ)
    (bytes : List UInt8) (hpos : 4 ≤ pos) :
    segment (memcpy (sockaddrHead m size family port) pos bytes) 0 2 = [UInt8.ofNat family,0] ∧
      segment (memcpy (sockaddrHead m size family port) pos bytes) 2 2 = htons port := by
  constructor
  · rw [segment_memcpy_below _ (by omega)]
    exact segment_sockaddrHead_family ..
  · rw [segment_memcpy_below _ (by omega)]
    exact segment_sockaddrHead_port ..

theorem to_sockaddr_in_of_some {ip : Text} {addr : List UInt8} (h : inet_pton4 ip = some addr)
    (port : ℕ) (m : ℕ → UInt8) :
    to_sockaddr_in ip port m = (memcpy (sockaddrHead m 16 AF_INET port) 4 addr,0) := by
  simp only [to_sockaddr_in, h]

theorem to_sockaddr_in6_of_some {ipp : Text} {addr : Vector UInt8 16}
    (h : inet_pton6 (c_str ipp) = some addr) (port : ℕ) (m : ℕ → UInt8) :
    to_sockaddr_in6 inet_pton6 ipp port m =
      (memcpy (sockaddrHead m 28 AF_INET6 port) 8 addr.toList,0) := by
  simp only [to_sockaddr_in6, h]

/-- A written address leaves the members in front of it and is the endpoint's own. -/
theorem storedIn_memcpy_v4 (m : ℕ → UInt8) (size : ℕ) (addr : Vector UInt8 4) (port : UInt16) :
    (Endpoint.v4 addr port).StoredIn
      (memcpy (sockaddrHead m size AF_INET port.toNat) 4 addr.toList) := by
  obtain ⟨hfamily,hport⟩ := segment_sockaddrHead_below m size _ port.toNat 4 addr.toList (by decide)
  refine ⟨hfamily,hport,?_⟩
  simpa using segment_memcpy_self (sockaddrHead m size AF_INET port.toNat) 4 addr.toList

theorem storedIn_memcpy_v6 (m : ℕ → UInt8) (size : ℕ) (addr : Vector UInt8 16) (port : UInt16) :
    (Endpoint.v6 addr port).StoredIn
      (memcpy (sockaddrHead m size AF_INET6 port.toNat) 8 addr.toList) := by
  obtain ⟨hfamily,hport⟩ := segment_sockaddrHead_below m size _ port.toNat 8 addr.toList (by decide)
  refine ⟨hfamily,hport,?_⟩
  simpa using segment_memcpy_self (sockaddrHead m size AF_INET6 port.toNat) 8 addr.toList

/-- The printable form of an IPv4 endpoint is encoded as that endpoint. -/
theorem to_sockaddr_in_ip (addr : Vector UInt8 4) (port : UInt16) (m : ℕ → UInt8) :
    (Endpoint.v4 addr port).StoredIn
      (to_sockaddr_in (inet_ntoa addr.toList) port.toNat m).1 := by
  have hp : inet_pton4 (inet_ntoa addr.toList) = some addr.toList :=
    inet_pton4_eq_some.mpr ⟨by simp,c_str_eq_self (inet_ntoa_ne_zero _)⟩
  rw [to_sockaddr_in_of_some hp]
  exact storedIn_memcpy_v4 m 16 addr port

end OctCommu.Network.SockUtil
