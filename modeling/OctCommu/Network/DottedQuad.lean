import OctCommu.Network.SockUtil
import Mathlib.Data.List.Forall2
import Mathlib.Data.List.Induction

/-! # The texts of IPv4 addresses

The grammar of a dotted address says what it looks like, without saying how it is read
or written. `inet_pton4` accepts what the grammar derives.
-/
namespace OctCommu.Network.SockUtil
open Memory

def IsDigit (ch : UInt8) : Prop := 48 ≤ ch.toNat ∧ ch.toNat ≤ 57

/-- The number that a text of digits stands for. -/
def value (text : Text) : ℕ := text.foldl (fun n ch => n * 10 + (ch.toNat - 48)) 0

/-- A decimal number without leading zeros that is a byte. -/
structure Octet (text : Text) (b : UInt8) : Prop where
  nonempty : text ≠ []
  digits : ∀ ch ∈ text, IsDigit ch
  leading : text.head? = some 48 → text = [48]
  value_eq : value text = b.toNat

/-- Four octets with single dots between them and nothing else. -/
def DottedQuad (str : Text) (addr : List UInt8) : Prop :=
  ∃ parts, List.Forall₂ Octet parts addr ∧ addr.length = 4 ∧ str = [46].intercalate parts

theorem value_snoc (text : Text) (ch : UInt8) :
    value (text ++ [ch]) = value text * 10 + (ch.toNat - 48) := by
  simp [value]

theorem value_pos {text : Text} (hne : text ≠ []) (hd : ∀ ch ∈ text, IsDigit ch)
    (hl : text.head? ≠ some 48) : 0 < value text := by
  induction text using List.reverseRecOn with
  | nil => exact absurd rfl hne
  | append_singleton text ch ih =>
    rw [value_snoc]
    by_cases hnil : text = []
    · subst hnil
      obtain ⟨hlow,_⟩ := hd ch (by simp)
      have hch : ch.toNat ≠ 48 := by
        intro h
        apply hl
        have hch : ch = 48 := UInt8.toNat_inj.mp h
        rw [hch]
        rfl
      omega
    · rw [List.head?_append_of_ne_nil _ hnil] at hl
      have hpos := ih hnil (fun c hc => hd c (by simp [hc])) hl
      omega

/-- Digits without leading zeros are those of their number. -/
theorem eq_decimal {text : Text} (hne : text ≠ []) (hd : ∀ ch ∈ text, IsDigit ch)
    (hl : text.head? = some 48 → text = [48]) (hlt : value text < 1000) :
    text = decimal (value text) := by
  induction text using List.reverseRecOn with
  | nil => exact absurd rfl hne
  | append_singleton text ch ih =>
    obtain ⟨hlow,hhigh⟩ := hd ch (by simp)
    rw [value_snoc] at hlt ⊢
    by_cases hnil : text = []
    · subst hnil
      have hval : value [] * 10 + (ch.toNat - 48) = ch.toNat - 48 := by simp [value]
      rw [hval, decimal_of_lt (by omega), ofNat_digit hlow]
      rfl
    · have hfirst : text.head? ≠ some 48 := by
        intro h
        have hone := hl (by rw [List.head?_append_of_ne_nil _ hnil, h])
        cases text with
        | nil => exact hnil rfl
        | cons c cs => simp at hone
      have hdigits : ∀ c ∈ text, IsDigit c := fun c hc => hd c (by simp [hc])
      have htext := ih hnil hdigits (fun h => absurd h hfirst) (by omega)
      rw [decimal_snoc (value_pos hnil hdigits hfirst) (by omega) hlt, ← htext, ofNat_digit hlow]

theorem value_decimal {n : ℕ} (h : n < 1000) : value (decimal n) = n := by
  have hdig : ∀ d < 10, (digit d).toNat - 48 = d := by
    intro d hd
    rw [toNat_digit hd]
    omega
  unfold decimal
  split_ifs with hten hhun
  · simp [value, hdig n hten]
  · simp only [value, List.foldl_cons, List.foldl_nil, hdig _ (by omega : n / 10 < 10),
      hdig _ (by omega : n % 10 < 10)]
    omega
  · simp only [value, List.foldl_cons, List.foldl_nil, hdig _ (by omega : n / 100 < 10),
      hdig _ (by omega : n / 10 % 10 < 10), hdig _ (by omega : n % 10 < 10)]
    omega

theorem octet_decimal (b : UInt8) : Octet (decimal b.toNat) b := by
  have hb := b.toNat_lt
  refine ⟨?_,fun ch hch => mem_decimal (by omega) hch,?_,value_decimal (by omega)⟩
  · unfold decimal
    split_ifs <;> simp
  · intro hzero
    have hdig : ∀ d < 10, digit d = 48 → d = 0 := by
      intro d hd h
      have := toNat_digit hd
      rw [h] at this
      have h48 : (48 : UInt8).toNat = 48 := rfl
      omega
    unfold decimal at hzero ⊢
    split_ifs at hzero ⊢ with hten hhun
    · rw [Option.some.inj hzero]
    · have := hdig _ (by omega) (Option.some.inj hzero)
      omega
    · have := hdig _ (by omega) (Option.some.inj hzero)
      omega

/-- The octets are the texts that the C library writes. -/
theorem octet_iff {text : Text} {b : UInt8} : Octet text b ↔ text = decimal b.toNat := by
  constructor
  · intro h
    have hb := b.toNat_lt
    have htext := eq_decimal h.nonempty h.digits h.leading (by rw [h.value_eq]; omega)
    rwa [h.value_eq] at htext
  · rintro rfl
    exact octet_decimal b

theorem inet_ntoa_eq_intercalate (addr : List UInt8) :
    inet_ntoa addr = [46].intercalate (addr.map fun b => decimal b.toNat) := by
  induction addr with
  | nil => rfl
  | cons b bs ih =>
    cases bs with
    | nil => simp [inet_ntoa, List.intercalate]
    | cons c bs =>
      rw [inet_ntoa, ih]
      · simp [List.intercalate]
      · exact List.cons_ne_nil c bs

theorem dottedQuad_iff {str : Text} {addr : List UInt8} :
    DottedQuad str addr ↔ addr.length = 4 ∧ str = inet_ntoa addr := by
  rw [inet_ntoa_eq_intercalate]
  have hparts (parts : List Text) : List.Forall₂ Octet parts addr ↔
      parts = addr.map fun b => decimal b.toNat := by
    rw [← List.forall₂_eq_eq_eq, List.forall₂_map_right_iff]
    constructor
    · exact fun h => h.imp fun _ _ => octet_iff.mp
    · exact fun h => h.imp fun _ _ => octet_iff.mpr
  constructor
  · rintro ⟨parts,hp,hlen,rfl⟩
    rw [(hparts parts).mp hp]
    exact ⟨hlen,rfl⟩
  · rintro ⟨hlen,rfl⟩
    exact ⟨_,(hparts _).mpr rfl,hlen,rfl⟩

theorem inet_pton4_eq_some_iff {str : Text} (h : ∀ x ∈ str, x ≠ 0) {addr : List UInt8} :
    inet_pton4 str = some addr ↔ DottedQuad str addr := by
  rw [inet_pton4_eq_some, c_str_eq_self h, dottedQuad_iff]

theorem segment_sockaddrHead_addr (m : ℕ → UInt8) (port : ℕ) :
    segment (sockaddrHead m 16 AF_INET port) 4 4 = [0,0,0,0] := by
  unfold sockaddrHead
  rw [segment_memcpy_above (by rfl), segment_memcpy_above (by decide)]
  rfl

/-- `to_sockaddr_in` accepts the dotted texts and no other, and stores what they say; the dotted text of
an address is one of them. -/
theorem to_sockaddr_in_exact (str : Text) (h : ∀ x ∈ str, x ≠ 0) (port : UInt16) (m : ℕ → UInt8) :
    ((to_sockaddr_in str port.toNat m).2 = 0 ↔ ∃ addr, DottedQuad str addr) ∧
    (∀ addr, DottedQuad str addr →
      segment (to_sockaddr_in str port.toNat m).1 0 2 = [UInt8.ofNat AF_INET,0] ∧
      segment (to_sockaddr_in str port.toNat m).1 2 2 = htons port.toNat ∧
      segment (to_sockaddr_in str port.toNat m).1 4 4 = addr) ∧
    ((¬ ∃ addr, DottedQuad str addr) →
      (to_sockaddr_in str port.toNat m).2 ≠ 0 ∧
      segment (to_sockaddr_in str port.toNat m).1 4 4 = [0,0,0,0]) ∧
    ∀ addr : Vector UInt8 4, (to_sockaddr_in (inet_ntoa addr.toList) port.toNat m).2 = 0 ∧
      segment (to_sockaddr_in (inet_ntoa addr.toList) port.toNat m).1 4 4 = addr.toList := by
  have hnone : (¬ ∃ addr, DottedQuad str addr) →
      to_sockaddr_in str port.toNat m = (sockaddrHead m 16 AF_INET port.toNat,-22) := by
    intro hno
    have hp : inet_pton4 str = none := by
      cases hp : inet_pton4 str with
      | none => rfl
      | some addr => exact absurd ⟨addr,(inet_pton4_eq_some_iff h).mp hp⟩ hno
    simp only [to_sockaddr_in, hp]
  refine ⟨?_,?_,?_,?_⟩
  · constructor
    · intro hz
      by_contra hno
      rw [hnone hno] at hz
      cases hz
    · rintro ⟨addr,ha⟩
      rw [to_sockaddr_in_of_some ((inet_pton4_eq_some_iff h).mpr ha)]
  · intro addr ha
    obtain ⟨hlen,_⟩ := dottedQuad_iff.mp ha
    rw [to_sockaddr_in_of_some ((inet_pton4_eq_some_iff h).mpr ha)]
    obtain ⟨v,rfl⟩ : ∃ v : Vector UInt8 4, v.toList = addr := ⟨⟨addr.toArray,by simpa using hlen⟩,rfl⟩
    exact storedIn_memcpy_v4 m 16 v port
  · intro hno
    rw [hnone hno]
    exact ⟨Int.neg_ne_zero.mpr (by decide),segment_sockaddrHead_addr m port.toNat⟩
  · intro addr
    have hd := dottedQuad_iff.mpr ⟨addr.length_toList,rfl⟩
    refine ⟨?_,(to_sockaddr_in_ip addr port m).2.2⟩
    rw [to_sockaddr_in_of_some ((inet_pton4_eq_some_iff (inet_ntoa_ne_zero _)).mpr hd)]

theorem to_sockaddr_in_exact_local :
    (to_sockaddr_in [49,46,48,46,48,46,49] 80 fun _ => 7).2 = 0 ∧
    segment (to_sockaddr_in [49,46,48,46,48,46,49] 80 fun _ => 7).1 4 4 = [1,0,0,1] := by
  have hd : DottedQuad [49,46,48,46,48,46,49] [1,0,0,1] := dottedQuad_iff.mpr ⟨rfl,rfl⟩
  have h := to_sockaddr_in_exact [49,46,48,46,48,46,49] (by simp) 80 fun _ => 7
  exact ⟨h.1.mpr ⟨_,hd⟩,(h.2.1 _ hd).2.2⟩

end OctCommu.Network.SockUtil
