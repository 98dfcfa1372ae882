import Mathlib.Data.List.Basic
import Mathlib.Tactic.Common

/-! # The scatter-gather packet `BufferSendMsg`

A packet sends a list of buffers with `sendmsg`. An `iovec` entry is modelled by
the bytes it still describes, and the kernel by the number of bytes it takes.
-/
namespace OctCommu.Network
variable {B : Type*}

def IOV_MAX : ℕ := 1024

structure BufferSendMsg (B : Type*) where
  _iovec_off : ℕ
  _remain_size : ℕ
  _iovec : List (List B)
  _pkt_list : List (List B)

namespace BufferSendMsg

def create (list : List (List B)) : BufferSendMsg B where
  _iovec_off := 0
  _remain_size := list.foldl (fun n buf => n + buf.length) 0
  _iovec := list
  _pkt_list := list

def empty (p : BufferSendMsg B) : Bool := p._remain_size = 0

/-- What one `sendmsg` is given. -/
def offered (p : BufferSendMsg B) : List B := ((p._iovec.drop p._iovec_off).take IOV_MAX).flatten

/-- The callbacks `true` of these functions are returned as the list of their buffers. -/
def sendFrontSuccess (p : BufferSendMsg B) : BufferSendMsg B × List (List B) :=
  ({ p with _pkt_list := p._pkt_list.tail },p._pkt_list.head?.toList)

/-- The loop of `reOffset` from entry `i` on, with `offset` bytes in the entries before. -/
def reOffsetFrom (n : ℕ) : List (List B) → ℕ → ℕ → BufferSendMsg B → BufferSendMsg B × List (List B)
  | [], _, _, p => (p,[])
  | ref :: refs, i, offset, p =>
    let offset := offset + ref.length
    if offset < n then
      let r := p.sendFrontSuccess
      let t := reOffsetFrom n refs (i + 1) offset r.1
      (t.1,r.2 ++ t.2)
    else if offset = n then { p with _iovec_off := i + 1 }.sendFrontSuccess
    else
      let remain := offset - n
      ({ p with
        _iovec_off := i
        _iovec := p._iovec.set i (ref.drop (ref.length - remain)) },[])

def reOffset (p : BufferSendMsg B) (n : ℕ) : BufferSendMsg B × List (List B) :=
  reOffsetFrom n (p._iovec.drop p._iovec_off) p._iovec_off 0
    { p with _remain_size := p._remain_size - n }

/-- `send_l` when `sendmsg` returns `n > 0`; when it returns `-1` nothing changes. -/
def send_l (p : BufferSendMsg B) (n : ℕ) : BufferSendMsg B × List (List B) :=
  if p._remain_size ≤ n then ({ p with _remain_size := 0, _pkt_list := [] },p._pkt_list)
  else p.reOffset n

def pending (p : BufferSendMsg B) : List B :=
  if p._remain_size = 0 then [] else (p._iovec.drop p._iovec_off).flatten

def Counted (p : BufferSendMsg B) : Prop := p.pending.length = p._remain_size

theorem create_remain_size (list : List (List B)) :
    (create list)._remain_size = list.flatten.length := by
  have hsum (n : ℕ) : list.foldl (fun n buf => n + buf.length) n = n + list.flatten.length := by
    induction list generalizing n with
    | nil => simp
    | cons buf bufs ih =>
      simp only [List.foldl_cons, List.flatten_cons, List.length_append]
      rw [ih]
      omega
  rw [create, hsum, Nat.zero_add]

theorem pending_create (list : List (List B)) : (create list).pending = list.flatten := by
  have hsize := create_remain_size list
  by_cases h : (create list)._remain_size = 0
  · have hnil : list.flatten = [] := List.length_eq_zero_iff.mp (hsize ▸ h)
    rw [pending, if_pos h, hnil]
  · rw [pending, if_neg h]
    rfl

theorem counted_create (list : List (List B)) : (create list).Counted := by
  rw [Counted, pending_create, create_remain_size]

theorem offered_initial {p : BufferSendMsg B} (h : p._remain_size ≠ 0) : p.offered <+: p.pending := by
  rw [offered, pending, if_neg h]
  refine ⟨((p._iovec.drop p._iovec_off).drop IOV_MAX).flatten,?_⟩
  rw [← List.flatten_append, List.take_append_drop]

theorem drop_set_of_drop {l l' : List (List B)} {i : ℕ} {y : List B} (h : l.drop i = y :: l')
    (z : List B) : (l.set i z).drop i = z :: l' := by
  rw [List.drop_set, if_neg (Nat.lt_irrefl i), Nat.sub_self, h, List.set_cons_zero]

/-- The entry in which the sent bytes end. -/
theorem reOffsetFrom_inside {n : ℕ} {ref : List B} {refs : List (List B)} {i offset : ℕ}
    {p : BufferSendMsg B} (hlt : offset < n) (hn : n < offset + ref.length) : reOffsetFrom n (ref :: refs) i offset p =
      ({ p with _iovec_off := i, _iovec := p._iovec.set i (ref.drop (n - offset)) },[]) := by
  rw [reOffsetFrom, if_neg (by omega), if_neg (by omega)]
  have hremain : ref.length - (offset + ref.length - n) = n - offset := by omega
  simp only [hremain]

theorem reOffsetFrom_spec {n : ℕ} {refs : List (List B)} {i offset : ℕ} {p : BufferSendMsg B}
    (hrefs : p._iovec.drop i = refs) (hlt : offset < n) (hn : n < offset + refs.flatten.length) :
    (reOffsetFrom n refs i offset p).1._remain_size = p._remain_size ∧
    ((reOffsetFrom n refs i offset p).1._iovec.drop
      (reOffsetFrom n refs i offset p).1._iovec_off).flatten = refs.flatten.drop (n - offset) := by
  induction refs generalizing i offset p with
  | nil =>
    simp only [List.flatten_nil, List.length_nil] at hn
    omega
  | cons ref refs ih =>
    have hnext : p._iovec.drop (i + 1) = refs := by
      rw [← List.drop_drop, hrefs]
      rfl
    have hsum : (ref :: refs).flatten.length = ref.length + refs.flatten.length := by simp
    rw [hsum] at hn
    rw [List.flatten_cons]
    by_cases hpart : n < offset + ref.length
    · rw [reOffsetFrom_inside hlt hpart]
      refine ⟨rfl,?_⟩
      simp only [drop_set_of_drop hrefs]
      rw [List.flatten_cons, List.drop_append_of_le_length (by omega)]
    rw [reOffsetFrom]
    by_cases hend : offset + ref.length = n
    · simp only [hend, Nat.lt_irrefl, if_true, if_false]
      refine ⟨rfl,?_⟩
      have hall : n - offset = ref.length := by omega
      simp only [sendFrontSuccess, hnext]
      rw [hall, List.drop_left]
    · have hmore : offset + ref.length < n := by omega
      simp only [hmore, if_true]
      obtain ⟨hr,hd⟩ := ih (p := p.sendFrontSuccess.1) (i := i + 1) hnext hmore (by omega)
      refine ⟨hr,?_⟩
      have hall : ref.length ≤ n - offset := by omega
      rw [hd, List.drop_append, List.drop_eq_nil_of_le hall, List.nil_append, Nat.sub_sub]

/-- `sendmsg` removes what it takes from the front of the pending bytes. -/
theorem send_l_spec {p : BufferSendMsg B} (hp : p.Counted) {n : ℕ} (hn : 0 < n)
    (hle : n ≤ p.offered.length) (hr : p._remain_size ≠ 0) :
    (p.send_l n).1.Counted ∧ (p.send_l n).1.pending = p.pending.drop n := by
  have hoff : n ≤ p._remain_size := hp ▸ Nat.le_trans hle (offered_initial hr).length_le
  unfold send_l
  by_cases hall : p._remain_size ≤ n
  · rw [if_pos hall]
    have hdrop : p.pending.drop n = [] := List.drop_eq_nil_of_le (by rw [hp]; exact hall)
    rw [hdrop]
    exact ⟨rfl,rfl⟩
  · rw [if_neg hall]
    have hpend : p.pending = (p._iovec.drop p._iovec_off).flatten := by rw [pending, if_neg hr]
    have hlen : (p._iovec.drop p._iovec_off).flatten.length = p._remain_size := by rw [← hpend, hp]
    obtain ⟨hrem,hd⟩ := reOffsetFrom_spec (p := { p with _remain_size := p._remain_size - n })
      (i := p._iovec_off) rfl hn (by rw [hlen]; omega)
    have hpend' : (p.reOffset n).1.pending = p.pending.drop n := by
      rw [hpend, pending, if_neg]
      · exact hd
      · rw [reOffset, hrem]
        simp only
        omega
    refine ⟨?_,hpend'⟩
    rw [Counted, hpend', List.length_drop, hp, reOffset, hrem]

/-! ### The callbacks of a packet -/

/-- The front buffer of the packet is `x`, which is sent, with something that is not; the buffers behind
it are those of the entries that follow. -/
structure Split (p : BufferSendMsg B) (x : List B) : Prop where
  counted : p._remain_size = (p._iovec.drop p._iovec_off).flatten.length
  front : ∃ rest bufs, rest ≠ [] ∧ (∀ buf ∈ bufs, buf ≠ []) ∧ p._pkt_list = (x ++ rest) :: bufs ∧
    p._iovec.drop p._iovec_off = rest :: bufs

theorem split_create {buf : List B} {bufs : List (List B)} (h : ∀ b ∈ buf :: bufs, b ≠ []) :
    (create (buf :: bufs)).Split [] := by
  refine ⟨create_remain_size _,buf,bufs,h buf (by simp),?_,rfl,rfl⟩
  exact fun b hb => h b (by simp [hb])

variable {p : BufferSendMsg B} {x : List B}

theorem Split.remain_ne_zero (h : p.Split x) : p._remain_size ≠ 0 := by
  obtain ⟨rest,bufs,hrest,_,_,hiov⟩ := h.front
  rw [h.counted, hiov, List.flatten_cons, List.length_append]
  have := List.length_pos_iff.mpr hrest
  omega

theorem Split.pending_eq (h : p.Split x) : p.pending = (p._iovec.drop p._iovec_off).flatten :=
  if_neg h.remain_ne_zero

theorem Split.isCounted (h : p.Split x) : p.Counted := by
  rw [Counted, h.pending_eq, h.counted]

theorem Split.flatten_eq (h : p.Split x) : p._pkt_list.flatten = x ++ p.pending := by
  obtain ⟨rest,bufs,_,_,hlist,hiov⟩ := h.front
  rw [h.pending_eq, hlist, hiov]
  simp

/-- Every buffer that has no result yet has a byte that is not sent. -/
theorem Split.unsent (h : p.Split x) {buf : List B} (hb : buf ∈ p._pkt_list) :
    ∃ c ∈ buf, c ∈ p.pending := by
  obtain ⟨rest,bufs,hrest,hbufs,hlist,hiov⟩ := h.front
  rw [h.pending_eq, hiov]
  rw [hlist] at hb
  rcases List.mem_cons.mp hb with rfl | hb
  · obtain ⟨c,hc⟩ := List.exists_mem_of_ne_nil rest hrest
    exact ⟨c,by simp [hc],by simp [hc]⟩
  · obtain ⟨c,hc⟩ := List.exists_mem_of_ne_nil buf (hbufs buf hb)
    exact ⟨c,hc,List.mem_flatten.mpr ⟨buf,by simp [hb],hc⟩⟩

theorem reOffsetFrom_split {n : ℕ} {ref : List B} {bufs : List (List B)} {i offset : ℕ}
    (hiov : p._iovec.drop i = ref :: bufs) (hlist : p._pkt_list = (x ++ ref) :: bufs)
    (hbufs : ∀ buf ∈ bufs, buf ≠ []) (hlt : offset < n)
    (hn : n < offset + (ref :: bufs).flatten.length) :
    (reOffsetFrom n (ref :: bufs) i offset p).2 ++
      (reOffsetFrom n (ref :: bufs) i offset p).1._pkt_list = p._pkt_list ∧
    ∃ x' rest bufs', rest ≠ [] ∧ (∀ buf ∈ bufs', buf ≠ []) ∧
      (reOffsetFrom n (ref :: bufs) i offset p).1._pkt_list = (x' ++ rest) :: bufs' ∧
      (reOffsetFrom n (ref :: bufs) i offset p).1._iovec.drop
        (reOffsetFrom n (ref :: bufs) i offset p).1._iovec_off = rest :: bufs' ∧
      (reOffsetFrom n (ref :: bufs) i offset p).2.flatten ++ x' =
        x ++ (ref :: bufs).flatten.take (n - offset) := by
  induction bufs generalizing ref x i offset p with
  | nil =>
    simp only [List.flatten_cons, List.flatten_nil, List.append_nil] at hn ⊢
    rw [reOffsetFrom_inside hlt hn]
    refine ⟨rfl,x ++ ref.take (n - offset),ref.drop (n - offset),[],?_,by simp,?_,
      drop_set_of_drop hiov _,rfl⟩
    · rw [Ne, List.drop_eq_nil_iff]
      omega
    · rw [hlist, List.append_assoc, List.take_append_drop]
  | cons buf bufs ih =>
    have hflat : (ref :: buf :: bufs).flatten = ref ++ (buf :: bufs).flatten := rfl
    rw [hflat] at hn ⊢
    rw [List.length_append] at hn
    by_cases hpart : n < offset + ref.length
    · rw [reOffsetFrom_inside hlt hpart]
      refine ⟨rfl,x ++ ref.take (n - offset),ref.drop (n - offset),buf :: bufs,?_,hbufs,?_,
        drop_set_of_drop hiov _,?_⟩
      · rw [Ne, List.drop_eq_nil_iff]
        omega
      · rw [hlist, List.append_assoc, List.take_append_drop]
      · rw [List.take_append_of_le_length (by omega)]
        rfl
    have hnext : p._iovec.drop (i + 1) = buf :: bufs := by
      rw [← List.drop_drop, hiov]
      rfl
    rw [reOffsetFrom]
    by_cases hend : offset + ref.length = n
    · have hall : n - offset = ref.length := by omega
      simp only [hend, Nat.lt_irrefl, if_true, if_false]
      refine ⟨?_,[],buf,bufs,hbufs buf (by simp),fun b hb => hbufs b (by simp [hb]),?_,hnext,?_⟩
      · simp [sendFrontSuccess, hlist]
      · simp [sendFrontSuccess, hlist]
      · rw [hall, List.take_left]
        simp [sendFrontSuccess, hlist]
    · have hmore : offset + ref.length < n := by omega
      have hall : ref.length ≤ n - offset := by omega
      simp only [hmore, if_true]
      obtain ⟨hres,x',rest,bufs',hrest,hne,hl,hi,hsent⟩ := ih (p := p.sendFrontSuccess.1) (x := [])
        (i := i + 1) hnext (by simp [sendFrontSuccess, hlist])
        (fun b hb => hbufs b (by simp [hb])) hmore (by omega)
      refine ⟨?_,x',rest,bufs',hrest,hne,hl,hi,?_⟩
      · rw [List.append_assoc, hres]
        simp [sendFrontSuccess, hlist]
      · rw [List.flatten_append, List.append_assoc, hsent, List.take_append,
          List.take_of_length_le hall, Nat.sub_sub]
        simp [sendFrontSuccess, hlist]

/-- The buffers `sendmsg` completes get their result, in order; the bytes of these and of the part of the
next one that is sent are the bytes sent so far. -/
theorem Split.completes (h : p.Split x) {n : ℕ} (hn : 0 < n) (hle : n ≤ p.offered.length) :
    (p.send_l n).2 ++ (p.send_l n).1._pkt_list = p._pkt_list ∧
    p.pending = p.offered.take n ++ (p.send_l n).1.pending ∧
    ∃ x', (p.send_l n).2.flatten ++ x' = x ++ p.offered.take n ∧
      ((p.send_l n).1.empty = true ∧ (p.send_l n).1._pkt_list = [] ∧ (p.send_l n).1.pending = [] ∨
        (p.send_l n).1.empty = false ∧ (p.send_l n).1.Split x') := by
  obtain ⟨hcounted,hpending⟩ := send_l_spec h.isCounted hn hle h.remain_ne_zero
  have hoffered : p.offered.take n = p.pending.take n := by
    obtain ⟨y,hy⟩ := offered_initial h.remain_ne_zero
    rw [← hy, List.take_append_of_le_length hle]
  have htake : p.pending = p.pending.take n ++ (p.send_l n).1.pending := by
    rw [hpending, List.take_append_drop]
  rw [hoffered]
  by_cases hall : p._remain_size ≤ n
  · have hn : p.pending.take n = p.pending := List.take_of_length_le (by rw [h.isCounted]; exact hall)
    have hsend : p.send_l n = ({ p with _remain_size := 0, _pkt_list := [] },p._pkt_list) := if_pos hall
    rw [hsend] at htake ⊢
    refine ⟨List.append_nil _,htake,[],?_,.inl ⟨rfl,rfl,rfl⟩⟩
    rw [List.append_nil, h.flatten_eq, hn]
  · obtain ⟨rest,bufs,_,hbufs,hlist,hiov⟩ := h.front
    have hsend : p.send_l n = reOffsetFrom n (rest :: bufs) p._iovec_off 0
        { p with _remain_size := p._remain_size - n } := by
      rw [send_l, if_neg hall, reOffset, hiov]
    have hlen := h.counted
    rw [hiov] at hlen
    have hless : n < 0 + (rest :: bufs).flatten.length := by omega
    obtain ⟨hres,x',rest',bufs',hrest,hne,hl,hi,hsent⟩ := reOffsetFrom_split
      (p := { p with _remain_size := p._remain_size - n }) hiov hlist hbufs hn hless
    have hremain := (reOffsetFrom_spec (p := { p with _remain_size := p._remain_size - n })
      hiov hn hless).1
    rw [← hsend] at hres hl hi hsent hremain
    have hne0 : (p.send_l n).1._remain_size ≠ 0 := by
      rw [hremain]
      simp only
      omega
    have hcount : (p.send_l n).1._remain_size =
        ((p.send_l n).1._iovec.drop (p.send_l n).1._iovec_off).flatten.length := by
      rw [← hcounted, pending, if_neg hne0]
    refine ⟨hres,htake,x',?_,.inr ⟨decide_eq_false hne0,hcount,rest',bufs',hrest,hne,hl,hi⟩⟩
    rw [hsent, h.pending_eq, hiov]
    rfl

end BufferSendMsg
end OctCommu.Network
