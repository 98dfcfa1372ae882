import OctCommu.Lib.Runs
import Mathlib.Algebra.GroupWithZero.Nat
import Mathlib.Tactic.Common

/-! # The datagrams of a packet over repeated sends

The headers of a packet point into a vector of its own for the `iovec` entries, and
the kernel answers each `sendmmsg` as it likes. Headers, entries and callbacks
stay aligned, so each datagram goes out once.
-/
namespace OctCommu.Network.MMsgBatches
open Runs
variable {A B : Type*}

/-- A header; `msg_iov` is the index of the entry of `_iovec` it points to. -/
structure MMsgHdr (A : Type*) where
  msg_name : Option A
  msg_iov : ℕ
  msg_len : ℕ
  deriving DecidableEq

/-- A datagram is its address, if it has one, and its bytes. -/
structure Packet (A B : Type*) where
  _remain_size : ℕ
  _iovec : List (List B)
  _hdrvec : List (MMsgHdr A)
  _pkt_list : List (Option A × List B)

/-- The headers of the constructor from entry `i` on. -/
def headers : ℕ → List (Option A × List B) → List (MMsgHdr A)
  | _, [] => []
  | i, d :: ds => ⟨d.1,i,0⟩ :: headers (i + 1) ds

namespace Packet

def create (list : List (Option A × List B)) : Packet A B where
  _remain_size := list.foldl (fun n d => n + d.2.length) 0
  _iovec := list.map Prod.snd
  _hdrvec := headers 0 list
  _pkt_list := list

def empty (p : Packet A B) : Bool := p._remain_size = 0

/-- The bytes that a header points to. -/
def io (p : Packet A B) (hdr : MMsgHdr A) : List B := p._iovec.getD hdr.msg_iov []

/-- The callbacks `true` of these functions are returned as the list of their buffers. -/
def sendFrontSuccess (p : Packet A B) : Packet A B × List (Option A × List B) :=
  ({ p with _pkt_list := p._pkt_list.tail },p._pkt_list.head?.toList)

/-- The loop of `reOffset` from some header on. -/
def reOffsetFrom : List (MMsgHdr A) → Packet A B → Packet A B × List (Option A × List B)
  | [], p => ({ p with _hdrvec := [] },[])
  | hdr :: hdrs, p =>
    let q := { p with _remain_size := p._remain_size - hdr.msg_len }
    if hdr.msg_len = (p.io hdr).length then
      let r := q.sendFrontSuccess
      let t := reOffsetFrom hdrs r.1
      (t.1,r.2 ++ t.2)
    else
      ({ q with
        _iovec := q._iovec.set hdr.msg_iov ((p.io hdr).drop hdr.msg_len)
        _hdrvec := hdr :: hdrs },[])

def reOffset (p : Packet A B) : Packet A B × List (Option A × List B) := reOffsetFrom p._hdrvec p

/-- The headers after `sendmmsg` has sent so many of them whole. -/
def marked (p : Packet A B) : ℕ → List (MMsgHdr A) → List (MMsgHdr A)
  | n + 1, hdr :: hdrs => { hdr with msg_len := (p.io hdr).length } :: marked p n hdrs
  | _, hdrs => hdrs

end Packet

/-- What `sendmmsg` returns: `-1` with `UV_EINTR`, `-1` with another error, or a number of datagrams. -/
inductive SendMMsgResult where
  | interrupted
  | failed
  | sent (n : ℕ)

/-- How many datagrams the kernel says it has sent. -/
def SendMMsgResult.count : SendMMsgResult → ℕ
  | .sent n => n
  | _ => 0

def countSent (rs : List SendMMsgResult) : ℕ := (rs.map SendMMsgResult.count).sum

/-- A packet, the callbacks `true` it has made and the datagrams the kernel has taken. -/
structure Sending (A B : Type*) where
  packet : Packet A B
  results : List (Option A × List B)
  wire : List (Option A × List B)

/-- `send_l` when `sendmmsg` returns `n`. -/
def send_l (s : Sending A B) (n : ℕ) : Sending A B :=
  let p := { s.packet with _hdrvec := s.packet.marked n s.packet._hdrvec }
  let r := if 0 < n then p.reOffset else (p,[])
  { packet := r.1
    results := s.results ++ r.2
    wire := s.wire ++ (s.packet._hdrvec.take n).map fun hdr => (hdr.msg_name,s.packet.io hdr) }

/-- The loop of `send`, with what each `sendmmsg` returns. It is `none` when the kernel cannot answer so:
it sends no more than it is given, and is not asked after the loop. -/
def sendLoop : Sending A B → List SendMMsgResult → Option (Sending A B)
  | s, [] => some s
  | s, r :: rs =>
    if s.packet._remain_size = 0 then none
    else
      match r with
      | .interrupted => sendLoop s rs
      | .failed => if rs.isEmpty then some s else none
      | .sent n => if n ≤ s.packet._hdrvec.length then sendLoop (send_l s n) rs else none

/-- The answers may end before the loop does: the packet is then as it is in the middle of the call. -/
def send (s : Sending A B) (rs : List SendMMsgResult) : Option (ℤ × Sending A B) :=
  let remain_size := s.packet._remain_size
  (sendLoop s rs).map fun t =>
    let sent : ℤ := remain_size - t.packet._remain_size
    (if 0 < sent then sent else -1,t)

def sendStep (s : Sending A B) (rs : List SendMMsgResult) : Option (Sending A B) :=
  (send s rs).map Prod.snd

def Sending.create (list : List (Option A × List B)) : Sending A B := ⟨.create list,[],[]⟩

/-- Of a packet made of `list` exactly the first `k` datagrams were sent, and the packet says so. -/
structure Exact (list : List (Option A × List B)) (k : ℕ) (s : Sending A B) : Prop where
  le : k ≤ list.length
  wire : s.wire = list.take k
  results : s.results = list.take k
  remain : s.packet._remain_size = ((list.drop k).map fun d => d.2.length).sum
  empty : s.packet.empty = true ↔ k = list.length

/-- The invariant: the vectors are those of the constructor for what is left. -/
structure Aligned (list : List (Option A × List B)) (s : Sending A B) (i : ℕ) : Prop where
  le : i ≤ list.length
  wire : s.wire = list.take i
  results : s.results = list.take i
  left : s.packet._pkt_list = list.drop i
  iovec : s.packet._iovec = list.map Prod.snd
  hdrvec : s.packet._hdrvec = headers i (list.drop i)
  remain : s.packet._remain_size = ((list.drop i).map fun d => d.2.length).sum

variable {list ds : List (Option A × List B)} {s t : Sending A B} {p : Packet A B} {i n : ℕ}

@[simp] theorem length_headers (i : ℕ) (ds : List (Option A × List B)) :
    (headers i ds).length = ds.length := by
  induction ds generalizing i with
  | nil => rfl
  | cons d ds ih => simp [headers, ih]

/-- The first header points to the first entry that is left. -/
theorem io_front {d : Option A × List B} (h : p._iovec.drop i = (d :: ds).map Prod.snd) (l : ℕ)
    (a : Option A) : p.io ⟨a,i,l⟩ = d.2 := by
  have hget : p._iovec[i]? = some d.2 := by
    rw [← List.head?_drop, h]
    rfl
  rw [Packet.io, List.getD_eq_getElem?_getD, hget]
  rfl

theorem drop_next {d : Option A × List B} (h : p._iovec.drop i = (d :: ds).map Prod.snd) :
    p._iovec.drop (i + 1) = ds.map Prod.snd := by
  rw [← List.drop_drop, h]
  rfl

/-- What the kernel takes are the datagrams themselves. -/
theorem taken_eq (h : p._iovec.drop i = ds.map Prod.snd) (n : ℕ) :
    ((headers i ds).take n).map (fun hdr => (hdr.msg_name,p.io hdr)) = ds.take n := by
  induction ds generalizing i n with
  | nil => simp [headers]
  | cons d ds ih =>
    cases n with
    | zero => rfl
    | succ n =>
      simp only [headers, List.take_succ_cons, List.map_cons]
      rw [io_front h, ih (drop_next h)]

/-- `reOffset` drops the headers that are sent, and leaves the entries of the others as they are. -/
theorem reOffsetFrom_marked (h : p._iovec.drop i = ds.map Prod.snd) (hne : ∀ d ∈ ds, d.2 ≠ [])
    (hn : n ≤ ds.length) {q : Packet A B} (hq : q._iovec = p._iovec) :
    Packet.reOffsetFrom (p.marked n (headers i ds)) q =
      ({ q with
        _remain_size := q._remain_size - ((ds.take n).map fun d => d.2.length).sum
        _hdrvec := headers (i + n) (ds.drop n)
        _pkt_list := q._pkt_list.drop n },q._pkt_list.take n) := by
  induction ds generalizing i n q with
  | nil =>
    obtain rfl : n = 0 := Nat.le_zero.mp hn
    rfl
  | cons d ds ih =>
    have hio : q.io ⟨d.1,i,0⟩ = d.2 := by rw [← io_front h 0 d.1, Packet.io, hq]; rfl
    cases n with
    | zero =>
      have hlen : ¬0 = d.2.length := Nat.ne_of_lt (List.length_pos_iff.mpr (hne d List.mem_cons_self))
      have hset : q._iovec.set i d.2 = q._iovec := by
        rw [hq]
        apply List.ext_getElem?
        intro j
        rw [List.getElem?_set]
        split_ifs with hij hlt
        · rw [← hij, ← List.head?_drop, h]
          rfl
        · rw [← hij, List.getElem?_eq_none (by omega)]
        · rfl
      simp only [Packet.marked, headers, Packet.reOffsetFrom, hio, hlen, if_false, List.drop_zero,
        hset, Nat.sub_zero, List.take_zero, List.map_nil, List.sum_nil, Nat.add_zero]
    | succ n =>
      have hmark : q.io ⟨d.1,i,d.2.length⟩ = d.2 := hio
      simp only [Packet.marked, headers, io_front h, Packet.reOffsetFrom, hmark, if_true]
      have hnext := ih (drop_next h) (fun b hb => hne b (by simp [hb])) (Nat.le_of_succ_le_succ hn)
        (q := { q with _remain_size := q._remain_size - d.2.length }.sendFrontSuccess.1) hq
      rw [hnext]
      have hidx : i + 1 + n = i + (n + 1) := by omega
      cases hlist : q._pkt_list with
      | nil => simp [Packet.sendFrontSuccess, Nat.sub_sub, hidx]
      | cons b bs => simp [Packet.sendFrontSuccess, Nat.sub_sub, hidx]

theorem aligned_create (list : List (Option A × List B)) : Aligned list (.create list) 0 := by
  refine ⟨Nat.zero_le _,rfl,rfl,rfl,rfl,rfl,?_⟩
  rw [List.drop_zero, List.sum_eq_foldl, List.foldl_map]
  rfl

theorem Aligned.drop (h : Aligned list s i) :
    s.packet._iovec.drop i = (list.drop i).map Prod.snd := by
  rw [h.iovec, List.map_drop]

/-- One answer of the kernel. -/
theorem Aligned.send_l (h : Aligned list s i) (hne : ∀ d ∈ list, d.2 ≠ [])
    (hn : n ≤ s.packet._hdrvec.length) : Aligned list (MMsgBatches.send_l s n) (i + n) := by
  rw [h.hdrvec, length_headers] at hn
  have hle : i + n ≤ list.length := by
    have hi := h.le
    rw [List.length_drop] at hn
    omega
  have hwire : s.wire ++ (s.packet._hdrvec.take n).map (fun hdr => (hdr.msg_name,s.packet.io hdr)) =
      list.take (i + n) := by
    rw [h.hdrvec, taken_eq h.drop, h.wire, ← List.take_add]
  have hsum : ((list.drop i).map fun d => d.2.length).sum =
      (((list.drop i).take n).map fun d => d.2.length).sum +
        ((list.drop (i + n)).map fun d => d.2.length).sum := by
    rw [← List.sum_append, ← List.map_append, ← List.drop_drop, List.take_append_drop]
  by_cases hpos : 0 < n
  · have hr := reOffsetFrom_marked h.drop (fun d hd => hne d (List.mem_of_mem_drop hd)) hn
      (q := { s.packet with _hdrvec := s.packet.marked n (headers i (list.drop i)) }) rfl
    simp only [MMsgBatches.send_l, hpos, if_true, Packet.reOffset]
    rw [hwire, h.hdrvec, hr]
    refine ⟨hle,rfl,?_,?_,h.iovec,?_,?_⟩
    · simp only [h.results, h.left, ← List.take_add]
    · simp only [h.left, List.drop_drop]
    · simp only [List.drop_drop]
    · simp only [h.remain]
      omega
  · obtain rfl : n = 0 := Nat.eq_zero_of_not_pos hpos
    simp only [MMsgBatches.send_l, Nat.lt_irrefl, if_false]
    refine ⟨hle,hwire,?_,h.left,h.iovec,?_,h.remain⟩
    · rw [List.append_nil, h.results]
      rfl
    · simp only [Packet.marked, h.hdrvec, Nat.add_zero]

theorem Aligned.sendLoop {rs : List SendMMsgResult} (h : Aligned list s i) (hne : ∀ d ∈ list, d.2 ≠ [])
    (ht : MMsgBatches.sendLoop s rs = some t) : Aligned list t (i + countSent rs) := by
  induction rs generalizing s i with
  | nil =>
    cases ht
    exact h
  | cons r rs ih =>
    cases r with
    | interrupted =>
      rw [MMsgBatches.sendLoop, Option.ite_none_left_eq_some] at ht
      have hzero : countSent (.interrupted :: rs) = countSent rs := Nat.zero_add _
      rw [hzero]
      exact ih h ht.2
    | failed =>
      rw [MMsgBatches.sendLoop, Option.ite_none_left_eq_some, Option.ite_none_right_eq_some] at ht
      have hlast : rs = [] := List.isEmpty_iff.mp ht.2.1
      cases ht.2.2
      rw [hlast]
      exact h
    | sent n =>
      rw [MMsgBatches.sendLoop, Option.ite_none_left_eq_some, Option.ite_none_right_eq_some] at ht
      have hsum : countSent (.sent n :: rs) = n + countSent rs := List.sum_cons
      rw [hsum, ← Nat.add_assoc]
      exact ih (h.send_l hne ht.2.1) ht.2.2

theorem Aligned.run {sends : List (List SendMMsgResult)} (h : Aligned list s i)
    (hne : ∀ d ∈ list, d.2 ≠ []) (ht : exec sendStep s sends = some t) :
    Aligned list t (i + countSent sends.flatten) := by
  induction sends generalizing s i with
  | nil =>
    cases ht
    exact h
  | cons rs sends ih =>
    obtain ⟨u,hu,ht⟩ := Option.bind_eq_some_iff.mp ht
    obtain ⟨⟨v,w⟩,hw,rfl⟩ := Option.map_eq_some_iff.mp hu
    obtain ⟨x,hx,hv⟩ := Option.map_eq_some_iff.mp hw
    cases hv
    have hsum : countSent (rs :: sends).flatten = countSent rs + countSent sends.flatten := by
      simp [countSent]
    rw [hsum, ← Nat.add_assoc]
    exact ih (h.sendLoop hne hx) ht

theorem Aligned.exact (h : Aligned list s i) (hne : ∀ d ∈ list, d.2 ≠ []) : Exact list i s := by
  refine ⟨h.le,h.wire,h.results,h.remain,?_⟩
  have hzero : s.packet._remain_size = 0 ↔ list.drop i = [] := by
    rw [h.remain, List.sum_eq_zero_iff_forall_eq_nat]
    constructor
    · intro hall
      apply List.eq_nil_iff_forall_not_mem.mpr
      intro d hd
      have hlen := hall d.2.length (List.mem_map_of_mem (f := fun d => d.2.length) hd)
      exact hne d (List.mem_of_mem_drop hd) (List.length_eq_zero_iff.mp hlen)
    · intro hnil
      simp [hnil]
  have hi := h.le
  rw [Packet.empty, decide_eq_true_iff, hzero, List.drop_eq_nil_iff]
  omega

/-! ### Any number of sends -/

/-- In every state of every run exactly the datagrams that `sendmmsg` says it sent were sent, each once,
whole and in order. -/
theorem exact_of_sends (list : List (Option A × List B)) (h : ∀ d ∈ list, d.2 ≠ [])
    (sends : List (List SendMMsgResult)) (s : Sending A B)
    (hs : exec sendStep (.create list) sends = some s) : Exact list (countSent sends.flatten) s := by
  have hal := (aligned_create list).run h hs
  rw [Nat.zero_add] at hal
  exact hal.exact h

theorem exact_of_sends_partial : ∃ s, exec sendStep (.create [(some 7,[1,2]),(none,[3]),(some 8,[4,5,6])])
      [[.sent 1,.failed],[.interrupted,.sent 1]] = some s ∧
    Exact [(some 7,[1,2]),(none,[3]),(some 8,[4,5,6])] 2 s :=
  ⟨_,rfl,exact_of_sends [(some 7,[1,2]),(none,[3]),(some 8,[4,5,6])] (by decide)
    [[.sent 1,.failed],[.interrupted,.sent 1]] _ rfl⟩

end OctCommu.Network.MMsgBatches
