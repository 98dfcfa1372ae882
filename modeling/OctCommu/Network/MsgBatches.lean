import OctCommu.Lib.Runs
import OctCommu.Network.BufferSendMsg
import Mathlib.Algebra.GroupWithZero.Nat

/-! # A packet over repeated sends

`send` calls `sendmsg` until the packet is empty or an error is returned. The
offsets of the packet are those of the bytes the kernel has taken, whatever it takes
each time.
-/
namespace OctCommu.Network.BufferSendMsg
open Runs
variable {B : Type*}

/-- What `sendmsg` returns: `-1` with `UV_EINTR`, `-1` with another error, or a number of bytes. -/
inductive SendMsgResult where
  | interrupted
  | failed
  | taken (n : ℕ)

/-- How many bytes the kernel says it has taken. -/
def SendMsgResult.bytes : SendMsgResult → ℕ
  | .taken n => n
  | _ => 0

def bytesTaken (rs : List SendMsgResult) : ℕ := (rs.map SendMsgResult.bytes).sum

/-- A packet, the callbacks `true` it has made and the bytes the kernel has taken of it. -/
structure Sending (B : Type*) where
  packet : BufferSendMsg B
  results : List (List B)
  accepted : List B

/-- The loop of `send`, with what each `sendmsg` returns. It is `none` when the kernel cannot answer so:
it takes at least one byte and at most what it is offered, and is not asked after the loop. -/
def sendLoop : Sending B → List SendMsgResult → Option (Sending B)
  | s, [] => some s
  | s, r :: rs =>
    if s.packet._remain_size = 0 then none
    else
      match r with
      | .interrupted => sendLoop s rs
      | .failed => if rs.isEmpty then some s else none
      | .taken n =>
        if 0 < n ∧ n ≤ s.packet.offered.length then
          let l := s.packet.send_l n
          sendLoop ⟨l.1,s.results ++ l.2,s.accepted ++ s.packet.offered.take n⟩ rs
        else none

/-- The answers may end before the loop does: the packet is then as it is in the middle of the call. -/
def send (s : Sending B) (rs : List SendMsgResult) : Option (ℤ × Sending B) :=
  let remain_size := s.packet._remain_size
  (sendLoop s rs).map fun t =>
    let sent : ℤ := remain_size - t.packet._remain_size
    (if 0 < sent then sent else -1,t)

def sendStep (s : Sending B) (rs : List SendMsgResult) : Option (Sending B) := (send s rs).map Prod.snd

def Sending.create (list : List (List B)) : Sending B := ⟨.create list,[],[]⟩

/-- What the offsets of a packet made of `list` say when `k` bytes are accepted. -/
structure Offsets (list : List (List B)) (k : ℕ) (s : Sending B) : Prop where
  remain : s.packet._remain_size + k = list.flatten.length
  accepted : s.accepted = list.flatten.take k
  sum : 0 < s.packet._remain_size →
    s.packet._remain_size = ((s.packet._iovec.drop s.packet._iovec_off).map List.length).sum
  described : 0 < s.packet._remain_size →
    (s.packet._iovec.drop s.packet._iovec_off).flatten = list.flatten.drop k
  entries : 0 < s.packet._remain_size →
    s.packet._pkt_list.length = (s.packet._iovec.drop s.packet._iovec_off).length
  inOrder : s.results <+: list
  fired : ∀ i < list.length, i < s.results.length ↔ (list.take (i + 1)).flatten.length ≤ k

/-- The value of a `send` is the number of bytes the kernel says it took during it. -/
def Returns (s : Sending B) : Prop :=
  ∀ rs v t, send s rs = some (v,t) → v = if bytesTaken rs = 0 then -1 else (bytesTaken rs : ℤ)

/-- The invariant of the loop: nothing is left, or the bytes taken end inside the front buffer. -/
structure Aligned (list : List (List B)) (s : Sending B) : Prop where
  bytes : s.accepted ++ s.packet.pending = list.flatten
  buffers : s.results ++ s.packet._pkt_list = list
  front : s.packet._remain_size = 0 ∧ s.packet._pkt_list = [] ∨
    ∃ x, s.packet.Split x ∧ s.results.flatten ++ x = s.accepted

variable {list : List (List B)} {s t : Sending B}

theorem aligned_create (h : ∀ buf ∈ list, buf ≠ []) : (Aligned list (.create list)) := by
  refine ⟨pending_create list,rfl,?_⟩
  cases list with
  | nil => exact .inl ⟨rfl,rfl⟩
  | cons buf bufs => exact .inr ⟨[],split_create h,rfl⟩

theorem Aligned.counted (h : Aligned list s) : s.packet.Counted := by
  rcases h.front with ⟨hzero,_⟩ | ⟨x,hx,_⟩
  · rw [Counted, pending, if_pos hzero, hzero]
    rfl
  · exact hx.isCounted

/-- One answer of the kernel. -/
theorem Aligned.taken (h : Aligned list s) {n : ℕ} (hn : 0 < n) (hle : n ≤ s.packet.offered.length)
    (hr : s.packet._remain_size ≠ 0) :
    Aligned list ⟨(s.packet.send_l n).1,s.results ++ (s.packet.send_l n).2,
      s.accepted ++ s.packet.offered.take n⟩ := by
  rcases h.front with ⟨hzero,_⟩ | ⟨x,hx,hsent⟩
  · exact absurd hzero hr
  obtain ⟨hlist,hpending,x',hx',hend⟩ := hx.completes hn hle
  refine ⟨?_,?_,?_⟩
  · simp only
    rw [List.append_assoc, ← hpending, h.bytes]
  · simp only
    rw [List.append_assoc, hlist, h.buffers]
  · rcases hend with ⟨hempty,hnil,_⟩ | ⟨_,hsplit⟩
    · exact .inl ⟨by simpa [empty] using hempty,hnil⟩
    · refine .inr ⟨x',hsplit,?_⟩
      simp only
      rw [List.flatten_append, List.append_assoc, hx', ← List.append_assoc, hsent]

/-- The loop keeps the invariant, and the packet loses as many bytes as the kernel says. -/
theorem Aligned.sendLoop {rs : List SendMsgResult} (h : Aligned list s)
    (ht : BufferSendMsg.sendLoop s rs = some t) :
    Aligned list t ∧ t.accepted.length = s.accepted.length + bytesTaken rs := by
  induction rs generalizing s with
  | nil =>
    cases ht
    exact ⟨h,rfl⟩
  | cons r rs ih =>
    cases r with
    | interrupted =>
      rw [BufferSendMsg.sendLoop, Option.ite_none_left_eq_some] at ht
      have hzero : bytesTaken (.interrupted :: rs) = bytesTaken rs := Nat.zero_add _
      rw [hzero]
      exact ih h ht.2
    | failed =>
      rw [BufferSendMsg.sendLoop, Option.ite_none_left_eq_some, Option.ite_none_right_eq_some] at ht
      have hlast : rs = [] := List.isEmpty_iff.mp ht.2.1
      cases ht.2.2
      rw [hlast]
      exact ⟨h,rfl⟩
    | taken n =>
      rw [BufferSendMsg.sendLoop, Option.ite_none_left_eq_some, Option.ite_none_right_eq_some] at ht
      obtain ⟨hr,⟨hn,hle⟩,ht⟩ := ht
      obtain ⟨hal,hlen⟩ := ih (h.taken hn hle hr) ht
      refine ⟨hal,?_⟩
      have hsum : bytesTaken (.taken n :: rs) = n + bytesTaken rs := List.sum_cons
      rw [hlen, hsum, List.length_append, List.length_take, Nat.min_eq_left hle, Nat.add_assoc]

theorem Aligned.remain (h : Aligned list s) :
    s.packet._remain_size + s.accepted.length = list.flatten.length := by
  rw [← h.bytes, List.length_append, h.counted, Nat.add_comm]

/-- The buffers whose last byte is taken are those with a callback. -/
theorem Aligned.fired (h : Aligned list s) {i : ℕ} (hi : i < list.length) :
    i < s.results.length ↔ (list.take (i + 1)).flatten.length ≤ s.accepted.length := by
  have hbuffers := h.buffers
  rcases h.front with ⟨hzero,hnil⟩ | ⟨x,hx,hsent⟩
  · have hlen := h.remain
    rw [hnil, List.append_nil] at hbuffers
    rw [hbuffers]
    refine iff_of_true hi ?_
    have hpre := (List.take_prefix (i + 1) list).flatten.length_le
    omega
  · obtain ⟨rest,bufs,hrest,_,hlist,_⟩ := hx.front
    have hpos := List.length_pos_iff.mpr hrest
    have hacc := congrArg List.length hsent
    rw [List.length_append] at hacc
    constructor
    · intro hlt
      rw [← hbuffers, List.take_append_of_le_length (by omega)]
      have hpre := (List.take_prefix (i + 1) s.results).flatten.length_le
      omega
    · intro hle
      by_contra hge
      -- the front buffer is among these, and its last byte is not taken
      have hfront : (s.results ++ [x ++ rest]) <+: list.take (i + 1) := by
        rw [List.prefix_take_iff]
        refine ⟨?_,by simp; omega⟩
        rw [← hbuffers, hlist]
        exact ⟨bufs,by simp⟩
      have hpre := hfront.flatten.length_le
      simp only [List.flatten_append, List.length_append, List.flatten_cons, List.flatten_nil,
        List.append_nil] at hpre
      omega

theorem Aligned.offsets {k : ℕ} (h : Aligned list s) (hk : s.accepted.length = k) : Offsets list k s := by
  subst hk
  have hsplit : 0 < s.packet._remain_size → ∃ x, s.packet.Split x := by
    intro hpos
    rcases h.front with ⟨hzero,_⟩ | ⟨x,hx,_⟩
    · exact absurd hzero (Nat.ne_of_gt hpos)
    · exact ⟨x,hx⟩
  have hpre : s.accepted <+: list.flatten := ⟨_,h.bytes⟩
  refine ⟨h.remain,List.prefix_iff_eq_take.mp hpre,?_,?_,?_,⟨_,h.buffers⟩,fun i hi => h.fired hi⟩
  · intro hpos
    obtain ⟨x,hx⟩ := hsplit hpos
    rw [hx.counted, List.length_flatten]
  · intro hpos
    obtain ⟨x,hx⟩ := hsplit hpos
    rw [← hx.pending_eq, ← h.bytes, List.drop_left]
  · intro hpos
    obtain ⟨x,hx⟩ := hsplit hpos
    obtain ⟨rest,bufs,_,_,hlist,hiov⟩ := hx.front
    rw [hlist, hiov]
    rfl

theorem Aligned.send {rs : List SendMsgResult} {v : ℤ} (h : Aligned list s)
    (hs : BufferSendMsg.send s rs = some (v,t)) : Aligned list t ∧
    t.accepted.length = s.accepted.length + bytesTaken rs ∧
    v = if bytesTaken rs = 0 then -1 else (bytesTaken rs : ℤ) := by
  obtain ⟨u,hu,hv⟩ := Option.map_eq_some_iff.mp hs
  obtain ⟨hval,rfl⟩ := Prod.mk.inj hv
  obtain ⟨ht,hlen⟩ := h.sendLoop hu
  refine ⟨ht,hlen,?_⟩
  have hs := h.remain
  have ht := ht.remain
  have hsent : (s.packet._remain_size : ℤ) - u.packet._remain_size = bytesTaken rs := by omega
  rw [← hval, hsent]
  split_ifs <;> omega

theorem Aligned.run {sends : List (List SendMsgResult)} (h : Aligned list s)
    (hs : exec sendStep s sends = some t) :
    Aligned list t ∧ t.accepted.length = s.accepted.length + bytesTaken sends.flatten := by
  induction sends generalizing s with
  | nil =>
    cases hs
    exact ⟨h,rfl⟩
  | cons rs sends ih =>
    obtain ⟨u,hu,hs⟩ := Option.bind_eq_some_iff.mp hs
    obtain ⟨⟨v,w⟩,hw,rfl⟩ := Option.map_eq_some_iff.mp hu
    obtain ⟨hal,hlen,_⟩ := h.send hw
    obtain ⟨ht,hrest⟩ := ih hal hs
    refine ⟨ht,?_⟩
    have hsum : bytesTaken (rs :: sends).flatten = bytesTaken rs + bytesTaken sends.flatten := by
      simp [bytesTaken]
    rw [hrest, hlen, hsum, Nat.add_assoc]

/-- In every state of every run the offsets are exact for the bytes that `sendmsg` says it took, and a
`send` returns those it says it took during that call. -/
theorem offsets_of_sends (list : List (List B)) (h : ∀ buf ∈ list, buf ≠ [])
    (sends : List (List SendMsgResult)) (s : Sending B)
    (hs : exec sendStep (.create list) sends = some s) :
    Offsets list (bytesTaken sends.flatten) s ∧ Returns s := by
  obtain ⟨hal,hlen⟩ := (aligned_create h).run hs
  refine ⟨hal.offsets (hlen.trans (Nat.zero_add _)),?_⟩
  intro rs v t ht
  exact (hal.send ht).2.2

theorem offsets_of_sends_partial : ∃ s, exec sendStep (.create [[1,2,3],[4],[5,6]])
      [[.taken 2,.interrupted,.failed],[.taken 2]] = some s ∧
    Offsets [[1,2,3],[4],[5,6]] 4 s ∧ Returns s :=
  ⟨_,rfl,offsets_of_sends [[1,2,3],[4],[5,6]] (by decide) [[.taken 2,.interrupted,.failed],[.taken 2]] _
    rfl⟩

end OctCommu.Network.BufferSendMsg
