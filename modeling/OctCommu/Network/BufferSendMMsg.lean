import Mathlib.Algebra.GroupWithZero.Nat
import Mathlib.Data.List.Basic
import Mathlib.Tactic.Common

/-! # The datagram packet `BufferSendMMsg`

A packet sends a list of datagrams with `sendmmsg`, which stops at the first one it
cannot send and returns how many it has sent, or `-1` if that is none. The kernel takes a
datagram whole; what it answers to each is fixed in advance.
-/
namespace OctCommu.Network
variable {A : Type*}

inductive Errno where
  | UV_EAGAIN
  | other
  deriving DecidableEq

/-- A buffer with its peer, if it has one. To the kernel it is `UV_EAGAIN` for `agains` attempts, and
behind these either fails or is taken. -/
structure BufferSock (A : Type*) where
  sockaddr : Option A
  data : List UInt8
  agains : ℕ
  fails : Bool
  deriving DecidableEq

/-- What goes over the wire. -/
def BufferSock.content (d : BufferSock A) : Option A × List UInt8 := (d.sockaddr,d.data)

/-- An entry of `_hdrvec` with the datagram it is of; `agains` counts the attempts to come. The `iovec` is
modelled by the bytes it describes. -/
structure MMsgHdr (A : Type*) where
  datagram : BufferSock A
  msg_iov : List UInt8
  msg_len : ℕ
  agains : ℕ

structure BufferSendMMsg (A : Type*) where
  _remain_size : ℕ
  _hdrvec : List (MMsgHdr A)
  _pkt_list : List (BufferSock A)

/-- The most datagrams one `sendmmsg` takes. -/
def UIO_MAXIOV : ℕ := 1024

/-- The kernel from some entry on, with room for so many: how many it sends, what it stops at, the
entries with their `msg_len`, and what it has sent. -/
def sendmmsg : ℕ → List (MMsgHdr A) →
    ℕ × Option Errno × List (MMsgHdr A) × List (Option A × List UInt8)
  | 0, hdrs => (0,none,hdrs,[])
  | _ + 1, [] => (0,none,[],[])
  | k + 1, hdr :: hdrs =>
    if 0 < hdr.agains then (0,some .UV_EAGAIN,{ hdr with agains := hdr.agains - 1 } :: hdrs,[])
    else if hdr.datagram.fails then (0,some .other,hdr :: hdrs,[])
    else
      let r := sendmmsg k hdrs
      (r.1 + 1,r.2.1,{ hdr with msg_len := hdr.msg_iov.length } :: r.2.2.1,
        (hdr.datagram.sockaddr,hdr.msg_iov) :: r.2.2.2)

namespace BufferSendMMsg

def create (list : List (BufferSock A)) : BufferSendMMsg A where
  _remain_size := list.foldl (fun n d => n + d.data.length) 0
  _hdrvec := list.map fun d => ⟨d,d.data,0,d.agains⟩
  _pkt_list := list

def empty (p : BufferSendMMsg A) : Bool := p._remain_size = 0

/-- The callbacks `true` of these functions are returned as the list of their buffers. -/
def sendFrontSuccess (p : BufferSendMMsg A) : BufferSendMMsg A × List (BufferSock A) :=
  ({ p with _pkt_list := p._pkt_list.tail },p._pkt_list.head?.toList)

/-- The loop over `_hdrvec`; the number of datagrams sent is not looked at. -/
def reOffsetFrom : List (MMsgHdr A) → BufferSendMMsg A → BufferSendMMsg A × List (BufferSock A)
  | [], p => ({ p with _hdrvec := [] },[])
  | hdr :: hdrs, p =>
    let p := { p with _remain_size := p._remain_size - hdr.msg_len }
    if hdr.msg_len = hdr.msg_iov.length then
      let r := p.sendFrontSuccess
      let t := reOffsetFrom hdrs r.1
      (t.1,r.2 ++ t.2)
    else ({ p with _hdrvec := { hdr with msg_iov := hdr.msg_iov.drop hdr.msg_len } :: hdrs },[])

def reOffset (p : BufferSendMMsg A) : BufferSendMMsg A × List (BufferSock A) :=
  reOffsetFrom p._hdrvec p

/-- What a send leaves: the packet, the error if it returned `-1`, the results and what was sent. -/
structure Sent (A : Type*) where
  packet : BufferSendMMsg A
  error : Option Errno
  results : List (BufferSock A)
  wire : List (Option A × List UInt8)

def send_l (p : BufferSendMMsg A) : Sent A :=
  let k := sendmmsg UIO_MAXIOV p._hdrvec
  let p := { p with _hdrvec := k.2.2.1 }
  if 0 < k.1 then
    let r := p.reOffset
    ⟨r.1,none,r.2,k.2.2.2⟩
  else ⟨p,k.2.1,[],k.2.2.2⟩

/-- The loop of `send`, for at most so many rounds. -/
def sendLoop : ℕ → BufferSendMMsg A → Sent A
  | 0, p => ⟨p,none,[],[]⟩
  | n + 1, p =>
    if p._remain_size = 0 then ⟨p,none,[],[]⟩
    else
      let r := p.send_l
      match r.error with
      | some _ => r
      | none =>
        let t := sendLoop n r.packet
        ⟨t.packet,t.error,r.results ++ t.results,r.wire ++ t.wire⟩

/-- Every round but the last takes a datagram off the packet. It returns `-1` when nothing was sent. -/
def send (p : BufferSendMMsg A) : Sent A := p.sendLoop p._hdrvec.length

/-- Before an attempt: nothing of what is left was sent. -/
structure Ready (p : BufferSendMMsg A) : Prop where
  datagrams : p._hdrvec.map MMsgHdr.datagram = p._pkt_list
  unsent : ∀ hdr ∈ p._hdrvec, hdr.msg_len = 0 ∧ hdr.msg_iov = hdr.datagram.data ∧ hdr.msg_iov ≠ []
  size : p._remain_size = (p._hdrvec.map fun hdr => hdr.msg_iov.length).sum

/-- The attempts that the datagrams of the packet take. -/
def weight (p : BufferSendMMsg A) : ℕ := (p._hdrvec.map fun hdr => hdr.agains + 1).sum

theorem ready_create {list : List (BufferSock A)} (h : ∀ d ∈ list, d.data ≠ []) :
    (create list).Ready := by
  have hsum (n : ℕ) : list.foldl (fun n d => n + d.data.length) n =
      n + (list.map fun d => d.data.length).sum := by
    clear h
    induction list generalizing n with
    | nil => simp
    | cons d ds ih =>
      rw [List.foldl_cons, ih, List.map_cons, List.sum_cons, Nat.add_assoc]
  refine ⟨?_,?_,?_⟩
  · simp [create, Function.comp_def]
  · intro hdr hhdr
    obtain ⟨d,hd,rfl⟩ := List.mem_map.mp hhdr
    exact ⟨rfl,rfl,h d hd⟩
  · simp [create, hsum, Function.comp_def]

theorem weight_create (list : List (BufferSock A)) :
    (create list).weight = (list.map fun d => d.agains + 1).sum := by
  simp [create, weight, Function.comp_def]

/-- How `sendmmsg` leaves the entries it did not send. -/
inductive Stops : List (MMsgHdr A) → Option Errno → List (MMsgHdr A) → Prop where
  | full (hdrs) : Stops hdrs none hdrs
  | again (hdr hdrs) (h : 0 < hdr.agains) :
    Stops (hdr :: hdrs) (some .UV_EAGAIN) ({ hdr with agains := hdr.agains - 1 } :: hdrs)
  | fails (hdr hdrs) (h : hdr.datagram.fails = true) : Stops (hdr :: hdrs) (some .other) (hdr :: hdrs)

theorem Stops.kept {hdrs hdrs' : List (MMsgHdr A)} {e : Option Errno} (h : Stops hdrs e hdrs') :
    hdrs'.map MMsgHdr.datagram = hdrs.map MMsgHdr.datagram ∧
    (hdrs'.map fun hdr => hdr.msg_iov.length) = (hdrs.map fun hdr => hdr.msg_iov.length) ∧
    ∀ hdr ∈ hdrs', ∃ hdr₀ ∈ hdrs, hdr.datagram = hdr₀.datagram ∧ hdr.msg_len = hdr₀.msg_len ∧
      hdr.msg_iov = hdr₀.msg_iov := by
  cases h with
  | full => exact ⟨rfl,rfl,fun hdr hh => ⟨hdr,hh,rfl,rfl,rfl⟩⟩
  | again hdr hdrs _ =>
    refine ⟨rfl,rfl,?_⟩
    intro x hx
    rcases List.mem_cons.mp hx with rfl | hx
    · exact ⟨hdr,by simp,rfl,rfl,rfl⟩
    · exact ⟨x,by simp [hx],rfl,rfl,rfl⟩
  | fails hdr hdrs _ => exact ⟨rfl,rfl,fun hdr hh => ⟨hdr,hh,rfl,rfl,rfl⟩⟩

theorem Stops.weight {hdrs hdrs' : List (MMsgHdr A)} {e : Option Errno} (h : Stops hdrs e hdrs') :
    (hdrs'.map fun hdr => hdr.agains + 1).sum ≤ (hdrs.map fun hdr => hdr.agains + 1).sum ∧
    (e = some .UV_EAGAIN →
      (hdrs'.map fun hdr => hdr.agains + 1).sum < (hdrs.map fun hdr => hdr.agains + 1).sum) ∧
    (e = some .other → ∃ d ∈ (hdrs'.map MMsgHdr.datagram).head?, d.fails = true) := by
  cases h with
  | full => exact ⟨Nat.le_refl _,by simp,by simp⟩
  | again hdr hdrs h =>
    simp only [List.map_cons, List.sum_cons]
    refine ⟨by omega,fun _ => by omega,fun h => by cases h⟩
  | fails hdr hdrs h => exact ⟨Nat.le_refl _,by simp,fun _ => ⟨hdr.datagram,by simp,h⟩⟩

theorem sendmmsg_spec (k : ℕ) (hdrs : List (MMsgHdr A)) : ∃ pre suf suf', hdrs = pre ++ suf ∧
    (∀ hdr ∈ pre, hdr.datagram.fails = false) ∧ Stops suf (sendmmsg k hdrs).2.1 suf' ∧
    sendmmsg k hdrs = (pre.length,(sendmmsg k hdrs).2.1,
      (pre.map fun hdr => { hdr with msg_len := hdr.msg_iov.length }) ++ suf',
      pre.map fun hdr => (hdr.datagram.sockaddr,hdr.msg_iov)) ∧
    ((sendmmsg k hdrs).2.1 = none → k ≤ pre.length ∨ suf = []) := by
  induction k generalizing hdrs with
  | zero => exact ⟨[],hdrs,hdrs,rfl,by simp,.full hdrs,rfl,fun _ => .inl (Nat.zero_le _)⟩
  | succ k ih =>
    cases hdrs with
    | nil => exact ⟨[],[],[],rfl,by simp,.full [],rfl,fun _ => .inr rfl⟩
    | cons hdr hdrs =>
      simp only [sendmmsg]
      by_cases ha : 0 < hdr.agains
      · rw [if_pos ha]
        exact ⟨[],hdr :: hdrs,_,rfl,by simp,.again hdr hdrs ha,rfl,fun h => by cases h⟩
      rw [if_neg ha]
      by_cases hf : hdr.datagram.fails = true
      · rw [if_pos hf]
        exact ⟨[],hdr :: hdrs,_,rfl,by simp,.fails hdr hdrs hf,rfl,fun h => by cases h⟩
      rw [if_neg hf]
      obtain ⟨pre,suf,suf',hsplit,hpre,hstops,heq,hall⟩ := ih hdrs
      refine ⟨hdr :: pre,suf,suf',by rw [hsplit, List.cons_append],?_,hstops,?_,?_⟩
      · exact List.forall_mem_cons.mpr ⟨Bool.eq_false_iff.mpr hf,hpre⟩
      · rw [heq]
        rfl
      · intro h
        exact (hall h).imp_left Nat.succ_le_succ

theorem reOffsetFrom_sent {suf : List (MMsgHdr A)}
    (hsuf : ∀ hdr ∈ suf, hdr.msg_len = 0 ∧ hdr.msg_iov ≠ []) (pre : List (MMsgHdr A))
    (p : BufferSendMMsg A) :
    reOffsetFrom ((pre.map fun hdr => { hdr with msg_len := hdr.msg_iov.length }) ++ suf) p =
      ({ p with
        _remain_size := p._remain_size - (pre.map fun hdr => hdr.msg_iov.length).sum
        _hdrvec := suf
        _pkt_list := p._pkt_list.drop pre.length },p._pkt_list.take pre.length) := by
  induction pre generalizing p with
  | nil =>
    cases suf with
    | nil => simp [reOffsetFrom]
    | cons hdr hdrs =>
      obtain ⟨d,msg_iov,msg_len,agains⟩ := hdr
      obtain ⟨hlen,hiov⟩ := hsuf _ List.mem_cons_self
      simp only at hlen hiov
      have hne : 0 ≠ msg_iov.length := Nat.ne_of_lt (List.length_pos_iff.mpr hiov)
      simp [reOffsetFrom, hlen, hne]
  | cons hdr pre ih =>
    simp only [List.map_cons, List.cons_append, reOffsetFrom, if_true]
    rw [ih]
    cases hlist : p._pkt_list with
    | nil => simp [sendFrontSuccess, Nat.sub_sub]
    | cons d ds => simp [sendFrontSuccess, Nat.sub_sub]

/-- A send of `p` takes `pre` off its front; what it stops at says which error it returns. -/
structure Takes (p : BufferSendMMsg A) (r : Sent A) (pre : List (BufferSock A)) : Prop where
  list : p._pkt_list = pre ++ r.packet._pkt_list
  taken : ∀ d ∈ pre, d.fails = false
  results : r.results = pre
  wire : r.wire = pre.map BufferSock.content
  ready : r.packet.Ready
  weight : r.packet.weight + pre.length ≤ p.weight
  size : r.packet._remain_size + (pre.map fun d => d.data.length).sum = p._remain_size
  again : r.error = some .UV_EAGAIN → r.packet.weight < p.weight
  fails : r.error = some .other → ∃ d ∈ r.packet._pkt_list.head?, d.fails = true

variable {p : BufferSendMMsg A}

theorem send_l_takes (hp : p.Ready) (hne : p._hdrvec ≠ []) : ∃ pre, Takes p p.send_l pre ∧
    (p.send_l.error = none → pre ≠ []) := by
  obtain ⟨pre,suf,suf',hsplit,hpre,hstops,heq,hall⟩ := sendmmsg_spec UIO_MAXIOV p._hdrvec
  obtain ⟨hdatagrams,hsizes,hkept⟩ := hstops.kept
  obtain ⟨hweight,hagain,hfails⟩ := hstops.weight
  have hunsent : ∀ hdr ∈ suf', hdr.msg_len = 0 ∧ hdr.msg_iov = hdr.datagram.data ∧ hdr.msg_iov ≠ [] := by
    intro hdr hh
    obtain ⟨hdr₀,hmem,hd,hl,hi⟩ := hkept hdr hh
    rw [hd, hl, hi]
    exact hp.unsent hdr₀ (by rw [hsplit]; exact List.mem_append_right _ hmem)
  have hlist : p._pkt_list = pre.map MMsgHdr.datagram ++ suf'.map MMsgHdr.datagram := by
    rw [← hp.datagrams, hsplit, List.map_append, hdatagrams]
  have hsize : p._remain_size = (pre.map fun hdr => hdr.msg_iov.length).sum +
      (suf'.map fun hdr => hdr.msg_iov.length).sum := by
    rw [hp.size, hsplit, List.map_append, List.sum_append, hsizes]
  have hless : pre.length + (suf'.map fun hdr => hdr.agains + 1).sum ≤ p.weight := by
    have hlen : pre.length ≤ (pre.map fun hdr => hdr.agains + 1).sum := by
      clear hsplit heq hpre hall hlist hsize
      induction pre with
      | nil => simp
      | cons hdr pre ih =>
        simp only [List.length_cons, List.map_cons, List.sum_cons]
        omega
    rw [weight, hsplit, List.map_append, List.sum_append]
    omega
  by_cases hnil : pre = []
  · subst hnil
    simp only [List.nil_append, List.map_nil, List.sum_nil, Nat.zero_add] at hsplit hlist hsize
    have hsend : p.send_l = ⟨{ p with _hdrvec := suf' },(sendmmsg UIO_MAXIOV p._hdrvec).2.1,[],[]⟩ := by
      rw [send_l, heq]
      rfl
    rw [hsend]
    refine ⟨[],⟨rfl,by simp,rfl,rfl,⟨hlist.symm,hunsent,hsize⟩,by simpa [weight] using hless,by simp,
      ?_,?_⟩,?_⟩
    · intro he
      rw [weight, weight, hsplit]
      exact hagain he
    · intro he
      rw [hlist]
      exact hfails he
    · intro he
      rcases hall he with hle | hsuf
      · exact absurd hle (Nat.not_succ_le_zero 1023)
      · exact absurd (hsplit.trans hsuf) hne
  · have hpos : 0 < pre.length := List.length_pos_iff.mpr hnil
    have htake : p._pkt_list.take pre.length = pre.map MMsgHdr.datagram := by
      rw [hlist]
      exact List.take_left' (by simp)
    have hdrop : p._pkt_list.drop pre.length = suf'.map MMsgHdr.datagram := by
      rw [hlist]
      exact List.drop_left' (by simp)
    have hsend : p.send_l = ⟨⟨p._remain_size - (pre.map fun hdr => hdr.msg_iov.length).sum,suf',
        suf'.map MMsgHdr.datagram⟩,none,pre.map MMsgHdr.datagram,
        pre.map fun hdr => (hdr.datagram.sockaddr,hdr.msg_iov)⟩ := by
      rw [send_l, heq]
      simp only [hpos, if_true, reOffset]
      rw [reOffsetFrom_sent fun hdr hh => ⟨(hunsent hdr hh).1,(hunsent hdr hh).2.2⟩]
      simp only [htake, hdrop]
    have hiov : ∀ hdr ∈ pre, hdr.msg_iov = hdr.datagram.data := by
      intro hdr hmem
      exact (hp.unsent hdr (by rw [hsplit]; exact List.mem_append_left _ hmem)).2.1
    rw [hsend]
    refine ⟨pre.map MMsgHdr.datagram,⟨hlist,?_,rfl,?_,⟨rfl,hunsent,?_⟩,?_,?_,?_,?_⟩,?_⟩
    · intro d hd
      obtain ⟨hdr,hmem,rfl⟩ := List.mem_map.mp hd
      exact hpre hdr hmem
    · rw [List.map_map]
      apply List.map_congr_left
      intro hdr hmem
      rw [hiov hdr hmem]
      rfl
    · simp only
      omega
    · rw [List.length_map, Nat.add_comm]
      exact hless
    · have hsame : (pre.map MMsgHdr.datagram).map (fun d => d.data.length) =
          pre.map fun hdr => hdr.msg_iov.length := by
        rw [List.map_map]
        exact List.map_congr_left fun hdr hmem => by rw [hiov hdr hmem]; rfl
      rw [hsame]
      simp only
      omega
    · exact fun he => by cases he
    · exact fun he => by cases he
    · intro _
      simpa using hnil

theorem Takes.trans {r t : Sent A} {pre pre' : List (BufferSock A)} (h : Takes p r pre)
    (h' : Takes r.packet t pre') :
    Takes p ⟨t.packet,t.error,r.results ++ t.results,r.wire ++ t.wire⟩ (pre ++ pre') := by
  refine ⟨?_,?_,?_,?_,h'.ready,?_,?_,?_,h'.fails⟩
  · rw [h.list, h'.list, List.append_assoc]
  · intro d hd
    rcases List.mem_append.mp hd with hd | hd
    · exact h.taken d hd
    · exact h'.taken d hd
  · simp only [h.results, h'.results]
  · simp only [h.wire, h'.wire, List.map_append]
  · have := h.weight
    have := h'.weight
    simp only [List.length_append]
    omega
  · rw [List.map_append, List.sum_append]
    have := h.size
    have := h'.size
    simp only
    omega
  · intro he
    exact Nat.lt_of_lt_of_le (h'.again he) (Nat.le_trans (Nat.le_add_right _ _) h.weight)

theorem Takes.size_lt_iff {r : Sent A} {pre : List (BufferSock A)} (h : Takes p r pre) (hp : p.Ready) :
    r.packet._remain_size < p._remain_size ↔ pre ≠ [] := by
  have hsize := h.size
  constructor
  · rintro hlt rfl
    simp only [List.map_nil, List.sum_nil] at hsize
    omega
  · intro hne
    obtain ⟨d,ds,rfl⟩ := List.exists_cons_of_ne_nil hne
    have hmem : d ∈ p._hdrvec.map MMsgHdr.datagram := by
      rw [hp.datagrams, h.list]
      simp
    obtain ⟨hdr,hhdr,rfl⟩ := List.mem_map.mp hmem
    obtain ⟨_,hiov,hdata⟩ := hp.unsent hdr hhdr
    have := List.length_pos_iff.mpr (hiov ▸ hdata)
    simp only [List.map_cons, List.sum_cons] at hsize
    omega

theorem Ready.remain_eq_zero_iff (hp : p.Ready) : p._remain_size = 0 ↔ p._hdrvec = [] := by
  constructor
  · intro hzero
    cases hvec : p._hdrvec with
    | nil => rfl
    | cons hdr hdrs =>
      have := List.length_pos_iff.mpr (hp.unsent hdr (by simp [hvec])).2.2
      have := hp.size
      rw [hvec, List.map_cons, List.sum_cons] at this
      omega
  · intro hnil
    rw [hp.size, hnil]
    rfl

theorem takes_nil (hp : p.Ready) : Takes p ⟨p,none,[],[]⟩ [] :=
  ⟨rfl,by simp,rfl,rfl,hp,Nat.le_refl _,rfl,fun h => (by cases h),fun h => (by cases h)⟩

/-- The rounds of `send` are enough: it ends with an error, or with nothing left. -/
theorem sendLoop_takes (n : ℕ) (hp : p.Ready) (hn : p._hdrvec.length ≤ n) :
    ∃ pre, Takes p (p.sendLoop n) pre ∧
      ((p.sendLoop n).error = none → (p.sendLoop n).packet._pkt_list = []) := by
  induction n generalizing p with
  | zero =>
    have hnil : p._hdrvec = [] := List.length_eq_zero_iff.mp (Nat.le_zero.mp hn)
    exact ⟨[],takes_nil hp,fun _ => by simp [sendLoop, ← hp.datagrams, hnil]⟩
  | succ n ih =>
    rw [sendLoop]
    by_cases hzero : p._remain_size = 0
    · rw [if_pos hzero]
      exact ⟨[],takes_nil hp,fun _ => by simp [← hp.datagrams, hp.remain_eq_zero_iff.mp hzero]⟩
    rw [if_neg hzero]
    obtain ⟨pre,htakes,hmore⟩ := send_l_takes hp fun hnil => hzero (hp.remain_eq_zero_iff.mpr hnil)
    cases herror : p.send_l.error with
    | some e =>
      simp only [herror]
      exact ⟨pre,htakes,fun h => by cases h⟩
    | none =>
      simp only [herror]
      have hlen : p.send_l.packet._hdrvec.length ≤ n := by
        have hall := congrArg List.length hp.datagrams
        have hleft := congrArg List.length htakes.ready.datagrams
        have hlist := congrArg List.length htakes.list
        have := List.length_pos_iff.mpr (hmore herror)
        simp only [List.length_map, List.length_append] at hall hleft hlist
        omega
      obtain ⟨pre',htakes',hdone⟩ := ih htakes.ready hlen
      exact ⟨pre ++ pre',htakes.trans htakes',hdone⟩

theorem send_takes (hp : p.Ready) :
    ∃ pre, Takes p p.send pre ∧ (p.send.error = none → p.send.packet._pkt_list = []) :=
  sendLoop_takes _ hp (Nat.le_refl _)

end BufferSendMMsg
end OctCommu.Network
