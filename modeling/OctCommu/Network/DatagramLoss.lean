import OctCommu.Network.BufferSendMMsg

/-! # What a failing datagram costs

`flushData` on a UDP `Socket`, called again and again by one thread while nothing more is
queued. When a packet can send nothing and the error is not `UV_EAGAIN`, the whole packet
is dropped.
-/
namespace OctCommu.Network
open BufferSendMMsg
variable {A : Type*}

/-- The members `flushData` works on, the results of `_send_result`, and what was sent. -/
structure UdpSocket (A : Type*) where
  _sendable : Bool
  _send_buf_waiting : List (BufferSock A)
  _send_buf_sending : List (BufferSendMMsg A)
  results : List (BufferSock A × Bool)
  wire : List (Option A × List UInt8)

namespace UdpSocket

def fresh : UdpSocket A := ⟨true,[],[],[],[]⟩

/-- The send loop, with what is left of the local list when it has to wait. -/
def sendPackets (s : UdpSocket A) : List (BufferSendMMsg A) → UdpSocket A × List (BufferSendMMsg A)
  | [] => (s,[])
  | p :: ps =>
    let r := p.send
    let s := { s with
      results := s.results ++ r.results.map fun d => (d,true)
      wire := s.wire ++ r.wire }
    if r.packet._remain_size < p._remain_size then
      if r.packet.empty then sendPackets s ps else (s,r.packet :: ps)
    else if r.error = some .UV_EAGAIN then (s,r.packet :: ps)
    else sendPackets { s with results := s.results ++ r.packet._pkt_list.map fun d => (d,false) } ps

/-- The send loop with what precedes a wait, and the rollback. -/
def flushPackets (s : UdpSocket A) (poller_thread : Bool) (tmp : List (BufferSendMMsg A)) : UdpSocket A :=
  let r := s.sendPackets tmp
  if r.2.isEmpty then r.1
  else { r.1 with
    _sendable := if poller_thread then r.1._sendable else false
    _send_buf_sending := r.2 ++ r.1._send_buf_sending }

/-- `flushData` with nothing in `_send_buf_sending`. If all is sent, the poller thread calls it once more and
finds nothing. -/
def flushWaiting (s : UdpSocket A) (poller_thread : Bool) : UdpSocket A :=
  match s._send_buf_waiting with
  | [] => if poller_thread then { s with _sendable := true } else s
  | d :: ds =>
    let t := { s with _send_buf_waiting := [] }.flushPackets poller_thread [create (d :: ds)]
    if poller_thread ∧ t._send_buf_sending.isEmpty then { t with _sendable := true } else t

def flushData (s : UdpSocket A) (poller_thread : Bool) : UdpSocket A :=
  match s._send_buf_sending with
  | [] => s.flushWaiting poller_thread
  | p :: ps =>
    let t := { s with _send_buf_sending := [] }.flushPackets poller_thread (p :: ps)
    if poller_thread ∧ t._send_buf_sending.isEmpty then t.flushWaiting true else t

/-- The fd is open, and no send has timed out. -/
def send_l (s : UdpSocket A) (d : BufferSock A) (try_flush : Bool) : UdpSocket A :=
  if d.data.length = 0 then s
  else
    let t := { s with _send_buf_waiting := s._send_buf_waiting ++ [d] }
    if try_flush ∧ t._sendable then t.flushData false else t

/-- So many flushes, by the poller thread or by `flushAll`. -/
def flushes (poller_thread : ℕ → Bool) : ℕ → UdpSocket A → UdpSocket A
  | 0, s => s
  | n + 1, s => (flushes poller_thread n s).flushData (poller_thread n)

/-- The lists that are sent as one packet; the last is what the next packet is made of. -/
def groups (s : UdpSocket A) : List (List (BufferSock A)) :=
  s._send_buf_sending.map BufferSendMMsg._pkt_list ++ [s._send_buf_waiting]

def queued (s : UdpSocket A) : List (BufferSock A) := s.groups.flatten

structure WellFormed (s : UdpSocket A) : Prop where
  sending : ∀ p ∈ s._send_buf_sending, p.Ready ∧ p._pkt_list ≠ []
  waiting : ∀ d ∈ s._send_buf_waiting, d.data ≠ []

/-- From `s` to `t`, every datagram that was queued and does not fail is sent once, in order, and only
those that fail are discarded. -/
structure OnlyFailingLost (s t : UdpSocket A) : Prop where
  sent : t.wire = s.wire ++ (s.queued.filter fun d => !d.fails).map BufferSock.content
  discarded : ∀ d, (d,false) ∈ t.results → (d,false) ∈ s.results ∨ d.fails = true

/-- Behind a datagram that fails there are only such. -/
def FailingLast (group : List (BufferSock A)) : Prop :=
  group.Pairwise fun a b => a.fails = true → b.fails = true

/-! ### What a list of datagrams comes to -/

/-- What is sent of a list in the end. -/
def taken (group : List (BufferSock A)) : List (Option A × List UInt8) :=
  (group.takeWhile fun d => !d.fails).map BufferSock.content

/-- The results of a list in the end. -/
def verdicts (group : List (BufferSock A)) : List (BufferSock A × Bool) :=
  ((group.takeWhile fun d => !d.fails).map fun d => (d,true)) ++
    (group.dropWhile fun d => !d.fails).map fun d => (d,false)

theorem takeWhile_taken {pre : List (BufferSock A)} (h : ∀ d ∈ pre, d.fails = false)
    (rest : List (BufferSock A)) :
    ((pre ++ rest).takeWhile fun d => !d.fails) = pre ++ rest.takeWhile fun d => !d.fails :=
  List.takeWhile_append_of_pos fun d hd => by rw [h d hd]; rfl

theorem dropWhile_taken {pre : List (BufferSock A)} (h : ∀ d ∈ pre, d.fails = false)
    (rest : List (BufferSock A)) :
    ((pre ++ rest).dropWhile fun d => !d.fails) = rest.dropWhile fun d => !d.fails :=
  List.dropWhile_append_of_pos fun d hd => by rw [h d hd]; rfl

theorem taken_append {pre : List (BufferSock A)} (h : ∀ d ∈ pre, d.fails = false)
    (rest : List (BufferSock A)) : taken (pre ++ rest) = pre.map BufferSock.content ++ taken rest := by
  rw [taken, takeWhile_taken h, List.map_append]
  rfl

theorem verdicts_append {pre : List (BufferSock A)} (h : ∀ d ∈ pre, d.fails = false)
    (rest : List (BufferSock A)) :
    verdicts (pre ++ rest) = (pre.map fun d => (d,true)) ++ verdicts rest := by
  rw [verdicts, takeWhile_taken h, dropWhile_taken h, List.map_append, List.append_assoc]
  rfl

theorem taken_of_head {group : List (BufferSock A)} (h : ∃ d ∈ group.head?, d.fails = true) :
    taken group = [] ∧ verdicts group = group.map fun d => (d,false) := by
  obtain ⟨d,hd,hf⟩ := h
  cases group with
  | nil => cases hd
  | cons e es =>
    obtain rfl : e = d := by simpa using hd
    simp [taken, verdicts, hf]

theorem takeWhile_sublist_filter (group : List (BufferSock A)) :
    List.Sublist (group.takeWhile fun d => !d.fails) (group.filter fun d => !d.fails) := by
  have hsub := (List.takeWhile_sublist (l := group) fun d => !d.fails).filter fun d => !d.fails
  rwa [List.filter_eq_self.mpr fun d hd => List.all_eq_true.mp List.all_takeWhile d hd] at hsub

theorem failingLast_iff (group : List (BufferSock A)) : FailingLast group ↔
    (group.takeWhile fun d => !d.fails) = group.filter fun d => !d.fails := by
  induction group with
  | nil => simp [FailingLast]
  | cons d ds ih =>
    unfold FailingLast at ih ⊢
    rw [List.pairwise_cons]
    cases hf : d.fails with
    | false => simp [hf, ih]
    | true =>
      have hnone : (ds.filter fun d => !d.fails) = [] ↔ ∀ e ∈ ds, e.fails = true := by
        simp [List.filter_eq_nil_iff]
      simp only [hf, List.takeWhile_cons, List.filter_cons, Bool.not_true, Bool.false_eq_true, if_false,
        forall_const]
      rw [← hnone, eq_comm (a := [])]
      constructor
      · exact fun h => h.1
      · intro h
        refine ⟨h,List.pairwise_of_forall_mem_list ?_⟩
        exact fun _ _ e he _ => hnone.mp h e he

/-- What is dropped of such a list fails. -/
theorem FailingLast.dropped {group : List (BufferSock A)} (h : FailingLast group) {d : BufferSock A}
    (hd : (d,false) ∈ verdicts group) : d.fails = true := by
  have hdrop : d ∈ group.dropWhile fun d => !d.fails := by
    simpa [verdicts] using hd
  have hsplit : (group.filter fun d => !d.fails) = (group.takeWhile fun d => !d.fails) ++
      (group.dropWhile fun d => !d.fails).filter fun d => !d.fails := by
    conv_lhs => rw [← List.takeWhile_append_dropWhile (p := fun d : BufferSock A => !d.fails) (l := group)]
    rw [List.filter_append,
      List.filter_eq_self.mpr fun d hd => List.all_eq_true.mp List.all_takeWhile d hd]
  rw [← (failingLast_iff group).mp h, List.self_eq_append_right, List.filter_eq_nil_iff] at hsplit
  simpa using hsplit d hdrop

/-! ### What a flush keeps -/

def finalWire (s : UdpSocket A) : List (Option A × List UInt8) := s.wire ++ s.groups.flatMap taken

def finalResults (s : UdpSocket A) : List (BufferSock A × Bool) := s.results ++ s.groups.flatMap verdicts

/-- The attempts that what is queued takes. -/
def weight (s : UdpSocket A) : ℕ :=
  (s._send_buf_sending.map BufferSendMMsg.weight).sum +
    (s._send_buf_waiting.map fun d => d.agains + 1).sum

/-- What the send loop makes of the local list `tmp`: it leaves `tmp'`. -/
structure Looped (s : UdpSocket A) (tmp : List (BufferSendMMsg A)) (t : UdpSocket A)
    (tmp' : List (BufferSendMMsg A)) : Prop where
  wire : t.wire ++ (tmp'.map BufferSendMMsg._pkt_list).flatMap taken =
    s.wire ++ (tmp.map BufferSendMMsg._pkt_list).flatMap taken
  results : t.results ++ (tmp'.map BufferSendMMsg._pkt_list).flatMap verdicts =
    s.results ++ (tmp.map BufferSendMMsg._pkt_list).flatMap verdicts
  ready : ∀ p ∈ tmp', p.Ready ∧ p._pkt_list ≠ []
  weight : (tmp'.map BufferSendMMsg.weight).sum ≤ (tmp.map BufferSendMMsg.weight).sum
  less : tmp ≠ [] → (tmp'.map BufferSendMMsg.weight).sum < (tmp.map BufferSendMMsg.weight).sum
  others : t._send_buf_waiting = s._send_buf_waiting ∧ t._send_buf_sending = s._send_buf_sending

theorem weight_pos {p : BufferSendMMsg A} (hp : p.Ready) (hne : p._pkt_list ≠ []) : 0 < p.weight := by
  rw [← hp.datagrams, ne_eq, List.map_eq_nil_iff] at hne
  obtain ⟨hdr,hdrs,hvec⟩ := List.exists_cons_of_ne_nil hne
  rw [BufferSendMMsg.weight, hvec, List.map_cons, List.sum_cons]
  omega

section
variable {s t : UdpSocket A} {p q : BufferSendMMsg A} {ps tmp : List (BufferSendMMsg A)}
  {w : List (Option A × List UInt8)} {v : List (BufferSock A × Bool)}

/-- The first packet is done with, sent or dropped. -/
theorem Looped.next (h : Looped { s with results := s.results ++ v, wire := s.wire ++ w } ps t tmp)
    (hw : taken p._pkt_list = w) (hv : verdicts p._pkt_list = v) (hp : 0 < p.weight) :
    Looped s (p :: ps) t tmp := by
  have hweight := h.weight
  refine ⟨?_,?_,h.ready,?_,fun _ => ?_,h.others⟩
  · rw [h.wire, List.map_cons, List.flatMap_cons, hw, List.append_assoc]
  · rw [h.results, List.map_cons, List.flatMap_cons, hv, List.append_assoc]
  · rw [List.map_cons, List.sum_cons]
    omega
  · rw [List.map_cons, List.sum_cons]
    omega

/-- The rest of the first packet has to wait. -/
theorem looped_wait (hw : taken p._pkt_list = w ++ taken q._pkt_list)
    (hv : verdicts p._pkt_list = v ++ verdicts q._pkt_list) (hq : q.Ready ∧ q._pkt_list ≠ [])
    (hps : ∀ x ∈ ps, x.Ready ∧ x._pkt_list ≠ []) (hless : q.weight < p.weight) :
    Looped s (p :: ps) { s with results := s.results ++ v, wire := s.wire ++ w } (q :: ps) := by
  refine ⟨?_,?_,?_,?_,fun _ => ?_,rfl,rfl⟩
  · simp only [List.map_cons, List.flatMap_cons, hw, List.append_assoc]
  · simp only [List.map_cons, List.flatMap_cons, hv, List.append_assoc]
  · exact List.forall_mem_cons.mpr ⟨hq,hps⟩
  · simp only [List.map_cons, List.sum_cons]
    omega
  · simp only [List.map_cons, List.sum_cons]
    omega

end

theorem sendPackets_looped (tmp : List (BufferSendMMsg A)) (s : UdpSocket A)
    (h : ∀ p ∈ tmp, p.Ready ∧ p._pkt_list ≠ []) :
    Looped s tmp (s.sendPackets tmp).1 (s.sendPackets tmp).2 := by
  induction tmp generalizing s with
  | nil => exact ⟨rfl,rfl,by simp [sendPackets],Nat.le_refl _,by simp,rfl,rfl⟩
  | cons p ps ih =>
    obtain ⟨hp,hne⟩ := h p (by simp)
    have hps : ∀ q ∈ ps, q.Ready ∧ q._pkt_list ≠ [] := fun q hq => h q (by simp [hq])
    obtain ⟨pre,htakes,hdone⟩ := send_takes hp
    have hlist := htakes.list
    have hweight := htakes.weight
    rw [sendPackets]
    simp only [htakes.results, htakes.wire]
    by_cases hsent : p.send.packet._remain_size < p._remain_size
    · rw [if_pos hsent]
      have hpre : 0 < pre.length := List.length_pos_iff.mpr ((htakes.size_lt_iff hp).mp hsent)
      by_cases hempty : p.send.packet.empty = true
      · rw [if_pos hempty]
        have hvec := htakes.ready.remain_eq_zero_iff.mp (of_decide_eq_true hempty)
        have hnil : p.send.packet._pkt_list = [] := by
          rw [← htakes.ready.datagrams, hvec, List.map_nil]
        rw [hnil] at hlist
        refine (ih _ hps).next ?_ ?_ (weight_pos hp hne)
        · rw [hlist, taken_append htakes.taken, taken, List.takeWhile_nil, List.map_nil, List.append_nil]
        · rw [hlist, verdicts_append htakes.taken]
          exact List.append_nil _
      · rw [if_neg hempty]
        refine looped_wait ?_ ?_ ⟨htakes.ready,?_⟩ hps (by omega)
        · rw [hlist, taken_append htakes.taken]
        · rw [hlist, verdicts_append htakes.taken]
        · intro hnil
          apply hempty
          apply decide_eq_true
          rw [htakes.ready.remain_eq_zero_iff, ← List.map_eq_nil_iff, htakes.ready.datagrams, hnil]
    · rw [if_neg hsent]
      -- nothing was sent
      obtain rfl : pre = [] := by
        by_contra hpre
        exact hsent ((htakes.size_lt_iff hp).mpr hpre)
      rw [List.nil_append] at hlist
      by_cases hagain : p.send.error = some .UV_EAGAIN
      · rw [if_pos hagain]
        refine looped_wait ?_ ?_ ⟨htakes.ready,hlist ▸ hne⟩ hps (htakes.again hagain)
        · rw [hlist]
          rfl
        · rw [hlist]
          rfl
      · rw [if_neg hagain]
        have hother : p.send.error = some .other := by
          cases herror : p.send.error with
          | none => exact absurd (hlist.trans (hdone herror)) hne
          | some e =>
            cases e with
            | UV_EAGAIN => exact absurd herror hagain
            | other => rfl
        obtain ⟨hw,hv⟩ := taken_of_head (htakes.fails hother)
        rw [← hlist] at hw hv ⊢
        have hnone : (s.results ++ [].map fun d : BufferSock A => (d,true)) = s.results :=
          List.append_nil _
        rw [hnone]
        exact (ih _ hps).next hw hv (weight_pos hp hne)

/-- A flush moves nothing between what is sent and what is lost in the end, and if there is something to send
it takes an attempt. -/
structure Flushed (s t : UdpSocket A) : Prop where
  wellFormed : t.WellFormed
  wire : t.finalWire = s.finalWire
  results : t.finalResults = s.finalResults
  weight : t.weight ≤ s.weight
  less : s.queued ≠ [] → t.weight < s.weight

theorem Flushed.trans {s t u : UdpSocket A} (h : Flushed s t) (h' : Flushed t u) : Flushed s u :=
  ⟨h'.wellFormed,h'.wire.trans h.wire,h'.results.trans h.results,Nat.le_trans h'.weight h.weight,
    fun hq => Nat.lt_of_le_of_lt h'.weight (h.less hq)⟩

variable {s : UdpSocket A}

theorem flushed_refl (hs : s.WellFormed) (hq : s.queued = []) (sendable : Bool) :
    Flushed s { s with _sendable := sendable } :=
  ⟨⟨hs.sending,hs.waiting⟩,rfl,rfl,Nat.le_refl _,fun hne => absurd hq hne⟩

theorem flushPackets_eq (poller_thread : Bool) {tmp : List (BufferSendMMsg A)}
    (hnil : (s.sendPackets tmp).1._send_buf_sending = []) :
    ∃ sendable, s.flushPackets poller_thread tmp = { (s.sendPackets tmp).1 with
      _sendable := sendable
      _send_buf_sending := (s.sendPackets tmp).2 } := by
  unfold flushPackets
  by_cases hempty : (s.sendPackets tmp).2.isEmpty = true
  · simp only [hempty, if_true]
    refine ⟨(s.sendPackets tmp).1._sendable,?_⟩
    rw [List.isEmpty_iff.mp hempty, ← hnil]
  · simp only [hempty, Bool.false_eq_true, if_false]
    rw [hnil, List.append_nil]
    exact ⟨_,rfl⟩

/-- The local list `tmp` was taken out of `s`, which leaves `s₀`. -/
theorem flushPackets_flushed {s₀ : UdpSocket A} {tmp : List (BufferSendMMsg A)} (poller_thread : Bool)
    (hs₀ : ∀ d ∈ s₀._send_buf_waiting, d.data ≠ []) (hnil : s₀._send_buf_sending = [])
    (htmp : ∀ p ∈ tmp, p.Ready ∧ p._pkt_list ≠ []) (hne : tmp ≠ [])
    (hwire : s.finalWire = s₀.wire ++ (tmp.map BufferSendMMsg._pkt_list).flatMap taken ++
      taken s₀._send_buf_waiting)
    (hresults : s.finalResults = s₀.results ++ (tmp.map BufferSendMMsg._pkt_list).flatMap verdicts ++
      verdicts s₀._send_buf_waiting)
    (hweight : s.weight = (tmp.map BufferSendMMsg.weight).sum +
      (s₀._send_buf_waiting.map fun d => d.agains + 1).sum) :
    Flushed s (s₀.flushPackets poller_thread tmp) := by
  have hloop := sendPackets_looped tmp s₀ htmp
  obtain ⟨hwaiting,hsending⟩ := hloop.others
  obtain ⟨sendable,heq⟩ := flushPackets_eq poller_thread (hsending.trans hnil)
  have hless := hloop.less hne
  rw [heq]
  refine ⟨⟨hloop.ready,?_⟩,?_,?_,?_,fun _ => ?_⟩
  · simpa only [hwaiting] using hs₀
  · rw [hwire, ← hloop.wire]
    simp [finalWire, groups, hwaiting]
  · rw [hresults, ← hloop.results]
    simp [finalResults, groups, hwaiting]
  · rw [hweight]
    simp only [weight, hwaiting]
    omega
  · rw [hweight]
    simp only [weight, hwaiting]
    omega

theorem flushWaiting_flushed (hs : s.WellFormed) (hnil : s._send_buf_sending = [])
    (poller_thread : Bool) : Flushed s (s.flushWaiting poller_thread) := by
  unfold flushWaiting
  split
  · next hw =>
    have hq : s.queued = [] := by simp [queued, groups, hnil, hw]
    split
    · exact flushed_refl hs hq true
    · exact flushed_refl hs hq s._sendable
  · next d ds hw =>
    have hflush : Flushed s ({ s with _send_buf_waiting := [] }.flushPackets poller_thread
        [create (d :: ds)]) := by
      refine flushPackets_flushed poller_thread (by simp) hnil ?_ (by simp) ?_ ?_ ?_
      · intro p hp
        rw [List.mem_singleton.mp hp]
        exact ⟨ready_create (hw ▸ hs.waiting),List.cons_ne_nil d ds⟩
      · simp [finalWire, groups, hnil, hw, create, taken]
      · simp [finalResults, groups, hnil, hw, create, verdicts]
      · simp [weight, hnil, hw, weight_create]
    simp only
    split
    · exact ⟨⟨hflush.wellFormed.sending,hflush.wellFormed.waiting⟩,hflush.wire,hflush.results,
        hflush.weight,hflush.less⟩
    · exact hflush

theorem flushData_flushed (hs : s.WellFormed) (poller_thread : Bool) :
    Flushed s (s.flushData poller_thread) := by
  unfold flushData
  split
  · next hnil => exact flushWaiting_flushed hs hnil poller_thread
  · next p ps hsending =>
    have hflush : Flushed s ({ s with _send_buf_sending := [] }.flushPackets poller_thread
        (p :: ps)) := by
      refine flushPackets_flushed poller_thread hs.waiting rfl (hsending ▸ hs.sending) (by simp) ?_ ?_ ?_
      · simp [finalWire, groups, hsending]
      · simp [finalResults, groups, hsending]
      · simp [weight, hsending]
    simp only
    split
    · next hdone =>
      exact hflush.trans (flushWaiting_flushed hflush.wellFormed (List.isEmpty_iff.mp hdone.2) true)
    · exact hflush

theorem flushData_wellFormed (hs : s.WellFormed) (poller_thread : Bool) :
    (s.flushData poller_thread).WellFormed :=
  (flushData_flushed hs poller_thread).wellFormed

theorem wellFormed_fresh : (fresh : UdpSocket A).WellFormed := ⟨by simp [fresh],by simp [fresh]⟩

theorem send_l_wellFormed (hs : s.WellFormed) (d : BufferSock A) (try_flush : Bool) :
    (s.send_l d try_flush).WellFormed := by
  unfold send_l
  split
  · exact hs
  · next hd =>
    have happend : ({ s with _send_buf_waiting := s._send_buf_waiting ++ [d] } : UdpSocket A).WellFormed := by
      refine ⟨hs.sending,?_⟩
      intro e he
      rcases List.mem_append.mp he with he | he
      · exact hs.waiting e he
      · rw [List.mem_singleton.mp he]
        exact fun hnil => hd (by rw [hnil, List.length_nil])
    simp only
    split
    · exact flushData_wellFormed happend false
    · exact happend

/-! ### Repeated flushes -/

theorem weight_eq_zero_iff (hs : s.WellFormed) : s.weight = 0 ↔ s.queued = [] := by
  constructor
  · intro hz
    unfold weight at hz
    have hsending : s._send_buf_sending = [] := by
      by_contra hne
      obtain ⟨p,ps,heq⟩ := List.exists_cons_of_ne_nil hne
      obtain ⟨hp,hlist⟩ := hs.sending p (by simp [heq])
      have := weight_pos hp hlist
      rw [heq, List.map_cons, List.sum_cons] at hz
      omega
    have hwaiting : s._send_buf_waiting = [] := by
      by_contra hne
      obtain ⟨d,ds,heq⟩ := List.exists_cons_of_ne_nil hne
      rw [heq, List.map_cons, List.sum_cons] at hz
      omega
    simp [queued, groups, hsending, hwaiting]
  · intro hq
    have hnil : ∀ g ∈ s.groups, g = [] := List.flatten_eq_nil_iff.mp hq
    have hsending : s._send_buf_sending = [] := by
      by_contra hne
      obtain ⟨p,ps,heq⟩ := List.exists_cons_of_ne_nil hne
      exact (hs.sending p (by simp [heq])).2 (hnil _ (by simp [groups, heq]))
    have hwaiting : s._send_buf_waiting = [] := hnil _ (by simp [groups])
    simp [weight, hsending, hwaiting]

/-- Every flush takes an attempt until nothing is queued. -/
theorem flushes_spec (hs : s.WellFormed) (poller_thread : ℕ → Bool) (n : ℕ) :
    (flushes poller_thread n s).WellFormed ∧ (flushes poller_thread n s).finalWire = s.finalWire ∧
    (flushes poller_thread n s).finalResults = s.finalResults ∧
    (flushes poller_thread n s).weight ≤ s.weight - n := by
  induction n with
  | zero => exact ⟨hs,rfl,rfl,Nat.le_refl _⟩
  | succ n ih =>
    obtain ⟨hwf,hwire,hresults,hweight⟩ := ih
    have hflush := flushData_flushed hwf (poller_thread n)
    refine ⟨hflush.wellFormed,hflush.wire.trans hwire,hflush.results.trans hresults,?_⟩
    rw [flushes]
    have hle := hflush.weight
    by_cases hq : (flushes poller_thread n s).queued = []
    · have := (weight_eq_zero_iff hwf).mpr hq
      omega
    · have := hflush.less hq
      omega

theorem flushes_done (hs : s.WellFormed) (poller_thread : ℕ → Bool) {n : ℕ} (hn : s.weight ≤ n) :
    (flushes poller_thread n s).queued = [] ∧
    (flushes poller_thread n s).wire = s.wire ++ s.groups.flatMap taken ∧
    (flushes poller_thread n s).results = s.results ++ s.groups.flatMap verdicts := by
  obtain ⟨hwf,hwire,hresults,hweight⟩ := flushes_spec hs poller_thread n
  have hq := (weight_eq_zero_iff hwf).mp (by omega)
  have hnil : ∀ g ∈ (flushes poller_thread n s).groups, g = [] := List.flatten_eq_nil_iff.mp hq
  refine ⟨hq,?_,?_⟩
  · have hzero : (flushes poller_thread n s).groups.flatMap taken = [] := by
      rw [List.flatMap_eq_nil_iff]
      exact fun g hg => by rw [hnil g hg]; rfl
    rw [finalWire, hzero, List.append_nil] at hwire
    exact hwire
  · have hzero : (flushes poller_thread n s).groups.flatMap verdicts = [] := by
      rw [List.flatMap_eq_nil_iff]
      exact fun g hg => by rw [hnil g hg]; rfl
    rw [finalResults, hzero, List.append_nil] at hresults
    exact hresults

theorem taken_length_le (gs : List (List (BufferSock A))) :
    (gs.flatMap taken).length ≤ (gs.flatten.filter fun d => !d.fails).length := by
  induction gs with
  | nil => simp
  | cons g gs ih =>
    have := (takeWhile_sublist_filter g).length_le
    simp only [List.flatMap_cons, List.flatten_cons, List.filter_append, List.length_append, taken,
      List.length_map] at ih ⊢
    omega

/-- The lists are cut short by what fails, each for itself. -/
theorem flatMap_taken_eq_iff (gs : List (List (BufferSock A))) :
    gs.flatMap taken = (gs.flatten.filter fun d => !d.fails).map BufferSock.content ↔
      ∀ g ∈ gs, FailingLast g := by
  induction gs with
  | nil => simp
  | cons g gs ih =>
    rw [List.flatMap_cons, List.flatten_cons, List.filter_append, List.map_append, List.forall_mem_cons]
    constructor
    · intro h
      have hlen := congrArg List.length h
      have hg := (takeWhile_sublist_filter g).length_le
      have hgs := taken_length_le gs
      simp only [List.length_append, List.length_map] at hlen
      have hlenTaken : (taken g).length = (g.takeWhile fun d => !d.fails).length := List.length_map _
      have heq := (takeWhile_sublist_filter g).eq_of_length (by omega)
      have hlast := (failingLast_iff g).mpr heq
      refine ⟨hlast,ih.mp ?_⟩
      rw [taken, heq] at h
      exact List.append_cancel_left h
    · rintro ⟨hg,hgs⟩
      rw [ih.mpr hgs, taken, (failingLast_iff g).mp hg]

/-- With no datagram to be taken behind one that fails in its list, the failing ones alone are lost. -/
theorem flushes_onlyFailingLost_iff (hs : s.WellFormed) (poller_thread : ℕ → Bool) :
    (∃ n, ∀ m, n ≤ m → OnlyFailingLost s (flushes poller_thread m s)) ↔
      ∀ g ∈ s.groups, FailingLast g := by
  rw [← flatMap_taken_eq_iff]
  constructor
  · rintro ⟨n,hn⟩
    have hsent := (hn (max n s.weight) (Nat.le_max_left _ _)).sent
    rw [(flushes_done hs poller_thread (Nat.le_max_right n s.weight)).2.1] at hsent
    exact List.append_cancel_left hsent
  · intro heq
    refine ⟨s.weight,fun m hm => ?_⟩
    obtain ⟨_,hwire,hresults⟩ := flushes_done hs poller_thread hm
    refine ⟨by rw [hwire, heq]; rfl,?_⟩
    intro d hd
    rw [hresults, List.mem_append] at hd
    refine hd.imp_right fun hd => ?_
    obtain ⟨g,hg,hd⟩ := List.mem_flatMap.mp hd
    exact ((flatMap_taken_eq_iff s.groups).mp heq g hg).dropped hd

/-- The failing datagram is the last of its list; the one before it meets a full buffer first. -/
theorem flushes_onlyFailingLost_two :
    let ok : BufferSock ℕ := ⟨some 1,[7,7],1,false⟩
    let bad : BufferSock ℕ := ⟨some 2,[8],0,true⟩
    let s : UdpSocket ℕ := (fresh.send_l ok false).send_l bad true
    s.WellFormed ∧ s.groups = [[ok,bad],[]] ∧ s.wire = [] ∧
    ∃ n, ∀ m, n ≤ m → OnlyFailingLost s (flushes (fun _ => true) m s) := by
  intro ok bad s
  have hs : s.WellFormed := send_l_wellFormed (send_l_wellFormed wellFormed_fresh ok false) bad true
  have hgroups : s.groups = [[ok,bad],[]] := by decide
  refine ⟨hs,hgroups,by decide,(flushes_onlyFailingLost_iff hs fun _ => true).mpr ?_⟩
  rw [hgroups]
  unfold FailingLast
  decide

/-- Two datagrams to different peers are queued together, and the first one fails: the second is dropped
with it. Had each been flushed by itself, it would have been sent. -/
theorem datagram_behind_failing_lost :
    let bad : BufferSock ℕ := ⟨some 1,[7],0,true⟩
    let ok : BufferSock ℕ := ⟨some 2,[8],0,false⟩
    let s : UdpSocket ℕ := (fresh.send_l bad false).send_l ok false
    s.WellFormed ∧ (s.flushData false).wire = [] ∧
    (s.flushData false).results = [(bad,false),(ok,false)] ∧
    ((fresh.send_l bad true).send_l ok true).wire = [ok.content] ∧
    ¬ ∃ n, ∀ m, n ≤ m → OnlyFailingLost s (flushes (fun _ => false) m s) := by
  intro bad ok s
  have hs : s.WellFormed := send_l_wellFormed (send_l_wellFormed wellFormed_fresh bad false) ok false
  refine ⟨hs,by decide,by decide,by decide,?_⟩
  rintro ⟨n,hn⟩
  have hsent := (hn (max n s.weight) (Nat.le_max_left _ _)).sent
  rw [(flushes_done hs _ (Nat.le_max_right n s.weight)).2.1] at hsent
  revert hsent
  decide

end UdpSocket
end OctCommu.Network
