import OctCommu.Lib.Runs
import OctCommu.Network.BufferSendMsg
import Mathlib.Data.List.Nodup

/-! # The send results of a TCP `Socket`

All calls are made on the poller thread, so that a call of `flushData` is interrupted
only by the callbacks it makes itself: `_send_result`, and `_on_err` inside `emitErr`,
may send, close or connect, and a send runs a second `flushData` inside the first, which
holds its packets in a local. The results that `~Socket` reports are callbacks, too.
-/
namespace OctCommu.Network.SendResults
open Runs

/-- A byte of the `buffer`-th buffer that was accepted. -/
structure Octet where
  buffer : ℕ
  offset : ℕ
  byte : UInt8
  deriving DecidableEq

def octets (buffer : ℕ) (buf : List UInt8) : List Octet := buf.mapIdx fun i b => ⟨buffer,i,b⟩

/-- A buffer and the flag it is passed to `_send_result` with. -/
abbrev Result := List Octet × Bool

/-- A call of `flushData`, or the `clear` in `~Socket`. `remain_size` is the local of the
`BufferSendMsg::send` it is in, `owed` the results it has to report before it goes on, `inside` says that
it is in a callback, and `failed` that it is in `emitErr` or returns false behind it. -/
structure Call where
  poller_thread : Bool
  send_buf_sending_tmp : List (BufferSendMsg Octet)
  remain_size : ℕ
  owed : List Result
  inside : Bool
  failed : Bool

/-- The members, the calls of `flushData` under way with the innermost first, whether `~Socket` runs
and whether the object is there, and what was accepted, reported and taken by the kernel so far. -/
structure State where
  _sock_fd : Bool
  _sendable : Bool
  _send_buf_waiting : List (List Octet)
  _send_buf_sending : List (BufferSendMsg Octet)
  calls : List Call
  dying : Bool
  alive : Bool
  accepted : List (List Octet)
  results : List Result
  wire : List Octet

def packFailed (packets : List (BufferSendMsg Octet)) : List Result :=
  (packets.flatMap BufferSendMsg._pkt_list).map fun buf => (buf,false)

inductive Act where
  /-- `timeout` is what the clock of `flushAll` says. -/
  | send_l (buf : List UInt8) (try_flush timeout : Bool)
  | flushAll (timeout : Bool)
  /-- Also from an `emitErr` with nothing behind it, whose `_on_err` is the next turn of the user. -/
  | closeSock
  /-- A new fd is stored, as by `connect_l`. -/
  | install
  /-- The poller may still do this for an fd that a callback of the same event has closed. -/
  | onWriteAble
  /-- The answers of `sendmsg`. -/
  | accept (n : ℕ)
  | again
  | error
  /-- The next callback is made. -/
  | report
  /-- The last callback returns, and `flushData` goes on. -/
  | resume
  /-- `~Socket` up to its first callback. -/
  | destroy
  /-- The members go. -/
  | destroyed
  deriving DecidableEq

namespace State

def fresh : State := ⟨false,true,[],[],[],false,true,[],[],[]⟩

def closeSock (s : State) : State := { s with _sock_fd := false }

def install (s : State) : State := { s.closeSock with _sock_fd := true }

/-- Up to the first `sendmsg`, if there is something to send. -/
def flushData (s : State) (poller_thread : Bool) : State :=
  match s._send_buf_sending, s._send_buf_waiting with
  | p :: ps, _ =>
    { s with
      _send_buf_sending := []
      calls := ⟨poller_thread,p :: ps,p._remain_size,[],false,false⟩ :: s.calls }
  | [], buf :: bufs =>
    let p := BufferSendMsg.create (buf :: bufs)
    { s with
      _send_buf_waiting := []
      calls := ⟨poller_thread,[p],p._remain_size,[],false,false⟩ :: s.calls }
  | [], [] => if poller_thread then { s with _sendable := true } else s

def flushAll (s : State) (timeout : Bool) : State :=
  if !s._sock_fd then s
  else if s._sendable then s.flushData false
  else if timeout then s.closeSock
  else s

def send_l (s : State) (buf : List UInt8) (try_flush timeout : Bool) : State :=
  if buf.length = 0 then s
  else
    let t := { s with
      _send_buf_waiting := s._send_buf_waiting ++ [octets s.accepted.length buf]
      accepted := s.accepted ++ [octets s.accepted.length buf] }
    if try_flush then t.flushAll timeout else t

def onWriteAble (s : State) : State :=
  if s._send_buf_waiting.isEmpty ∧ s._send_buf_sending.isEmpty then { s with _sendable := true }
  else s.flushData true

/-- Behind a partial send. In `flushAll` the `sock` of `flushData` is the member itself, which
`startWriteAbleEvent` dereferences: with the socket closed in a callback there is no step. -/
def waitWriteAble (s : State) (c : Call) (calls : List Call) : Option State :=
  if !c.poller_thread ∧ !s._sock_fd then none
  else some { s with
    _sendable := if c.poller_thread then s._sendable else false
    _send_buf_sending := c.send_buf_sending_tmp ++ s._send_buf_sending
    calls := calls }

/-- `sendmsg` took the first `n` bytes of `p`, the front of the local list. -/
def acceptBytes (s : State) (c : Call) (p : BufferSendMsg Octet) (ps : List (BufferSendMsg Octet))
    (calls : List Call) (n : ℕ) : State :=
  let q := p.send_l n
  let tmp := if q.1.empty then ps else q.1 :: ps
  { s with
    wire := s.wire ++ p.offered.take n
    calls := { c with
      send_buf_sending_tmp := tmp
      remain_size := if q.1.empty then (tmp.head?.map BufferSendMsg._remain_size).getD 0 else c.remain_size
      owed := q.2.map fun buf => (buf,true) } :: calls }

/-- `return false`: the local list is dropped, and its packets report what they hold. -/
def drop (s : State) (c : Call) (calls : List Call) : State :=
  { s with
    calls := { c with
      send_buf_sending_tmp := []
      owed := packFailed c.send_buf_sending_tmp
      inside := false
      failed := true } :: calls }

/-- `emitErr` calls `_on_err` at once if the socket is open, while the packets are still held. -/
def emitErr (s : State) (c : Call) (calls : List Call) : State :=
  if s._sock_fd then
    { s.closeSock with calls := { c with inside := true, failed := true } :: calls }
  else s.drop c calls

/-- The secondary cache is dropped like a local list. -/
def destroy (s : State) : State :=
  { s.closeSock with _send_buf_sending := [], dying := true }.drop
    ⟨false,s._send_buf_sending,0,[],false,true⟩ []

def destroyed (s : State) : State :=
  { s with _send_buf_waiting := [], calls := [], alive := false }

def report (s : State) (c : Call) (r : Result) (rest : List Result) (calls : List Call) : State :=
  { s with
    results := s.results ++ [r]
    calls := { c with owed := rest, inside := true } :: calls }

/-- The loop goes on, or the call returns; on the poller thread it tries again when all is sent. -/
def resume (s : State) (c : Call) (calls : List Call) : State :=
  match c.send_buf_sending_tmp with
  | _ :: _ =>
    if c.failed then s.drop c calls else { s with calls := { c with inside := false } :: calls }
  | [] =>
    let t := { s with calls := calls }
    if c.poller_thread ∧ !c.failed then t.flushData true else t

/-- The call that is in `sendmsg`, with its front packet, the packets behind and the calls outside. -/
def sending (s : State) : Option (Call × BufferSendMsg Octet × List (BufferSendMsg Octet) × List Call) :=
  match s.calls with
  | c :: calls =>
    match c.inside, c.owed, c.send_buf_sending_tmp with
    | false, [], p :: ps => some (c,p,ps,calls)
    | _, _, _ => none
  | [] => none

/-- Outside of `flushData`, or in a callback. -/
def userTurn (s : State) : Bool :=
  s.alive && (s.calls.head?.map Call.inside).getD true

end State

def step (s : State) : Act → Option State
  | .send_l buf try_flush timeout => if s.userTurn then some (s.send_l buf try_flush timeout) else none
  | .flushAll timeout => if s.userTurn then some (s.flushAll timeout) else none
  | .closeSock => if s.userTurn then some s.closeSock else none
  -- a `Socket` that is being destroyed is no longer shared
  | .install => if s.userTurn ∧ s.dying = false then some s.install else none
  | .onWriteAble => if s.alive ∧ s.calls.isEmpty then some s.onWriteAble else none
  | .destroy => if s.alive ∧ s.calls.isEmpty then some s.destroy else none
  | .destroyed =>
    if s.alive ∧ s.dying ∧ s.calls.all fun c => c.owed.isEmpty then some s.destroyed else none
  | .accept n =>
    match s.sending with
    | some (c,p,ps,calls) =>
      if p._remain_size ≠ 0 ∧ 0 < n ∧ n ≤ p.offered.length then some (s.acceptBytes c p ps calls n)
      else none
    | none => none
  | .again =>
    match s.sending with
    | some (c,_,_,calls) => s.waitWriteAble c calls
    | none => none
  | .error =>
    match s.sending with
    | some (c,p,_,calls) =>
      -- an error behind a partial send is not looked at
      if p._remain_size < c.remain_size then s.waitWriteAble c calls else some (s.emitErr c calls)
    | none => none
  | .report =>
    match s.calls with
    | c :: calls =>
      match c.owed with
      | r :: rest => some (s.report c r rest calls)
      | [] => none
    | [] => none
  | .resume =>
    match s.calls with
    | c :: calls => if (c.inside ∧ c.owed.isEmpty) ∧ s.dying = false then some (s.resume c calls) else none
    | [] => none

/-! ### What a step does -/

inductive Moves (s : State) : Act → State → Prop where
  | send_l (buf try_flush timeout) (h : s.userTurn = true) :
    Moves s (.send_l buf try_flush timeout) (s.send_l buf try_flush timeout)
  | flushAll (timeout) (h : s.userTurn = true) : Moves s (.flushAll timeout) (s.flushAll timeout)
  | closeSock (h : s.userTurn = true) : Moves s .closeSock s.closeSock
  | install (h : s.userTurn = true) (hd : s.dying = false) : Moves s .install s.install
  | onWriteAble (ha : s.alive = true) (hcalls : s.calls = []) : Moves s .onWriteAble s.onWriteAble
  | destroy (ha : s.alive = true) (hcalls : s.calls = []) : Moves s .destroy s.destroy
  | destroyed (hd : s.dying = true) (howed : ∀ c ∈ s.calls, c.owed = []) : Moves s .destroyed s.destroyed
  | accept {c p ps calls} (n) (hcalls : s.calls = c :: calls) (howed : c.owed = [])
    (htmp : c.send_buf_sending_tmp = p :: ps) (hn : 0 < n) (hle : n ≤ p.offered.length) :
    Moves s (.accept n) (s.acceptBytes c p ps calls n)
  | again {c calls t} (hcalls : s.calls = c :: calls) (howed : c.owed = [])
    (htmp : c.send_buf_sending_tmp ≠ []) (h : s.waitWriteAble c calls = some t) : Moves s .again t
  | wait {c calls t} (hcalls : s.calls = c :: calls) (howed : c.owed = [])
    (htmp : c.send_buf_sending_tmp ≠ []) (h : s.waitWriteAble c calls = some t) : Moves s .error t
  | emitErr {c calls} (hcalls : s.calls = c :: calls) (howed : c.owed = [])
    (htmp : c.send_buf_sending_tmp ≠ []) : Moves s .error (s.emitErr c calls)
  | report {c r rest calls} (hcalls : s.calls = c :: calls) (howed : c.owed = r :: rest) :
    Moves s .report (s.report c r rest calls)
  | resume {c calls} (hcalls : s.calls = c :: calls) (howed : c.owed = []) (hd : s.dying = false) :
    Moves s .resume (s.resume c calls)

variable {s t : State}

theorem sending_eq_some {c : Call} {p : BufferSendMsg Octet} {ps : List (BufferSendMsg Octet)}
    {calls : List Call} (h : s.sending = some (c,p,ps,calls)) :
    s.calls = c :: calls ∧ c.owed = [] ∧ c.send_buf_sending_tmp = p :: ps := by
  unfold State.sending at h
  split at h
  · split at h
    · next _ hcalls _ _ _ _ _ _ howed htmp =>
      cases h
      exact ⟨hcalls,howed,htmp⟩
    · cases h
  · cases h

theorem step_moves {a : Act} (ht : step s a = some t) : Moves s a t := by
  cases a with
  | send_l buf try_flush timeout =>
    obtain ⟨hu,⟨⟩⟩ := Option.ite_none_right_eq_some.mp ht
    exact .send_l buf try_flush timeout hu
  | flushAll timeout =>
    obtain ⟨hu,⟨⟩⟩ := Option.ite_none_right_eq_some.mp ht
    exact .flushAll timeout hu
  | closeSock =>
    obtain ⟨hu,⟨⟩⟩ := Option.ite_none_right_eq_some.mp ht
    exact .closeSock hu
  | install =>
    obtain ⟨⟨hu,hd⟩,⟨⟩⟩ := Option.ite_none_right_eq_some.mp ht
    exact .install hu hd
  | onWriteAble =>
    obtain ⟨⟨ha,hcalls⟩,⟨⟩⟩ := Option.ite_none_right_eq_some.mp ht
    exact .onWriteAble ha (List.isEmpty_iff.mp hcalls)
  | destroy =>
    obtain ⟨⟨ha,hcalls⟩,⟨⟩⟩ := Option.ite_none_right_eq_some.mp ht
    exact .destroy ha (List.isEmpty_iff.mp hcalls)
  | destroyed =>
    obtain ⟨⟨_,hd,howed⟩,⟨⟩⟩ := Option.ite_none_right_eq_some.mp ht
    exact .destroyed hd fun c hc => List.isEmpty_iff.mp (List.all_eq_true.mp howed c hc)
  | accept n =>
    simp only [step] at ht
    split at ht
    · next c p ps calls hs =>
      obtain ⟨hcalls,howed,htmp⟩ := sending_eq_some hs
      obtain ⟨⟨_,hn,hle⟩,⟨⟩⟩ := Option.ite_none_right_eq_some.mp ht
      exact .accept n hcalls howed htmp hn hle
    · cases ht
  | again =>
    simp only [step] at ht
    split at ht
    · next c p ps calls hs =>
      obtain ⟨hcalls,howed,htmp⟩ := sending_eq_some hs
      exact .again hcalls howed (by simp [htmp]) ht
    · cases ht
  | error =>
    simp only [step] at ht
    split at ht
    · next c p ps calls hs =>
      obtain ⟨hcalls,howed,htmp⟩ := sending_eq_some hs
      have hne : c.send_buf_sending_tmp ≠ [] := by simp [htmp]
      split at ht
      · exact .wait hcalls howed hne ht
      · cases ht
        exact .emitErr hcalls howed hne
    · cases ht
  | report =>
    simp only [step] at ht
    split at ht
    · next c calls hcalls =>
      split at ht
      · next r rest howed =>
        cases ht
        exact .report hcalls howed
      · cases ht
    · cases ht
  | resume =>
    simp only [step] at ht
    split at ht
    · next c calls hcalls =>
      obtain ⟨⟨⟨_,howed⟩,hd⟩,⟨⟩⟩ := Option.ite_none_right_eq_some.mp ht
      exact .resume hcalls (List.isEmpty_iff.mp howed) hd
    · cases ht

theorem userTurn_alive (h : s.userTurn = true) : s.alive = true := by
  unfold State.userTurn at h
  exact (Bool.and_eq_true_iff.mp h).1

/-! ### What has no result yet -/

/-- In the order in which the call reports it. -/
def Call.buffers (c : Call) : List (List Octet) :=
  c.owed.map Prod.fst ++ c.send_buf_sending_tmp.flatMap BufferSendMsg._pkt_list

/-- The outer calls come first. -/
def heldBy : List Call → List (List Octet)
  | [] => []
  | c :: calls => heldBy calls ++ c.buffers

def State.packets (s : State) : List (BufferSendMsg Octet) :=
  s.calls.flatMap Call.send_buf_sending_tmp ++ s._send_buf_sending

def State.held (s : State) : List Octet :=
  s.packets.flatMap BufferSendMsg.pending ++ s._send_buf_waiting.flatten

/-- Every accepted buffer is passed to `_send_result` once, in order, and all are by the end; the flag says
whether the kernel has taken all bytes. -/
structure Reported (s : State) : Prop where
  order : s.results.map Prod.fst <+: s.accepted
  complete : s.alive = false → s.results.map Prod.fst = s.accepted
  flag : ∀ r ∈ s.results, r.2 = true ↔ ∀ c ∈ r.1, c ∈ s.wire

/-- A result that is reported in a `flushData` inside another finds no older buffer there without one,
and the `Socket` goes with no buffer that was not packed. -/
def InTurn (s : State) : Act → Prop
  | .report => heldBy s.calls.tail = []
  | .destroyed => s._send_buf_waiting = []
  | _ => True

structure Numbered (accepted : List (List Octet)) : Prop where
  distinct : accepted.flatten.Nodup
  below : ∀ c ∈ accepted.flatten, c.buffer < accepted.length
  nonempty : ∀ buf ∈ accepted, buf ≠ []

/-- Bytes that are `lost` are those of dropped packets. -/
def Settled (wire lost : List Octet) (r : Result) : Prop :=
  if r.2 then ∀ c ∈ r.1, c ∈ wire else ∃ c ∈ r.1, c ∈ lost

structure Inv (s : State) : Prop where
  numbers : Numbered s.accepted
  order : s.results.map Prod.fst ++ heldBy s.calls ++
    s._send_buf_sending.flatMap BufferSendMsg._pkt_list ++ s._send_buf_waiting = s.accepted
  ended : s.alive = false → s.calls = [] ∧ s._send_buf_sending = [] ∧ s._send_buf_waiting = []
  packets : ∀ p ∈ s.packets, ∃ x, p.Split x ∧ ∀ c ∈ x, c ∈ s.wire
  flags : ∃ lost, (∀ c, s.wire.count c + s.held.count c + lost.count c = s.accepted.flatten.count c) ∧
    ∀ r ∈ s.results ++ s.calls.flatMap Call.owed, Settled s.wire lost r

/-! ### Invariants -/

theorem Numbered.nodup {accepted : List (List Octet)} (h : Numbered accepted) : accepted.Nodup := by
  obtain ⟨_,hdisj⟩ := List.nodup_flatten.mp h.distinct
  refine hdisj.imp_of_mem ?_
  rintro buf _ hbuf _ hd rfl
  obtain ⟨c,hc⟩ := List.exists_mem_of_ne_nil buf (h.nonempty buf hbuf)
  exact hd hc hc

theorem octets_buffer {k : ℕ} {buf : List UInt8} {c : Octet} (hc : c ∈ octets k buf) : c.buffer = k := by
  obtain ⟨i,hi,rfl⟩ := List.mem_mapIdx.mp hc
  rfl

theorem octets_nodup (k : ℕ) (buf : List UInt8) : (octets k buf).Nodup := by
  rw [List.nodup_iff_injective_getElem]
  intro i j hij
  simp only [octets, List.getElem_mapIdx, Octet.mk.injEq] at hij
  exact Fin.ext hij.2.1

theorem Numbered.append {accepted : List (List Octet)} (h : Numbered accepted) {buf : List UInt8}
    (hbuf : buf.length ≠ 0) : Numbered (accepted ++ [octets accepted.length buf]) := by
  refine ⟨?_,?_,?_⟩
  · simp only [List.flatten_append, List.flatten_cons, List.flatten_nil, List.append_nil]
    refine h.distinct.append (octets_nodup _ _) ?_
    intro c hold hnew
    have := h.below c hold
    have := octets_buffer hnew
    omega
  · intro c hc
    simp only [List.flatten_append, List.flatten_cons, List.flatten_nil, List.append_nil,
      List.mem_append, List.length_append, List.length_singleton] at hc ⊢
    rcases hc with hc | hc
    · exact Nat.lt_succ_of_lt (h.below c hc)
    · exact Nat.lt_succ_of_le (Nat.le_of_eq (octets_buffer hc))
  · intro b hb
    rcases List.mem_append.mp hb with hb | hb
    · exact h.nonempty b hb
    · rw [List.mem_singleton.mp hb, octets, Ne, List.mapIdx_eq_nil_iff]
      exact fun hnil => hbuf (by rw [hnil, List.length_nil])

theorem Settled.mono {wire wire' lost lost' : List Octet} {r : Result} (h : Settled wire lost r)
    (hw : ∀ c ∈ wire, c ∈ wire') (hl : ∀ c ∈ lost, c ∈ lost') : Settled wire' lost' r := by
  unfold Settled at h ⊢
  split
  · next ht =>
    rw [if_pos ht] at h
    exact fun c hc => hw c (h c hc)
  · next hf =>
    rw [if_neg hf] at h
    obtain ⟨c,hc,hcl⟩ := h
    exact ⟨c,hc,hl c hcl⟩

theorem Inv.reported (h : Inv s) : Reported s := by
  refine ⟨?_,?_,?_⟩
  · rw [← h.order, List.append_assoc, List.append_assoc]
    exact List.prefix_append _ _
  · intro hd
    obtain ⟨hcalls,hsending,hwaiting⟩ := h.ended hd
    have := h.order
    rw [hcalls, hsending, hwaiting] at this
    simpa [heldBy] using this
  · intro r hr
    obtain ⟨lost,hcount,hsettled⟩ := h.flags
    have hs := hsettled r (List.mem_append_left _ hr)
    unfold Settled at hs
    constructor
    · intro ht
      rwa [if_pos ht] at hs
    · intro hall
      by_contra hf
      rw [if_neg hf] at hs
      obtain ⟨c,hc,hlost⟩ := hs
      have := List.nodup_iff_count_le_one.mp h.numbers.distinct c
      have := hcount c
      have := List.count_pos_iff.mpr hlost
      have := List.count_pos_iff.mpr (hall c hc)
      omega

theorem inv_fresh : Inv .fresh := by
  refine ⟨⟨List.nodup_nil,?_,?_⟩,rfl,?_,?_,[],?_,?_⟩
  · simp [State.fresh]
  · simp [State.fresh]
  · simp [State.fresh]
  · simp [State.packets, State.fresh]
  · simp [State.packets, State.held, State.fresh]
  · simp [State.fresh]

theorem inv_flushData (h : Inv s) (ha : s.alive = true) (poller_thread : Bool) :
    Inv (s.flushData poller_thread) := by
  obtain ⟨lost,hcount,hsettled⟩ := h.flags
  have horder := h.order
  have hpackets := h.packets
  unfold State.flushData
  split
  · next p ps waiting hs =>
    simp only [State.held, State.packets, hs] at hcount hpackets horder
    refine ⟨h.numbers,?_,fun hd => absurd (ha.symm.trans hd) (by decide),?_,lost,?_,?_⟩
    · rw [← horder]
      simp [heldBy, Call.buffers]
    · intro q hq
      apply hpackets q
      simpa [State.packets, or_comm, or_assoc, or_left_comm] using hq
    · intro c
      have := hcount c
      simp [State.held, State.packets, List.count_append] at this ⊢
      omega
    · simpa using hsettled
  · next buf bufs hs hw =>
    simp only [State.held, State.packets, hs, hw] at hcount hpackets horder
    have hne : ∀ b ∈ buf :: bufs, b ≠ [] := by
      intro b hb
      apply h.numbers.nonempty
      rw [← horder]
      exact List.mem_append_right _ hb
    refine ⟨h.numbers,?_,fun hd => absurd (ha.symm.trans hd) (by decide),?_,lost,?_,?_⟩
    · rw [← horder]
      simp [heldBy, Call.buffers, BufferSendMsg.create, hs]
    · intro q hq
      simp only [State.packets, hs, List.flatMap_cons, List.append_nil, List.singleton_append,
        List.mem_cons] at hq
      rcases hq with rfl | hq
      · exact ⟨[],BufferSendMsg.split_create hne,by simp⟩
      · exact hpackets q (by simpa using hq)
    · intro c
      have := hcount c
      simp [State.held, State.packets, hs, List.count_append, BufferSendMsg.pending_create] at this ⊢
      omega
    · simpa using hsettled
  · split
    · exact ⟨h.numbers,h.order,h.ended,h.packets,h.flags⟩
    · exact h

/-- What only the socket's own flags change. -/
theorem Inv.of_flags (h : Inv s) (sock sendable : Bool) :
    Inv { s with _sock_fd := sock, _sendable := sendable } :=
  ⟨h.numbers,h.order,h.ended,h.packets,h.flags⟩

theorem inv_flushAll (h : Inv s) (ha : s.alive = true) (timeout : Bool) : Inv (s.flushAll timeout) := by
  unfold State.flushAll
  split
  · exact h
  split
  · exact inv_flushData h ha false
  split
  · exact h.of_flags false s._sendable
  · exact h

theorem inv_append (h : Inv s) (ha : s.alive = true) {buf : List UInt8} (hbuf : buf.length ≠ 0) :
    Inv { s with
      _send_buf_waiting := s._send_buf_waiting ++ [octets s.accepted.length buf]
      accepted := s.accepted ++ [octets s.accepted.length buf] } := by
  obtain ⟨lost,hcount,hsettled⟩ := h.flags
  refine ⟨h.numbers.append hbuf,?_,fun hd => absurd (ha.symm.trans hd) (by decide),h.packets,lost,?_,
    hsettled⟩
  · rw [← List.append_assoc, h.order]
  · intro c
    have := hcount c
    simp only [State.held, State.packets, List.flatten_append, List.count_append] at this ⊢
    omega

theorem inv_send_l (h : Inv s) (ha : s.alive = true) (buf : List UInt8) (try_flush timeout : Bool) :
    Inv (s.send_l buf try_flush timeout) := by
  unfold State.send_l
  split
  · exact h
  · next hbuf =>
    split
    · exact inv_flushAll (inv_append h ha hbuf) ha timeout
    · exact inv_append h ha hbuf

theorem inv_onWriteAble (h : Inv s) (ha : s.alive = true) : Inv s.onWriteAble := by
  unfold State.onWriteAble
  split
  · exact h.of_flags s._sock_fd true
  · exact inv_flushData h ha true

/-- A dropped packet reports buffers of which a byte is lost with it. -/
theorem settled_packFailed {packets : List (BufferSendMsg Octet)} {wire : List Octet}
    (h : ∀ p ∈ packets, ∃ x, p.Split x ∧ ∀ c ∈ x, c ∈ wire) (lost : List Octet) {r : Result}
    (hr : r ∈ packFailed packets) :
    Settled wire (lost ++ packets.flatMap BufferSendMsg.pending) r := by
  obtain ⟨buf,hbuf,rfl⟩ := List.mem_map.mp hr
  obtain ⟨p,hp,hbuf⟩ := List.mem_flatMap.mp hbuf
  obtain ⟨x,hx,_⟩ := h p hp
  obtain ⟨c,hc,hpending⟩ := hx.unsent hbuf
  exact ⟨c,hc,List.mem_append_right _ (List.mem_flatMap.mpr ⟨p,hp,hpending⟩)⟩

section
variable {c : Call} {calls : List Call}

theorem Inv.alive (h : Inv s) {c : Call} {calls : List Call} (hcalls : s.calls = c :: calls) :
    s.alive = true := by
  by_contra hd
  cases hcalls.symm.trans (h.ended (Bool.eq_false_iff.mpr hd)).1

/-- The invariant with the innermost call taken apart. -/
theorem Inv.innermost (h : Inv s) (hcalls : s.calls = c :: calls) :
    s.results.map Prod.fst ++ (heldBy calls ++ c.buffers) ++
      s._send_buf_sending.flatMap BufferSendMsg._pkt_list ++ s._send_buf_waiting = s.accepted ∧
    (∀ p ∈ c.send_buf_sending_tmp ++ calls.flatMap Call.send_buf_sending_tmp ++ s._send_buf_sending,
      ∃ x, p.Split x ∧ ∀ o ∈ x, o ∈ s.wire) ∧
    ∃ lost, (∀ o, s.wire.count o + ((c.send_buf_sending_tmp ++
        calls.flatMap Call.send_buf_sending_tmp ++ s._send_buf_sending).flatMap BufferSendMsg.pending ++
        s._send_buf_waiting.flatten).count o + lost.count o = s.accepted.flatten.count o) ∧
      ∀ r ∈ s.results ++ (c.owed ++ calls.flatMap Call.owed), Settled s.wire lost r := by
  obtain ⟨lost,hcount,hsettled⟩ := h.flags
  have horder := h.order
  have hpackets := h.packets
  simp only [State.held, State.packets, hcalls, List.flatMap_cons] at hcount hpackets hsettled
  rw [hcalls] at horder
  exact ⟨horder,hpackets,lost,hcount,hsettled⟩

theorem inv_waitWriteAble (h : Inv s) (hcalls : s.calls = c :: calls) (howed : c.owed = [])
    (ht : s.waitWriteAble c calls = some t) : Inv t := by
  unfold State.waitWriteAble at ht
  split at ht
  · cases ht
  cases ht
  obtain ⟨horder,hpackets,lost,hcount,hsettled⟩ := h.innermost hcalls
  refine ⟨h.numbers,?_,fun hd => ?_,?_,lost,?_,?_⟩
  · rw [← horder]
    simp [Call.buffers, howed]
  · cases hcalls.symm.trans (h.ended hd).1
  · intro p hp
    apply hpackets p
    simpa [State.packets, or_assoc, or_left_comm] using hp
  · intro o
    have := hcount o
    simp [State.held, State.packets, List.count_append] at this ⊢
    omega
  · simpa [howed] using hsettled

theorem inv_drop (h : Inv s) (hcalls : s.calls = c :: calls) (howed : c.owed = []) :
    Inv (s.drop c calls) := by
  obtain ⟨horder,hpackets,lost,hcount,hsettled⟩ := h.innermost hcalls
  refine ⟨h.numbers,?_,fun hd => ?_,?_,
    lost ++ c.send_buf_sending_tmp.flatMap BufferSendMsg.pending,?_,?_⟩
  · refine Eq.trans ?_ horder
    simp [State.drop, heldBy, Call.buffers, howed, packFailed, Function.comp_def]
  · cases hcalls.symm.trans (h.ended hd).1
  · intro p hp
    apply hpackets p
    simp only [State.drop, State.packets, List.flatMap_cons, List.nil_append] at hp
    simp only [List.append_assoc, List.mem_append] at hp ⊢
    exact .inr hp
  · intro o
    have := hcount o
    simp [State.drop, State.held, State.packets, List.count_append] at this ⊢
    omega
  · intro r hr
    simp only [State.drop, List.flatMap_cons, List.mem_append] at hr
    rcases hr with hr | hr | hr
    · exact (hsettled r (by simp [hr])).mono (fun o ho => ho) fun o ho => List.mem_append_left _ ho
    · exact settled_packFailed (fun p hp => hpackets p (by simp [hp])) lost hr
    · exact (hsettled r (by simp [hr])).mono (fun o ho => ho) fun o ho => List.mem_append_left _ ho

theorem inv_destroy (h : Inv s) (ha : s.alive = true) (hcalls : s.calls = []) : Inv s.destroy := by
  obtain ⟨lost,hcount,hsettled⟩ := h.flags
  have horder := h.order
  have hpackets := h.packets
  simp only [State.held, State.packets, hcalls, List.flatMap_nil, List.nil_append] at hcount hpackets
  simp only [hcalls, List.flatMap_nil, List.append_nil] at hsettled
  have hpushed : Inv { s with
      _sock_fd := false
      _send_buf_sending := []
      dying := true
      calls := [⟨false,s._send_buf_sending,0,[],false,true⟩] } := by
    refine ⟨h.numbers,?_,fun hd => absurd (ha.symm.trans hd) (by decide),?_,lost,?_,?_⟩
    · refine Eq.trans ?_ horder
      simp [heldBy, Call.buffers, hcalls]
    · simpa [State.packets] using hpackets
    · simpa [State.held, State.packets] using hcount
    · simpa using hsettled
  have hdropped := inv_drop hpushed rfl rfl
  exact hdropped

/-- The flags of the innermost call say nothing about buffers. -/
theorem Inv.of_turn (h : Inv s) (hcalls : s.calls = c :: calls) (inside failed : Bool) :
    Inv { s with calls := { c with inside := inside, failed := failed } :: calls } := by
  obtain ⟨horder,hpackets,lost,hcount,hsettled⟩ := h.innermost hcalls
  refine ⟨h.numbers,horder,fun hd => ?_,hpackets,lost,hcount,hsettled⟩
  cases hcalls.symm.trans (h.ended hd).1

theorem inv_emitErr (h : Inv s) (hcalls : s.calls = c :: calls) (howed : c.owed = []) :
    Inv (s.emitErr c calls) := by
  unfold State.emitErr
  split
  · exact (h.of_turn hcalls true true).of_flags false s._sendable
  · exact inv_drop h hcalls howed

theorem inv_acceptBytes {p : BufferSendMsg Octet} {ps : List (BufferSendMsg Octet)} {n : ℕ} (h : Inv s)
    (hcalls : s.calls = c :: calls) (howed : c.owed = []) (htmp : c.send_buf_sending_tmp = p :: ps)
    (hn : 0 < n) (hle : n ≤ p.offered.length) : Inv (s.acceptBytes c p ps calls n) := by
  obtain ⟨horder,hpackets,lost,hcount,hsettled⟩ := h.innermost hcalls
  rw [htmp] at hcount hpackets
  obtain ⟨x,hx,hxw⟩ := hpackets p (by simp)
  obtain ⟨hlist,hpending,x',hsent,hrest⟩ := hx.completes hn hle
  have hwire : ∀ o ∈ (p.send_l n).2.flatten ++ x', o ∈ s.wire ++ p.offered.take n := by
    intro o ho
    rw [hsent, List.mem_append] at ho
    exact List.mem_append.mpr (ho.imp_left (hxw o))
  -- the local list behind the send holds what the packets held, without what is taken
  obtain ⟨tmp,htmp',hkept,hleft,hsplit⟩ : ∃ tmp,
      (if (p.send_l n).1.empty then ps else (p.send_l n).1 :: ps) = tmp ∧
      (p.send_l n).2 ++ tmp.flatMap BufferSendMsg._pkt_list =
        p._pkt_list ++ ps.flatMap BufferSendMsg._pkt_list ∧
      tmp.flatMap BufferSendMsg.pending =
        (p.send_l n).1.pending ++ ps.flatMap BufferSendMsg.pending ∧
      ∀ q ∈ tmp, q ∈ ps ∨ q.Split x' := by
    rcases hrest with ⟨hempty,hnil,hdone⟩ | ⟨hempty,hq⟩
    · refine ⟨ps,by rw [hempty, if_pos rfl],?_,by rw [hdone, List.nil_append],fun q hq => .inl hq⟩
      rw [← hlist, hnil, List.append_nil]
    · refine ⟨(p.send_l n).1 :: ps,by simp [hempty],?_,List.flatMap_cons,?_⟩
      · rw [List.flatMap_cons, ← List.append_assoc, hlist]
      · intro q hmem
        rcases List.mem_cons.mp hmem with rfl | hmem
        · exact .inr hq
        · exact .inl hmem
  refine ⟨h.numbers,?_,fun hd => ?_,?_,lost,?_,?_⟩
  · refine Eq.trans ?_ horder
    simp [State.acceptBytes, htmp', heldBy, Call.buffers, howed, htmp, hkept,
      Function.comp_def]
  · cases hcalls.symm.trans (h.ended hd).1
  · intro q hq
    simp only [State.acceptBytes, State.packets, htmp', List.flatMap_cons, List.append_assoc] at hq
    have hmem : q ∈ p :: ps ++ calls.flatMap Call.send_buf_sending_tmp ++ s._send_buf_sending ∨
        q.Split x' := by
      rcases List.mem_append.mp hq with hq | hq
      · exact (hsplit q hq).imp_left fun hq => by simp [hq]
      · exact .inl (by rw [List.append_assoc]; exact List.mem_append_right _ hq)
    rcases hmem with hq | hq
    · obtain ⟨y,hy,hyw⟩ := hpackets q hq
      exact ⟨y,hy,fun o ho => List.mem_append_left _ (hyw o ho)⟩
    · exact ⟨x',hq,fun o ho => hwire o (List.mem_append_right _ ho)⟩
  · intro o
    have := hcount o
    simp [State.acceptBytes, State.held, State.packets, htmp', hleft, hpending, List.count_append]
      at this ⊢
    omega
  · intro r hr
    simp only [State.acceptBytes, List.flatMap_cons, List.mem_append, List.mem_map] at hr
    rcases hr with hr | ⟨buf,hbuf,rfl⟩ | hr
    · exact (hsettled r (by simp [hr])).mono (fun o ho => List.mem_append_left _ ho) fun o ho => ho
    · exact fun o ho => hwire o (List.mem_append_left _ (List.mem_flatten.mpr ⟨buf,hbuf,ho⟩))
    · exact (hsettled r (by simp [hr])).mono (fun o ho => List.mem_append_left _ ho) fun o ho => ho

theorem inv_report {r : Result} {rest : List Result} (h : Inv s) (hcalls : s.calls = c :: calls)
    (howed : c.owed = r :: rest) (hturn : heldBy calls = []) : Inv (s.report c r rest calls) := by
  obtain ⟨horder,hpackets,lost,hcount,hsettled⟩ := h.innermost hcalls
  refine ⟨h.numbers,?_,fun hd => ?_,?_,lost,?_,?_⟩
  · refine Eq.trans ?_ horder
    simp [State.report, heldBy, hturn, Call.buffers, howed]
  · cases hcalls.symm.trans (h.ended hd).1
  · exact hpackets
  · exact hcount
  · simpa [State.report, howed] using hsettled

theorem inv_resume (h : Inv s) (hcalls : s.calls = c :: calls) (howed : c.owed = []) :
    Inv (s.resume c calls) := by
  have ha := h.alive hcalls
  obtain ⟨horder,hpackets,lost,hcount,hsettled⟩ := h.innermost hcalls
  unfold State.resume
  split
  · split
    · exact inv_drop h hcalls howed
    · exact h.of_turn hcalls false c.failed
  · next htmp =>
    have hpop : Inv { s with calls := calls } := by
      refine ⟨h.numbers,?_,fun hd => absurd (ha.symm.trans hd) (by decide),?_,lost,?_,?_⟩
      · rw [← horder]
        simp [Call.buffers, howed, htmp]
      · simpa [State.packets, htmp] using hpackets
      · simpa [State.held, State.packets, htmp] using hcount
      · simpa [howed] using hsettled
    split
    · exact inv_flushData hpop ha true
    · exact hpop

end

/-- While `~Socket` runs there is no fd and no packet, and the call that reports is there. -/
def Closing (s : State) : Prop :=
  s.dying = true → s._sock_fd = false ∧ s._send_buf_sending = [] ∧
    (∀ c ∈ s.calls, c.send_buf_sending_tmp = []) ∧ (s.alive = true → s.calls ≠ [])

theorem Closing.flushAll_eq (h : Closing s) (hd : s.dying = true) (timeout : Bool) : s.flushAll timeout = s := by
  unfold State.flushAll
  simp [(h hd).1]

theorem dying_flushData (s : State) (poller_thread : Bool) : (s.flushData poller_thread).dying = s.dying := by
  unfold State.flushData
  split
  · rfl
  · rfl
  · split <;> rfl

theorem dying_flushAll (s : State) (timeout : Bool) : (s.flushAll timeout).dying = s.dying := by
  unfold State.flushAll
  split
  · rfl
  split
  · exact dying_flushData s false
  split <;> rfl

theorem Closing.flushAll (h : Closing s) (timeout : Bool) : Closing (s.flushAll timeout) := by
  intro hd
  rw [dying_flushAll] at hd
  rw [h.flushAll_eq hd]
  exact h hd

theorem Closing.send_l (h : Closing s) (buf : List UInt8) (try_flush timeout : Bool) :
    Closing (s.send_l buf try_flush timeout) := by
  unfold State.send_l
  split
  · exact h
  have happend : Closing { s with
      _send_buf_waiting := s._send_buf_waiting ++ [octets s.accepted.length buf]
      accepted := s.accepted ++ [octets s.accepted.length buf] } := h
  dsimp only
  split
  · exact happend.flushAll timeout
  · exact happend

/-- Whoever is in `sendmsg` is not in `~Socket`. -/
theorem Closing.not_dying (h : Closing s) {c : Call} {calls : List Call} (hcalls : s.calls = c :: calls)
    (htmp : c.send_buf_sending_tmp ≠ []) : s.dying = false := by
  by_contra hd
  exact htmp ((h (by simpa using hd)).2.2.1 c (by simp [hcalls]))

theorem Closing.idle (h : Closing s) (ha : s.alive = true) (hcalls : s.calls = []) : s.dying = false := by
  by_contra hd
  exact (h (by simpa using hd)).2.2.2 ha hcalls

theorem closing_of_not_dying (h : s.dying = false) : Closing s := fun hd => absurd (h.symm.trans hd) (by decide)

theorem dying_waitWriteAble {c : Call} {calls : List Call} (h : s.waitWriteAble c calls = some t) :
    t.dying = s.dying := by
  unfold State.waitWriteAble at h
  split at h
  · cases h
  · cases h
    rfl

theorem closing_step {a : Act} (h : Closing s) (ht : step s a = some t) : Closing t := by
  cases step_moves ht with
  | send_l buf try_flush timeout => exact h.send_l buf try_flush timeout
  | flushAll timeout => exact h.flushAll timeout
  | closeSock => exact fun hd => ⟨rfl,(h hd).2⟩
  | install _ hd => exact closing_of_not_dying hd
  | onWriteAble ha hcalls =>
    have hd := h.idle ha hcalls
    refine closing_of_not_dying ?_
    unfold State.onWriteAble
    split
    · exact hd
    · rw [dying_flushData, hd]
  | destroy _ hcalls =>
    intro _
    refine ⟨rfl,rfl,?_,fun _ => by simp [State.destroy, State.drop]⟩
    simp [State.destroy, State.drop]
  | destroyed hd =>
    intro _
    obtain ⟨hfd,hsending,-,-⟩ := h hd
    exact ⟨hfd,hsending,by simp [State.destroyed],fun ha => by simp [State.destroyed] at ha⟩
  | accept n hcalls _ htmp => exact closing_of_not_dying (h.not_dying hcalls (by simp [htmp]))
  | again hcalls _ htmp hwait =>
    exact closing_of_not_dying ((dying_waitWriteAble hwait).trans (h.not_dying hcalls htmp))
  | wait hcalls _ htmp hwait =>
    exact closing_of_not_dying ((dying_waitWriteAble hwait).trans (h.not_dying hcalls htmp))
  | emitErr hcalls _ htmp =>
    have hd := h.not_dying hcalls htmp
    refine closing_of_not_dying ?_
    unfold State.emitErr
    split
    · exact hd
    · exact hd
  | report hcalls =>
    intro hd
    obtain ⟨hfd,hsending,htmp,-⟩ := h hd
    rw [hcalls] at htmp
    exact ⟨hfd,hsending,by simpa [State.report] using htmp,fun _ => by simp [State.report]⟩
  | resume hcalls _ hd =>
    refine closing_of_not_dying ?_
    unfold State.resume
    split
    · split
      · exact hd
      · exact hd
    · split
      · rw [dying_flushData]
        exact hd
      · exact hd

theorem heldBy_eq_nil {calls : List Call} (h : ∀ c ∈ calls, c.owed = [] ∧ c.send_buf_sending_tmp = []) :
    heldBy calls = [] := by
  induction calls with
  | nil => rfl
  | cons c calls ih =>
    obtain ⟨hc,hcalls⟩ := List.forall_mem_cons.mp h
    simp [heldBy, ih hcalls, Call.buffers, hc.1, hc.2]

theorem Closing.heldBy_eq_nil (h : Closing s) (hd : s.dying = true) (howed : ∀ c ∈ s.calls, c.owed = []) :
    heldBy s.calls = [] :=
  SendResults.heldBy_eq_nil fun c hc => ⟨howed c hc,(h hd).2.2.1 c hc⟩

theorem inv_destroyed (h : Inv s) (hclosing : Closing s) (hd : s.dying = true)
    (howed : ∀ c ∈ s.calls, c.owed = []) (hw : s._send_buf_waiting = []) : Inv s.destroyed := by
  obtain ⟨lost,hcount,hsettled⟩ := h.flags
  have horder := h.order
  obtain ⟨-,hsending,htmp,-⟩ := hclosing hd
  have hpackets : s.calls.flatMap Call.send_buf_sending_tmp = [] := List.flatMap_eq_nil_iff.mpr htmp
  refine ⟨h.numbers,?_,fun _ => ⟨rfl,hsending,rfl⟩,?_,lost,?_,?_⟩
  · rw [hclosing.heldBy_eq_nil hd howed, hw] at horder
    exact horder
  · simp [State.destroyed, State.packets, hsending]
  · intro o
    have := hcount o
    simpa [State.destroyed, State.held, State.packets, hpackets, hsending, hw] using this
  · intro r hr
    refine hsettled r (List.mem_append_left _ ?_)
    simpa [State.destroyed] using hr

theorem inv_step {a : Act} (h : Inv s) (hclosing : Closing s) (hc : InTurn s a) (ht : step s a = some t) :
    Inv t := by
  cases step_moves ht with
  | send_l buf try_flush timeout hu => exact inv_send_l h (userTurn_alive hu) buf try_flush timeout
  | flushAll timeout hu => exact inv_flushAll h (userTurn_alive hu) timeout
  | closeSock => exact h.of_flags false s._sendable
  | install => exact h.of_flags true s._sendable
  | onWriteAble ha => exact inv_onWriteAble h ha
  | destroy ha hcalls => exact inv_destroy h ha hcalls
  | destroyed hd howed => exact inv_destroyed h hclosing hd howed hc
  | accept n hcalls howed htmp hn hle => exact inv_acceptBytes h hcalls howed htmp hn hle
  | again hcalls howed _ hwait => exact inv_waitWriteAble h hcalls howed hwait
  | wait hcalls howed _ hwait => exact inv_waitWriteAble h hcalls howed hwait
  | emitErr hcalls howed => exact inv_emitErr h hcalls howed
  | report hcalls howed =>
    refine inv_report h hcalls howed ?_
    simpa only [InTurn, hcalls, List.tail_cons] using hc
  | resume hcalls howed => exact inv_resume h hcalls howed

/-- A result out of turn is another buffer than the oldest without one. -/
theorem inTurn_of_reported {a : Act} (h : Inv s) (hclosing : Closing s) (ht : step s a = some t)
    (hr : Reported t) : InTurn s a := by
  have horder := h.order
  cases step_moves ht with
  | report hcalls howed =>
    next c r rest calls =>
    have hpre := hr.order
    simp only [InTurn, hcalls, List.tail_cons]
    simp only [State.report, List.map_append, List.map_cons, List.map_nil] at hpre
    cases hheld : heldBy calls with
    | nil => rfl
    | cons buf held =>
      simp only [hcalls, heldBy, hheld, Call.buffers, howed, List.map_cons, List.append_assoc,
        List.cons_append] at horder
      rw [← horder, List.prefix_append_right_inj, List.cons_prefix_cons] at hpre
      have hnodup := h.numbers.nodup
      rw [← horder] at hnodup
      have := (List.nodup_cons.mp hnodup.of_append_right).1
      simp [hpre.1] at this
  | destroyed hd howed =>
    have hcomplete := hr.complete rfl
    rw [hclosing.heldBy_eq_nil hd howed, (hclosing hd).2.1] at horder
    simp only [List.flatMap_nil, List.append_nil] at horder
    change s.results.map Prod.fst = s.accepted at hcomplete
    rw [← hcomplete] at horder
    exact List.append_right_eq_self.mp horder
  | _ => trivial

theorem everyStep_reported_iff (as : List Act) :
    EveryStep step InTurn .fresh as ↔ EveryState step Reported .fresh as := by
  have hfresh : Inv .fresh ∧ Closing .fresh := ⟨inv_fresh,closing_of_not_dying rfl⟩
  refine everyStep_iff_everyState hfresh (fun s (h : Inv s ∧ Closing s) => h.1.reported) ?_ ?_
  · rintro s a t ⟨h,hclosing⟩ hc ht
    exact ⟨inv_step h hclosing hc ht,closing_step hclosing ht⟩
  · rintro s a t ⟨h,hclosing⟩ ht hr
    exact inTurn_of_reported h hclosing ht hr

/-- The first buffer waits in a packet for the fd to be writable, the second one behind it is dropped without
a result. A buffer that a result callback sends overtakes the next one of the same packet. -/
theorem unpacked_unreported :
    let as : List Act :=
      [.install,.send_l [7] true false,.again,.send_l [8] true false,.closeSock,.destroy,.report,.destroyed]
    let bs : List Act := [.install,.send_l [1] false false,.send_l [2] true false,.accept 2,.report,
      .send_l [3] true false,.accept 1,.report,.resume,.report,.resume]
    ((exec step .fresh as).map fun s => (s.alive,s.accepted,s.results)) =
      some (false,[octets 0 [7],octets 1 [8]],[(octets 0 [7],false)]) ∧
    ((exec step .fresh bs).map fun s => (s.accepted,s.results)) =
      some ([octets 0 [1],octets 1 [2],octets 2 [3]],
        [(octets 0 [1],true),(octets 2 [3],true),(octets 1 [2],true)]) ∧
    ¬ EveryState step Reported .fresh as ∧ ¬ EveryState step Reported .fresh bs := by
  intro as bs
  refine ⟨by decide,by decide,?_,?_⟩
  · intro h
    have hs := h.last rfl
    have := hs.complete rfl
    revert this
    decide
  · intro h
    have hs := h.last rfl
    have := hs.order
    revert this
    decide

/-! ### Sends outside of callbacks -/

/-- No send is made in a callback of `flushData` or `~Socket`, and the `Socket` is destroyed when all
buffers are packed. -/
def Outside (s : State) : Act → Prop
  | .send_l _ _ _ => s.calls = []
  | .flushAll _ => s.calls = []
  | .destroyed => s._send_buf_waiting = []
  | _ => True

/-- `flushData` does not run inside itself. -/
def Flat (s : State) : Prop := s.calls.tail = []

theorem flat_flushData (h : s.calls = []) (poller_thread : Bool) : Flat (s.flushData poller_thread) := by
  unfold State.flushData
  split
  · exact h
  · exact h
  · split <;> simp [Flat, h]

theorem flat_flushAll (h : s.calls = []) (timeout : Bool) : Flat (s.flushAll timeout) := by
  have hnil : Flat s := by rw [Flat, h, List.tail_nil]
  unfold State.flushAll
  split
  · exact hnil
  split
  · exact flat_flushData h false
  split
  · exact hnil
  · exact hnil

theorem waitWriteAble_calls {c : Call} {calls : List Call} (h : s.waitWriteAble c calls = some t) :
    t.calls = calls := by
  unfold State.waitWriteAble at h
  split at h
  · cases h
  · cases h
    rfl

theorem flat_waitWriteAble {c : Call} {calls : List Call} (h : Flat s) (hcalls : s.calls = c :: calls)
    (ht : s.waitWriteAble c calls = some t) : Flat t := by
  rw [Flat, hcalls, List.tail_cons] at h
  rw [Flat, waitWriteAble_calls ht, h, List.tail_nil]

theorem flat_step {a : Act} (h : Flat s) (hc : Outside s a) (ht : step s a = some t) : Flat t := by
  unfold Flat at h
  cases step_moves ht with
  | send_l buf try_flush timeout =>
    unfold State.send_l
    split
    · exact h
    split
    · refine flat_flushAll ?_ timeout
      exact hc
    · exact h
  | flushAll timeout => exact flat_flushAll hc timeout
  | onWriteAble _ hcalls =>
    unfold State.onWriteAble
    split
    · exact h
    · exact flat_flushData hcalls true
  | closeSock => exact h
  | install => exact h
  | destroy => rfl
  | accept n hcalls => rwa [hcalls] at h
  | destroyed => rfl
  | again hcalls _ _ hwait => exact flat_waitWriteAble h hcalls hwait
  | wait hcalls _ _ hwait => exact flat_waitWriteAble h hcalls hwait
  | emitErr hcalls =>
    rw [hcalls, List.tail_cons] at h
    unfold State.emitErr
    split
    · exact h
    · exact h
  | report hcalls => rwa [hcalls] at h
  | resume hcalls =>
    rw [hcalls, List.tail_cons] at h
    unfold State.resume
    split
    · split
      · exact h
      · exact h
    · split
      · exact flat_flushData h true
      · rw [Flat, h, List.tail_nil]

theorem reported_of_outside {as : List Act} (h : EveryStep step Outside .fresh as) :
    EveryState step Reported .fresh as := by
  have hboth : EveryStep step (fun s a => InTurn s a ∧ Outside s a) .fresh as := by
    have hflat : Flat .fresh := rfl
    refine h.of_preserves hflat ?_ fun s a t hs hc ht => flat_step hs hc.2 ht
    intro s a t hs hc _
    refine ⟨?_,hc⟩
    cases a with
    | report => rw [InTurn, hs, heldBy]
    | destroyed => exact hc
    | _ => trivial
  have hturn : EveryStep step InTurn .fresh as := hboth.mono fun s a hc => hc.1
  exact (everyStep_reported_iff as).mp hturn

end OctCommu.Network.SendResults
