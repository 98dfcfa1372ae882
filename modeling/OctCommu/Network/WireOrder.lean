import OctCommu.Network.FlushSteps

/-! # The order of the bytes on the wire

`flushData` empties a cache, sends without a lock and puts the rest back. While
only one of the two local lists and `_send_buf_sending` holds packets, the bytes
leave in the order they were queued.
-/
namespace OctCommu.Network
open Runs
variable {I : Type*} [DecidableEq I]

/-- What the kernel has taken is a prefix of the buffers in the order they were appended. -/
def WireInOrder (s : State I) : Prop :=
  (s.socket.wire 0).map Cell.byte <+: s.socket.appended.flatten

def Flush.takes : Flush → Bool
  | .takeWaiting => true
  | _ => false

/-- New buffers are taken out of `_send_buf_waiting` only with nothing older put back meanwhile and
nothing older in the local list of another thread. -/
def TakesAlone (s : State I) : Label I → Prop
  | .app _ => s.appPc.any Flush.takes = false ∨ s.socket._send_buf_waiting = [] ∨
      s.socket._send_buf_sending = [] ∧ s.poller.tmp = []
  | .poller _ => s.poller.pc.any Flush.takes = false ∨ s.socket._send_buf_waiting = [] ∨
      s.socket._send_buf_sending = [] ∧ s.appTmp = []
  | _ => True

instance (s : State I) : DecidablePred (TakesAlone s)
  | .app _ | .poller _ => inferInstanceAs (Decidable (_ ∨ _ ∨ _ ∧ _))
  | .send .. | .flushAll _ | .enter .. | .writeAble | .closeSock | .install
  | .onConnected => isTrue trivial

/-- The invariant, for the local lists `t` and `o` of the two threads that can be in `flushData`. -/
structure InOrder (s : Socket) (t o : List Packet) : Prop where
  alone : (o = [] ∧ s._send_buf_sending = []) ∨ (t = [] ∧ s._send_buf_sending = []) ∨
    (t = [] ∧ o = [])
  bytes : (s.wire 0 ++ unsent t ++ unsent o ++ unsent s._send_buf_sending ++
    s._send_buf_waiting.flatten).map Cell.byte = s.appended.flatten
  counted : ∀ p ∈ t ++ o ++ s._send_buf_sending, p.Counted

theorem InOrder.symm {s : Socket} {t o : List Packet} (hs : InOrder s t o) : InOrder s o t := by
  obtain ⟨ha,hb,hc⟩ := hs
  refine ⟨?_,?_,?_⟩
  · rcases ha with h | h | h
    · exact .inr (.inl h)
    · exact .inl h
    · exact .inr (.inr h.symm)
  · have hcomm : unsent o ++ unsent t = unsent t ++ unsent o := by
      rcases ha with ⟨rfl,_⟩ | ⟨rfl,_⟩ | ⟨rfl,_⟩ <;> simp
    rw [← hb, List.append_assoc (s.wire 0), hcomm, ← List.append_assoc]
  · intro p hp
    apply hc p
    simp only [List.mem_append] at hp ⊢
    tauto

theorem InOrder.flush {b : Bool} {s u : Socket} {pc : Flush} {a : FlushAct} {out : FlushOut}
    {o : List Packet} (hs : InOrder s pc.tmp o) (hst : FlushStep b 0 s pc a u out) (ha : a ≠ .error)
    (hc : pc = .takeWaiting → s._send_buf_waiting = [] ∨ s._send_buf_sending = [] ∧ o = []) :
    InOrder u out.tmp o := by
  obtain ⟨hal,hb,hcount⟩ := hs
  obtain ⟨rfl,rfl,ht⟩ | ⟨rfl,hw,rfl,ht⟩ | ⟨p,ps,n,htmp,hr,hn,hle,rfl,ht⟩ | ⟨rfl,ht⟩ | ⟨he,_⟩ |
    ⟨x,e,rfl,ht⟩ := hst.data
  · rw [ht]
    have hor : o = [] ∨ s._send_buf_sending = [] := by tauto
    refine ⟨?_,?_,?_⟩
    · rcases hor with h | h
      · exact .inl ⟨h,rfl⟩
      · exact .inr (.inl ⟨h,rfl⟩)
    · rw [← hb]
      rcases hor with h | h <;> simp [h, Flush.tmp]
    · intro p hp
      apply hcount p
      simp only [List.mem_append, List.not_mem_nil, or_false] at hp ⊢
      tauto
  · rw [ht]
    obtain ⟨hse,rfl⟩ := (hc rfl).resolve_left hw
    refine ⟨.inl ⟨rfl,hse⟩,?_,?_⟩
    · rw [← hb]
      simp [hse, Flush.tmp, BufferSendMsg.pending_create]
    · intro p hp
      simp only [hse, List.append_nil, List.mem_singleton] at hp
      rw [hp]
      exact BufferSendMsg.counted_create _
  · rw [htmp] at hal hb hcount
    rw [ht]
    obtain ⟨rfl,hse⟩ : o = [] ∧ s._send_buf_sending = [] := by simpa using hal
    have hp := hcount p (by simp)
    have htaken := taken_append_pending hp hn hle hr ps
    refine ⟨.inl ⟨rfl,hse⟩,?_,?_⟩
    · rw [← htaken] at hb
      simpa [Socket.transmit, hse] using hb
    · intro q hq
      simp only [Socket.transmit, hse, List.append_nil] at hq
      split at hq
      · exact hcount q (by simp [hq])
      · rcases List.mem_cons.mp hq with rfl | hq
        · exact (BufferSendMsg.send_l_spec hp hn hle hr).1
        · exact hcount q (by simp [hq])
  · rw [ht]
    refine ⟨?_,?_,?_⟩
    · rcases hal with ⟨h,_⟩ | ⟨h,h'⟩ | ⟨_,h⟩
      · exact .inr (.inr ⟨rfl,h⟩)
      · exact .inr (.inl ⟨rfl,by simp [h, h']⟩)
      · exact .inr (.inr ⟨rfl,h⟩)
    · rw [← hb]
      rcases hal with ⟨h,h'⟩ | ⟨h,h'⟩ | ⟨h,h'⟩ <;> simp [h, h']
    · intro p hp
      apply hcount p
      simp only [List.mem_append, List.not_mem_nil, false_or] at hp ⊢
      tauto
  · exact absurd he ha
  · rw [ht]
    exact ⟨hal,hb,hcount⟩

theorem InOrder.append {s : Socket} {t o : List Packet} (hs : InOrder s t o) (buf : List UInt8) :
    InOrder (s.append buf) t o := by
  refine ⟨hs.alone,?_,hs.counted⟩
  have hbuf : (buf.map fun b => Cell.mk b s.closed).map Cell.byte = buf := by simp [Function.comp_def]
  simp only [Socket.append, List.flatten_append, List.flatten_cons, List.flatten_nil, List.append_nil]
  rw [← hs.bytes, ← List.append_assoc, List.map_append, hbuf]

def Flowing (s : State I) : Prop := s.Open ∧ InOrder s.socket s.appTmp s.poller.tmp

omit [DecidableEq I] in
theorem flowing_opened : Flowing (State.opened : State I) :=
  ⟨open_opened,.inl ⟨rfl,rfl⟩,rfl,nofun⟩

theorem step_flowing {s t : State I} {l : Label I} (hs : Flowing s) (hl : l.KeepsOpen)
    (hc : TakesAlone s l) (h : step s l = some t) : Flowing t := by
  have hopen := step_open hs.1 hl h
  obtain ⟨⟨hfd,hholder,hpoller⟩,hord⟩ := hs
  refine ⟨hopen,?_⟩
  cases l with
  | send i buf try_flush =>
    obtain ⟨app,rfl | rfl⟩ := step_send h
    · exact hord
    · exact hord.append buf
  | flushAll i =>
    obtain ⟨app,rfl⟩ := step_flushAll h
    exact hord
  | enter i timeout =>
    obtain ⟨hh,hcase⟩ := step_enter h
    have htmp : s.appTmp = [] := by rw [State.appTmp, hh]
    rw [htmp] at hord
    obtain ⟨sock,_,_,rfl⟩ | ⟨caller,r,rfl⟩ | ⟨_,_,rfl,_⟩ := hcase
    · exact hord
    · exact hord
    · cases hl
  | app a =>
    obtain ⟨i,sock,pc,u,out,hh,hf,hp,hsock,hh'⟩ := step_app h
    obtain rfl := hholder i sock pc hh
    have hst := flushData_step hf
    have htmp : s.appTmp = pc.tmp := by rw [State.appTmp, hh]
    have hcond : pc = .takeWaiting → s.socket._send_buf_waiting = [] ∨
        s.socket._send_buf_sending = [] ∧ s.poller.tmp = [] := by
      rintro rfl
      exact hc.resolve_left (by simp [State.appPc, hh, Flush.takes])
    rw [htmp] at hord
    rw [hsock, hst.socket_eq hl, hp, appTmp_of_holder hh']
    exact hord.flush hst hl hcond
  | writeAble =>
    obtain ⟨sock,hp,_,rfl⟩ := step_writeAble h
    have htmp : s.poller.tmp = [] := by rw [hp]; rfl
    rw [htmp] at hord
    exact hord
  | poller a =>
    obtain ⟨sock,pc,u,out,hp,hf,rfl⟩ | ⟨sock,hp,rfl⟩ | ⟨sock,w,hp,pc,hpc,rfl⟩ | ⟨hp,_⟩ | ⟨hp,_⟩ :=
      step_poller h
    · rw [hp] at hord hpoller
      obtain rfl : sock = 0 := hpoller
      have hst := flushData_step hf
      have hcond : pc = .takeWaiting → s.socket._send_buf_waiting = [] ∨
          s.socket._send_buf_sending = [] ∧ s.appTmp = [] := by
        rintro rfl
        exact hc.resolve_left (by simp [hp, Poller.pc, Flush.takes])
      have hnew := hord.symm.flush hst hl hcond
      rw [FlushOut.poller_tmp]
      exact hnew.symm
    · rw [hp] at hord
      exact hord
    · rw [hp] at hord
      rcases hpc with rfl | rfl <;> exact hord
    · rw [hp] at hpoller
      exact hpoller.elim
    · rw [hp] at hpoller
      exact hpoller.elim
  | closeSock => exact hl.elim
  | install => exact hl.elim
  | onConnected => exact hl.elim

omit [DecidableEq I] in
theorem Flowing.wireInOrder {s : State I} (hs : Flowing s) : WireInOrder s := by
  refine ⟨(unsent s.appTmp ++ unsent s.poller.tmp ++ unsent s.socket._send_buf_sending ++
    s.socket._send_buf_waiting.flatten).map Cell.byte,?_⟩
  rw [← hs.2.bytes, ← List.map_append]
  simp only [List.append_assoc]

/-- On an open connection the wire keeps the order of the buffers in every run in which each
thread takes new buffers only while no other place holds older packets. -/
theorem wire_in_order (labels : List (Label I)) (hl : ∀ l ∈ labels, l.KeepsOpen)
    (hc : EveryStep step TakesAlone (State.opened : State I) labels) :
    EveryState step WireInOrder (State.opened : State I) labels :=
  ((hc.and (everyStep_of_label _ hl)).preserves
    (fun _ _ _ hs h ht => step_flowing hs h.2 h.1 ht) flowing_opened).mono fun _ hs => hs.wireInOrder

/-- One thread sends a buffer of two bytes, one byte at a time. -/
theorem wire_in_order_two_bytes : EveryState step WireInOrder (State.opened : State Unit)
    [.send () [1,2] true,.enter () false,.app .go,.app .go,.app (.accept 1),.app (.accept 1)] :=
  wire_in_order _ (by simp [Label.KeepsOpen]) (by decide)

/-- The poller thread sends a newer buffer while an application thread holds the older one. -/
theorem newer_buffer_overtakes : ∃ labels : List (Label Bool), (∀ l ∈ labels, l.KeepsOpen) ∧
    ¬ EveryState step WireInOrder (State.opened : State Bool) labels := by
  refine ⟨[.send false [1] true,.enter false false,.app .go,.app .go,.send true [2] false,.writeAble,
    .poller .go,.poller .go,.poller .go,.poller .go,.poller (.accept 1)],by simp [Label.KeepsOpen],?_⟩
  intro h
  have hl := h.last rfl
  revert hl
  unfold WireInOrder
  decide

end OctCommu.Network
