import OctCommu.Network.FlushSteps

/-! # Unsent packets and the writable event

An application thread arms the writable event and then puts its packets back; the
poller thread disarms when it finds both caches empty. In between it finds them
empty although packets are about to return.
-/
namespace OctCommu.Network
open Runs
variable {I : Type*} [DecidableEq I]

/-- No thread is in `send_l`, `flushAll`, `flushData` or `onWriteAble`. -/
structure State.Quiet (s : State I) : Prop where
  holder : s.holder = none
  poller : s.poller = .idle
  app : ∀ i, ∃ ret, s.app i = .idle ret

/-- Between calls, unsent packets are waited for. -/
def WakeupPending (s : State I) : Prop :=
  s.Quiet → s.socket._send_buf_sending ≠ [] →
    (∃ sock, s.socket._sock_fd = some sock ∧ (s.socket.events sock).write = true) ∧
      s.socket._sendable = false

/-- Between the two stores of `startWriteAbleEvent` and the end of the rollback. -/
def Flush.arming : Flush → Bool
  | .startModify _ | .rollback _ => true
  | _ => false

def Flush.stopping : Flush → Bool
  | .stopSendable | .stopModify => true
  | _ => false

def State.arming (s : State I) : Bool := s.appPc.any Flush.arming

/-- `stopWriteAbleEvent` runs only while nothing is put back and no application thread is about to
do so, and the poller thread puts back only what `_sendable` already stands for. -/
def KeepsWatch (s : State I) : Label I → Prop
  | .poller _ =>
    (s.poller.pc.any Flush.stopping = false ∨
      s.socket._send_buf_sending = [] ∧ s.arming = false) ∧
    (s.poller.pc.any Flush.arming = false ∨ s.socket._sendable = false)
  | _ => True

instance (s : State I) : DecidablePred (KeepsWatch s)
  | .poller _ => inferInstanceAs (Decidable ((_ ∨ _ ∧ _) ∧ (_ ∨ _)))
  | .send .. | .flushAll _ | .enter .. | .app _ | .writeAble | .closeSock | .install
  | .onConnected => isTrue trivial

def Flush.Loaded : Flush → Prop
  | .startSendable tmp | .startModify tmp | .rollback tmp => tmp ≠ []
  | _ => True

def Flush.starting : Flush → Bool
  | .startSendable _ | .startModify _ => true
  | _ => false

/-- The invariant, for the place `f` of the application thread inside the lock and the place `p` of
the poller thread. -/
structure Watch (s : Socket) (f : Option Flush) (p : Poller) : Prop where
  armed : s._send_buf_sending ≠ [] → s._sendable = false
  registered : s._sendable = false → (s.events 0).write = true ∨ ∃ tmp, f = some (.startModify tmp)
  phase : ∀ pc, f = some pc → pc.stopping = false ∧ s._sendable = !pc.arming ∧ pc.Loaded
  stopping : p = .flush 0 .stopModify → s._sendable = false →
    (∃ pc, f = some pc ∧ pc.arming = true) ∨ s._send_buf_sending ≠ []
  poller : ∀ pc, p = .flush 0 pc → pc.starting = false

theorem sendFrom_cases (b : Bool) (tmp : List Packet) :
    (tmp = [] ∧ sendFrom b tmp = if b then .next .takeSending else .ret true) ∨
    ∃ r, sendFrom b tmp = .next (.sendLoop tmp r) := by
  cases tmp with
  | nil => exact .inl ⟨rfl,rfl⟩
  | cons p ps => exact .inr ⟨_,rfl⟩

def Flush.Before (pc : Flush) : Prop :=
  pc.stopping = false ∧ pc.arming = false ∧ pc.Loaded ∧ pc.starting = false

theorem sendFrom_before {b : Bool} {tmp : List Packet} {pc : Flush}
    (h : (sendFrom b tmp).pc = some pc) : pc.Before := by
  obtain ⟨_,he⟩ | ⟨r,he⟩ := sendFrom_cases b tmp
  · rw [he] at h
    cases b with
    | false => cases h
    | true =>
      cases h
      exact ⟨rfl,rfl,trivial,rfl⟩
  · rw [he] at h
    cases h
    exact ⟨rfl,rfl,trivial,rfl⟩

theorem Watch.before {s u : Socket} {f f' : Option Flush} {p : Poller} (hs : Watch s f p)
    (hu : u._sendable = true) (hsend : u._send_buf_sending = [])
    (hf : ∀ pc, f' = some pc → pc.stopping = false ∧ pc.arming = false ∧ pc.Loaded) :
    Watch u f' p := by
  refine ⟨fun h => absurd hsend h,fun h => ?_,fun pc h => ?_,fun _ h => ?_,hs.poller⟩
  · rw [hu] at h
    cases h
  · obtain ⟨h1,h2,h3⟩ := hf pc h
    exact ⟨h1,by rw [hu, h2]; rfl,h3⟩
  · rw [hu] at h
    cases h

theorem Watch.app {s u : Socket} {pc : Flush} {a : FlushAct} {out : FlushOut} {p : Poller}
    (hs : Watch s (some pc) p) (hst : FlushStep false 0 s pc a u out) (ha : a ≠ .error) :
    Watch u out.pc p := by
  obtain ⟨hstop,hsend,hload⟩ := hs.phase pc rfl
  -- before the decision to wait `_sendable` is set, so nothing has been put back
  have hbefore (h : pc.arming = false) : s._sendable = true ∧ s._send_buf_sending = [] := by
    have h1 : s._sendable = true := by rw [hsend, h]; rfl
    refine ⟨h1,?_⟩
    by_contra hne
    rw [hs.armed hne] at h1
    cases h1
  have hfrom {tmp : List Packet} (g : Flush) (h : (sendFrom false tmp).pc = some g) :
      g.stopping = false ∧ g.arming = false ∧ g.Loaded := by
    obtain ⟨h1,h2,h3,_⟩ := sendFrom_before h
    exact ⟨h1,h2,h3⟩
  cases hst with
  | noSending _ =>
    obtain ⟨h1,h2⟩ := hbefore rfl
    apply hs.before h1 h2
    intro pc h
    cases h
    exact ⟨rfl,rfl,trivial⟩
  | takeSending _ =>
    obtain ⟨h1,_⟩ := hbefore rfl
    exact hs.before h1 rfl hfrom
  | noWaiting _ =>
    obtain ⟨h1,h2⟩ := hbefore rfl
    exact hs.before h1 h2 nofun
  | takeWaiting _ =>
    obtain ⟨h1,h2⟩ := hbefore rfl
    exact hs.before h1 h2 hfrom
  | sent q ps r n _ _ _ =>
    obtain ⟨h1,h2⟩ := hbefore rfl
    refine hs.before h1 h2 ?_
    intro pc h
    split at h
    · exact hfrom pc h
    · cases h
      exact ⟨rfl,rfl,trivial⟩
  | blocked q ps r =>
    obtain ⟨h1,h2⟩ := hbefore rfl
    apply hs.before h1 h2
    intro pc h
    cases h
    exact ⟨rfl,rfl,nofun⟩
  | failed => exact absurd rfl ha
  | startSendable tmp =>
    refine ⟨fun _ => rfl,fun _ => .inr ⟨tmp,rfl⟩,?_,fun _ _ => .inl ⟨_,rfl,rfl⟩,hs.poller⟩
    intro pc h
    cases h
    exact ⟨rfl,rfl,hload⟩
  | startModify tmp =>
    refine ⟨fun _ => hsend,fun _ => .inl ?_,?_,fun _ _ => .inl ⟨_,rfl,rfl⟩,hs.poller⟩
    · simp [Socket.modifyEvent]
    · intro pc h
      cases h
      exact ⟨rfl,hsend,hload⟩
  | rollback tmp =>
    refine ⟨fun _ => hsend,fun h => ?_,nofun,fun _ _ => .inr (by simp [show tmp ≠ [] from hload]),
      hs.poller⟩
    exact (hs.registered h).imp_right nofun
  | stopSendable | stopModify => cases hstop

theorem Watch.pollerStep {s u : Socket} {f : Option Flush} {pc : Flush} {a : FlushAct}
    {out : FlushOut} (hs : Watch s f (.flush 0 pc)) (hst : FlushStep true 0 s pc a u out)
    (ha : a ≠ .error)
    (hstop : pc.stopping = true → s._send_buf_sending = [] ∧ ∀ g, f = some g → g.arming = false)
    (hroll : pc.arming = true → s._sendable = false) : Watch u f (out.poller 0) := by
  have hstart := hs.poller pc rfl
  -- the place after most steps is neither `stopModify` nor one of `startWriteAbleEvent`
  have hout {o : FlushOut} (h : ∀ g, o.pc = some g → g.starting = false ∧ g ≠ .stopModify) :
      (o.poller 0 ≠ .flush 0 .stopModify) ∧ ∀ g, o.poller 0 = .flush 0 g → g.starting = false := by
    cases o with
    | next g =>
      obtain ⟨h1,h2⟩ := h g rfl
      refine ⟨fun he => h2 (by cases he; rfl),?_⟩
      intro g' he
      cases he
      exact h1
    | ret ok => exact ⟨nofun,nofun⟩
    | emitErr => exact ⟨nofun,nofun⟩
  have hfrom {tmp : List Packet} (g : Flush) (h : (sendFrom true tmp).pc = some g) :
      g.starting = false ∧ g ≠ .stopModify := by
    obtain ⟨h1,_,_,h4⟩ := sendFrom_before h
    exact ⟨h4,fun he => by rw [he] at h1; cases h1⟩
  -- a step that only moves on
  have hmove {v : Socket} {o : FlushOut} (harm : v._send_buf_sending ≠ [] → v._sendable = false)
      (hsame : v._sendable = s._sendable ∧ v.events = s.events)
      (h : ∀ g, o.pc = some g → g.starting = false ∧ g ≠ .stopModify) : Watch v f (o.poller 0) := by
    obtain ⟨h1,h2⟩ := hout h
    refine ⟨harm,?_,?_,fun he => absurd he h1,h2⟩
    · rw [hsame.1, hsame.2]
      exact hs.registered
    · rw [hsame.1]
      exact hs.phase
  cases hst with
  | noSending h =>
    refine hmove hs.armed ⟨rfl,rfl⟩ ?_
    intro g hg
    cases hg
    exact ⟨rfl,nofun⟩
  | takeSending _ => exact hmove (fun h => absurd rfl h) ⟨rfl,rfl⟩ hfrom
  | noWaiting _ =>
    refine hmove hs.armed ⟨rfl,rfl⟩ ?_
    intro g hg
    cases hg
    exact ⟨rfl,nofun⟩
  | takeWaiting _ => exact hmove hs.armed ⟨rfl,rfl⟩ hfrom
  | sent q ps r n _ _ _ =>
    refine hmove hs.armed ⟨rfl,rfl⟩ ?_
    intro g hg
    split at hg
    · exact hfrom g hg
    · cases hg
      exact ⟨rfl,nofun⟩
  | blocked q ps r =>
    refine hmove hs.armed ⟨rfl,rfl⟩ ?_
    intro g hg
    cases hg
    exact ⟨rfl,nofun⟩
  | failed => exact absurd rfl ha
  | startSendable tmp | startModify tmp => cases hstart
  | rollback tmp => exact hmove (fun _ => hroll rfl) ⟨rfl,rfl⟩ nofun
  | stopSendable =>
    obtain ⟨hempty,hnot⟩ := hstop rfl
    refine ⟨fun h => absurd hempty h,nofun,?_,nofun,?_⟩
    · intro g hg
      obtain ⟨h1,_,h3⟩ := hs.phase g hg
      exact ⟨h1,by rw [hnot g hg]; rfl,h3⟩
    · intro g hg
      cases hg
      rfl
  | stopModify =>
    obtain ⟨hempty,hnot⟩ := hstop rfl
    refine ⟨fun h => absurd hempty h,fun h => ?_,hs.phase,nofun,nofun⟩
    rcases hs.stopping rfl h with ⟨g,hg,ha⟩ | hne
    · rw [hnot g hg] at ha
      cases ha
    · exact absurd hempty hne

/-! ### All steps -/

def Watching (s : State I) : Prop := s.Open ∧ Watch s.socket s.appPc s.poller

omit [DecidableEq I] in
theorem watching_opened : Watching (State.opened : State I) :=
  ⟨open_opened,fun h => absurd rfl h,nofun,nofun,nofun,nofun⟩

theorem step_watching {s t : State I} {l : Label I} (hs : Watching s) (hl : l.KeepsOpen)
    (hc : KeepsWatch s l) (h : step s l = some t) : Watching t := by
  have hopen := step_open hs.1 hl h
  obtain ⟨⟨hfd,hholder,hpoller⟩,hw⟩ := hs
  refine ⟨hopen,?_⟩
  cases l with
  | send i buf try_flush =>
    obtain ⟨app,rfl | rfl⟩ := step_send h <;>
      exact ⟨hw.armed,hw.registered,hw.phase,hw.stopping,hw.poller⟩
  | flushAll i =>
    obtain ⟨app,rfl⟩ := step_flushAll h
    exact hw
  | enter i timeout =>
    obtain ⟨hh,hcase⟩ := step_enter h
    have hpc : s.appPc = none := by rw [State.appPc, hh]; rfl
    rw [hpc] at hw
    obtain ⟨sock,_,hsend,rfl⟩ | ⟨caller,r,rfl⟩ | ⟨_,_,rfl,_⟩ := hcase
    · have hempty : s.socket._send_buf_sending = [] := by
        by_contra hne
        rw [hw.armed hne] at hsend
        cases hsend
      apply hw.before hsend hempty
      intro pc he
      cases he
      exact ⟨rfl,rfl,trivial⟩
    · exact hw
    · cases hl
  | app a =>
    obtain ⟨i,sock,pc,u,out,hh,hf,hp,hsock,hh'⟩ := step_app h
    obtain rfl := hholder i sock pc hh
    have hst := flushData_step hf
    have hpc : s.appPc = some pc := by rw [State.appPc, hh]; rfl
    rw [hpc] at hw
    rw [appPc_of_holder hh', hp, hsock, hst.socket_eq hl]
    exact hw.app hst hl
  | writeAble =>
    obtain ⟨sock,_,_,rfl⟩ := step_writeAble h
    exact ⟨hw.armed,hw.registered,hw.phase,by simp,by simp⟩
  | poller a =>
    obtain ⟨sock,pc,u,out,hp,hf,rfl⟩ | ⟨sock,hp,rfl⟩ | ⟨sock,w,hp,pc,hpc,rfl⟩ | ⟨hp,_⟩ | ⟨hp,_⟩ :=
      step_poller h
    · rw [hp] at hw hpoller
      obtain rfl : sock = 0 := hpoller
      have hpc : s.poller.pc = some pc := by rw [hp]; rfl
      refine hw.pollerStep (flushData_step hf) hl ?_ ?_
      · intro hstop
        obtain ⟨hempty,hnot⟩ := hc.1.resolve_left (by simp [hpc, hstop])
        refine ⟨hempty,?_⟩
        intro g hg
        rwa [State.arming, hg] at hnot
      · intro harm
        exact hc.2.resolve_left (by simp [hpc, harm])
    · exact ⟨hw.armed,hw.registered,hw.phase,by simp,by simp⟩
    · refine ⟨hw.armed,hw.registered,hw.phase,?_,?_⟩
      · rintro he
        rcases hpc with rfl | rfl <;> cases he
      · intro g he
        cases he
        rcases hpc with rfl | rfl <;> rfl
    · rw [hp] at hpoller
      exact hpoller.elim
    · rw [hp] at hpoller
      exact hpoller.elim
  | closeSock => exact hl.elim
  | install => exact hl.elim
  | onConnected => exact hl.elim

omit [DecidableEq I] in
theorem Watching.wakeupPending {s : State I} (hs : Watching s) : WakeupPending s := by
  intro hq hne
  have hsend := hs.2.armed hne
  refine ⟨⟨0,hs.1.fd,?_⟩,hsend⟩
  apply (hs.2.registered hsend).resolve_right
  rintro ⟨tmp,he⟩
  rw [State.appPc, hq.holder] at he
  cases he

/-- On an open connection no wakeup is lost in a run that only disarms with nothing left to put
back, and in which the poller thread puts packets back only with `_sendable` cleared. -/
theorem wakeup_pending (labels : List (Label I)) (hl : ∀ l ∈ labels, l.KeepsOpen)
    (hc : EveryStep step KeepsWatch (State.opened : State I) labels) :
    EveryState step WakeupPending (State.opened : State I) labels :=
  ((hc.and (everyStep_of_label _ hl)).preserves
    (fun _ _ _ hs h ht => step_watching hs h.2 h.1 ht) watching_opened).mono
      fun _ hs => hs.wakeupPending

/-- A send that blocks, is armed, and is completed by the poller thread. -/
theorem wakeup_pending_blocked_send : EveryState step WakeupPending (State.opened : State Unit)
    [.send () [1] true,.enter () false,.app .go,.app .go,.app .again,.app .go,.app .go,.app .go,
      .writeAble,.poller .go,.poller .go,.poller .go,.poller (.accept 1),.poller .go,.poller .go,
      .poller .go,.poller .go] :=
  wakeup_pending _ (by simp [Label.KeepsOpen]) (by decide)

/-- The poller thread disarms between the arming and the rollback of a blocked send. -/
theorem disarmed_before_rollback : ∃ labels : List (Label Unit), (∀ l ∈ labels, l.KeepsOpen) ∧
    ¬ EveryState step WakeupPending (State.opened : State Unit) labels := by
  refine ⟨[.send () [1] true,.enter () false,.app .go,.app .go,.app .again,.writeAble,.poller .go,
    .poller .go,.app .go,.app .go,.poller .go,.poller .go,.app .go],by simp [Label.KeepsOpen],?_⟩
  intro h
  have hl := h.last rfl
  have hq := (hl ⟨rfl,rfl,fun _ => ⟨_,rfl⟩⟩ nofun).2
  cases hq

end OctCommu.Network
