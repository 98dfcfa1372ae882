import OctCommu.SerialPort.SPUtil
import OctCommu.Util.ThreadPlus

/-! # The life of an `SPUnix`

`init` and `shutdown` are called one after the other. A `start` of the poller
thread returns when the thread is in its loop, and a `shutdown` of it when it has
left the loop. The system hands out descriptors that are not in use.
-/
namespace OctCommu.SerialPort
open Util Runs

/-- `SP_INIT`, with the name of the port and whether to receive. -/
structure PortInit where
  name_ : List UInt8
  line : SPInit
  is_to_recv_ : Bool
  deriving DecidableEq

/-- Its defaults. -/
def PortInit.default : PortInit :=
  ⟨[],⟨9600,.SPP_Even,.SPDB_8,.SPSB_One,.SPFC_None⟩,false⟩

namespace SPParamHelper

def containParity : SP_Parity → Bool
  | .unknown _ => false
  | _ => true

def containDataBits : SP_DataBits → Bool
  | .unknown _ => false
  | _ => true

def containStopBits : SP_StopBits → Bool
  | .unknown _ => false
  | _ => true

def containFlow : SP_FlowControl → Bool
  | .unknown _ => false
  | _ => true

def paramIsOk (sp : PortInit) : ℤ :=
  if containParity sp.line.parity_ = false then 1
  else if containDataBits sp.line.data_bits_ = false then 2
  else if containStopBits sp.line.stop_bits_ = false then 3
  else if containFlow sp.line.flow_ctrl_ = false then 5
  else if 0 = sp.name_.length then 6
  else 0

end SPParamHelper

/-- What the system answers to an `init`: the new descriptor, if there is one, the setting found, and
which calls on it succeed. -/
structure PortAnswers where
  openSP : Option ℕ
  device : Termios
  calls : LineCalls

/-- The port, with the descriptors it has opened and not closed. -/
structure SPUnix where
  sp_init_ : PortInit
  sp_fd_ : ℤ
  recv_thread_is_running_ : Bool
  thread_poller_ : ThreadPlus
  openFds : List ℕ

inductive PortAct where
  | init (sp_init : PortInit) (os : PortAnswers)
  | shutdown

/-- The poller is in its loop when `start` returns. -/
def startPoller (t : ThreadPlus) : ThreadPlus :=
  let u := t.start true .made
  (exec ThreadPlus.step u [.countDown t.data.length,.wait]).getD u

/-- The poller leaves its loop, and is joined. -/
def stopPoller (t : ThreadPlus) : ThreadPlus :=
  let u := (t.thread_.bind fun thread => ThreadPlus.step t (.finish thread.data)).getD t
  u.shutdown.getD u

namespace SPUnix

def fresh : SPUnix := ⟨.default,-1,false,.fresh true,[]⟩

/-- `sp_fd_ = SPUtil::closeSP(sp_fd_)`, which takes 0 for no descriptor. -/
def closeSP (s : SPUnix) : SPUnix :=
  { s with
    sp_fd_ := -1
    openFds := if 0 < s.sp_fd_ then s.openFds.erase s.sp_fd_.toNat else s.openFds }

/-- `sp_fd_ = SPUtil::openSP(sp_init_.name_)` -/
def openSP (s : SPUnix) : Option ℕ → SPUnix
  | none => { s with sp_fd_ := -1 }
  | some fd => { s with sp_fd_ := fd, openFds := s.openFds ++ [fd] }

def initSP (s : SPUnix) (os : PortAnswers) : SPUnix × ℤ :=
  let s := s.openSP os.openSP
  if 0 ≥ s.sp_fd_ then (s.closeSP,2)
  else if 0 ≠ (initSPProperty os.calls s.sp_init_.line os.device).1 then (s.closeSP,1)
  else if s.sp_init_.is_to_recv_ then
    ({ s with recv_thread_is_running_ := true, thread_poller_ := startPoller s.thread_poller_ },0)
  else (s,0)

def init (s : SPUnix) (sp_init : PortInit) (os : PortAnswers) : SPUnix × ℤ :=
  if 0 ≠ SPParamHelper.paramIsOk sp_init then (s,1)
  else initSP { s with sp_init_ := sp_init } os

def isOpen (s : SPUnix) : Bool := if s.sp_fd_ = -1 then false else true

/-- The thread is stopped if the latest parameters ask for one. -/
def shutdown (s : SPUnix) : SPUnix × ℤ :=
  if s.isOpen = false then (s,1)
  else
    let s :=
      if s.sp_init_.is_to_recv_ then
        { s with recv_thread_is_running_ := false, thread_poller_ := stopPoller s.thread_poller_ }
      else s
    (s.closeSP,0)

/-- A fault of the thread object ends the process. -/
def step (s : SPUnix) (a : PortAct) : Option SPUnix :=
  if s.thread_poller_.fault.isSome then none
  else match a with
    | .init sp_init os =>
      if ∀ fd ∈ os.openSP, fd ∉ s.openFds then some (s.init sp_init os).1 else none
    | .shutdown => some s.shutdown.1

/-- The poller threads in their loop. -/
def pollers (t : ThreadPlus) : ℕ := t.data.countP fun d => d.pc.isSome

/-- Of the descriptors that were opened only `sp_fd_` is open, and a poller thread runs on it alone. -/
structure LeaksNothing (s : SPUnix) : Prop where
  single : s.openFds.length ≤ 1
  current : ∀ fd ∈ s.openFds, (fd : ℤ) = s.sp_fd_
  poller : 0 < pollers s.thread_poller_ → ∃ fd ∈ s.openFds, (fd : ℤ) = s.sp_fd_
  one : pollers s.thread_poller_ ≤ 1

/-- An `init` with proper parameters finds the port closed, and the system does not hand out 0. -/
def Closed (s : SPUnix) : PortAct → Prop
  | .init sp_init os =>
    SPParamHelper.paramIsOk sp_init = 0 → s.sp_fd_ = -1 ∧ os.openSP ≠ some 0
  | .shutdown => True

/-- A thread object that no thread belongs to. -/
structure Parked (t : ThreadPlus) : Prop where
  func : t.func_ = true
  fault : t.fault = none
  rest : t.waiting = false
  latch : t.latch_ ≤ 1
  handle : t.joinable = false
  ended : ∀ d ∈ t.data, d.pc = none

/-- A thread object whose latest thread is in its loop. -/
structure Polling (t : ThreadPlus) (ended : List ThreadData) (deleted : ℕ) : Prop where
  func : t.func_ = true
  fault : t.fault = none
  rest : t.waiting = false
  latch : t.latch_ ≤ 1
  handle : t.thread_ = some ⟨true,ended.length⟩
  data : t.data = ended ++ [⟨some .inFunc,deleted⟩]
  ended : ∀ d ∈ ended, d.pc = none

theorem parked_fresh : Parked (.fresh true) :=
  ⟨rfl,rfl,rfl,Int.le_refl 1,rfl,fun d hd => by simp [ThreadPlus.fresh] at hd⟩

theorem pollers_ended {ds : List ThreadData} (h : ∀ d ∈ ds, d.pc = none) :
    ds.countP (fun d => d.pc.isSome) = 0 := by
  rw [List.countP_eq_zero]
  intro d hd
  simp [h d hd]

theorem Parked.pollers {t : ThreadPlus} (h : Parked t) : pollers t = 0 := pollers_ended h.ended

theorem Polling.pollers {t : ThreadPlus} {ended : List ThreadData} {deleted : ℕ}
    (h : Polling t ended deleted) : pollers t = 1 := by
  rw [SPUnix.pollers, h.data, List.countP_append, pollers_ended h.ended]
  rfl

/-- A parked object starts its thread without a fault. -/
theorem Parked.start {t : ThreadPlus} (h : Parked t) : Polling (startPoller t) t.data 0 := by
  have hstart : t.start true .made = { t with
      started_ := true
      thread_ := some ⟨true,t.data.length⟩
      data := t.data ++ [⟨some .entering,0⟩]
      waiting := true } := by
    have hj : { t with started_ := true }.joinable = false := h.handle
    have hfunc : ¬ t.func_ = false := by simp [h.func]
    simp only [ThreadPlus.start, if_neg hfunc, ThreadPlus.startMade_of_not_joinable hj]
    rfl
  have hopen : t.latch_ - 1 ≤ 0 := by
    have hle := h.latch
    omega
  have heq : startPoller t = { t with
      started_ := true
      latch_ := t.latch_ - 1
      thread_ := some ⟨true,t.data.length⟩
      data := t.data ++ [⟨some .inFunc,0⟩]
      waiting := false } := by
    simp [startPoller, hstart, exec, ThreadPlus.step, ThreadPlus.act, ThreadPlus.setPc, h.fault, hopen]
  rw [heq]
  exact ⟨h.func,h.fault,rfl,Int.le_trans hopen Int.one_nonneg,rfl,rfl,h.ended⟩

/-- Its thread leaves the loop and is joined. -/
theorem Polling.stop {t : ThreadPlus} {ended : List ThreadData} {deleted : ℕ}
    (h : Polling t ended deleted) : Parked (stopPoller t) := by
  have heq : stopPoller t = { t with
      thread_ := some ⟨false,ended.length⟩
      joined_ := true
      data := ended ++ [⟨none,deleted + 1⟩] } := by
    simp [stopPoller, ThreadPlus.step, ThreadPlus.act, ThreadPlus.setPc, ThreadPlus.shutdown,
      ThreadPlus.ended, h.fault, h.handle, h.data]
  rw [heq]
  refine ⟨h.func,h.fault,h.rest,h.latch,rfl,?_⟩
  intro d hd
  rcases List.mem_append.mp hd with hd | hd
  · exact h.ended d hd
  · rw [List.mem_singleton.mp hd]

/-- Between two calls the port is closed and its thread parked, or it has one descriptor, with a
poller if it is to receive. -/
def Inv (s : SPUnix) : Prop :=
  (s.sp_fd_ = -1 ∧ s.openFds = [] ∧ Parked s.thread_poller_) ∨
    ∃ fd : ℕ, 0 < fd ∧ s.sp_fd_ = fd ∧ s.openFds = [fd] ∧
      if s.sp_init_.is_to_recv_ then ∃ ended deleted, Polling s.thread_poller_ ended deleted
      else Parked s.thread_poller_

theorem inv_fresh : fresh.Inv := .inl ⟨rfl,rfl,parked_fresh⟩

theorem Inv.leaksNothing {s : SPUnix} (h : s.Inv) : s.LeaksNothing := by
  rcases h with ⟨_,hnil,hp⟩ | ⟨fd,_,hfd,hone,hp⟩
  · have hzero := hp.pollers
    exact ⟨by simp [hnil],by simp [hnil],fun h => by omega,by omega⟩
  · have hle : pollers s.thread_poller_ ≤ 1 := by
      split at hp
      · obtain ⟨ended,deleted,hp⟩ := hp
        exact hp.pollers.le
      · rw [hp.pollers]
        exact Nat.zero_le 1
    exact ⟨by simp [hone],by simp [hone, hfd],fun _ => ⟨fd,by simp [hone],hfd.symm⟩,hle⟩

theorem Inv.closeSP {s : SPUnix} {fd : ℕ} (hpos : 0 < fd) (hfd : s.sp_fd_ = fd)
    (hone : s.openFds = [fd]) (hp : Parked s.thread_poller_) : s.closeSP.Inv := by
  have heq : s.closeSP = { s with sp_fd_ := -1, openFds := [] } := by
    simp [SPUnix.closeSP, hfd, hone, hpos]
  rw [heq]
  exact .inl ⟨rfl,rfl,hp⟩

/-- Opening a closed port leaves it closed, or open with what it was asked for. -/
theorem Inv.initSP {s : SPUnix} (hnil : s.openFds = [])
    (hp : Parked s.thread_poller_) {os : PortAnswers} (hos : os.openSP ≠ some 0) :
    (s.initSP os).1.Inv := by
  cases hopen : os.openSP with
  | none =>
    simp only [SPUnix.initSP, hopen, openSP]
    exact .inl ⟨rfl,by simp [SPUnix.closeSP, hnil],hp⟩
  | some fd =>
    have hpos : 0 < fd := Nat.pos_of_ne_zero fun h => hos (by rw [hopen, h])
    have hone : (s.openSP (some fd)).openFds = [fd] := by simp [openSP, hnil]
    have hgt : ¬ 0 ≥ (s.openSP (some fd)).sp_fd_ := by
      simp only [openSP]
      omega
    simp only [SPUnix.initSP, hopen, if_neg hgt]
    split
    · exact Inv.closeSP hpos rfl hone hp
    · split
      · rename_i hrecv
        refine .inr ⟨fd,hpos,rfl,hone,?_⟩
        rw [if_pos hrecv]
        exact ⟨_,_,hp.start⟩
      · rename_i hrecv
        refine .inr ⟨fd,hpos,rfl,hone,?_⟩
        rw [if_neg hrecv]
        exact hp

theorem Inv.shutdown {s : SPUnix} (h : s.Inv) : s.shutdown.1.Inv := by
  rcases h with ⟨hfd,hnil,hp⟩ | ⟨fd,hpos,hfd,hone,hp⟩
  · simp only [SPUnix.shutdown, isOpen, hfd, if_true]
    exact .inl ⟨hfd,hnil,hp⟩
  · have hopen : ¬ s.isOpen = false := by
      have hne : s.sp_fd_ ≠ -1 := by omega
      simp [isOpen, hne]
    simp only [SPUnix.shutdown, if_neg hopen]
    split at hp
    · rename_i hrecv
      obtain ⟨ended,deleted,hp⟩ := hp
      rw [if_pos hrecv]
      exact Inv.closeSP hpos hfd hone hp.stop
    · rename_i hrecv
      rw [if_neg hrecv]
      exact Inv.closeSP hpos hfd hone hp

theorem step_cases {s t : SPUnix} {a : PortAct} (h : step s a = some t) :
    (∃ sp_init os, a = .init sp_init os ∧ (∀ fd ∈ os.openSP, fd ∉ s.openFds) ∧
      t = (s.init sp_init os).1) ∨ (a = .shutdown ∧ t = s.shutdown.1) := by
  unfold step at h
  split at h
  · cases h
  · cases a with
    | init sp_init os =>
      obtain ⟨hnew,⟨⟩⟩ := Option.ite_none_right_eq_some.mp h
      exact .inl ⟨sp_init,os,rfl,hnew,rfl⟩
    | shutdown =>
      cases h
      exact .inr ⟨rfl,rfl⟩

theorem step_good {s t : SPUnix} {a : PortAct} (h : s.Inv) (hc : s.Closed a)
    (ht : step s a = some t) : t.Inv := by
  rcases step_cases ht with ⟨sp_init,os,rfl,_,rfl⟩ | ⟨rfl,rfl⟩
  · unfold SPUnix.init
    split
    · exact h
    · rename_i hok
      obtain ⟨hfd,hos⟩ := hc (by simpa using Eq.symm (not_not.mp hok))
      rcases h with ⟨_,hnil,hp⟩ | ⟨fd,_,hfd',_⟩
      · exact Inv.initSP (s := { s with sp_init_ := sp_init }) hnil hp hos
      · omega
  · exact h.shutdown

theorem mem_closeSP {s : SPUnix} {old : ℕ} (hold : old ∈ s.openFds) (hne : s.sp_fd_ ≠ old) :
    old ∈ s.closeSP.openFds ∧ s.closeSP.sp_fd_ ≠ old := by
  refine ⟨?_,by simp only [closeSP]; omega⟩
  by_cases hpos : 0 < s.sp_fd_
  · simp only [closeSP, if_pos hpos]
    apply (List.mem_erase_of_ne _).mpr hold
    omega
  · simp only [closeSP, if_neg hpos]
    exact hold

/-- What is open when a new descriptor comes stays open, and is `sp_fd_` no longer. -/
theorem initSP_keeps {s : SPUnix} {os : PortAnswers} {old : ℕ} (hold : old ∈ s.openFds)
    (hnew : ∀ fd ∈ os.openSP, fd ∉ s.openFds) :
    old ∈ (s.initSP os).1.openFds ∧ (s.initSP os).1.sp_fd_ ≠ old := by
  have hopened : old ∈ (s.openSP os.openSP).openFds ∧ (s.openSP os.openSP).sp_fd_ ≠ old := by
    cases hopen : os.openSP with
    | none => exact ⟨hold,by simp only [openSP]; omega⟩
    | some fd =>
      have hne : fd ≠ old := by
        rintro rfl
        exact hnew fd hopen hold
      exact ⟨List.mem_append_left _ hold,by simp only [openSP]; omega⟩
  obtain ⟨hmem,hne⟩ := hopened
  simp only [initSP]
  split
  · exact mem_closeSP hmem hne
  · split
    · exact mem_closeSP hmem hne
    · split
      · exact ⟨hmem,hne⟩
      · exact ⟨hmem,hne⟩

/-- The descriptor in use is forgotten, or 0 is. -/
theorem step_bad {s t : SPUnix} {a : PortAct} (h : s.Inv) (ht : step s a = some t)
    (hp : t.LeaksNothing) : s.Closed a := by
  rcases step_cases ht with ⟨sp_init,os,rfl,hnew,rfl⟩ | ⟨rfl,rfl⟩
  · intro hok
    have hinit : s.init sp_init os = initSP { s with sp_init_ := sp_init } os := by
      simp [SPUnix.init, hok]
    rw [hinit] at hp
    rcases h with ⟨hfd,hnil,_⟩ | ⟨fd,_,hfd,hone,_⟩
    · refine ⟨hfd,fun hzero => ?_⟩
      have hleak : 0 ∈ (initSP { s with sp_init_ := sp_init } os).1.openFds ∧
          (initSP { s with sp_init_ := sp_init } os).1.sp_fd_ = -1 := by
        simp [initSP, hzero, openSP, closeSP]
      exact absurd (hp.current 0 hleak.1) (by rw [hleak.2]; decide)
    · have hold : fd ∈ s.openFds := by simp [hone]
      obtain ⟨hmem,hne⟩ := initSP_keeps (s := { s with sp_init_ := sp_init }) hold hnew
      exact absurd (hp.current fd hmem).symm hne
  · trivial

/-- Nothing leaks just as long as no `init` with proper parameters comes while the port is open, and
the system does not hand out the descriptor 0. -/
theorem closed_iff_leaksNothing (as : List PortAct) :
    EveryStep step Closed fresh as ↔ EveryState step LeaksNothing fresh as := by
  apply everyStep_iff_everyState inv_fresh
  · intro s h
    exact h.leaksNothing
  · intro s a t h hc ht
    exact step_good h hc ht
  · intro s a t h ht hp
    exact step_bad h ht hp

/-- The first settings, with everything else answered. -/
def plainInit (is_to_recv_ : Bool) : PortInit :=
  ⟨[116],⟨9600,.SPP_Even,.SPDB_8,.SPSB_One,.SPFC_None⟩,is_to_recv_⟩

def plainDevice : Termios := ⟨0,0,0,0,0,Vector.replicate 32 0,0,0⟩

def answered (fd : ℕ) : PortAnswers := ⟨some fd,plainDevice,⟨true,true,true,true,true⟩⟩

/-- A second `init` forgets the descriptor of the first. -/
theorem not_leaksNothing_second_init : ¬ EveryState step LeaksNothing fresh
    [.init (plainInit false) (answered 3),.init (plainInit false) (answered 4)] := by
  intro h
  exact absurd (h.last rfl).single (by decide)

end SPUnix
end OctCommu.SerialPort
