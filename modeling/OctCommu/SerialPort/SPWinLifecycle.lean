import OctCommu.SerialPort.PortLifecycle
import OctCommu.SerialPort.SPWinReader

/-! # The life of an `SPWin`

`init` keeps its parameters before it finds the port open. They are what the reading
thread reports and what `shutdown` goes by. `GetCommState` and `GetCommConfig` give what
the device has, `SetCommConfig` may fail and is not looked at. The calls come one at a time,
and none from the reading thread.
-/
namespace OctCommu.SerialPort
open Util Runs

inductive RtsControl where
  | RTS_CONTROL_DISABLE
  | RTS_CONTROL_HANDSHAKE
  | other (value : ℕ)
  deriving DecidableEq

/-- The members of `DCB` that are set. -/
structure DCB where
  BaudRate : ℕ
  ByteSize : SP_DataBits
  Parity : SP_Parity
  StopBits : SP_StopBits
  fBinary : Bool
  fOutxCtsFlow : Bool
  fRtsControl : RtsControl
  fOutX : Bool
  fInX : Bool
  fAbortOnError : Bool
  fNull : Bool
  deriving DecidableEq

/-- What the system answers to an `init`: the new handle, the setting of the device, and whether the two calls
of `SetCommConfig` succeed. -/
structure WinAnswers where
  CreateFileA : Option ℕ
  device : DCB
  setFlow : Bool
  setConfig : Bool

/-- The `SPWin` without its reading. -/
structure SPWinPort where
  sp_init_ : PortInit
  operate_mode_ : SPWin.OPERATE_MODE
  sp_handle_ : Option ℕ
  recv_thread_is_running_ : Bool
  recv_thread_ : ThreadPlus
  /-- the handles that are open, with what the device has and the parameters it was opened with -/
  handles : List ℕ
  device : DCB
  opened : PortInit

inductive WinAct where
  | init (sp_init : PortInit) (os : WinAnswers)
  | shutdown

namespace SPWinPort

def fresh (device : DCB) : SPWinPort :=
  ⟨.default,.OM_ASYNC,none,false,.fresh true,[],device,.default⟩

/-- The setting, and whether `SetCommConfig` is called for it. -/
def setFlowCtrl (dcb : DCB) : SP_FlowControl → DCB × Bool
  | .SPFC_None =>
    ({ dcb with fOutxCtsFlow := false, fRtsControl := .RTS_CONTROL_DISABLE, fInX := false, fOutX := false },true)
  | .SPFC_Software =>
    ({ dcb with fOutxCtsFlow := false, fRtsControl := .RTS_CONTROL_DISABLE, fInX := true, fOutX := true },true)
  | .SPFC_Hardware =>
    ({ dcb with fOutxCtsFlow := true, fRtsControl := .RTS_CONTROL_HANDSHAKE, fInX := false, fOutX := false },true)
  | .unknown _ => (dcb,false)

/-- The setting of `activeConfig`; `BaudRate` is a `DWORD`. -/
def dcb (line : SPInit) (device : DCB) : DCB × Bool :=
  setFlowCtrl { device with
    BaudRate := line.baud_ % 4294967296
    ByteSize := line.data_bits_
    Parity := line.parity_
    StopBits := line.stop_bits_
    fBinary := true
    fInX := false
    fOutX := false
    fAbortOnError := false
    fNull := false } line.flow_ctrl_

/-- Whether the device takes it. -/
def applied (line : SPInit) (os : WinAnswers) : Bool :=
  (dcb line os.device).2 && os.setFlow || os.setConfig

def isOpen (s : SPWinPort) : Bool := s.sp_handle_.isSome

/-- The part of `activeConfig` that is about the line. -/
def configured (s : SPWinPort) (os : WinAnswers) : SPWinPort :=
  { s with
    device := if applied s.sp_init_.line os then (dcb s.sp_init_.line os.device).1 else os.device
    opened := s.sp_init_ }

def activeConfig (s : SPWinPort) (os : WinAnswers) : SPWinPort × ℤ :=
  if s.operate_mode_ = .OM_ASYNC ∧ s.sp_init_.is_to_recv_ then
    ({ s.configured os with
      recv_thread_is_running_ := true, recv_thread_ := startPoller s.recv_thread_ },0)
  else (s.configured os,0)

def realOpen (s : SPWinPort) (os : WinAnswers) : SPWinPort × ℤ :=
  if s.isOpen then (s,1)
  else match os.CreateFileA with
    | none => (s,2)
    | some handle => ({ s with sp_handle_ := some handle, handles := s.handles ++ [handle] },0)

def open_ (s : SPWinPort) (os : WinAnswers) : SPWinPort × ℤ :=
  if 0 ≠ (s.realOpen os).2 then ((s.realOpen os).1,1) else (s.realOpen os).1.activeConfig os

def init (s : SPWinPort) (sp_init : PortInit) (os : WinAnswers) : SPWinPort × ℤ :=
  if 0 ≠ SPParamHelper.paramIsOk sp_init then (s,1) else open_ { s with sp_init_ := sp_init } os

def shutdown (s : SPWinPort) : SPWinPort × ℤ :=
  match s.sp_handle_ with
  | none => (s,1)
  | some handle =>
    let s :=
      if s.sp_init_.is_to_recv_ then
        { s with recv_thread_is_running_ := false, recv_thread_ := stopPoller s.recv_thread_ }
      else s
    ({ s with sp_handle_ := none, handles := s.handles.erase handle },0)

def step (s : SPWinPort) : WinAct → Option SPWinPort
  | .init sp_init os =>
    if s.recv_thread_.fault.isSome ∨ ∃ handle ∈ os.CreateFileA, handle ∈ s.handles then none
    else some (s.init sp_init os).1
  | .shutdown => if s.recv_thread_.fault.isSome then none else some s.shutdown.1

/-- The setting is the one that is asked for. -/
structure Asked (line : SPInit) (device : DCB) : Prop where
  rate : device.BaudRate = line.baud_
  size : device.ByteSize = line.data_bits_
  parity : device.Parity = line.parity_
  stop : device.StopBits = line.stop_bits_
  outFlow : device.fOutxCtsFlow = decide (line.flow_ctrl_ = .SPFC_Hardware)
  rts : device.fRtsControl =
    if line.flow_ctrl_ = .SPFC_Hardware then .RTS_CONTROL_HANDSHAKE else .RTS_CONTROL_DISABLE
  outX : device.fOutX = decide (line.flow_ctrl_ = .SPFC_Software)
  inX : device.fInX = decide (line.flow_ctrl_ = .SPFC_Software)

structure Sound (s : SPWinPort) : Prop where
  /-- the handle is the only one that is open -/
  handle : s.handles = s.sp_handle_.toList
  /-- a thread reads exactly where the port is open and asked to receive, and the thread object is whole -/
  thread : SPUnix.pollers s.recv_thread_ = if s.isOpen && s.sp_init_.is_to_recv_ then 1 else 0
  fault : s.recv_thread_.fault = none
  /-- what is reported of an open port are its own parameters, and the line has them -/
  own : s.isOpen → s.sp_init_ = s.opened
  asked : s.isOpen → Asked s.sp_init_.line s.device

/-- No `init` brings other parameters to an open port, and a new setting is taken by the device and its rate is
no more than a `DWORD` holds, or it is there already. -/
def InOrder (s : SPWinPort) : WinAct → Prop
  | .init sp_init os => SPParamHelper.paramIsOk sp_init = 0 →
    if s.isOpen then sp_init = s.sp_init_
    else os.CreateFileA ≠ none → if applied sp_init.line os then sp_init.line.baud_ < 4294967296
      else Asked sp_init.line os.device
  | .shutdown => True

theorem open_of_open {s : SPWinPort} (h : s.isOpen = true) (os : WinAnswers) : s.open_ os = (s,1) := by
  rw [open_, realOpen, if_pos h]
  rfl

theorem open_of_failed {s : SPWinPort} (h : ¬s.isOpen = true) {os : WinAnswers} (hfile : os.CreateFileA = none) :
    s.open_ os = (s,1) := by
  rw [open_, realOpen, if_neg h, hfile]
  rfl

theorem open_of_created {s : SPWinPort} (h : ¬s.isOpen = true) {os : WinAnswers} {handle : ℕ}
    (hfile : os.CreateFileA = some handle) :
    s.open_ os =
      activeConfig { s with sp_handle_ := some handle, handles := s.handles ++ [handle] } os := by
  rw [open_, realOpen, if_neg h, hfile]
  rfl

theorem containFlow_of_ok {sp : PortInit} (h : SPParamHelper.paramIsOk sp = 0) :
    SPParamHelper.containFlow sp.line.flow_ctrl_ = true := by
  by_contra hflow
  simp only [SPParamHelper.paramIsOk, Bool.eq_false_iff.mpr hflow, if_true] at h
  split_ifs at h <;> exact absurd h (by decide)

theorem dcb_rate (line : SPInit) (device : DCB) : (dcb line device).1.BaudRate = line.baud_ % 4294967296 := by
  rw [dcb]
  cases line.flow_ctrl_ <;> rfl

theorem asked_dcb {sp : PortInit} (h : SPParamHelper.paramIsOk sp = 0) (hbaud : sp.line.baud_ < 4294967296)
    (device : DCB) : Asked sp.line (dcb sp.line device).1 := by
  have hflow := containFlow_of_ok h
  have hrate : sp.line.baud_ % 4294967296 = sp.line.baud_ := Nat.mod_eq_of_lt hbaud
  cases hctrl : sp.line.flow_ctrl_ with
  | unknown value => simp [hctrl, SPParamHelper.containFlow] at hflow
  | SPFC_None => constructor <;> simp [dcb, setFlowCtrl, hctrl, hrate]
  | SPFC_Hardware => constructor <;> simp [dcb, setFlowCtrl, hctrl, hrate]
  | SPFC_Software => constructor <;> simp [dcb, setFlowCtrl, hctrl, hrate]

/-- The thread of a port: in its loop if it is to receive, and at rest otherwise. -/
def Served (receives : Bool) (t : ThreadPlus) : Prop :=
  if receives then ∃ ended deleted, SPUnix.Polling t ended deleted else SPUnix.Parked t

/-- Between two calls the port is closed and its thread at rest, or open with what it was opened with. -/
def Inv (s : SPWinPort) : Prop := s.operate_mode_ = .OM_ASYNC ∧
  (s.sp_handle_ = none ∧ s.handles = [] ∧ SPUnix.Parked s.recv_thread_ ∨
    ∃ handle, s.sp_handle_ = some handle ∧ s.handles = [handle] ∧ s.sp_init_ = s.opened ∧
      Asked s.sp_init_.line s.device ∧ Served s.sp_init_.is_to_recv_ s.recv_thread_)

theorem Served.pollers {receives : Bool} {t : ThreadPlus} (h : Served receives t) :
    SPUnix.pollers t = (if receives then 1 else 0) ∧ t.fault = none := by
  cases receives with
  | false =>
    have hparked : SPUnix.Parked t := h
    exact ⟨hparked.pollers,hparked.fault⟩
  | true =>
    obtain ⟨ended,deleted,hpolling⟩ : ∃ ended deleted, SPUnix.Polling t ended deleted := h
    exact ⟨hpolling.pollers,hpolling.fault⟩

theorem Inv.sound {s : SPWinPort} (h : s.Inv) : s.Sound := by
  obtain ⟨-,⟨hhandle,hnil,hp⟩ | ⟨handle,hhandle,hone,hown,hasked,hserved⟩⟩ := h
  · have hclosed : s.isOpen = false := by simp [isOpen, hhandle]
    refine ⟨by simp [hhandle, hnil],by simp [hclosed, hp.pollers],hp.fault,?_,?_⟩
    · simp [hclosed]
    · simp [hclosed]
  · have hopen : s.isOpen = true := by simp [isOpen, hhandle]
    obtain ⟨hpollers,hfault⟩ := hserved.pollers
    exact ⟨by simp [hhandle, hone],by simp [hopen, hpollers],hfault,fun _ => hown,fun _ => hasked⟩

/-- A closed port that is opened. -/
theorem Inv.activeConfig {s : SPWinPort} (hmode : s.operate_mode_ = .OM_ASYNC) {handle : ℕ}
    (hhandle : s.sp_handle_ = some handle) (hone : s.handles = [handle]) (hp : SPUnix.Parked s.recv_thread_)
    {os : WinAnswers} (hok : SPParamHelper.paramIsOk s.sp_init_ = 0)
    (htaken : if applied s.sp_init_.line os then s.sp_init_.line.baud_ < 4294967296
      else Asked s.sp_init_.line os.device) : (s.activeConfig os).1.Inv := by
  have hasked : Asked s.sp_init_.line (s.configured os).device := by
    simp only [configured]
    split_ifs at htaken ⊢
    · exact asked_dcb hok htaken os.device
    · exact htaken
  rw [SPWinPort.activeConfig]
  by_cases hrecv : s.sp_init_.is_to_recv_ = true
  · rw [if_pos ⟨hmode,hrecv⟩]
    refine ⟨hmode,.inr ⟨handle,hhandle,hone,rfl,hasked,?_⟩⟩
    rw [Served, if_pos (by exact hrecv)]
    exact ⟨_,_,hp.start⟩
  · rw [if_neg (fun h => hrecv h.2)]
    refine ⟨hmode,.inr ⟨handle,hhandle,hone,rfl,hasked,?_⟩⟩
    rw [Served, if_neg (by exact hrecv)]
    exact hp

theorem activeConfig_line (s : SPWinPort) (os : WinAnswers) :
    (s.activeConfig os).1.sp_init_ = s.sp_init_ ∧ (s.activeConfig os).1.sp_handle_ = s.sp_handle_ ∧
    (s.activeConfig os).1.device = (s.configured os).device := by
  rw [SPWinPort.activeConfig]
  split_ifs <;> exact ⟨rfl,rfl,rfl⟩

theorem Inv.init {s : SPWinPort} (h : s.Inv) {sp_init : PortInit} {os : WinAnswers}
    (horder : s.InOrder (.init sp_init os)) : (s.init sp_init os).1.Inv := by
  unfold SPWinPort.init
  split_ifs with hbad
  · exact h
  · have hok : SPParamHelper.paramIsOk sp_init = 0 := (not_not.mp hbad).symm
    have horder := horder hok
    obtain ⟨hmode,⟨hhandle,hnil,hp⟩ | ⟨handle,hhandle,hone,hown,hasked,hserved⟩⟩ := h
    · have hclosed : ¬s.isOpen = true := by simp [isOpen, hhandle]
      rw [if_neg hclosed] at horder
      cases hfile : os.CreateFileA with
      | none =>
        rw [open_of_failed (by exact hclosed) hfile]
        exact ⟨hmode,.inl ⟨hhandle,hnil,hp⟩⟩
      | some handle =>
        rw [open_of_created (by exact hclosed) hfile]
        let t : SPWinPort := { s with
          sp_init_ := sp_init, sp_handle_ := some handle, handles := s.handles ++ [handle] }
        exact Inv.activeConfig (s := t) hmode rfl (by simp [t, hnil]) hp hok (horder (by simp [hfile]))
    · have hopen : s.isOpen = true := by simp [isOpen, hhandle]
      rw [if_pos hopen] at horder
      rw [open_of_open (by exact hopen), horder]
      exact ⟨hmode,.inr ⟨handle,hhandle,hone,hown,hasked,hserved⟩⟩

theorem Inv.shutdown {s : SPWinPort} (h : s.Inv) : s.shutdown.1.Inv := by
  obtain ⟨hmode,⟨hhandle,hnil,hp⟩ | ⟨handle,hhandle,hone,hown,hasked,hserved⟩⟩ := h
  · simp only [SPWinPort.shutdown, hhandle]
    exact ⟨hmode,.inl ⟨hhandle,hnil,hp⟩⟩
  · simp only [SPWinPort.shutdown, hhandle]
    rw [Served] at hserved
    split_ifs at hserved ⊢ with hrecv
    · obtain ⟨ended,deleted,hpolling⟩ := hserved
      exact ⟨hmode,.inl ⟨rfl,by simp [hone],hpolling.stop⟩⟩
    · exact ⟨hmode,.inl ⟨rfl,by simp [hone],hserved⟩⟩

/-- An `init` that is out of order is seen at once: the parameters are not those of the port, or its line. -/
theorem inOrder_of_sound {s : SPWinPort} (h : s.Inv) {sp_init : PortInit} {os : WinAnswers}
    (hsound : (s.init sp_init os).1.Sound) : s.InOrder (.init sp_init os) := by
  intro hok
  rw [SPWinPort.init, if_neg (by simp [hok])] at hsound
  obtain ⟨hmode,⟨hhandle,-,-⟩ | ⟨handle,hhandle,-,hown,-,-⟩⟩ := h
  · have hclosed : ¬s.isOpen = true := by simp [isOpen, hhandle]
    rw [if_neg hclosed]
    intro hfile
    obtain ⟨handle,hfile⟩ := Option.ne_none_iff_exists'.mp hfile
    rw [open_of_created (by exact hclosed) hfile] at hsound
    obtain ⟨hinit,hopen,hdevice⟩ := activeConfig_line { s with
      sp_init_ := sp_init, sp_handle_ := some handle, handles := s.handles ++ [handle] } os
    have hasked := hsound.asked (congrArg Option.isSome hopen)
    rw [hinit, hdevice] at hasked
    simp only [configured] at hasked
    split_ifs at hasked ⊢
    · have hrate := hasked.rate
      rw [dcb_rate] at hrate
      exact hrate ▸ Nat.mod_lt _ (by decide)
    · exact hasked
  · have hopen : s.isOpen = true := by simp [isOpen, hhandle]
    rw [if_pos hopen]
    rw [open_of_open (by exact hopen)] at hsound
    exact (hsound.own hopen).trans hown.symm

/-- A port that is opened and closed in any order, whatever the system answers: its handle, its thread, its
line and what it reports are of one opening, in every state exactly while every `init` is in order. -/
theorem everyStep_inOrder_iff_sound (device : DCB) (acts : List WinAct) :
    EveryStep step InOrder (fresh device) acts ↔ EveryState step Sound (fresh device) acts := by
  have hfresh : (fresh device).Inv := ⟨rfl,.inl ⟨rfl,rfl,SPUnix.parked_fresh⟩⟩
  apply everyStep_iff_everyState hfresh (fun _ h => h.sound)
  · intro s a t h horder ht
    cases a with
    | init sp_init os =>
      obtain ⟨-,ht⟩ := Option.ite_none_left_eq_some.mp ht
      cases ht
      exact h.init horder
    | shutdown =>
      obtain ⟨-,ht⟩ := Option.ite_none_left_eq_some.mp ht
      cases ht
      exact h.shutdown
  · intro s a t h ht hsound
    cases a with
    | init sp_init os =>
      obtain ⟨-,ht⟩ := Option.ite_none_left_eq_some.mp ht
      cases ht
      exact inOrder_of_sound h hsound
    | shutdown => trivial

end SPWinPort
end OctCommu.SerialPort
