import OctCommu.SerialPort.SetterFields

/-! # Which line settings are in force after `initSPProperty`

The options are read before a custom rate goes to the line, and replace it at
the end.
-/
namespace OctCommu.SerialPort
open Flags

/-- A setting is the one that was asked for. Without parity `PARODD` has no meaning. -/
structure Termios.Exact (sp_init_ : SPInit) (t : Termios) : Prop where
  speed : t.RunsAt sp_init_.baud_
  size : t.c_cflag &&& CSIZE = sizeBits sp_init_.data_bits_
  parity : t.c_cflag &&& PARENB = if sp_init_.parity_ = .SPP_None then 0 else PARENB
  odd : sp_init_.parity_ ≠ .SPP_None →
    t.c_cflag &&& PARODD = if sp_init_.parity_ = .SPP_Odd then PARODD else 0
  stop : t.c_cflag &&& CSTOPB = if sp_init_.stop_bits_ = .SPSB_Two then CSTOPB else 0
  hardware : t.c_cflag &&& CRTSCTS = if sp_init_.flow_ctrl_ = .SPFC_Hardware then CRTSCTS else 0
  software : t.c_iflag &&& softwareBits =
    if sp_init_.flow_ctrl_ = .SPFC_Software then softwareBits else 0

/-- The setters in the order `initSPProperty` calls them, with what they do to the options. -/
def setters (calls : LineCalls) (sp_init_ : SPInit) : List (Setter × (Termios → Termios)) :=
  [(.setBaud,fun t => (SPUtil.setBaud calls t (BitVec.ofNat 32 sp_init_.baud_).toInt t).option),
    (.setParity,fun t => (SPUtil.setParity sp_init_.parity_ t).2),
    (.setDataBit,fun t => (SPUtil.setDataBit sp_init_.data_bits_ t).2),
    (.setStopbit,fun t => (SPUtil.setStopbit sp_init_.stop_bits_ t).2),
    (.setFlowCtrl,fun t => (SPUtil.setFlowCtrl sp_init_.flow_ctrl_ t).2),
    (.setCtrolMode,SPUtil.setCtrolMode),
    (.setOutputMode,SPUtil.setOutputMode),
    (.setInputMode,SPUtil.setInputMode),
    (.setLocalMode,SPUtil.setLocalMode),
    (.setWaitTime,fun t => SPUtil.setWaitTime t 0),
    (.setAtLeastRead,fun t => SPUtil.setAtLeastRead t 1)]

/-- Each setter keeps to its own when they are called one after the other. -/
def Framed : List (Setter × (Termios → Termios)) → Termios → Prop
  | [],_ => True
  | (f,act) :: rest,t => Keeps f t (act t) ∧ Framed rest (act t)

/-- The setting in force is the one that was asked for, and every setter kept to its own, `setBaud`
also where it goes to the line directly. -/
structure Configured (calls : LineCalls) (sp_init_ : SPInit) (device : Termios) : Prop where
  exact : (initSPProperty calls sp_init_ device).2.Exact sp_init_
  framed : Framed (setters calls sp_init_) device
  direct : Keeps .setBaud device
    (SPUtil.setBaud calls device (BitVec.ofNat 32 sp_init_.baud_).toInt device).device

/-- A standard rate or the one in force before, no software flow control, none of its flags set
before, and a size field that setting the parity leaves alone. -/
structure Compatible (sp_init_ : SPInit) (device : Termios) : Prop where
  rate : SPUtil.rate2Constant sp_init_.baud_ ≠ 0 ∨ device.RunsAt sp_init_.baud_
  flow : sp_init_.flow_ctrl_ ≠ .SPFC_Software
  input : device.c_iflag &&& softwareBits = 0
  size : SizeKept sp_init_.parity_ device.c_cflag

/-! ### All setters in a row -/

theorem SameField.trans {g : Setter} {t u v : Termios} (h : SameField g t u)
    (h' : SameField g u v) : SameField g t v := by
  refine ⟨h'.cflag.trans h.cflag,h'.iflag.trans h.iflag,h'.oflag.trans h.oflag,
    h'.lflag.trans h.lflag,?_,?_⟩
  · intro i hi
    exact (h'.cc i hi).trans (h.cc i hi)
  · intro hg
    exact ⟨(h'.speed hg).1.trans (h.speed hg).1,(h'.speed hg).2.trans (h.speed hg).2⟩

/-- The setting is read at its own field only. -/
theorem SameField.runsAt_iff {t u : Termios} (h : SameField .setBaud t u) (n : ℕ) :
    u.RunsAt n ↔ t.RunsAt n := by
  have hcbaud : u.c_cflag &&& CBAUD = t.c_cflag &&& CBAUD := h.cflag
  obtain ⟨hin,hout⟩ := h.speed rfl
  simp only [Termios.RunsAt, lineSpeed, hcbaud, hin, hout]

def applyAll (fs : List (Setter × (Termios → Termios))) (t : Termios) : Termios :=
  fs.foldl (fun t f => f.2 t) t

/-- A field is left to those that come later only if they own it. -/
theorem Framed.sameField {fs : List (Setter × (Termios → Termios))} {t : Termios}
    (h : Framed fs t) {g : Setter} (hg : ∀ f ∈ fs, g ≠ f.1) : SameField g t (applyAll fs t) := by
  induction fs generalizing t with
  | nil => exact SPUtil.sameField_refl g t
  | cons f fs ih =>
    have hfirst := h.1 g (hg f (List.mem_cons_self ..))
    exact hfirst.trans (ih h.2 fun f hf => hg f (List.mem_cons_of_mem _ hf))

section
variable {calls : LineCalls} {sp_init_ : SPInit} {device : Termios}

/-- No setter found its argument wanting. -/
structure Accepted (sp_init_ : SPInit) (t : Termios) : Prop where
  parity : (SPUtil.setParity sp_init_.parity_ t).1 = 0
  dataBit : (SPUtil.setDataBit sp_init_.data_bits_ t).1 = 0
  stopbit : (SPUtil.setStopbit sp_init_.stop_bits_ t).1 = 0
  flowCtrl : (SPUtil.setFlowCtrl sp_init_.flow_ctrl_ t).1 = 0

/-- The codes do not depend on the options. -/
theorem Accepted.of_codes {t₁ t₂ t₃ t₄ : Termios}
    (h1 : 0 = (SPUtil.setParity sp_init_.parity_ t₁).1)
    (h2 : 0 = (SPUtil.setDataBit sp_init_.data_bits_ t₂).1)
    (h3 : 0 = (SPUtil.setStopbit sp_init_.stop_bits_ t₃).1)
    (h4 : 0 = (SPUtil.setFlowCtrl sp_init_.flow_ctrl_ t₄).1) (t : Termios) : Accepted sp_init_ t := by
  constructor
  · rw [h1]
    cases sp_init_.parity_ <;> rfl
  · rw [h2]
    cases sp_init_.data_bits_ <;> rfl
  · rw [h3]
    cases sp_init_.stop_bits_ <;> rfl
  · rw [h4]
    cases sp_init_.flow_ctrl_ <;> rfl

/-- A check that failed would have given its code. -/
theorem passed_of_code {p : Prop} [Decidable p] {code : ℤ} {d : Termios} {r : ℤ × Termios}
    (hcode : code ≠ 0) (h : (if p then (code,d) else r).1 = 0) :
    ¬ p ∧ (if p then (code,d) else r) = r := by
  by_cases hp : p
  · rw [if_pos hp] at h
    exact absurd h hcode
  · exact ⟨hp,if_neg hp⟩

/-- When nothing fails, the options have gone through all setters and are in force. -/
theorem initSPProperty_ok (h : (initSPProperty calls sp_init_ device).1 = 0) :
    (initSPProperty calls sp_init_ device).2 = applyAll (setters calls sp_init_) device ∧
      ∀ t, Accepted sp_init_ t := by
  simp only [initSPProperty] at h ⊢
  obtain ⟨_,he⟩ := passed_of_code (by decide) h
  rw [he] at h ⊢
  obtain ⟨_,he⟩ := passed_of_code (by decide) h
  rw [he] at h ⊢
  obtain ⟨hparity,he⟩ := passed_of_code (by decide) h
  rw [he] at h ⊢
  obtain ⟨hdataBit,he⟩ := passed_of_code (by decide) h
  rw [he] at h ⊢
  obtain ⟨hstopbit,he⟩ := passed_of_code (by decide) h
  rw [he] at h ⊢
  obtain ⟨hflowCtrl,he⟩ := passed_of_code (by decide) h
  rw [he] at h ⊢
  obtain ⟨hactive,he⟩ := passed_of_code (by decide) h
  rw [he]
  simp only [ne_eq, not_not] at hparity hdataBit hstopbit hflowCtrl hactive
  refine ⟨?_,fun t => .of_codes hparity hdataBit hstopbit hflowCtrl t⟩
  simp only [SPUtil.activeOption] at hactive ⊢
  split at hactive
  · rename_i hset
    rw [if_pos hset]
    rfl
  · cases hactive

theorem sizeKept_congr {parity : SP_Parity} {x y : BitVec 32} (h : y &&& CSIZE = x &&& CSIZE) :
    SizeKept parity y ↔ SizeKept parity x := by
  have hinpck : y &&& INPCK = x &&& INPCK := and_eq_of_and_eq h (by decide)
  simp only [SizeKept, h, hinpck]

/-- In front of `setInputMode` no setter touches the input flags. -/
theorem c_iflag_before_setInputMode (calls : LineCalls) (sp_init_ : SPInit) (t : Termios) :
    (applyAll ((setters calls sp_init_).take 7) t).c_iflag = t.c_iflag := by
  change (SPUtil.setFlowCtrl _ _).2.c_iflag = _
  rw [(SPUtil.ctrlOnly_setFlowCtrl _ _).c_iflag, (SPUtil.ctrlOnly_setStopbit _ _).c_iflag,
    (SPUtil.ctrlOnly_setDataBit _ _).c_iflag, (SPUtil.ctrlOnly_setParity _ _).c_iflag]
  exact SPUtil.c_iflag_setBaud _ _

theorem sizeKept_setBaud (calls : LineCalls) (sp_init_ : SPInit) (t : Termios) :
    SizeKept sp_init_.parity_ (applyAll ((setters calls sp_init_).take 1) t).c_cflag ↔
      SizeKept sp_init_.parity_ t.c_cflag :=
  sizeKept_congr (SPUtil.c_cflag_setBaud (by decide) _ _)

theorem Framed.sizeKept (h : Framed (setters calls sp_init_) device)
    (hacc : ∀ t, Accepted sp_init_ t) (hspace : sp_init_.parity_ ≠ .SPP_Space) :
    SizeKept sp_init_.parity_ device.c_cflag := by
  obtain ⟨_,hparity,_⟩ := h
  have hk := (SPUtil.keeps_setParity_iff hspace (hacc _).parity).mp hparity
  exact (sizeKept_setBaud calls sp_init_ device).mp hk

theorem Framed.ixon (h : Framed (setters calls sp_init_) device) : device.c_iflag &&& IXON = 0 := by
  obtain ⟨_,_,_,_,_,_,_,hinput,_⟩ := h
  rw [← c_iflag_before_setInputMode calls sp_init_ device]
  exact SPUtil.keeps_setInputMode_iff.mp hinput

/-- The flags of software flow control stay as they were before. -/
theorem Framed.software (h : Framed (setters calls sp_init_) device) :
    (applyAll (setters calls sp_init_) device).c_iflag &&& softwareBits =
      device.c_iflag &&& softwareBits := by
  obtain ⟨_,_,_,_,_,_,_,hrest⟩ := h
  have hsame := (Framed.sameField hrest (g := .setFlowCtrl) (by simp)).iflag
  have hbefore := c_iflag_before_setInputMode calls sp_init_ device
  exact hsame.trans (congrArg (fun x => x &&& softwareBits) hbefore)

theorem Compatible.framed (hc : Compatible sp_init_ device) (hacc : ∀ t, Accepted sp_init_ t)
    (hspace : sp_init_.parity_ ≠ .SPP_Space) : Framed (setters calls sp_init_) device := by
  have hsize := (sizeKept_setBaud calls sp_init_ device).mpr hc.size
  have hinput : (applyAll ((setters calls sp_init_).take 7) device).c_iflag &&& IXON = 0 := by
    rw [c_iflag_before_setInputMode]
    exact (and_or_eq_zero.mp (and_or_eq_zero.mp hc.input).1).1
  exact ⟨SPUtil.keeps_setBaud _ _,
    (SPUtil.keeps_setParity_iff hspace (hacc _).parity).mpr hsize,
    SPUtil.keeps_setDataBit _,SPUtil.keeps_setStopbit _,SPUtil.keeps_setFlowCtrl hc.flow,
    SPUtil.keeps_setCtrolMode,SPUtil.keeps_setOutputMode,
    SPUtil.keeps_setInputMode_iff.mpr hinput,SPUtil.keeps_setLocalMode,
    SPUtil.keeps_setWaitTime 0,SPUtil.keeps_setAtLeastRead 1,trivial⟩

/-- The setting at the end runs at the rate the options were given. -/
theorem Framed.runsAt_iff (h : Framed (setters calls sp_init_) device) :
    (applyAll (setters calls sp_init_) device).RunsAt sp_init_.baud_ ↔
      SPUtil.rate2Constant sp_init_.baud_ ≠ 0 ∨ device.RunsAt sp_init_.baud_ := by
  obtain ⟨_,hrest⟩ := h
  have hsame := hrest.sameField (g := .setBaud) (by simp)
  exact (hsame.runsAt_iff _).trans (SPUtil.runsAt_setBaud_iff device sp_init_.baud_)

/-- A field reaches the end as its own setter left it. -/
theorem Framed.exact (h : Framed (setters calls sp_init_) device)
    (hacc : ∀ t, Accepted sp_init_ t) (hspace : sp_init_.parity_ ≠ .SPP_Space)
    (hc : Compatible sp_init_ device) :
    (applyAll (setters calls sp_init_) device).Exact sp_init_ := by
  have hrate := h.runsAt_iff.mpr hc.rate
  have hinput := h.software.trans hc.input
  obtain ⟨_,_,hparity⟩ := h
  have hpar := (Framed.sameField hparity (g := .setParity) (by simp)).cflag
  obtain ⟨_,hsize⟩ := hparity
  have hsiz := (Framed.sameField hsize (g := .setDataBit) (by simp)).cflag
  obtain ⟨_,hstop⟩ := hsize
  have hsto := (Framed.sameField hstop (g := .setStopbit) (by simp)).cflag
  obtain ⟨_,hflow⟩ := hstop
  have hflo := (Framed.sameField hflow (g := .setFlowCtrl) (by simp)).cflag
  refine ⟨hrate,?_,?_,?_,?_,?_,?_⟩
  · exact hsiz.trans (SPUtil.size_setDataBit (hacc _).dataBit)
  · exact (and_eq_of_and_eq hpar (by decide)).trans
      (SPUtil.parenb_setParity (hacc _).parity hspace)
  · intro hnone
    exact (and_eq_of_and_eq hpar (by decide)).trans
      (SPUtil.parodd_setParity (hacc _).parity hspace hnone)
  · exact hsto.trans (SPUtil.cstopb_setStopbit (hacc _).stopbit)
  · exact hflo.trans (SPUtil.crtscts_setFlowCtrl (hacc _).flowCtrl hc.flow)
  · rw [if_neg hc.flow]
    exact hinput

theorem Framed.compatible (h : Framed (setters calls sp_init_) device)
    (hacc : ∀ t, Accepted sp_init_ t) (hspace : sp_init_.parity_ ≠ .SPP_Space)
    (he : (applyAll (setters calls sp_init_) device).Exact sp_init_) :
    Compatible sp_init_ device := by
  have hsoft := h.software.symm.trans he.software
  have hflow : sp_init_.flow_ctrl_ ≠ .SPFC_Software := by
    intro hf
    rw [if_pos hf] at hsoft
    have hset : device.c_iflag &&& IXON = softwareBits &&& IXON :=
      and_eq_of_and_eq (hsoft.trans (by decide : softwareBits = softwareBits &&& softwareBits))
        (by decide)
    exact absurd (hset.symm.trans h.ixon) (by decide)
  rw [if_neg hflow] at hsoft
  exact ⟨h.runsAt_iff.mp he.speed,hflow,hsoft,h.sizeKept hacc hspace⟩

/-- Where `initSPProperty` succeeds, the line is configured as it was asked for and every setter
keeps to its own if and only if the request and the setting before are compatible. -/
theorem configured_iff_compatible (hret : (initSPProperty calls sp_init_ device).1 = 0)
    (hspace : sp_init_.parity_ ≠ .SPP_Space) :
    Configured calls sp_init_ device ↔ Compatible sp_init_ device := by
  obtain ⟨hfinal,hacc⟩ := initSPProperty_ok hret
  constructor
  · rintro ⟨hexact,hframed,_⟩
    rw [hfinal] at hexact
    exact hframed.compatible hacc hspace hexact
  · intro hc
    have hframed : Framed (setters calls sp_init_) device := hc.framed hacc hspace
    refine ⟨?_,hframed,SPUtil.keeps_setBaud_device device device _⟩
    rw [hfinal]
    exact hframed.exact hacc hspace hc

end

/-- A line at 9600 baud with eight data bits and no input flag set. -/
def rawLine : Termios :=
  ⟨0,0,0o15 ||| CS8 ||| CREAD ||| CLOCAL,0,0,Vector.replicate 32 0,0o15,0o15⟩

def allSucceed : LineCalls := ⟨true,true,true,true,true⟩

/-- The defaults of `SP_INIT`. -/
def defaultInit : SPInit := ⟨9600,.SPP_Even,.SPDB_8,.SPSB_One,.SPFC_None⟩

/-- The premises hold for the defaults on such a line. -/
theorem configured_iff_compatible_default :
    Configured allSucceed defaultInit rawLine ↔ Compatible defaultInit rawLine :=
  configured_iff_compatible (by decide) (by decide)

/-- A custom rate is lost again, and software flow control changes the rate to 3000000. -/
theorem not_configured :
    ((initSPProperty allSucceed { defaultInit with baud_ := 250000 } rawLine).1 = 0 ∧
        ¬ Configured allSucceed { defaultInit with baud_ := 250000 } rawLine) ∧
      (initSPProperty allSucceed { defaultInit with flow_ctrl_ := .SPFC_Software } rawLine).1 = 0 ∧
        (initSPProperty allSucceed { defaultInit with flow_ctrl_ := .SPFC_Software }
          rawLine).2.RunsAt 3000000 ∧
        ¬ Configured allSucceed { defaultInit with flow_ctrl_ := .SPFC_Software } rawLine := by
  refine ⟨⟨by decide,?_⟩,by decide,by decide,?_⟩
  · intro h
    exact absurd h.exact.speed (by decide)
  · intro h
    exact absurd h.exact.speed (by decide)

end OctCommu.SerialPort
