import OctCommu.SerialPort.LineSpeed

/-! # What the setters of the line options change

Every setter owns some bits of the setting. All but two keep to their own bits
whatever the options are.
-/
namespace OctCommu.SerialPort
open Flags

def sizeBits : SP_DataBits → BitVec 32
  | .SPDB_5 => CS5
  | .SPDB_6 => CS6
  | .SPDB_7 => CS7
  | .SPDB_8 => CS8
  | .unknown _ => 0

/-- The flags of software flow control, all in `c_iflag`. -/
def softwareBits : BitVec 32 := IXON ||| IXOFF ||| IXANY

inductive Setter where
  | setBaud
  | setParity
  | setDataBit
  | setStopbit
  | setFlowCtrl
  | setCtrolMode
  | setOutputMode
  | setInputMode
  | setLocalMode
  | setWaitTime
  | setAtLeastRead
  deriving DecidableEq

namespace Setter

def cflag : Setter → BitVec 32
  | setBaud => CBAUD
  | setParity => PARENB ||| PARODD
  | setDataBit => CSIZE
  | setStopbit => CSTOPB
  | setFlowCtrl => CRTSCTS
  | setCtrolMode => CLOCAL ||| CREAD
  | _ => 0

def iflag : Setter → BitVec 32
  | setFlowCtrl => softwareBits
  | setInputMode => BRKINT ||| ICRNL ||| INPCK ||| ISTRIP
  | _ => 0

def oflag : Setter → BitVec 32
  | setOutputMode => OPOST
  | _ => 0

def lflag : Setter → BitVec 32
  | setLocalMode => ICANON ||| ECHO ||| ECHOE ||| ISIG
  | _ => 0

def cc : Setter → Option (Fin 32)
  | setWaitTime => some VTIME
  | setAtLeastRead => some VMIN
  | _ => none

end Setter

/-- What the setter owns is the same in both settings. -/
structure SameField (g : Setter) (t u : Termios) : Prop where
  cflag : u.c_cflag &&& g.cflag = t.c_cflag &&& g.cflag
  iflag : u.c_iflag &&& g.iflag = t.c_iflag &&& g.iflag
  oflag : u.c_oflag &&& g.oflag = t.c_oflag &&& g.oflag
  lflag : u.c_lflag &&& g.lflag = t.c_lflag &&& g.lflag
  cc : ∀ i, g.cc = some i → u.c_cc[i] = t.c_cc[i]
  speed : g = .setBaud → u.c_ispeed = t.c_ispeed ∧ u.c_ospeed = t.c_ospeed

/-- A call of `f` that turns `t` into `u` changes nothing another setter owns. -/
def Keeps (f : Setter) (t u : Termios) : Prop := ∀ g, g ≠ f → SameField g t u

/-- A size field that the flags `setParity` puts into `c_cflag` leave as it is. -/
def SizeKept (parity : SP_Parity) (c_cflag : BitVec 32) : Prop :=
  if parity = .SPP_None then c_cflag &&& INPCK = 0 else c_cflag &&& CSIZE = CS8

namespace SPUtil
variable {calls : LineCalls} {t u : Termios}

/-- Outside its field a rate changes no control flag. -/
theorem c_cflag_assign {x k m : BitVec 32} (hm : Apart CBAUD m) (hk : k &&& CBAUD = k) :
    setBits (clearBits x CBAUD) k &&& m = x &&& m := by
  rw [and_setBits (hm.of_and_eq hk), and_clearBits hm]

theorem c_cflag_setBaud {m : BitVec 32} (h : Apart CBAUD m) (device : Termios) (baud : ℤ) :
    (setBaud calls device baud t).option.c_cflag &&& m = t.c_cflag &&& m := by
  have hk := rate2Constant_and baud
  rw [setBaud_option]
  split
  · rfl
  · change setBits (clearBits (setBits (clearBits t.c_cflag CBAUD) _) CBAUD) _ &&& m = _
    rw [c_cflag_assign h hk, c_cflag_assign h hk]

theorem c_iflag_setBaud (device : Termios) (baud : ℤ) :
    (setBaud calls device baud t).option.c_iflag = t.c_iflag := by
  rw [setBaud_option]
  split <;> rfl

/-- Nothing but control flags differ. -/
def CtrlOnly (t u : Termios) : Prop := u = { t with c_cflag := u.c_cflag }

theorem CtrlOnly.c_iflag (h : CtrlOnly t u) : u.c_iflag = t.c_iflag := by rw [h]

theorem CtrlOnly.sameField {g : Setter} (h : CtrlOnly t u)
    (hm : u.c_cflag &&& g.cflag = t.c_cflag &&& g.cflag) : SameField g t u := by
  refine ⟨hm,?_,?_,?_,?_,?_⟩
  · rw [h]
  · rw [h]
  · rw [h]
  · intro i _
    rw [h]
  · intro _
    rw [h]
    exact ⟨rfl,rfl⟩

theorem ctrlOnly_setParity (parity : SP_Parity) (t : Termios) :
    CtrlOnly t (setParity parity t).2 := by
  cases parity <;> rfl

theorem ctrlOnly_setDataBit (dataBits : SP_DataBits) (t : Termios) :
    CtrlOnly t (setDataBit dataBits t).2 := by
  cases dataBits <;> rfl

theorem ctrlOnly_setStopbit (stopbits : SP_StopBits) (t : Termios) :
    CtrlOnly t (setStopbit stopbits t).2 := by
  cases stopbits <;> rfl

theorem ctrlOnly_setFlowCtrl (fc : SP_FlowControl) (t : Termios) :
    CtrlOnly t (setFlowCtrl fc t).2 := by
  cases fc <;> rfl

theorem ctrlOnly_setCtrolMode (t : Termios) : CtrlOnly t (setCtrolMode t) := rfl

/-- The fields of two setters have no bit in common. -/
theorem cflag_apart {f g : Setter} (h : g ≠ f) : Apart f.cflag g.cflag := by
  cases f <;> cases g <;> first | exact absurd rfl h | decide

theorem sameField_refl (g : Setter) (t : Termios) : SameField g t t :=
  ⟨rfl,rfl,rfl,rfl,fun _ _ => rfl,fun _ => ⟨rfl,rfl⟩⟩

/-- A setter that only touches its own control flags keeps all others. -/
theorem CtrlOnly.keeps {f : Setter} (h : CtrlOnly t u)
    (hm : ∀ m, Apart f.cflag m → u.c_cflag &&& m = t.c_cflag &&& m) : Keeps f t u :=
  fun _ hg => h.sameField (hm _ (cflag_apart hg))

theorem keeps_setBaud (device : Termios) (baud : ℤ) :
    Keeps .setBaud t (setBaud calls device baud t).option := by
  intro g hg
  have hcflag : (setBaud calls device baud t).option.c_cflag &&& g.cflag =
      t.c_cflag &&& g.cflag := c_cflag_setBaud (cflag_apart hg) device baud
  rw [setBaud_option] at hcflag ⊢
  split
  · exact sameField_refl g t
  · rename_i h
    rw [if_neg h] at hcflag
    exact ⟨hcflag,rfl,rfl,rfl,fun _ _ => rfl,fun h => absurd h hg⟩

/-- What goes to the line directly is the rate alone. -/
theorem keeps_setBaud_device (device option : Termios) (baud : ℤ) :
    Keeps .setBaud device (setBaud calls device baud option).device := by
  intro g hg
  have hcflag : setBits (clearBits device.c_cflag CBAUD) BOTHER &&& g.cflag =
      device.c_cflag &&& g.cflag := c_cflag_assign (cflag_apart hg) (by decide)
  simp only [setBaud]
  split
  · exact sameField_refl g device
  · split
    · split
      · exact sameField_refl g device
      · split
        · exact ⟨hcflag,rfl,rfl,rfl,fun _ _ => rfl,fun h => absurd h hg⟩
        · exact ⟨hcflag,rfl,rfl,rfl,fun _ _ => rfl,fun h => absurd h hg⟩
    · exact sameField_refl g device

theorem keeps_setSize {size : BitVec 32} (h : size &&& CSIZE = size) :
    Keeps .setDataBit t (setSize t size) := by
  have hctrl : CtrlOnly t (setSize t size) := rfl
  apply hctrl.keeps
  intro m hm
  have hm : Apart CSIZE m := hm
  change setBits (clearBits t.c_cflag CSIZE) size &&& m = _
  rw [and_setBits (hm.of_and_eq h), and_clearBits hm]

theorem keeps_setDataBit (dataBits : SP_DataBits) : Keeps .setDataBit t (setDataBit dataBits t).2 := by
  cases dataBits with
  | SPDB_5 | SPDB_6 | SPDB_7 | SPDB_8 => exact keeps_setSize (by decide)
  | unknown value => exact fun g _ => sameField_refl g t

theorem keeps_setStopbit (stopbits : SP_StopBits) : Keeps .setStopbit t (setStopbit stopbits t).2 := by
  apply (ctrlOnly_setStopbit stopbits t).keeps
  intro m hm
  cases stopbits with
  | SPSB_One => exact and_clearBits hm
  | SPSB_Two => exact and_setBits hm
  | SPSB_OneAndHalf | unknown => rfl

theorem keeps_setFlowCtrl {fc : SP_FlowControl} (h : fc ≠ .SPFC_Software) :
    Keeps .setFlowCtrl t (setFlowCtrl fc t).2 := by
  apply (ctrlOnly_setFlowCtrl fc t).keeps
  intro m hm
  cases fc with
  | SPFC_None => exact and_clearBits hm
  | SPFC_Hardware => exact and_setBits hm
  | SPFC_Software => exact absurd rfl h
  | unknown value => rfl

theorem keeps_setCtrolMode : Keeps .setCtrolMode t (setCtrolMode t) := by
  apply (ctrlOnly_setCtrolMode t).keeps
  intro m hm
  change setBits (setBits t.c_cflag CLOCAL) CREAD &&& m = _
  rw [and_setBits (Apart.of_and_eq hm (by decide)), and_setBits (Apart.of_and_eq hm (by decide))]

theorem oflag_apart {g : Setter} (h : g ≠ .setOutputMode) : Apart OPOST g.oflag := by
  cases g <;> first | exact absurd rfl h | decide

theorem lflag_apart {g : Setter} (h : g ≠ .setLocalMode) :
    Apart (ICANON ||| ECHO ||| ECHOE ||| ISIG) g.lflag := by
  cases g <;> first | exact absurd rfl h | decide

theorem keeps_setOutputMode : Keeps .setOutputMode t (setOutputMode t) :=
  fun _ hg => ⟨rfl,rfl,and_clearBits (oflag_apart hg),rfl,fun _ _ => rfl,fun _ => ⟨rfl,rfl⟩⟩

theorem keeps_setLocalMode : Keeps .setLocalMode t (setLocalMode t) :=
  fun _ hg => ⟨rfl,rfl,rfl,and_clearBits (lflag_apart hg),fun _ _ => rfl,fun _ => ⟨rfl,rfl⟩⟩

theorem cc_apart {f g : Setter} {i j : Fin 32} (h : g ≠ f) (hf : f.cc = some j)
    (hg : g.cc = some i) : j ≠ i := by
  rintro rfl
  cases f with
  | setWaitTime => cases hf; cases g <;> first | exact h rfl | cases hg
  | setAtLeastRead => cases hf; cases g <;> first | exact h rfl | cases hg
  | _ => cases hf

theorem keeps_set_cc {f : Setter} {j : Fin 32} (hf : f.cc = some j) (value : BitVec 8) :
    Keeps f t { t with c_cc := t.c_cc.set j value } := by
  intro g hg
  refine ⟨rfl,rfl,rfl,rfl,?_,fun _ => ⟨rfl,rfl⟩⟩
  intro i hi
  have hne := cc_apart hg hf hi
  exact Vector.getElem_set_ne j.isLt i.isLt fun h => hne (Fin.ext h)

theorem keeps_setWaitTime (time : ℤ) : Keeps .setWaitTime t (setWaitTime t time) :=
  keeps_set_cc (f := .setWaitTime) rfl _

theorem keeps_setAtLeastRead (read_min_len : ℤ) :
    Keeps .setAtLeastRead t (setAtLeastRead t read_min_len) :=
  keeps_set_cc (f := .setAtLeastRead) rfl _

/-- Besides its own flags `setParity` changes two of the size. -/
theorem c_cflag_setParity {parity : SP_Parity} {m : BitVec 32} (hspace : parity ≠ .SPP_Space)
    (hp : Apart (PARENB ||| PARODD) m) (hs : Apart CSIZE m) :
    (setParity parity t).2.c_cflag &&& m = t.c_cflag &&& m := by
  have hparenb : Apart PARENB m := hp.of_and_eq (by decide)
  have hparodd : Apart PARODD m := hp.of_and_eq (by decide)
  have hinpck : Apart INPCK m := hs.of_and_eq (by decide)
  have histrip : Apart ISTRIP m := hs.of_and_eq (by decide)
  cases parity with
  | SPP_None =>
    change clearBits (clearBits t.c_cflag PARENB) INPCK &&& m = _
    rw [and_clearBits hinpck, and_clearBits hparenb]
  | SPP_Odd =>
    change setBits (setBits (setBits (setBits t.c_cflag PARENB) PARODD) INPCK) ISTRIP &&& m = _
    rw [and_setBits histrip, and_setBits hinpck, and_setBits hparodd, and_setBits hparenb]
  | SPP_Even =>
    change setBits (setBits (clearBits (setBits t.c_cflag PARENB) PARODD) INPCK) ISTRIP &&& m = _
    rw [and_setBits histrip, and_setBits hinpck, and_clearBits hparodd, and_setBits hparenb]
  | SPP_Space => exact absurd rfl hspace
  | SPP_Mark | unknown => rfl

theorem clear_inpck_iff {x y : BitVec 32} (h : y &&& CSIZE = x &&& CSIZE) :
    clearBits y INPCK &&& CSIZE = x &&& CSIZE ↔ x &&& INPCK = 0 := by
  have hinpck : y &&& INPCK = x &&& INPCK := and_eq_of_and_eq h (by decide)
  have hin : INPCK &&& CSIZE = INPCK := by decide
  rw [← h, and_clearBits_iff, hin, hinpck]
  rfl

theorem set_inpck_istrip_iff {x y : BitVec 32} (h : y &&& CSIZE = x &&& CSIZE) :
    setBits (setBits y INPCK) ISTRIP &&& CSIZE = x &&& CSIZE ↔ x &&& CSIZE = CS8 := by
  have hin : (INPCK ||| ISTRIP) &&& CSIZE = CSIZE := by decide
  rw [setBits_setBits, ← h, and_setBits_iff, hin]
  rfl

/-- The size field is kept under exactly this condition. -/
theorem size_setParity_iff {parity : SP_Parity} (h : parity ≠ .SPP_Space)
    (hret : (setParity parity t).1 = 0) :
    (setParity parity t).2.c_cflag &&& CSIZE = t.c_cflag &&& CSIZE ↔ SizeKept parity t.c_cflag := by
  cases parity with
  | SPP_None => exact clear_inpck_iff (and_clearBits (by decide))
  | SPP_Odd =>
    apply set_inpck_istrip_iff
    rw [and_setBits (by decide), and_setBits (by decide)]
  | SPP_Even =>
    apply set_inpck_istrip_iff
    rw [and_clearBits (by decide), and_setBits (by decide)]
  | SPP_Space => exact absurd rfl h
  | SPP_Mark | unknown => cases hret

theorem keeps_setParity_iff {parity : SP_Parity} (h : parity ≠ .SPP_Space)
    (hret : (setParity parity t).1 = 0) :
    Keeps .setParity t (setParity parity t).2 ↔ SizeKept parity t.c_cflag := by
  constructor
  · intro hk
    exact (size_setParity_iff h hret).mp (hk .setDataBit (by decide)).cflag
  · intro hs g hg
    apply (ctrlOnly_setParity parity t).sameField
    by_cases hsize : g = .setDataBit
    · rw [hsize]
      exact (size_setParity_iff h hret).mpr hs
    · exact c_cflag_setParity h (cflag_apart hg) (cflag_apart hsize)

/-- `IXON` is cleared along with the flags of `setInputMode`. -/
theorem keeps_setInputMode_iff :
    Keeps .setInputMode t (setInputMode t) ↔ t.c_iflag &&& IXON = 0 := by
  have hin : (BRKINT ||| ICRNL ||| INPCK ||| ISTRIP ||| IXON) &&& softwareBits = IXON := by decide
  have hiff : (setInputMode t).c_iflag &&& softwareBits = t.c_iflag &&& softwareBits ↔
      t.c_iflag &&& IXON = 0 := by
    change clearBits t.c_iflag _ &&& softwareBits = _ ↔ _
    rw [and_clearBits_iff, hin]
    rfl
  constructor
  · intro hk
    exact hiff.mp (hk .setFlowCtrl (by decide)).iflag
  · intro h g hg
    refine ⟨rfl,?_,rfl,rfl,fun _ _ => rfl,fun _ => ⟨rfl,rfl⟩⟩
    cases g with
    | setFlowCtrl => exact hiff.mpr h
    | setInputMode => exact absurd rfl hg
    | _ => exact BitVec.and_zero.trans BitVec.and_zero.symm

/-! ### What a setter leaves in its own field -/

theorem size_setDataBit {dataBits : SP_DataBits} (h : (setDataBit dataBits t).1 = 0) :
    (setDataBit dataBits t).2.c_cflag &&& CSIZE = sizeBits dataBits := by
  have hown : ∀ size : BitVec 32, size &&& CSIZE = size →
      (setSize t size).c_cflag &&& CSIZE = size := by
    intro size hsize
    change setBits (clearBits t.c_cflag CSIZE) size &&& CSIZE = size
    rw [and_setBits_own, and_clearBits_own BitVec.and_self, hsize, BitVec.zero_or]
  cases dataBits with
  | SPDB_5 | SPDB_6 | SPDB_7 | SPDB_8 => exact hown _ (by decide)
  | unknown value => cases h

theorem parenb_setParity {parity : SP_Parity} (h : (setParity parity t).1 = 0)
    (hspace : parity ≠ .SPP_Space) : (setParity parity t).2.c_cflag &&& PARENB =
      if parity = .SPP_None then 0 else PARENB := by
  cases parity with
  | SPP_None =>
    change clearBits (clearBits t.c_cflag PARENB) INPCK &&& PARENB = 0
    rw [and_clearBits (by decide)]
    exact and_clearBits_own BitVec.and_self
  | SPP_Odd =>
    change setBits (setBits (setBits (setBits t.c_cflag PARENB) PARODD) INPCK) ISTRIP &&& PARENB = PARENB
    rw [and_setBits (by decide), and_setBits (by decide), and_setBits (by decide)]
    exact and_setBits_of_and_eq BitVec.and_self
  | SPP_Even =>
    change setBits (setBits (clearBits (setBits t.c_cflag PARENB) PARODD) INPCK) ISTRIP &&& PARENB = PARENB
    rw [and_setBits (by decide), and_setBits (by decide), and_clearBits (by decide)]
    exact and_setBits_of_and_eq BitVec.and_self
  | SPP_Space => exact absurd rfl hspace
  | SPP_Mark | unknown => cases h

theorem parodd_setParity {parity : SP_Parity} (h : (setParity parity t).1 = 0)
    (hspace : parity ≠ .SPP_Space) (hnone : parity ≠ .SPP_None) :
    (setParity parity t).2.c_cflag &&& PARODD = if parity = .SPP_Odd then PARODD else 0 := by
  cases parity with
  | SPP_None => exact absurd rfl hnone
  | SPP_Odd =>
    change setBits (setBits (setBits (setBits t.c_cflag PARENB) PARODD) INPCK) ISTRIP &&& PARODD = PARODD
    rw [and_setBits (by decide), and_setBits (by decide)]
    exact and_setBits_of_and_eq BitVec.and_self
  | SPP_Even =>
    change setBits (setBits (clearBits (setBits t.c_cflag PARENB) PARODD) INPCK) ISTRIP &&& PARODD = 0
    rw [and_setBits (by decide), and_setBits (by decide)]
    exact and_clearBits_own BitVec.and_self
  | SPP_Space => exact absurd rfl hspace
  | SPP_Mark | unknown => cases h

theorem cstopb_setStopbit {stopbits : SP_StopBits} (h : (setStopbit stopbits t).1 = 0) :
    (setStopbit stopbits t).2.c_cflag &&& CSTOPB =
      if stopbits = .SPSB_Two then CSTOPB else 0 := by
  cases stopbits with
  | SPSB_One => exact and_clearBits_own BitVec.and_self
  | SPSB_Two => exact and_setBits_of_and_eq BitVec.and_self
  | SPSB_OneAndHalf | unknown => cases h

theorem crtscts_setFlowCtrl {fc : SP_FlowControl} (h : (setFlowCtrl fc t).1 = 0)
    (hsoft : fc ≠ .SPFC_Software) : (setFlowCtrl fc t).2.c_cflag &&& CRTSCTS =
      if fc = .SPFC_Hardware then CRTSCTS else 0 := by
  cases fc with
  | SPFC_None => exact and_clearBits_own BitVec.and_self
  | SPFC_Hardware => exact and_setBits_of_and_eq BitVec.and_self
  | SPFC_Software => exact absurd rfl hsoft
  | unknown value => cases h

end SPUtil
end OctCommu.SerialPort
