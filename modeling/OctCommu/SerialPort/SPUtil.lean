import OctCommu.Lib.Flags
import Mathlib.Data.Int.Notation

/-! # Setting up a serial line

The flag values are those of Linux. A system call reads or replaces the whole
setting of the line; which of them succeed is an input. The buffer size and the
flush are not part of the setting, and their results are ignored.
-/
namespace OctCommu.SerialPort
open Flags

def BRKINT : BitVec 32 := 0o2
def INPCK : BitVec 32 := 0o20
def ISTRIP : BitVec 32 := 0o40
def ICRNL : BitVec 32 := 0o400
def IXON : BitVec 32 := 0o2000
def IXANY : BitVec 32 := 0o4000
def IXOFF : BitVec 32 := 0o10000

def OPOST : BitVec 32 := 0o1

def CBAUD : BitVec 32 := 0o10017
def BOTHER : BitVec 32 := 0o10000
def CSIZE : BitVec 32 := 0o60
def CS5 : BitVec 32 := 0o0
def CS6 : BitVec 32 := 0o20
def CS7 : BitVec 32 := 0o40
def CS8 : BitVec 32 := 0o60
def CSTOPB : BitVec 32 := 0o100
def CREAD : BitVec 32 := 0o200
def PARENB : BitVec 32 := 0o400
def PARODD : BitVec 32 := 0o1000
def CLOCAL : BitVec 32 := 0o4000
def CRTSCTS : BitVec 32 := 0o20000000000

def ISIG : BitVec 32 := 0o1
def ICANON : BitVec 32 := 0o2
def ECHO : BitVec 32 := 0o10
def ECHOE : BitVec 32 := 0o20

def VTIME : Fin 32 := 5
def VMIN : Fin 32 := 6

/-- The rates that have a constant, with their constants. -/
def standardRates : List (ℤ × BitVec 32) :=
  [(50,0o1),(75,0o2),(110,0o3),(134,0o4),(150,0o5),(200,0o6),(300,0o7),(600,0o10),(1200,0o11),
    (1800,0o12),(2400,0o13),(4800,0o14),(9600,0o15),(19200,0o16),(38400,0o17),(57600,0o10001),
    (115200,0o10002),(230400,0o10003),(460800,0o10004),(500000,0o10005),(576000,0o10006),
    (921600,0o10007),(1000000,0o10010),(1152000,0o10011),(1500000,0o10012),(2000000,0o10013),
    (2500000,0o10014),(3000000,0o10015),(3500000,0o10016),(4000000,0o10017)]

inductive SP_Parity where
  | SPP_None
  | SPP_Odd
  | SPP_Even
  | SPP_Mark
  | SPP_Space
  /-- The type admits any `int`. -/
  | unknown (value : ℤ)
  deriving DecidableEq

inductive SP_DataBits where
  | SPDB_5
  | SPDB_6
  | SPDB_7
  | SPDB_8
  | unknown (value : ℤ)
  deriving DecidableEq

inductive SP_StopBits where
  | SPSB_One
  | SPSB_OneAndHalf
  | SPSB_Two
  | unknown (value : ℤ)
  deriving DecidableEq

inductive SP_FlowControl where
  | SPFC_None
  | SPFC_Hardware
  | SPFC_Software
  | unknown (value : ℤ)
  deriving DecidableEq

/-- The members of `SP_INIT` that describe the line; `baud_` is a `size_t`. -/
structure SPInit where
  baud_ : ℕ
  parity_ : SP_Parity
  data_bits_ : SP_DataBits
  stop_bits_ : SP_StopBits
  flow_ctrl_ : SP_FlowControl
  deriving DecidableEq

/-- A setting, as `termios` and `termios2` hold it. -/
structure Termios where
  c_iflag : BitVec 32
  c_oflag : BitVec 32
  c_cflag : BitVec 32
  c_lflag : BitVec 32
  c_line : BitVec 8
  c_cc : Vector (BitVec 8) 32
  c_ispeed : BitVec 32
  c_ospeed : BitVec 32
  deriving DecidableEq

/-- Which system calls succeed. `setBaud` reads the setting a second time. -/
structure LineCalls where
  tcgetattr : Bool
  tcgets2 : Bool
  tcsets2 : Bool
  tcgets2Again : Bool
  tcsetattr : Bool

def cfsetispeed (t : Termios) (speed : BitVec 32) : Termios :=
  { t with c_cflag := setBits (clearBits t.c_cflag CBAUD) speed, c_ispeed := speed }

def cfsetospeed (t : Termios) (speed : BitVec 32) : Termios :=
  { t with c_cflag := setBits (clearBits t.c_cflag CBAUD) speed, c_ospeed := speed }

namespace SPUtil

def rate2Constant (baudrate : ℤ) : BitVec 32 :=
  match standardRates.find? fun rate => rate.1 = baudrate with
  | some rate => rate.2
  | none => 0

/-- The code returned, the setting of the line, and the options. -/
structure BaudResult where
  ret : ℤ
  device : Termios
  option : Termios

/-- A rate without a constant goes to the line at once and leaves the options alone. -/
def setBaud (calls : LineCalls) (device : Termios) (baud : ℤ) (option : Termios) : BaudResult :=
  let baudRateConstant := rate2Constant baud
  if baudRateConstant ≠ 0 then
    ⟨0,device,cfsetospeed (cfsetispeed option baudRateConstant) baudRateConstant⟩
  else if calls.tcgets2 then
    let tio2 := { device with
      c_cflag := setBits (clearBits device.c_cflag CBAUD) BOTHER
      c_ispeed := BitVec.ofInt 32 baud
      c_ospeed := BitVec.ofInt 32 baud }
    if calls.tcsets2 = false then ⟨-1,device,option⟩
    else if calls.tcgets2Again = false then ⟨-1,tio2,option⟩
    else ⟨0,tio2,option⟩
  else ⟨-2,device,option⟩

/-- `INPCK` and `ISTRIP` are flags of `c_iflag`, but go to `c_cflag` here. -/
def setParity (parity : SP_Parity) (options : Termios) : ℤ × Termios :=
  match parity with
  | .SPP_None =>
    let c_cflag := clearBits options.c_cflag PARENB
    let c_cflag := clearBits c_cflag INPCK
    (0,{ options with c_cflag := c_cflag })
  | .SPP_Odd =>
    let c_cflag := setBits options.c_cflag PARENB
    let c_cflag := setBits c_cflag PARODD
    let c_cflag := setBits c_cflag INPCK
    let c_cflag := setBits c_cflag ISTRIP
    (0,{ options with c_cflag := c_cflag })
  | .SPP_Even =>
    let c_cflag := setBits options.c_cflag PARENB
    let c_cflag := clearBits c_cflag PARODD
    let c_cflag := setBits c_cflag INPCK
    let c_cflag := setBits c_cflag ISTRIP
    (0,{ options with c_cflag := c_cflag })
  | .SPP_Space =>
    let c_cflag := clearBits options.c_cflag PARENB
    let c_cflag := clearBits c_cflag CSTOPB
    (0,{ options with c_cflag := c_cflag })
  | .SPP_Mark | .unknown _ => (-1,options)

/-- Every known size clears the field first. -/
def setSize (options : Termios) (size : BitVec 32) : Termios :=
  { options with c_cflag := setBits (clearBits options.c_cflag CSIZE) size }

def setDataBit (dataBits : SP_DataBits) (options : Termios) : ℤ × Termios :=
  match dataBits with
  | .SPDB_5 => (0,setSize options CS5)
  | .SPDB_6 => (0,setSize options CS6)
  | .SPDB_7 => (0,setSize options CS7)
  | .SPDB_8 => (0,setSize options CS8)
  | .unknown _ => (-1,options)

def setStopbit (stopbits : SP_StopBits) (options : Termios) : ℤ × Termios :=
  match stopbits with
  | .SPSB_One => (0,{ options with c_cflag := clearBits options.c_cflag CSTOPB })
  | .SPSB_Two => (0,{ options with c_cflag := setBits options.c_cflag CSTOPB })
  | .SPSB_OneAndHalf | .unknown _ => (-1,options)

/-- The software flags are flags of `c_iflag`, but go to `c_cflag` here. -/
def setFlowCtrl (fc : SP_FlowControl) (options : Termios) : ℤ × Termios :=
  match fc with
  | .SPFC_None => (0,{ options with c_cflag := clearBits options.c_cflag CRTSCTS })
  | .SPFC_Hardware => (0,{ options with c_cflag := setBits options.c_cflag CRTSCTS })
  | .SPFC_Software =>
    (0,{ options with c_cflag := setBits options.c_cflag (IXON ||| IXOFF ||| IXANY) })
  | .unknown _ => (-1,options)

def setCtrolMode (option : Termios) : Termios :=
  { option with c_cflag := setBits (setBits option.c_cflag CLOCAL) CREAD }

def setOutputMode (option : Termios) : Termios :=
  { option with c_oflag := clearBits option.c_oflag OPOST }

def setInputMode (option : Termios) : Termios :=
  { option with c_iflag := clearBits option.c_iflag (BRKINT ||| ICRNL ||| INPCK ||| ISTRIP ||| IXON) }

def setLocalMode (option : Termios) : Termios :=
  { option with c_lflag := clearBits option.c_lflag (ICANON ||| ECHO ||| ECHOE ||| ISIG) }

def setWaitTime (option : Termios) (time : ℤ) : Termios :=
  { option with c_cc := option.c_cc.set VTIME (BitVec.ofInt 8 time) }

def setAtLeastRead (option : Termios) (read_min_len : ℤ) : Termios :=
  { option with c_cc := option.c_cc.set VMIN (BitVec.ofInt 8 read_min_len) }

/-- The code and the setting of the line afterwards. -/
def activeOption (calls : LineCalls) (device option : Termios) : ℤ × Termios :=
  if calls.tcsetattr then (0,option) else (-1,device)

end SPUtil

/-- The code returned and the setting in force. The rate is passed on as an `int`. -/
def initSPProperty (calls : LineCalls) (sp_init_ : SPInit) (device : Termios) : ℤ × Termios :=
  if calls.tcgetattr = false then (-1,device)
  else
    let baud := SPUtil.setBaud calls device (BitVec.ofNat 32 sp_init_.baud_).toInt device
    if 0 ≠ baud.ret then (1,baud.device)
    else
      let parity := SPUtil.setParity sp_init_.parity_ baud.option
      if 0 ≠ parity.1 then (2,baud.device)
      else
        let dataBit := SPUtil.setDataBit sp_init_.data_bits_ parity.2
        if 0 ≠ dataBit.1 then (3,baud.device)
        else
          let stopbit := SPUtil.setStopbit sp_init_.stop_bits_ dataBit.2
          if 0 ≠ stopbit.1 then (5,baud.device)
          else
            let flowCtrl := SPUtil.setFlowCtrl sp_init_.flow_ctrl_ stopbit.2
            if 0 ≠ flowCtrl.1 then (6,baud.device)
            else
              let options := SPUtil.setCtrolMode flowCtrl.2
              let options := SPUtil.setOutputMode options
              let options := SPUtil.setInputMode options
              let options := SPUtil.setLocalMode options
              let options := SPUtil.setWaitTime options 0
              let options := SPUtil.setAtLeastRead options 1
              let active := SPUtil.activeOption calls baud.device options
              if 0 ≠ active.1 then (7,active.2) else (0,active.2)

end OctCommu.SerialPort
