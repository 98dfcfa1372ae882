import OctCommu.Communcation.ReceiveChunks

/-! # The UDP link `UDPImp`

The answers of the operating system are an input of `init`. The thread pool and
the objects behind `setOnRead` are left out; `_enable_recv` is that of the socket.
-/
namespace OctCommu.Communcation
open Memory Util Network.SockUtil

inductive CAST_TYPE where
  | CT_UNI
  | CT_MULTI
  | CT_BROAD
  | other (value : ℤ)
  deriving DecidableEq

structure UDPInit where
  cast_type_ : CAST_TYPE
  local_ip_ : Text
  target_ip_ : Text
  target_port_ : UInt16
  is_to_recv_ : Bool
  is_detach_recv_ : Bool

/-- The structure in `m_sockAddress` that `m_pSendAddr` points to. -/
inductive SendAddr where
  | nullptr
  | ipv4_
  | ipv6_
  deriving DecidableEq

/-- `m_pUDP` and `m_recvDataFunc` say whether they are set, `_sock_fd` whether a socket is open. -/
structure UDPImp where
  m_udpIntParam : UDPInit
  m_hasInited : Bool
  m_pUDP : Bool
  _sock_fd : Bool
  _enable_recv : Bool
  ipv4_ : ℕ → UInt8
  ipv6_ : ℕ → UInt8
  m_pSendAddr : SendAddr
  m_sockAddrLen : ℕ
  m_isIPV6 : Bool
  m_errorMsg : String
  m_recvDataFunc : Bool
  block_queue_recv_buf_ : BlockingQueue RecvBuffer 128

/-- What the calls below `init` answer: a socket or -1 from `bindUdpSock`, 0 or an error from the
options, and whether `epoll_ctl` accepts the socket. `isCurrentThread` tells whether `init` runs on
the poller thread. -/
structure OsAnswers where
  bindUdpSock : ℤ
  setBroadcast : ℤ
  setMultiTTL : ℤ
  setMultiIF : ℤ
  setMultiLOOP : ℤ
  joinMultiAddr : ℤ
  isCurrentThread : Bool
  epoll_ctl : ℤ

/-- `str.find(c)` cast to `int`. -/
def findInt (str : Text) (c : UInt8) : ℤ :=
  match str.findIdx? (· = c) with
  | some i => toInt32 i
  | none => -1

namespace UDPImp

/-- A link as its constructor leaves it. -/
def fresh : UDPImp where
  m_udpIntParam := ⟨.CT_UNI,[],[],10086,false,false⟩
  m_hasInited := false
  m_pUDP := true
  _sock_fd := false
  _enable_recv := true
  ipv4_ := fun _ => 0
  ipv6_ := fun _ => 0
  m_pSendAddr := .nullptr
  m_sockAddrLen := 0
  m_isIPV6 := false
  m_errorMsg := ""
  m_recvDataFunc := false
  block_queue_recv_buf_ := .fresh

def setErrorMsg (u : UDPImp) (str : String) : UDPImp := { u with m_errorMsg := str }

def shutdown (u : UDPImp) : UDPImp :=
  { u with
    _enable_recv := if u.m_pUDP then false else u._enable_recv
    _sock_fd := if u.m_pUDP then false else u._sock_fd
    m_hasInited := false }

/-- A colon in the target's text makes it IPv6. The result of `to_sockaddr_in` is not looked at. -/
def toSockAddress (inet_pton6 : Text → Option (Vector UInt8 16)) (u : UDPImp) : UDPImp × ℤ :=
  let p := u.m_udpIntParam
  if 0 ≤ findInt p.target_ip_ 58 then
    let r := to_sockaddr_in6 inet_pton6 p.target_ip_ p.target_port_.toNat u.ipv6_
    let t := { u with
      m_isIPV6 := true
      m_sockAddrLen := 28
      ipv6_ := r.1
      m_pSendAddr := .ipv6_ }
    (if r.2 ≠ 0 then t.setErrorMsg "the target_ip_ is false" else t,r.2)
  else
    let r := to_sockaddr_in p.target_ip_ p.target_port_.toNat u.ipv4_
    ({ u with
      m_isIPV6 := false
      m_sockAddrLen := 16
      ipv4_ := r.1
      m_pSendAddr := .ipv4_ },0)

def newUdpSockWithBinding (u : UDPImp) (os : OsAnswers) : UDPImp × Bool :=
  if os.bindUdpSock = -1 then ({ u with _sock_fd := false },false)
  else ({ u with _sock_fd := true },true)

def bindSock (u : UDPImp) (os : OsAnswers) : UDPImp × ℤ :=
  let r := u.newUdpSockWithBinding os
  if r.2 = false then
    (r.1.setErrorMsg "Failed to bind udp, please check the local Ip and targetPort",2)
  else (r.1,0)

def setBroadcast (u : UDPImp) (os : OsAnswers) : ℤ := if u._sock_fd then os.setBroadcast else 1

/-- The result of the outgoing interface is read and then forgotten. -/
def setMultiProperties (u : UDPImp) (os : OsAnswers) : ℤ :=
  if u._sock_fd then
    if os.setMultiTTL ≠ 0 then os.setMultiTTL else os.setMultiLOOP
  else 1

def joinMultiAddr (u : UDPImp) (os : OsAnswers) : ℤ := if u._sock_fd then os.joinMultiAddr else 1

def initCast (u : UDPImp) (os : OsAnswers) : UDPImp × ℤ :=
  match u.m_udpIntParam.cast_type_ with
  | .CT_BROAD => (u,u.setBroadcast os)
  | .CT_MULTI =>
    if u.setMultiProperties os ≠ 0 then
      (u.setErrorMsg "faild to setMultiProperties, please check the local ip and target ip",
        u.setMultiProperties os)
    else if u.joinMultiAddr os ≠ 0 then
      (u.setErrorMsg "faild to joinMultiAddr, please check the local ip and target ip",
        u.joinMultiAddr os)
    else (u,0)
  | .CT_UNI => (u,0)
  | .other _ => (u.setErrorMsg "Error, [UDPInitParams.m_castType] is false, please check",-101)

/-- `EventPoller::addEvent`: from another thread the call is queued and answered with 0. -/
def addEvent (os : OsAnswers) : ℤ := if os.isCurrentThread then os.epoll_ctl else 0

def setAttach (u : UDPImp) (os : OsAnswers) : UDPImp × ℤ :=
  ({ u with _enable_recv := true },if addEvent os = -1 then 1 else 0)

def setOnReadDataFunc (u : UDPImp) : UDPImp := { u with _enable_recv := true }

def initSocket (inet_pton6 : Text → Option (Vector UInt8 16)) (u : UDPImp) (os : OsAnswers) :
    UDPImp × ℤ :=
  let s := (toSockAddress inet_pton6 u.shutdown).1
  let b := s.bindSock os
  if b.2 ≠ 0 then (b.1,1)
  else
    let c := b.1.initCast os
    if c.2 ≠ 0 then (c.1,3)
    else
      let a := if c.1.m_pUDP then c.1.setAttach os else (c.1,0)
      if a.2 ≠ 0 then (a.1,5)
      else
        let r := if a.1.m_udpIntParam.is_to_recv_ then a.1.setOnReadDataFunc else a.1
        ({ r with m_hasInited := true },0)

def init (inet_pton6 : Text → Option (Vector UInt8 16)) (u : UDPImp) (param : UDPInit)
    (os : OsAnswers) : UDPImp × ℤ :=
  if u.m_pUDP then initSocket inet_pton6 { u with m_udpIntParam := param } os
  else (u.setErrorMsg "Failed to initialze, it cannot create socket(system error)",-1)

/-- What a send to `m_pSendAddr` reads. -/
def sendAddr (u : UDPImp) : Option (ℕ → UInt8) :=
  match u.m_pSendAddr with
  | .nullptr => none
  | .ipv4_ => some u.ipv4_
  | .ipv6_ => some u.ipv6_

section
variable (inet_ntop6 : List UInt8 → Text)

/-- The copy of a datagram with its sender, as `OnReadDataFunc` makes it. -/
def recvBuf (u : UDPImp) (pdata : List UInt8) (addr : ℕ → UInt8) : RecvBuffer :=
  RecvBuffer.fill inet_ntop6 pdata addr u.m_isIPV6

def OnReadDataFunc (u : UDPImp) (pdata : List UInt8) (addr : ℕ → UInt8) :
    UDPImp × List RecvEffect :=
  if u.m_recvDataFunc then
    let fb := recvBuf inet_ntop6 u pdata addr
    if u.m_udpIntParam.is_detach_recv_ then
      ({ u with block_queue_recv_buf_ := u.block_queue_recv_buf_.put fb },[.async])
    else (u,[.called (fb.call fb.buf.length)])
  else (u,[])

end

/-- The source tests the distance from `rb` to a `cur_` that points into the buffer `rb` was copied
from. The length that stands for it here is likewise nonzero for every datagram, and zero for the
buffer that `take` makes in place when the queue is empty. -/
def recvWorkerThread (u : UDPImp) : UDPImp × List RecvEffect :=
  let r := u.block_queue_recv_buf_.take
  let t := { u with block_queue_recv_buf_ := r.2 }
  if r.1.buf.length = 0 then (t,[])
  else if t.m_recvDataFunc then (t,[.called (r.1.call r.1.buf.currentLen)])
  else (t,[])

end UDPImp
end OctCommu.Communcation
