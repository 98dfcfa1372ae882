import OctCommu.Communcation.UDPImp

/-! # What a successful `init` of a UDP link means

The target must be encoded in `m_pSendAddr`, and every call to the operating
system must have succeeded. `init` looks at some of the answers only.
-/
namespace OctCommu.Communcation
open Memory Network.SockUtil
variable {inet_pton6 : Text → Option (Vector UInt8 16)}

/-- The text is the printable form of an IPv4 endpoint, or one the C library reads as IPv6. -/
def Denotes (inet_pton6 : Text → Option (Vector UInt8 16)) (ip : Text) : Endpoint → Prop
  | .v4 addr _ => c_str ip = inet_ntoa addr.toList
  | .v6 addr _ => inet_pton6 (c_str ip) = some addr

def sockLen : Endpoint → ℕ
  | .v4 .. => 16
  | .v6 .. => 28

/-- Sends go to exactly this address, in its family. -/
def UDPImp.Encodes (inet_pton6 : Text → Option (Vector UInt8 16)) (u : UDPImp) (ip : Text)
    (port : UInt16) : Prop :=
  ∃ (e : Endpoint) (m : ℕ → UInt8), Denotes inet_pton6 ip e ∧ e.port = port ∧
    u.sendAddr = some m ∧ e.StoredIn m ∧ u.m_sockAddrLen = sockLen e

namespace OsAnswers

/-- Every step of this cast type succeeded. -/
def CastDone (os : OsAnswers) : CAST_TYPE → Prop
  | .CT_UNI => True
  | .CT_BROAD => os.setBroadcast = 0
  | .CT_MULTI => os.setMultiTTL = 0 ∧ os.setMultiIF = 0 ∧ os.setMultiLOOP = 0 ∧ os.joinMultiAddr = 0
  | .other _ => False

structure AllDone (os : OsAnswers) (cast_type_ : CAST_TYPE) : Prop where
  bind : os.bindUdpSock ≠ -1
  cast : os.CastDone cast_type_
  attach : os.epoll_ctl ≠ -1

/-- What `init` sees of the steps of a cast type. -/
def CastSeen (os : OsAnswers) : CAST_TYPE → Prop
  | .CT_UNI => True
  | .CT_BROAD => os.setBroadcast = 0
  | .CT_MULTI => os.setMultiTTL = 0 ∧ os.setMultiLOOP = 0 ∧ os.joinMultiAddr = 0
  | .other _ => False

theorem castDone_iff {os : OsAnswers} {cast_type_ : CAST_TYPE} : os.CastDone cast_type_ ↔
    os.CastSeen cast_type_ ∧ (cast_type_ = .CT_MULTI → os.setMultiIF = 0) := by
  cases cast_type_ with
  | CT_UNI => simp [CastDone, CastSeen]
  | CT_BROAD => simp [CastDone, CastSeen]
  | CT_MULTI =>
    simp only [CastDone, CastSeen, forall_const]
    constructor
    · rintro ⟨ht,hi,hl,hj⟩
      exact ⟨⟨ht,hl,hj⟩,hi⟩
    · rintro ⟨⟨ht,hl,hj⟩,hi⟩
      exact ⟨ht,hi,hl,hj⟩
  | other value => simp [CastDone, CastSeen]

end OsAnswers

/-- The parser chosen for the target accepts it. -/
def UDPInit.TargetParses (inet_pton6 : Text → Option (Vector UInt8 16)) (p : UDPInit) : Prop :=
  if 0 ≤ findInt p.target_ip_ 58 then (inet_pton6 (c_str p.target_ip_)).isSome
  else (inet_pton4 p.target_ip_).isSome

namespace UDPImp

/-- What the later steps of `initSocket` leave alone. -/
structure SameTarget (u t : UDPImp) : Prop where
  addr : t.sendAddr = u.sendAddr
  len : t.m_sockAddrLen = u.m_sockAddrLen
  param : t.m_udpIntParam = u.m_udpIntParam
  pUDP : t.m_pUDP = u.m_pUDP

theorem SameTarget.trans {u t r : UDPImp} (h : SameTarget u t) (h' : SameTarget t r) :
    SameTarget u r :=
  ⟨h'.addr.trans h.addr,h'.len.trans h.len,h'.param.trans h.param,h'.pUDP.trans h.pUDP⟩

theorem SameTarget.encodes {u t : UDPImp} (h : SameTarget u t) {ip : Text} {port : UInt16} :
    t.Encodes inet_pton6 ip port ↔ u.Encodes inet_pton6 ip port := by
  simp only [Encodes, h.addr, h.len]

theorem toSockAddress_v6 {u : UDPImp} (h : 0 ≤ findInt u.m_udpIntParam.target_ip_ 58) :
    (toSockAddress inet_pton6 u).1.sendAddr = some (to_sockaddr_in6 inet_pton6
        u.m_udpIntParam.target_ip_ u.m_udpIntParam.target_port_.toNat u.ipv6_).1 ∧
      (toSockAddress inet_pton6 u).1.m_sockAddrLen = 28 := by
  unfold toSockAddress
  dsimp only
  rw [if_pos h]
  dsimp only
  split
  · exact ⟨rfl,rfl⟩
  · exact ⟨rfl,rfl⟩

theorem toSockAddress_v4 {u : UDPImp} (h : ¬ 0 ≤ findInt u.m_udpIntParam.target_ip_ 58) :
    (toSockAddress inet_pton6 u).1.sendAddr = some (to_sockaddr_in
        u.m_udpIntParam.target_ip_ u.m_udpIntParam.target_port_.toNat u.ipv4_).1 ∧
      (toSockAddress inet_pton6 u).1.m_sockAddrLen = 16 := by
  unfold toSockAddress
  dsimp only
  rw [if_neg h]
  exact ⟨rfl,rfl⟩

theorem toSockAddress_param (u : UDPImp) :
    (toSockAddress inet_pton6 u).1.m_udpIntParam = u.m_udpIntParam ∧
      (toSockAddress inet_pton6 u).1.m_pUDP = u.m_pUDP := by
  unfold toSockAddress
  dsimp only
  split
  · dsimp only
    split
    · exact ⟨rfl,rfl⟩
    · exact ⟨rfl,rfl⟩
  · exact ⟨rfl,rfl⟩

/-- A text that does not parse leaves the address zero, which it does not denote. -/
theorem toSockAddress_encodes (u : UDPImp) :
    (toSockAddress inet_pton6 u).1.Encodes inet_pton6 u.m_udpIntParam.target_ip_
      u.m_udpIntParam.target_port_ ↔ u.m_udpIntParam.TargetParses inet_pton6 := by
  unfold UDPInit.TargetParses
  by_cases hfind : 0 ≤ findInt u.m_udpIntParam.target_ip_ 58
  · obtain ⟨haddr,hlen⟩ := @toSockAddress_v6 inet_pton6 u hfind
    rw [if_pos hfind, Option.isSome_iff_exists]
    constructor
    · rintro ⟨e,m,hd,_,_,_,hl⟩
      cases e with
      | v4 addr port =>
        rw [hlen] at hl
        simp [sockLen] at hl
      | v6 addr port => exact ⟨addr,hd⟩
    · rintro ⟨addr,ha⟩
      rw [to_sockaddr_in6_of_some _ ha] at haddr
      exact ⟨.v6 addr _,_,ha,rfl,haddr,storedIn_memcpy_v6 ..,hlen⟩
  · obtain ⟨haddr,hlen⟩ := @toSockAddress_v4 inet_pton6 u hfind
    rw [if_neg hfind, Option.isSome_iff_exists]
    constructor
    · rintro ⟨e,m,hd,_,_,_,hl⟩
      cases e with
      | v4 addr port => exact ⟨addr.toList,inet_pton4_eq_some.mpr ⟨by simp,hd⟩⟩
      | v6 addr port =>
        rw [hlen] at hl
        simp [sockLen] at hl
    · rintro ⟨addr,ha⟩
      obtain ⟨hl,htext⟩ := inet_pton4_eq_some.mp ha
      rw [to_sockaddr_in_of_some ha] at haddr
      have hv : (⟨addr.toArray,by simpa using hl⟩ : Vector UInt8 4).toList = addr := rfl
      refine ⟨.v4 ⟨addr.toArray,by simpa using hl⟩ _,_,?_,rfl,haddr,?_,hlen⟩
      · exact htext
      · exact storedIn_memcpy_v4 _ 16 ⟨addr.toArray,by simpa using hl⟩ _

/-- A bind that returns 0 leaves an open socket. -/
theorem bindSock_zero {u : UDPImp} {os : OsAnswers} (h : (u.bindSock os).2 = 0) :
    os.bindUdpSock ≠ -1 ∧ (u.bindSock os).1._sock_fd = true ∧ SameTarget u (u.bindSock os).1 := by
  by_cases hb : os.bindUdpSock = -1
  · simp [bindSock, newUdpSockWithBinding, hb] at h
  · have he : u.bindSock os = ({ u with _sock_fd := true },0) := by
      simp [bindSock, newUdpSockWithBinding, hb]
    rw [he]
    exact ⟨hb,rfl,rfl,rfl,rfl,rfl⟩

theorem initCast_zero {u : UDPImp} {os : OsAnswers} (hs : u._sock_fd = true)
    (h : (u.initCast os).2 = 0) :
    os.CastSeen u.m_udpIntParam.cast_type_ ∧ SameTarget u (u.initCast os).1 := by
  unfold initCast at h ⊢
  split at h <;> rename_i hc <;> rw [hc]
  · simp only [setBroadcast, hs, if_true] at h
    exact ⟨h,rfl,rfl,rfl,rfl⟩
  · simp only [setMultiProperties, joinMultiAddr, hs, if_true] at h ⊢
    by_cases ht : os.setMultiTTL = 0
    · by_cases hl : os.setMultiLOOP = 0
      · by_cases hj : os.joinMultiAddr = 0
        · simp only [ht, hl, hj, ne_eq, not_true_eq_false, if_false]
          exact ⟨⟨ht,hl,hj⟩,rfl,rfl,rfl,rfl⟩
        · simp [ht, hl, hj] at h
      · simp [ht, hl] at h
    · simp [ht] at h
  · exact ⟨trivial,rfl,rfl,rfl,rfl⟩
  · simp at h

theorem bindSock_eq (u : UDPImp) (os : OsAnswers) : ∃ msg, (u.bindSock os).1 =
    { u with _sock_fd := decide (os.bindUdpSock ≠ -1), m_errorMsg := msg } := by
  by_cases hbind : os.bindUdpSock = -1
  · exact ⟨_,by simp [bindSock, newUdpSockWithBinding, hbind, setErrorMsg]; rfl⟩
  · exact ⟨u.m_errorMsg,by simp [bindSock, newUdpSockWithBinding, hbind]⟩

/-- Nothing but the text of an error changes in `initCast`. -/
theorem initCast_eq (u : UDPImp) (os : OsAnswers) :
    ∃ msg, (u.initCast os).1 = { u with m_errorMsg := msg } := by
  unfold initCast
  split
  · exact ⟨_,rfl⟩
  · split
    · exact ⟨_,rfl⟩
    · split
      · exact ⟨_,rfl⟩
      · exact ⟨_,rfl⟩
  · exact ⟨_,rfl⟩
  · exact ⟨_,rfl⟩

/-- What has happened when `initSocket` returns 0. -/
theorem initSocket_zero {u : UDPImp} {os : OsAnswers} (hu : u.m_pUDP = true)
    (h : (initSocket inet_pton6 u os).2 = 0) :
    os.bindUdpSock ≠ -1 ∧ os.CastSeen u.m_udpIntParam.cast_type_ ∧ addEvent os ≠ -1 ∧
      SameTarget (toSockAddress inet_pton6 u.shutdown).1 (initSocket inet_pton6 u os).1 ∧
      (initSocket inet_pton6 u os).1._sock_fd = true ∧
      (initSocket inet_pton6 u os).1._enable_recv = true := by
  have hparam : (toSockAddress inet_pton6 u.shutdown).1.m_udpIntParam = u.m_udpIntParam ∧
      (toSockAddress inet_pton6 u.shutdown).1.m_pUDP = true := by
    rw [← hu]
    exact toSockAddress_param u.shutdown
  unfold initSocket at h ⊢
  generalize (toSockAddress inet_pton6 u.shutdown).1 = s at h hparam ⊢
  by_cases hb : (s.bindSock os).2 = 0
  · obtain ⟨hbind,hopen,hsame⟩ := bindSock_zero hb
    simp only [hb, ne_eq, not_true_eq_false, if_false] at h ⊢
    by_cases hc : ((s.bindSock os).1.initCast os).2 = 0
    · obtain ⟨hcast,hsame'⟩ := initCast_zero hopen hc
      have hst := hsame.trans hsame'
      have hpudp := hst.pUDP.trans hparam.2
      rw [hsame.param, hparam.1] at hcast
      simp only [hc, if_pos hpudp, not_true_eq_false, if_false] at h ⊢
      by_cases ha : addEvent os = -1
      · simp [setAttach, ha] at h
      · have hfd : ((s.bindSock os).1.initCast os).1._sock_fd = true := by
          obtain ⟨_,hcast⟩ := (s.bindSock os).1.initCast_eq os
          rw [hcast]
          exact hopen
        refine ⟨hbind,hcast,ha,?_⟩
        simp only [setAttach, ha, if_false, not_true_eq_false]
        split
        · exact ⟨hst.trans ⟨rfl,rfl,rfl,rfl⟩,hfd,rfl⟩
        · exact ⟨hst.trans ⟨rfl,rfl,rfl,rfl⟩,hfd,rfl⟩
    · simp [hc] at h
  · simp [hb] at h

theorem init_zero {u : UDPImp} {p : UDPInit} {os : OsAnswers} (h : (init inet_pton6 u p os).2 = 0) :
    os.bindUdpSock ≠ -1 ∧ os.CastSeen p.cast_type_ ∧ addEvent os ≠ -1 ∧
      ((init inet_pton6 u p os).1.Encodes inet_pton6 p.target_ip_ p.target_port_ ↔
        p.TargetParses inet_pton6) := by
  unfold init at h ⊢
  split at h
  · rename_i hu
    have hu' : ({ u with m_udpIntParam := p } : UDPImp).m_pUDP = true := hu
    obtain ⟨hbind,hcast,ha,hsame,_⟩ := initSocket_zero hu' h
    refine ⟨hbind,hcast,ha,?_⟩
    rw [if_pos hu, hsame.encodes]
    exact toSockAddress_encodes _
  · simp at h

/-- A successful `init` is right just when the target's text parses, the outgoing interface of a
multicast link was accepted, and an attach from another thread succeeds later. -/
theorem init_sound_iff (u : UDPImp) (p : UDPInit) (os : OsAnswers)
    (h : (init inet_pton6 u p os).2 = 0) :
    (init inet_pton6 u p os).1.Encodes inet_pton6 p.target_ip_ p.target_port_ ∧
        os.AllDone p.cast_type_ ↔
      p.TargetParses inet_pton6 ∧ (p.cast_type_ = .CT_MULTI → os.setMultiIF = 0) ∧
        (os.isCurrentThread = false → os.epoll_ctl ≠ -1) := by
  obtain ⟨hbind,hcast,ha,henc⟩ := init_zero h
  have hattach : os.epoll_ctl ≠ -1 ↔ (os.isCurrentThread = false → os.epoll_ctl ≠ -1) := by
    unfold addEvent at ha
    cases hthread : os.isCurrentThread with
    | true =>
      rw [hthread, if_pos rfl] at ha
      simpa using ha
    | false => simp
  constructor
  · rintro ⟨hp,hall⟩
    exact ⟨henc.mp hp,(OsAnswers.castDone_iff.mp hall.cast).2,fun _ => hall.attach⟩
  · rintro ⟨hp,hif,hat⟩
    exact ⟨henc.mpr hp,hbind,OsAnswers.castDone_iff.mpr ⟨hcast,hif⟩,hattach.mpr hat⟩

/-- Every call succeeds, and `init` runs on an application thread. -/
def allAnswered : OsAnswers := ⟨3,0,0,0,0,0,false,0⟩

/-- A multicast link to 239.0.0.1, started with every call succeeding. -/
theorem init_sound_iff_multicast :
    (init (fun _ => none) fresh
        ⟨.CT_MULTI,[],[50,51,57,46,48,46,48,46,49],5000,true,false⟩ allAnswered).1.Encodes
          (fun _ => none) [50,51,57,46,48,46,48,46,49] 5000 ∧
        allAnswered.AllDone .CT_MULTI ↔
      UDPInit.TargetParses (fun _ => none)
          ⟨.CT_MULTI,[],[50,51,57,46,48,46,48,46,49],5000,true,false⟩ ∧
        (CAST_TYPE.CT_MULTI = .CT_MULTI → allAnswered.setMultiIF = 0) ∧
        (allAnswered.isCurrentThread = false → allAnswered.epoll_ctl ≠ -1) :=
  init_sound_iff fresh ⟨.CT_MULTI,[],[50,51,57,46,48,46,48,46,49],5000,true,false⟩ allAnswered
    (by decide)

/-- A host name as target: `init` returns 0, and sends go to 0.0.0.0. -/
theorem init_accepts_host_name :
    (init (fun _ => none) fresh
        ⟨.CT_UNI,[],[108,111,99,97,108,104,111,115,116],5000,true,false⟩ allAnswered).2 = 0 ∧
      ¬ (init (fun _ => none) fresh
        ⟨.CT_UNI,[],[108,111,99,97,108,104,111,115,116],5000,true,false⟩ allAnswered).1.Encodes
          (fun _ => none) [108,111,99,97,108,104,111,115,116] 5000 := by
  have h : (init (fun _ => none) fresh
      ⟨.CT_UNI,[],[108,111,99,97,108,104,111,115,116],5000,true,false⟩ allAnswered).2 = 0 := by decide
  refine ⟨h,?_⟩
  obtain ⟨_,_,_,henc⟩ := init_zero h
  rw [henc]
  unfold UDPInit.TargetParses
  decide

end UDPImp
end OctCommu.Communcation
