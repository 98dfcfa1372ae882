import OctCommu.Communcation.UDPImp

/-! # The sender a UDP link reports

`UDPImp` passes its own `m_isIPV6`, which is that of the target, to
`get_ip_port_from_addr`, whose branches are the wrong way round.
-/
namespace OctCommu.Communcation
open Memory Util Network.SockUtil
variable {inet_ntop6 : List UInt8 → Text}

/-- The record names the sender: its printable form, its port and its family. -/
structure ReportsSender (inet_ntop6 : List UInt8 → Text) (e : Endpoint) (fb : RecvBuffer) : Prop where
  ip_eq : fb.target_ip_ = e.ip inet_ntop6
  port_eq : fb.target_port_ = e.port.toNat
  family_eq : fb.family_ = e.family

/-- `get_ip_port_from_addr` stays in its local array. -/
def InsideText (inet_ntop6 : List UInt8 → Text) (paddr : ℕ → UInt8) (isIPV6 : Bool) : Prop :=
  ∀ i ∈ (get_ip_port_from_addr inet_ntop6 paddr isIPV6).written, i < INET6_ADDRSTRLEN

/-- The IPv6 branch writes one byte behind its array, whatever the address. -/
theorem not_insideText_false (paddr : ℕ → UInt8) : ¬ InsideText inet_ntop6 paddr false := by
  intro h
  have hm : INET6_ADDRSTRLEN ∈ (get_ip_port_from_addr inet_ntop6 paddr false).written := by
    simp [get_ip_port_from_addr]
  exact absurd (h _ hm) (Nat.lt_irrefl _)

theorem insideText_true (paddr : ℕ → UInt8) : InsideText inet_ntop6 paddr true := by
  simp [InsideText, get_ip_port_from_addr]

/-- The port is reported with its bytes exchanged, in both branches. -/
theorem out_port_eq {m : ℕ → UInt8} {e : Endpoint} (h : e.StoredIn m) (isIPV6 : Bool) :
    (get_ip_port_from_addr inet_ntop6 m isIPV6).out_port =
      e.port.toNat / 256 + 256 * (e.port.toNat % 256) := by
  rw [← h.port_eq]
  cases isIPV6 with
  | true => rfl
  | false => rfl

/-- The family is reported right, in both branches. -/
theorem out_family_eq {m : ℕ → UInt8} {e : Endpoint} (h : e.StoredIn m) (isIPV6 : Bool) :
    (get_ip_port_from_addr inet_ntop6 m isIPV6).out_family = e.family := by
  rw [← h.family_eq]
  cases isIPV6 with
  | true => rfl
  | false => rfl

theorem out_ip_v4 {m : ℕ → UInt8} {addr : Vector UInt8 4} {port : UInt16}
    (h : (Endpoint.v4 addr port).StoredIn m) :
    (get_ip_port_from_addr inet_ntop6 m true).out_ip = inet_ntoa addr.toList :=
  congrArg inet_ntoa h.2.2

theorem exchanged_eq_iff (port : UInt16) :
    port.toNat / 256 + 256 * (port.toNat % 256) = port.toNat ↔
      port.toNat / 256 = port.toNat % 256 := by
  have := port.toNat_lt
  omega

namespace UDPImp

/-- The sender is reported right just when the link's target is IPv6, the sender is IPv4 and the two
bytes of its port are equal. -/
theorem reportsSender_iff (hcolon : ∀ a : Vector UInt8 16, 58 ∈ inet_ntop6 a.toList) (u : UDPImp)
    (pdata : List UInt8) (addr : ℕ → UInt8) (e : Endpoint) (h : e.StoredIn addr) :
    ReportsSender inet_ntop6 e (recvBuf inet_ntop6 u pdata addr) ∧
        InsideText inet_ntop6 addr u.m_isIPV6 ↔
      u.m_isIPV6 = true ∧ e.family = AF_INET ∧ e.port.toNat / 256 = e.port.toNat % 256 := by
  constructor
  · rintro ⟨hr,hin⟩
    cases hv : u.m_isIPV6 with
    | false =>
      rw [hv] at hin
      exact absurd hin (not_insideText_false addr)
    | true =>
      have hport := hr.port_eq
      have hip := hr.ip_eq
      simp only [recvBuf, RecvBuffer.fill, hv] at hport hip
      rw [out_port_eq h] at hport
      refine ⟨rfl,?_,(exchanged_eq_iff e.port).mp hport⟩
      cases e with
      | v4 a port => rfl
      | v6 a port =>
        -- a dotted text has no colon
        have hmem := hcolon a
        simp only [Endpoint.ip] at hip
        rw [← hip] at hmem
        exact absurd hmem (colon_not_mem_inet_ntoa _)
  · rintro ⟨hv,hfam,hport⟩
    rw [hv]
    refine ⟨?_,insideText_true addr⟩
    constructor
    · simp only [recvBuf, RecvBuffer.fill, hv]
      cases e with
      | v4 a port => exact out_ip_v4 h
      | v6 a port => exact absurd hfam (by simp [Endpoint.family, AF_INET, AF_INET6])
    · simp only [recvBuf, RecvBuffer.fill, hv]
      rw [out_port_eq h]
      exact (exchanged_eq_iff e.port).mpr hport
    · simp only [recvBuf, RecvBuffer.fill]
      exact out_family_eq h u.m_isIPV6

/-- A sender 10.0.0.1 at port 257 and a link to an IPv6 target. -/
theorem reportsSender_iff_symmetric_port :
    ReportsSender (fun _ => [58,58]) (.v4 #v[10,0,0,1] 257)
        (recvBuf (fun _ => [58,58]) { fresh with m_isIPV6 := true } [7]
          (to_sockaddr_in (inet_ntoa #v[10,0,0,1].toList) (257 : UInt16).toNat fun _ => 0).1) ∧
        InsideText (fun _ => [58,58])
          (to_sockaddr_in (inet_ntoa #v[10,0,0,1].toList) (257 : UInt16).toNat fun _ => 0).1 true ↔
      true = true ∧ (Endpoint.v4 #v[10,0,0,1] 257).family = AF_INET ∧
        (257 : UInt16).toNat / 256 = (257 : UInt16).toNat % 256 :=
  reportsSender_iff (fun _ => by simp) { fresh with m_isIPV6 := true } [7] _
    (.v4 #v[10,0,0,1] 257) (to_sockaddr_in_ip ..)

/-- A datagram from 127.0.0.1 at port 5000 to a link with an IPv4 target: the text is 46 bytes long,
and a 47th was written. -/
theorem not_reportsSender_loopback :
    ¬ ReportsSender (fun _ => [58,58]) (.v4 #v[127,0,0,1] 5000)
        (recvBuf (fun _ => [58,58]) fresh [7]
          (to_sockaddr_in (inet_ntoa [127,0,0,1]) 5000 fun _ => 0).1) ∧
      ¬ InsideText (fun _ => [58,58])
        (to_sockaddr_in (inet_ntoa [127,0,0,1]) 5000 fun _ => 0).1 fresh.m_isIPV6 := by
  refine ⟨?_,not_insideText_false _⟩
  intro h
  have hlen := congrArg List.length h.ip_eq
  simp only [recvBuf, RecvBuffer.fill, fresh, get_ip_port_from_addr, Bool.false_eq_true, if_false,
    segment_length] at hlen
  exact absurd hlen (by decide)

end UDPImp
end OctCommu.Communcation
