import OctCommu.Network.SockUtil
import OctCommu.Util.BlockingQueue
import OctCommu.Util.FixedBuffer

/-! # What a TCP link does with a received chunk

`Socket::onRead` hands over what one `recvfrom` returned. The links copy it into
a `RecvBuffer` and call back at once, or queue the copy for a worker task.
-/
namespace OctCommu.Communcation
open Memory Util Network.SockUtil

def MAX_RECV_BUF_LEN : ℕ := 262144
def SOCKET_DEFAULT_BUF_SIZE : ℕ := 262144

/-- The capacity `EventPoller::getSharedBuffer` gives the buffer that all sockets read into. -/
def sharedBufferCapacity : ℕ := 1 + SOCKET_DEFAULT_BUF_SIZE

/-- The most that `Socket::onRead` asks `recvfrom` for. -/
def onReadCapacity : ℕ := sharedBufferCapacity - 1

structure RecvBuffer where
  buf : FixedBuffer MAX_RECV_BUF_LEN
  target_ip_ : Text
  target_port_ : ℕ
  family_ : ℕ

/-- The arguments of a receive callback. -/
structure RecvCall where
  pdata : List UInt8
  ip : Text
  port : ℕ
  family : ℕ

namespace RecvBuffer

def fresh : RecvBuffer := ⟨.fresh,[],0,0⟩

instance : Inhabited RecvBuffer := ⟨fresh⟩

/-- The copy of a chunk, with the peer's address read as the flag says. -/
def fill (inet_ntop6 : List UInt8 → Text) (pdata : List UInt8) (addr : ℕ → UInt8) (flag : Bool) :
    RecvBuffer :=
  let peer := get_ip_port_from_addr inet_ntop6 addr flag
  { buf := (FixedBuffer.fresh.append pdata).setEndChar
    target_ip_ := peer.out_ip
    target_port_ := peer.out_port
    family_ := peer.out_family }

/-- `data()` and a length, with the address. -/
def call (fb : RecvBuffer) (len : ℕ) : RecvCall :=
  ⟨segment fb.buf.data_ 0 len,fb.target_ip_,fb.target_port_,fb.family_⟩

end RecvBuffer

/-- The members of `TCPCommon` that the receive path reads. -/
structure TCPCommon where
  is_to_recv_ : Bool
  is_detach_recv_ : Bool
  is_ipv4_ : Bool
  on_recv_data_func_ : Bool
  recv_blocking_queue_ : BlockingQueue RecvBuffer 128

inductive RecvEffect where
  | called (c : RecvCall)
  | bad_function_call
  /-- A run of `recvDataWorker` is queued. -/
  | async

section
variable (inet_ntop6 : List UInt8 → Text)

/-- `TCPClientImp::onRecv` does not ask whether a callback is set. -/
def onRecv (s : TCPCommon) (pdata : List UInt8) (addr : ℕ → UInt8) : TCPCommon × List RecvEffect :=
  if s.is_to_recv_ = false then (s,[])
  else
    let fb := RecvBuffer.fill inet_ntop6 pdata addr s.is_ipv4_
    if s.is_detach_recv_ then
      ({ s with recv_blocking_queue_ := s.recv_blocking_queue_.put fb },[.async])
    else if s.on_recv_data_func_ then (s,[.called (fb.call fb.buf.length)])
    else (s,[.bad_function_call])

/-- `TCPServerImp::MyonRecv` does not ask whether receiving is enabled. -/
def MyonRecv (s : TCPCommon) (pdata : List UInt8) (addr : ℕ → UInt8) : TCPCommon × List RecvEffect :=
  if s.on_recv_data_func_ then
    let fb := RecvBuffer.fill inet_ntop6 pdata addr s.is_ipv4_
    if s.is_detach_recv_ then
      ({ s with recv_blocking_queue_ := s.recv_blocking_queue_.put fb },[.async])
    else (s,[.called (fb.call fb.buf.length)])
  else (s,[])

end

theorem max_recv_buf_len_lt : MAX_RECV_BUF_LEN < sizeModulus := by decide

theorem RecvBuffer.sane_fill (inet_ntop6 : List UInt8 → Text) (pdata : List UInt8)
    (addr : ℕ → UInt8) (flag : Bool) : (fill inet_ntop6 pdata addr flag).buf.Sane :=
  (FixedBuffer.sane_fresh.append max_recv_buf_len_lt pdata).setEndChar

/-- A chunk is copied whole or not at all. -/
theorem RecvBuffer.contents_fill (inet_ntop6 : List UInt8 → Text) (pdata : List UInt8)
    (addr : ℕ → UInt8) (flag : Bool) : (fill inet_ntop6 pdata addr flag).buf.contents =
      if pdata.length < MAX_RECV_BUF_LEN then pdata else [] := by
  have h := FixedBuffer.sane_fresh.contents_append max_recv_buf_len_lt pdata
  simp only [fill, FixedBuffer.contents_setEndChar, h]
  have hlen : (FixedBuffer.fresh : FixedBuffer MAX_RECV_BUF_LEN).current_len_ = 0 := rfl
  have hcont : (FixedBuffer.fresh : FixedBuffer MAX_RECV_BUF_LEN).contents = [] := rfl
  rw [hlen, hcont, Nat.zero_add, List.nil_append]

/-- Both lengths that the links hand on are that of the contents. -/
theorem RecvBuffer.pdata_call {fb : RecvBuffer} (h : fb.buf.Sane) :
    (fb.call fb.buf.length).pdata = fb.buf.contents ∧
      (fb.call fb.buf.currentLen).pdata = fb.buf.contents := by
  refine ⟨?_,rfl⟩
  simp only [call, FixedBuffer.length, h.cur_eq, FixedBuffer.contents]

/-- One call with exactly these bytes, and nothing else. -/
def DeliversWhole (pdata : List UInt8) (effects : List RecvEffect) : Prop :=
  ∃ c : RecvCall, effects = [.called c] ∧ c.pdata = pdata

theorem deliversWhole_fill {inet_ntop6 : List UInt8 → Text} {pdata : List UInt8}
    {addr : ℕ → UInt8} {flag : Bool} (hpos : 1 ≤ pdata.length) :
    DeliversWhole pdata [.called ((RecvBuffer.fill inet_ntop6 pdata addr flag).call
      (RecvBuffer.fill inet_ntop6 pdata addr flag).buf.length)] ↔
      pdata.length < MAX_RECV_BUF_LEN := by
  have hc := (RecvBuffer.pdata_call (RecvBuffer.sane_fill inet_ntop6 pdata addr flag)).1
  rw [RecvBuffer.contents_fill] at hc
  constructor
  · rintro ⟨c,he,hp⟩
    cases he
    rw [hc] at hp
    split at hp
    · assumption
    · rw [← hp] at hpos
      exact absurd hpos (by decide)
  · intro hlt
    rw [if_pos hlt] at hc
    exact ⟨_,rfl,hc⟩

/-- Of the chunks that one read can deliver only the longest one is lost, in both roles. -/
theorem deliversWhole_iff (inet_ntop6 : List UInt8 → Text) (s : TCPCommon) (pdata : List UInt8)
    (addr : ℕ → UInt8) (hrecv : s.is_to_recv_ = true) (hdirect : s.is_detach_recv_ = false)
    (hcb : s.on_recv_data_func_ = true) (hpos : 1 ≤ pdata.length)
    (hcap : pdata.length ≤ onReadCapacity) :
    (DeliversWhole pdata (onRecv inet_ntop6 s pdata addr).2 ↔ pdata.length ≠ onReadCapacity) ∧
      (DeliversWhole pdata (MyonRecv inet_ntop6 s pdata addr).2 ↔ pdata.length ≠ onReadCapacity) := by
  have hcap' : pdata.length ≤ 262144 := hcap
  have hne : pdata.length < MAX_RECV_BUF_LEN ↔ pdata.length ≠ onReadCapacity := by
    change pdata.length < 262144 ↔ pdata.length ≠ 262144
    omega
  constructor
  · simp only [onRecv, hrecv, hdirect, hcb, Bool.true_eq_false, if_false, if_true,
      Bool.false_eq_true, deliversWhole_fill hpos, hne]
  · simp only [MyonRecv, hdirect, hcb, if_true, Bool.false_eq_true, if_false,
      deliversWhole_fill hpos, hne]

/-- A link with a callback that is neither detached nor switched off. -/
def directLink : TCPCommon := ⟨true,false,true,true,.fresh⟩

/-- The premises hold for a chunk of one byte. -/
theorem deliversWhole_iff_byte :
    (DeliversWhole [7] (onRecv (fun _ => [58,58]) directLink [7] (fun _ => 0)).2 ↔
      [7].length ≠ onReadCapacity) ∧
    (DeliversWhole [7] (MyonRecv (fun _ => [58,58]) directLink [7] (fun _ => 0)).2 ↔
      [7].length ≠ onReadCapacity) :=
  deliversWhole_iff _ directLink [7] _ rfl rfl rfl (by decide) (by decide)

/-- A read that fills the shared buffer is handed over as no bytes at all. -/
theorem not_deliversWhole_full_read :
    ¬ DeliversWhole (List.replicate 262144 7)
        (onRecv (fun _ => [58,58]) directLink (List.replicate 262144 7) (fun _ => 0)).2 ∧
      ¬ DeliversWhole (List.replicate 262144 7)
        (MyonRecv (fun _ => [58,58]) directLink (List.replicate 262144 7) (fun _ => 0)).2 := by
  have hpos : 1 ≤ (List.replicate 262144 (7 : UInt8)).length := by
    rw [List.length_replicate]
    decide
  have hge : ¬ (List.replicate 262144 (7 : UInt8)).length < MAX_RECV_BUF_LEN := by
    rw [List.length_replicate]
    decide
  have h : ¬ DeliversWhole (List.replicate 262144 7) [.called ((RecvBuffer.fill (fun _ => [58,58])
      (List.replicate 262144 7) (fun _ => 0) true).call (RecvBuffer.fill (fun _ => [58,58])
        (List.replicate 262144 7) (fun _ => 0) true).buf.length)] := by
    rw [deliversWhole_fill hpos]
    exact hge
  exact ⟨h,h⟩

end OctCommu.Communcation
