import OctCommu.Util.FixedBuffer

/-! # `SPUnix::readEvent`

The kernel says how many bytes are there, and the loop reads until it has them. It
takes what is missing from the length of the latest short read alone, which is the
number of bytes read so far only if that read was the first.
-/
namespace OctCommu.SerialPort
open Memory Util

def MAX_RECV_BUFFER_LEN : ℕ := 10240

/-- What `read` comes to: some bytes, `EAGAIN`, or anything else. -/
inductive ReadResult where
  | bytes (bs : List UInt8)
  | again
  | failed
  deriving DecidableEq

namespace ReadResult

def data : ReadResult → List UInt8
  | .bytes bs => bs
  | _ => []

def reads : ReadResult → Bool
  | .bytes _ => true
  | _ => false

end ReadResult

/-- The state of the loop; `asked` are the positions and lengths `read` was called with. -/
structure ReadLoop where
  recv_buffer_ : FixedBuffer MAX_RECV_BUFFER_LEN
  current_read_count : ℕ
  asked : List (ℕ × ℕ)

namespace ReadLoop

def ask (n : ℕ) (s : ReadLoop) : ReadLoop :=
  { s with asked := s.asked ++ [(s.recv_buffer_.cur_,n - s.current_read_count)] }

/-- What `read` puts at `current()`. -/
def store (bs : List UInt8) (s : ReadLoop) : ReadLoop :=
  { s with recv_buffer_ := { s.recv_buffer_ with
      data_ := memcpy s.recv_buffer_.data_ s.recv_buffer_.cur_ bs } }

def moveTo (len : ℕ) (s : ReadLoop) : ReadLoop :=
  { s with current_read_count := len, recv_buffer_ := s.recv_buffer_.moveTo len }

def setValidLen (n : ℕ) (s : ReadLoop) : ReadLoop :=
  { s with recv_buffer_ := s.recv_buffer_.setValidLen n }

/-- The `do` loop, and whether it has been left when these reads are over. -/
def run (n : ℕ) : List ReadResult → ReadLoop → ReadLoop × Bool
  | [],s => if n - s.current_read_count = 0 then (s,true) else (s.ask n,false)
  | r :: rs,s =>
    if n - s.current_read_count = 0 then (s,true)
    else
      match r with
      | .bytes bs =>
        if bs = [] then (s.ask n,true)
        else if bs.length = n - s.current_read_count then
          (((s.ask n).store bs).setValidLen n,true)
        else run n rs (((s.ask n).store bs).moveTo bs.length)
      | .again => run n rs (s.ask n)
      | .failed => (s.ask n,true)

end ReadLoop

/-- The calls of `read`, and the data and length of the calls of `onReadData`. -/
structure ReadEvent where
  asked : List (ℕ × ℕ)
  handed : List (List UInt8)
  deriving DecidableEq

def readEvent (recv_buffer_ : FixedBuffer MAX_RECV_BUFFER_LEN) (available : ℤ)
    (reads : List ReadResult) : ReadEvent :=
  if 0 ≥ available ∨ MAX_RECV_BUFFER_LEN < available then ⟨[],[]⟩
  else
    match ReadLoop.run available.toNat reads ⟨recv_buffer_.reset,0,[]⟩ with
    | (s,false) => ⟨s.asked,[]⟩
    | (s,true) =>
      if s.recv_buffer_.currentLen ≠ 0 then ⟨s.asked,[s.recv_buffer_.contents]⟩ else ⟨s.asked,[]⟩

def bytesRead (reads : List ReadResult) : List UInt8 := reads.flatMap ReadResult.data

/-- The reads give `n` bytes, none of them nothing, and `EAGAIN` in between. -/
structure Delivers (n : ℕ) (reads : List ReadResult) : Prop where
  result : ∀ r ∈ reads, r = .again ∨ ∃ bs, bs ≠ [] ∧ r = .bytes bs
  total : (bytesRead reads).length = n

/-- What was read is handed over in one piece, and no read may leave the storage. -/
structure HandsOver (reads : List ReadResult) (e : ReadEvent) : Prop where
  inside : ∀ q ∈ e.asked, q.1 + q.2 ≤ MAX_RECV_BUFFER_LEN
  once : e.handed = [bytesRead reads]

theorem Delivers.tail {n : ℕ} {r : ReadResult} {rs : List ReadResult} (h : Delivers n (r :: rs)) :
    Delivers (n - r.data.length) rs where
  result x hx := h.result x (List.mem_cons_of_mem _ hx)
  total := by
    have ht := h.total
    simp only [bytesRead, List.flatMap_cons, List.length_append] at ht ⊢
    omega

theorem Delivers.head_le {n : ℕ} {r : ReadResult} {rs : List ReadResult} (h : Delivers n (r :: rs)) :
    r.data.length ≤ n := by
  have ht := h.total
  simp only [bytesRead, List.flatMap_cons, List.length_append] at ht
  omega

/-- Every read brings a byte. -/
theorem Delivers.countP_le {n : ℕ} {reads : List ReadResult} (h : Delivers n reads) :
    reads.countP ReadResult.reads ≤ n := by
  induction reads generalizing n with
  | nil => exact Nat.zero_le _
  | cons r rs ih =>
    have hrs := ih h.tail
    have hle := h.head_le
    rcases h.result r List.mem_cons_self with rfl | ⟨bs,hbs,rfl⟩
    · exact Nat.le_trans hrs (Nat.sub_le _ _)
    · have hpos := List.length_pos_iff.mpr hbs
      simp only [ReadResult.data] at hrs hle
      rw [List.countP_cons_of_pos rfl]
      omega

theorem Delivers.countP_pos {n : ℕ} {reads : List ReadResult} (h : Delivers n reads) (hn : 0 < n) :
    0 < reads.countP ReadResult.reads := by
  induction reads with
  | nil =>
    have ht : 0 = n := h.total
    omega
  | cons r rs ih =>
    rcases h.result r List.mem_cons_self with rfl | ⟨bs,_,rfl⟩
    · exact ih h.tail
    · rw [List.countP_cons_of_pos rfl]
      exact Nat.succ_pos _

namespace ReadLoop
variable {n : ℕ}

/-- The loop with `g` bytes read, when its records of that agree. -/
structure At (g : ℕ) (s : ReadLoop) : Prop where
  count : s.current_read_count = g
  cur : s.recv_buffer_.cur_ = g
  len : s.recv_buffer_.current_len_ = g
  asked : ∀ q ∈ s.asked, q.1 + q.2 ≤ n

theorem At.ask {g : ℕ} {s : ReadLoop} (h : s.At (n := n) g) (hg : g ≤ n) : (s.ask n).At (n := n) g where
  count := h.count
  cur := h.cur
  len := h.len
  asked := by
    intro q hq
    rcases List.mem_append.mp hq with hq | hq
    · exact h.asked q hq
    · obtain rfl := List.mem_singleton.mp hq
      simp only [h.cur, h.count]
      omega

theorem segment_store {g : ℕ} {s : ReadLoop} (h : s.At (n := n) g) (bs : List UInt8) :
    segment ((s.ask n).store bs).recv_buffer_.data_ 0 (g + bs.length) =
      segment s.recv_buffer_.data_ 0 g ++ bs := by
  have hseg := segment_memcpy_append s.recv_buffer_.data_ 0 g bs
  rw [Nat.zero_add, ← h.cur] at hseg
  rwa [← h.cur]

/-- Two reads are enough for the loop, and what they gave is in the buffer. -/
theorem run_collects {rs : List ReadResult} {s : ReadLoop} {g : ℕ} (hs : s.At (n := n) g) (hg : g < n)
    (h : Delivers (n - g) rs) (hk : rs.countP ReadResult.reads ≤ if g = 0 then 2 else 1) :
    (run n rs s).2 = true ∧
    (run n rs s).1.recv_buffer_.contents = segment s.recv_buffer_.data_ 0 g ++ bytesRead rs ∧
    (run n rs s).1.recv_buffer_.current_len_ = n ∧
    ∀ q ∈ (run n rs s).1.asked, q.1 + q.2 ≤ n := by
  have hrest : n - s.current_read_count ≠ 0 := by
    rw [hs.count]
    omega
  induction rs generalizing s g with
  | nil =>
    have ht : 0 = n - g := h.total
    omega
  | cons r rs ih =>
    have htail := h.tail
    have hle := h.head_le
    rcases h.result r List.mem_cons_self with rfl | ⟨bs,hbs,rfl⟩
    · rw [run, if_neg hrest]
      exact ih (hs.ask (Nat.le_of_lt hg)) hg htail hk hrest
    · simp only [ReadResult.data] at htail hle
      have hpos := List.length_pos_iff.mpr hbs
      have hseg := segment_store hs bs
      rw [run, if_neg hrest]
      simp only [if_neg hbs, hs.count]
      rw [List.countP_cons_of_pos rfl] at hk
      by_cases hfull : bs.length = n - g
      · rw [if_pos hfull]
        have hnil : bytesRead rs = [] := by
          apply List.length_eq_zero_iff.mp
          rw [htail.total]
          omega
        have hn : g + bs.length = n := by omega
        rw [hn] at hseg
        refine ⟨rfl,?_,rfl,(hs.ask (Nat.le_of_lt hg)).asked⟩
        rw [bytesRead, List.flatMap_cons, ← bytesRead, hnil, List.append_nil]
        exact hseg
      · rw [if_neg hfull]
        -- something is still to come, so this was the first read
        have hmore := htail.countP_pos (by omega)
        have hz : g = 0 := by
          by_contra hne
          rw [if_neg hne] at hk
          omega
        subst hz
        have hnext : (((s.ask n).store bs).moveTo bs.length).At (n := n) bs.length := by
          refine ⟨rfl,?_,?_,(hs.ask (Nat.le_of_lt hg)).asked⟩
          · show s.recv_buffer_.cur_ + bs.length = bs.length
            rw [hs.cur, Nat.zero_add]
          · show s.recv_buffer_.current_len_ + bs.length = bs.length
            rw [hs.len, Nat.zero_add]
        obtain ⟨hdone,hcontents,hlen,hasked⟩ := ih hnext (by omega) (by rwa [Nat.sub_zero] at htail)
          (by rw [if_neg (by omega)]; simp at hk; omega)
          (by show n - bs.length ≠ 0; omega)
        refine ⟨hdone,?_,hlen,hasked⟩
        rw [Nat.zero_add] at hseg
        have hcons : bytesRead (.bytes bs :: rs) = bs ++ bytesRead rs := List.flatMap_cons
        rw [hcontents, hcons, ← List.append_assoc]
        exact congrArg (· ++ bytesRead rs) hseg

/-- A third read never fills what the loop believes is missing. -/
theorem run_stuck {rs : List ReadResult} {s : ReadLoop} {g : ℕ} (hg : g ≤ n)
    (h : Delivers (n - g) rs)
    (hk : s.current_read_count < g ∨
      (s.current_read_count = g ∧ 0 < g ∧ 2 ≤ rs.countP ReadResult.reads) ∨
      (s.current_read_count = g ∧ g = 0 ∧ 3 ≤ rs.countP ReadResult.reads)) :
    (run n rs s).2 = false := by
  have hall := h.countP_le
  have hrest : n - s.current_read_count ≠ 0 := by omega
  induction rs generalizing s g with
  | nil => rw [run, if_neg hrest]
  | cons r rs ih =>
    have htail := h.tail
    have hle := h.head_le
    rcases h.result r List.mem_cons_self with rfl | ⟨bs,hbs,rfl⟩
    · rw [run, if_neg hrest]
      exact ih hg htail hk htail.countP_le hrest
    · simp only [ReadResult.data] at htail hle
      have hpos := List.length_pos_iff.mpr hbs
      rw [List.countP_cons_of_pos rfl] at hk
      have hless := htail.countP_le
      rw [run, if_neg hrest]
      simp only [if_neg hbs]
      rw [if_neg (by omega)]
      have hnext : n - g - bs.length = n - (g + bs.length) := Nat.sub_sub _ _ _
      rw [hnext] at htail hless
      refine ih (g := g + bs.length) (by omega) htail ?_ hless ?_
      · simp only [moveTo]
        omega
      · show n - bs.length ≠ 0
        omega

end ReadLoop

theorem readEvent_eq (recv_buffer_ : FixedBuffer MAX_RECV_BUFFER_LEN) {n : ℕ} (hpos : 0 < n)
    (hmax : n ≤ MAX_RECV_BUFFER_LEN) (reads : List ReadResult) :
    readEvent recv_buffer_ n reads =
      match ReadLoop.run n reads ⟨recv_buffer_.reset,0,[]⟩ with
      | (s,false) => ⟨s.asked,[]⟩
      | (s,true) =>
        if s.recv_buffer_.currentLen ≠ 0 then ⟨s.asked,[s.recv_buffer_.contents]⟩ else ⟨s.asked,[]⟩ := by
  unfold readEvent
  rw [if_neg (by omega), Int.toNat_natCast]

/-- Exactly two reads may have to be put together. -/
theorem readEvent_handsOver_iff (recv_buffer_ : FixedBuffer MAX_RECV_BUFFER_LEN) {n : ℕ} (hpos : 0 < n)
    (hmax : n ≤ MAX_RECV_BUFFER_LEN) {reads : List ReadResult} (h : Delivers n reads) :
    HandsOver reads (readEvent recv_buffer_ n reads) ↔ reads.countP ReadResult.reads ≤ 2 := by
  rw [readEvent_eq recv_buffer_ hpos hmax]
  constructor
  · intro hands
    by_contra hk
    have hstuck : (ReadLoop.run n reads ⟨recv_buffer_.reset,0,[]⟩).2 = false :=
      ReadLoop.run_stuck (g := 0) (Nat.zero_le _) h (.inr (.inr ⟨rfl,rfl,by omega⟩))
    have honce := hands.once
    generalize ReadLoop.run n reads ⟨recv_buffer_.reset,0,[]⟩ = r at hstuck honce
    obtain ⟨s,done⟩ := r
    obtain rfl : done = false := hstuck
    cases honce
  · intro hk
    have hat : (⟨recv_buffer_.reset,0,[]⟩ : ReadLoop).At (n := n) 0 :=
      ⟨rfl,rfl,rfl,fun q hq => absurd hq List.not_mem_nil⟩
    obtain ⟨hdone,hcontents,hlen,hasked⟩ := ReadLoop.run_collects hat hpos h hk
    generalize ReadLoop.run n reads ⟨recv_buffer_.reset,0,[]⟩ = r at hdone hcontents hlen hasked
    obtain ⟨s,done⟩ := r
    obtain rfl : done = true := hdone
    have hne : s.recv_buffer_.currentLen ≠ 0 := by
      show s.recv_buffer_.current_len_ ≠ 0
      rw [hlen]
      omega
    simp only [if_pos hne]
    exact ⟨fun q hq => Nat.le_trans (hasked q hq) hmax,by rw [hcontents]; rfl⟩

/-- Three bytes, in two reads with an `EAGAIN` between. -/
theorem readEvent_handsOver_two :
    HandsOver [.bytes [1],.again,.bytes [2,3]]
      (readEvent .fresh 3 [.bytes [1],.again,.bytes [2,3]]) := by
  apply (readEvent_handsOver_iff .fresh (n := 3) (by decide) (by decide) _).mpr (by decide)
  refine ⟨?_,rfl⟩
  intro r hr
  simp only [List.mem_cons, List.not_mem_nil, or_false] at hr
  rcases hr with rfl | rfl | rfl
  · exact .inr ⟨_,by decide,rfl⟩
  · exact .inl rfl
  · exact .inr ⟨_,by decide,rfl⟩

/-- Three bytes one by one are all read and not handed over; and with a full buffer the third read may
leave the storage. -/
theorem readEvent_three_reads :
    Delivers 3 [.bytes [1],.bytes [2],.bytes [3]] ∧
    readEvent .fresh 3 [.bytes [1],.bytes [2],.bytes [3]] = ⟨[(0,3),(1,2),(2,2),(3,2)],[]⟩ ∧
    ¬ HandsOver [.bytes [1],.bytes [2],.bytes [3]]
      (readEvent .fresh 3 [.bytes [1],.bytes [2],.bytes [3]]) ∧
    (2,10239) ∈ (readEvent .fresh 10240 [.bytes [1],.bytes [2]]).asked := by
  have heq : readEvent .fresh 3 [.bytes [1],.bytes [2],.bytes [3]] =
      ⟨[(0,3),(1,2),(2,2),(3,2)],[]⟩ := by decide
  refine ⟨⟨?_,rfl⟩,heq,?_,by decide⟩
  · intro r hr
    simp only [List.mem_cons, List.not_mem_nil, or_false] at hr
    rcases hr with rfl | rfl | rfl
    · exact .inr ⟨_,by decide,rfl⟩
    · exact .inr ⟨_,by decide,rfl⟩
    · exact .inr ⟨_,by decide,rfl⟩
  · intro h
    have honce := h.once
    rw [heq] at honce
    cases honce

end OctCommu.SerialPort
