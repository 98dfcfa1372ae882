import OctCommu.Communcation.TCPImp

/-! # The receive settings of a TCP link in both roles

A link after `init`, with the chunks its socket reads, the callbacks that are set
and removed, and the runs of its worker. What is due is what the settings ask for;
what is called back, and where, is what the two roles do.
-/
namespace OctCommu.Communcation
open Memory Util Network.SockUtil Runs
variable {inet_ntop6 : List UInt8 → Text}

/-- The object of one role, with the chunks its settings ask it to call back, and those that the socket's
thread and the worker did call back. -/
structure ReceiveLink where
  client : Bool
  common : TCPCommon
  /-- The worker of `m_recvThreadPool` runs. -/
  started : Bool
  tasks : ℕ
  due : List (List UInt8)
  direct : List (List UInt8)
  called : List (List UInt8)
  emptyCalled : Bool

inductive ReceiveAct where
  /-- `TCPClientImp::onRecv` or `TCPServerImp::MyonRecv`. -/
  | chunk (pdata : List UInt8) (addr : ℕ → UInt8)
  | worker
  | setOnReadFunc (cb : Bool)

namespace ReceiveLink

/-- The selected object after the first `init`; a client keeps the defaults of its `tcp_init_`. -/
def start (client : Bool) (init_param : TCPInit) : ReceiveLink where
  client := client
  common :=
    if client then (TCPClientImp.fresh.init init_param).common
    else (TCPServerImp.init () .fresh init_param .noSocket).common
  started := init_param.is_to_recv_ && !client && init_param.is_detach_recv_
  tasks := 0
  due := []
  direct := []
  called := []
  emptyCalled := false

def onChunk (inet_ntop6 : List UInt8 → Text) (s : ReceiveLink) (pdata : List UInt8)
    (addr : ℕ → UInt8) : TCPCommon × List RecvEffect :=
  if s.client then onRecv inet_ntop6 s.common pdata addr else MyonRecv inet_ntop6 s.common pdata addr

/-- The chunks that wait in the queue. -/
def waiting (s : ReceiveLink) : List (List UInt8) :=
  s.common.recv_blocking_queue_.queue_.map fun fb => fb.buf.contents

/-- `Socket::onRead` hands over no empty chunk. -/
def step (inet_ntop6 : List UInt8 → Text) (init_param : TCPInit) (s : ReceiveLink) :
    ReceiveAct → Option ReceiveLink
  | .chunk pdata addr =>
    if pdata = [] then none
    else
      let r := s.onChunk inet_ntop6 pdata addr
      some { s with
        common := r.1
        tasks := s.tasks + asyncCount r.2
        due :=
          if init_param.is_to_recv_ && s.common.on_recv_data_func_ then s.due ++ [pdata] else s.due
        direct := s.direct ++ calledBytes r.2
        emptyCalled := s.emptyCalled || throws r.2 }
  | .worker =>
    if s.started ∧ 0 < s.tasks then
      let r := recvDataWorker s.common
      some { s with
        common := r.1
        tasks := s.tasks - 1
        called := s.called ++ calledBytes r.2
        emptyCalled := s.emptyCalled || throws r.2 }
    else none
  | .setOnReadFunc cb => some { s with common := Communcation.setOnReadFunc s.common cb }

/-- The settings are obeyed. A detached link has called each due chunk back on its worker or keeps it
for a task to come. -/
structure Obeys (init_param : TCPInit) (s : ReceiveLink) : Prop where
  direct : s.direct = if init_param.is_detach_recv_ then [] else s.due
  off : init_param.is_to_recv_ = false ∨ init_param.is_detach_recv_ = false → s.called = []
  detached : init_param.is_to_recv_ = true → init_param.is_detach_recv_ = true →
    (s.due ≠ [] → s.started = true) ∧ s.called ++ s.waiting = s.due ∧ s.waiting.length ≤ s.tasks
  nonempty : s.emptyCalled = false

/-- What a role that left out a check needs from its surroundings, and the bounded queue from its
worker. -/
def Supported (init_param : TCPInit) (s : ReceiveLink) : ReceiveAct → Prop
  | .chunk pdata _ =>
    if s.client then
      init_param.is_to_recv_ = true → s.common.on_recv_data_func_ = true ∧
        init_param.is_detach_recv_ = false ∧ pdata.length < MAX_RECV_BUF_LEN
    else
      s.common.on_recv_data_func_ = true →
        if init_param.is_to_recv_ then pdata.length < MAX_RECV_BUF_LEN ∧
          (init_param.is_detach_recv_ = true → s.waiting.length ≤ 128)
        else init_param.is_detach_recv_ = true
  | .worker => s.common.on_recv_data_func_ = true ∨ s.waiting.length < s.tasks
  | .setOnReadFunc _ => True

/-- What stays of the settings: of a client only the flag that switches receiving on. -/
structure Configured (init_param : TCPInit) (s : ReceiveLink) : Prop where
  recv : s.common.is_to_recv_ = init_param.is_to_recv_
  detach : s.common.is_detach_recv_ = (!s.client && init_param.is_detach_recv_)
  started : s.started = (init_param.is_to_recv_ && !s.client && init_param.is_detach_recv_)
  obeys : s.Obeys init_param
  whole : init_param.is_to_recv_ = true → ∀ bytes ∈ s.waiting, bytes ≠ []

section
variable {p : TCPInit} {s t : ReceiveLink}

theorem configured_start (client : Bool) (p : TCPInit) : (start client p).Configured p := by
  have hobeys : (start client p).Obeys p := by
    refine ⟨by simp [start],fun _ => rfl,?_,rfl⟩
    intro _ _
    refine ⟨fun h => absurd rfl h,?_,?_⟩
    · cases client <;> rfl
    · cases client <;> exact Nat.le_refl _
  refine ⟨?_,?_,rfl,hobeys,?_⟩
  · cases client <;> rfl
  · cases client <;> rfl
  · intro _ bytes hb
    cases client <;> exact absurd hb List.not_mem_nil

/-- The object that the first `TCPImp::init` selects starts like this. -/
theorem common_init {P : Type*} [DecidableEq P] (_poller : P) (p : TCPInit) (result : ListenResult P) :
    (start (TT_CLIENT = p.tcp_type_) p).common =
      let link := (TCPImp.start : TCPImp P).init _poller p result
      if TT_CLIENT = p.tcp_type_ then link.tcp_client_imp_.common
      else link.tcp_server_imp_.common := by
  by_cases h : TT_CLIENT = p.tcp_type_
  · simp [start, TCPImp.init, TCPImp.start, h]
  · simp [start, TCPImp.init, TCPImp.start, TCPServerImp.init, TCPServerImp.fresh, h]

/-- A chunk is ignored, meets an empty callback, is called back at once, or is queued. -/
theorem Configured.chunk_cases (h : s.Configured p) (pdata : List UInt8) (addr : ℕ → UInt8)
    {fb : RecvBuffer} (hfb : fb = .fill inet_ntop6 pdata addr s.common.is_ipv4_) :
    ((if s.client then p.is_to_recv_ = false else s.common.on_recv_data_func_ = false) ∧
      s.onChunk inet_ntop6 pdata addr = (s.common,[])) ∨
    (s.client = true ∧ p.is_to_recv_ = true ∧ s.common.on_recv_data_func_ = false ∧
      s.onChunk inet_ntop6 pdata addr = (s.common,[.bad_function_call])) ∨
    (s.common.on_recv_data_func_ = true ∧
      (if s.client then p.is_to_recv_ = true else p.is_detach_recv_ = false) ∧
      s.onChunk inet_ntop6 pdata addr = (s.common,[.called (fb.call fb.buf.length)])) ∨
    (s.common.on_recv_data_func_ = true ∧ s.client = false ∧ p.is_detach_recv_ = true ∧
      s.onChunk inet_ntop6 pdata addr = ({ s.common with
        recv_blocking_queue_ := s.common.recv_blocking_queue_.put fb },[.async])) := by
  subst hfb
  have hrecv := h.recv
  have hdetach := h.detach
  cases hc : s.client with
  | true =>
    rw [hc] at hdetach
    cases hp : p.is_to_recv_ with
    | false => left; simp [onChunk, onRecv, hc, hrecv, hp]
    | true =>
      right
      cases hcb : s.common.on_recv_data_func_ with
      | false => left; simp [onChunk, onRecv, hc, hrecv, hp, hcb, hdetach]
      | true => right; left; simp [onChunk, onRecv, hc, hrecv, hp, hcb, hdetach]
  | false =>
    rw [hc] at hdetach
    cases hcb : s.common.on_recv_data_func_ with
    | false => left; simp [onChunk, MyonRecv, hc, hcb]
    | true =>
      right; right
      cases hd : p.is_detach_recv_ with
      | false => left; simp [onChunk, MyonRecv, hc, hcb, hdetach, hd]
      | true => right; simp [onChunk, MyonRecv, hc, hcb, hdetach, hd]

theorem waiting_put (s : ReceiveLink) (fb : RecvBuffer) :
    ((s.common.recv_blocking_queue_.put fb).queue_.map fun fb => fb.buf.contents) =
      s.waiting.drop (s.waiting.length - 128) ++ [fb.buf.contents] := by
  rw [BlockingQueue.queue_put, List.map_append, List.map_drop]
  simp only [waiting, List.length_map, BlockingQueue.size, List.map_cons, List.map_nil]

/-- What a chunk of this length arrives as. -/
def copied (pdata : List UInt8) : List UInt8 := if pdata.length < MAX_RECV_BUF_LEN then pdata else []

theorem copied_eq_self_iff {pdata : List UInt8} (hpos : pdata ≠ []) :
    copied pdata = pdata ↔ pdata.length < MAX_RECV_BUF_LEN := by
  unfold copied
  split
  · rename_i h
    exact iff_of_true rfl h
  · rename_i h
    exact iff_of_false (fun he => hpos he.symm) h

/-- The same for the whole link. -/
theorem Configured.step_chunk {pdata : List UInt8} {addr : ℕ → UInt8} (h : s.Configured p)
    (ht : step inet_ntop6 p s (.chunk pdata addr) = some t) : pdata ≠ [] ∧
      (((if s.client then p.is_to_recv_ = false else s.common.on_recv_data_func_ = false) ∧ t = s) ∨
      (s.client = true ∧ p.is_to_recv_ = true ∧ s.common.on_recv_data_func_ = false ∧
        t.emptyCalled = true) ∨
      (s.common.on_recv_data_func_ = true ∧
        (if s.client then p.is_to_recv_ = true else p.is_detach_recv_ = false) ∧
        t = { s with
          due := if p.is_to_recv_ then s.due ++ [pdata] else s.due
          direct := s.direct ++ [copied pdata] }) ∨
      (s.common.on_recv_data_func_ = true ∧ s.client = false ∧ p.is_detach_recv_ = true ∧
        t.common.is_to_recv_ = s.common.is_to_recv_ ∧
        t.common.is_detach_recv_ = s.common.is_detach_recv_ ∧
        t.waiting = s.waiting.drop (s.waiting.length - 128) ++ [copied pdata] ∧
        t = { s with
          common := t.common
          tasks := s.tasks + 1
          due := if p.is_to_recv_ then s.due ++ [pdata] else s.due })) := by
  have hpos : pdata ≠ [] := by
    intro he
    simp [step, he] at ht
  refine ⟨hpos,?_⟩
  simp only [step, if_neg hpos, Option.some.injEq] at ht
  have hfill := Eq.refl (RecvBuffer.fill inet_ntop6 pdata addr s.common.is_ipv4_)
  rcases h.chunk_cases pdata addr hfill with
    ⟨hoff,hr⟩ | ⟨hcl,hrecv,hcb,hr⟩ | ⟨hcb,hrole,hr⟩ | ⟨hcb,hcl,hdet,hr⟩
  · left
    have hdue : (p.is_to_recv_ && s.common.on_recv_data_func_) = false := by
      split at hoff
      · rw [hoff, Bool.false_and]
      · rw [hoff, Bool.and_false]
    rw [← ht, hr, hdue]
    refine ⟨hoff,?_⟩
    simp [asyncCount, calledBytes, throws]
  · right; left
    refine ⟨hcl,hrecv,hcb,?_⟩
    rw [← ht, hr]
    exact Bool.or_true _
  · right; right; left
    refine ⟨hcb,hrole,?_⟩
    have hcall := (RecvBuffer.pdata_call (RecvBuffer.sane_fill inet_ntop6 pdata addr
      s.common.is_ipv4_)).1
    rw [RecvBuffer.contents_fill] at hcall
    rw [← ht, hr, hcb]
    simp [asyncCount, calledBytes, throws, hcall, copied]
  · right; right; right
    refine ⟨hcb,hcl,hdet,?_⟩
    have hwait := s.waiting_put (.fill inet_ntop6 pdata addr s.common.is_ipv4_)
    rw [RecvBuffer.contents_fill] at hwait
    rw [← ht, hr, hcb]
    refine ⟨rfl,rfl,hwait,?_⟩
    simp [asyncCount, calledBytes, throws]

theorem Configured.chunk_good {pdata : List UInt8} {addr : ℕ → UInt8} (h : s.Configured p)
    (hc : s.Supported p (.chunk pdata addr))
    (ht : step inet_ntop6 p s (.chunk pdata addr) = some t) : t.Configured p := by
  obtain ⟨hpos,hcases⟩ := h.step_chunk ht
  simp only [Supported] at hc
  rcases hcases with
    ⟨_,rfl⟩ | ⟨hcl,hrecv,hcb,_⟩ | ⟨hcb,hrole,rfl⟩ | ⟨hcb,hcl,hdet,hkr,hkd,hwait,heq⟩
  · exact h
  · rw [if_pos hcl] at hc
    exact absurd ((hc hrecv).1.symm.trans hcb) Bool.noConfusion
  · -- the chunk is due, and it fits
    have hall : p.is_to_recv_ = true ∧ p.is_detach_recv_ = false ∧ copied pdata = pdata := by
      split at hrole
      · rename_i hcl
        rw [if_pos hcl] at hc
        obtain ⟨_,hdet,hlt⟩ := hc hrole
        exact ⟨hrole,hdet,(copied_eq_self_iff hpos).mpr hlt⟩
      · rename_i hcl
        rw [if_neg hcl] at hc
        have hlt := hc hcb
        cases hrecv : p.is_to_recv_ with
        | false =>
          rw [hrecv, hrole] at hlt
          exact absurd hlt (by simp)
        | true =>
          rw [hrecv, if_pos rfl] at hlt
          exact ⟨rfl,hrole,(copied_eq_self_iff hpos).mpr hlt.1⟩
    obtain ⟨hrecv,hdet,hcopy⟩ := hall
    have hdirect := h.obeys.direct
    rw [hdet] at hdirect
    refine ⟨h.recv,h.detach,h.started,⟨?_,h.obeys.off,?_,h.obeys.nonempty⟩,h.whole⟩
    · rw [hdet, hrecv, hcopy]
      exact congrArg (fun xs => xs ++ [pdata]) hdirect
    · intro _ hd
      exact absurd (hdet.symm.trans hd) Bool.noConfusion
  · rw [if_neg (by simp [hcl])] at hc
    have hnew := hc hcb
    rw [heq]
    refine ⟨hkr.trans h.recv,hkd.trans h.detach,h.started,⟨?_,?_,?_,h.obeys.nonempty⟩,?_⟩
    · have hdirect := h.obeys.direct
      rw [hdet] at hdirect ⊢
      exact hdirect
    · exact h.obeys.off
    · intro hrecv _
      rw [hrecv, if_pos rfl] at hnew
      obtain ⟨_,horder,hcount⟩ := h.obeys.detached hrecv hdet
      have hstarted := h.started
      rw [hrecv, hcl, hdet] at hstarted
      have hroom : s.waiting.length - 128 = 0 := by
        have hle := hnew.2 hdet
        omega
      rw [(copied_eq_self_iff hpos).mpr hnew.1, hroom, List.drop_zero] at hwait
      refine ⟨fun _ => hstarted,?_,?_⟩
      · change s.called ++ t.waiting = if p.is_to_recv_ then s.due ++ [pdata] else s.due
        rw [hwait, hrecv, if_pos rfl, ← horder, List.append_assoc]
      · change t.waiting.length ≤ s.tasks + 1
        rw [hwait, List.length_append, List.length_singleton]
        omega
    · intro hrecv bytes hb
      rw [hrecv, if_pos rfl] at hnew
      have hb' : bytes ∈ t.waiting := hb
      rw [hwait, (copied_eq_self_iff hpos).mpr hnew.1] at hb'
      rcases List.mem_append.mp hb' with hb' | hb'
      · exact h.whole hrecv bytes (List.mem_of_mem_drop hb')
      · rw [List.mem_singleton.mp hb']
        exact hpos

/-- A run of the worker takes the oldest chunk, if there is one and a callback for it. -/
theorem step_worker (ht : step inet_ntop6 p s .worker = some t)
    (hwhole : ∀ bytes ∈ s.waiting, bytes ≠ []) : s.started = true ∧ 0 < s.tasks ∧
      (((s.common.on_recv_data_func_ = false ∨ s.waiting = []) ∧ t = { s with tasks := s.tasks - 1 }) ∨
      ∃ bytes rest, s.common.on_recv_data_func_ = true ∧ s.waiting = bytes :: rest ∧
        t.common.is_to_recv_ = s.common.is_to_recv_ ∧
        t.common.is_detach_recv_ = s.common.is_detach_recv_ ∧ t.waiting = rest ∧
        t = { s with
          common := t.common
          tasks := s.tasks - 1
          called := s.called ++ [bytes] }) := by
  obtain ⟨⟨hstarted,hpos⟩,ht⟩ := Option.ite_none_right_eq_some.mp ht
  refine ⟨hstarted,hpos,?_⟩
  cases hcb : s.common.on_recv_data_func_ with
  | false =>
    left
    rw [DetachedLink.recvDataWorker_unset hcb] at ht
    refine ⟨.inl rfl,?_⟩
    simpa [calledBytes, throws] using ht.symm
  | true =>
    cases hq : s.common.recv_blocking_queue_.queue_ with
    | nil =>
      left
      have hr : recvDataWorker s.common = (s.common,[]) := by
        have hlen : (default : RecvBuffer).buf.currentLen = 0 := rfl
        rw [recvDataWorker, if_pos hcb, BlockingQueue.take, hq]
        simp only [hlen, if_true]
      rw [hr] at ht
      refine ⟨.inr ?_,?_⟩
      · simp only [waiting, hq, List.map_nil]
      · simpa [calledBytes, throws] using ht.symm
    | cons fb rest =>
      right
      have hw : s.waiting = fb.buf.contents :: rest.map fun fb => fb.buf.contents := by
        simp only [waiting, hq, List.map_cons]
      have hne : fb.buf.contents ≠ [] := hwhole _ (hw ▸ List.mem_cons_self)
      rw [DetachedLink.recvDataWorker_take hcb hq hne] at ht
      refine ⟨fb.buf.contents,_,rfl,hw,?_⟩
      cases ht
      refine ⟨rfl,rfl,rfl,?_⟩
      have hcall : (fb.call fb.buf.currentLen).pdata = fb.buf.contents := rfl
      simp [throws, calledBytes, hcall]

theorem Configured.worker_good (h : s.Configured p) (hc : s.Supported p .worker)
    (ht : step inet_ntop6 p s .worker = some t) : t.Configured p := by
  have hstarted : s.started = true := (Option.ite_none_right_eq_some.mp ht).1.1
  have hon := h.started.symm.trans hstarted
  simp only [Bool.and_eq_true] at hon
  obtain ⟨⟨hrecv,_⟩,hdet⟩ := hon
  obtain ⟨hrun,horder,hcount⟩ := h.obeys.detached hrecv hdet
  have hoff : ¬(p.is_to_recv_ = false ∨ p.is_detach_recv_ = false) := by
    simp [hrecv, hdet]
  obtain ⟨_,hpos,hcases⟩ := step_worker ht (h.whole hrecv)
  rcases hcases with ⟨hnone,rfl⟩ | ⟨bytes,rest,_,hw,hkr,hkd,hwt,heq⟩
  · refine ⟨h.recv,h.detach,h.started,⟨h.obeys.direct,h.obeys.off,?_,h.obeys.nonempty⟩,h.whole⟩
    intro _ _
    refine ⟨hrun,horder,?_⟩
    change s.waiting.length ≤ s.tasks - 1
    rcases hnone with hcb | hnil
    · rcases hc with hc | hc
      · exact absurd (hcb.symm.trans hc) Bool.noConfusion
      · omega
    · simp [hnil]
  · rw [heq]
    rw [hw] at hcount horder
    refine ⟨hkr.trans h.recv,hkd.trans h.detach,h.started,⟨h.obeys.direct,fun ho => absurd ho hoff,?_,
      h.obeys.nonempty⟩,?_⟩
    · intro _ _
      refine ⟨hrun,?_,?_⟩
      · change s.called ++ [bytes] ++ t.waiting = s.due
        rw [hwt, ← horder, List.append_assoc]
        rfl
      · change t.waiting.length ≤ s.tasks - 1
        rw [hwt]
        simp only [List.length_cons] at hcount
        omega
    · intro _ b hb
      have hb' : b ∈ t.waiting := hb
      rw [hwt] at hb'
      exact h.whole hrecv b (hw ▸ List.mem_cons_of_mem _ hb')

theorem step_good {a : ReceiveAct} (h : s.Configured p) (hc : s.Supported p a)
    (ht : step inet_ntop6 p s a = some t) : t.Configured p := by
  cases a with
  | chunk pdata addr => exact h.chunk_good hc ht
  | worker => exact h.worker_good hc ht
  | setOnReadFunc cb =>
    cases ht
    exact ⟨h.recv,h.detach,h.started,⟨h.obeys.direct,h.obeys.off,h.obeys.detached,h.obeys.nonempty⟩,
      h.whole⟩

/-- An empty callback is invoked, a chunk is called back that is not due or in the wrong place, it
does not fit, or a worker comes for nothing. -/
theorem step_bad {a : ReceiveAct} (h : s.Configured p) (ht : step inet_ntop6 p s a = some t)
    (hp : t.Obeys p) : s.Supported p a := by
  cases a with
  | setOnReadFunc cb => trivial
  | worker =>
    have hon := h.started.symm.trans (Option.ite_none_right_eq_some.mp ht).1.1
    simp only [Bool.and_eq_true] at hon
    obtain ⟨⟨hrecv,_⟩,hdet⟩ := hon
    obtain ⟨_,hpos,hcases⟩ := step_worker ht (h.whole hrecv)
    rcases hcases with ⟨hnone,rfl⟩ | ⟨bytes,rest,hcb,_⟩
    · have hcount : s.waiting.length ≤ s.tasks - 1 := (hp.detached hrecv hdet).2.2
      right
      omega
    · exact .inl hcb
  | chunk pdata addr =>
    obtain ⟨hpos,hcases⟩ := h.step_chunk ht
    simp only [Supported]
    rcases hcases with
      ⟨hoff,rfl⟩ | ⟨hcl,hrecv,hcb,hempty⟩ | ⟨hcb,hrole,rfl⟩ | ⟨hcb,hcl,hdet,hkr,hkd,hwait,heq⟩
    · split
      · rename_i hcl
        rw [if_pos hcl] at hoff
        intro hrecv
        exact absurd (hoff.symm.trans hrecv) Bool.noConfusion
      · rename_i hcl
        rw [if_neg hcl] at hoff
        intro hcb
        exact absurd (hoff.symm.trans hcb) Bool.noConfusion
    · exact absurd (hp.nonempty.symm.trans hempty) Bool.noConfusion
    · have hdirect := hp.direct
      rw [h.obeys.direct] at hdirect
      cases hdet : p.is_detach_recv_ with
      | true => simp [hdet] at hdirect
      | false =>
        cases hrecv : p.is_to_recv_ with
        | false => simp [hdet, hrecv] at hdirect
        | true =>
          have hcopy : copied pdata = pdata := by simpa [hdet, hrecv] using hdirect
          have hlt := (copied_eq_self_iff hpos).mp hcopy
          split
          · exact fun _ => ⟨hcb,rfl,hlt⟩
          · exact fun _ => ⟨hlt,fun hd => absurd hd Bool.noConfusion⟩
    · rw [if_neg (by simp [hcl])]
      intro _
      cases hrecv : p.is_to_recv_ with
      | false => simpa using hdet
      | true =>
        have horder := (hp.detached hrecv hdet).2.1
        rw [heq] at horder
        change s.called ++ t.waiting = if p.is_to_recv_ then s.due ++ [pdata] else s.due at horder
        rw [hwait, hrecv, if_pos rfl, ← (h.obeys.detached hrecv hdet).2.1, List.append_assoc,
          List.append_cancel_left_eq] at horder
        have hroom := congrArg List.length horder
        rw [List.length_append, List.length_append, List.length_drop] at hroom
        simp only [List.length_singleton] at hroom
        have hcopy : copied pdata = pdata := by
          have hz : s.waiting.length - 128 = 0 := by omega
          rw [hz, List.drop_zero] at horder
          simpa using horder
        exact ⟨(copied_eq_self_iff hpos).mp hcopy,fun _ => by omega⟩

/-- Each role obeys its settings just as long as what it does not check is so anyway: a client is
not detached and has a callback, a server without receiving has none, chunks fit their copy and the
queue, and a worker finds a callback or has nothing to do. -/
theorem supported_iff_obeys (client : Bool) (p : TCPInit) (as : List ReceiveAct) :
    EveryStep (step inet_ntop6 p) (Supported p) (start client p) as ↔
      EveryState (step inet_ntop6 p) (Obeys p) (start client p) as := by
  apply everyStep_iff_everyState (configured_start client p)
  · intro s h
    exact h.obeys
  · intro s a t h hc ht
    exact step_good h hc ht
  · intro s a t h ht hp
    exact step_bad h ht hp

/-- A client that is to detach calls back on the poller thread. -/
theorem not_obeys_detached_client :
    ¬ EveryState (step (fun _ => [58,58]) ⟨TT_CLIENT,[49],true,true⟩) (Obeys ⟨TT_CLIENT,[49],true,true⟩)
      (start true ⟨TT_CLIENT,[49],true,true⟩) [.setOnReadFunc true,.chunk [7] fun _ => 0] := by
  intro h
  exact absurd (h.last rfl).direct (by decide)

end
end ReceiveLink
end OctCommu.Communcation
