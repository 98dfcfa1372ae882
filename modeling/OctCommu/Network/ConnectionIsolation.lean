import OctCommu.Network.FlushSteps

/-! # Bytes and the connections they were queued for

The two send caches outlive the fd. What is left in them when a connection is
closed goes out on the next one, unless they are empty of it by then.
-/
namespace OctCommu.Network
open Runs
variable {I : Type*} [DecidableEq I]

/-- No connection was sent a byte that had been queued before an earlier connection was closed. -/
def NoCrossing (s : State I) : Prop :=
  ∀ sock, ∀ c ∈ s.socket.wire sock, s.socket.openedAt sock ≤ c.queuedAt

def Socket.cached (s : Socket) : List Cell :=
  unsent s._send_buf_sending ++ s._send_buf_waiting.flatten

/-- A new fd is stored only when the caches hold no byte from before the last close. -/
def InstallsClean (s : State I) : Label I → Prop
  | .install => ∀ c ∈ s.socket.cached, s.socket.closeSock.closed ≤ c.queuedAt
  | _ => True

instance (s : State I) : DecidablePred (InstallsClean s)
  | .install => inferInstanceAs (Decidable (∀ c ∈ s.socket.cached, _))
  | .send .. | .flushAll _ | .enter .. | .app _ | .writeAble | .poller _ | .closeSock
  | .onConnected => isTrue trivial

/-- All unsent bytes were queued after `m` closes; `t` and `o` are the local lists of the two
threads that can be in `flushData`. -/
structure QueuedSince (m : ℕ) (s : Socket) (t o : List Packet) : Prop where
  since : ∀ c ∈ unsent t ++ unsent o ++ s.cached, m ≤ c.queuedAt
  counted : ∀ p ∈ t ++ o ++ s._send_buf_sending, p.Counted

theorem QueuedSince.symm {m : ℕ} {s : Socket} {t o : List Packet} (hs : QueuedSince m s t o) :
    QueuedSince m s o t := by
  constructor
  · intro c hc
    apply hs.since c
    simp only [List.mem_append] at hc ⊢
    tauto
  · intro p hp
    apply hs.counted p
    simp only [List.mem_append] at hp ⊢
    tauto

theorem QueuedSince.drop {m : ℕ} {s : Socket} {t o : List Packet} (hs : QueuedSince m s t o) :
    QueuedSince m s [] o := by
  constructor
  · intro c hc
    apply hs.since c
    simp only [unsent_nil, List.nil_append, List.mem_append] at hc ⊢
    tauto
  · intro p hp
    apply hs.counted p
    simp only [List.nil_append, List.mem_append] at hp ⊢
    tauto

theorem QueuedSince.flush {m : ℕ} {b : Bool} {sock : ℕ} {s u : Socket} {pc : Flush} {a : FlushAct}
    {out : FlushOut} {o : List Packet} (hs : QueuedSince m s pc.tmp o)
    (hst : FlushStep b sock s pc a u out) :
    QueuedSince m u out.tmp o ∧
      ∀ k, ∀ c ∈ u.wire k, c ∈ s.wire k ∨ k = sock ∧ m ≤ c.queuedAt := by
  obtain ⟨rfl,rfl,ht⟩ | ⟨rfl,hw,rfl,ht⟩ | ⟨p,ps,n,htmp,hr,hn,hle,rfl,ht⟩ | ⟨rfl,ht⟩ | ⟨_,rfl,rfl⟩ |
    ⟨x,e,rfl,ht⟩ := hst.data
  · rw [ht]
    refine ⟨⟨fun c hc => hs.since c ?_,fun p hp => hs.counted p ?_⟩,fun k c hc => .inl hc⟩
    · simp only [Socket.cached, unsent_nil, List.nil_append, List.mem_append] at hc ⊢
      tauto
    · simp only [List.mem_append, List.not_mem_nil, or_false] at hp ⊢
      tauto
  · rw [ht]
    refine ⟨⟨fun c hc => hs.since c ?_,fun p hp => ?_⟩,fun k c hc => .inl hc⟩
    · simp only [Socket.cached, unsent_cons, unsent_nil, BufferSendMsg.pending_create,
        List.append_nil, List.flatten_nil, List.mem_append] at hc ⊢
      tauto
    · simp only [List.cons_append, List.mem_cons, List.mem_append] at hp
      rcases hp with rfl | hp
      · exact BufferSendMsg.counted_create _
      · exact hs.counted p (by simp only [List.mem_append]; tauto)
  · rw [ht]
    rw [htmp] at hs
    have hp := hs.counted p (by simp)
    have htaken := taken_append_pending hp hn hle hr ps
    have hsince : ∀ c ∈ unsent (p :: ps), m ≤ c.queuedAt := fun c hc =>
      hs.since c (by simp only [List.mem_append]; tauto)
    refine ⟨⟨?_,?_⟩,?_⟩
    · intro c hc
      rcases List.mem_append.mp hc with hc | hc
      · rcases List.mem_append.mp hc with hc | hc
        · exact hsince c (htaken ▸ List.mem_append_right _ hc)
        · exact hs.since c (by simp only [List.mem_append]; tauto)
      · exact hs.since c (List.mem_append_right _ hc)
    · intro q hq
      simp only [Socket.transmit, List.mem_append] at hq
      have hold : q ∈ ps ++ o ++ s._send_buf_sending → q.Counted := fun h =>
        hs.counted q (List.mem_cons_of_mem p h)
      split at hq
      · exact hold (by simp only [List.mem_append]; tauto)
      · by_cases he : q = (p.send_l n).1
        · rw [he]
          exact (BufferSendMsg.send_l_spec hp hn hle hr).1
        · exact hold (by simp only [List.mem_append]; simp only [List.mem_cons] at hq; tauto)
    · intro k c hc
      by_cases hk : k = sock
      · subst hk
        simp only [Socket.transmit, Function.update_self, List.mem_append] at hc
        exact hc.imp_right fun h => ⟨rfl,hsince c (htaken ▸ List.mem_append_left _ h)⟩
      · simp only [Socket.transmit, Function.update_of_ne hk] at hc
        exact .inl hc
  · rw [ht]
    refine ⟨⟨fun c hc => hs.since c ?_,fun p hp => hs.counted p ?_⟩,fun k c hc => .inl hc⟩
    · simp only [Socket.cached, unsent_nil, unsent_append, List.nil_append, List.mem_append] at hc ⊢
      tauto
    · simp only [List.nil_append, List.mem_append] at hp ⊢
      tauto
  · exact ⟨hs.drop,fun k c hc => .inl hc⟩
  · rw [ht]
    exact ⟨⟨hs.since,hs.counted⟩,fun k c hc => .inl hc⟩

theorem FlushStep.fds {b : Bool} {sock : ℕ} {s t : Socket} {pc : Flush} {a : FlushAct}
    {out : FlushOut} (h : FlushStep b sock s pc a t out) :
    t.fds = s.fds ∧ t.closed = s.closed ∧ t.openedAt = s.openedAt := by
  cases h <;> exact ⟨rfl,rfl,rfl⟩

def Poller.sock : Poller → Option ℕ
  | .checkWaiting k | .checkSending k _ | .flush k _ => some k
  | _ => none

def State.appSock (s : State I) : Option ℕ := s.holder.map fun h => h.2.1

/-- The invariant: only the newest fd is worked on, and nothing unsent is older than it. -/
structure Isolated (s : State I) : Prop where
  noCrossing : NoCrossing s
  unused : ∀ k, s.socket.fds ≤ k → s.socket.wire k = []
  opened_le : ∀ k, s.socket.openedAt k ≤ s.socket.closed
  newest : ∀ k, s.socket._sock_fd = some k ∨ s.appSock = some k ∨ s.poller.sock = some k →
    k + 1 = s.socket.fds
  counted : QueuedSince 0 s.socket s.appTmp s.poller.tmp
  queued : ∀ k, k + 1 = s.socket.fds →
    QueuedSince (s.socket.openedAt k) s.socket s.appTmp s.poller.tmp

omit [DecidableEq I] in
theorem isolated_fresh : Isolated (State.fresh : State I) := by
  refine ⟨nofun,fun _ _ => rfl,fun _ => le_rfl,?_,⟨nofun,nofun⟩,?_⟩
  · rintro k (h | h | h) <;> cases h
  · intro k hk
    cases hk

omit [DecidableEq I] in
theorem Isolated.flush {s : State I} {b : Bool} {sock : ℕ} {u : Socket} {pc : Flush} {a : FlushAct}
    {out : FlushOut} {o : List Packet} (hs : Isolated s) (hst : FlushStep b sock s.socket pc a u out)
    (hsock : sock + 1 = s.socket.fds)
    (hq : ∀ m, QueuedSince m s.socket s.appTmp s.poller.tmp → QueuedSince m s.socket pc.tmp o) :
    (∀ k, ∀ c ∈ u.wire k, u.openedAt k ≤ c.queuedAt) ∧ (∀ k, u.fds ≤ k → u.wire k = []) ∧
      QueuedSince 0 u out.tmp o ∧
      ∀ k, k + 1 = u.fds → QueuedSince (u.openedAt k) u out.tmp o := by
  obtain ⟨hfds,_,hop⟩ := hst.fds
  obtain ⟨hnow,hwire⟩ := (hq _ (hs.queued sock hsock)).flush hst
  refine ⟨?_,?_,((hq _ hs.counted).flush hst).1,?_⟩
  · intro k c hc
    rw [hop]
    rcases hwire k c hc with h | ⟨rfl,h⟩
    · exact hs.noCrossing k c h
    · exact h
  · intro k hk
    rw [hfds] at hk
    apply List.eq_nil_iff_forall_not_mem.mpr
    intro c hc
    rcases hwire k c hc with h | ⟨rfl,_⟩
    · rw [hs.unused k hk] at h
      cases h
    · omega
  · intro k hk
    rw [hfds] at hk
    obtain rfl : k = sock := by omega
    rw [hop]
    exact hnow

omit [DecidableEq I] in
theorem Isolated.setPoller {s : State I} (hs : Isolated s) {p : Poller} (htmp : p.tmp = s.poller.tmp)
    (hsock : ∀ k, p.sock = some k → k + 1 = s.socket.fds) : Isolated { s with poller := p } := by
  obtain ⟨hno,hun,hop,hnew,hcount,hq⟩ := hs
  rw [← htmp] at hcount hq
  refine ⟨hno,hun,hop,?_,hcount,hq⟩
  rintro k (h | h | h)
  · exact hnew k (.inl h)
  · exact hnew k (.inr (.inl h))
  · exact hsock k h

omit [DecidableEq I] in
theorem Isolated.closeSock {s : State I} (hs : Isolated s) :
    Isolated { s with socket := s.socket.closeSock } := by
  obtain ⟨h1,h2,h3,h4,h5,h6⟩ := hs
  refine ⟨h1,h2,?_,?_,⟨h5.since,h5.counted⟩,fun k hk => ⟨(h6 k hk).since,(h6 k hk).counted⟩⟩
  · intro k
    have hle := h3 k
    simp only [Socket.closeSock]
    split <;> omega
  · rintro k (h | h)
    · cases h
    · exact h4 k (.inr h)

omit [DecidableEq I] in
theorem Isolated.install {s : State I} (hs : Isolated s) (hclean : InstallsClean s .install)
    (hh : s.holder = none) (hp : s.poller = .idle) :
    Isolated { s with socket := s.socket.install } := by
  obtain ⟨h1,h2,h3,h4,h5,_⟩ := hs.closeSock
  have htmp : s.appTmp = [] ∧ s.poller.tmp = [] := by
    rw [State.appTmp, hh, hp]
    exact ⟨rfl,rfl⟩
  refine ⟨?_,?_,?_,?_,⟨h5.since,h5.counted⟩,?_⟩
  · intro k c hc
    by_cases hk : k = s.socket.fds
    · subst hk
      have hnil : s.socket.wire s.socket.fds = [] := hs.unused _ le_rfl
      have hc : c ∈ s.socket.wire s.socket.fds := hc
      rw [hnil] at hc
      cases hc
    · simp only [Socket.install, Function.update_of_ne hk]
      exact hs.noCrossing k c hc
  · intro k hk
    exact hs.unused k (Nat.le_of_succ_le hk)
  · intro k
    by_cases hk : k = s.socket.fds
    · subst hk
      simp only [Socket.install, Function.update_self]
      exact le_rfl
    · simp only [Socket.install, Function.update_of_ne hk]
      exact h3 k
  · rintro k (h | h | h)
    · cases h
      rfl
    · rw [State.appSock, hh] at h
      cases h
    · rw [hp] at h
      cases h
  · intro k hk
    obtain rfl : k = s.socket.fds := Nat.succ.inj hk
    refine ⟨?_,h5.counted⟩
    intro c hc
    rw [State.appTmp, hh, hp] at hc
    simp only [Socket.install, Function.update_self]
    exact hclean c hc

theorem QueuedSince.append {m : ℕ} {s : Socket} {t o : List Packet} (hs : QueuedSince m s t o)
    (hm : m ≤ s.closed) (buf : List UInt8) : QueuedSince m (s.append buf) t o := by
  refine ⟨?_,hs.counted⟩
  intro c hc
  simp only [Socket.cached, Socket.append, List.flatten_append, List.flatten_cons, List.flatten_nil,
    List.append_nil, List.mem_append, List.mem_map] at hc
  rcases hc with hc | hc | hc | ⟨_,_,rfl⟩
  · exact hs.since c (by simp only [List.mem_append]; exact .inl hc)
  · exact hs.since c (by simp only [Socket.cached, List.mem_append]; exact .inr (.inl hc))
  · exact hs.since c (by simp only [Socket.cached, List.mem_append]; exact .inr (.inr hc))
  · exact hm

theorem Isolated.enter {s t : State I} (hs : Isolated s) {i : I} {timeout : Bool}
    (h : step s (.enter i timeout) = some t) : Isolated t := by
  obtain ⟨hno,hun,hop,hnew,hcount,hq⟩ := hs
  obtain ⟨hh,hcase⟩ := step_enter h
  have htmp : s.appTmp = [] := by rw [State.appTmp, hh]
  rw [htmp] at hcount hq
  -- whatever the section does next, no thread is inside the lock with packets
  have hleave : Isolated { s with holder := none } :=
    ⟨hno,hun,hop,
      fun k hk => hnew k (hk.imp_right fun h => .inr (h.resolve_left (by simp [State.appSock]))),
      hcount,hq⟩
  obtain ⟨sock,hfd,_,rfl⟩ | ⟨caller,r,rfl⟩ | ⟨caller,r,_,rfl⟩ := hcase
  · refine ⟨hno,hun,hop,?_,hcount,hq⟩
    rintro k (h | h | h)
    · exact hnew k (.inl h)
    · cases h
      exact hnew sock (.inl hfd)
    · exact hnew k (.inr (.inr h))
  · exact ⟨hleave.noCrossing,hun,hop,hleave.newest,hcount,hq⟩
  · have hclosed := hleave.closeSock
    exact ⟨hclosed.noCrossing,hclosed.unused,hclosed.opened_le,hclosed.newest,hclosed.counted,
      hclosed.queued⟩

/-- The thread that holds the lock is at its next place in `flushData`, or has left it. -/
theorem Isolated.app {s t : State I} (hs : Isolated s) {a : FlushAct}
    (h : step s (.app a) = some t) : Isolated t := by
  have hiso := hs
  obtain ⟨_,_,hop,hnew,_,_⟩ := hs
  obtain ⟨i,sock,pc,u,out,hh,hf,hp,hsock,hh'⟩ := step_app h
  have hst := flushData_step hf
  have htmp : s.appTmp = pc.tmp := by rw [State.appTmp, hh]
  have hcur : sock + 1 = s.socket.fds := hnew sock (.inr (.inl (by rw [State.appSock, hh]; rfl)))
  obtain ⟨hno',hun',hcount',hq'⟩ := hiso.flush hst hcur
    (o := s.poller.tmp) (fun m hm => htmp ▸ hm)
  obtain ⟨hfds,hclosed,hopened⟩ := hst.fds
  have htmp' := appTmp_of_holder hh'
  have hleft : Isolated { t with socket := u } := by
    refine ⟨hno',hun',?_,?_,?_,?_⟩
    · intro k
      simp only [hopened, hclosed]
      exact hop k
    · rintro k (h | h | h)
      · rw [hst.sock_fd] at h
        exact hfds ▸ hnew k (.inl h)
      · have hk : t.appSock = some k := h
        rw [State.appSock, hh'] at hk
        cases out with
        | next pc' =>
          cases hk
          exact hfds ▸ hcur
        | ret ok => cases hk
        | emitErr => cases hk
      · exact hfds ▸ hnew k (.inr (.inr (hp ▸ h)))
    · exact htmp' ▸ hp ▸ hcount'
    · exact htmp' ▸ hp ▸ hq'
  cases out with
  | next pc' =>
    have ht : t = { t with socket := u } := by rw [← show t.socket = u from hsock]
    exact ht ▸ hleft
  | ret ok =>
    have ht : t = { t with socket := u } := by rw [← show t.socket = u from hsock]
    exact ht ▸ hleft
  | emitErr =>
    have ht : t = { t with socket := u.closeSock } := by
      rw [← show t.socket = u.closeSock from hsock]
    rw [ht]
    exact hleft.closeSock

omit [DecidableEq I] in
theorem Isolated.pollerFlush {s : State I} (hs : Isolated s) {sock : ℕ} {pc : Flush} {a : FlushAct}
    {u : Socket} {out : FlushOut} (hp : s.poller = .flush sock pc)
    (hf : flushData true sock s.socket pc a = some (u,out)) :
    Isolated { s with socket := u, poller := out.poller sock } := by
  have hiso := hs
  obtain ⟨_,_,hop,hnew,_,_⟩ := hs
  have hst := flushData_step hf
  have htmp : s.poller.tmp = pc.tmp := by rw [hp]; rfl
  have hcur : sock + 1 = s.socket.fds := hnew sock (.inr (.inr (by rw [hp]; rfl)))
  obtain ⟨hno',hun',hcount',hq'⟩ := hiso.flush hst hcur
    (o := s.appTmp) (fun m hm => htmp ▸ hm.symm)
  obtain ⟨hfds,hclosed,hopened⟩ := hst.fds
  have htmp' := out.poller_tmp sock
  refine ⟨hno',hun',?_,?_,?_,?_⟩
  · intro k
    simp only [hopened, hclosed]
    exact hop k
  · rintro k (h | h | h)
    · simp only [hst.sock_fd] at h
      exact hfds ▸ hnew k (.inl h)
    · exact hfds ▸ hnew k (.inr (.inl h))
    · cases out with
      | next pc' =>
        cases h
        exact hfds ▸ hcur
      | ret ok => cases h
      | emitErr => cases h
  · exact htmp' ▸ hcount'.symm
  · exact fun k hk => htmp' ▸ (hq' k hk).symm

theorem step_isolated {s t : State I} {l : Label I} (hs : Isolated s) (hc : InstallsClean s l)
    (h : step s l = some t) : Isolated t := by
  have hiso := hs
  obtain ⟨hno,hun,hop,hnew,hcount,hq⟩ := hs
  cases l with
  | send i buf try_flush =>
    obtain ⟨app,rfl | rfl⟩ := step_send h
    · exact ⟨hno,hun,hop,hnew,hcount,hq⟩
    · exact ⟨hno,hun,hop,hnew,hcount.append (Nat.zero_le _) buf,
        fun k hk => (hq k hk).append (hop k) buf⟩
  | flushAll i =>
    obtain ⟨app,rfl⟩ := step_flushAll h
    exact ⟨hno,hun,hop,hnew,hcount,hq⟩
  | enter i timeout => exact hiso.enter h
  | app a => exact hiso.app h
  | writeAble =>
    obtain ⟨sock,hp,hfd,rfl⟩ := step_writeAble h
    apply hiso.setPoller (by rw [hp]; rfl)
    intro k h
    cases h
    exact hnew sock (.inl hfd)
  | poller a =>
    have hlast (k : ℕ) (h : s.poller.sock = some k) : k + 1 = s.socket.fds := hnew k (.inr (.inr h))
    obtain ⟨sock,pc,u,out,hp,hf,rfl⟩ | ⟨sock,hp,rfl⟩ | ⟨sock,w,hp,pc,hpc,rfl⟩ | ⟨hp,p,hpp,rfl⟩ |
      ⟨hp,hh,rfl⟩ := step_poller h
    · exact hiso.pollerFlush hp hf
    · rw [hp] at hlast
      exact hiso.setPoller (by rw [hp]; rfl) hlast
    · rw [hp] at hlast
      rcases hpc with rfl | rfl <;> exact hiso.setPoller (by rw [hp]; rfl) hlast
    · rcases hpp with rfl | rfl <;> exact hiso.setPoller (by rw [hp]; rfl) (by simp [Poller.sock])
    · exact (hiso.setPoller (p := .idle) (by rw [hp]; rfl) (by simp [Poller.sock])).closeSock
  | closeSock =>
    simp only [step] at h
    split at h
    · cases h
    · cases h
      exact hiso.closeSock
  | install =>
    simp only [step] at h
    split at h
    · rename_i hh hp
      cases h
      exact hiso.install hc hh hp
    · cases h
  | onConnected =>
    simp only [step] at h
    split at h
    · split at h
      · cases h
      · cases h
        exact ⟨hno,hun,hop,hnew,⟨hcount.since,hcount.counted⟩,
          fun k hk => ⟨(hq k hk).since,(hq k hk).counted⟩⟩
    · cases h

/-- In every run of a socket object the connections are isolated if each new fd finds the caches
without a byte from before the last close. -/
theorem connections_isolated (labels : List (Label I))
    (hc : EveryStep step InstallsClean (State.fresh : State I) labels) :
    EveryState step NoCrossing (State.fresh : State I) labels :=
  (hc.preserves (fun _ _ _ hs h ht => step_isolated hs h ht) isolated_fresh).mono
    fun _ hs => hs.noCrossing

/-- A message that is sent whole, a close, and a message on the next connection. -/
theorem connections_isolated_two : EveryState step NoCrossing (State.fresh : State Unit)
    [.install,.onConnected,.send () [1] true,.enter () false,.app .go,.app .go,.app (.accept 1),
      .closeSock,.install,.onConnected,.send () [2] true,.enter () false,.app .go,.app .go,
      .app (.accept 1)] :=
  connections_isolated _ (by decide)

/-- The second half of a message that was half sent before a close goes out on the next connection. -/
theorem half_message_crosses : ¬ EveryState step NoCrossing (State.fresh : State Unit)
    [.install,.onConnected,.send () [1,2] true,.enter () false,.app .go,.app .go,.app (.accept 1),
      .app .again,.app .go,.app .go,.app .go,.closeSock,.install,.onConnected,.writeAble,
      .poller .go,.poller .go,.poller .go,.poller (.accept 1)] := by
  intro h
  have hl := h.last rfl 1 ⟨2,0⟩ (by decide)
  revert hl
  decide

end OctCommu.Network
