import OctCommu.Lib.Runs
import Mathlib.Logic.Function.Basic

/-! # The error event of a `Socket`

`emitErr` finds an fd under the lock, and takes the lock a second time to clear it.
Only the thread of the poller runs `_on_err`; what another thread posts waits in the
list of the poller. Each lock section is one step.
-/
namespace OctCommu.Network
open Runs

/-- How far a thread is inside `emitErr`. -/
inductive ErrPc where
  | idle
  /-- The check found this fd. -/
  | checked (fd : ℕ)
  /-- And `closeSock` has returned. -/
  | closed (fd : ℕ)
  deriving DecidableEq

def ErrPc.fd : ErrPc → Option ℕ
  | .idle => none
  | .checked fd | .closed fd => some fd

structure ErrSocket (I : Type*) where
  _sock_fd : Option ℕ
  /-- How many fds were saved in `_sock_fd` so far; they are numbered in this order. -/
  fds : ℕ
  pc : I → ErrPc
  /-- The tasks in the list of the poller, each with the fd its check found. -/
  tasks : List ℕ
  /-- The fds of the calls of `_on_err`. -/
  runs : List ℕ

inductive ErrAct (I : Type*) where
  /-- A call of `emitErr`, up to the end of its first lock section. -/
  | emitErr (i : I)
  /-- `closeSock`, as a call of its own or as the next line of `emitErr`. -/
  | closeSock (i : I)
  /-- The last line of `emitErr`. -/
  | async (i : I)
  /-- A call of `flushAll` that cannot send; it holds the lock until `emitErr` returns. -/
  | flushAll (i : I)
  /-- A new fd is saved. -/
  | connect (i : I)
  /-- The poller runs its next task. -/
  | on_err

/-- The steps that only bring to an end what `emitErr` began. -/
def ErrAct.Completes {I : Type*} : ErrAct I → Prop
  | .closeSock _ | .async _ | .on_err => True
  | .emitErr _ | .flushAll _ | .connect _ => False

namespace ErrSocket
variable {I : Type*}

def fresh : ErrSocket I := ⟨none,0,fun _ => .idle,[],[]⟩

def closeSock (s : ErrSocket I) : ErrSocket I := { s with _sock_fd := none }

/-- What was posted, called or not. -/
def posted (s : ErrSocket I) : List ℕ := s.runs ++ s.tasks

/-- Each fd has at most one call of `_on_err`. -/
def OnceEach (s : ErrSocket I) : Prop := s.runs.Nodup

/-- A check finds no fd that another thread found and has not cleared yet. -/
def Alone (s : ErrSocket I) : ErrAct I → Prop
  | .emitErr _ | .flushAll _ => ∀ fd, s._sock_fd = some fd → ∀ j, s.pc j ≠ .checked fd
  | _ => True

section
variable [DecidableEq I]

def setPc (s : ErrSocket I) (i : I) (pc : ErrPc) : ErrSocket I :=
  { s with pc := Function.update s.pc i pc }

/-- The thread of the poller runs the task at once. -/
def async (s : ErrSocket I) (poller i : I) (fd : ℕ) : ErrSocket I :=
  if i = poller then { s with runs := s.runs ++ [fd] } else { s with tasks := s.tasks ++ [fd] }

def step (poller : I) (s : ErrSocket I) : ErrAct I → Option (ErrSocket I)
  | .emitErr i =>
    match s.pc i,s._sock_fd with
    | .idle,some fd => some (s.setPc i (.checked fd))
    | .idle,none => some s
    | _,_ => none
  | .closeSock i =>
    match s.pc i with
    | .idle => some s.closeSock
    | .checked fd => some (s.closeSock.setPc i (.closed fd))
    | .closed _ => none
  | .async i =>
    match s.pc i with
    | .closed fd => some ((s.setPc i .idle).async poller i fd)
    | _ => none
  | .flushAll i =>
    match s.pc i,s._sock_fd with
    | .idle,some fd => some (s.closeSock.async poller i fd)
    | .idle,none => some s
    | _,_ => none
  | .connect i =>
    match s.pc i with
    | .idle => some { s with _sock_fd := some s.fds, fds := s.fds + 1 }
    | _ => none
  | .on_err =>
    match s.pc poller,s.tasks with
    | .idle,fd :: tasks => some { s with tasks := tasks, runs := s.runs ++ [fd] }
    | _,_ => none

end

/-- An fd is owed to at most one thread, and to none once it was posted. -/
structure Inv (s : ErrSocket I) : Prop where
  once : s.posted.Nodup
  known : ∀ fd ∈ s.posted, fd < s.fds
  sock : ∀ fd, s._sock_fd = some fd → fd < s.fds ∧ fd ∉ s.posted ∧ ∀ i, s.pc i ≠ .closed fd
  owed : ∀ i fd, (s.pc i).fd = some fd → fd < s.fds ∧ fd ∉ s.posted
  apart : ∀ i j fd, (s.pc i).fd = some fd → (s.pc j).fd = some fd → i = j

theorem inv_fresh : (fresh : ErrSocket I).Inv := by
  constructor <;> simp [fresh, posted, ErrPc.fd]

theorem Inv.onceEach {s : ErrSocket I} (h : s.Inv) : s.OnceEach :=
  (List.nodup_append.mp h.once).1

/-- The poller takes the first task. -/
theorem posted_on_err {s : ErrSocket I} {fd : ℕ} {tasks : List ℕ} (h : s.tasks = fd :: tasks) :
    { s with tasks := tasks, runs := s.runs ++ [fd] }.posted = s.posted := by
  simp only [posted, h, List.append_assoc, List.singleton_append]

theorem Inv.closeSock {s : ErrSocket I} (h : s.Inv) : s.closeSock.Inv :=
  ⟨h.once,h.known,fun _ hs => (nomatch hs),h.owed,h.apart⟩

/-- The fd in `_sock_fd` is owed to no thread if the check may find it. -/
theorem Inv.unowed {s : ErrSocket I} (h : s.Inv) {fd : ℕ} (hs : s._sock_fd = some fd)
    (halone : ∀ j, s.pc j ≠ .checked fd) (j : I) : (s.pc j).fd ≠ some fd := by
  intro hj
  cases hpc : s.pc j with
  | idle => simp [hpc, ErrPc.fd] at hj
  | checked k =>
    obtain rfl : k = fd := by simpa [hpc, ErrPc.fd] using hj
    exact halone j hpc
  | closed k =>
    obtain rfl : k = fd := by simpa [hpc, ErrPc.fd] using hj
    exact (h.sock k hs).2.2 j hpc

section
variable [DecidableEq I] {poller : I} {s t : ErrSocket I}

@[simp] theorem setPc_pc_self (i : I) (pc : ErrPc) : (s.setPc i pc).pc i = pc := by
  simp only [setPc, Function.update_self]

theorem setPc_pc_of_ne {i j : I} (h : j ≠ i) (pc : ErrPc) : (s.setPc i pc).pc j = s.pc j := by
  simp only [setPc, Function.update_of_ne h]

@[simp] theorem async_pc (i : I) (fd : ℕ) : (s.async poller i fd).pc = s.pc := by
  unfold async
  split <;> rfl

@[simp] theorem async_sock (i : I) (fd : ℕ) : (s.async poller i fd)._sock_fd = s._sock_fd := by
  unfold async
  split <;> rfl

@[simp] theorem async_fds (i : I) (fd : ℕ) : (s.async poller i fd).fds = s.fds := by
  unfold async
  split <;> rfl

/-- Whoever posts, one more fd is posted. -/
theorem posted_async (i : I) (fd : ℕ) : (s.async poller i fd).posted.Perm (fd :: s.posted) := by
  unfold async posted
  split
  · rw [List.append_assoc]
    exact List.perm_middle
  · rw [← List.append_assoc]
    exact List.perm_append_singleton fd _

theorem mem_posted_async {i : I} {fd k : ℕ} :
    k ∈ (s.async poller i fd).posted ↔ k = fd ∨ k ∈ s.posted := by
  rw [(posted_async i fd).mem_iff, List.mem_cons]

/-- Thread `i` goes on with an fd that is owed to no other. -/
theorem Inv.setPc (h : s.Inv) {i : I} {pc : ErrPc}
    (hown : ∀ fd, pc.fd = some fd → fd < s.fds ∧ fd ∉ s.posted ∧ ∀ j, j ≠ i → (s.pc j).fd ≠ some fd)
    (hclosed : ∀ fd, s._sock_fd = some fd → pc ≠ .closed fd) : (s.setPc i pc).Inv where
  once := h.once
  known := h.known
  sock := by
    intro fd hs
    obtain ⟨hlt,hnew,hpc⟩ := h.sock fd hs
    refine ⟨hlt,hnew,fun j => ?_⟩
    rcases eq_or_ne j i with rfl | hne
    · rw [setPc_pc_self]
      exact hclosed fd hs
    · rw [setPc_pc_of_ne hne]
      exact hpc j
  owed := by
    intro j fd hj
    rcases eq_or_ne j i with rfl | hne
    · rw [setPc_pc_self] at hj
      exact ⟨(hown fd hj).1,(hown fd hj).2.1⟩
    · rw [setPc_pc_of_ne hne] at hj
      exact h.owed j fd hj
  apart := by
    intro j k fd hj hk
    rcases eq_or_ne j i with rfl | hji <;> rcases eq_or_ne k j with rfl | hkj
    · rfl
    · rw [setPc_pc_self] at hj
      rw [setPc_pc_of_ne hkj] at hk
      exact absurd hk ((hown fd hj).2.2 k hkj)
    · rfl
    · rw [setPc_pc_of_ne hji] at hj
      rcases eq_or_ne k i with rfl | hki
      · rw [setPc_pc_self] at hk
        exact absurd hj ((hown fd hk).2.2 j hji)
      · rw [setPc_pc_of_ne hki] at hk
        exact h.apart j k fd hj hk

/-- A posted fd must be owed to no thread any more. -/
theorem Inv.async (h : s.Inv) {fd : ℕ} (hlt : fd < s.fds) (hnew : fd ∉ s.posted)
    (hsock : s._sock_fd ≠ some fd) (hpc : ∀ j, (s.pc j).fd ≠ some fd) (i : I) :
    (s.async poller i fd).Inv where
  once := (posted_async i fd).nodup_iff.mpr (List.nodup_cons.mpr ⟨hnew,h.once⟩)
  known := by
    intro k hk
    rw [async_fds]
    rcases mem_posted_async.mp hk with rfl | hk
    · exact hlt
    · exact h.known k hk
  sock := by
    intro k hs
    rw [async_sock] at hs
    obtain ⟨hk,hknew,hclosed⟩ := h.sock k hs
    rw [async_fds, async_pc, mem_posted_async]
    refine ⟨hk,?_,hclosed⟩
    rintro (rfl | hmem)
    · exact hsock hs
    · exact hknew hmem
  owed := by
    intro j k hj
    rw [async_pc] at hj
    obtain ⟨hk,hknew⟩ := h.owed j k hj
    rw [async_fds, mem_posted_async]
    refine ⟨hk,?_⟩
    rintro (rfl | hmem)
    · exact hpc j hj
    · exact hknew hmem
  apart := by
    rw [async_pc]
    exact h.apart

theorem step_good {a : ErrAct I} (h : s.Inv) (hc : s.Alone a) (ht : step poller s a = some t) :
    t.Inv := by
  cases a with
  | emitErr i =>
    simp only [step] at ht
    split at ht
    · rename_i fd _ hs
      cases ht
      apply h.setPc
      · rintro k ⟨⟩
        exact ⟨(h.sock fd hs).1,(h.sock fd hs).2.1,fun j _ => h.unowed hs (hc fd hs) j⟩
      · simp
    · cases ht
      exact h
    · cases ht
  | closeSock i =>
    simp only [step] at ht
    split at ht
    · cases ht
      exact h.closeSock
    · rename_i fd hpc
      cases ht
      have hown : (s.pc i).fd = some fd := by rw [hpc]; rfl
      apply h.closeSock.setPc
      · rintro k ⟨⟩
        refine ⟨(h.owed i fd hown).1,(h.owed i fd hown).2,fun j hne hj => ?_⟩
        exact hne (h.apart j i fd hj hown)
      · rintro k ⟨⟩
    · cases ht
  | async i =>
    simp only [step] at ht
    split at ht
    · rename_i fd hpc
      cases ht
      have hown : (s.pc i).fd = some fd := by rw [hpc]; rfl
      have hidle : (s.setPc i .idle).Inv := h.setPc (by rintro k ⟨⟩) (by simp)
      refine hidle.async (h.owed i fd hown).1 (h.owed i fd hown).2 ?_ ?_ i
      · intro hs
        exact (h.sock fd hs).2.2 i hpc
      · intro j hj
        rcases eq_or_ne j i with rfl | hne
        · simp [ErrPc.fd] at hj
        · rw [setPc_pc_of_ne hne] at hj
          exact hne (h.apart j i fd hj hown)
    · cases ht
  | flushAll i =>
    simp only [step] at ht
    split at ht
    · rename_i fd _ hs
      cases ht
      refine h.closeSock.async (h.sock fd hs).1 (h.sock fd hs).2.1 ?_ ?_ i
      · simp [ErrSocket.closeSock]
      · exact h.unowed hs (hc fd hs)
    · cases ht
      exact h
    · cases ht
  | connect i =>
    simp only [step] at ht
    split at ht
    · cases ht
      refine ⟨h.once,fun k hk => (h.known k hk).trans (Nat.lt_succ_self _),?_,?_,h.apart⟩
      · rintro k ⟨⟩
        refine ⟨Nat.lt_succ_self _,fun hmem => absurd (h.known _ hmem) (Nat.lt_irrefl _),?_⟩
        intro j hj
        exact absurd (h.owed j s.fds (by rw [show s.pc j = _ from hj]; rfl)).1 (Nat.lt_irrefl _)
      · intro j k hj
        exact ⟨(h.owed j k hj).1.trans (Nat.lt_succ_self _),(h.owed j k hj).2⟩
    · cases ht
  | on_err =>
    simp only [step] at ht
    split at ht
    · rename_i fd tasks _ htasks
      cases ht
      refine ⟨?_,?_,?_,?_,h.apart⟩ <;> rw [posted_on_err htasks]
      · exact h.once
      · exact h.known
      · exact h.sock
      · exact h.owed
    · cases ht

/-- The calls under way may still lead to a second event for an fd. -/
def CanDouble (poller : I) (s : ErrSocket I) : Prop :=
  ∃ bs t, (∀ b ∈ bs, b.Completes) ∧ exec (step poller) s bs = some t ∧ ¬ t.OnceEach

theorem CanDouble.cons {a : ErrAct I} (h : t.CanDouble poller) (ha : a.Completes)
    (ht : step poller s a = some t) : s.CanDouble poller := by
  obtain ⟨bs,u,hbs,hu,hd⟩ := h
  refine ⟨a :: bs,u,?_,exec_cons ht hu,hd⟩
  intro b hb
  rcases List.mem_cons.mp hb with rfl | hb
  · exact ha
  · exact hbs b hb

/-- The poller comes to all that was posted. -/
theorem canDouble_of_idle (hpc : s.pc poller = .idle) (hd : ¬ s.posted.Nodup) :
    s.CanDouble poller := by
  generalize htasks : s.tasks = tasks
  induction tasks generalizing s with
  | nil =>
    refine ⟨[],s,by simp,rfl,?_⟩
    rwa [posted, htasks, List.append_nil] at hd
  | cons fd tasks ih =>
    have ht : step poller s .on_err = some { s with tasks := tasks, runs := s.runs ++ [fd] } := by
      simp only [step, hpc, htasks]
    refine (ih (s := { s with tasks := tasks, runs := s.runs ++ [fd] }) hpc ?_ rfl).cons (a := .on_err) trivial ht
    rwa [posted_on_err htasks]

/-- `emitErr` of thread `i` ends with a post. -/
theorem canDouble_of_async {i : I} {fd : ℕ} (hpc : s.pc i = .closed fd)
    (h : ((s.setPc i .idle).async poller i fd).CanDouble poller) : s.CanDouble poller :=
  h.cons (a := .async i) trivial (by simp only [step, hpc])

theorem canDouble_of_closeSock {i : I} {fd : ℕ} (hpc : s.pc i = .checked fd)
    (h : ((s.closeSock.setPc i .idle).async poller i fd).CanDouble poller) : s.CanDouble poller := by
  have hc : (s.closeSock.setPc i (.closed fd)).CanDouble poller := by
    apply canDouble_of_async (setPc_pc_self i _)
    have hsame : (s.closeSock.setPc i (.closed fd)).setPc i .idle = s.closeSock.setPc i .idle := by
      simp only [setPc, Function.update_idem]
    rwa [hsame]
  exact hc.cons (a := .closeSock i) trivial (by simp only [step, hpc])

theorem not_nodup_async (hd : ¬ s.posted.Nodup) (i : I) (fd : ℕ) :
    ¬ (s.async poller i fd).posted.Nodup := by
  rw [(posted_async i fd).nodup_iff]
  exact fun h => hd (List.nodup_cons.mp h).2

theorem canDouble_of_posted (hd : ¬ s.posted.Nodup) : s.CanDouble poller := by
  cases hpc : s.pc poller with
  | idle => exact canDouble_of_idle hpc hd
  | checked fd =>
    apply canDouble_of_closeSock hpc
    apply canDouble_of_idle
    · rw [async_pc, setPc_pc_self]
    · exact not_nodup_async (s := s.closeSock.setPc poller .idle) hd poller fd
  | closed fd =>
    apply canDouble_of_async hpc
    apply canDouble_of_idle
    · rw [async_pc, setPc_pc_self]
    · exact not_nodup_async (s := s.setPc poller .idle) hd poller fd

theorem canDouble_of_checked {j : I} {fd : ℕ} (hpc : s.pc j = .checked fd) (hmem : fd ∈ s.posted) :
    s.CanDouble poller := by
  apply canDouble_of_closeSock hpc
  apply canDouble_of_posted
  rw [(posted_async j fd).nodup_iff]
  exact fun h => (List.nodup_cons.mp h).1 hmem

/-- Two threads that found the same fd both post it. -/
theorem step_bad {a : ErrAct I} (hc : ¬ s.Alone a) (ht : step poller s a = some t) :
    t.CanDouble poller := by
  cases a with
  | emitErr i =>
    simp only [Alone, not_forall, not_not] at hc
    obtain ⟨fd,hs,j,hj⟩ := hc
    simp only [step, hs] at ht
    split at ht
    · rename_i k hi hk
      cases ht
      cases hk
      have hne : j ≠ i := by
        rintro rfl
        rw [hi] at hj
        cases hj
      apply canDouble_of_closeSock (setPc_pc_self i _)
      apply canDouble_of_checked (j := j)
      · rw [async_pc, setPc_pc_of_ne hne]
        exact (setPc_pc_of_ne hne _).trans hj
      · exact mem_posted_async.mpr (.inl rfl)
    · rename_i hk
      cases hk
    · cases ht
  | flushAll i =>
    simp only [Alone, not_forall, not_not] at hc
    obtain ⟨fd,hs,j,hj⟩ := hc
    simp only [step, hs] at ht
    split at ht
    · rename_i k _ hk
      cases ht
      cases hk
      apply canDouble_of_checked (j := j)
      · rwa [async_pc]
      · exact mem_posted_async.mpr (.inl rfl)
    · rename_i hk
      cases hk
    · cases ht
  | closeSock i | async i | connect i | on_err => exact absurd trivial hc

/-- However a run is cut off and what is under way completed, no fd has a second event, just as long
as no check finds what another thread is about to clear. -/
theorem alone_iff_onceEach (poller : I) (as : List (ErrAct I)) :
    EveryStep (step poller) Alone fresh as ↔
      ∀ pre bs, pre <+: as → (∀ b ∈ bs, b.Completes) →
        EveryState (step poller) OnceEach fresh (pre ++ bs) := by
  constructor
  · intro h pre bs hpre hbs
    have hrun : EveryStep (step poller) Alone fresh (pre ++ bs) := by
      apply (h.of_prefix hpre).append
      intro t _
      apply (everyStep_of_label t hbs).mono
      intro u b hb
      cases b with
      | closeSock i | async i | on_err => trivial
      | emitErr i | flushAll i | connect i => exact hb.elim
    refine (hrun.preserves ?_ inv_fresh).mono fun u hu => hu.onceEach
    intro u b v hu hb hv
    exact step_good hu hb hv
  · intro h
    apply everyStep_iff.mpr
    intro pre a t u hpre ht hu
    by_contra hc
    obtain ⟨bs,v,hbs,hv,hd⟩ := step_bad hc hu
    apply hd
    apply (h (pre ++ [a]) bs hpre hbs).last
    rw [exec_append, exec_append, ht]
    simp only [Option.bind_some, exec, hu, hv]

/-- The application shuts down while the poller sees a read error. -/
theorem not_onceEach_two_checks : ¬ EveryState (step false) OnceEach fresh
    [.connect false,.emitErr true,.emitErr false,.closeSock false,.async false,.closeSock true,
      .async true,.on_err] := by
  intro h
  exact absurd (h.last rfl) (by unfold OnceEach; decide)

end

end ErrSocket
end OctCommu.Network
