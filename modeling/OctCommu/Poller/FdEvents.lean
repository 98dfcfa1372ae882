import OctCommu.Lib.Runs
import Mathlib.Data.List.Basic
import Mathlib.Logic.Function.Basic

/-! # The file descriptors of an `EventPoller`

One poller with `epoll`, the files that are opened and the threads that own them. The
number of a file descriptor is used again once it is closed; files are numbered as
they are opened. A callback is known by the file it was added for. `epoll_ctl` fails on
a number that is not open, on one that is there twice and on one that is missing.
-/
namespace OctCommu.Poller
open Runs

/-- The `SockFD` of a file for this poller, of which there is one at a time. -/
inductive SockState where
  | absent
  | held
  /-- its destructor has posted `delEvent` -/
  | releasing
  deriving DecidableEq

structure SockFile where
  fd : ℕ
  sock : SockState
  /-- how many pollers besides have one -/
  elsewhere : ℕ
  /-- whether `addEvent` was the last to be carried out for it -/
  added : Bool

/-- `delEvent` may bring the last reference to the file, which then closes it. -/
inductive FdTask where
  | addEvent (f : ℕ)
  | delEvent (f : ℕ) (release : Bool)
  deriving DecidableEq

def FdTask.file : FdTask → ℕ
  | .addEvent f => f
  | .delEvent f _ => f

structure EventCall where
  fd : ℕ
  callback : ℕ
  /-- the file that has the number at the time -/
  current : Option ℕ

structure FdPoller where
  files : List SockFile
  /-- the process's table of file descriptors -/
  fds : ℕ → Option ℕ
  /-- what the kernel watches, with the file it was given -/
  epoll : ℕ → Option ℕ
  _event_map : ℕ → Option ℕ
  _list_task : List FdTask
  /-- what is left of the array `epoll_wait` has filled; an entry is a number, not a file -/
  events : List ℕ
  called : List EventCall

inductive FdAct where
  | opened (fd elsewhere : ℕ) (here : Bool)
  | clone (f : ℕ)
  | share (f : ℕ)
  | unshare (f : ℕ)
  | addEvent (f : ℕ) (isCurrentThread : Bool)
  | delEvent (f : ℕ) (isCurrentThread : Bool)
  | release (f : ℕ) (isCurrentThread : Bool)
  | runTask
  | epoll_wait (fds : List ℕ)
  | dispatch

namespace FdPoller

def fresh : FdPoller := ⟨[],fun _ => none,fun _ => none,fun _ => none,[],[],[]⟩

def set (s : FdPoller) (f : ℕ) (x : SockFile) : FdPoller := { s with files := s.files.set f x }

def EPOLL_CTL_ADD (s : FdPoller) (fd : ℕ) : Option FdPoller :=
  match s.fds fd, s.epoll fd with
  | some g, none => some { s with epoll := Function.update s.epoll fd (some g) }
  | _, _ => none

def EPOLL_CTL_DEL (s : FdPoller) (fd : ℕ) : Option FdPoller :=
  match s.fds fd, s.epoll fd with
  | some _, some _ => some { s with epoll := Function.update s.epoll fd none }
  | _, _ => none

/-- On the thread of the poller; `emplace` leaves an entry that is there. -/
def addEvent (s : FdPoller) (fd f : ℕ) : FdPoller :=
  match s.EPOLL_CTL_ADD fd with
  | some t =>
    { t with _event_map := if (t._event_map fd).isSome then t._event_map
      else Function.update t._event_map fd (some f) }
  | none => s

def delEvent (s : FdPoller) (fd : ℕ) : FdPoller :=
  match s.EPOLL_CTL_DEL fd with
  | some t => { t with _event_map := Function.update t._event_map fd none }
  | none => s

/-- The last reference to the number of a file closes it, and the kernel forgets it. -/
def closeUnless (s : FdPoller) (x : SockFile) : FdPoller :=
  if x.sock = .absent ∧ x.elsewhere = 0 then
    { s with
      fds := Function.update s.fds x.fd none
      epoll := Function.update s.epoll x.fd none }
  else s

def runAdd (s : FdPoller) (f : ℕ) (x : SockFile) : FdPoller :=
  (s.addEvent x.fd f).set f { x with added := true }

def runDel (s : FdPoller) (f : ℕ) (x : SockFile) (release : Bool) : FdPoller :=
  let y := { x with added := false, sock := if release then .absent else x.sock }
  ((s.delEvent x.fd).set f y).closeUnless y

def async (s : FdPoller) (t : FdTask) : FdPoller := { s with _list_task := s._list_task ++ [t] }

/-- Code that has the file. -/
def owned (s : FdPoller) (f : ℕ) (act : SockFile → FdPoller) : Option FdPoller :=
  s.files[f]?.bind fun x => if x.sock = .held then some (act x) else none

def isOpen (x : SockFile) : Bool := x.sock ≠ .absent || 0 < x.elsewhere

def step (s : FdPoller) : FdAct → Option FdPoller
  | .opened fd elsewhere here =>
    if s.fds fd = none ∧ (here ∨ 0 < elsewhere) then
      some { s with
        files := s.files ++ [⟨fd,if here then .held else .absent,elsewhere,false⟩]
        fds := Function.update s.fds fd (some s.files.length) }
    else none
  | .clone f => s.files[f]?.bind fun x =>
      if x.sock = .absent ∧ 0 < x.elsewhere then some (s.set f { x with sock := .held }) else none
  | .share f => s.files[f]?.bind fun x =>
      if isOpen x then some (s.set f { x with elsewhere := x.elsewhere + 1 }) else none
  | .unshare f => s.files[f]?.bind fun x =>
      if 0 < x.elsewhere then
        let y := { x with elsewhere := x.elsewhere - 1 }
        some ((s.set f y).closeUnless y)
      else none
  | .addEvent f isCurrentThread => s.owned f fun x =>
      if isCurrentThread then s.runAdd f x else s.async (.addEvent f)
  | .delEvent f isCurrentThread => s.owned f fun x =>
      if isCurrentThread then s.runDel f x false else s.async (.delEvent f false)
  | .release f isCurrentThread => s.owned f fun x =>
      if isCurrentThread then s.runDel f x true
      else (s.set f { x with sock := .releasing }).async (.delEvent f true)
  | .runTask =>
    match s._list_task with
    | [] => none
    | .addEvent f :: rest => s.files[f]?.map fun x => runAdd { s with _list_task := rest } f x
    | .delEvent f release :: rest => s.files[f]?.map fun x =>
        runDel { s with _list_task := rest } f x release
  | .epoll_wait fds =>
    if s.events = [] then some { s with events := fds.filter fun fd => (s.epoll fd).isSome }
    else none
  | .dispatch =>
    match s.events with
    | [] => none
    | fd :: rest =>
      let s := { s with events := rest }
      match s._event_map fd with
      | none => some ((s.EPOLL_CTL_DEL fd).getD s)
      | some callback =>
        some { s with called := s.called ++ [⟨fd,callback,s.fds fd⟩] }

/-- The owner's destructor does not overtake what is queued for its file. -/
def InOrder (s : FdPoller) : FdAct → Prop
  | .release f true => ∀ t ∈ s._list_task, t.file ≠ f
  | _ => True

structure Sound (s : FdPoller) : Prop where
  /-- the map has what the kernel watches, and each callback is for the file that has the number -/
  agree : ∀ fd f, s._event_map fd = some f ↔ s.epoll fd = some f
  current : ∀ fd f, s._event_map fd = some f → s.fds fd = some f
  /-- a file is watched from `addEvent` until `delEvent` -/
  watched : ∀ (f : ℕ) (x : SockFile), s.files[f]? = some x → (s._event_map x.fd = some f ↔ x.added = true)
  called : ∀ e ∈ s.called, e.current = some e.callback
  /-- what is queued is for a file that is still there -/
  queued : ∀ t ∈ s._list_task, ∃ x, s.files[t.file]? = some x ∧ x.sock ≠ .absent

structure Inv (s : FdPoller) : Prop extends Sound s where
  valid : ∀ fd f, s.fds fd = some f → ∃ x, s.files[f]? = some x ∧ x.fd = fd
  opens : ∀ (f : ℕ) (x : SockFile), s.files[f]? = some x → (isOpen x = true ↔ s.fds x.fd = some f)
  kept : ∀ (f : ℕ) (x : SockFile), s.files[f]? = some x → x.added = true → x.sock ≠ .absent
  releasing : ∀ (f : ℕ) (x : SockFile), .delEvent f true ∈ s._list_task → s.files[f]? = some x → x.sock = .releasing
  last : s._list_task.Pairwise fun a b => ∀ f, a = .delEvent f true → b.file ≠ f

variable {s t : FdPoller} {f : ℕ} {x y : SockFile}

theorem inv_fresh : fresh.Inv where
  agree _ _ := Iff.rfl
  current _ _ h := by cases h
  watched _ _ h := by simp [fresh] at h
  called _ h := absurd h List.not_mem_nil
  queued _ h := absurd h List.not_mem_nil
  valid _ _ h := by cases h
  opens _ _ h := by simp [fresh] at h
  kept _ _ h := by simp [fresh] at h
  releasing _ _ h := absurd h List.not_mem_nil
  last := List.Pairwise.nil

theorem isOpen_of_sock (h : x.sock ≠ .absent) : isOpen x = true := by simp [isOpen, h]

/-- The number of a file that is there is watched for it or not at all. -/
theorem Inv.epoll_cases (h : s.Inv) (hx : s.files[f]? = some x) (hopen : isOpen x = true) :
    s.fds x.fd = some f ∧ (s.epoll x.fd = none ∧ s._event_map x.fd = none ∨
      s.epoll x.fd = some f ∧ s._event_map x.fd = some f) := by
  have hfd := (h.opens f x hx).mp hopen
  refine ⟨hfd,?_⟩
  cases hm : s._event_map x.fd with
  | none =>
    left
    refine ⟨?_,rfl⟩
    cases he : s.epoll x.fd with
    | none => rfl
    | some g =>
      rw [(h.agree _ _).mpr he] at hm
      cases hm
  | some g =>
    right
    have hg := h.current _ _ hm
    rw [hfd] at hg
    obtain rfl := Option.some.inj hg
    exact ⟨(h.agree _ _).mp hm,rfl⟩

theorem Inv.addEvent_eq (h : s.Inv) (hx : s.files[f]? = some x) (hopen : isOpen x = true) :
    s.addEvent x.fd f = { s with
      epoll := Function.update s.epoll x.fd (some f)
      _event_map := Function.update s._event_map x.fd (some f) } := by
  obtain ⟨hfd,⟨he,hm⟩ | ⟨he,hm⟩⟩ := h.epoll_cases hx hopen
  · simp [addEvent, EPOLL_CTL_ADD, hfd, he, hm]
  · have he' : Function.update s.epoll x.fd (some f) = s.epoll := by rw [← he, Function.update_eq_self]
    have hm' : Function.update s._event_map x.fd (some f) = s._event_map := by
      rw [← hm, Function.update_eq_self]
    simp only [addEvent, EPOLL_CTL_ADD, hfd, he, he', hm']

theorem Inv.delEvent_eq (h : s.Inv) (hx : s.files[f]? = some x) (hopen : isOpen x = true) :
    s.delEvent x.fd = { s with
      epoll := Function.update s.epoll x.fd none
      _event_map := Function.update s._event_map x.fd none } := by
  obtain ⟨hfd,⟨he,hm⟩ | ⟨he,hm⟩⟩ := h.epoll_cases hx hopen
  · have he' : Function.update s.epoll x.fd none = s.epoll := by rw [← he, Function.update_eq_self]
    have hm' : Function.update s._event_map x.fd none = s._event_map := by
      rw [← hm, Function.update_eq_self]
    simp only [delEvent, EPOLL_CTL_DEL, hfd, he, he', hm']
  · simp [delEvent, EPOLL_CTL_DEL, hfd, he]

/-- Two files that are there have two numbers. -/
theorem Inv.fd_ne (h : s.Inv) {g : ℕ} (hne : g ≠ f) (hx : s.files[f]? = some x) (hopen : isOpen x = true)
    (hg : s.fds y.fd = some g) : y.fd ≠ x.fd := by
  intro hfd
  rw [hfd, (h.opens f x hx).mp hopen] at hg
  exact hne (Option.some.inj hg).symm

/-- What a step may do with the tasks when it changes one file. -/
structure Queues (t : FdPoller) : Prop where
  queued : ∀ a ∈ t._list_task, ∃ x, t.files[a.file]? = some x ∧ x.sock ≠ .absent
  releasing : ∀ (f : ℕ) (x : SockFile), .delEvent f true ∈ t._list_task → t.files[f]? = some x →
    x.sock = .releasing
  last : t._list_task.Pairwise fun a b => ∀ f, a = .delEvent f true → b.file ≠ f

/-- The file `x` becomes `y`; only the entries of its number change. -/
structure Changes (s t : FdPoller) (f : ℕ) (x y : SockFile) : Prop where
  files : t.files = s.files.set f y
  called : t.called = s.called
  fd : y.fd = x.fd
  others : ∀ fd, fd ≠ x.fd →
    t.fds fd = s.fds fd ∧ t.epoll fd = s.epoll fd ∧ t._event_map fd = s._event_map fd
  fds : t.fds x.fd = if isOpen y then some f else none
  epoll : t.epoll x.fd = t._event_map x.fd
  map : t._event_map x.fd = if y.added then some f else none
  kept : y.added = true → y.sock ≠ .absent

theorem Inv.changes (h : s.Inv) (hx : s.files[f]? = some x) (hopen : isOpen x = true)
    (hc : s.Changes t f x y) (hq : t.Queues) : t.Inv := by
  have hlt := (List.getElem?_eq_some_iff.mp hx).1
  have hfiles : ∀ (g : ℕ) (z : SockFile), t.files[g]? = some z →
      g = f ∧ z = y ∨ g ≠ f ∧ s.files[g]? = some z := by
    intro g z hz
    rw [hc.files, List.getElem?_set] at hz
    by_cases hgf : f = g
    · simp only [hgf, if_true] at hz
      split at hz
      · exact Or.inl ⟨hgf.symm,(Option.some.inj hz).symm⟩
      · cases hz
    · rw [if_neg hgf] at hz
      exact Or.inr ⟨Ne.symm hgf,hz⟩
  have hnumber : s.fds x.fd = some f := (h.opens f x hx).mp hopen
  constructor
  · constructor
    · intro fd g
      by_cases hfd : fd = x.fd
      · rw [hfd, hc.epoll]
      · rw [(hc.others fd hfd).2.1, (hc.others fd hfd).2.2]
        exact h.agree fd g
    · intro fd g hm
      by_cases hfd : fd = x.fd
      · subst hfd
        rw [hc.map] at hm
        split at hm
        · rename_i hadded
          obtain rfl := Option.some.inj hm
          rw [hc.fds, if_pos (isOpen_of_sock (hc.kept hadded))]
        · cases hm
      · rw [(hc.others fd hfd).2.2] at hm
        rw [(hc.others fd hfd).1]
        exact h.current fd g hm
    · intro g z hz
      rcases hfiles g z hz with ⟨rfl,rfl⟩ | ⟨hne,hz⟩
      · rw [hc.fd, hc.map]
        cases z.added <;> simp
      · by_cases hfd : z.fd = x.fd
        · have hno : z.added ≠ true := fun hadded =>
            h.fd_ne hne hx hopen (h.current _ _ ((h.watched g z hz).mpr hadded)) hfd
          rw [hfd, hc.map]
          refine iff_of_false ?_ hno
          split
          · exact fun he => hne (Option.some.inj he).symm
          · exact fun he => by cases he
        · rw [(hc.others z.fd hfd).2.2]
          exact h.watched g z hz
    · rw [hc.called]
      exact h.called
    · exact hq.queued
  · intro fd g hg
    by_cases hgf : g = f
    · subst hgf
      refine ⟨y,by rw [hc.files]; simp [hlt],?_⟩
      by_contra hne
      rw [hc.fd] at hne
      rw [(hc.others fd (Ne.symm hne)).1] at hg
      obtain ⟨z,hz,hfd⟩ := h.valid fd g hg
      obtain rfl : x = z := Option.some.inj (hx.symm.trans hz)
      exact hne hfd
    · have hfd : fd ≠ x.fd := by
        rintro rfl
        rw [hc.fds] at hg
        split at hg
        · exact hgf (Option.some.inj hg).symm
        · cases hg
      rw [(hc.others fd hfd).1] at hg
      obtain ⟨z,hz,hzfd⟩ := h.valid fd g hg
      exact ⟨z,by rw [hc.files, List.getElem?_set_ne (Ne.symm hgf)]; exact hz,hzfd⟩
  · intro g z hz
    rcases hfiles g z hz with ⟨rfl,rfl⟩ | ⟨hne,hz⟩
    · rw [hc.fd, hc.fds]
      cases isOpen z <;> simp
    · by_cases hfd : z.fd = x.fd
      · have hno : isOpen z ≠ true := fun hz' => h.fd_ne hne hx hopen ((h.opens g z hz).mp hz') hfd
        rw [hfd, hc.fds]
        refine iff_of_false hno ?_
        split
        · exact fun he => hne (Option.some.inj he).symm
        · exact fun he => by cases he
      · rw [(hc.others z.fd hfd).1]
        exact h.opens g z hz
  · intro g z hz hadded
    rcases hfiles g z hz with ⟨rfl,rfl⟩ | ⟨_,hz⟩
    · exact hc.kept hadded
    · exact h.kept g z hz hadded
  · exact hq.releasing
  · exact hq.last

theorem Inv.queues (h : s.Inv) : s.Queues := ⟨h.queued,h.releasing,h.last⟩

/-- The tasks stay as they are: those of the file find it as it was, or there are none. -/
theorem Queues.set (h : s.Queues) (hx : s.files[f]? = some x) (hfiles : t.files = s.files.set f y)
    (hlist : t._list_task = s._list_task) (hsock : y.sock = x.sock ∨ ∀ a ∈ s._list_task, a.file ≠ f) :
    t.Queues where
  queued := by
    intro a ha
    rw [hlist] at ha
    obtain ⟨z,hz,hptr⟩ := h.queued a ha
    rw [hfiles, List.getElem?_set]
    by_cases hf : f = a.file
    · rcases hsock with hsock | hno
      · subst hf
        obtain rfl : x = z := Option.some.inj (hx.symm.trans hz)
        exact ⟨y,by simp [(List.getElem?_eq_some_iff.mp hx).1],hsock ▸ hptr⟩
      · exact absurd hf.symm (hno a ha)
    · exact ⟨z,by simp [hf, hz],hptr⟩
  releasing := by
    intro g z hg hz
    rw [hlist] at hg
    rw [hfiles, List.getElem?_set] at hz
    by_cases hf : f = g
    · rcases hsock with hsock | hno
      · subst hf
        simp only [(List.getElem?_eq_some_iff.mp hx).1, if_true] at hz
        obtain rfl := Option.some.inj hz
        rw [hsock]
        exact h.releasing f x hg hx
      · exact absurd hf.symm (hno _ hg)
    · rw [if_neg hf] at hz
      exact h.releasing g z hg hz
  last := by
    rw [hlist]
    exact h.last

theorem Inv.pop (h : s.Inv) {a : FdTask} {rest : List FdTask} (hq : s._list_task = a :: rest) :
    Inv { s with _list_task := rest } := by
  have hmem : ∀ b ∈ rest, b ∈ s._list_task := fun b hb => hq ▸ List.mem_cons_of_mem a hb
  refine ⟨⟨h.agree,h.current,h.watched,h.called,fun b hb => h.queued b (hmem b hb)⟩,h.valid,h.opens,h.kept,
    fun f x hf => h.releasing f x (hmem _ hf),?_⟩
  have hlast := h.last
  rw [hq] at hlast
  exact hlast.of_cons

theorem Inv.runAdd (h : s.Inv) (hx : s.files[f]? = some x) (hsock : x.sock ≠ .absent) :
    (s.runAdd f x).Inv := by
  have hopen := isOpen_of_sock hsock
  unfold FdPoller.runAdd
  rw [h.addEvent_eq hx hopen]
  refine h.changes (y := { x with added := true }) hx hopen ⟨rfl,rfl,rfl,?_,?_,?_,?_,fun _ => hsock⟩
    (h.queues.set hx rfl rfl (Or.inl rfl))
  · intro fd hfd
    simp [FdPoller.set, hfd]
  · have hopen' : isOpen { x with added := true } = true := hopen
    rw [hopen']
    exact (h.opens f x hx).mp hopen
  · simp [FdPoller.set]
  · simp [FdPoller.set]

theorem Inv.runDel (h : s.Inv) (hx : s.files[f]? = some x) (hsock : x.sock ≠ .absent) {release : Bool}
    (hlast : release = true → ∀ a ∈ s._list_task, a.file ≠ f) : (s.runDel f x release).Inv := by
  have hopen := isOpen_of_sock hsock
  have hnumber := (h.opens f x hx).mp hopen
  unfold FdPoller.runDel
  dsimp only
  rw [h.delEvent_eq hx hopen]
  generalize hy : ({ x with added := false, sock := if release then .absent else x.sock } : SockFile) = y
  have hfd : y.fd = x.fd := by rw [← hy]
  have hadded : y.added = false := by rw [← hy]
  have hqueues : ∀ {t : FdPoller}, t.files = s.files.set f y → t._list_task = s._list_task → t.Queues := by
    intro t hfiles hlist
    refine h.queues.set hx hfiles hlist ?_
    cases release with
    | false => exact Or.inl (by rw [← hy]; rfl)
    | true => exact Or.inr (hlast rfl)
  unfold closeUnless
  split
  · rename_i hclose
    have hclosed : isOpen y = false := by simp [isOpen, hclose.1, hclose.2]
    refine h.changes (y := y) hx hopen ⟨rfl,rfl,hfd,?_,?_,?_,?_,?_⟩ (hqueues rfl rfl)
    · intro fd hne
      simp [FdPoller.set, hfd, hne]
    · simp [hfd, hclosed]
    · simp [FdPoller.set, hfd]
    · simp [FdPoller.set, hadded]
    · rw [hadded]
      exact fun he => by cases he
  · rename_i hkeep
    have hopened : isOpen y = true := by
      by_contra hno
      apply hkeep
      simpa [isOpen] using hno
    refine h.changes (y := y) hx hopen ⟨rfl,rfl,hfd,?_,?_,?_,?_,?_⟩ (hqueues rfl rfl)
    · intro fd hne
      simp [FdPoller.set, hne]
    · rw [hopened]
      exact hnumber
    · simp [FdPoller.set]
    · simp [FdPoller.set, hadded]
    · rw [hadded]
      exact fun he => by cases he

theorem Inv.entry (h : s.Inv) (hx : s.files[f]? = some x) (hopen : isOpen x = true) :
    s.epoll x.fd = s._event_map x.fd ∧ s._event_map x.fd = if x.added then some f else none := by
  have hwatched := h.watched f x hx
  obtain ⟨_,⟨he,hm⟩ | ⟨he,hm⟩⟩ := h.epoll_cases hx hopen
  · rw [hm] at hwatched
    have hno : x.added ≠ true := fun ha => by cases hwatched.mpr ha
    exact ⟨he.trans hm.symm,by rw [hm, if_neg hno]⟩
  · exact ⟨he.trans hm.symm,by rw [hm, if_pos (hwatched.mp hm)]⟩

/-- A change of the references to a file. -/
theorem Inv.set (h : s.Inv) (hx : s.files[f]? = some x) (hopen : isOpen x = true) (hfd : y.fd = x.fd)
    (hadded : y.added = x.added) (hopen' : isOpen y = true) (hkept : y.added = true → y.sock ≠ .absent)
    (hsock : y.sock = x.sock ∨ ∀ a ∈ s._list_task, a.file ≠ f) : (s.set f y).Inv := by
  obtain ⟨hepoll,hmap⟩ := h.entry hx hopen
  refine h.changes (y := y) hx hopen ⟨rfl,rfl,hfd,fun _ _ => ⟨rfl,rfl,rfl⟩,?_,hepoll,?_,hkept⟩
    (h.queues.set hx rfl rfl hsock)
  · rw [hopen']
    exact (h.opens f x hx).mp hopen
  · rw [hadded]
    exact hmap

theorem Inv.closeUnless (h : s.Inv) (hx : s.files[f]? = some x) (hopen : isOpen x = true)
    (hfd : y.fd = x.fd) (hadded : y.added = x.added) (hsock : y.sock = x.sock) :
    ((s.set f y).closeUnless y).Inv := by
  have hkept : y.added = true → y.sock ≠ .absent := by
    rw [hadded, hsock]
    exact h.kept f x hx
  unfold FdPoller.closeUnless
  split
  · rename_i hclose
    have hclosed : isOpen y = false := by simp [isOpen, hclose.1, hclose.2]
    have hno : y.added = false := by
      by_contra hne
      exact hkept (by simpa using hne) hclose.1
    have hmap : s._event_map x.fd = none := by
      rw [(h.entry hx hopen).2, ← hadded, hno]
      rfl
    refine h.changes (y := y) hx hopen ⟨rfl,rfl,hfd,?_,?_,?_,?_,hkept⟩
      (h.queues.set hx rfl rfl (Or.inl hsock))
    · intro fd hne
      simp [FdPoller.set, hfd, hne]
    · simp [hfd, hclosed]
    · simp [FdPoller.set, hfd, hmap]
    · simp [FdPoller.set, hno, hmap]
  · rename_i hkeep
    apply h.set hx hopen hfd hadded ?_ hkept (Or.inl hsock)
    by_contra hno
    apply hkeep
    simpa [isOpen] using hno

/-- A task for a file whose destructor has posted nothing. -/
theorem Inv.async (h : s.Inv) (hx : s.files[f]? = some x) (hheld : x.sock = .held) {a : FdTask}
    (ha : a.file = f) (hno : a ≠ .delEvent f true) : (s.async a).Inv := by
  refine ⟨⟨h.agree,h.current,h.watched,h.called,?_⟩,h.valid,h.opens,h.kept,?_,?_⟩
  · intro b hb
    rcases List.mem_append.mp hb with hb | hb
    · exact h.queued b hb
    · obtain rfl := List.mem_singleton.mp hb
      exact ⟨x,ha ▸ hx,by rw [hheld]; decide⟩
  · intro g z hg hz
    rcases List.mem_append.mp hg with hg | hg
    · exact h.releasing g z hg hz
    · have hg := List.mem_singleton.mp hg
      rw [← hg] at ha
      exact absurd (show a = .delEvent f true by rw [← ha]; exact hg.symm) hno
  · refine List.pairwise_append.mpr ⟨h.last,List.pairwise_singleton _ _,?_⟩
    intro b hb c hc g hbg
    obtain rfl := List.mem_singleton.mp hc
    rintro rfl
    have hreleasing := h.releasing _ x (hbg ▸ hb) (ha ▸ hx)
    rw [hheld] at hreleasing
    cases hreleasing

theorem Inv.postRelease (h : s.Inv) (hx : s.files[f]? = some x) (hheld : x.sock = .held) :
    ((s.set f { x with sock := .releasing }).async (.delEvent f true)).Inv := by
  have hopen : isOpen x = true := isOpen_of_sock (by rw [hheld]; decide)
  have hlt := (List.getElem?_eq_some_iff.mp hx).1
  have hno : .delEvent f true ∉ s._list_task := by
    intro hin
    have hreleasing := h.releasing f x hin hx
    rw [hheld] at hreleasing
    cases hreleasing
  obtain ⟨hepoll,hmap⟩ := h.entry hx hopen
  have hget : ∀ g, (s.files.set f { x with sock := .releasing })[g]? =
      if f = g then some { x with sock := .releasing } else s.files[g]? := by
    intro g
    simp only [List.getElem?_set, hlt, if_true]
  refine h.changes (y := { x with sock := .releasing }) hx hopen
    ⟨rfl,rfl,rfl,fun _ _ => ⟨rfl,rfl,rfl⟩,(h.opens f x hx).mp hopen,hepoll,hmap,fun _ => by simp⟩ ⟨?_,?_,?_⟩
  · intro a ha
    change ∃ z, (s.files.set f { x with sock := .releasing })[a.file]? = some z ∧ _
    rw [hget]
    by_cases hf : f = a.file
    · exact ⟨_,if_pos hf,by simp⟩
    · rw [if_neg hf]
      rcases List.mem_append.mp ha with ha | ha
      · exact h.queued a ha
      · obtain rfl := List.mem_singleton.mp ha
        exact absurd rfl hf
  · intro g z hg hz
    change (s.files.set f { x with sock := .releasing })[g]? = some z at hz
    rw [hget] at hz
    split at hz
    · rw [← Option.some.inj hz]
    · rename_i hne
      rcases List.mem_append.mp hg with hg | hg
      · exact h.releasing g z hg hz
      · cases List.mem_singleton.mp hg
        exact absurd rfl hne
  · refine List.pairwise_append.mpr ⟨h.last,List.pairwise_singleton _ _,?_⟩
    intro b hb c hc g hbg
    obtain rfl := List.mem_singleton.mp hc
    rintro rfl
    exact hno (hbg ▸ hb)

theorem Inv.opened (h : s.Inv) {fd elsewhere : ℕ} {here : Bool} (hfd : s.fds fd = none)
    (hopen : here = true ∨ 0 < elsewhere) : Inv { s with
      files := s.files ++ [⟨fd,if here then .held else .absent,elsewhere,false⟩]
      fds := Function.update s.fds fd (some s.files.length) } := by
  have hmap : s._event_map fd = none := by
    cases hm : s._event_map fd with
    | none => rfl
    | some f =>
      rw [h.current fd f hm] at hfd
      cases hfd
  have hfiles : ∀ (g : ℕ) (z : SockFile),
      (s.files ++ [⟨fd,if here then .held else .absent,elsewhere,false⟩])[g]? = some z →
      s.files[g]? = some z ∨ g = s.files.length ∧ z = ⟨fd,if here then .held else .absent,elsewhere,false⟩ := by
    intro g z hz
    rw [List.getElem?_append] at hz
    split at hz
    · exact Or.inl hz
    · obtain ⟨hi,hz⟩ := List.getElem?_eq_some_iff.mp hz
      rw [List.length_singleton] at hi
      have hg : g = s.files.length := by omega
      subst hg
      simp only [Nat.sub_self, List.getElem_cons_zero] at hz
      exact Or.inr ⟨rfl,hz.symm⟩
  have hgrow : ∀ {g : ℕ} {z : SockFile}, s.files[g]? = some z →
      (s.files ++ [⟨fd,if here then .held else .absent,elsewhere,false⟩])[g]? = some z := by
    intro g z hz
    rw [List.getElem?_append_left (List.getElem?_eq_some_iff.mp hz).1]
    exact hz
  have hother : ∀ {e g : ℕ}, s.fds e = some g → Function.update s.fds fd (some s.files.length) e = some g := by
    intro e g hg
    rw [Function.update_apply, if_neg]
    · exact hg
    · rintro rfl
      rw [hfd] at hg
      cases hg
  refine ⟨⟨h.agree,fun e g hm => hother (h.current e g hm),?_,h.called,?_⟩,?_,?_,?_,?_,h.last⟩
  · intro g z hz
    rcases hfiles g z hz with hz | ⟨rfl,rfl⟩
    · exact h.watched g z hz
    · change s._event_map fd = _ ↔ _
      rw [hmap]
      exact iff_of_false (fun he => by cases he) Bool.false_ne_true
  · intro a ha
    obtain ⟨z,hz,hsock⟩ := h.queued a ha
    exact ⟨z,hgrow hz,hsock⟩
  · intro e g hg
    dsimp only at hg
    rw [Function.update_apply] at hg
    split at hg
    · rename_i he
      obtain rfl := Option.some.inj hg
      exact ⟨_,by rw [List.getElem?_concat_length],he.symm⟩
    · obtain ⟨z,hz,hzfd⟩ := h.valid e g hg
      exact ⟨z,hgrow hz,hzfd⟩
  · intro g z hz
    rcases hfiles g z hz with hz | ⟨rfl,rfl⟩
    · constructor
      · exact fun ho => hother ((h.opens g z hz).mp ho)
      · intro hg
        dsimp only at hg
        rw [Function.update_apply] at hg
        split at hg
        · have hlt := (List.getElem?_eq_some_iff.mp hz).1
          exact absurd (Option.some.inj hg) hlt.ne'
        · exact (h.opens g z hz).mpr hg
    · refine iff_of_true ?_ (Function.update_self ..)
      rcases hopen with rfl | hpos
      · rfl
      · simp [isOpen, hpos]
  · intro g z hz hadded
    rcases hfiles g z hz with hz | ⟨rfl,rfl⟩
    · exact h.kept g z hz hadded
    · cases hadded
  · intro g z hg hz
    rcases hfiles g z hz with hz | ⟨rfl,rfl⟩
    · exact h.releasing g z hg hz
    · obtain ⟨w,hw,_⟩ := h.queued _ hg
      exact absurd (List.getElem?_eq_some_iff.mp hw).1 (Nat.lt_irrefl _)

/-- An event of a number that is not in the map: the kernel has nothing to forget. -/
theorem Inv.dispatch (h : s.Inv) {fd : ℕ} {rest : List ℕ} (he : s.events = fd :: rest)
    (ht : step s .dispatch = some t) : t.Inv := by
  have hpop : Inv { s with events := rest } :=
    ⟨⟨h.agree,h.current,h.watched,h.called,h.queued⟩,h.valid,h.opens,h.kept,h.releasing,h.last⟩
  simp only [step, he] at ht
  cases hm : s._event_map fd with
  | none =>
    have hepoll : s.epoll fd = none := by
      cases hf : s.epoll fd with
      | none => rfl
      | some f =>
        rw [(h.agree fd f).mpr hf] at hm
        cases hm
    have hdel : EPOLL_CTL_DEL { s with events := rest } fd = none := by
      simp only [EPOLL_CTL_DEL, hepoll]
      cases s.fds fd <;> rfl
    simp only [hm, hdel, Option.getD_none, Option.some.injEq] at ht
    subst ht
    exact hpop
  | some callback =>
    simp only [hm, Option.some.injEq] at ht
    subst ht
    refine ⟨⟨h.agree,h.current,h.watched,?_,h.queued⟩,h.valid,h.opens,h.kept,h.releasing,h.last⟩
    intro e hmem
    rcases List.mem_append.mp hmem with hmem | hmem
    · exact h.called e hmem
    · obtain rfl := List.mem_singleton.mp hmem
      exact h.current fd callback hm

theorem closeUnless_fields (s : FdPoller) (y : SockFile) :
    (s.closeUnless y)._list_task = s._list_task ∧ (s.closeUnless y).files = s.files := by
  unfold FdPoller.closeUnless
  split <;> exact ⟨rfl,rfl⟩

theorem owned_eq_some {act : SockFile → FdPoller} (h : s.owned f act = some t) :
    ∃ x, s.files[f]? = some x ∧ x.sock = .held ∧ t = act x := by
  obtain ⟨x,hx,h⟩ := Option.bind_eq_some_iff.mp h
  obtain ⟨hheld,h⟩ := Option.ite_none_right_eq_some.mp h
  exact ⟨x,hx,hheld,(Option.some.inj h).symm⟩

theorem step_inv {a : FdAct} (h : s.Inv) (ha : s.InOrder a) (hs : step s a = some t) : t.Inv := by
  have hthere : ∀ {z : SockFile}, z.sock = .held → z.sock ≠ .absent := fun hz => by rw [hz]; decide
  cases a with
  | opened fd elsewhere here =>
    obtain ⟨hc,hs⟩ := Option.ite_none_right_eq_some.mp hs
    cases hs
    exact h.opened hc.1 hc.2
  | clone f =>
    obtain ⟨x,hx,hs⟩ := Option.bind_eq_some_iff.mp hs
    obtain ⟨hc,hs⟩ := Option.ite_none_right_eq_some.mp hs
    cases hs
    refine h.set hx (by simp [isOpen, hc.2]) rfl rfl rfl (fun _ => by simp) (Or.inr ?_)
    rintro b hb rfl
    obtain ⟨z,hz,hsock⟩ := h.queued b hb
    obtain rfl : x = z := Option.some.inj (hx.symm.trans hz)
    exact hsock hc.1
  | share f =>
    obtain ⟨x,hx,hs⟩ := Option.bind_eq_some_iff.mp hs
    obtain ⟨hc,hs⟩ := Option.ite_none_right_eq_some.mp hs
    cases hs
    exact h.set hx hc rfl rfl (by simp [isOpen]) (h.kept f x hx) (Or.inl rfl)
  | unshare f =>
    obtain ⟨x,hx,hs⟩ := Option.bind_eq_some_iff.mp hs
    obtain ⟨hc,hs⟩ := Option.ite_none_right_eq_some.mp hs
    cases hs
    exact h.closeUnless hx (by simp [isOpen, hc]) rfl rfl rfl
  | addEvent f isCurrentThread =>
    obtain ⟨x,hx,hheld,rfl⟩ := owned_eq_some hs
    split
    · exact h.runAdd hx (hthere hheld)
    · exact h.async hx hheld rfl (by simp)
  | delEvent f isCurrentThread =>
    obtain ⟨x,hx,hheld,rfl⟩ := owned_eq_some hs
    split
    · exact h.runDel hx (hthere hheld) fun hr => by cases hr
    · exact h.async hx hheld rfl (by simp)
  | release f isCurrentThread =>
    obtain ⟨x,hx,hheld,rfl⟩ := owned_eq_some hs
    cases isCurrentThread with
    | true => exact h.runDel hx (hthere hheld) fun _ => ha
    | false => exact h.postRelease hx hheld
  | runTask =>
    simp only [step] at hs
    cases hq : s._list_task with
    | nil =>
      rw [hq] at hs
      cases hs
    | cons b rest =>
      obtain ⟨z,hz,hsock⟩ := h.queued b (by rw [hq]; exact List.mem_cons_self)
      have hpop := h.pop hq
      rw [hq] at hs
      cases b with
      | addEvent f =>
        obtain ⟨x,hx,rfl⟩ := Option.map_eq_some_iff.mp hs
        obtain rfl : x = z := Option.some.inj (hx.symm.trans hz)
        exact hpop.runAdd hx hsock
      | delEvent f release =>
        obtain ⟨x,hx,rfl⟩ := Option.map_eq_some_iff.mp hs
        obtain rfl : x = z := Option.some.inj (hx.symm.trans hz)
        apply hpop.runDel hx hsock
        rintro rfl b hb
        have hlast := h.last
        rw [hq] at hlast
        exact List.rel_of_pairwise_cons hlast hb f rfl
  | epoll_wait fds =>
    obtain ⟨_,hs⟩ := Option.ite_none_right_eq_some.mp hs
    cases hs
    exact ⟨⟨h.agree,h.current,h.watched,h.called,h.queued⟩,h.valid,h.opens,h.kept,h.releasing,h.last⟩
  | dispatch =>
    cases he : s.events with
    | nil =>
      simp only [step, he] at hs
      cases hs
    | cons e rest => exact h.dispatch he hs

/-- Each callback is called only while its own file has the number, and a file is watched from `addEvent`
to `delEvent`, as long as no owner on the poller's thread lets go of a file with something queued for it. -/
theorem everyStep_inOrder_iff (acts : List FdAct) :
    EveryStep step InOrder fresh acts ↔ EveryState step Sound fresh acts := by
  apply everyStep_iff_everyState inv_fresh (fun s h => h.toSound)
  · exact fun s a t h ha hs => step_inv h ha hs
  · intro s a t h hs hsound
    cases a with
    | release f isCurrentThread =>
      cases isCurrentThread with
      | false => trivial
      | true =>
        rintro b hb rfl
        obtain ⟨x,hx,hheld,rfl⟩ := owned_eq_some hs
        have hlt := (List.getElem?_eq_some_iff.mp hx).1
        simp only [if_true] at hsound
        have hfields : (s.runDel b.file x true)._list_task = s._list_task ∧
            (s.runDel b.file x true).files =
              s.files.set b.file { x with added := false, sock := .absent } := by
          unfold FdPoller.runDel
          rw [h.delEvent_eq hx (isOpen_of_sock (by rw [hheld]; decide))]
          exact closeUnless_fields _ _
        obtain ⟨z,hz,hsock⟩ := hsound.queued b (hfields.1 ▸ hb)
        rw [hfields.2] at hz
        simp only [List.getElem?_set_self hlt, Option.some.injEq] at hz
        rw [← hz] at hsock
        exact hsock rfl
    | _ => trivial

-- the number is used again before the registration for its former file is carried out
example : ((exec step fresh [.opened 3 0 true,.addEvent 0 false,.release 0 true,.opened 3 0 true,.runTask,
    .epoll_wait [3],.dispatch]).map fun s => s.called.map fun e => (e.callback,e.current)) =
      some [(0,some 1)] := by decide

end FdPoller

end OctCommu.Poller
