import OctCommu.Lib.Runs
import Mathlib.Data.List.Chain

/-! # The `Logger` and its `AsyncLogWriter`

Any number of threads write; the thread of the writer takes what is pending and gives it
to the channels line by line, where a line that repeats the one in front is only counted.
-/
namespace OctCommu.Util
open Runs

structure LogContext where
  _line : ℤ
  _file : List UInt8
  str : List UInt8
  tv_sec : ℤ
  tv_usec : ℤ
  deriving DecidableEq

/-- What two lines are compared by. -/
def LogContext.message (c : LogContext) : ℤ × List UInt8 × List UInt8 := (c._line,c._file,c.str)

/-- In milliseconds. -/
def timevalDiff (a b : LogContext) : ℤ := 1000 * (b.tv_sec - a.tv_sec) + (b.tv_usec - a.tv_usec).tdiv 1000

/-- `printed`: the lines the channels were given, with the `_repeat` they had. -/
structure Logger where
  _last_log : LogContext
  _repeat : ℕ
  printed : List (LogContext × ℕ)

namespace Logger

def fresh : Logger := ⟨⟨0,[],[],0,0⟩,0,[]⟩

def writeChannels_l (g : Logger) (c : LogContext) (n : ℕ) : Logger := ⟨c,0,g.printed ++ [(c,n)]⟩

def writeChannels (g : Logger) (c : LogContext) : Option Logger :=
  if c.message = g._last_log.message then
    -- `_repeat` is an `int`: beyond its end there is no behaviour
    if g._repeat + 1 < 2147483648 then
      some (if timevalDiff g._last_log c > 500 then g.writeChannels_l c (g._repeat + 1)
        else { g with _repeat := g._repeat + 1 })
    else none
  else some ((if g._repeat ≠ 0 then g.writeChannels_l g._last_log g._repeat else g).writeChannels_l c 0)

/-- A printed line stands for itself, or for as many as it says it was repeated. -/
def told (printed : List (LogContext × ℕ)) : List (ℤ × List UInt8 × List UInt8) :=
  printed.flatMap fun p => List.replicate (max 1 p.2) p.1.message

/-- A message is printed again after 500 ms, or with the count that is left when another follows. -/
def Spaced (p q : LogContext × ℕ) : Prop :=
  p.1.message = q.1.message → 500 < timevalDiff p.1 q.1 ∨ q.1 = p.1 ∧ 0 < q.2

/-- After the lines `ls`: what was printed and what is still counted tell of each of them. -/
structure Faithful (g : Logger) (ls : List LogContext) : Prop where
  told : told g.printed ++ List.replicate g._repeat g._last_log.message = ls.map LogContext.message
  spaced : g.printed.IsChain Spaced

structure Inv (g : Logger) (ls : List LogContext) : Prop extends Faithful g ls where
  last : ∀ p ∈ g.printed.getLast?, p.1 = g._last_log

theorem inv_fresh : fresh.Inv [] := ⟨⟨rfl,List.isChain_nil⟩,fun _ h => by cases h⟩

theorem told_append (ps : List (LogContext × ℕ)) (c : LogContext) (n : ℕ) :
    told (ps ++ [(c,n)]) = told ps ++ List.replicate (max 1 n) c.message := by
  simp [told]

theorem isChain_concat {ps : List (LogContext × ℕ)} {q : LogContext × ℕ} (h : ps.IsChain Spaced)
    (hlast : ∀ p ∈ ps.getLast?, Spaced p q) : (ps ++ [q]).IsChain Spaced := by
  refine List.isChain_append.mpr ⟨h,List.isChain_singleton q,?_⟩
  rintro p hp _ ⟨⟩
  exact hlast p hp

variable {g g' : Logger} {ls : List LogContext} {c : LogContext}

/-- The count that is left when another message follows. -/
theorem Inv.flush (h : g.Inv ls) (hrepeat : g._repeat ≠ 0) :
    (g.writeChannels_l g._last_log g._repeat).Inv ls := by
  refine ⟨⟨?_,?_⟩,?_⟩
  · simp only [writeChannels_l]
    rw [told_append, Nat.max_eq_right (Nat.one_le_iff_ne_zero.mpr hrepeat), List.replicate_zero, List.append_nil]
    exact h.told
  · apply isChain_concat h.spaced
    intro p hp _
    exact Or.inr ⟨(h.last p hp).symm,Nat.pos_of_ne_zero hrepeat⟩
  · intro p hp
    simp only [writeChannels_l, List.getLast?_append, List.getLast?_singleton, Option.some_or,
      Option.mem_some_iff] at hp
    exact hp ▸ rfl

theorem Inv.writeChannels_l (h : g.Inv ls) (n : ℕ) (hrepeat : List.replicate (max 1 n) c.message =
      List.replicate g._repeat g._last_log.message ++ [c.message])
    (hspaced : ∀ p ∈ g.printed.getLast?, Spaced p (c,n)) : (g.writeChannels_l c n).Inv (ls ++ [c]) := by
  refine ⟨⟨?_,isChain_concat h.spaced hspaced⟩,?_⟩
  · simp only [Logger.writeChannels_l]
    rw [told_append, hrepeat, List.replicate_zero, List.append_nil, ← List.append_assoc, h.told, List.map_append,
      List.map_singleton]
  · intro p hp
    simp only [Logger.writeChannels_l, List.getLast?_append, List.getLast?_singleton, Option.some_or,
      Option.mem_some_iff] at hp
    exact hp ▸ rfl

/-- One more line. -/
theorem Inv.writeChannels (h : g.Inv ls) (hw : g.writeChannels c = some g') : g'.Inv (ls ++ [c]) := by
  unfold Logger.writeChannels at hw
  split at hw
  · rename_i hsame
    split at hw
    · split at hw
      · rename_i hlong
        obtain rfl := Option.some.inj hw
        apply h.writeChannels_l
        · rw [Nat.max_eq_right (Nat.le_add_left 1 _), hsame, List.replicate_succ']
        · intro p hp _
          rw [h.last p hp]
          exact Or.inl hlong
      · obtain rfl := Option.some.inj hw
        refine ⟨⟨?_,h.spaced⟩,h.last⟩
        rw [List.replicate_succ', ← List.append_assoc, h.told, List.map_append, List.map_singleton, hsame]
    · cases hw
  · rename_i hother
    obtain rfl := Option.some.inj hw
    split
    · rename_i hrepeat
      refine (h.flush hrepeat).writeChannels_l 0 (by simp [Logger.writeChannels_l]) ?_
      intro p hp hmessage
      rw [(h.flush hrepeat).last p hp] at hmessage
      exact absurd hmessage.symm hother
    · rename_i hrepeat
      rw [not_not] at hrepeat
      refine h.writeChannels_l 0 (by simp [hrepeat]) ?_
      intro p hp hmessage
      rw [h.last p hp] at hmessage
      exact absurd hmessage.symm hother

end Logger

/-- Where the thread of a writer is in `run`; `tmp` is what it has taken and not written. -/
inductive LogRun where
  | testing
  | waiting
  | swapping
  | flushing (tmp : List LogContext)
  | done

/-- How far `~Logger` has come, which ends the writer and then writes a line of its own. -/
inductive LogEnd where
  | running
  | exiting
  | joining
  | flushing (tmp : List LogContext)
  | flushed
  | closed

def LogRun.tmp : LogRun → List LogContext
  | flushing tmp => tmp
  | _ => []

def LogEnd.tmp : LogEnd → List LogContext
  | flushing tmp => tmp
  | _ => []

/-- `posting`: the calls of `write` that have filed their line and not yet posted. The last two are
what happened: the lines that were written, and those the channels have seen. -/
structure AsyncLogWriter where
  _pending : List LogContext
  _sem : ℕ
  _exit_flag : Bool
  posting : ℕ
  run : LogRun
  ending : LogEnd
  logger : Logger
  written : List LogContext
  handled : List LogContext

inductive LogAct where
  | write (c : LogContext)
  | post
  | test
  | wait
  | swap
  | flush
  | exit
  | post_exit
  | join
  | flush_exit
  | last (c : LogContext)

namespace AsyncLogWriter

def fresh : AsyncLogWriter := ⟨[],0,false,0,.testing,.running,Logger.fresh,[],[]⟩

def writeChannels (s : AsyncLogWriter) (c : LogContext) : Option AsyncLogWriter :=
  (s.logger.writeChannels c).map fun g => { s with logger := g, handled := s.handled ++ [c] }

def step (s : AsyncLogWriter) : LogAct → Option AsyncLogWriter
  | .write c =>
    match s.ending with
    | .running => some { s with
        _pending := s._pending ++ [c]
        posting := s.posting + 1
        written := s.written ++ [c] }
    | _ => none
  | .post =>
    if s.posting = 0 then none
    else some { s with posting := s.posting - 1, _sem := (s._sem + 1) % 18446744073709551616 }
  | .test =>
    match s.run with
    | .testing => some { s with run := if s._exit_flag then .done else .waiting }
    | _ => none
  | .wait =>
    match s.run with
    | .waiting => if s._sem = 0 then none else some { s with _sem := s._sem - 1, run := .swapping }
    | _ => none
  | .swap =>
    match s.run with
    | .swapping => some { s with _pending := [], run := .flushing s._pending }
    | _ => none
  | .flush =>
    match s.run with
    | .flushing [] => some { s with run := .testing }
    | .flushing (c :: tmp) => { s with run := .flushing tmp }.writeChannels c
    | _ => none
  | .exit =>
    match s.ending with
    -- nobody is in a call of an object that goes
    | .running => if s.posting = 0 then some { s with _exit_flag := true, ending := .exiting } else none
    | _ => none
  | .post_exit =>
    match s.ending with
    | .exiting => some { s with _sem := (s._sem + 1) % 18446744073709551616, ending := .joining }
    | _ => none
  | .join =>
    match s.ending, s.run with
    | .joining, .done => some { s with _pending := [], ending := .flushing s._pending }
    | _, _ => none
  | .flush_exit =>
    match s.ending with
    | .flushing [] => some { s with ending := .flushed }
    | .flushing (c :: tmp) => { s with ending := .flushing tmp }.writeChannels c
    | _ => none
  | .last c =>
    match s.ending with
    | .flushed => { s with ending := .closed, written := s.written ++ [c] }.writeChannels c
    | _ => none

structure Sound (s : AsyncLogWriter) : Prop where
  /-- the lines reach the channels in the order they were written in, none twice and none lost -/
  order : s.handled ++ s.run.tmp ++ s.ending.tmp ++ s._pending = s.written
  faithful : s.logger.Faithful s.handled
  /-- the thread does not sleep while a line is pending or its end is waited for -/
  woken : s.written.length + 1 < 18446744073709551616 → s.run = .waiting → s._sem = 0 → s.posting = 0 →
    s._pending = [] ∧ s.ending ≠ .joining
  /-- at the end no line is left -/
  all : s.ending = .flushed ∨ s.ending = .closed → s.handled = s.written

structure Inv (s : AsyncLogWriter) : Prop where
  order : s.handled ++ s.run.tmp ++ s.ending.tmp ++ s._pending = s.written
  logger : s.logger.Inv s.handled
  sem : s._sem + s.posting ≤ s.written.length + 1
  spare : s.ending = .running ∨ s.ending = .exiting → s._sem + s.posting ≤ s.written.length
  owed : s.written.length + 1 < 18446744073709551616 → s._pending ≠ [] →
    s.run = .swapping ∨ 0 < s._sem + s.posting
  joins : s.written.length + 1 < 18446744073709551616 → s.ending = .joining → s.run = .waiting → 0 < s._sem
  flag : s.ending ≠ .running → s._exit_flag = true ∧ s.posting = 0
  quiet : s.ending ≠ .running → s.ending ≠ .exiting → s.ending ≠ .joining → s.run = .done ∧ s._pending = []

variable {s t : AsyncLogWriter} {c : LogContext}

theorem Inv.sound (h : s.Inv) : s.Sound where
  order := h.order
  faithful := h.logger.toFaithful
  woken hlen hrun hsem hposting := by
    constructor
    · by_contra hpending
      rcases h.owed hlen hpending with hswap | hpos
      · rw [hrun] at hswap
        cases hswap
      · omega
    · intro hjoin
      have hpos := h.joins hlen hjoin hrun
      omega
  all hend := by
    have horder := h.order
    obtain ⟨hrun,hpending⟩ := h.quiet (by rcases hend with hend | hend <;> simp [hend])
      (by rcases hend with hend | hend <;> simp [hend]) (by rcases hend with hend | hend <;> simp [hend])
    have htmp : s.ending.tmp = [] := by
      rcases hend with hend | hend <;> rw [hend] <;> rfl
    rw [hrun, hpending, htmp] at horder
    simpa [LogRun.tmp] using horder

theorem inv_fresh : fresh.Inv where
  order := rfl
  logger := Logger.inv_fresh
  sem := Nat.zero_le _
  spare _ := le_rfl
  owed _ h := absurd rfl h
  joins _ h := by cases h
  flag h := absurd rfl h
  quiet h := absurd rfl h

theorem Inv.write (h : s.Inv) (ht : step s (.write c) = some t) : t.Inv := by
  simp only [step] at ht
  split at ht
  · rename_i hend
    obtain rfl := Option.some.inj ht
    have hspare := h.spare (Or.inl hend)
    refine ⟨?_,h.logger,?_,?_,?_,?_,?_,?_⟩
    · dsimp only
      rw [← List.append_assoc, h.order]
    · simp only [List.length_append, List.length_singleton]
      omega
    · intro _
      simp only [List.length_append, List.length_singleton]
      omega
    · exact fun _ _ => Or.inr (by dsimp only; omega)
    all_goals simp [hend]
  · cases ht

theorem Inv.post (h : s.Inv) (ht : step s .post = some t) : t.Inv := by
  simp only [step] at ht
  split at ht
  · cases ht
  · rename_i hposting
    obtain rfl := Option.some.inj ht
    have hmod := Nat.mod_le (s._sem + 1) 18446744073709551616
    have hsem := h.sem
    refine ⟨h.order,h.logger,?_,?_,?_,?_,?_,h.quiet⟩
    · dsimp only
      omega
    · intro hend
      have hspare := h.spare hend
      dsimp only
      omega
    · intro hlen hpending
      dsimp only at hlen ⊢
      have hfit : (s._sem + 1) % 18446744073709551616 = s._sem + 1 := Nat.mod_eq_of_lt (by omega)
      rw [hfit]
      exact Or.inr (by omega)
    · intro hlen hend hrun
      exact absurd (h.flag (by rw [hend]; simp)).2 hposting
    · intro hend
      exact absurd (h.flag hend).2 hposting

theorem Inv.test (h : s.Inv) (ht : step s .test = some t) : t.Inv := by
  simp only [step] at ht
  split at ht
  · rename_i hrun
    obtain rfl := Option.some.inj ht
    have horder := h.order
    rw [hrun] at horder
    refine ⟨?_,h.logger,h.sem,h.spare,?_,?_,h.flag,?_⟩
    · rw [← horder]
      dsimp only
      split <;> rfl
    · intro hlen hpending
      rcases h.owed hlen hpending with hswap | hpos
      · rw [hrun] at hswap
        cases hswap
      · exact Or.inr hpos
    · intro _ hend hwait
      dsimp only at hend hwait
      rw [(h.flag (by rw [hend]; simp)).1] at hwait
      cases hwait
    · intro h1 h2 h3
      have hdone := (h.quiet h1 h2 h3).1
      rw [hrun] at hdone
      cases hdone
  · cases ht

theorem Inv.wait (h : s.Inv) (ht : step s .wait = some t) : t.Inv := by
  simp only [step] at ht
  split at ht
  · rename_i hrun
    split at ht
    · cases ht
    · obtain rfl := Option.some.inj ht
      have horder := h.order
      have hsem := h.sem
      rw [hrun] at horder
      refine ⟨horder,h.logger,?_,?_,fun _ _ => Or.inl rfl,fun _ _ hc => (by cases hc),h.flag,?_⟩
      · dsimp only
        omega
      · intro hend
        have hspare := h.spare hend
        dsimp only
        omega
      · intro h1 h2 h3
        have hdone := (h.quiet h1 h2 h3).1
        rw [hrun] at hdone
        cases hdone
  · cases ht

theorem Inv.swap (h : s.Inv) (ht : step s .swap = some t) : t.Inv := by
  simp only [step] at ht
  split at ht
  · rename_i hrun
    obtain rfl := Option.some.inj ht
    have horder := h.order
    have hquiet : s.ending.tmp = [] := by
      cases hend : s.ending with
      | flushing tmp =>
        have hdone := (h.quiet (by simp [hend]) (by simp [hend]) (by simp [hend])).1
        rw [hrun] at hdone
        cases hdone
      | _ => rfl
    rw [hrun, hquiet] at horder
    refine ⟨?_,h.logger,h.sem,h.spare,fun _ hc => absurd rfl hc,fun _ _ hc => (by cases hc),h.flag,?_⟩
    · dsimp only
      rw [hquiet]
      simpa [LogRun.tmp] using horder
    · intro h1 h2 h3
      have hdone := (h.quiet h1 h2 h3).1
      rw [hrun] at hdone
      cases hdone
  · cases ht

theorem Inv.flush (h : s.Inv) (ht : step s .flush = some t) : t.Inv := by
  simp only [step] at ht
  have hflushing : ∀ tmp, s.run = .flushing tmp → ¬(s.ending ≠ .running ∧ s.ending ≠ .exiting ∧ s.ending ≠ .joining) := by
    rintro tmp hrun ⟨h1,h2,h3⟩
    have hdone := (h.quiet h1 h2 h3).1
    rw [hrun] at hdone
    cases hdone
  have howed : ∀ tmp, s.run = .flushing tmp → s.written.length + 1 < 18446744073709551616 → s._pending ≠ [] →
      0 < s._sem + s.posting := by
    intro tmp hrun hlen hpending
    rcases h.owed hlen hpending with hswap | hpos
    · rw [hrun] at hswap
      cases hswap
    · exact hpos
  have horder := h.order
  split at ht
  · rename_i hrun
    obtain rfl := Option.some.inj ht
    rw [hrun] at horder
    exact ⟨horder,h.logger,h.sem,h.spare,fun hlen hp => Or.inr (howed [] hrun hlen hp),fun _ _ hc => (by cases hc),
      h.flag,fun h1 h2 h3 => absurd ⟨h1,h2,h3⟩ (hflushing [] hrun)⟩
  · rename_i c tmp hrun
    obtain ⟨g,hg,rfl⟩ := Option.map_eq_some_iff.mp ht
    rw [hrun] at horder
    refine ⟨?_,h.logger.writeChannels hg,h.sem,h.spare,fun hlen hp => Or.inr (howed _ hrun hlen hp),
      fun _ _ hc => (by cases hc),h.flag,fun h1 h2 h3 => absurd ⟨h1,h2,h3⟩ (hflushing _ hrun)⟩
    rw [← horder]
    simp [LogRun.tmp]
  · cases ht

theorem Inv.exit (h : s.Inv) (ht : step s .exit = some t) : t.Inv := by
  simp only [step] at ht
  split at ht
  · rename_i hend
    split at ht
    · rename_i hposting
      obtain rfl := Option.some.inj ht
      have horder := h.order
      rw [hend] at horder
      exact ⟨horder,h.logger,h.sem,fun _ => h.spare (Or.inl hend),h.owed,fun _ hc => (by cases hc),
        fun _ => ⟨rfl,hposting⟩,fun _ hc => absurd rfl hc⟩
    · cases ht
  · cases ht

theorem Inv.post_exit (h : s.Inv) (ht : step s .post_exit = some t) : t.Inv := by
  simp only [step] at ht
  split at ht
  · rename_i hend
    obtain rfl := Option.some.inj ht
    have horder := h.order
    have hspare := h.spare (Or.inr hend)
    have hmod := Nat.mod_le (s._sem + 1) 18446744073709551616
    rw [hend] at horder
    refine ⟨horder,h.logger,?_,fun hc => (by simp at hc),?_,?_,fun _ => h.flag (by rw [hend]; simp),
      fun _ _ hc => absurd rfl hc⟩
    · dsimp only
      omega
    · intro hlen hpending
      dsimp only at hlen ⊢
      rw [Nat.mod_eq_of_lt (by omega : s._sem + 1 < 18446744073709551616)]
      exact Or.inr (by omega)
    · intro hlen _ _
      dsimp only at hlen ⊢
      rw [Nat.mod_eq_of_lt (by omega : s._sem + 1 < 18446744073709551616)]
      omega
  · cases ht

theorem Inv.join (h : s.Inv) (ht : step s .join = some t) : t.Inv := by
  simp only [step] at ht
  split at ht
  · rename_i hend hrun
    obtain rfl := Option.some.inj ht
    have horder := h.order
    rw [hend, hrun] at horder
    refine ⟨?_,h.logger,h.sem,fun hc => (by simp at hc),fun _ hc => absurd rfl hc,fun _ hc => (by cases hc),
      fun _ => h.flag (by rw [hend]; simp),fun _ _ _ => ⟨hrun,rfl⟩⟩
    rw [← horder]
    dsimp only
    rw [hrun]
    simp [LogRun.tmp, LogEnd.tmp]
  · cases ht

theorem Inv.flush_exit (h : s.Inv) (ht : step s .flush_exit = some t) : t.Inv := by
  simp only [step] at ht
  have horder := h.order
  split at ht
  · rename_i hend
    obtain rfl := Option.some.inj ht
    obtain ⟨hrun,hpending⟩ := h.quiet (by simp [hend]) (by simp [hend]) (by simp [hend])
    rw [hend] at horder
    exact ⟨horder,h.logger,h.sem,fun hc => (by simp at hc),h.owed,fun _ hc => (by cases hc),
      fun _ => h.flag (by simp [hend]),fun _ _ _ => ⟨hrun,hpending⟩⟩
  · rename_i c tmp hend
    obtain ⟨g,hg,rfl⟩ := Option.map_eq_some_iff.mp ht
    obtain ⟨hrun,hpending⟩ := h.quiet (by simp [hend]) (by simp [hend]) (by simp [hend])
    rw [hend, hrun] at horder
    refine ⟨?_,h.logger.writeChannels hg,h.sem,fun hc => (by simp at hc),h.owed,fun _ hc => (by cases hc),
      fun _ => h.flag (by simp [hend]),fun _ _ _ => ⟨hrun,hpending⟩⟩
    rw [← horder]
    dsimp only
    rw [hrun]
    simp [LogRun.tmp, LogEnd.tmp]
  · cases ht

theorem Inv.last (h : s.Inv) (ht : step s (.last c) = some t) : t.Inv := by
  simp only [step] at ht
  split at ht
  · rename_i hend
    obtain ⟨g,hg,rfl⟩ := Option.map_eq_some_iff.mp ht
    obtain ⟨hrun,hpending⟩ := h.quiet (by simp [hend]) (by simp [hend]) (by simp [hend])
    have horder := h.order
    have hsem := h.sem
    rw [hend, hrun, hpending] at horder
    refine ⟨?_,h.logger.writeChannels hg,?_,fun hc => (by simp at hc),fun _ hc => absurd hpending hc,
      fun _ hc => (by cases hc),fun _ => h.flag (by simp [hend]),fun _ _ _ => ⟨hrun,hpending⟩⟩
    · dsimp only
      rw [← horder, hrun, hpending]
      simp [LogRun.tmp, LogEnd.tmp]
    · simp only [List.length_append, List.length_singleton]
      omega
  · cases ht

theorem Inv.step (h : s.Inv) {a : LogAct} (ht : step s a = some t) : t.Inv := by
  cases a with
  | write c => exact h.write ht
  | post => exact h.post ht
  | test => exact h.test ht
  | wait => exact h.wait ht
  | swap => exact h.swap ht
  | flush => exact h.flush ht
  | exit => exact h.exit ht
  | post_exit => exact h.post_exit ht
  | join => exact h.join ht
  | flush_exit => exact h.flush_exit ht
  | last c => exact h.last ht

/-- In every order of steps each line is told of once, in order, and none is left behind. -/
theorem everyState_logged (acts : List LogAct) : EveryState AsyncLogWriter.step Sound fresh acts :=
  (everyState_of_preserves (fun _ _ _ h ht => h.step ht) inv_fresh acts).mono fun _ h => h.sound

end AsyncLogWriter

end OctCommu.Util
