import OctCommu.Lib.Runs
import Mathlib.Order.Basic
import Mathlib.Order.Lattice

/-! # The log files of a `FileChannel`

The map holds the names of the log files in order. A new day or a file that has grown too
large begins a new file, and with it the oldest ones are deleted by their days and by
their number. A file that is deleted while it is open takes the lines with it. The line of
`changeFile` about a file that does not open comes through the `AsyncLogWriter`, as a later one.
-/
namespace OctCommu.Util
open Runs

/-- How the names of the files are made from a time and an index and read back; the zone of the clock. -/
structure LogNames (N : Type*) where
  getLogFilePath : ℤ → ℕ → N
  getLogFileTime : N → ℤ
  getGMTOff : ℤ

structure FileChannel (N : Type*) where
  _can_write : Bool
  _log_max_day : ℕ
  _log_max_size : ℕ
  _log_max_count : ℕ
  _index : ℕ
  _last_day : ℤ
  _last_check_time : ℤ
  _log_file_map : List N
  path : Option N
  /-- the files of the directory with the times of the lines this channel has put there -/
  disk : N → Option (List ℤ)
  lost : List ℤ
  /-- the greatest number of files at the last change of the file -/
  limit : Option ℕ

namespace FileChannel
variable {N : Type*} [LinearOrder N]

def emplace (f : N) : List N → List N
  | [] => [f]
  | g :: gs => if f < g then f :: g :: gs else if f = g then g :: gs else g :: emplace f gs

/-- `_index` is the largest one of today's files. -/
def create (files : List N) (_index : ℕ) : FileChannel N where
  _can_write := false
  _log_max_day := 30
  _log_max_size := 128
  _log_max_count := 30
  _index := _index
  _last_day := -1
  _last_check_time := 0
  _log_file_map := files.foldr emplace []
  path := none
  disk f := if f ∈ files then some [] else none
  lost := []
  limit := none

def int64 (n : ℕ) : ℤ := if n < 9223372036854775808 then n else n - 18446744073709551616

end FileChannel

namespace LogNames
variable {N : Type*} (names : LogNames N)

def getDay (second : ℤ) : ℕ := ((second + names.getGMTOff).tdiv 86400 % 18446744073709551616).toNat

/-- The file's day is too long ago. -/
def Expired (now : ℤ) (max_day : ℕ) (f : N) : Prop :=
  ¬names.getDay now < (names.getDay (names.getLogFileTime f) + max_day) % 18446744073709551616

instance (now : ℤ) (max_day : ℕ) (f : N) : Decidable (names.Expired now max_day f) :=
  inferInstanceAs (Decidable (¬_))

end LogNames

namespace FileChannel
variable {N : Type*} [LinearOrder N] (names : LogNames N)

/-- The first loop of `clean`, with the files it deletes. -/
def cleanDays (now : ℤ) (max_day : ℕ) : List N → List N × List N
  | [] => ([],[])
  | f :: fs =>
    if names.Expired now max_day f then
      let (gone,kept) := cleanDays now max_day fs
      (f :: gone,kept)
    else ([],f :: fs)

/-- The second one; it stops at the file that is open. -/
def cleanCount (max_count : ℕ) (path : Option N) : List N → List N × List N
  | [] => ([],[])
  | f :: fs =>
    if max_count < (f :: fs).length ∧ some f ≠ path then
      let (gone,kept) := cleanCount max_count path fs
      (f :: gone,kept)
    else ([],f :: fs)

def clean (s : FileChannel N) (now : ℤ) : FileChannel N :=
  let (old,recent) := cleanDays names now s._log_max_day s._log_file_map
  let (more,kept) := cleanCount s._log_max_count s.path recent
  { s with
    _log_file_map := kept
    disk := fun f => if f ∈ old ++ more then none else s.disk f
    limit := some s._log_max_count }

def changeFile (s : FileChannel N) (second : ℤ) (opens : Bool) (now : ℤ) : FileChannel N :=
  let log_file := names.getLogFilePath second s._index
  clean names { s with
    _index := s._index + 1
    _log_file_map := emplace log_file s._log_file_map
    path := some log_file
    _can_write := opens
    disk := if opens then Function.update s.disk log_file (some ((s.disk log_file).getD [])) else s.disk } now

def checkSize (s : FileChannel N) (second : ℤ) (size : ℕ) (opens : Bool) (now : ℤ) : FileChannel N :=
  if 60 < second - s._last_check_time then
    { (if s._log_max_size * 1048576 % 18446744073709551616 < size then changeFile names s second opens now
        else s) with
      _last_check_time := second }
  else s

/-- The line goes through the stream that is open. -/
def put (s : FileChannel N) (second : ℤ) : FileChannel N :=
  match s.path.bind fun f => (s.disk f).map fun lines => (f,lines) with
  | some (f,lines) => { s with disk := Function.update s.disk f (some (lines ++ [second])) }
  | none => { s with lost := s.lost ++ [second] }

/-- `write` up to the line itself. The size of the file, whether the new one opens and the clock are the
world's. -/
def roll (s : FileChannel N) (second : ℤ) (size : ℕ) (opens : Bool) (now : ℤ) : FileChannel N :=
  let day := int64 (names.getDay second)
  if day ≠ s._last_day then
    changeFile names { s with _index := if s._last_day ≠ -1 then 0 else s._index, _last_day := day }
      second opens now
  else checkSize names s second size opens now

def write (s : FileChannel N) (second : ℤ) (shown : Bool) (size : ℕ) (opens : Bool) (now : ℤ) : FileChannel N :=
  let s := s.roll names second size opens now
  if s._can_write && shown then s.put second else s

inductive FileAct
  | write (second : ℤ) (shown : Bool) (size : ℕ) (opens : Bool) (now : ℤ)
  | setMaxDay (max_day : ℕ)
  | setFileMaxSize (max_size : ℕ)
  | setFileMaxCount (max_count : ℕ)

def step (s : FileChannel N) : FileAct → Option (FileChannel N)
  | .write second shown size opens now => some (s.write names second shown size opens now)
  | .setMaxDay n => some { s with _log_max_day := if 1 < n then n else 1 }
  | .setFileMaxSize n => some { s with _log_max_size := if 1 < n then n else 1 }
  | .setFileMaxCount n => some { s with _log_max_count := if 1 < n then n else 1 }

/-- The state in which `write` calls `changeFile`, if it does. -/
def turns (s : FileChannel N) (second : ℤ) (size : ℕ) : Option (FileChannel N) :=
  let day := int64 (names.getDay second)
  if day ≠ s._last_day then some { s with _index := if s._last_day ≠ -1 then 0 else s._index, _last_day := day }
  else if 60 < second - s._last_check_time ∧ s._log_max_size * 1048576 % 18446744073709551616 < size then some s
  else none

/-- A file that is opened comes after one that is not old, or is not old itself. -/
def Stays (s : FileChannel N) : FileAct → Prop
  | .write second _ size true now => ∀ t, s.turns names second size = some t →
    ∃ f ∈ emplace (names.getLogFilePath second t._index) t._log_file_map,
      f ≤ names.getLogFilePath second t._index ∧ ¬names.Expired now t._log_max_day f
  | _ => True

structure Filed (s : FileChannel N) : Prop where
  sorted : s._log_file_map.Pairwise (· < ·)
  /-- every file that is there is in the map -/
  known : ∀ f, (s.disk f).isSome → f ∈ s._log_file_map
  /-- a file has lines of its own day only -/
  days : ∀ f lines, s.disk f = some lines → ∀ x ∈ lines, ∃ t i,
    f = names.getLogFilePath t i ∧ names.getDay x = names.getDay t

structure Sound (s : FileChannel N) : Prop extends s.Filed names where
  /-- the number is kept to, or the file that is open is the oldest one -/
  limited : ∀ n, s.limit = some n → s._log_file_map.length ≤ n ∨ s._log_file_map.head? = s.path
  /-- the file that is open is there, and no line goes elsewhere -/
  opened : s._can_write = true → ∃ f ∈ s.path, (s.disk f).isSome
  kept : s.lost = []

structure Inv (s : FileChannel N) : Prop extends s.Sound names where
  named : s._can_write = true → ∃ t i, s.path = some (names.getLogFilePath t i) ∧
    int64 (names.getDay t) = s._last_day

variable {s t : FileChannel N} {names : LogNames N} {f g : N} {fs gone kept : List N}

theorem mem_emplace : g ∈ emplace f fs ↔ g = f ∨ g ∈ fs := by
  induction fs with
  | nil => simp [emplace]
  | cons h fs ih =>
    rw [emplace]
    split_ifs with hlt heq
    · rw [List.mem_cons]
    · subst heq
      simp
    · rw [List.mem_cons, ih, List.mem_cons]
      tauto

theorem emplace_sorted (h : fs.Pairwise (· < ·)) : (emplace f fs).Pairwise (· < ·) := by
  induction fs with
  | nil => exact List.pairwise_singleton _ f
  | cons g fs ih =>
    obtain ⟨hg,hfs⟩ := List.pairwise_cons.mp h
    rw [emplace]
    split_ifs with hlt heq
    · refine List.pairwise_cons.mpr ⟨?_,h⟩
      intro x hx
      rcases List.mem_cons.mp hx with rfl | hx
      · exact hlt
      · exact hlt.trans (hg x hx)
    · exact h
    · refine List.pairwise_cons.mpr ⟨?_,ih hfs⟩
      intro x hx
      rcases mem_emplace.mp hx with rfl | hx
      · exact lt_of_le_of_ne (not_lt.mp hlt) (Ne.symm heq)
      · exact hg x hx

omit [LinearOrder N] in
theorem cleanDays_append (now : ℤ) (max_day : ℕ) (fs : List N) :
    (cleanDays names now max_day fs).1 ++ (cleanDays names now max_day fs).2 = fs := by
  induction fs with
  | nil => rfl
  | cons f fs ih =>
    rw [cleanDays]
    split
    · rw [List.cons_append, ih]
    · rfl

theorem cleanCount_append (max_count : ℕ) (path : Option N) (fs : List N) :
    (cleanCount max_count path fs).1 ++ (cleanCount max_count path fs).2 = fs := by
  induction fs with
  | nil => rfl
  | cons f fs ih =>
    rw [cleanCount]
    split
    · rw [List.cons_append, ih]
    · rfl

theorem cleanCount_limited (max_count : ℕ) (path : Option N) (fs : List N) :
    (cleanCount max_count path fs).2.length ≤ max_count ∨ (cleanCount max_count path fs).2.head? = path := by
  induction fs with
  | nil => exact Or.inl (Nat.zero_le _)
  | cons f fs ih =>
    rw [cleanCount]
    split
    · exact ih
    · rename_i hstop
      by_cases hpath : some f = path
      · exact Or.inr hpath
      · exact Or.inl (not_lt.mp fun hlt => hstop ⟨hlt,hpath⟩)

theorem mem_cleanCount (max_count : ℕ) (h : f ∈ fs) : f ∈ (cleanCount max_count (some f) fs).2 := by
  induction fs with
  | nil => exact absurd h List.not_mem_nil
  | cons g fs ih =>
    rw [cleanCount]
    split
    · rename_i hgo
      rcases List.mem_cons.mp h with rfl | h
      · exact absurd rfl hgo.2
      · exact ih h
    · exact h

/-- What is not old protects what comes after it, and nothing else does. -/
theorem mem_cleanDays (now : ℤ) (max_day : ℕ) (hsorted : fs.Pairwise (· < ·)) (hf : f ∈ fs) :
    f ∈ (cleanDays names now max_day fs).2 ↔ ∃ g ∈ fs, g ≤ f ∧ ¬names.Expired now max_day g := by
  induction fs with
  | nil => exact absurd hf List.not_mem_nil
  | cons g fs ih =>
    obtain ⟨hg,hfs⟩ := List.pairwise_cons.mp hsorted
    rw [cleanDays]
    split
    · rename_i hexpired
      rcases List.mem_cons.mp hf with rfl | hf
      · refine iff_of_false ?_ ?_
        · intro hmem
          have hin : f ∈ fs := by
            rw [← cleanDays_append now max_day fs]
            exact List.mem_append_right _ hmem
          exact lt_irrefl f (hg f hin)
        · rintro ⟨g,hmem,hle,hnot⟩
          rcases List.mem_cons.mp hmem with rfl | hmem
          · exact hnot hexpired
          · exact lt_irrefl f ((hg g hmem).trans_le hle)
      · rw [ih hfs hf]
        constructor
        · rintro ⟨h,hmem,hle⟩
          exact ⟨h,List.mem_cons_of_mem g hmem,hle⟩
        · rintro ⟨h,hmem,hle,hnot⟩
          rcases List.mem_cons.mp hmem with rfl | hmem
          · exact absurd hexpired hnot
          · exact ⟨h,hmem,hle,hnot⟩
    · rename_i hnot
      refine iff_of_true hf ⟨g,List.mem_cons_self,?_,hnot⟩
      rcases List.mem_cons.mp hf with rfl | hf
      · exact le_rfl
      · exact (hg f hf).le

/-- The files that `clean` deletes and those it keeps. -/
theorem clean_split (names : LogNames N) (s : FileChannel N) (now : ℤ) :
    ∃ gone, s._log_file_map = gone ++ (s.clean names now)._log_file_map ∧
    ∀ f, (s.clean names now).disk f = if f ∈ gone then none else s.disk f := by
  refine ⟨_,?_,fun _ => rfl⟩
  rw [List.append_assoc]
  change _ = _ ++ (_ ++ (cleanCount _ _ _).2)
  rw [cleanCount_append, cleanDays_append]

theorem clean_limited (s : FileChannel N) (now : ℤ) :
    (s.clean names now)._log_file_map.length ≤ s._log_max_count ∨
      (s.clean names now)._log_file_map.head? = s.path :=
  cleanCount_limited _ _ _

/-- Whether the file that is open is kept. -/
theorem mem_clean (hsorted : s._log_file_map.Pairwise (· < ·)) (hpath : s.path = some f)
    (hf : f ∈ s._log_file_map) (now : ℤ) : f ∈ (s.clean names now)._log_file_map ↔
      ∃ g ∈ s._log_file_map, g ≤ f ∧ ¬names.Expired now s._log_max_day g := by
  rw [← mem_cleanDays now s._log_max_day hsorted hf]
  change f ∈ (cleanCount _ s.path _).2 ↔ _
  rw [hpath]
  constructor
  · intro h
    rw [← cleanCount_append s._log_max_count (some f) (cleanDays names now s._log_max_day s._log_file_map).2]
    exact List.mem_append_right _ h
  · exact mem_cleanCount _

theorem isSome_disk_clean (hsorted : s._log_file_map.Pairwise (· < ·)) (hf : f ∈ s._log_file_map)
    (hdisk : (s.disk f).isSome) (now : ℤ) :
    ((s.clean names now).disk f).isSome ↔ f ∈ (s.clean names now)._log_file_map := by
  obtain ⟨gone,hmap,hafter⟩ := clean_split names s now
  rw [hmap] at hf hsorted
  rw [hafter]
  constructor
  · intro h
    rcases List.mem_append.mp hf with hgone | hkept
    · simp [hgone] at h
    · exact hkept
  · intro hkept
    have hnot : f ∉ gone := fun hgone => lt_irrefl f ((List.pairwise_append.mp hsorted).2.2 f hgone f hkept)
    rw [if_neg hnot]
    exact hdisk

theorem Filed.clean (h : s.Filed names) (now : ℤ) : (s.clean names now).Filed names := by
  obtain ⟨gone,hmap,hafter⟩ := clean_split names s now
  have hsorted := h.sorted
  rw [hmap] at hsorted
  refine ⟨(List.pairwise_append.mp hsorted).2.1,?_,?_⟩
  · intro f hf
    rw [hafter] at hf
    by_cases hgone : f ∈ gone
    · simp [hgone] at hf
    · rw [if_neg hgone] at hf
      have hmem := h.known f hf
      rw [hmap] at hmem
      exact (List.mem_append.mp hmem).resolve_left hgone
  · intro f lines hf
    rw [hafter] at hf
    by_cases hgone : f ∈ gone
    · simp [hgone] at hf
    · rw [if_neg hgone] at hf
      exact h.days f lines hf

/-- The state between the opening of a file and the cleaning. -/
theorem Filed.openFile (h : s.Filed names) (f : N) (opens : Bool) : Filed names { s with
    _index := s._index + 1
    _log_file_map := emplace f s._log_file_map
    path := some f
    _can_write := opens
    disk := if opens then Function.update s.disk f (some ((s.disk f).getD [])) else s.disk } := by
  refine ⟨emplace_sorted h.sorted,?_,?_⟩
  · intro g hg
    rw [mem_emplace]
    by_cases hgf : g = f
    · exact Or.inl hgf
    · right
      apply h.known g
      cases opens
      · exact hg
      · simpa [hgf] using hg
  · intro g lines hg
    by_cases hgf : g = f
    · subst hgf
      cases opens
      · exact h.days g lines hg
      · simp only [if_true, Function.update_self, Option.some.injEq] at hg
        cases hold : s.disk g with
        | none =>
          rw [hold] at hg
          subst hg
          exact fun x hx => absurd hx List.not_mem_nil
        | some old =>
          rw [hold] at hg
          subst hg
          exact h.days g _ hold
    · apply h.days g lines
      cases opens
      · exact hg
      · simpa [hgf] using hg

theorem changeFile_opened (h : s.Filed names) (second now : ℤ) :
    (∃ f ∈ (s.changeFile names second true now).path, ((s.changeFile names second true now).disk f).isSome) ↔
      ∃ f ∈ emplace (names.getLogFilePath second s._index) s._log_file_map,
        f ≤ names.getLogFilePath second s._index ∧ ¬names.Expired now s._log_max_day f := by
  have hopen := h.openFile (names.getLogFilePath second s._index) true
  have hmem := mem_emplace.mpr (Or.inl rfl : names.getLogFilePath second s._index =
    names.getLogFilePath second s._index ∨ names.getLogFilePath second s._index ∈ s._log_file_map)
  rw [← mem_clean hopen.sorted rfl hmem now, ← isSome_disk_clean hopen.sorted hmem (by simp) now]
  constructor
  · rintro ⟨f,hf,hdisk⟩
    cases hf
    exact hdisk
  · exact fun hdisk => ⟨_,rfl,hdisk⟩

theorem Filed.changeFile (h : s.Filed names) (hkept : s.lost = []) {second : ℤ} {opens : Bool} {now : ℤ}
    (hday : int64 (names.getDay second) = s._last_day) (hstays : opens = true →
      ∃ f ∈ emplace (names.getLogFilePath second s._index) s._log_file_map,
        f ≤ names.getLogFilePath second s._index ∧ ¬names.Expired now s._log_max_day f) :
    (s.changeFile names second opens now).Inv names where
  toFiled := (h.openFile (names.getLogFilePath second s._index) opens).clean now
  limited n hn := by
    cases hn
    exact clean_limited _ now
  opened hw := by
    change opens = true at hw
    subst hw
    exact (changeFile_opened h second now).mpr (hstays rfl)
  kept := hkept
  named _ := ⟨second,s._index,rfl,hday⟩

theorem int64_inj {m n : ℕ} (hm : m < 18446744073709551616) (hn : n < 18446744073709551616)
    (h : int64 m = int64 n) : m = n := by
  unfold int64 at h
  split_ifs at h <;> omega

omit [LinearOrder N] in
theorem getDay_lt (second : ℤ) : names.getDay second < 18446744073709551616 := by
  unfold LogNames.getDay
  omega

/-- A line of the day of the file. -/
theorem Inv.put (h : s.Inv names) (hw : s._can_write = true) {second : ℤ}
    (hday : int64 (names.getDay second) = s._last_day) : (s.put second).Inv names := by
  obtain ⟨f,hpath,hdisk⟩ := h.opened hw
  obtain ⟨lines,hlines⟩ := Option.isSome_iff_exists.mp hdisk
  obtain ⟨t,i,hname,hsame⟩ := h.named hw
  have hf : s.path = some f := hpath
  have hput : s.put second = { s with disk := Function.update s.disk f (some (lines ++ [second])) } := by
    rw [FileChannel.put, hf, Option.bind_some, hlines]
    rfl
  rw [hput]
  refine ⟨⟨⟨h.sorted,?_,?_⟩,h.limited,?_,h.kept⟩,h.named⟩
  · intro g hg
    by_cases hgf : g = f
    · exact hgf ▸ h.known f hdisk
    · apply h.known g
      simpa [hgf] using hg
  · intro g ls hg x hx
    by_cases hgf : g = f
    · subst hgf
      simp only [Function.update_self, Option.some.injEq] at hg
      subst hg
      rcases List.mem_append.mp hx with hx | hx
      · exact h.days g lines hlines x hx
      · rw [List.mem_singleton.mp hx]
        rw [hf] at hname
        exact ⟨t,i,Option.some.inj hname,int64_inj (getDay_lt _) (getDay_lt _) (hday.trans hsame.symm)⟩
    · exact h.days g ls (by simpa [hgf] using hg) x hx
  · intro _
    exact ⟨f,hf,by simp⟩

theorem Inv.check (h : s.Inv names) (second : ℤ) : Inv names { s with _last_check_time := second } :=
  ⟨⟨⟨h.sorted,h.known,h.days⟩,h.limited,h.opened,h.kept⟩,h.named⟩

theorem Filed.turn (h : s.Filed names) (n : ℕ) (day : ℤ) : Filed names { s with _index := n, _last_day := day } :=
  ⟨h.sorted,h.known,h.days⟩

/-- The file is changed as `turns` says. -/
theorem roll_eq (names : LogNames N) (s : FileChannel N) (second : ℤ) (size : ℕ) (opens : Bool) (now : ℤ) :
    ∃ c, s.roll names second size opens now = { (match s.turns names second size with
      | some t => t.changeFile names second opens now
      | none => s) with _last_check_time := c } := by
  unfold roll turns checkSize
  dsimp only
  by_cases hday : int64 (names.getDay second) ≠ s._last_day
  · rw [if_pos hday, if_pos hday]
    exact ⟨_,rfl⟩
  · rw [if_neg hday, if_neg hday]
    by_cases hcheck : 60 < second - s._last_check_time
    · by_cases hsize : s._log_max_size * 1048576 % 18446744073709551616 < size
      · rw [if_pos hcheck, if_pos hsize, if_pos ⟨hcheck,hsize⟩]
        exact ⟨_,rfl⟩
      · rw [if_pos hcheck, if_neg hsize, if_neg fun h => hsize h.2]
        exact ⟨_,rfl⟩
    · rw [if_neg hcheck, if_neg fun h => hcheck h.1]
      exact ⟨_,rfl⟩

omit [LinearOrder N] in
theorem turns_eq {second : ℤ} {size : ℕ} (ht : s.turns names second size = some t) :
    ∃ n, t = { s with _index := n, _last_day := int64 (names.getDay second) } := by
  unfold turns at ht
  dsimp only at ht
  by_cases hday : int64 (names.getDay second) ≠ s._last_day
  · rw [if_pos hday] at ht
    exact ⟨_,(Option.some.inj ht).symm⟩
  · rw [if_neg hday] at ht
    split at ht
    · refine ⟨s._index,?_⟩
      rw [← Option.some.inj ht, not_ne_iff.mp hday]
    · cases ht

theorem Inv.roll (h : s.Inv names) {second : ℤ} {shown : Bool} {size : ℕ} {opens : Bool} {now : ℤ}
    (hstays : s.Stays names (.write second shown size opens now)) :
    (s.roll names second size opens now).Inv names ∧
      (s.roll names second size opens now)._last_day = int64 (names.getDay second) := by
  obtain ⟨c,hc⟩ := roll_eq names s second size opens now
  rw [hc]
  cases ht : s.turns names second size with
  | some t =>
    obtain ⟨n,rfl⟩ := turns_eq ht
    refine ⟨Inv.check ((h.turn n _).changeFile h.kept rfl ?_) c,rfl⟩
    rintro rfl
    exact hstays _ ht
  | none =>
    refine ⟨h.check c,?_⟩
    unfold turns at ht
    dsimp only at ht
    by_cases hday : int64 (names.getDay second) ≠ s._last_day
    · rw [if_pos hday] at ht
      cases ht
    · exact (not_ne_iff.mp hday).symm

theorem Inv.write (h : s.Inv names) {second : ℤ} {shown : Bool} {size : ℕ} {opens : Bool} {now : ℤ}
    (hstays : s.Stays names (.write second shown size opens now)) :
    (s.write names second shown size opens now).Inv names := by
  obtain ⟨hroll,hday⟩ := h.roll hstays
  unfold FileChannel.write
  dsimp only
  split
  · rename_i hput
    exact hroll.put (by simpa using (Bool.and_eq_true_iff.mp hput).1) hday.symm
  · exact hroll

theorem Inv.step (h : s.Inv names) {a : FileAct} (hstays : s.Stays names a) (ht : step names s a = some t) :
    t.Inv names := by
  cases a with
  | write second shown size opens now =>
    cases ht
    exact h.write hstays
  | setMaxDay n =>
    cases ht
    exact ⟨⟨⟨h.sorted,h.known,h.days⟩,h.limited,h.opened,h.kept⟩,h.named⟩
  | setFileMaxSize n =>
    cases ht
    exact ⟨⟨⟨h.sorted,h.known,h.days⟩,h.limited,h.opened,h.kept⟩,h.named⟩
  | setFileMaxCount n =>
    cases ht
    exact ⟨⟨⟨h.sorted,h.known,h.days⟩,h.limited,h.opened,h.kept⟩,h.named⟩

theorem put_can_write (s : FileChannel N) (second : ℤ) : (s.put second)._can_write = s._can_write := by
  unfold put
  split <;> rfl

theorem opened_of_put {second : ℤ} (h : ∃ f ∈ (s.put second).path, ((s.put second).disk f).isSome) :
    ∃ f ∈ s.path, (s.disk f).isSome := by
  unfold put at h
  split at h
  · rename_i f lines heq
    obtain ⟨g,hg,hmap⟩ := Option.bind_eq_some_iff.mp heq
    obtain ⟨ls,hls,_⟩ := Option.map_eq_some_iff.mp hmap
    exact ⟨g,hg,by rw [hls]; rfl⟩
  · exact h

theorem stays_of_sound (h : s.Inv names) {a : FileAct} (ht : FileChannel.step names s a = some t)
    (hsound : t.Sound names) : s.Stays names a := by
  cases a with
  | write second shown size opens now =>
    cases opens with
    | false => trivial
    | true =>
      cases ht
      intro u hu
      obtain ⟨n,rfl⟩ := turns_eq hu
      obtain ⟨c,hc⟩ := roll_eq names s second size true now
      rw [hu] at hc
      apply (changeFile_opened (h.turn n _) second now).mp
      have hroll : ∃ f ∈ (s.roll names second size true now).path,
          ((s.roll names second size true now).disk f).isSome := by
        have hw : (s.roll names second size true now)._can_write = true := by rw [hc]; rfl
        have hopened := hsound.opened
        unfold FileChannel.write at hopened
        dsimp only at hopened
        split at hopened
        · exact opened_of_put (hopened ((put_can_write _ second).trans hw))
        · exact hopened hw
      rw [hc] at hroll
      exact hroll
  | setMaxDay n => trivial
  | setFileMaxSize n => trivial
  | setFileMaxCount n => trivial

theorem mem_foldr_emplace {files : List N} : f ∈ files.foldr emplace [] ↔ f ∈ files := by
  induction files with
  | nil => rfl
  | cons g files ih => rw [List.foldr_cons, mem_emplace, ih, List.mem_cons]

theorem inv_create (names : LogNames N) (files : List N) (_index : ℕ) : (create files _index).Inv names := by
  refine ⟨⟨⟨?_,?_,?_⟩,fun _ hn => (by cases hn),fun hw => (by cases hw),rfl⟩,fun hw => (by cases hw)⟩
  · simp only [create]
    clear _index
    induction files with
    | nil => exact List.Pairwise.nil
    | cons g files ih => exact emplace_sorted ih
  · intro f hf
    apply mem_foldr_emplace.mpr
    by_contra hnot
    simp [create, hnot] at hf
  · intro f lines hf x hx
    simp only [create] at hf
    split at hf
    · cases hf
      exact absurd hx List.not_mem_nil
    · cases hf

/-- In every run the files of a channel are in order, each has lines of its own day only, their number is
kept to, and no line goes into a file that was deleted, exactly while no file is opened that is too old
already together with all that come before it. -/
theorem everyStep_stays_iff (names : LogNames N) (files : List N) (_index : ℕ) (acts : List FileAct) :
    EveryStep (FileChannel.step names) (Stays names) (create files _index) acts ↔
      EveryState (FileChannel.step names) (Sound names) (create files _index) acts :=
  everyStep_iff_everyState (inv_create names files _index) (fun _ h => h.toSound)
    (fun _ _ _ h hstays ht => h.step hstays ht) fun _ _ _ h ht hsound => stays_of_sound h ht hsound

end FileChannel
end OctCommu.Util
