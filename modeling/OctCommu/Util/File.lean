import Mathlib.Data.List.Basic
import Mathlib.Data.List.Induction
import Mathlib.Tactic.Common

/-! # Paths in `File`

`absolutePath` applies the components of a path to a directory, one after the other.
A text is the list of its bytes; 47 is the slash and 46 the dot.
-/
namespace OctCommu.Util.File

abbrev Text := List UInt8

/-- `s.find(c, pos)`; `none` is `npos`. -/
def find (s : Text) (c : UInt8) (pos : ℕ) : Option ℕ := ((s.drop pos).idxOf? c).map (pos + ·)

/-- `s.rfind(c)`. -/
def rfind (s : Text) (c : UInt8) : Option ℕ := (s.reverse.idxOf? c).map fun i => s.length - 1 - i

theorem find_eq_some {s : Text} {c : UInt8} {pos i : ℕ} (h : find s c pos = some i) :
    pos ≤ i ∧ i < s.length ∧ c ∉ (s.drop pos).take (i - pos) := by
  obtain ⟨j,hj,rfl⟩ := Option.map_eq_some_iff.mp h
  obtain ⟨hlt,_,hbefore⟩ := List.idxOf?_eq_some_iff.mp hj
  rw [List.length_drop] at hlt
  refine ⟨Nat.le_add_right _ _,by omega,?_⟩
  rw [Nat.add_sub_cancel_left]
  intro hmem
  obtain ⟨k,hk,hget⟩ := List.mem_take_iff_getElem.mp hmem
  have hne := hbefore k (by omega)
  rw [hget] at hne
  exact hne rfl

theorem find_eq_none {s : Text} {c : UInt8} {pos : ℕ} (h : find s c pos = none) : c ∉ s.drop pos :=
  List.idxOf?_eq_none_iff.mp (Option.map_eq_none_iff.mp h)

theorem rfind_last {s t : Text} {c : UInt8} (h : c ∉ t) : rfind (s ++ c :: t) c = some s.length := by
  have hrev : (s ++ c :: t).reverse = t.reverse ++ c :: s.reverse := by simp
  have hidx : (s ++ c :: t).reverse.idxOf? c = some t.length := by
    rw [hrev, List.idxOf?_eq_some_iff]
    refine ⟨by simp,by simp [List.getElem_append_right],?_⟩
    intro j hj
    have hlt : j < t.reverse.length := by simpa using hj
    rw [List.getElem_append_left hlt]
    intro heq
    exact h (List.mem_reverse.mp (heq ▸ List.getElem_mem hlt))
  rw [rfind, hidx, Option.map_some]
  simp

/-- The loop of `split` with the first position of the next piece; `delim` has one character. -/
def splitFrom (s : Text) (delim : UInt8) (last : ℕ) : List Text :=
  match h : find s delim last with
  | some index =>
    have : s.length - (index + 1) < s.length - last := by
      have := find_eq_some h
      omega
    (if 0 < index - last then [(s.drop last).take (index - last)] else []) ++
      splitFrom s delim (index + 1)
  | none => if s.length = 0 ∨ 0 < s.length - last then [s.drop last] else []
termination_by s.length - last

def split (s : Text) (delim : UInt8) : List Text := splitFrom s delim 0

def parentDir (path : Text) : Text :=
  let parent_dir := if path.getLast? = some 47 then path.dropLast else path
  match rfind parent_dir 47 with
  | some pos => parent_dir.take (pos + 1)
  | none => parent_dir

/-- The loop of `absolutePath` over the components; it is `none` when it returns the empty string. -/
def enter (rootPath : Text) (can_access_parent : Bool) : Text → List Text → Option Text
  | currentPath, [] => some currentPath
  | currentPath, dir :: dirs =>
    if dir = [] ∨ dir = [46] then enter rootPath can_access_parent currentPath dirs
    else if dir = [46,46] then
      if can_access_parent = false ∧ currentPath.length ≤ rootPath.length then none
      else enter rootPath can_access_parent (parentDir currentPath) dirs
    else enter rootPath can_access_parent (currentPath ++ dir ++ [47]) dirs

/-- `absolutePath` behind the choice of the directory. -/
def absolutePathIn (path currentPath : Text) (can_access_parent : Bool) : Text :=
  if path = [] then currentPath
  else
    let rootPath := if currentPath.getLast? = some 47 then currentPath else currentPath ++ [47]
    match enter rootPath can_access_parent rootPath (split path 47) with
    | none => []
    | some currentPath =>
      if path.getLast? ≠ some 47 ∧ currentPath.getLast? = some 47 then currentPath.dropLast
      else currentPath

/-- The directory of the executable `exeDir` is absolute, so the call for a relative one makes no other. -/
def absolutePath (exeDir path current_path : Text) (can_access_parent : Bool) : Text :=
  let currentPath :=
    if current_path ≠ [] then
      if current_path.head? = some 46 then absolutePathIn current_path exeDir true else current_path
    else exeDir
  absolutePathIn path currentPath can_access_parent

/-- A component that stands for a file or a directory below. -/
structure Component (dir : Text) : Prop where
  nonempty : dir ≠ []
  not_self : dir ≠ [46]
  not_parent : dir ≠ [46,46]
  no_slash : 47 ∉ dir

/-- The directory, ended by a slash. -/
def slashed (current_path : Text) : Text :=
  if current_path.getLast? = some 47 then current_path else current_path ++ [47]

/-- Nothing, the directory with or without its slash, or something below it. -/
def Confined (current_path result : Text) : Prop :=
  result = [] ∨ result = slashed current_path ∨ result = (slashed current_path).dropLast ∨
    ∃ dirs, dirs ≠ [] ∧ (∀ dir ∈ dirs, Component dir) ∧
      (result = slashed current_path ++ [47].intercalate dirs ∨
        result = slashed current_path ++ [47].intercalate dirs ++ [47])

theorem no_slash_of_mem_split {s dir : Text} (h : dir ∈ split s 47) : 47 ∉ dir := by
  have hfrom (last : ℕ) : ∀ dir ∈ splitFrom s 47 last, 47 ∉ dir := by
    fun_induction splitFrom s 47 last with
    | case1 last index hindex _ ih =>
      intro dir hdir
      rcases List.mem_append.mp hdir with hdir | hdir
      · split_ifs at hdir
        · rw [List.mem_singleton.mp hdir]
          exact (find_eq_some hindex).2.2
        · simp at hdir
      · exact ih dir hdir
    | case2 last hnone _ =>
      intro dir hdir
      rw [List.mem_singleton.mp hdir]
      exact find_eq_none hnone
    | case3 last _ _ =>
      intro dir hdir
      simp at hdir
  exact hfrom 0 dir h

/-- The text of components behind a directory. -/
def below (dirs : List Text) : Text := dirs.flatMap fun dir => dir ++ [47]

theorem below_eq_intercalate {dirs : List Text} (h : dirs ≠ []) :
    below dirs = [47].intercalate dirs ++ [47] := by
  induction dirs with
  | nil => exact absurd rfl h
  | cons dir dirs ih =>
    cases dirs with
    | nil => simp [below, List.intercalate]
    | cons d ds =>
      have hnext := ih (List.cons_ne_nil d ds)
      rw [below, List.flatMap_cons, ← below, hnext]
      simp [List.intercalate]

theorem getLast_below {root : Text} (h : root.getLast? = some 47) (dirs : List Text) :
    (root ++ below dirs).getLast? = some 47 := by
  induction dirs using List.reverseRecOn with
  | nil => simpa [below] using h
  | append_singleton dirs dir _ => simp [below, ← List.append_assoc]

theorem parentDir_enter {dir p : Text} (hp : p.getLast? = some 47) (h : 47 ∉ dir) :
    parentDir (p ++ dir ++ [47]) = p := by
  obtain ⟨q,rfl⟩ := List.getLast?_eq_some_iff.mp hp
  have hlast : (q ++ [47] ++ dir ++ [47]).getLast? = some 47 := List.getLast?_concat
  have hfind : rfind (q ++ [47] ++ dir) 47 = some q.length := by
    rw [List.append_assoc, List.singleton_append]
    exact rfind_last h
  have htake : (q ++ [47] ++ dir).take (q.length + 1) = q ++ [47] := List.take_left' (by simp)
  simp only [parentDir, hlast, if_true, List.dropLast_concat, hfind, htake]

/-- The current directory stays the root with components behind it. -/
theorem enter_below {root p : Text} (hroot : root.getLast? = some 47) {dirs : List Text} (subs : List Text)
    (hdirs : ∀ dir ∈ dirs, 47 ∉ dir) (hsubs : ∀ dir ∈ subs, Component dir)
    (h : enter root false (root ++ below subs) dirs = some p) :
    ∃ subs', (∀ dir ∈ subs', Component dir) ∧ p = root ++ below subs' := by
  induction dirs generalizing subs with
  | nil =>
    cases h
    exact ⟨subs,hsubs,rfl⟩
  | cons dir dirs ih =>
    have hrest : ∀ d ∈ dirs, 47 ∉ d := fun d hd => hdirs d (by simp [hd])
    rw [enter] at h
    by_cases hskip : dir = [] ∨ dir = [46]
    · rw [if_pos hskip] at h
      exact ih subs hrest hsubs h
    rw [if_neg hskip] at h
    by_cases hparent : dir = [46,46]
    · rw [if_pos hparent, Option.ite_none_left_eq_some] at h
      obtain ⟨hlen,h⟩ := h
      -- behind the root, the last component is taken off
      cases subs using List.reverseRecOn with
      | nil => exact absurd ⟨rfl,by simp [below]⟩ hlen
      | append_singleton subs sub =>
        have hsub := hsubs sub (by simp)
        have heq : root ++ below (subs ++ [sub]) = root ++ below subs ++ sub ++ [47] := by
          simp [below]
        rw [heq, parentDir_enter (getLast_below hroot subs) hsub.no_slash] at h
        exact ih subs hrest (fun d hd => hsubs d (by simp [hd])) h
    · rw [if_neg hparent] at h
      have hdir : Component dir :=
        ⟨fun he => hskip (.inl he),fun he => hskip (.inr he),hparent,hdirs dir (by simp)⟩
      have heq : root ++ below subs ++ dir ++ [47] = root ++ below (subs ++ [dir]) := by
        simp [below]
      rw [heq] at h
      apply ih (subs ++ [dir]) hrest _ h
      intro d hd
      rcases List.mem_append.mp hd with hd | hd
      · exact hsubs d hd
      · rwa [List.mem_singleton.mp hd]

theorem slashed_last (current_path : Text) : (slashed current_path).getLast? = some 47 := by
  unfold slashed
  split_ifs with h
  · exact h
  · simp

theorem confined_below (current_path : Text) {subs : List Text} (h : ∀ dir ∈ subs, Component dir) :
    Confined current_path (slashed current_path ++ below subs) ∧
    Confined current_path (slashed current_path ++ below subs).dropLast := by
  by_cases hnil : subs = []
  · subst hnil
    simp only [below, List.flatMap_nil, List.append_nil]
    exact ⟨.inr (.inl rfl),.inr (.inr (.inl rfl))⟩
  · rw [below_eq_intercalate hnil, ← List.append_assoc, List.dropLast_concat]
    exact ⟨.inr (.inr (.inr ⟨subs,hnil,h,.inr rfl⟩)),.inr (.inr (.inr ⟨subs,hnil,h,.inl rfl⟩))⟩

/-- No path leads out of the directory. -/
theorem absolutePath_confined (exeDir path current_path : Text) (h : current_path ≠ [])
    (hdot : current_path.head? ≠ some 46) :
    Confined current_path (absolutePath exeDir path current_path false) := by
  simp only [absolutePath, if_pos h, if_neg hdot]
  rw [absolutePathIn]
  by_cases hpath : path = []
  · rw [if_pos hpath]
    by_cases hlast : current_path.getLast? = some 47
    · exact .inr (.inl (by rw [slashed, if_pos hlast]))
    · exact .inr (.inr (.inl (by rw [slashed, if_neg hlast, List.dropLast_concat])))
  · rw [if_neg hpath]
    change Confined current_path (match enter (slashed current_path) false (slashed current_path)
      (split path 47) with
      | none => []
      | some p => if path.getLast? ≠ some 47 ∧ p.getLast? = some 47 then p.dropLast else p)
    cases hp : enter (slashed current_path) false (slashed current_path) (split path 47) with
    | none => exact .inl rfl
    | some p =>
      have hroot := slashed_last current_path
      obtain ⟨subs,hsubs,rfl⟩ := enter_below hroot []
        (fun dir hdir => no_slash_of_mem_split hdir) (by simp) (by simpa [below] using hp)
      obtain ⟨hfull,hcut⟩ := confined_below current_path hsubs
      simp only
      split_ifs
      · exact hcut
      · exact hfull

/-- `../../x` in `/www` is refused, and what `a/../b` names lies in it. -/
theorem absolutePath_confined_www :
    Confined [47,119,119,119] (absolutePath [] [46,46,47,46,46,47,120] [47,119,119,119] false) ∧
    Confined [47,119,119,119] (absolutePath [] [97,47,46,46,47,98] [47,119,119,119] false) :=
  ⟨absolutePath_confined [] [46,46,47,46,46,47,120] [47,119,119,119] (by decide) (by decide),
    absolutePath_confined [] [97,47,46,46,47,98] [47,119,119,119] (by decide) (by decide)⟩

end OctCommu.Util.File
