import OctCommu.Lib.Runs
import OctCommu.Util.File
import Mathlib.Data.List.Perm.Basic
import Mathlib.Data.List.ReduceOption

/-! # `SqlPool`

The text of a query is filled in at its question marks, one after the other. A query that
fails is put aside, and the timer asks for it again through the function that formats.
-/
namespace OctCommu.Util
open Runs

structure SqlStream where
  _sql : List UInt8
  _startPos : ℕ

namespace SqlStream

def create (sql : List UInt8) : SqlStream := ⟨sql,0⟩

/-- `operator<<` for what is escaped to a text, or throws there. -/
def put (s : SqlStream) (str : Option (List UInt8)) : SqlStream :=
  match File.find s._sql 63 s._startPos, str with
  | some pos, some str => ⟨s._sql.take pos ++ str ++ s._sql.drop (pos + 1),pos + str.length⟩
  | _, _ => s

/-- The template with the texts at its question marks, as far as there are both. -/
def fill : List UInt8 → List (List UInt8) → List UInt8
  | [], _ => []
  | c :: sql, [] => c :: sql
  | c :: sql, str :: strs => if c = 63 then str ++ fill sql strs else c :: fill sql (str :: strs)

/-- The template with each text at its own question mark, which stays where there is none. -/
def fillOwn : List UInt8 → List (Option (List UInt8)) → List UInt8
  | [], _ => []
  | c :: sql, [] => c :: sql
  | c :: sql, str :: strs => if c = 63 then str.getD [63] ++ fillOwn sql strs else c :: fillOwn sql (str :: strs)

variable {p rest done : List UInt8}

theorem fill_nil (sql : List UInt8) : fill sql [] = sql := by cases sql <;> rfl

theorem fillOwn_nil (sql : List UInt8) : fillOwn sql [] = sql := by cases sql <;> rfl

theorem fill_plain (h : 63 ∉ p) (strs : List (List UInt8)) : fill p strs = p := by
  induction p with
  | nil => rfl
  | cons c p ih =>
    obtain ⟨hc,hp⟩ := not_or.mp (mt List.mem_cons.mpr h)
    cases strs with
    | nil => rfl
    | cons str strs => rw [fill, if_neg (Ne.symm hc), ih hp]

theorem fillOwn_plain (h : 63 ∉ p) (strs : List (Option (List UInt8))) : fillOwn p strs = p := by
  induction p with
  | nil => rfl
  | cons c p ih =>
    obtain ⟨hc,hp⟩ := not_or.mp (mt List.mem_cons.mpr h)
    cases strs with
    | nil => rfl
    | cons str strs => rw [fillOwn, if_neg (Ne.symm hc), ih hp]

theorem fill_mark (h : 63 ∉ p) (str : List UInt8) (strs : List (List UInt8)) :
    fill (p ++ 63 :: rest) (str :: strs) = p ++ str ++ fill rest strs := by
  induction p with
  | nil => rfl
  | cons c p ih =>
    obtain ⟨hc,hp⟩ := not_or.mp (mt List.mem_cons.mpr h)
    rw [List.cons_append, fill, if_neg (Ne.symm hc), ih hp]
    rfl

theorem fillOwn_mark (h : 63 ∉ p) (str : Option (List UInt8)) (strs : List (Option (List UInt8))) :
    fillOwn (p ++ 63 :: rest) (str :: strs) = p ++ str.getD [63] ++ fillOwn rest strs := by
  induction p with
  | nil => rfl
  | cons c p ih =>
    obtain ⟨hc,hp⟩ := not_or.mp (mt List.mem_cons.mpr h)
    rw [List.cons_append, fillOwn, if_neg (Ne.symm hc), ih hp]
    rfl

/-- A text without a mark, or one up to its first mark. -/
theorem mark_cases (sql : List UInt8) : 63 ∉ sql ∨ ∃ p rest, sql = p ++ 63 :: rest ∧ 63 ∉ p := by
  by_cases h : (63 : UInt8) ∈ sql
  · obtain ⟨p,rest,hsql,hp⟩ := List.eq_append_cons_of_mem h
    exact .inr ⟨p,rest,hsql,hp⟩
  · exact .inl h

theorem find_plain (h : 63 ∉ rest) : File.find (done ++ rest) 63 done.length = none := by
  rw [File.find, List.drop_left, List.idxOf?_eq_none_iff.mpr h]
  rfl

theorem find_mark (h : 63 ∉ p) : File.find (done ++ (p ++ 63 :: rest)) 63 done.length =
    some (done ++ p).length := by
  have hfirst : (p ++ 63 :: rest).idxOf? 63 = some p.length := by
    refine List.idxOf?_eq_some_iff.mpr ⟨by simp,by simp,fun j hj heq => ?_⟩
    rw [List.getElem_append_left hj] at heq
    exact h (heq ▸ List.getElem_mem hj)
  rw [File.find, List.drop_left, hfirst, List.length_append]
  rfl

theorem put_plain (h : 63 ∉ rest) (str : Option (List UInt8)) :
    put ⟨done ++ rest,done.length⟩ str = ⟨done ++ rest,done.length⟩ := by
  unfold put
  simp only [find_plain h]

theorem put_mark (h : 63 ∉ p) (str : List UInt8) :
    put ⟨done ++ (p ++ 63 :: rest),done.length⟩ (some str) =
      ⟨done ++ p ++ str ++ rest,(done ++ p ++ str).length⟩ := by
  have htake : (done ++ (p ++ 63 :: rest)).take (done ++ p).length = done ++ p := by
    rw [← List.append_assoc, List.take_left]
  have hdrop : (done ++ (p ++ 63 :: rest)).drop ((done ++ p).length + 1) = rest := by
    rw [← List.append_assoc, ← List.drop_drop, List.drop_left]
    rfl
  have hlen : (done ++ p ++ str).length = (done ++ p).length + str.length := List.length_append
  unfold put
  simp only [find_mark h, htake, hdrop, hlen]

theorem put_throws (s : SqlStream) : s.put none = s := by
  unfold put
  cases File.find s._sql 63 s._startPos <;> rfl

/-- The texts that are escaped go to the question marks in order, and none of them is taken for one. -/
theorem foldl_put (args : List (Option (List UInt8))) (done rest : List UInt8) :
    (args.foldl put ⟨done ++ rest,done.length⟩)._sql = done ++ fill rest args.reduceOption := by
  induction args generalizing done rest with
  | nil => rw [List.foldl_nil, List.reduceOption_nil, fill_nil]
  | cons arg args ih =>
    rw [List.foldl_cons]
    cases arg with
    | none => rw [put_throws, List.reduceOption_cons_of_none, ih]
    | some str =>
      rw [List.reduceOption_cons_of_some]
      rcases mark_cases rest with hplain | ⟨p,rest,rfl,hp⟩
      · rw [put_plain hplain, ih, fill_plain hplain, fill_plain hplain]
      · rw [put_mark hp, ih, fill_mark hp]
        simp

theorem fillOwn_none {args : List (Option (List UInt8))} (h : args.reduceOption = []) (sql : List UInt8) :
    fillOwn sql args = sql := by
  induction args generalizing sql with
  | nil => exact fillOwn_nil sql
  | cons arg args ih =>
    cases arg with
    | some str => simp at h
    | none =>
      rw [List.reduceOption_cons_of_none] at h
      rcases mark_cases sql with hplain | ⟨p,rest,rfl,hp⟩
      · exact fillOwn_plain hplain _
      · rw [fillOwn_mark hp, ih h]
        simp

/-- No text comes after one that has failed while it had a question mark. -/
def InLine (marks : ℕ) (ok : List Bool) : Prop :=
  ∀ pre post, ok = pre ++ false :: post → pre.length < marks → true ∉ post

theorem inLine_zero (ok : List Bool) : InLine 0 ok := fun _ _ _ hlt => absurd hlt (Nat.not_lt_zero _)

theorem inLine_true {marks : ℕ} {ok : List Bool} : InLine (marks + 1) (true :: ok) ↔ InLine marks ok := by
  constructor
  · intro h pre post hok hlt
    exact h (true :: pre) post (by rw [hok]; rfl) (Nat.succ_lt_succ hlt)
  · intro h pre post hok hlt
    cases pre with
    | nil => simp at hok
    | cons b pre =>
      obtain ⟨rfl,htail⟩ := List.cons.inj hok
      exact h pre post htail (Nat.lt_of_succ_lt_succ hlt)

theorem inLine_false {marks : ℕ} {ok : List Bool} : InLine (marks + 1) (false :: ok) ↔ true ∉ ok := by
  constructor
  · intro h
    exact h [] ok rfl (Nat.succ_pos _)
  · intro h pre post hok hlt hmem
    cases pre with
    | nil =>
      obtain ⟨-,rfl⟩ := List.cons.inj hok
      exact h hmem
    | cons b pre =>
      obtain ⟨-,rfl⟩ := List.cons.inj hok
      exact h (by simp [hmem])

theorem count_mark (h : 63 ∉ p) (rest : List UInt8) : (p ++ 63 :: rest).count 63 = rest.count 63 + 1 := by
  rw [List.count_append, List.count_eq_zero_of_not_mem h, List.count_cons_self, Nat.zero_add]

theorem fill_eq_of_inLine {args : List (Option (List UInt8))} {sql : List UInt8}
    (h : InLine (sql.count 63) (args.map Option.isSome)) : fill sql args.reduceOption = fillOwn sql args := by
  induction args generalizing sql with
  | nil => rw [List.reduceOption_nil, fill_nil, fillOwn_nil]
  | cons arg args ih =>
    rcases mark_cases sql with hplain | ⟨p,rest,rfl,hp⟩
    · rw [fill_plain hplain, fillOwn_plain hplain]
    · rw [count_mark hp, List.map_cons] at h
      cases arg with
      | some str =>
        rw [List.reduceOption_cons_of_some, fill_mark hp, fillOwn_mark hp, ih (inLine_true.mp h)]
        rfl
      | none =>
        have hnone : args.reduceOption = [] := by
          refine List.eq_nil_iff_forall_not_mem.mpr fun str hstr => inLine_false.mp h ?_
          exact List.mem_map.mpr ⟨some str,List.reduceOption_mem_iff.mp hstr,rfl⟩
        rw [List.reduceOption_cons_of_none, hnone, fill_nil, fillOwn_mark hp, fillOwn_none hnone]
        simp

/-- A letter for every text that is escaped. -/
def letters (ok : List Bool) : List (Option (List UInt8)) := ok.map fun b => if b then some [65] else none

theorem inLine_of_letters {ok : List Bool} {sql : List UInt8}
    (h : fill sql (letters ok).reduceOption = fillOwn sql (letters ok)) : InLine (sql.count 63) ok := by
  induction ok generalizing sql with
  | nil => exact fun _ _ hok => absurd hok (by simp)
  | cons b ok ih =>
    rcases mark_cases sql with hplain | ⟨p,rest,rfl,hp⟩
    · rw [List.count_eq_zero_of_not_mem hplain]
      exact inLine_zero _
    · rw [count_mark hp]
      cases b with
      | true =>
        change fill _ ([65] :: (letters ok).reduceOption) = fillOwn _ (some [65] :: letters ok) at h
        rw [fill_mark hp, fillOwn_mark hp] at h
        exact inLine_true.mpr (ih (List.append_cancel_left h))
      | false =>
        refine inLine_false.mpr fun hmem => ?_
        change fill _ (letters ok).reduceOption = fillOwn _ (none :: letters ok) at h
        have hletter : [65] ∈ (letters ok).reduceOption :=
          List.reduceOption_mem_iff.mpr (List.mem_map.mpr ⟨true,hmem,rfl⟩)
        obtain ⟨str,strs,hstrs⟩ := List.exists_cons_of_ne_nil (List.ne_nil_of_mem hletter)
        have hstr : str = [65] := by
          have hin : str ∈ (letters ok).reduceOption := by simp [hstrs]
          obtain ⟨b,-,hb⟩ := List.mem_map.mp (List.reduceOption_mem_iff.mp hin)
          cases b <;> simp_all
        rw [hstrs, hstr, fill_mark hp, fillOwn_mark hp, List.append_assoc, List.append_assoc] at h
        have hhead := List.append_cancel_left h
        simp at hhead

/-- Each text that is escaped, whatever it is, comes to the question mark it was given for exactly when none
comes after one that has thrown while it had a question mark. -/
theorem own_iff_inLine (sql : List UInt8) (ok : List Bool) :
    (∀ args : List (Option (List UInt8)), args.map Option.isSome = ok →
      (args.foldl put (create sql))._sql = fillOwn sql args) ↔ InLine (sql.count 63) ok := by
  have hput : ∀ args : List (Option (List UInt8)),
      (args.foldl put (create sql))._sql = fill sql args.reduceOption := fun args => foldl_put args [] sql
  constructor
  · intro h
    refine inLine_of_letters ?_
    rw [← hput]
    refine h (letters ok) ?_
    rw [letters, List.map_map]
    exact List.map_id'' (fun b => by cases b <;> rfl) ok
  · rintro h args rfl
    rw [hput, fill_eq_of_inLine h]

end SqlStream

/-- A query, with its number among those that were asked for. -/
structure SqlQuery where
  number : ℕ
  sql_str : List UInt8
  tryCnt : ℕ

/-- The tasks at the work thread, what `flushError` has copied and not yet asked for again, and the queries that
have failed; with those that were asked for, done and given up. -/
structure SqlPool where
  tasks : List SqlQuery
  query_copy : List SqlQuery
  _error_query : List SqlQuery
  asked : List (List UInt8)
  queried : List SqlQuery
  givenUp : List SqlQuery

inductive SqlAct where
  | asyncQuery (sql : List UInt8)
  /-- a task runs, and its query succeeds or throws -/
  | run (i : ℕ) (ok : Bool)
  /-- `flushError` takes the failed queries -/
  | flushError
  /-- and asks for the first of them again -/
  | again

namespace SqlPool
variable (queryString : List UInt8 → ℕ → List UInt8)

def fresh : SqlPool := ⟨[],[],[],[],[],[]⟩

def asyncQuery_l (s : SqlPool) (number : ℕ) (sql : List UInt8) (tryCnt : ℕ) : SqlPool :=
  { s with tasks := s.tasks ++ [⟨number,sql,tryCnt⟩] }

/-- `queryString` is the formatting of a text with a number; a text alone is not formatted. -/
def step (s : SqlPool) : SqlAct → Option SqlPool
  | .asyncQuery sql => some { s.asyncQuery_l s.asked.length sql 3 with asked := s.asked ++ [sql] }
  | .run i ok => (s.tasks[i]?).map fun q =>
    let t := { s with tasks := s.tasks.eraseIdx i }
    if ok then { t with queried := t.queried ++ [q] }
    else if 0 < q.tryCnt - 1 then { t with _error_query := t._error_query ++ [{ q with tryCnt := q.tryCnt - 1 }] }
    else { t with givenUp := t.givenUp ++ [q] }
  | .flushError =>
    if s.query_copy = [] then some { s with query_copy := s._error_query, _error_query := [] } else none
  | .again =>
    match s.query_copy with
    | [] => none
    | q :: qs => some ({ s with query_copy := qs }.asyncQuery_l q.number (queryString q.sql_str q.tryCnt) 3)

/-- All queries that are somewhere. -/
def queries (s : SqlPool) : List SqlQuery := s.tasks ++ (s.query_copy ++ (s._error_query ++ s.queried))

structure Sound (s : SqlPool) : Prop where
  /-- every query that was asked for waits or has succeeded, once -/
  once : (s.queries.map (·.number)).Perm (List.range s.asked.length)
  /-- with its own text -/
  own : ∀ q ∈ s.queries, s.asked[q.number]? = some q.sql_str
  kept : s.givenUp = []

/-- The formatting leaves the text that is asked for again as it is. -/
def Unchanged (s : SqlPool) : SqlAct → Prop
  | .again => ∀ q ∈ s.query_copy.head?, queryString q.sql_str q.tryCnt = q.sql_str
  | _ => True

/-- The number of tries begins anew whenever a query is asked for again. -/
structure Inv (s : SqlPool) : Prop extends s.Sound where
  tries : ∀ q ∈ s.tasks, q.tryCnt = 3

variable {queryString} {s t : SqlPool}

/-- Queries that only change their place. -/
theorem Sound.of_perm (h : s.Sound) (hasked : t.asked = s.asked) (hkept : t.givenUp = [])
    (hperm : (t.queries.map fun q => (q.number,q.sql_str)).Perm (s.queries.map fun q => (q.number,q.sql_str))) :
    t.Sound := by
  refine ⟨?_,fun q hq => ?_,hkept⟩
  · have hnumbers := hperm.map Prod.fst
    rw [List.map_map, List.map_map] at hnumbers
    rw [hasked]
    exact hnumbers.trans h.once
  · have hmem := hperm.subset (List.mem_map.mpr ⟨q,hq,rfl⟩)
    obtain ⟨q',hq',heq⟩ := List.mem_map.mp hmem
    obtain ⟨hnumber,hsql⟩ := Prod.mk.inj heq
    rw [hasked, ← hnumber, ← hsql]
    exact h.own q' hq'

theorem Inv.asyncQuery (h : s.Inv) {sql : List UInt8} (ht : s.step queryString (.asyncQuery sql) = some t) :
    t.Inv := by
  obtain rfl := Option.some.inj ht
  have hqueries : { s.asyncQuery_l s.asked.length sql 3 with asked := s.asked ++ [sql] }.queries.Perm
      (⟨s.asked.length,sql,3⟩ :: s.queries) := by
    change (s.tasks ++ [_] ++ _).Perm (_ :: (s.tasks ++ _))
    rw [List.append_assoc]
    exact List.perm_middle
  refine ⟨⟨?_,fun q hq => ?_,h.kept⟩,fun q hq => ?_⟩
  · have hnumbers := hqueries.map (·.number)
    have hrange : List.range (s.asked ++ [sql]).length = List.range s.asked.length ++ [s.asked.length] := by
      rw [List.length_append, List.length_singleton, List.range_succ]
    change (List.map _ _).Perm (List.range (s.asked ++ [sql]).length)
    rw [hrange]
    exact hnumbers.trans ((h.once.cons _).trans (List.perm_append_singleton _ _).symm)
  · change (s.asked ++ [sql])[q.number]? = _
    obtain rfl | hq := List.mem_cons.mp (hqueries.subset hq)
    · simp
    · have hown := h.own q hq
      obtain ⟨hlt,-⟩ := List.getElem?_eq_some_iff.mp hown
      rw [List.getElem?_append_left hlt, hown]
  · obtain hq | hq := List.mem_append.mp hq
    · exact h.tries q hq
    · rw [List.mem_singleton.mp hq]

theorem Inv.run (h : s.Inv) {i : ℕ} {ok : Bool} (ht : s.step queryString (.run i ok) = some t) : t.Inv := by
  obtain ⟨q,hq,ht⟩ := Option.map_eq_some_iff.mp ht
  obtain ⟨hlt,hget⟩ := List.getElem?_eq_some_iff.mp hq
  have htasks : (q :: s.tasks.eraseIdx i).Perm s.tasks := by
    rw [← hget]
    exact List.getElem_cons_eraseIdx_perm hlt
  have htries : ∀ q' ∈ s.tasks.eraseIdx i, q'.tryCnt = 3 := fun q' hq' => h.tries q' (List.mem_of_mem_eraseIdx hq')
  have hthree : q.tryCnt = 3 := h.tries q (List.mem_of_getElem? hq)
  have hsame : ∀ (q' : SqlQuery) (l : List SqlQuery), q'.number = q.number → q'.sql_str = q.sql_str →
      l.Perm (q' :: (s.tasks.eraseIdx i ++ (s.query_copy ++ (s._error_query ++ s.queried)))) →
      (l.map fun q => (q.number,q.sql_str)).Perm (s.queries.map fun q => (q.number,q.sql_str)) := by
    intro q' l hnumber hsql hl
    refine (hl.map _).trans ?_
    rw [List.map_cons, hnumber, hsql]
    exact (htasks.append_right _).map fun q => (q.number,q.sql_str)
  cases ok with
  | true =>
    simp only [if_true] at ht
    subst ht
    refine ⟨h.toSound.of_perm rfl h.kept (hsame q _ rfl rfl ?_),htries⟩
    simp only [queries, ← List.append_assoc]
    exact List.perm_append_singleton _ _
  | false =>
    simp only [hthree, Bool.false_eq_true, if_false] at ht
    rw [if_pos (by decide)] at ht
    subst ht
    refine ⟨h.toSound.of_perm rfl h.kept (hsame ⟨q.number,q.sql_str,2⟩ _ rfl rfl ?_),htries⟩
    simp only [queries, ← List.append_assoc]
    rw [List.append_assoc (_ ++ _) [_]]
    exact List.perm_middle

theorem Inv.flushError (h : s.Inv) (ht : s.step queryString .flushError = some t) : t.Inv := by
  rw [step] at ht
  split_ifs at ht with hcopy
  obtain rfl := Option.some.inj ht
  refine ⟨h.toSound.of_perm rfl h.kept ?_,h.tries⟩
  rw [queries, queries, hcopy]
  rfl

theorem Inv.again (h : s.Inv) (hsame : s.Unchanged queryString .again) (ht : s.step queryString .again = some t) :
    t.Inv := by
  rw [step] at ht
  split at ht
  · cases ht
  · rename_i q qs hcopy
    obtain rfl := Option.some.inj ht
    have htext : queryString q.sql_str q.tryCnt = q.sql_str := hsame q (by simp [hcopy])
    refine ⟨h.toSound.of_perm rfl h.kept ?_,fun q' hq' => ?_⟩
    · rw [queries, queries, hcopy, asyncQuery_l, htext]
      simp
    · obtain hq' | hq' := List.mem_append.mp hq'
      · exact h.tries q' hq'
      · rw [List.mem_singleton.mp hq']

/-- However often queries fail and whenever the timer comes, each is in one place with its own text until it has
succeeded once and none is ever given up, in every state exactly while the formatting changes no text. -/
theorem everyStep_unchanged_iff (queryString : List UInt8 → ℕ → List UInt8) (acts : List SqlAct) :
    EveryStep (step queryString) (Unchanged queryString) fresh acts ↔
      EveryState (step queryString) Sound fresh acts := by
  have hfresh : fresh.Inv := ⟨⟨by simp [queries, fresh],by simp [queries, fresh],rfl⟩,by simp [fresh]⟩
  apply everyStep_iff_everyState hfresh (fun _ h => h.toSound)
  · intro s a t h hsame ht
    cases a with
    | asyncQuery sql => exact h.asyncQuery ht
    | run i ok => exact h.run ht
    | flushError => exact h.flushError ht
    | again => exact h.again hsame ht
  · intro s a t h ht hsound
    cases a with
    | again =>
      intro q hq
      obtain ⟨qs,hcopy⟩ := List.head?_eq_some_iff.mp hq
      rw [step, hcopy] at ht
      obtain rfl := Option.some.inj ht
      have hafter := hsound.own ⟨q.number,queryString q.sql_str q.tryCnt,3⟩ (by simp [queries, asyncQuery_l])
      have hbefore := h.own q (by simp [queries, hcopy])
      exact Option.some.inj (hafter.symm.trans hbefore)
    | asyncQuery sql => trivial
    | run i ok => trivial
    | flushError => trivial

end SqlPool
end OctCommu.Util
