import OctCommu.Communcation.TCPImp
import Mathlib.Logic.Function.Basic

/-! # Where a callback of a `TCPImp` goes

Both objects inherit four callbacks from `TCPCommon`. `TCPImp` hands a callback
on to the object that its current role selects, and to no other.
-/
namespace OctCommu.Communcation

/-- The members of `TCPCommon` that hold a callback. -/
inductive CallbackKind where
  | on_recv_data_func_
  | on_connect_func_
  | on_tcp_flush_func_
  | on_tcp_error_func_
  deriving DecidableEq

/-- A type of functions for each kind; an empty `std::function` is none of them. -/
structure TCPCallbacks (F : CallbackKind → Type*) where
  tcp_type_ : ℤ
  tcp_client_imp_ : (k : CallbackKind) → Option (F k)
  tcp_server_imp_ : (k : CallbackKind) → Option (F k)

inductive TCPCall (F : CallbackKind → Type*) where
  | init (tcp_type_ : ℤ)
  | setOnReadFunc (cb : Option (F .on_recv_data_func_))
  | setOnConnectFunc (cb : Option (F .on_connect_func_))
  | setOnFlushFunc (cb : Option (F .on_tcp_flush_func_))
  | setOnErrorFunc (cb : Option (F .on_tcp_error_func_))

namespace TCPCallbacks
variable {F : CallbackKind → Type*}

def fresh : TCPCallbacks F := ⟨0,fun _ => none,fun _ => none⟩

/-- Neither object's `init` touches its callbacks. -/
def init (s : TCPCallbacks F) (tcp_type_ : ℤ) : TCPCallbacks F := { s with tcp_type_ := tcp_type_ }

def setFunc (s : TCPCallbacks F) (k : CallbackKind) (cb : Option (F k)) : TCPCallbacks F :=
  if TT_CLIENT = s.tcp_type_ then
    { s with tcp_client_imp_ := Function.update s.tcp_client_imp_ k cb }
  else { s with tcp_server_imp_ := Function.update s.tcp_server_imp_ k cb }

def setOnReadFunc (s : TCPCallbacks F) (cb : Option (F .on_recv_data_func_)) : TCPCallbacks F :=
  s.setFunc .on_recv_data_func_ cb

def setOnConnectFunc (s : TCPCallbacks F) (cb : Option (F .on_connect_func_)) : TCPCallbacks F :=
  s.setFunc .on_connect_func_ cb

def setOnFlushFunc (s : TCPCallbacks F) (cb : Option (F .on_tcp_flush_func_)) : TCPCallbacks F :=
  s.setFunc .on_tcp_flush_func_ cb

def setOnErrorFunc (s : TCPCallbacks F) (cb : Option (F .on_tcp_error_func_)) : TCPCallbacks F :=
  s.setFunc .on_tcp_error_func_ cb

def call (s : TCPCallbacks F) : TCPCall F → TCPCallbacks F
  | .init tcp_type_ => s.init tcp_type_
  | .setOnReadFunc cb => s.setOnReadFunc cb
  | .setOnConnectFunc cb => s.setOnConnectFunc cb
  | .setOnFlushFunc cb => s.setOnFlushFunc cb
  | .setOnErrorFunc cb => s.setOnErrorFunc cb

/-- The callbacks of the object that holds them, by the role that selects it. -/
def holds (s : TCPCallbacks F) (client : Bool) (k : CallbackKind) : Option (F k) :=
  if client then s.tcp_client_imp_ k else s.tcp_server_imp_ k

def client (s : TCPCallbacks F) : Bool := TT_CLIENT = s.tcp_type_

end TCPCallbacks

namespace TCPCall
variable {F : CallbackKind → Type*}

/-- What a call registers for this kind, when it does. -/
def registers : (k : CallbackKind) → TCPCall F → Option (Option (F k))
  | .on_recv_data_func_, .setOnReadFunc cb => some cb
  | .on_connect_func_, .setOnConnectFunc cb => some cb
  | .on_tcp_flush_func_, .setOnFlushFunc cb => some cb
  | .on_tcp_error_func_, .setOnErrorFunc cb => some cb
  | _, _ => none

/-- The type that `init` leaves, all other calls keep it. -/
def typeAfter (tcp_type_ : ℤ) : TCPCall F → ℤ
  | .init t => t
  | _ => tcp_type_

/-- The role in which the calls end, when the first of them finds this type. -/
def roleAfter (tcp_type_ : ℤ) (calls : List (TCPCall F)) : Bool :=
  TT_CLIENT = calls.foldl typeAfter tcp_type_

/-- The last callback of this kind that the calls register, empty when there is none. -/
def lastFunc (k : CallbackKind) (calls : List (TCPCall F)) : Option (F k) :=
  (calls.filterMap (registers k)).getLast?.join

/-- The calls made in one role. -/
def madeIn (role : Bool) : ℤ → List (TCPCall F) → List (TCPCall F)
  | _, [] => []
  | tcp_type_, c :: cs =>
    let rest := madeIn role (c.typeAfter tcp_type_) cs
    if (TT_CLIENT = tcp_type_ : Bool) = role then c :: rest else rest

/-- For each kind, the last registration is made in the role the calls end in, or repeats what that
role's object was given last. -/
def Routed (calls : List (TCPCall F)) : Prop :=
  ∀ k before c after cb, calls = before ++ c :: after → c.registers k = some cb →
    (∀ d ∈ after, d.registers k = none) →
    roleAfter 0 before = roleAfter 0 calls ∨
      lastFunc k (madeIn (roleAfter 0 calls) 0 before) = cb

theorem madeIn_append (role : Bool) (cs ds : List (TCPCall F)) (tcp_type_ : ℤ) :
    madeIn role tcp_type_ (cs ++ ds) = madeIn role tcp_type_ cs ++
      madeIn role (cs.foldl typeAfter tcp_type_) ds := by
  induction cs generalizing tcp_type_ with
  | nil => rfl
  | cons c cs ih =>
    simp only [List.cons_append, madeIn, List.foldl_cons, ih]
    split
    · rfl
    · rfl

theorem mem_of_mem_madeIn {role : Bool} {cs : List (TCPCall F)} {tcp_type_ : ℤ} {d : TCPCall F}
    (h : d ∈ madeIn role tcp_type_ cs) : d ∈ cs := by
  induction cs generalizing tcp_type_ with
  | nil => exact h
  | cons c cs ih =>
    simp only [madeIn] at h
    split at h
    · rcases List.mem_cons.mp h with rfl | h
      · exact List.mem_cons_self
      · exact List.mem_cons_of_mem _ (ih h)
    · exact List.mem_cons_of_mem _ (ih h)

section
variable {k : CallbackKind}

theorem lastFunc_of_none {cs : List (TCPCall F)} (h : ∀ d ∈ cs, d.registers k = none) :
    lastFunc k cs = none := by
  have hnil : cs.filterMap (registers k) = [] := List.filterMap_eq_nil_iff.mpr h
  simp [lastFunc, hnil]

theorem lastFunc_append {cs ds : List (TCPCall F)} (h : ∀ d ∈ ds, d.registers k = none) :
    lastFunc k (cs ++ ds) = lastFunc k cs := by
  have hnil : ds.filterMap (registers k) = [] := List.filterMap_eq_nil_iff.mpr h
  simp [lastFunc, hnil]

theorem lastFunc_concat {cs : List (TCPCall F)} {c : TCPCall F} {cb : Option (F k)}
    (h : c.registers k = some cb) : lastFunc k (cs ++ [c]) = cb := by
  simp [lastFunc, h]

theorem lastFunc_split {before after : List (TCPCall F)} {c : TCPCall F} {cb : Option (F k)}
    (hc : c.registers k = some cb) (hafter : ∀ d ∈ after, d.registers k = none) :
    lastFunc k (before ++ c :: after) = cb := by
  rw [List.append_cons, lastFunc_append hafter, lastFunc_concat hc]

/-- The last registration of a kind, if there is one. -/
theorem exists_last (k : CallbackKind) (cs : List (TCPCall F)) :
    (∀ c ∈ cs, c.registers k = none) ∨
      ∃ before c after cb, cs = before ++ c :: after ∧ c.registers k = some cb ∧
        ∀ d ∈ after, d.registers k = none := by
  induction cs with
  | nil => exact .inl fun c hc => absurd hc List.not_mem_nil
  | cons c cs ih =>
    rcases ih with hnone | ⟨before,d,after,cb,rfl,hd,hafter⟩
    · cases hc : c.registers k with
      | none =>
        left
        intro d hd
        rcases List.mem_cons.mp hd with rfl | hd
        · exact hc
        · exact hnone d hd
      | some cb => exact .inr ⟨[],c,cs,cb,rfl,hc,hnone⟩
    · exact .inr ⟨c :: before,d,after,cb,rfl,hd,hafter⟩

theorem lastFunc_madeIn_split {before after : List (TCPCall F)} {c : TCPCall F} {cb : Option (F k)}
    (role : Bool) (tcp_type_ : ℤ) (hc : c.registers k = some cb)
    (hafter : ∀ d ∈ after, d.registers k = none) :
    lastFunc k (madeIn role tcp_type_ (before ++ c :: after)) =
      if roleAfter tcp_type_ before = role then cb
      else lastFunc k (madeIn role tcp_type_ before) := by
  have hrest : ∀ t, ∀ d ∈ madeIn role t after, d.registers k = none :=
    fun t d hd => hafter d (mem_of_mem_madeIn hd)
  rw [madeIn_append]
  by_cases hrole : roleAfter tcp_type_ before = role
  · have hrole' := hrole
    rw [roleAfter] at hrole'
    rw [if_pos hrole, madeIn, if_pos hrole']
    exact lastFunc_split hc (hrest _)
  · have hrole' := hrole
    rw [roleAfter] at hrole'
    rw [if_neg hrole, madeIn, if_neg hrole']
    exact lastFunc_append (hrest _)

/-- Whether one role's object was given the last callback of all. -/
theorem lastFunc_madeIn_eq_iff {before after calls : List (TCPCall F)} {c : TCPCall F}
    {cb : Option (F k)} (role : Bool) (tcp_type_ : ℤ) (hcalls : calls = before ++ c :: after)
    (hc : c.registers k = some cb) (hafter : ∀ d ∈ after, d.registers k = none) :
    lastFunc k (madeIn role tcp_type_ calls) = lastFunc k calls ↔
      roleAfter tcp_type_ before = role ∨ lastFunc k (madeIn role tcp_type_ before) = cb := by
  rw [hcalls, lastFunc_madeIn_split role tcp_type_ hc hafter, lastFunc_split hc hafter]
  by_cases hrole : roleAfter tcp_type_ before = role
  · simp [hrole]
  · simp [hrole]

end
end TCPCall

namespace TCPCallbacks
open TCPCall
variable {F : CallbackKind → Type*}

/-- A call registers one callback of one kind, or it is an `init`. -/
theorem call_cases (s : TCPCallbacks F) (c : TCPCall F) :
    (s.call c = s.init (c.typeAfter s.tcp_type_) ∧ ∀ k, c.registers k = none) ∨
      ∃ k cb, s.call c = s.setFunc k cb ∧ c.typeAfter s.tcp_type_ = s.tcp_type_ ∧
        c.registers k = some cb ∧ ∀ j, j ≠ k → c.registers j = none := by
  cases c with
  | init t => exact .inl ⟨rfl,fun k => by cases k <;> rfl⟩
  | setOnReadFunc cb => exact .inr ⟨_,cb,rfl,rfl,rfl,fun j hj => by cases j <;> trivial⟩
  | setOnConnectFunc cb => exact .inr ⟨_,cb,rfl,rfl,rfl,fun j hj => by cases j <;> trivial⟩
  | setOnFlushFunc cb => exact .inr ⟨_,cb,rfl,rfl,rfl,fun j hj => by cases j <;> trivial⟩
  | setOnErrorFunc cb => exact .inr ⟨_,cb,rfl,rfl,rfl,fun j hj => by cases j <;> trivial⟩

theorem holds_fresh (role : Bool) (k : CallbackKind) : (fresh : TCPCallbacks F).holds role k = none :=
  ite_self _

theorem tcp_type_setFunc (s : TCPCallbacks F) (k : CallbackKind) (cb : Option (F k)) :
    (s.setFunc k cb).tcp_type_ = s.tcp_type_ := by
  unfold setFunc
  split
  · rfl
  · rfl

theorem holds_setFunc (s : TCPCallbacks F) (k : CallbackKind) (cb : Option (F k)) (role : Bool) :
    (s.setFunc k cb).holds role k = if s.client = role then cb else s.holds role k := by
  cases role <;> by_cases h : TT_CLIENT = s.tcp_type_ <;> simp [holds, setFunc, client, h]

theorem holds_setFunc_ne (s : TCPCallbacks F) {j k : CallbackKind} (hj : j ≠ k) (cb : Option (F k))
    (role : Bool) : (s.setFunc k cb).holds role j = s.holds role j := by
  cases role <;> by_cases h : TT_CLIENT = s.tcp_type_ <;> simp [holds, setFunc, h, hj]

theorem tcp_type_call (s : TCPCallbacks F) (c : TCPCall F) :
    (s.call c).tcp_type_ = c.typeAfter s.tcp_type_ := by
  rcases s.call_cases c with ⟨h,_⟩ | ⟨k,cb,h,ht,_⟩
  · rw [h]
    rfl
  · rw [h, tcp_type_setFunc, ht]

theorem holds_call (s : TCPCallbacks F) (c : TCPCall F) (role : Bool) (k : CallbackKind) :
    (s.call c).holds role k =
      if s.client = role then (c.registers k).getD (s.holds role k) else s.holds role k := by
  rcases s.call_cases c with ⟨h,hnone⟩ | ⟨j,cb,h,_,hcb,hne⟩
  · rw [h, hnone]
    exact (ite_self _).symm
  · by_cases hk : k = j
    · subst hk
      rw [h, holds_setFunc, hcb]
      rfl
    · rw [h, holds_setFunc_ne s hk, hne k hk]
      exact (ite_self _).symm

/-- Each object holds what was registered last while its role was the current one. -/
theorem holds_foldl (calls : List (TCPCall F)) (s : TCPCallbacks F) (role : Bool) (k : CallbackKind) :
    (calls.foldl call s).holds role k =
      ((madeIn role s.tcp_type_ calls).filterMap (registers k)).getLast?.getD (s.holds role k) := by
  induction calls generalizing s with
  | nil => rfl
  | cons c cs ih =>
    rw [List.foldl_cons, ih, tcp_type_call, holds_call]
    have hclient : s.client = (TT_CLIENT = s.tcp_type_ : Bool) := rfl
    by_cases hrole : s.client = role
    · rw [if_pos hrole, madeIn, if_pos (hclient ▸ hrole), List.filterMap_cons]
      cases c.registers k with
      | none => rfl
      | some cb =>
        simp only [List.getLast?_cons, Option.getD_some]
    · rw [if_neg hrole, madeIn, if_neg (hclient ▸ hrole)]

theorem client_foldl (calls : List (TCPCall F)) (s : TCPCallbacks F) :
    (calls.foldl call s).client = roleAfter s.tcp_type_ calls := by
  induction calls generalizing s with
  | nil => rfl
  | cons c cs ih =>
    rw [List.foldl_cons, ih, tcp_type_call]
    rfl

/-- The object the current role selects holds the last callback of each kind. -/
def HoldsLast (s : TCPCallbacks F) (calls : List (TCPCall F)) : Prop :=
  ∀ k, s.holds s.client k = lastFunc k calls

theorem holdsLast_iff_madeIn (calls : List (TCPCall F)) :
    (calls.foldl call fresh).HoldsLast calls ↔
      ∀ k, lastFunc k (madeIn (roleAfter 0 calls) 0 calls) = lastFunc k calls := by
  have h : ∀ k, (calls.foldl call fresh).holds (calls.foldl call fresh).client k =
      lastFunc k (madeIn (roleAfter 0 calls) 0 calls) := by
    intro k
    have htype : (fresh : TCPCallbacks F).tcp_type_ = 0 := rfl
    rw [client_foldl, holds_foldl, holds_fresh, htype, lastFunc]
    cases ((madeIn (roleAfter 0 calls) 0 calls).filterMap (registers k)).getLast? with
    | none => rfl
    | some cb => rfl
  simp only [HoldsLast, h]

/-- Registration and `init` commute just when the last registration of each kind is made in the
role the calls end in, or repeats what that role's object was given. -/
theorem holdsLast_iff_routed (calls : List (TCPCall F)) :
    (calls.foldl call fresh).HoldsLast calls ↔ Routed calls := by
  rw [holdsLast_iff_madeIn]
  constructor
  · intro h k before c after cb hcalls hc hafter
    exact (lastFunc_madeIn_eq_iff _ _ hcalls hc hafter).mp (h k)
  · intro h k
    rcases exists_last k calls with hnone | ⟨before,c,after,cb,hcalls,hc,hafter⟩
    · rw [lastFunc_of_none hnone, lastFunc_of_none fun d hd => hnone d (mem_of_mem_madeIn hd)]
    · exact (lastFunc_madeIn_eq_iff _ _ hcalls hc hafter).mpr (h k before c after cb hcalls hc hafter)

/-- A callback registered before the first `init` goes to the server, and a client never calls it. -/
theorem not_holdsLast_before_init :
    ¬ HoldsLast ([.setOnReadFunc (some ()),.init TT_CLIENT].foldl call
      (fresh : TCPCallbacks fun _ => Unit)) [.setOnReadFunc (some ()),.init TT_CLIENT] := by
  intro h
  exact absurd (h .on_recv_data_func_) (by decide)

section
variable {P : Type*}

/-- A whole link and its callbacks agree on the role and on where data is received. -/
def Tracks (r : TCPCallbacks F) (s : TCPImp P) : Prop :=
  s.tcp_type_ = r.tcp_type_ ∧
    s.tcp_client_imp_.common.on_recv_data_func_ = (r.tcp_client_imp_ .on_recv_data_func_).isSome ∧
    s.tcp_server_imp_.common.on_recv_data_func_ = (r.tcp_server_imp_ .on_recv_data_func_).isSome

theorem Tracks.init [DecidableEq P] {r : TCPCallbacks F} {s : TCPImp P} (h : r.Tracks s) (_poller : P)
    (init_param : TCPInit) (result : ListenResult P) :
    (r.init init_param.tcp_type_).Tracks (s.init _poller init_param result) := by
  obtain ⟨_,hclient,hserver⟩ := h
  by_cases htype : TT_CLIENT = init_param.tcp_type_
  · simp only [TCPImp.init, if_pos htype]
    exact ⟨rfl,hclient,hserver⟩
  · simp only [TCPImp.init, if_neg htype]
    exact ⟨rfl,hclient,hserver⟩

theorem Tracks.setOnReadFunc {r : TCPCallbacks F} {s : TCPImp P} (h : r.Tracks s)
    (cb : Option (F .on_recv_data_func_)) :
    (r.setOnReadFunc cb).Tracks (s.setOnReadFunc cb.isSome) := by
  obtain ⟨ht,hclient,hserver⟩ := h
  by_cases htype : TT_CLIENT = r.tcp_type_
  · simp only [TCPImp.setOnReadFunc, TCPCallbacks.setOnReadFunc, setFunc, ht, if_pos htype]
    refine ⟨rfl,?_,hserver⟩
    simp [Communcation.setOnReadFunc]
  · simp only [TCPImp.setOnReadFunc, TCPCallbacks.setOnReadFunc, setFunc, ht, if_neg htype]
    refine ⟨rfl,hclient,?_⟩
    simp [Communcation.setOnReadFunc]

/-- They agree after any calls of `init` and `setOnReadFunc`. -/
theorem tracks_foldl [DecidableEq P] (_poller : P)
    (calls : List ((TCPInit × ListenResult P) ⊕ Option (F .on_recv_data_func_))) :
    (calls.foldl (fun r => Sum.elim (fun c => r.init c.1.tcp_type_) r.setOnReadFunc)
      (fresh : TCPCallbacks F)).Tracks
    (calls.foldl (fun s => Sum.elim (fun c => s.init _poller c.1 c.2) fun cb => s.setOnReadFunc cb.isSome)
      (TCPImp.start : TCPImp P)) := by
  have hstart : (fresh : TCPCallbacks F).Tracks (TCPImp.start : TCPImp P) := ⟨rfl,rfl,rfl⟩
  generalize (fresh : TCPCallbacks F) = r, (TCPImp.start : TCPImp P) = s at hstart
  induction calls generalizing r s with
  | nil => exact hstart
  | cons call calls ih =>
    apply ih
    cases call with
    | inl c => exact hstart.init _poller c.1 c.2
    | inr cb => exact hstart.setOnReadFunc cb

end
end TCPCallbacks
end OctCommu.Communcation
