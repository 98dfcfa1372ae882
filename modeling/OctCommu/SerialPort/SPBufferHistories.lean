import OctCommu.SerialPort.SPBuffer

/-! # Histories of `SPBuffer` calls against the byte queue

A history runs on any number of buffers. Beside the buffers it keeps the queue
each of them should be, driven by the calls and by the values they return; the
queue is lost when a call returns something no queue can return.
-/
namespace OctCommu.SerialPort
open Memory Runs
variable {I : Type*} [DecidableEq I] {SIZE : ℕ}

/-- `append`, `addBegin` and `reset` on buffer `i`, and `i.data(ins)`. -/
inductive BufferCall (I : Type*) where
  | append (i : I) (pdata : List UInt8)
  | addBegin (i : I) (offset : ℕ)
  | data (i ins : I)
  | reset (i : I)

inductive BufferRet where
  | code (n : ℕ)
  | flag (b : Bool)
  | none
  deriving DecidableEq

def callBuffer (objs : I → SPBuffer SIZE) : BufferCall I → BufferRet × (I → SPBuffer SIZE)
  | .append i pdata =>
    let r := (objs i).append pdata
    (.code r.1,Function.update objs i r.2)
  | .addBegin i offset =>
    let r := (objs i).addBegin offset
    (.flag r.1,Function.update objs i r.2)
  | .data i ins =>
    -- `this == &ins`
    if i = ins then (.code 2,objs)
    else
      let r := (objs i).data (objs ins)
      (.code 0,Function.update (Function.update objs ins r.2) i r.1)
  | .reset i => (.none,Function.update objs i (objs i).reset)

/-- What the returned value means for the queues. -/
def queueCall (q : I → List UInt8) : BufferCall I → BufferRet → Option (I → List UInt8)
  | .append i pdata, .code r => some (if r = 0 then Function.update q i (q i ++ pdata) else q)
  | .addBegin i offset, .flag ok =>
    if ok = false then some q
    else if offset ≤ (q i).length then some (Function.update q i ((q i).drop offset))
    else none
  | .data i ins, .code _ =>
    some (if i = ins then q else Function.update (Function.update q ins (q i)) i [])
  | .reset i, .none => some (Function.update q i [])
  | _, _ => none

structure History (I : Type*) (SIZE : ℕ) where
  objs : I → SPBuffer SIZE
  queue : Option (I → List UInt8)

def History.start : History I SIZE := ⟨fun _ => .fresh,some fun _ => []⟩

def History.step (h : History I SIZE) (c : BufferCall I) : Option (History I SIZE) :=
  let r := callBuffer h.objs c
  some ⟨r.2,h.queue.bind fun q => queueCall q c r.1⟩

def History.Refines (h : History I SIZE) : Prop :=
  h.queue = some fun i => (h.objs i).readable

def History.NoWrap (h : History I SIZE) : BufferCall I → Prop
  | .addBegin i offset => (h.objs i).begin_ + offset < sizeModulus
  | _ => True

/-- A nonempty block that fits is stored only into a buffer with no unread byte. -/
def History.StoresBehindNothing (h : History I SIZE) : BufferCall I → Prop
  | .append i pdata =>
    SIZE < (h.objs i).validLen + pdata.length ∨ pdata = [] ∨ (h.objs i).validLen = 0
  | _ => True

instance (h : History I SIZE) : DecidablePred h.NoWrap
  | .addBegin _ _ => inferInstanceAs (Decidable (_ < _))
  | .append _ _ | .data _ _ | .reset _ => isTrue trivial

instance (h : History I SIZE) : DecidablePred h.StoresBehindNothing
  | .append _ _ => inferInstanceAs (Decidable (_ ∨ _ ∨ _))
  | .addBegin _ _ | .data _ _ | .reset _ => isTrue trivial

def History.Ordered (h : History I SIZE) : Prop := ∀ i, (h.objs i).Ordered

theorem update_all {P : SPBuffer SIZE → Prop} {objs : I → SPBuffer SIZE} (h : ∀ i, P (objs i))
    (i : I) {b : SPBuffer SIZE} (hb : P b) : ∀ j, P (Function.update objs i b j) := by
  intro j
  by_cases hj : j = i
  · subst hj
    simpa using hb
  · simpa [hj] using h j

theorem callBuffer_ordered {objs : I → SPBuffer SIZE} (h : ∀ i, (objs i).Ordered)
    (c : BufferCall I) : ∀ i, ((callBuffer objs c).2 i).Ordered := by
  cases c with
  | append i pdata => exact update_all h i ((h i).append pdata)
  | addBegin i offset => exact update_all h i ((h i).addBegin offset)
  | data i ins =>
    by_cases he : i = ins
    · simpa [callBuffer, he] using h
    · simp only [callBuffer, if_neg he]
      exact update_all (update_all h ins (h i).data.2) i (h i).data.1
  | reset i => exact update_all h i (SPBuffer.ordered_reset _)

theorem readable_update (objs : I → SPBuffer SIZE) (i : I) (b : SPBuffer SIZE) :
    (fun j => (Function.update objs i b j).readable) =
      Function.update (fun j => (objs j).readable) i b.readable := by
  funext j
  by_cases hj : j = i
  · subst hj
    simp
  · simp [hj]

theorem update_readable_self (objs : I → SPBuffer SIZE) (i : I) :
    Function.update (fun j => (objs j).readable) i (objs i).readable =
      fun j => (objs j).readable :=
  Function.update_eq_self i fun j => (objs j).readable

theorem queueCall_readable {h : History I SIZE} (ho : h.Ordered) (c : BufferCall I)
    (hw : h.NoWrap c) (hc : h.StoresBehindNothing c) :
    queueCall (fun i => (h.objs i).readable) c (callBuffer h.objs c).1 =
      some fun i => ((callBuffer h.objs c).2 i).readable := by
  cases c with
  | append i pdata =>
    simp only [callBuffer, queueCall, readable_update]
    rcases Nat.lt_or_ge SIZE ((h.objs i).validLen + pdata.length) with hfit | hfit
    · rw [if_neg (mt (SPBuffer.append_code (ho i) pdata).mp (by omega)),
        SPBuffer.readable_append_refused (ho i) hfit, update_readable_self]
    · have hempty : pdata = [] ∨ (h.objs i).validLen = 0 := by
        simp only [History.StoresBehindNothing] at hc
        exact hc.resolve_left (by omega)
      rw [if_pos ((SPBuffer.append_code (ho i) pdata).mpr hfit),
        SPBuffer.readable_append (ho i) hfit hempty]
  | addBegin i offset =>
    simp only [callBuffer, queueCall, readable_update]
    obtain ⟨hr,hle,hd⟩ | ⟨hr,hd⟩ := SPBuffer.addBegin_spec (ho i) hw
    · rw [hr, hd]
      simp [hle]
    · rw [hr, hd]
      simp
  | data i ins =>
    by_cases he : i = ins
    · simp [callBuffer, queueCall, he]
    · obtain ⟨hi,hins⟩ := SPBuffer.readable_data (ho i) (h.objs ins)
      simp only [callBuffer, queueCall, if_neg he, readable_update, hi, hins]
  | reset i => simp [callBuffer, queueCall, readable_update]

theorem step_refines {h h' : History I SIZE} {c : BufferCall I} (hr : h.Ordered ∧ h.Refines)
    (hw : h.NoWrap c) (hc : h.StoresBehindNothing c) (hs : h.step c = some h') :
    h'.Ordered ∧ h'.Refines := by
  cases hs
  refine ⟨callBuffer_ordered hr.1 c,?_⟩
  change (h.queue.bind fun q => queueCall q c (callBuffer h.objs c).1) = _
  rw [hr.2, Option.bind_some]
  exact queueCall_readable hr.1 c hw hc

omit [DecidableEq I] in
theorem start_refines : (History.start : History I SIZE).Ordered ∧
    (History.start : History I SIZE).Refines :=
  ⟨fun _ => SPBuffer.ordered_reset _,rfl⟩

/-- Along a history that stores blocks behind unread bytes nowhere, every buffer is its queue. -/
theorem history_refines (calls : List (BufferCall I))
    (hw : EveryStep History.step History.NoWrap (History.start : History I SIZE) calls)
    (hc : EveryStep History.step History.StoresBehindNothing (History.start : History I SIZE) calls) :
    EveryState History.step History.Refines (History.start : History I SIZE) calls :=
  ((hw.and hc).preserves (fun _ _ _ hr h hs => step_refines hr h.1 h.2 hs) start_refines).mono
    fun _ hr => hr.2

/-- Two blocks, the first one read before the second arrives. -/
theorem history_refines_drained : EveryState History.step History.Refines
    (History.start : History Unit 4) [.append () [1,2,3],.addBegin () 3,.append () [4,5]] :=
  history_refines _ (by decide) (by decide)

/-- The second of two blocks lands on the first one. -/
theorem second_block_overwrites :
    EveryStep History.step History.NoWrap (History.start : History Unit 4)
      [.append () [1],.append () [2]] ∧
    ¬ EveryState History.step History.Refines (History.start : History Unit 4)
      [.append () [1],.append () [2]] := by
  refine ⟨by decide,?_⟩
  intro h
  have hl := h.last rfl
  have hq := congrFun (Option.some.inj hl) ()
  revert hq
  decide

/-- Behind an unread byte every length that fits has a block that is stored wrongly. -/
theorem append_out_of_order {b : SPBuffer SIZE} (hb : b.Ordered) (n : ℕ) (hn : 0 < n)
    (hfit : b.validLen + n ≤ SIZE) (hv : 0 < b.validLen) :
    ∃ pdata : List UInt8, pdata.length = n ∧ (b.append pdata).1 = 0 ∧
      (b.append pdata).2.readable ≠ b.readable ++ pdata := by
  obtain ⟨v,tail,hr⟩ := List.exists_cons_of_length_pos (l := b.readable) (by simpa using hv)
  obtain ⟨k,rfl⟩ := Nat.exists_eq_succ_of_ne_zero (Nat.pos_iff_ne_zero.mp hn)
  have hlen : (List.replicate (k + 1) (v + 1)).length = k + 1 := by simp
  refine ⟨List.replicate (k + 1) (v + 1),hlen,
    (SPBuffer.append_code hb _).mpr (by rw [hlen]; exact hfit),?_⟩
  obtain ⟨hn,_⟩ | ⟨_,_,b',hb',_,hs⟩ := SPBuffer.append_cases hb (List.replicate (k + 1) (v + 1))
  · rw [hlen] at hn
    omega
  intro he
  have hord : b'.Ordered := by
    rcases hb' with rfl | rfl
    · exact hb
    · exact hb.compact
  rw [hs, SPBuffer.readable_store hord, hr] at he
  simp only [List.replicate_succ, List.cons_append, List.cons.injEq] at he
  have hv := congrArg UInt8.toNat he.1
  simp only [UInt8.toNat_add, UInt8.toNat_ofNat] at hv
  omega

end OctCommu.SerialPort
