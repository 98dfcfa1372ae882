import OctCommu.Communcation.UDPInitSound
import OctCommu.Communcation.UDPSteps

/-! # A callback that replies while the link shuts down

`shutdown` waits for the worker with `m_send_mutex` in its hands, and `send`
takes that mutex. A callback that sends at the wrong moment stops both for good.
-/
namespace OctCommu.Communcation
open Memory Util Network.SockUtil Thread Runs
variable {I : Type*} [DecidableEq I] {inet_pton6 : Text → Option (Vector UInt8 16)}
  {inet_ntop6 : List UInt8 → Text}

/-- What the threads of a link do once they are under way, without a new call or datagram. -/
def UDPAct.isOwn : UDPAct I → Bool
  | .call .. | .send _ | .setOnRead _ | .onRead .. | .callbackSend => false
  | _ => true

/-- `init` and `shutdown` still wait for `m_send_mutex`. -/
def AppPc.locks : AppPc → Bool
  | .locking _ => true
  | _ => false

namespace UDPLink

/-- No thread is in `shutdown` ahead of the worker's end while the worker waits for the mutex that
thread holds, and someone moves as long as any call lasts. -/
structure DeadlockFree (inet_pton6 : Text → Option (Vector UInt8 16))
    (inet_ntop6 : List UInt8 → Text) (s : UDPLink I) : Prop where
  no_cycle : ∀ i, (s.app i).stops = true → s.worker ≠ some .sending
  progress : ∀ i, s.app i ≠ .idle →
    ∃ l : UDPAct I, l.isOwn = true ∧ (step inet_pton6 inet_ntop6 s l).isSome = true

/-- A callback calls `send` only when no thread holds the mutex for a stop, and none takes it for
a stop while a callback waits for it. -/
def RepliesApart (s : UDPLink I) : UDPAct I → Prop
  | .callbackSend => s.m_send_mutex = none
  | .lock i => (s.app i).locks = true → s.worker ≠ some .sending
  | _ => True

structure Apart (s : UDPLink I) : Prop where
  held : s.Held
  no_cycle : s.m_send_mutex ≠ none → s.worker ≠ some .sending

omit [DecidableEq I] in
theorem apart_fresh : (fresh : UDPLink I).Apart := ⟨held_fresh,fun h => absurd rfl h⟩

theorem step_apart {s t : UDPLink I} {l : UDPAct I} (h : s.Apart) (hc : s.RepliesApart l)
    (ht : step inet_pton6 inet_ntop6 s l = some t) : t.Apart := by
  refine ⟨step_held h.held ht,?_⟩
  have hcycle := h.no_cycle
  cases steps_of_step ht with
  | call | send | lockSend | push_exit | setOnRead | emplace_back | post => exact hcycle
  | lock i c happ _ =>
    intro _
    apply hc
    rw [happ]
    rfl
  | join_all i c happ hj =>
    obtain ⟨_,_,hm,_,_⟩ := @finish_frame _ _ inet_pton6 s i c
    exact fun hne => absurd hm hne
  | onRead pdata addr hr =>
    obtain ⟨imp,reader,arrived,calls,_,he⟩ := @read_frame _ inet_ntop6 s pdata addr hr
    rw [he]
    exact hcycle
  | recvWorkerThread _ =>
    intro _
    dsimp only
    split <;> nofun
  | callbackSend _ => exact fun hne => absurd hc hne
  | wait | exit | take | sent | callbackReturn => exact fun _ => nofun

/-- The thread in `shutdown`, or else the worker, can move. -/
theorem Apart.stop_moves {s : UDPLink I} (h : s.Apart) {j : I} (hm : s.m_send_mutex = some j) :
    ∃ l : UDPAct I, l.isOwn = true ∧ (step inet_pton6 inet_ntop6 s l).isSome = true := by
  have hstops := (h.held.holder j).mpr hm
  cases happ : s.app j with
  | idle | sending | locking =>
    rw [happ] at hstops
    cases hstops
  | stopping c => exact ⟨.push_exit j,rfl,by simp [step, happ]⟩
  | joining c =>
    cases hw : s.worker with
    | none => exact ⟨.join_all j,rfl,by simp [step, happ, joined, hw]⟩
    | some pc =>
      cases pc with
      | waiting =>
        -- the post of this stop is still there
        have hposted : s.posted = 1 := by simp [posted, hm, happ, AppPc.posted]
        have hcounts : s.alive = 1 ∧ s.taking = 0 := by simp [alive, joined, taking, hw]
        have hposting : s.posting ≤ 1 := by
          unfold posting
          split <;> omega
        have hspare := h.held.spare
        rw [hposted, hcounts.1, hcounts.2] at hspare
        have hsem : s.tasks._sem ≠ 0 := by omega
        exact ⟨.wait,rfl,by simp [step, hw, TaskQueue.wait, hsem]⟩
      | taking =>
        refine ⟨.get_task,rfl,?_⟩
        cases hq : s.tasks._queue <;> simp [step, hw, TaskQueue.pop_front, hq]
      | running => exact ⟨.recvWorkerThread,rfl,by simp [step, hw]⟩
      | calling => exact ⟨.callbackReturn,rfl,by simp [step, hw]⟩
      | sending => exact absurd hw (h.no_cycle (by rw [hm]; exact Option.some_ne_none j))
      | exited => exact ⟨.join_all j,rfl,by simp [step, happ, joined, hw]⟩

theorem Apart.deadlockFree {s : UDPLink I} (h : s.Apart) :
    s.DeadlockFree inet_pton6 inet_ntop6 := by
  constructor
  · intro i hi
    apply h.no_cycle
    rw [(h.held.holder i).mp hi]
    exact Option.some_ne_none i
  · intro i hi
    cases hm : s.m_send_mutex with
    | some j => exact h.stop_moves hm
    | none =>
      refine ⟨.lock i,rfl,?_⟩
      have hnot : (s.app i).stops ≠ true := fun he => by
        rw [(h.held.holder i).mp he] at hm
        cases hm
      cases happ : s.app i with
      | idle => exact absurd happ hi
      | sending | locking => simp [step, happ, hm]
      | stopping | joining => exact absurd (by rw [happ]; rfl) hnot

/-- A reply at any other moment, or a stop in front of one, closes the circle. -/
theorem repliesApart_of_deadlockFree {s t : UDPLink I} {l : UDPAct I} (h : s.Apart)
    (ht : step inet_pton6 inet_ntop6 s l = some t) (hp : t.DeadlockFree inet_pton6 inet_ntop6) :
    s.RepliesApart l := by
  cases steps_of_step ht with
  | callbackSend _ =>
    by_contra hne
    obtain ⟨j,hj⟩ := Option.ne_none_iff_exists'.mp hne
    exact hp.no_cycle j ((h.held.holder j).mpr hj) rfl
  | lock i c happ _ =>
    intro _
    apply hp.no_cycle i
    simp [setApp, AppPc.stops]
  | lockSend i happ _ =>
    intro hl
    rw [happ] at hl
    cases hl
  | call | send | push_exit | join_all | setOnRead | onRead | emplace_back | post | wait | exit |
    take | recvWorkerThread | sent | callbackReturn => trivial

/-- A link is free of deadlock just as long as its callbacks reply outside of `init` and
`shutdown`. -/
theorem repliesApart_iff_deadlockFree (labels : List (UDPAct I)) :
    EveryStep (step inet_pton6 inet_ntop6) RepliesApart fresh labels ↔
      EveryState (step inet_pton6 inet_ntop6) (DeadlockFree inet_pton6 inet_ntop6) fresh labels :=
  everyStep_iff_everyState apart_fresh (fun _ h => h.deadlockFree)
    (fun _ _ _ h hc ht => step_apart h hc ht) (fun _ _ _ h ht hp => repliesApart_of_deadlockFree h ht hp)

/-- A detached link to 127.0.0.1. -/
def detachedInit : UDPInit := ⟨.CT_UNI,[],[49,50,55,46,48,46,48,46,49],5000,true,true⟩

/-- A datagram reaches the callback before the worker finds nothing to do and leaves; the callback
replies while the application shuts down. -/
theorem not_deadlockFree_reply : ¬ EveryState (step (fun _ => none) fun _ => [58,58])
    (DeadlockFree (fun _ => none) fun _ => [58,58]) (fresh : UDPLink Unit)
    [.call () (.init detachedInit UDPImp.allAnswered),.lock (),.push_exit (),.join_all (),
      .setOnRead true,.onRead [7] (fun _ => 0),.emplace_back,.wait,.get_task,.recvWorkerThread,.post,
      .call () .shutdown,.lock (),.push_exit (),.callbackSend] := by
  intro h
  have hl := h.last rfl
  exact hl.no_cycle () rfl rfl

end UDPLink
end OctCommu.Communcation
