import Mathlib
import Zircon.Lib.WavlTree
import Zircon.Sched.RunQueue

/-!
# Runs of the run queue

The run queue is driven by its caller: threads are created and queued,
the running thread blocks and is later queued again, and `SelectNextThread`
is called at times that never decrease.  `SchedReachable` collects the run
queues such calls reach from an empty one.  The fuzzer of the library drives
one particular pattern, each round an action, then `SelectNextThread(now)`,
a tick of the selected thread up to the preemption time, and that time as the
next `now`; `FuzzerState.round` is one such round.

Two properties of `SelectNextThread` fail on such runs.

* The search for the eligible thread of least finish resolves a tie in finish
  time between the best thread on its search path and the best left subtree
  off the path in favour of the subtree.  A left subtree hanging below the
  best path node holds later start times, so the thread returned can start
  later than another eligible thread with the same finish.
* A ready thread keeps its used time slice while its capacity shrinks with
  new demand.  `SelectNextThread` requeues an eligible thread only when its
  period is over, so it can select one whose time slice is already used up,
  and return a preemption time before `now`.
-/

namespace Zircon.Sched

open Zircon.Lib

/-- A run queue with no threads queued, over a table of threads. -/
def RunQueue.empty (threads : ℕ → Thread) : RunQueue :=
  ⟨threads, none, .leaf, .leaf, 0, 0⟩

/-- Valid `BandwidthParameters`, as `ThreadBase` asserts them. -/
def BandwidthParameters.valid (bw : BandwidthParameters) : Bool :=
  1 ≤ bw.period && 0 ≤ bw.firmCapacity && bw.firmCapacity ≤ bw.period && 0 ≤ bw.flexibleWeight &&
    (bw.firmCapacity != 0 || bw.flexibleWeight != 0)

/-- A thread the run queue does not refer to. -/
def RunQueue.isFresh (rq : RunQueue) (a : ℕ) : Bool :=
  rq.current != some a && !rq.isQueued a && !rq.inActivelyBlockedTree a

/-- A run queue and the last time given to it. -/
structure SchedState where
  rq : RunQueue
  clock : ℤ

/-- The calls made on a run queue and on its threads. -/
inductive SchedOp
  | queueNew (a : ℕ) (bandwidth : BandwidthParameters) (start now : ℤ)
  | blockCurrent
  | queue (a : ℕ) (now : ℤ)
  | dequeue (a : ℕ)
  | tick (elapsed : ℤ)
  | select (now : ℤ)
  deriving DecidableEq, Repr

namespace SchedOp

/-- When a call may be made: the assertions of the run queue and of
`ThreadBase`, and times that do not go back.  `Queue` is never called on
`current_`, which the fuzzer asserts is never queued. -/
def admissible (s : SchedState) : SchedOp → Bool
  | queueNew a bandwidth _ now => bandwidth.valid && s.rq.isFresh a && s.clock ≤ now
  | blockCurrent => s.rq.current.isSome
  | queue a now => !s.rq.isQueued a && s.rq.current != some a && s.clock ≤ now
  | dequeue a => s.rq.isQueued a && (s.rq.threads a).state == .ready
  | tick _ => s.rq.current.isSome
  | select now => s.clock ≤ now

/-- The state a call leaves. -/
def apply (s : SchedState) : SchedOp → SchedState
  | queueNew a bandwidth start now =>
    ⟨(s.rq.setThread a fun _ ↦ Thread.create bandwidth start).queue a now, now⟩
  | blockCurrent =>
    match s.rq.current with
    | some c => ⟨s.rq.setThread c (·.setState .blocked), s.clock⟩
    | none => s
  | queue a now => ⟨s.rq.queue a now, now⟩
  | dequeue a => ⟨s.rq.dequeue a, s.clock⟩
  | tick elapsed =>
    match s.rq.current with
    | some c => ⟨s.rq.setThread c (·.tick elapsed), s.clock⟩
    | none => s
  | select now => ⟨(s.rq.selectNextThread now).2, now⟩

end SchedOp

/-- One admissible call. -/
inductive SchedStep (s : SchedState) : SchedState → Prop
  | run (op : SchedOp) (h : op.admissible s = true) : SchedStep s (op.apply s)

/-- The states reached from an empty run queue. -/
def SchedReachable (s : SchedState) : Prop :=
  ∃ threads clock, Relation.ReflTransGen SchedStep ⟨RunQueue.empty threads, clock⟩ s

/-- Replay calls, failing at one that may not be made. -/
def SchedState.run (s : SchedState) : List SchedOp → Option SchedState
  | [] => some s
  | op :: ops => if op.admissible s then (op.apply s).run ops else none

theorem SchedState.reachable_of_run {s s' : SchedState} (hs : SchedReachable s) :
    ∀ {ops : List SchedOp}, s.run ops = some s' → SchedReachable s'
  | [], h => by
    simp only [run, Option.some.injEq] at h
    exact h ▸ hs
  | op :: ops, h => by
    simp only [run] at h
    split_ifs at h with hop
    obtain ⟨threads, clock, hrun⟩ := hs
    exact reachable_of_run ⟨threads, clock, hrun.tail (.run op hop)⟩ h

/-! ### The fuzzer -/

/-- The postcondition `SelectNextThread` asserts, and the fuzzer checks, of
its result `(next, preemption)` at `now`, on the run queue it leaves. -/
def SelectPost (rq : RunQueue) (now : ℤ) : Option ℕ → ℤ → Prop
  | none, preemption => now < preemption
  | some n, preemption =>
    (rq.threads n).start ≤ now ∧ now < (rq.threads n).finish ∧
      0 < rq.timesliceRemainingOn (rq.threads n) ∧ now < preemption ∧
      preemption ≤ (rq.threads n).finish

instance (rq : RunQueue) (now : ℤ) (next : Option ℕ) (preemption : ℤ) :
    Decidable (SelectPost rq now next preemption) := by
  cases next <;> unfold SelectPost <;> infer_instance

/-- The actions of the fuzzer. -/
inductive FuzzerAction
  | queueNewThread (a : ℕ) (bandwidth : BandwidthParameters) (start : ℤ)
  | blockCurrentThread
  | unblockThread
  | nothing
  deriving DecidableEq, Repr

/-- The locals of the fuzzer's loop. -/
structure FuzzerState where
  rq : RunQueue
  now : ℤ
  current : Option ℕ
  blocked : List ℕ

/-- The thread parameters the fuzzer can draw for a thread starting at
`start`: raw flexible weights of at least one unit when there is no firm
capacity, and no overflow of the finish time. -/
def BandwidthParameters.fuzzable (bw : BandwidthParameters) (start : ℤ) : Bool :=
  1 ≤ bw.period && bw.period ≤ timeMax - start + 1 && 0 ≤ bw.firmCapacity &&
    bw.firmCapacity ≤ bw.period &&
    (if bw.firmCapacity = 0 then flexibleWeightOne else 0) ≤ bw.flexibleWeight

/-- The action of one round of the fuzzer. -/
def FuzzerState.act (fs : FuzzerState) : FuzzerAction → RunQueue × List ℕ
  | .queueNewThread a bandwidth start =>
    ((fs.rq.setThread a fun _ ↦ Thread.create bandwidth start).queue a fs.now, fs.blocked)
  | .blockCurrentThread =>
    match fs.current with
    | some c => (fs.rq.setThread c (·.setState .blocked), fs.blocked ++ [c])
    | none => (fs.rq, fs.blocked)
  | .unblockThread =>
    match fs.blocked.getLast? with
    | some b => (fs.rq.queue b fs.now, fs.blocked.dropLast)
    | none => (fs.rq, fs.blocked)
  | .nothing => (fs.rq, fs.blocked)

/-- Whether the fuzzer can take an action: new threads are new objects with
parameters it can draw. -/
def FuzzerState.canAct (fs : FuzzerState) : FuzzerAction → Bool
  | .queueNewThread a bandwidth start => bandwidth.fuzzable start && fs.rq.isFresh a
  | _ => true

/-- The run queue right after `SelectNextThread` in a round, with its result. -/
def FuzzerState.selected (fs : FuzzerState) (action : FuzzerAction) :
    (Option ℕ × ℤ) × RunQueue :=
  (fs.act action).1.selectNextThread fs.now

/-- One round of the fuzzer's loop. -/
def FuzzerState.round (fs : FuzzerState) (action : FuzzerAction) : FuzzerState :=
  let ((next, preemption), rq) := fs.selected action
  let rq :=
    match next with
    | some n => rq.setThread n (·.tick (preemption - fs.now))
    | none => rq
  ⟨rq, preemption, next, (fs.act action).2⟩

/-- Rounds of the fuzzer, while `now` is below `Time::Max()`. -/
def FuzzerState.rounds (fs : FuzzerState) : List FuzzerAction → Option FuzzerState
  | [] => some fs
  | action :: actions =>
    if fs.now < timeMax && fs.canAct action then (fs.round action).rounds actions else none

/-! ### Ties in finish time -/

/-- The table of threads before any is created. -/
def noThreads : ℕ → Thread :=
  fun _ ↦ ⟨1, 0, 0, timeMin, 0, .initial⟩

/-- Five threads with firm capacity, queued at time 0 in the order of the
addresses 2, 1, 4, 3, 5 and starting at 4, 2, 6, 5, 7.  Threads 2 and 3 both
finish at 10. -/
def tiedFinishCalls : List SchedOp :=
  [.queueNew 2 ⟨6, 1, 0⟩ 4 0, .queueNew 1 ⟨18, 1, 0⟩ 2 0, .queueNew 4 ⟨24, 1, 0⟩ 6 0,
    .queueNew 3 ⟨5, 1, 0⟩ 5 0, .queueNew 5 ⟨33, 1, 0⟩ 7 0]

/-- The run queue after `tiedFinishCalls`. -/
def tiedFinishState : SchedState :=
  (SchedState.run ⟨RunQueue.empty noThreads, 0⟩ tiedFinishCalls).get (by decide +kernel)

theorem selectNextThread_tiedFinish_later_start :
    SchedState.run ⟨RunQueue.empty noThreads, 0⟩ tiedFinishCalls = some tiedFinishState ∧
      SchedReachable tiedFinishState ∧ tiedFinishState.rq.ready.rankRule = true ∧
      tiedFinishState.rq.findNextEligibleThread 6 = some 3 ∧
      (tiedFinishState.rq.selectNextThread 6).1.1 = some 3 ∧
      2 ∈ (tiedFinishState.rq.selectNextThread 6).2.readyThreads ∧
      ((tiedFinishState.rq.selectNextThread 6).2.threads 2).isActive 6 = true ∧
      ((tiedFinishState.rq.selectNextThread 6).2.threads 2).state = .ready ∧
      (tiedFinishState.rq.selectNextThread 6).2.schedulesBeforeIfActive 2 3 = true := by
  have hrun : SchedState.run ⟨RunQueue.empty noThreads, 0⟩ tiedFinishCalls =
      some tiedFinishState := (Option.some_get _).symm
  refine ⟨hrun, SchedState.reachable_of_run ⟨noThreads, 0, .refl⟩ hrun, ?_⟩
  decide +kernel

/-! ### Shrinking capacity -/

/-- The fuzzer's rounds: thread 2 (period 16, weight 1) is queued at 0 to
start at 5, thread 1 (period 128, weight 1) at 5 to start at 0, two rounds
switch between them, and thread 3 (weight 126) is queued to start far later. -/
def shrinkingCapacityActions : List FuzzerAction :=
  [.queueNewThread 2 ⟨16, 0, flexibleWeightOne⟩ 5, .queueNewThread 1 ⟨128, 0, flexibleWeightOne⟩ 0,
    .nothing, .nothing]

/-- The fuzzer's state after `shrinkingCapacityActions`. -/
def shrinkingCapacityState : FuzzerState :=
  (FuzzerState.rounds ⟨RunQueue.empty noThreads, 0, none, []⟩ shrinkingCapacityActions).get
    (by decide +kernel)

/-- The last round's action. -/
def queueHeavyThread : FuzzerAction :=
  .queueNewThread 3 ⟨16, 0, 126 * flexibleWeightOne⟩ 10000

theorem selectNextThread_exhausted_timeslice :
    FuzzerState.rounds ⟨RunQueue.empty noThreads, 0, none, []⟩ shrinkingCapacityActions =
        some shrinkingCapacityState ∧
      shrinkingCapacityState.now = 29 ∧ shrinkingCapacityState.canAct queueHeavyThread = true ∧
      (shrinkingCapacityState.selected queueHeavyThread).1 = (some 1, 22) ∧
      (shrinkingCapacityState.selected queueHeavyThread).2.timesliceRemainingOn
        ((shrinkingCapacityState.selected queueHeavyThread).2.threads 1) = -7 ∧
      ¬SelectPost (shrinkingCapacityState.selected queueHeavyThread).2 29 (some 1) 22 := by
  have hrun : FuzzerState.rounds ⟨RunQueue.empty noThreads, 0, none, []⟩ shrinkingCapacityActions =
      some shrinkingCapacityState := (Option.some_get _).symm
  refine ⟨hrun, ?_⟩
  decide +kernel

end Zircon.Sched
