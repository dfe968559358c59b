import Mathlib
import Zircon.Lib.WavlTree

/-!
# The run queue of the scheduler library

`sched::RunQueue` (`lib/sched/run-queue.h`) orders the ready threads in a
WAVL tree keyed by start time, augmented with the least finish time of each
subtree, and picks the eligible thread of least finish time.  Threads that
block inside their period keep their firm utilization in a second tree until
that period ends.

The threads belong to the caller; the model keeps them in a table by address
beside the run queue's own fields.  Times and durations are nanoseconds.  The
`ffl::Fixed` quantities are modelled by their raw values: a utilization in
units of `2^-20`, a flexible weight in units of `2^-16`.  Narrowing a value to
a coarser format rounds to nearest (`fixedDiv`), which is exact whenever the
value is representable, as it is on every run used below.

Each tree node carries the key the tree sorted it by, the thread's start (or
finish) and address when it was inserted.  `fbl::WAVLTree` reads the key of a
node off the thread at each comparison; the two agree as long as no thread's
key changes while it is in a tree, which is one of the invariants of the run
queue.  The least finish time of a subtree, which the tree's observer caches
in each node, is computed from the tree.
-/

namespace Zircon.Sched

open Zircon.Lib

/-- `Time::Max()`. -/
def timeMax : ℤ := 2 ^ 63 - 1

/-- `Time::Min()`. -/
def timeMin : ℤ := -2 ^ 63

/-- The raw value of `Utilization{1}`: 20 fractional bits. -/
def utilizationOne : ℤ := 2 ^ 20

/-- The raw value of `FlexibleWeight{1}`: 16 fractional bits. -/
def flexibleWeightOne : ℤ := 2 ^ 16

/-- `a / b` narrowed to whole units, rounding to nearest. -/
def fixedDiv (a b : ℤ) : ℤ :=
  (2 * a + b) / (2 * b)

/-- `ThreadState`. -/
inductive ThreadState
  | initial
  | ready
  | running
  | blocked
  deriving DecidableEq, Repr

/-- `BandwidthParameters`, the flexible weight raw. -/
structure BandwidthParameters where
  period : ℤ
  firmCapacity : ℤ
  flexibleWeight : ℤ
  deriving DecidableEq, Repr

/-- `ThreadBase`: the state of a thread the run queue reads and writes. -/
structure Thread where
  period : ℤ
  firmCapacity : ℤ
  flexibleWeight : ℤ
  start : ℤ
  timeSliceUsed : ℤ
  state : ThreadState
  deriving DecidableEq, Repr

namespace Thread

/-- `ThreadBase::finish`. -/
def finish (t : Thread) : ℤ :=
  t.start + t.period

/-- `ThreadBase::firm_utilization`, raw. -/
def firmUtilization (t : Thread) : ℤ :=
  fixedDiv (t.firmCapacity * utilizationOne) t.period

/-- `ThreadBase::IsActive`. -/
def isActive (t : Thread) (now : ℤ) : Bool :=
  t.start ≤ now && now < t.finish

/-- `ThreadBase::Reactivate`. -/
def reactivate (t : Thread) (now : ℤ) : Thread :=
  { t with start := max now t.finish, timeSliceUsed := 0 }

/-- `ThreadBase::Tick`. -/
def tick (t : Thread) (elapsed : ℤ) : Thread :=
  { t with timeSliceUsed := t.timeSliceUsed + elapsed }

/-- `ThreadBase::set_state`. -/
def setState (t : Thread) (state : ThreadState) : Thread :=
  { t with state := state }

/-- The constructor of `ThreadBase`: a first activation at `start`. -/
def create (bandwidth : BandwidthParameters) (start : ℤ) : Thread :=
  reactivate ⟨bandwidth.period, bandwidth.firmCapacity, bandwidth.flexibleWeight, timeMin, 0,
    .initial⟩ start

end Thread

/-- A key of either tree: a time, then the thread's address. -/
abbrev Key := ℤ ×ₗ ℕ

/-- The thread a key belongs to. -/
def Key.addr (k : Key) : ℕ :=
  (ofLex k).2

/-- The time of a key. -/
def Key.time (k : Key) : ℤ :=
  (ofLex k).1

/-- `RunQueue`, with the table of threads it is given. -/
structure RunQueue where
  threads : ℕ → Thread
  current : Option ℕ
  ready : WavlTree Key
  activelyBlocked : WavlTree Key
  readyFlexibleDemand : ℤ
  readyAndActivelyBlockedFirmUtilization : ℤ

namespace RunQueue

variable (rq : RunQueue)

/-! ### Accessors -/

/-- `ReadyNodeTraits::GetKey`. -/
def readyKey (a : ℕ) : Key :=
  toLex ((rq.threads a).start, a)

/-- `ActivelyBlockedNodeTraits::GetKey`. -/
def blockedKey (a : ℕ) : Key :=
  toLex ((rq.threads a).finish, a)

/-- The threads of the ready tree. -/
def readyThreads : List ℕ :=
  rq.ready.toList.map Key.addr

/-- The threads of the actively blocked tree. -/
def blockedThreads : List ℕ :=
  rq.activelyBlocked.toList.map Key.addr

/-- `ThreadBase::IsQueued`. -/
def isQueued (a : ℕ) : Bool :=
  a ∈ rq.readyThreads

/-- `InActivelyBlockedTree`. -/
def inActivelyBlockedTree (a : ℕ) : Bool :=
  a ∈ rq.blockedThreads

/-- An update of one thread. -/
def setThread (a : ℕ) (f : Thread → Thread) : RunQueue :=
  { rq with threads := Function.update rq.threads a (f (rq.threads a)) }

/-! ### Bandwidth -/

/-- `total_flexible_demand`. -/
def totalFlexibleDemand : ℤ :=
  (rq.current.map fun c ↦ (rq.threads c).flexibleWeight).getD 0 + rq.readyFlexibleDemand

/-- `total_firm_utilization`, clamped at one for oversubscription. -/
def totalFirmUtilization : ℤ :=
  min utilizationOne
    ((rq.current.map fun c ↦ (rq.threads c).firmUtilization).getD 0 +
      rq.readyAndActivelyBlockedFirmUtilization)

/-- `FlexibleUtilizationOf`. -/
def flexibleUtilizationOf (t : Thread) : ℤ :=
  if rq.totalFlexibleDemand = 0 then 0
  else fixedDiv (t.flexibleWeight * utilizationOne) rq.totalFlexibleDemand

/-- `FlexibleCapacityOf`. -/
def flexibleCapacityOf (t : Thread) : ℤ :=
  fixedDiv ((utilizationOne - rq.totalFirmUtilization) * rq.flexibleUtilizationOf t * t.period)
    (utilizationOne * utilizationOne)

/-- `CapacityOf`. -/
def capacityOf (t : Thread) : ℤ :=
  t.firmCapacity + rq.flexibleCapacityOf t

/-- `TimesliceRemainingOn`. -/
def timesliceRemainingOn (t : Thread) : ℤ :=
  rq.capacityOf t - t.timeSliceUsed

/-- `IsExpired`. -/
def isExpired (t : Thread) (now : ℤ) : Bool :=
  rq.timesliceRemainingOn t ≤ 0 || now ≥ t.finish

/-! ### Queueing -/

/-- `DequeueActivelyBlocked`. -/
def dequeueActivelyBlocked (a : ℕ) : RunQueue :=
  { rq with
    activelyBlocked := rq.activelyBlocked.erase (rq.blockedKey a)
    readyAndActivelyBlockedFirmUtilization :=
      rq.readyAndActivelyBlockedFirmUtilization - (rq.threads a).firmUtilization }

/-- `QueueActivelyBlocked`: only a thread with firm demand is tracked. -/
def queueActivelyBlocked (a : ℕ) : RunQueue :=
  if 0 < (rq.threads a).firmCapacity then
    { rq with
      activelyBlocked := rq.activelyBlocked.insert (rq.blockedKey a)
      readyAndActivelyBlockedFirmUtilization :=
        rq.readyAndActivelyBlockedFirmUtilization + (rq.threads a).firmUtilization }
  else rq

/-- The accounting at the start of `Queue`: demand is counted before the
expiry check, which depends on it. -/
def accountQueued (a : ℕ) : RunQueue :=
  let rq := if rq.inActivelyBlockedTree a then rq.dequeueActivelyBlocked a else rq
  { rq with
    readyAndActivelyBlockedFirmUtilization :=
      rq.readyAndActivelyBlockedFirmUtilization + (rq.threads a).firmUtilization
    readyFlexibleDemand := rq.readyFlexibleDemand + (rq.threads a).flexibleWeight }

/-- `Queue`. -/
def queue (a : ℕ) (now : ℤ) : RunQueue :=
  let rq := rq.accountQueued a
  let rq := if rq.isExpired (rq.threads a) now then rq.setThread a (·.reactivate now) else rq
  let rq := { rq with ready := rq.ready.insert (rq.readyKey a) }
  rq.setThread a (·.setState .ready)

/-- `Dequeue`. -/
def dequeue (a : ℕ) : RunQueue :=
  { rq with
    ready := rq.ready.erase (rq.readyKey a)
    readyAndActivelyBlockedFirmUtilization :=
      rq.readyAndActivelyBlockedFirmUtilization - (rq.threads a).firmUtilization
    readyFlexibleDemand := rq.readyFlexibleDemand - (rq.threads a).flexibleWeight }

/-! ### `FindNextEligibleThread` -/

/-- `SubtreeMinFinish`: the least finish time in a subtree, which the
observer keeps in the subtree's root. -/
def subtreeMinFinish : WavlTree Key → ℤ
  | .leaf => timeMax
  | .node l k _ r => min (rq.threads k.addr).finish (min (subtreeMinFinish l) (subtreeMinFinish r))

/-- The update of `path` at an eligible node: an earlier finish found on the
search path. -/
def updatePath (path : Option ℕ) (a : ℕ) : Option ℕ :=
  match path with
  | none => some a
  | some p => if (rq.threads p).finish > (rq.threads a).finish then some a else some p

/-- The update of `subtree` with the left subtree of an eligible node: an
earlier finish found off the search path. -/
def updateSubtree (subtree left : WavlTree Key) : WavlTree Key :=
  if subtree = .leaf || (left != .leaf && rq.subtreeMinFinish subtree > rq.subtreeMinFinish left)
  then left else subtree

/-- The search loop of `FindNextEligibleThread`: follow the path that
separates start times up to `time` from later ones, keeping the least finish
on the path (`path`) and the left subtree off it of least finish (`subtree`). -/
def searchPath (time : ℤ) : WavlTree Key → Option ℕ → WavlTree Key → Option ℕ × WavlTree Key
  | .leaf, path, subtree => (path, subtree)
  | .node l k _ r, path, subtree =>
    if (rq.threads k.addr).start > time then searchPath time l path subtree
    else searchPath time r (rq.updatePath path k.addr) (rq.updateSubtree subtree l)

/-- The descent of `FindNextEligibleThread` into the subtree holding the least
finish `target`, preferring the left. -/
def descendToFinish (target : ℤ) : WavlTree Key → Option ℕ
  | .leaf => none
  | .node l k j r =>
    if (rq.threads k.addr).finish = target then some k.addr
    else if l != .leaf && rq.subtreeMinFinish (.node l k j r) = rq.subtreeMinFinish l then
      descendToFinish target l
    else descendToFinish target r

/-- `FindNextEligibleThread`: the ready thread with start at most `time`
that the search selects. -/
def findNextEligibleThread (time : ℤ) : Option ℕ :=
  match rq.ready.front? with
  | none => none
  | some first =>
    if (rq.threads first.addr).start > time then none
    else
      match rq.searchPath time rq.ready none .leaf with
      | (none, _) => none
      | (some path, subtree) =>
        -- On a tie between the path and the subtree, the subtree is taken.
        if subtree = .leaf || rq.subtreeMinFinish subtree > (rq.threads path).finish then some path
        else rq.descendToFinish (rq.subtreeMinFinish subtree) subtree

/-! ### `SelectNextThread` -/

/-- `SchedulesBeforeIfActive`: the order on `(finish, start, address)`. -/
def schedulesBeforeIfActive (a b : ℕ) : Bool :=
  let ta := rq.threads a
  let tb := rq.threads b
  decide (toLex (ta.finish, toLex (ta.start, a)) < toLex (tb.finish, toLex (tb.start, b)))

/-- The first loop of `SelectNextThread`: drop the blocked threads whose
period has ended, for at most `fuel` of them. -/
def dropExpiredBlocked (now : ℤ) : ℕ → RunQueue → RunQueue
  | 0, rq => rq
  | fuel + 1, rq =>
    match rq.activelyBlocked.front? with
    | some k =>
      if (rq.threads k.addr).finish ≤ now then
        dropExpiredBlocked now fuel (rq.dequeueActivelyBlocked k.addr)
      else rq
    | none => rq

/-- Bring `current_` up to date: track it as blocked if it blocked within its
period, or reactivate it if it expired. -/
def refreshCurrent (now : ℤ) : RunQueue :=
  match rq.current with
  | none => rq
  | some c =>
    if (rq.threads c).state = .blocked then
      let rq := if (rq.threads c).isActive now then rq.queueActivelyBlocked c else rq
      { rq with current := none }
    else if rq.isExpired (rq.threads c) now then rq.setThread c (·.reactivate now)
    else rq

/-- The second loop of `SelectNextThread`: requeue (so reactivate) the
eligible thread found while its period is over, for at most `fuel` rounds. -/
def requeueEnded (now : ℤ) : ℕ → Option ℕ → RunQueue → Option ℕ × RunQueue
  | 0, next, rq => (next, rq)
  | fuel + 1, next, rq =>
    match next with
    | some n =>
      if now ≥ (rq.threads n).finish then
        let rq := (rq.dequeue n).queue n now
        requeueEnded now fuel (rq.findNextEligibleThread now) rq
      else (next, rq)
    | none => (none, rq)

/-- The choice of `SelectNextThread` between `current_` and `next`. -/
def switchTo (now : ℤ) (next : Option ℕ) : Option ℕ × RunQueue :=
  let keep :=
    match rq.current with
    | some c =>
      (rq.threads c).isActive now &&
        match next with
        | none => true
        | some n => rq.schedulesBeforeIfActive c n
    | none => false
  if keep then (rq.current, rq)
  else
    let rq :=
      match next with
      | some n => (rq.dequeue n).setThread n (·.setState .running)
      | none => rq
    let rq :=
      match rq.current with
      | some c => rq.queue c now
      | none => rq
    (next, { rq with current := next })

/-- The preemption time `SelectNextThread` computes for the thread chosen. -/
def preemptionTime (now : ℤ) (next : Option ℕ) : ℤ :=
  let preemption :=
    match next with
    | some n =>
      let t := rq.threads n
      let nextCompletion := min (now + rq.timesliceRemainingOn t) t.finish
      match rq.findNextEligibleThread nextCompletion with
      | some it =>
        if (rq.threads it).finish < t.finish then min nextCompletion (rq.threads it).start
        else nextCompletion
      | none => nextCompletion
    | none =>
      match rq.ready.front? with
      | none => timeMax
      | some first => (rq.threads first.addr).start
  match rq.activelyBlocked.front? with
  | some k => min preemption (rq.threads k.addr).finish
  | none => preemption

/-- `SelectNextThread`: the thread to run and the preemption time.  Each loop
ends within as many rounds as its tree has threads. -/
def selectNextThread (now : ℤ) : (Option ℕ × ℤ) × RunQueue :=
  let rq := rq.dropExpiredBlocked now rq.activelyBlocked.toList.length
  let rq := rq.refreshCurrent now
  let (next, rq) :=
    rq.requeueEnded now (rq.ready.toList.length + 1) (rq.findNextEligibleThread now)
  let (next, rq) := rq.switchTo now next
  ((next, rq.preemptionTime now next), rq)

end RunQueue

end Zircon.Sched
