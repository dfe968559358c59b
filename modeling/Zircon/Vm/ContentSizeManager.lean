import Mathlib

/-!
# Content size, and the writers that race on it

`ContentSizeManager` (`vm/content_size_manager.cc`) orders the stream
operations that read or change a VMO's content size.  Every operation joins
`write_q_`, `read_q_` or both under the manager's lock; one that may change
the content size blocks until it is at the head of its queues.  The content
size itself is an atomic that is stored without the lock by the progress
callbacks of an expanding write (`UpdateContentSizeFromProgress`).

The threads are those of `StreamDispatcher::WriteVectorAt` and
`StreamDispatcher::AppendVector`, each a small state machine whose steps are
the critical sections of the source; a step of the system is a step of one
thread, so a run is an interleaving.  `WriteUserVector` is a sequence of
chunks, each followed by its progress callback, that may stop early.  The
VMO's contents are not modelled, only its size as `ExpandIfNecessary` leaves
it; `ZeroRange` is taken to succeed.

A `Write` commit stores `max(size, GetContentSize())`: a load and a store of
the atomic, under the lock but not atomically with respect to the lock-free
progress stores of an `Append` at the head.  The two halves of that commit are
two steps here, with the lock held between them.
-/

namespace Zircon.Vm

/-- `ContentSizeManager::OperationType`. -/
inductive OperationType where
  | write
  | read
  | append
  | setSize
  deriving DecidableEq, Repr

/-- An `Operation`, named by the thread that owns it. -/
structure Operation where
  owner : ℕ
  type : OperationType
  size : ℕ
  deriving DecidableEq, Repr

/-- `ContentSizeManager`: the content size and the two queues, front first. -/
structure ContentSizeManager where
  contentSize : ℕ
  writeQ : List Operation
  readQ : List Operation
  deriving DecidableEq, Repr

namespace ContentSizeManager

variable (m : ContentSizeManager)

/-- Whether an operation ahead in `write_q_` makes an `Append` block. -/
def blocksAppend (cur : ℕ) (op : Operation) : Bool :=
  op.type = .setSize || op.type = .append || (op.type = .write && op.size > cur)

/-- `BeginAppendLocked` up to `BlockUntilHeadLocked`: the operation joins
`write_q_` with size 0, and whether it must block. -/
def beginAppendLocked (owner : ℕ) : Bool × ContentSizeManager :=
  (m.writeQ.any (blocksAppend m.contentSize),
    { m with writeQ := m.writeQ ++ [⟨owner, .append, 0⟩] })

/-- `BeginWriteLocked` up to `BlockUntilHeadLocked`: whether the write must block. -/
def beginWriteLocked (owner targetSize : ℕ) : Bool × ContentSizeManager :=
  let blockDueToSet := m.writeQ.any fun op ↦ op.type = .setSize && op.size < targetSize
  (blockDueToSet || targetSize > m.contentSize,
    { m with writeQ := m.writeQ ++ [⟨owner, .write, targetSize⟩] })

/-- Whether the thread's operation is at the head of every queue it is in, as
`BlockUntilHeadLocked` waits for. -/
def isHead (owner : ℕ) : Bool :=
  (m.writeQ.all (·.owner ≠ owner) || (m.writeQ.head?.map (·.owner)) = some owner) &&
    (m.readQ.all (·.owner ≠ owner) || (m.readQ.head?.map (·.owner)) = some owner)

/-- The thread's operation. -/
def op? (owner : ℕ) : Option Operation :=
  (m.writeQ ++ m.readQ).find? (·.owner = owner)

/-- `ShrinkSizeLocked`, and the size the `Append` begin sets. -/
def setSize (owner size : ℕ) : ContentSizeManager :=
  let f (op : Operation) := if op.owner = owner then { op with size } else op
  { m with writeQ := m.writeQ.map f, readQ := m.readQ.map f }

/-- `DequeueOperationLocked`. -/
def dequeueOperationLocked (owner : ℕ) : ContentSizeManager :=
  { m with writeQ := m.writeQ.filter (·.owner ≠ owner), readQ := m.readQ.filter (·.owner ≠ owner) }

/-- The value `CommitAndDequeueOperationLocked` stores, from the content size it loaded. -/
def committedContentSize (op : Operation) (loaded : ℕ) : Option ℕ :=
  match op.type with
  | .write => some (max op.size loaded)
  | .append | .setSize => some op.size
  | .read => none

/-- The store and dequeue of `CommitAndDequeueOperationLocked`, after the load. -/
def commitStore (owner loaded : ℕ) : ContentSizeManager :=
  match m.op? owner with
  | none => m
  | some op =>
    let m := match committedContentSize op loaded with
      | some v => { m with contentSize := v }
      | none => m
    m.dequeueOperationLocked owner

end ContentSizeManager

/-- What a thread was asked to do, with the size `ExpandIfNecessary` leaves the VMO at. -/
inductive StreamCall where
  /-- `WriteVectorAt(offset)` of `total` bytes. -/
  | writeAt (offset total vmoSize : ℕ)
  /-- `AppendVector` of `total` bytes. -/
  | append (total vmoSize : ℕ)
  deriving DecidableEq, Repr

/-- Where a thread is in its call. -/
inductive Phase where
  | start
  /-- In `BlockUntilHeadLocked`. -/
  | blocked
  /-- In `WriteUserVector` at `offset`, with `written` of `length` bytes done;
  `prev` is the previous content size a write saw when it expanded. -/
  | writing (offset length written : ℕ) (prev : Option ℕ)
  /-- In a `Write` commit, holding the lock, having loaded the content size. -/
  | commitLoaded (loaded : ℕ)
  | finished
  deriving DecidableEq, Repr

/-- The stream: the manager, the thread that holds its lock across a step
boundary, and each thread's call and phase. -/
structure StreamState where
  mgr : ContentSizeManager
  lockHolder : Option ℕ
  calls : List StreamCall
  phases : List Phase
  deriving DecidableEq, Repr

/-- A step of one thread. -/
inductive StreamAction where
  /-- The locked begin section: `BeginAppendLocked` or `CreateWriteOpAndExpandVmo`. -/
  | begin (t : ℕ)
  /-- `BlockUntilHeadLocked` returns, and the begin section goes on. -/
  | wake (t : ℕ)
  /-- One chunk of `WriteUserVector` and its progress callback. -/
  | progress (t chunk : ℕ)
  /-- `WriteUserVector` returns; the thread relocks, shrinks or cancels, and commits. -/
  | finishWrite (t : ℕ)
  /-- The store and dequeue of a `Write` commit, and the unlock. -/
  | commitStore (t : ℕ)
  deriving DecidableEq, Repr

namespace StreamState

variable (s : StreamState)

def phase (t : ℕ) : Phase :=
  s.phases.getD t .finished

def setPhase (t : ℕ) (p : Phase) : StreamState :=
  { s with phases := s.phases.set t p }

/-- Whether a thread may take the lock. -/
def lockFree (t : ℕ) : Bool :=
  s.lockHolder.all (· = t)

/-- The begin section once the thread need not block: for an `Append` the
content size is read again and the size set, with the overflow check; then
the VMO size clips the operation, and the write starts. -/
def afterHead (t : ℕ) : StreamCall → Bool → Option StreamState
  | .append total vmoSize, _ =>
    let cur := s.mgr.contentSize
    if cur + total ≥ 2 ^ 64 then
      some ({ s with mgr := s.mgr.dequeueOperationLocked t }.setPhase t .finished)
    else
      let newContentSize := cur + total
      let offset := newContentSize - total
      if vmoSize ≤ offset then
        some ({ s with mgr := s.mgr.dequeueOperationLocked t }.setPhase t .finished)
      else
        let mgr := s.mgr.setSize t (min vmoSize newContentSize)
        some ({ s with mgr }.setPhase t
          (.writing offset (min vmoSize newContentSize - offset) 0 none))
  | .writeAt offset total vmoSize, blocked =>
    let requested := offset + total
    -- `out_prev_content_size` is set only after blocking, and only for an expanding write
    let prev := if blocked ∧ requested > s.mgr.contentSize then some s.mgr.contentSize else none
    if vmoSize ≤ offset then
      some ({ s with mgr := s.mgr.dequeueOperationLocked t }.setPhase t .finished)
    else
      let target := min vmoSize requested
      some ({ s with mgr := s.mgr.setSize t target }.setPhase t
        (.writing offset (target - offset) 0 prev))

/-- One step of thread `t`; `none` if the thread cannot take it. -/
def step : StreamAction → Option StreamState
  | .begin t =>
    match s.phase t, s.calls[t]? with
    | .start, some call =>
      if s.lockFree t then
        match call with
        | .append total _ =>
          if total = 0 then some (s.setPhase t .finished) else
          let (blocks, mgr) := s.mgr.beginAppendLocked t
          if blocks then some ({ s with mgr }.setPhase t .blocked)
          else { s with mgr }.afterHead t call false
        | .writeAt offset total _ =>
          if total = 0 then some (s.setPhase t .finished) else
          if offset + total ≥ 2 ^ 64 then some (s.setPhase t .finished) else
          let (blocks, mgr) := s.mgr.beginWriteLocked t (offset + total)
          if blocks then some ({ s with mgr }.setPhase t .blocked)
          else { s with mgr }.afterHead t call false
      else none
    | _, _ => none
  | .wake t =>
    match s.phase t, s.calls[t]? with
    | .blocked, some call =>
      if s.lockFree t ∧ s.mgr.isHead t then s.afterHead t call true else none
    | _, _ => none
  | .progress t chunk =>
    match s.phase t, s.calls[t]?, s.mgr.op? t with
    | .writing offset length written prev, some call, some op =>
      if 0 < chunk ∧ written + chunk ≤ length then
        let progress := offset + written + chunk
        -- the callback: an `Append` always reports, a write only past `prev`
        let report := match call with
          | .append _ _ => true
          | .writeAt _ _ _ => prev.any (progress > ·)
        let s' := s.setPhase t (.writing offset length (written + chunk) prev)
        if report then
          -- the `DEBUG_ASSERT`s of `UpdateContentSizeFromProgress`
          if progress ≤ op.size ∧ progress > s.mgr.contentSize then
            some { s' with mgr := { s'.mgr with contentSize := progress } }
          else none
        else some s'
      else none
    | _, _, _ => none
  | .finishWrite t =>
    match s.phase t, s.mgr.op? t with
    | .writing offset length written _, some op =>
      if s.lockFree t then
        if written = 0 then
          some ({ s with mgr := s.mgr.dequeueOperationLocked t }.setPhase t .finished)
        else
          let mgr := if written < length then s.mgr.setSize t (offset + written) else s.mgr
          match op.type with
          | .write =>
            some ({ s with mgr, lockHolder := some t }.setPhase t (.commitLoaded mgr.contentSize))
          | _ =>
            some ({ s with mgr := mgr.commitStore t mgr.contentSize }.setPhase t .finished)
      else none
    | _, _ => none
  | .commitStore t =>
    match s.phase t with
    | .commitLoaded loaded =>
      some ({ s with mgr := s.mgr.commitStore t loaded, lockHolder := none }.setPhase t .finished)
    | _ => none

/-- A run: the steps in order, each of which must be possible. -/
def run : StreamState → List StreamAction → Option StreamState
  | s, [] => some s
  | s, a :: as => (s.step a).bind (run · as)

/-- A stream whose threads are about to make the given calls. -/
def init (contentSize : ℕ) (calls : List StreamCall) : StreamState :=
  ⟨⟨contentSize, [], []⟩, none, calls, calls.map fun _ ↦ .start⟩

end StreamState

/-! ### A `Write` commit lowers the content size -/

/-- An `Append` of 50 bytes and a `WriteVectorAt(0)` of 10 bytes on a stream of
content size 100, in a VMO large enough for both. -/
def appendAndOverwrite : StreamState :=
  .init 100 [.append 50 0x10000, .writeAt 0 10 0x10000]

/-- The `Append` begins and reports 20 bytes; the write begins, writes, and
loads the content size for its commit; the `Append` reports 10 more bytes; the
write stores. -/
def commitRace : List StreamAction :=
  [.begin 0, .begin 1, .progress 0 20, .progress 1 10, .finishWrite 1, .progress 0 10,
    .commitStore 1]

theorem writeCommit_lowers_contentSize :
    (appendAndOverwrite.run (commitRace.take 6)).map (·.mgr) =
        some ⟨130, [⟨0, .append, 150⟩, ⟨1, .write, 10⟩], []⟩ ∧
      (appendAndOverwrite.run commitRace).map (·.mgr) = some ⟨120, [⟨0, .append, 150⟩], []⟩ ∧
      (appendAndOverwrite.run (commitRace ++ [.progress 0 20, .finishWrite 0])).map
        (fun s ↦ (s.mgr, s.phases)) = some (⟨150, [], []⟩, [.finished, .finished]) := by
  refine ⟨by decide, by decide, by decide⟩

end Zircon.Vm
