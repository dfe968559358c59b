import Mathlib
import Zircon.Lib.ScanLeft

/-!
# Zero intervals in the page list

`VmPageList` keeps the content of a VMO by page offset, in nodes of
`kPageFanOut` slots.  A run of zero pages is kept sparsely, as a zero interval:
a `Start` sentinel on its first page and an `End` on its last with the slots
between left empty, or one `Slot` sentinel for a run of one page.  Every
sentinel carries the dirty state of its interval; a start or a slot also
carries its `AwaitingCleanLength`.

The model flattens the nodes: a list is a map from page index to slot, and an
offset is a page index, as the source's offsets are page-aligned.  Allocating
and freeing nodes, and the failures of allocation, are left out, so each
operation is its path to `ZX_OK`.  Where the source finds the interval around
an offset by looking for its end to the right or its start to the left within
a node, which agree on a well-formed list, the model looks left.
-/

namespace Zircon.Vm

/-- `VmPageOrMarker::SentinelType`. -/
inductive SentinelType
  | slot
  | start
  | «end»
  deriving DecidableEq, Repr

/-- `VmPageOrMarker::IntervalDirtyState`. -/
inductive IntervalDirtyState
  | untracked
  | clean
  | dirty
  deriving DecidableEq, Repr

/-- `VmPageOrMarker`: an empty slot, content that is not an interval (a page,
a reference, a marker), or a zero interval sentinel with its dirty state and
`AwaitingCleanLength` in pages. -/
inductive VmPageOrMarker (α : Type*)
  | empty
  | content (c : α)
  | interval (sentinel : SentinelType) (dirtyState : IntervalDirtyState) (awaitingCleanLength : ℕ)
  deriving DecidableEq, Repr

namespace VmPageOrMarker

variable {α : Type*}

def isEmpty : VmPageOrMarker α → Bool
  | empty => true
  | _ => false

def isInterval : VmPageOrMarker α → Bool
  | interval .. => true
  | _ => false

def isIntervalStart : VmPageOrMarker α → Bool
  | interval .start .. => true
  | _ => false

def isIntervalEnd : VmPageOrMarker α → Bool
  | interval .end .. => true
  | _ => false

def isIntervalSlot : VmPageOrMarker α → Bool
  | interval .slot .. => true
  | _ => false

/-- `GetZeroIntervalDirtyState`, read on a sentinel. -/
def getZeroIntervalDirtyState : VmPageOrMarker α → IntervalDirtyState
  | interval _ state _ => state
  | _ => .untracked

/-- `GetZeroIntervalAwaitingCleanLength`, read on a sentinel. -/
def getZeroIntervalAwaitingCleanLength : VmPageOrMarker α → ℕ
  | interval _ _ len => len
  | _ => 0

def setZeroIntervalAwaitingCleanLength (len : ℕ) : VmPageOrMarker α → VmPageOrMarker α
  | interval sentinel state _ => interval sentinel state len
  | p => p

/-- `ChangeIntervalSentinel`: the same interval state under another sentinel. -/
def changeIntervalSentinel (sentinel : SentinelType) : VmPageOrMarker α → VmPageOrMarker α
  | interval _ state len => interval sentinel state len
  | p => p

section Tests

variable (c : α) (sentinel : SentinelType) (state : IntervalDirtyState) (len : ℕ)

@[simp] theorem isEmpty_empty : (empty : VmPageOrMarker α).isEmpty = true := rfl
@[simp] theorem isEmpty_content : (content c).isEmpty = false := rfl
@[simp] theorem isEmpty_interval : (interval sentinel state len : VmPageOrMarker α).isEmpty = false := rfl
@[simp] theorem isInterval_empty : (empty : VmPageOrMarker α).isInterval = false := rfl
@[simp] theorem isInterval_content : (content c).isInterval = false := rfl
@[simp] theorem isInterval_interval : (interval sentinel state len : VmPageOrMarker α).isInterval = true := rfl
@[simp] theorem isIntervalStart_empty : (empty : VmPageOrMarker α).isIntervalStart = false := rfl
@[simp] theorem isIntervalStart_content : (content c).isIntervalStart = false := rfl
@[simp] theorem isIntervalStart_interval :
    (interval sentinel state len : VmPageOrMarker α).isIntervalStart = decide (sentinel = .start) := by
  cases sentinel <;> rfl
@[simp] theorem isIntervalEnd_empty : (empty : VmPageOrMarker α).isIntervalEnd = false := rfl
@[simp] theorem isIntervalEnd_content : (content c).isIntervalEnd = false := rfl
@[simp] theorem isIntervalEnd_interval :
    (interval sentinel state len : VmPageOrMarker α).isIntervalEnd = decide (sentinel = .end) := by
  cases sentinel <;> rfl
@[simp] theorem isIntervalSlot_empty : (empty : VmPageOrMarker α).isIntervalSlot = false := rfl
@[simp] theorem isIntervalSlot_content : (content c).isIntervalSlot = false := rfl
@[simp] theorem isIntervalSlot_interval :
    (interval sentinel state len : VmPageOrMarker α).isIntervalSlot = decide (sentinel = .slot) := by
  cases sentinel <;> rfl
@[simp] theorem getZeroIntervalDirtyState_interval :
    (interval sentinel state len : VmPageOrMarker α).getZeroIntervalDirtyState = state := rfl
@[simp] theorem getZeroIntervalAwaitingCleanLength_interval :
    (interval sentinel state len : VmPageOrMarker α).getZeroIntervalAwaitingCleanLength = len := rfl

end Tests

@[simp] theorem setZeroIntervalAwaitingCleanLength_interval (len : ℕ) (sentinel : SentinelType)
    (state : IntervalDirtyState) (len' : ℕ) :
    (interval sentinel state len' : VmPageOrMarker α).setZeroIntervalAwaitingCleanLength len =
      interval sentinel state len := rfl

@[simp] theorem changeIntervalSentinel_interval (sentinel sentinel' : SentinelType)
    (state : IntervalDirtyState) (len : ℕ) :
    (interval sentinel' state len : VmPageOrMarker α).changeIntervalSentinel sentinel =
      interval sentinel state len := rfl

/-- `VmPageOrMarker::ZeroInterval`. -/
def zeroInterval (sentinel : SentinelType) (state : IntervalDirtyState) : VmPageOrMarker α :=
  interval sentinel state 0

end VmPageOrMarker

open VmPageOrMarker

/-- `VmPageListNode::kPageFanOut`. -/
def kPageFanOut : ℕ := 16

/-- `VmPageList::MAX_SIZE`, in pages of 4 KiB. -/
def kMaxSize : ℕ := (2 ^ 64 - 1) / (2 * kPageFanOut * 4096) * (2 * kPageFanOut)

/-- `VmPageList::NodeOffset`, in pages. -/
def nodeOffset (offset : ℕ) : ℕ := offset / kPageFanOut * kPageFanOut

/-- A page list, flattened: the slot at each page index. -/
@[ext]
structure VmPageList (α : Type*) where
  slots : ℕ → VmPageOrMarker α

namespace VmPageList

variable {α : Type*}

/-- A write through a slot pointer. -/
def set (l : VmPageList α) (offset : ℕ) (p : VmPageOrMarker α) : VmPageList α :=
  ⟨Function.update l.slots offset p⟩

/-- An update of a slot in place through its pointer. -/
def modify (l : VmPageList α) (offset : ℕ) (f : VmPageOrMarker α → VmPageOrMarker α) :
    VmPageList α :=
  l.set offset (f (l.slots offset))

@[simp] theorem slots_set (l : VmPageList α) (offset : ℕ) (p : VmPageOrMarker α) :
    (l.set offset p).slots = Function.update l.slots offset p := rfl

@[simp] theorem slots_modify (l : VmPageList α) (offset : ℕ) (f : VmPageOrMarker α → VmPageOrMarker α) :
    (l.modify offset f).slots = Function.update l.slots offset (f (l.slots offset)) := rfl

/-- The last filled slot before `offset`, with its offset. -/
def prevFilled (l : VmPageList α) (offset : ℕ) : Option (ℕ × VmPageOrMarker α) :=
  Zircon.Lib.lastBefore (fun p ↦ !p.isEmpty) l.slots offset

/-- `IsOffsetInIntervalHelper`: the sentinel of the interval that `offset` lies
in, if any: the sentinel at `offset`, or the start of the interval around an
empty slot. -/
def intervalAt (l : VmPageList α) (offset : ℕ) : Option (VmPageOrMarker α) :=
  match l.slots offset with
  | empty =>
    match l.prevFilled offset with
    | some (_, p) => if p.isIntervalStart then some p else none
    | none => none
  | content _ => none
  | p@(interval ..) => some p

/-- The dirty state of the zero interval that covers `offset`, if one does. -/
def cov (l : VmPageList α) (offset : ℕ) : Option IntervalDirtyState :=
  (l.intervalAt offset).map getZeroIntervalDirtyState

/-- `FindIntervalStartForEnd`: the start is the last filled slot before the end. -/
def findIntervalStartForEnd (l : VmPageList α) (endOffset : ℕ) : Option ℕ :=
  (l.prevFilled endOffset).map Prod.fst

/-! ### Splitting an interval around a slot -/

/-- The split of `LookupOrAllocateCheckForInterval` once `offset` is known to
lie in an interval of dirty state `state` without being its `Slot`: the slots
next to it become an end and a start, and `offset` a slot of its own. -/
def splitAround (l : VmPageList α) (offset : ℕ) (state : IntervalDirtyState) : VmPageList α :=
  let slot := l.slots offset
  let mint := fun sentinel ↦ (zeroInterval sentinel state : VmPageOrMarker α)
  -- the new start after `offset` turns an end there into a slot
  let l := if !slot.isIntervalEnd then
      l.modify (offset + 1) fun p ↦
        if p.isIntervalEnd then p.changeIntervalSentinel .slot else mint .start
    else l
  -- the new end before `offset` turns a start there into a slot
  let l := if !slot.isIntervalStart then
      l.modify (offset - 1) fun p ↦
        if p.isIntervalStart then p.changeIntervalSentinel .slot else mint .end
    else l
  if slot.isEmpty then l.set offset (mint .slot)
  else
    -- a start hands the rest of its `AwaitingCleanLength` to the new start
    let awaitingCleanLen := slot.getZeroIntervalAwaitingCleanLength
    let l := if slot.isIntervalStart && 1 < awaitingCleanLen then
        (l.modify (offset + 1) (setZeroIntervalAwaitingCleanLength (awaitingCleanLen - 1))).modify
          offset (setZeroIntervalAwaitingCleanLength 1)
      else l
    l.modify offset (changeIntervalSentinel .slot)

/-- `LookupOrAllocateCheckForInterval`: the slot at `offset` (by its offset),
and whether `offset` lies in an interval, which is split around it when asked. -/
def lookupOrAllocateCheckForInterval (l : VmPageList α) (offset : ℕ) (splitInterval : Bool) :
    (Option ℕ × Bool) × VmPageList α :=
  if kMaxSize ≤ nodeOffset offset then ((none, false), l)
  else
    match l.intervalAt offset with
    | none => ((some offset, false), l)
    | some foundInterval =>
      if !splitInterval then ((none, true), l)
      else if (l.slots offset).isIntervalSlot then ((some offset, true), l)
      else ((some offset, true), l.splitAround offset foundInterval.getZeroIntervalDirtyState)

/-! ### Adding a zero interval -/

/-- Extend the `AwaitingCleanLength` of the start at `finalStart` over
`[start, start + len)` when no gap separates them. -/
def extendAwaitingClean (l : VmPageList α) (finalStart start len : ℕ) : VmPageList α :=
  let oldLen := (l.slots finalStart).getZeroIntervalAwaitingCleanLength
  if start ≤ finalStart + oldLen then
    l.modify finalStart
      (setZeroIntervalAwaitingCleanLength (max (finalStart + oldLen) (start + len) - finalStart))
  else l

/-- The test of `AddZeroIntervalInternal` for merging with an interval that
ends on the slot just before `intervalStart`. -/
def mergeWithPrev (l : VmPageList α) (intervalStart : ℕ) (dirtyState : IntervalDirtyState) : Bool :=
  let prevSlot := l.slots (intervalStart - 1)
  0 < intervalStart && prevSlot.isInterval && (prevSlot.isIntervalEnd || prevSlot.isIntervalSlot) &&
    prevSlot.getZeroIntervalDirtyState == dirtyState

/-- The test of `AddZeroIntervalInternal` for merging with an interval that
starts on the slot `nextOffset`. -/
def mergeWithNext (l : VmPageList α) (nextOffset : ℕ) (dirtyState : IntervalDirtyState) : Bool :=
  let nextSlot := l.slots nextOffset
  nextSlot.isInterval && (nextSlot.isIntervalStart || nextSlot.isIntervalSlot) &&
    nextSlot.getZeroIntervalDirtyState == dirtyState

/-- `AddZeroIntervalInternal`: a zero interval on the empty range
`[startOffset, endOffset)`, merged with a touching interval of the same dirty
state on either side. -/
def addZeroIntervalInternal (l : VmPageList α) (startOffset endOffset : ℕ)
    (dirtyState : IntervalDirtyState) (awaitingCleanLen : ℕ) : VmPageList α :=
  let intervalStart := startOffset
  let intervalEnd := endOffset - 1
  let prevOffset := intervalStart - 1
  let nextOffset := intervalEnd + 1
  let prevSlot := l.slots prevOffset
  let mergeWithPrev := l.mergeWithPrev intervalStart dirtyState
  let nextSlot := l.slots nextOffset
  let mergeWithNext := l.mergeWithNext nextOffset dirtyState
  -- the start of the merged interval, which takes the `AwaitingCleanLength`
  let finalStartOffset :=
    if mergeWithPrev then
      if prevSlot.isIntervalSlot then prevOffset
      else (l.findIntervalStartForEnd prevOffset).getD prevOffset
    else intervalStart
  let l :=
    if mergeWithPrev then
      let l := if 0 < awaitingCleanLen then
          l.extendAwaitingClean finalStartOffset intervalStart awaitingCleanLen
        else l
      if prevSlot.isIntervalEnd then l.set prevOffset empty
      else l.modify prevOffset (changeIntervalSentinel .start)
    else
      let l := l.set intervalStart (zeroInterval .start dirtyState)
      if 0 < awaitingCleanLen then
        l.modify intervalStart (setZeroIntervalAwaitingCleanLength awaitingCleanLen)
      else l
  if mergeWithNext then
    let nextLen := nextSlot.getZeroIntervalAwaitingCleanLength
    let l := if 0 < awaitingCleanLen && 0 < nextLen then
        l.extendAwaitingClean finalStartOffset nextOffset nextLen
      else l
    if nextSlot.isIntervalStart then l.set nextOffset empty
    else l.modify nextOffset fun p ↦
      (p.setZeroIntervalAwaitingCleanLength 0).changeIntervalSentinel .end
  else if (l.slots intervalEnd).isIntervalStart then
    -- a one-page interval: the start just placed becomes a slot
    l.modify intervalEnd (changeIntervalSentinel .slot)
  else l.set intervalEnd (zeroInterval .end dirtyState)

/-- `AddZeroInterval`. -/
def addZeroInterval (l : VmPageList α) (startOffset endOffset : ℕ)
    (dirtyState : IntervalDirtyState) : VmPageList α :=
  l.addZeroIntervalInternal startOffset endOffset dirtyState 0

/-- `ReturnIntervalSlot`: the slot at `offset` is emptied and added back as a
one-page interval, which merges with its neighbours. -/
def returnIntervalSlot (l : VmPageList α) (offset : ℕ) : VmPageList α :=
  let slot := l.slots offset
  (l.set offset empty).addZeroIntervalInternal offset (offset + 1) slot.getZeroIntervalDirtyState
    slot.getZeroIntervalAwaitingCleanLength

/-! ### Populating the slots of an interval -/

/-- The loop of `PopulateSlotsInInterval`: `count` slots from `offset` become
slots of `state`, each taking one page of the pending `AwaitingCleanLength`. -/
def fillSlots (state : IntervalDirtyState) : ℕ → ℕ → VmPageList α × ℕ → VmPageList α × ℕ
  | _, 0, acc => acc
  | offset, count + 1, (l, len) =>
    let slot : VmPageOrMarker α := zeroInterval .slot state
    if 0 < len then
      fillSlots state (offset + 1) count (l.set offset (slot.setZeroIntervalAwaitingCleanLength 1), len - 1)
    else fillSlots state (offset + 1) count (l.set offset slot, len)

/-- The end of `PopulateSlotsInInterval`: what is left of the
`AwaitingCleanLength` goes to the last slot, then to the interval after it. -/
def carryAwaitingClean (l : VmPageList α) (endOffset len : ℕ) : VmPageList α :=
  if 0 < len then
    let l := l.modify endOffset (setZeroIntervalAwaitingCleanLength 1)
    let len := len - 1
    let next := l.slots (endOffset + 1)
    if 0 < len && (next.isIntervalStart || next.isIntervalSlot) then
      l.modify (endOffset + 1)
        (setZeroIntervalAwaitingCleanLength (max next.getZeroIntervalAwaitingCleanLength len))
    else l
  else l

/-- `PopulateSlotsInInterval`: every offset of `[startOffset, endOffset)`, which
lies in an interval, gets a slot sentinel of its own. -/
def populateSlotsInInterval (l : VmPageList α) (startOffset endOffset : ℕ) :
    Option Unit × VmPageList α :=
  let endOffset := endOffset - 1
  match l.lookupOrAllocateCheckForInterval startOffset true with
  | ((none, _), l) => (none, l)
  | ((some _, _), l) =>
    if startOffset = endOffset then (some (), l)
    else
      match l.lookupOrAllocateCheckForInterval endOffset true with
      | ((none, _), l) => (none, l.returnIntervalSlot startOffset)
      | ((some _, _), l) =>
        if endOffset = startOffset + 1 then (some (), l)
        else
          let state := (l.slots startOffset).getZeroIntervalDirtyState
          let filled := fillSlots state (startOffset + 1) (endOffset - (startOffset + 1))
            (l, (l.slots (startOffset + 1)).getZeroIntervalAwaitingCleanLength)
          (some (), filled.1.carryAwaitingClean endOffset filled.2)

/-! ### Clipping and overwriting -/

/-- `ClipIntervalStart`: move the start of the interval at `intervalStart` on
by `len` pages. -/
def clipIntervalStart (l : VmPageList α) (intervalStart len : ℕ) : VmPageList α :=
  if len = 0 then l
  else
    let newIntervalStart := intervalStart + len
    let oldStart := l.slots intervalStart
    let l := l.modify newIntervalStart fun p ↦
      if p.isIntervalEnd then p.changeIntervalSentinel .slot
      else zeroInterval .start oldStart.getZeroIntervalDirtyState
    let oldLen := oldStart.getZeroIntervalAwaitingCleanLength
    let l := if len < oldLen then
        l.modify newIntervalStart (setZeroIntervalAwaitingCleanLength (oldLen - len))
      else l
    l.set intervalStart empty

/-- `ClipIntervalEnd`: move the end of the interval at `intervalEnd` back by
`len` pages. -/
def clipIntervalEnd (l : VmPageList α) (intervalEnd len : ℕ) : VmPageList α :=
  if len = 0 then l
  else
    let newIntervalEnd := intervalEnd - len
    let oldEnd := l.slots intervalEnd
    let l := l.modify newIntervalEnd fun p ↦
      if p.isIntervalStart then p.changeIntervalSentinel .slot
      else zeroInterval .end oldEnd.getZeroIntervalDirtyState
    l.set intervalEnd empty

/-- The merge of `OverwriteZeroInterval` with the interval before the new one,
whose sentinel is at `startSlot`: both sentinels give way. -/
def mergeLeft (l : VmPageList α) (newStartOffset startSlot : ℕ) (newDirtyState : IntervalDirtyState) :
    VmPageList α :=
  -- an offset of zero wraps in the source, where no node is found
  if newStartOffset = 0 then l
  else
    let left := l.slots (newStartOffset - 1)
    if left.isInterval && left.getZeroIntervalDirtyState == newDirtyState then
      let l := if left.isIntervalSlot then l.modify (newStartOffset - 1) (changeIntervalSentinel .start)
        else l.set (newStartOffset - 1) empty
      if (l.slots startSlot).isIntervalSlot then l.modify startSlot (changeIntervalSentinel .end)
      else l.set startSlot empty
    else l

/-- The merge of `OverwriteZeroInterval` with the interval after the new one,
whose sentinel is at `endSlot`. -/
def mergeRight (l : VmPageList α) (newEndOffset endSlot : ℕ) (newDirtyState : IntervalDirtyState) :
    VmPageList α :=
  let right := l.slots (newEndOffset + 1)
  if right.isInterval && right.getZeroIntervalDirtyState == newDirtyState then
    let l := if right.isIntervalSlot then l.modify (newEndOffset + 1) (changeIntervalSentinel .end)
      else l.set (newEndOffset + 1) empty
    if (l.slots endSlot).isIntervalSlot then l.modify endSlot (changeIntervalSentinel .start)
    else l.set endSlot empty
  else l

/-- `OverwriteZeroInterval`: give `[newStartOffset, newEndOffset]`, the whole of
an interval or a part of it that keeps its start or its end, a new dirty
state.  An old sentinel that is not passed is `UINT64_MAX` in the source. -/
def overwriteZeroInterval (l : VmPageList α) (oldStartOffset oldEndOffset : Option ℕ)
    (newStartOffset newEndOffset : ℕ) (newDirtyState : IntervalDirtyState) : VmPageList α :=
  let mint := fun sentinel ↦ (zeroInterval sentinel newDirtyState : VmPageOrMarker α)
  -- the slots of the new start and end, the clipped remainder, and the merges to try
  let (startSlot, endSlot, l, tryMergeLeft, tryMergeRight) :=
    match oldStartOffset, oldEndOffset with
    | some oldStart, some oldEnd => (oldStart, oldEnd, l, true, true)
    | some oldStart, none =>
      -- clip at the start: what follows the new interval keeps the old state
      let oldStartSlot := l.slots oldStart
      let l := l.modify (newEndOffset + 1) fun p ↦
        if p.isIntervalEnd then p.changeIntervalSentinel .slot
        else zeroInterval .start oldStartSlot.getZeroIntervalDirtyState
      let oldLen := oldStartSlot.getZeroIntervalAwaitingCleanLength
      let len := newEndOffset + 1 - oldStart
      let l := if len < oldLen then
          l.modify (newEndOffset + 1) (setZeroIntervalAwaitingCleanLength (oldLen - len))
        else l
      (oldStart, newEndOffset, l, true, false)
    | _, oldEnd =>
      -- clip at the end: what precedes the new interval keeps the old state
      let oldEndSlot := (oldEnd.map l.slots).getD empty
      let l := l.modify (newStartOffset - 1) fun p ↦
        if p.isIntervalStart then p.changeIntervalSentinel .slot
        else zeroInterval .end oldEndSlot.getZeroIntervalDirtyState
      (newStartOffset, oldEnd.getD newEndOffset, l, false, true)
  let l := if startSlot = endSlot then l.set startSlot (mint .slot)
    else (l.set startSlot (mint .start)).set endSlot (mint .end)
  let l := if tryMergeLeft then l.mergeLeft newStartOffset startSlot newDirtyState else l
  if tryMergeRight then l.mergeRight newEndOffset endSlot newDirtyState else l

end VmPageList

end Zircon.Vm
