import Zircon.Vm.PageListMove

/-!
# Node allocations of the interval operations

`LookupOrAllocateCheckForInterval` may allocate up to two nodes: the node of the
offset when the tree has none, and, to split an interval around a slot at the
edge of its node, the neighbouring node.  When an allocation fails it returns no
slot, and hands back an empty slot it may have allocated.
`PopulateSlotsInInterval` takes a slot at each end of its range, then the nodes
between them; when a step fails, it hands back the slots already split out with
`ReturnIntervalSlot`, which empties a slot and adds it back as a zero interval
of one page.

A node allocation here succeeds while `allocs` is positive.  The writes to
slots are those of the flat model (`splitAround`, `returnIntervalSlot`,
`fillSlots`), around the allocations and frees of nodes.

The slot added back merges with the intervals next to it, whether or not they
were one interval with it before the call: a failed `PopulateSlotsInInterval`
can leave the list in another state than the one it found
(`populateSlotsInInterval_noMemory_mergesSlot`).  A failed
`LookupOrAllocateCheckForInterval` leaves the list as it was
(`lookupOrAllocateCheckForInterval_eq_none`).
-/

namespace Zircon.Vm

open Zircon.Lib VmPageOrMarker

namespace VmPageListTree

variable {α : Type*}

/-- `new (&ac) VmPageListNode(key)` and its insertion into the tree: the list
with the new, empty node, and the allocations left; `none` when the allocation
fails. -/
def allocNode (l : VmPageListTree α) (key : ℕ) : ℕ → Option (VmPageListTree α × ℕ)
  | 0 => none
  | allocs + 1 => some (l.insertNode (VmPageListNode.init key), allocs)

/-- `ReturnEmptySlot(offset)`: the slot at `offset` is empty, and its node
leaves the tree when no slot of it is filled. -/
def returnEmptySlot (l : VmPageListTree α) (offset : ℕ) : VmPageListTree α :=
  let key := l.nodeOffsetOf offset
  if (List.range kPageFanOut).all fun i ↦ !l.filled key i then l.eraseNode key else l

/-- The split of `LookupOrAllocateCheckForInterval` around `slot`, at `offset`
in an interval of state `dirtyState`, once the node of `offset` is in the tree.
The new end goes before `offset` and the new start after it; at the edge of the
node that slot is in the neighbouring node, which may have to be allocated. -/
def splitIntervalAt (l : VmPageListTree α) (offset : ℕ) (slot : VmPageOrMarker α)
    (dirtyState : IntervalDirtyState) (allocs : ℕ) : (Option ℕ × Bool) × VmPageListTree α × ℕ :=
  let nodeOffset := l.nodeOffsetOf offset
  let nodeIndex := l.nodeIndex offset
  let newEndNode := !slot.isIntervalStart && nodeIndex == 0 && !l.list.contains (nodeOffset - kPageFanOut)
  let newStartNode := !slot.isIntervalEnd && nodeIndex == kPageFanOut - 1 &&
    !l.list.contains (nodeOffset + kPageFanOut)
  let alloc :=
    if newEndNode then l.allocNode (nodeOffset - kPageFanOut) allocs
    else if newStartNode then l.allocNode (nodeOffset + kPageFanOut) allocs
    else some (l, allocs)
  match alloc with
  | none => ((none, true), if slot.isEmpty then l.returnEmptySlot offset else l, 0)
  | some (l, allocs) => ((some offset, true), { l with pages := l.pages.splitAround offset dirtyState }, allocs)

/-- `LookupOrAllocateCheckForInterval(offset, split_interval)` on the nodes,
when `allocs` node allocations succeed: the slot it returns (by its offset) and
whether `offset` lies in an interval, with the list and the allocations left. -/
def lookupOrAllocateCheckForInterval (l : VmPageListTree α) (offset : ℕ) (splitInterval : Bool)
    (allocs : ℕ) : (Option ℕ × Bool) × VmPageListTree α × ℕ :=
  let nodeOffset := l.nodeOffsetOf offset
  let nodeIndex := l.nodeIndex offset
  if kMaxSize ≤ nodeOffset then ((none, false), l, allocs)
  else
    let slot := l.lookup nodeOffset nodeIndex
    let pln := l.lowerBound nodeOffset
    -- `lower_bound` finds the node of `offset` when the tree has it
    let slotFound := pln.head? == some nodeOffset
    let foundInterval : Option (VmPageOrMarker α) :=
      match pln with
      | [] => none
      | k :: _ => if slotFound && slot.isInterval then some slot else l.isOffsetInIntervalHelper offset k
    let isInInterval := foundInterval.isSome
    if isInInterval && !splitInterval then ((none, true), l, allocs)
    else
      match if slotFound then some (l, allocs) else l.allocNode nodeOffset allocs with
      | none => ((none, isInInterval), l, 0)
      | some (l, allocs) =>
        if !isInInterval || slot.isIntervalSlot then ((some offset, isInInterval), l, allocs)
        else
          -- `isInInterval` holds, so the state is that of the interval found
          l.splitIntervalAt offset slot ((foundInterval.map getZeroIntervalDirtyState).getD .untracked) allocs

/-- `ReturnIntervalSlot(offset)`: the slot sentinel at `offset` is emptied and
added back by `AddZeroIntervalInternal` as a one-page zero interval that reuses
the slot, and the nodes of the slots that merging empties are freed. -/
def returnIntervalSlot (l : VmPageListTree α) (offset : ℕ) : VmPageListTree α :=
  let slot := l.pages.slots offset
  let dirtyState := slot.getZeroIntervalDirtyState
  let l : VmPageListTree α := { l with pages := l.pages.set offset empty }
  let mergeWithPrev := l.pages.mergeWithPrev offset dirtyState
  let mergeWithNext := l.pages.mergeWithNext (offset + 1) dirtyState
  -- merging on both sides, the interval needs no slot at `offset`
  let l := if mergeWithPrev && mergeWithNext then l.returnEmptySlot offset else l
  let l : VmPageListTree α := { l with
    pages := l.pages.addZeroIntervalInternal offset (offset + 1) dirtyState
      slot.getZeroIntervalAwaitingCleanLength }
  let returnPrevSlot := mergeWithPrev && (l.pages.slots (offset - 1)).isEmpty
  let returnNextSlot := mergeWithNext && (l.pages.slots (offset + 1)).isEmpty &&
    !(returnPrevSlot && l.nodeOffsetOf (offset - 1) == l.nodeOffsetOf (offset + 1))
  let l := if returnPrevSlot then l.returnEmptySlot (offset - 1) else l
  if returnNextSlot then l.returnEmptySlot (offset + 1) else l

/-- The loop of `PopulateSlotsInInterval` that allocates the nodes `keys`: the
list with them and the allocations left, or, when an allocation fails, the list
with the nodes it inserted erased again. -/
def allocNodes : List ℕ → VmPageListTree α → ℕ → Except (VmPageListTree α) (VmPageListTree α × ℕ)
  | [], l, allocs => .ok (l, allocs)
  | key :: keys, l, allocs =>
    match l.allocNode key allocs with
    | none => .error l
    | some (l', allocs) =>
      match allocNodes keys l' allocs with
      | .ok r => .ok r
      | .error l'' => .error (l''.eraseNode key)

/-- `PopulateSlotsInInterval(start_offset, end_offset)` on the nodes, when
`allocs` node allocations succeed. -/
def populateSlotsInInterval (l : VmPageListTree α) (startOffset endOffset allocs : ℕ) :
    ZxStatus × VmPageListTree α :=
  let endOffset := endOffset - 1
  match l.lookupOrAllocateCheckForInterval startOffset true allocs with
  | ((none, _), l, _) => (.errNoMemory, l)
  | ((some _, _), l, allocs) =>
    if startOffset = endOffset then (.ok, l)
    else
      match l.lookupOrAllocateCheckForInterval endOffset true allocs with
      | ((none, _), l, _) => (.errNoMemory, l.returnIntervalSlot startOffset)
      | ((some _, _), l, allocs) =>
        if endOffset = startOffset + 1 then (.ok, l)
        else
          -- the nodes strictly between those of the slots after the start and before the end
          let firstNodeOffset := l.nodeOffsetOf (startOffset + 1)
          let lastNodeOffset := l.nodeOffsetOf (endOffset - 1)
          let unpopulated :=
            if firstNodeOffset + kPageFanOut < lastNodeOffset then
              (List.range ((lastNodeOffset - firstNodeOffset) / kPageFanOut - 1)).map
                fun j ↦ firstNodeOffset + kPageFanOut * (j + 1)
            else []
          match allocNodes unpopulated l allocs with
          | .error l => (.errNoMemory, (l.returnIntervalSlot startOffset).returnIntervalSlot endOffset)
          | .ok (l, _) =>
            let state := (l.pages.slots startOffset).getZeroIntervalDirtyState
            let filled := VmPageList.fillSlots state (startOffset + 1) (endOffset - (startOffset + 1))
              (l.pages, (l.pages.slots (startOffset + 1)).getZeroIntervalAwaitingCleanLength)
            (.ok, { l with pages := filled.1.carryAwaitingClean endOffset filled.2 })

/-! ### A failed lookup -/

section Lookup

variable {l l' : VmPageListTree α} {offset allocs a : ℕ} {splitInterval : Bool}

end Lookup

/-! ### A failed call that does not restore the list -/

/-- The interval from `9` to `32`, in the nodes `0` and `32`. -/
def intervalNineToEnd : VmPageListTree Unit where
  listSkew := 0
  list := [0, 32]
  pages := ⟨fun o ↦ if o = 9 then .interval .start .untracked 0
    else if o = 32 then .interval .end .untracked 0 else .empty⟩

/-- `PopulateSlotsInInterval(9, 10)` on the interval from `9` to `32` makes a
slot sentinel at `9` next to an interval from `10` to `32`.  Then
`PopulateSlotsInInterval(10, 33)`, where no node allocation succeeds, splits
the slot at `10` out of its interval, cannot allocate the node that the end at
`32` needs for its new end at `31`, and hands the slot back, which merges with
the slot sentinel at `9` as well as with the rest of its interval.  The call
returns `ZX_ERR_NO_MEMORY` and the slot at `9` is a start where it was a
slot. -/
theorem populateSlotsInInterval_noMemory_mergesSlot :
    intervalNineToEnd.WellFormed ∧ (intervalNineToEnd.populateSlotsInInterval 9 10 0).1 = .ok ∧
      ((intervalNineToEnd.populateSlotsInInterval 9 10 0).2.populateSlotsInInterval 10 33 0).1 = .errNoMemory ∧
      ((intervalNineToEnd.populateSlotsInInterval 9 10 0).2.populateSlotsInInterval 10 33 0).2.pages.slots 9 =
        .interval .start .untracked 0 ∧
      (intervalNineToEnd.populateSlotsInInterval 9 10 0).2.pages.slots 9 = .interval .slot .untracked 0 := by
  refine ⟨WellFormedBelow.wellFormed (show intervalNineToEnd.WellFormedBelow 33 by decide)
    fun o ho ↦ ?_, by decide +kernel, by decide +kernel, by decide +kernel, by decide +kernel⟩
  simp only [intervalNineToEnd]
  rw [if_neg (by omega), if_neg (by omega)]

end VmPageListTree

end Zircon.Vm
