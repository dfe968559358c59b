import Mathlib
import Zircon.Lib.NodeList
import Zircon.Lib.StdAlgorithm
import Zircon.Memalloc.Algorithm

/-!
# The physical memory pool

`memalloc::Pool` tracks the normalized ranges of physical memory in an
intrusive list `ranges_` of nodes, and keeps the spare nodes in a second list
`unused_`.  Nodes are carved out of bookkeeping memory that the pool allocates
from its own free RAM.

The model keeps both lists: `ranges` as the nodes themselves, each a range and
its address, and `unused` as node addresses only, since a spare node's
contents are garbage.  An iterator is a node address (`NodeList`).  The ghost
list `carved` records every node `PopulateAsBookkeeping` has carved, so that
what becomes of the nodes can be stated.

Bookkeeping memory is addressed through the default, identity
`BookkeepingAddressToPointer`, and the `AccessCallback` does nothing to the
pool; a node is `sizeof(Node)` = 40 bytes, as on a 64-bit target.

Every operation returns its result with the state it leaves, as the source
mutates the pool also on the paths that fail: `none` is `fit::failed`.  A
`ZX_ASSERT` is a precondition of the operation; where it is violated the
model fails without change.
-/

namespace Zircon.Memalloc

open Zircon.Lib MemType

/-- `Pool::Node`: a range, and the address of the node that holds it. -/
structure Node extends Range where
  ptr : ℕ
  deriving DecidableEq, Repr

/-- An iterator into `ranges_`: the address of a node, `none` for `end()`. -/
abbrev Iter := Option ℕ

/-- `Pool::kBookkeepingChunkSize`. -/
def kBookkeepingChunkSize : UInt64 := 0x1000

/-- `Pool::kDefaultMinAddr`. -/
def kDefaultMinAddr : UInt64 := 0x10000

/-- `Pool::kDefaultMaxAddr`, `UINTPTR_MAX` on a 64-bit target. -/
def kDefaultMaxAddr : UInt64 := 0xFFFFFFFFFFFFFFFF

/-- `sizeof(Node)` on a 64-bit target: a 24-byte `Range` and two list links. -/
def kNodeSize : ℕ := 40

/-- `sizeof(void*)`. -/
def kPointerSize : ℕ := 8

/-- `Align`: round up to a power of two, failing past `UINT64_MAX`. -/
def align (addr alignment : UInt64) : Option UInt64 :=
  if addr > kMax - (alignment - 1) then none
  else some ((addr + alignment - 1) &&& ~~~(alignment - 1))

/-- `FindContainingRangeAmong`: the node whose range contains
`[addr, addr + size)`, found next to `std::lower_bound` of that range. -/
def findContainingRangeAmong (ranges : List Node) (addr size : UInt64) : Iter :=
  -- `operator<` does not read the type of the probe.
  let i := lowerBound (fun n : Node ↦ n.toRange.lt ⟨addr, size, n.type⟩) ranges
  let rangeEnd := addr + size
  let fromPrev : Iter :=
    match i, ranges[i - 1]? with
    | 0, _ => none
    | _ + 1, some prev =>
      if prev.addr ≤ addr && rangeEnd ≤ prev.endAddr then some prev.ptr else none
    | _ + 1, none => none
  match ranges[i]? with
  | some next =>
    if addr ≥ next.addr then (if rangeEnd ≤ next.endAddr then some next.ptr else none)
    else fromPrev
  | none => fromPrev

/-- `memalloc::Pool`, with the ghost list `carved` of all nodes carved so far. -/
structure Pool where
  ranges : List Node
  unused : List ℕ
  numRanges : ℕ
  defaultMinAddr : UInt64
  defaultMaxAddr : UInt64
  carved : List ℕ
  deriving DecidableEq, Repr

namespace Pool

/-- A default-constructed pool. -/
def empty : Pool :=
  ⟨[], [], 0, 0, 0, []⟩

/-! ### Iterators and the primitive list operations -/

/-- The node an iterator points at. -/
def node? (p : Pool) (it : Iter) : Option Node :=
  it.bind (NodeList.find Node.ptr p.ranges)

/-- `ranges_.begin()`. -/
def begin (p : Pool) : Iter :=
  p.ranges.head?.map Node.ptr

/-- `std::next(it)`. -/
def nextIt (p : Pool) (it : Iter) : Iter :=
  it.bind (NodeList.next Node.ptr p.ranges)

/-- `std::prev(it)`. -/
def prevIt (p : Pool) (it : Iter) : Iter :=
  NodeList.prev Node.ptr p.ranges it

/-- Writes through an iterator: `it->addr = ...` and the like. -/
def setNode (p : Pool) (it : Iter) (f : Node → Node) : Pool :=
  match it with
  | none => p
  | some k => { p with ranges := NodeList.modify Node.ptr p.ranges k f }

/-- `unused_.push_back`. -/
def pushUnused (p : Pool) (ptr : Iter) : Pool :=
  match ptr with
  | none => p
  | some k => { p with unused := p.unused ++ [k] }

/-- `Pool::FindContainingRange`. -/
def findContainingRange (p : Pool) (addr size : UInt64) : Iter :=
  findContainingRangeAmong p.ranges addr size

/-- `Pool::NewNode`: pop a spare node and fill it in. -/
def newNode (p : Pool) (range : Range) : Option Node × Pool :=
  match p.unused.getLast? with
  | none => (none, p)
  | some ptr => (some ⟨range, ptr⟩, { p with unused := p.unused.dropLast })

/-- `Pool::AppendNode`. -/
def appendNode (p : Pool) (node : Node) : Pool :=
  { p with numRanges := p.numRanges + 1, ranges := p.ranges ++ [node] }

/-- `Pool::InsertNodeAt`: insert before `it` and point at the new node. -/
def insertNodeAt (p : Pool) (node : Node) (it : Iter) : Iter × Pool :=
  (some node.ptr,
    { p with numRanges := p.numRanges + 1,
             ranges := NodeList.insertBefore Node.ptr node p.ranges it })

/-- `Pool::RemoveNodeAt`: unlink a node and return it. -/
def removeNodeAt (p : Pool) (it : Iter) : Iter × Pool :=
  match it with
  | none => (none, p)
  | some k =>
    (some k, { p with numRanges := p.numRanges - 1, ranges := NodeList.erase Node.ptr p.ranges k })

/-- `Pool::PopulateAsBookkeeping`: carve `[addr, addr + size)` into spare
nodes, returning the address after the last whole node. -/
def populateAsBookkeeping (p : Pool) (addr size : ℕ) : ℕ × Pool :=
  let count := size / kNodeSize
  let nodes := (List.range count).map fun i ↦ addr + i * kNodeSize
  (addr + count * kNodeSize, { p with unused := p.unused ++ nodes, carved := p.carved ++ nodes })

/-! ### Splitting and merging nodes -/

/-- The first half of `Pool::Coalesce`: merge the node before `it` into it
if they touch and have one type, returning its node to `unused_`. -/
def coalescePrev (p : Pool) (it : Iter) : Pool :=
  match p.node? (p.prevIt it), p.node? it with
  | some prev, some cur =>
    if prev.type = cur.type ∧ prev.endAddr = cur.addr then
      let p := p.setNode it fun n ↦ { n with addr := prev.addr, size := n.size + prev.size }
      let (removed, p) := p.removeNodeAt (some prev.ptr)
      p.pushUnused removed
    else p
  | _, _ => p

/-- The second half of `Pool::Coalesce`: the same with the node after `it`. -/
def coalesceNext (p : Pool) (it : Iter) : Pool :=
  match p.node? it, p.node? (p.nextIt it) with
  | some cur, some next =>
    if next.type = cur.type ∧ cur.endAddr = next.addr then
      let p := p.setNode it fun n ↦ { n with size := n.size + next.size }
      let (removed, p) := p.removeNodeAt (some next.ptr)
      p.pushUnused removed
    else p
  | _, _ => p

/-- `Pool::Coalesce`: merge into `it` its neighbours of the same type that
are directly adjacent. -/
def coalesce (p : Pool) (it : Iter) : Iter × Pool :=
  let p := if it ≠ p.begin then p.coalescePrev it else p
  (it, p.coalesceNext it)

/-- The splitting part of `Pool::InsertSubrange`, once `node` holds `range`
and `range` is a proper subrange of the node `it`, whose range is `cur`. -/
def splitAround (p : Pool) (it : Iter) (cur : Node) (range : Range) (node : Node) :
    Option Iter × Pool :=
  if cur.addr = range.addr then
    -- `range` is the head of the parent.
    let p := p.setNode it fun n ↦
      { n with addr := n.addr + range.size, size := n.size - range.size }
    let r := p.insertNodeAt node it
    (some r.1, r.2)
  else
    let containingEnd := cur.endAddr
    let next := p.nextIt it
    if range.endAddr = cur.endAddr then
      -- `range` is the tail of the parent.
      let p := p.setNode it fun n ↦ { n with size := n.size - range.size }
      let r := p.insertNodeAt node next
      (some r.1, r.2)
    else
      -- `range` is in the middle: a second node holds what follows it.
      let after : Range := ⟨range.endAddr, containingEnd - range.endAddr, cur.type⟩
      match p.newNode after with
      | (none, p) => (none, p)
      | (some afterNode, p) =>
        let p := p.setNode it fun n ↦ { n with size := range.addr - n.addr }
        let p := (p.insertNodeAt node next).2
        let p := (p.insertNodeAt afterNode next).2
        (some (p.nextIt it), p)

/-- `Pool::InsertSubrange`: give `range`, a subrange of the node `parent` (or
of the node containing it), its own node, splitting the parent in up to three.
-/
def insertSubrange (p : Pool) (range : Range) (parentIt : Option Iter) : Option Iter × Pool :=
  let it := parentIt.getD (p.findContainingRange range.addr range.size)
  match p.node? it with
  | none => (none, p)
  | some cur =>
    if cur.addr = range.addr ∧ cur.size = range.size then
      (some it, p.setNode it fun n ↦ { n with type := range.type })
    else
      match p.newNode range with
      | (none, p) => (none, p)
      | (some node, p) => p.splitAround it cur range node

/-! ### Finding free RAM -/

/-- What one pass of the first-fit loop of `Pool::FindAllocatable` does:
`continue`, `break`, or return an address. -/
inductive ScanStep
  | skip
  | stop
  | found (addr : UInt64)
  deriving DecidableEq, Repr

/-- The body of the first-fit loop of `Pool::FindAllocatable`, on one range. -/
def findAllocatableStep (size alignment minAddr maxAddr : UInt64) (range : Node) : ScanStep :=
  if range.type ≠ freeRam ∨ range.endAddr ≤ minAddr then .skip
  else if range.addr > maxAddr then .stop
  else
    -- Aligned past `UINT64_MAX` or the maximum address: so is every later range.
    match align (max range.addr minAddr) alignment with
    | none => .stop
    | some aligned =>
      if aligned > maxAddr - size + 1 then .stop
      else if aligned ≥ range.endAddr ∨ range.endAddr - aligned < size then .skip
      else .found aligned

/-- The first-fit loop of `Pool::FindAllocatable`. -/
def findAllocatableLoop (size alignment minAddr maxAddr : UInt64) : List Node → Option UInt64
  | [] => none
  | range :: rest =>
    match findAllocatableStep size alignment minAddr maxAddr range with
    | .skip => findAllocatableLoop size alignment minAddr maxAddr rest
    | .stop => none
    | .found addr => some addr

/-- `Pool::FindAllocatable`: the first aligned address of free RAM where `size`
bytes fit within `[minAddr, maxAddr]`. -/
def findAllocatable (p : Pool) (size alignment minAddr maxAddr : UInt64) : Option UInt64 :=
  if size - 1 > maxAddr - minAddr then none
  else findAllocatableLoop size alignment minAddr maxAddr p.ranges

/-- `Pool::TryToEnsureTwoBookkeepingNodes`: with fewer than two spare nodes,
carve a new chunk of bookkeeping out of free RAM, if there is one. -/
def tryToEnsureTwoBookkeepingNodes (p : Pool) : Pool :=
  if 2 ≤ p.unused.length then p
  else
    match p.findAllocatable kBookkeepingChunkSize kBookkeepingChunkSize p.defaultMinAddr
        p.defaultMaxAddr with
    | none => p
    | some addr =>
      let p := (p.populateAsBookkeeping addr.toNat kBookkeepingChunkSize.toNat).2
      match p.insertSubrange ⟨addr, kBookkeepingChunkSize, poolBookkeeping⟩ none with
      | (some it, p) => (p.coalesce it).2
      | (none, p) => p

/-! ### The public operations -/

/-- `Pool::Allocate`. -/
def allocate (p : Pool) (type : MemType) (size alignment : UInt64)
    (minAddr maxAddr : Option UInt64) : Option UInt64 × Pool :=
  let upperBound := maxAddr.getD p.defaultMaxAddr
  let lowerBound := minAddr.getD p.defaultMinAddr
  let p := p.tryToEnsureTwoBookkeepingNodes
  match p.findAllocatable size alignment lowerBound upperBound with
  | none => (none, p)
  | some addr =>
    match p.insertSubrange ⟨addr, size, type⟩ none with
    | (none, p) => (none, p)
    | (some it, p) => (some addr, (p.coalesce it).2)

/-- `Pool::Free`. -/
def free (p : Pool) (addr size : UInt64) : Option Unit × Pool :=
  if size = 0 then (some (), p)
  else
    let it := p.findContainingRange addr size
    match p.node? it with
    | none => (none, p)
    | some cur =>
      -- Double-freeing is a no-op.
      if cur.type = freeRam then (some (), p)
      else
        let p := p.tryToEnsureTwoBookkeepingNodes
        match p.insertSubrange ⟨addr, size, freeRam⟩ (some it) with
        | (none, p) => (none, p)
        | (some it, p) => (some (), (p.coalesce it).2)

/-- Move `spillover` bytes of the free node `next` into the node `it` that
precedes it, unlinking `next` when it is drained. -/
def spillIntoNext (p : Pool) (it next : Iter) (nextNode : Node) (spillover : UInt64) : Pool :=
  let p :=
    if nextNode.size = spillover then (p.removeNodeAt next).2
    else p.setNode next fun n ↦ { n with addr := n.addr + spillover, size := n.size - spillover }
  p.setNode it fun n ↦ { n with size := n.size + spillover }

/-- The last resort of `Pool::Resize`: allocate anew, then free the original. -/
def resizeByReallocating (p : Pool) (original : Range) (newSize minAlignment : UInt64) :
    Option UInt64 × Pool :=
  match p.allocate original.type newSize minAlignment none none with
  | (none, p) => (none, p)
  | (some newAddr, p) =>
    match p.free original.addr original.size with
    | (none, p) => (none, p)
    | (some _, p) => (some newAddr, p)

/-- `Pool::Resize` once `original` has to grow and cannot within its own
node and the free node after it (whose end is `wiggleRoomEnd`): grow into a
free node before it, else reallocate. -/
def resizeIntoPrev (p : Pool) (original : Range) (newSize minAlignment : UInt64) (it : Iter)
    (wiggleRoomEnd : UInt64) : Option UInt64 × Pool :=
  let need := newSize - (wiggleRoomEnd - original.addr)
  let prev := if it = p.begin then none else p.prevIt it
  let next := p.nextIt it
  match p.node? prev, p.node? it with
  | some prevNode, some cur =>
    if prevNode.endAddr = cur.addr ∧ prevNode.type = freeRam ∧ prevNode.size ≥ need ∧
        cur.addr = original.addr then
      let newAddr := (prevNode.endAddr - need) &&& (0 - (minAlignment - 1))
      if newAddr ≥ prevNode.addr ∧ original.addr - newAddr < newSize then
        let prevSpillover := original.addr - newAddr
        let p :=
          if prevNode.size = prevSpillover then (p.removeNodeAt prev).2
          else p.setNode prev fun n ↦ { n with size := n.size - prevSpillover }
        let p := p.setNode it fun n ↦
          { n with addr := n.addr - prevSpillover, size := n.size + prevSpillover }
        let newEnd := newAddr + newSize
        if newEnd > original.endAddr then
          match p.node? next with
          | some nextNode =>
            (some newAddr, p.spillIntoNext it next nextNode (newEnd - original.endAddr))
          | none => (some newAddr, p)
        else if newEnd < original.endAddr then
          match p.free newEnd (original.endAddr - newEnd) with
          | (none, p) => (none, p)
          | (some _, p) => (some newAddr, p)
        else (some newAddr, p)
      else p.resizeByReallocating original newSize minAlignment
    else p.resizeByReallocating original newSize minAlignment
  | _, _ => p.resizeByReallocating original newSize minAlignment

/-- `Pool::Resize`. -/
def resize (p : Pool) (original : Range) (newSize minAlignment : UInt64) :
    Option UInt64 × Pool :=
  let it := p.findContainingRange original.addr original.size
  match p.node? it with
  | none => (none, p)
  | some _ =>
    if newSize = original.size then (some original.addr, p)
    else if newSize < original.size then
      -- Smaller: free the tail.
      match p.free (original.addr + newSize) (original.size - newSize) with
      | (none, p) => (none, p)
      | (some _, p) => (some original.addr, p)
    else
      let next := p.nextIt it
      match p.node? next with
      | some nextNode =>
        if original.endAddr = nextNode.addr ∧ nextNode.type = freeRam then
          let wiggleRoomEnd := nextNode.endAddr
          if wiggleRoomEnd - original.addr ≥ newSize then
            -- Extend in place.
            (some original.addr, p.spillIntoNext it next nextNode (newSize - original.size))
          else p.resizeIntoPrev original newSize minAlignment it wiggleRoomEnd
        else p.resizeIntoPrev original newSize minAlignment it original.endAddr
      | none => p.resizeIntoPrev original newSize minAlignment it original.endAddr

/-- The loop of `Pool::UpdateRamSubranges` from the node `it`, for at most
`fuel` nodes. -/
def updateRamSubrangesLoop (type : MemType) (addr size : UInt64) :
    ℕ → Iter → Pool → Option Unit × Pool
  | 0, _, p => (some (), p)
  | fuel + 1, it, p =>
    match p.node? it with
    | none => (some (), p)
    | some cur =>
      if addr + size > cur.addr then
        if addr < cur.endAddr ∧ isRamType cur.type then
          let first := max cur.addr addr
          let last := min cur.endAddr (addr + size)
          match p.insertSubrange ⟨first, last - first, type⟩ (some it) with
          | (none, p) => (none, p)
          | (some it, p) =>
            let (it, p) := p.coalesce it
            updateRamSubrangesLoop type addr size fuel (p.nextIt it) p
        else updateRamSubrangesLoop type addr size fuel (p.nextIt it) p
      else (some (), p)

/-- `Pool::UpdateRamSubranges`.  Each pass of the loop moves past a node of
the list as it was on entry, so one pass more than it has nodes suffices. -/
def updateRamSubranges (p : Pool) (type : MemType) (addr size : UInt64) : Option Unit × Pool :=
  if size = 0 then (some (), p)
  else
    let p := p.tryToEnsureTwoBookkeepingNodes
    updateRamSubrangesLoop type addr size (p.ranges.length + 1) p.begin p

/-- The loop of `Pool::TruncateTotalRam` from the node `it` with the capacity
left, for at most `fuel` nodes. -/
def truncateTotalRamLoop : ℕ → UInt64 → Iter → Pool → Option Unit × Pool
  | 0, _, _, p => (some (), p)
  | fuel + 1, capacity, it, p =>
    match p.node? it with
    | none => (some (), p)
    | some cur =>
      if !isRamType cur.type ∨ cur.type = nvram then
        truncateTotalRamLoop fuel capacity (p.nextIt it) p
      else if cur.size ≤ capacity then
        truncateTotalRamLoop fuel (capacity - cur.size) (p.nextIt it) p
      else
        let start := cur.addr + capacity
        match p.insertSubrange ⟨start, cur.endAddr - start, truncatedRam⟩ (some it) with
        | (none, p) => (none, p)
        | (some it, p) =>
          let (it, p) := p.coalesce it
          truncateTotalRamLoop fuel 0 (p.nextIt it) p

/-- `Pool::TruncateTotalRam`. -/
def truncateTotalRam (p : Pool) (newCapacityBytes : UInt64) : Option Unit × Pool :=
  truncateTotalRamLoop (p.ranges.length + 1) newCapacityBytes p.begin p

/-! ### Peripheral ranges -/

/-- The first loop of `Pool::MarkAsPeripheral`: the first range intersecting
`range`, else the greatest range below it; `none` if the first intersecting
range is not peripheral. -/
def markLowerBound (range : Range) : List Node → Iter → Option Iter
  | [], lowerBound => some lowerBound
  | n :: rest, lowerBound =>
    if n.intersectsWith range then
      if n.type ≠ peripheral then none else some (some n.ptr)
    else if !n.lt range then some lowerBound
    else markLowerBound range rest (some n.ptr)

/-- The second loop of `Pool::MarkAsPeripheral`, over the nodes from the lower
bound on: the first range above `range`; `none` if a range intersecting
`range` on the way is not peripheral. -/
def markUpperBound (range : Range) : List Node → Option Iter
  | [] => some none
  | n :: rest =>
    if n.intersectsWith range then
      if n.type ≠ peripheral then none else markUpperBound range rest
    else if range.lt n.toRange then some (some n.ptr)
    else markUpperBound range rest

/-- `std::find_if` over the nodes from the lower bound up to `upperBound`. -/
def firstIntersecting (range : Range) (upperBound : Iter) : List Node → Iter
  | [] => none
  | n :: rest =>
    if some n.ptr = upperBound then upperBound
    else if range.intersectsWith n.toRange then some n.ptr
    else firstIntersecting range upperBound rest

/-- The nodes strictly after `first`, up to `upperBound`. -/
def nodesBetween (first : ℕ) (upperBound : Iter) (nodes : List Node) : List Node :=
  ((nodes.dropWhile fun n ↦ n.ptr ≠ first).drop 1).takeWhile fun n ↦ some n.ptr ≠ upperBound

/-- The `merge_ranges` lambda: grow the node to cover `range` too. -/
def mergeRanges (acc : Node) (range : Range) : Node :=
  let accEnd := acc.endAddr
  let addr := min acc.addr range.addr
  { acc with addr := addr, size := max accEnd range.endAddr - addr }

/-- The `insert_range_at` lambda of `Pool::MarkAsPeripheral`. -/
def insertRangeAt (p : Pool) (range : Range) (it : Iter) : Option Unit × Pool :=
  match p.newNode range with
  | (none, p) => (none, p)
  | (some node, p) =>
    let p := p.tryToEnsureTwoBookkeepingNodes
    let r := p.insertNodeAt node it
    (some (), (r.2.coalesce r.1).2)

/-- `Pool::MarkAsPeripheral`. -/
def markAsPeripheral (p : Pool) (range : Range) : Option Unit × Pool :=
  if range.size = 0 then (some (), p)
  else
    match markLowerBound range p.ranges none with
    | none => (none, p)
    | some lowerBound =>
      let fromLower := NodeList.dropUntil Node.ptr p.ranges lowerBound
      match markUpperBound range fromLower with
      | none => (none, p)
      | some upperBound =>
        match lowerBound with
        | none => p.insertRangeAt range p.begin
        | some lb =>
          match firstIntersecting range upperBound fromLower with
          | none => p.insertRangeAt range (p.nextIt (some lb))
          | some first =>
            match p.node? (some first) with
            | none => p.insertRangeAt range (p.nextIt (some lb))
            | some firstNode =>
              if !firstNode.intersectsWith range then p.insertRangeAt range (p.nextIt (some lb))
              else
                let p := p.setNode (some first) fun n ↦ mergeRanges n range
                -- Merge the other intersecting ranges in, unlinking their nodes.
                let p := (nodesBetween first upperBound p.ranges).foldl
                  (fun p n ↦
                    let p := p.setNode (some first) fun acc ↦ mergeRanges acc n.toRange
                    (p.removeNodeAt (some n.ptr)).2) p
                (some (), (p.coalesce (some first)).2)

/-- `fbl::round_down` to a power of two. -/
def roundDown (x alignment : UInt64) : UInt64 :=
  x &&& ~~~(alignment - 1)

/-- `fbl::round_up` to a power of two. -/
def roundUp (x alignment : UInt64) : UInt64 :=
  (x + (alignment - 1)) &&& ~~~(alignment - 1)

/-- The alignment loop of `Pool::CoalescePeripherals`: the first alignment that
keeps the inflated run within its neighbours, else the run's own bounds. -/
def chooseAlignment (minBase maxBase minEnd maxEnd : UInt64) : List ℕ → UInt64 × UInt64
  | [] => (minBase, minEnd)
  | a :: rest =>
    let alignment : UInt64 := 1 <<< a.toUInt64
    let base := roundDown maxBase alignment
    let endAddr := roundUp minEnd alignment
    if base < minBase ∨ endAddr > maxEnd then chooseAlignment minBase maxBase minEnd maxEnd rest
    else (base, endAddr)

/-- The last node of the run of peripheral nodes that starts at `curr`. -/
def lastPeripheral (curr : Node) : List Node → Node
  | [] => curr
  | n :: rest => if n.type ≠ peripheral then curr else lastPeripheral n rest

/-- The loop of `Pool::CoalescePeripherals` from the node `curr`, after the
non-peripheral node `prev`, for at most `fuel` nodes. -/
def coalescePeripheralsLoop (alignments : List ℕ) : ℕ → Iter → Iter → Pool → Option Unit × Pool
  | 0, _, _, p => (some (), p)
  | fuel + 1, curr, prev, p =>
    match p.node? curr with
    | none => (some (), p)
    | some currNode =>
      if currNode.type ≠ peripheral then
        coalescePeripheralsLoop alignments fuel (p.nextIt curr) curr p
      else
        let last := lastPeripheral currNode
          ((NodeList.dropUntil Node.ptr p.ranges curr).drop 1)
        let minBaseAddr := match p.node? prev with
          | none => 0
          | some prevNode => prevNode.endAddr
        let next := p.nextIt (some last.ptr)
        let maxEndAddress := match p.node? next with
          | none => kMax
          | some nextNode => nextNode.addr
        let (base, endAddr) :=
          chooseAlignment minBaseAddr currNode.addr last.endAddr maxEndAddress alignments
        match p.markAsPeripheral ⟨base, endAddr - base, peripheral⟩ with
        | (none, p) => (none, p)
        | (some _, p) => coalescePeripheralsLoop alignments fuel next prev p

/-- `Pool::CoalescePeripherals`. -/
def coalescePeripherals (p : Pool) (alignments : List ℕ) : Option Unit × Pool :=
  coalescePeripheralsLoop alignments (p.ranges.length + 1) p.begin none p

/-! ### Initialization -/

/-- The `find_bookkeeping` lambda of `Pool::Init`: the first normalized RAM
range with room for the bookkeeping within `[minAddr, maxAddr)`. -/
def findBookkeeping (minAddr maxAddr bookkeepingSize : UInt64) (found : Option UInt64)
    (range : Range) : Bool × Option UInt64 :=
  let start := max range.addr minAddr
  let endAddr := min range.endAddr maxAddr
  match align start kBookkeepingChunkSize with
  | none => (true, found)
  | some alignedStart =>
    if alignedStart ≥ endAddr ∨ endAddr - alignedStart < bookkeepingSize then (true, found)
    else (false, some alignedStart)

/-- The `process_range` lambda of `Pool::Init`: a node for each normalized
range but the reserved ones; the flag records an allocation failure. -/
def processRange (state : Pool × Bool) (range : Range) : Bool × (Pool × Bool) :=
  if range.type = reserved then (true, state)
  else
    match state.1.newNode range with
    | (none, p) => (false, (p, true))
    | (some node, p) => (true, (p.appendNode node, state.2))

/-- `Pool::Init` on a default-constructed pool, for the spans of ranges given. -/
def init (sort : SortFn) (spans : List (List Range)) (minAddr maxAddr : UInt64) :
    Option Unit × Pool :=
  let ranges := rangeStream sort spans
  let n := ranges.length
  let scratchSize := findNormalizedRangesScratchSize n * kPointerSize
  let bookkeepingSize :=
    (align (UInt64.ofNat (n * kNodeSize + scratchSize)) kBookkeepingChunkSize).getD 0
  match findNormalizedRamRanges (findBookkeeping minAddr maxAddr bookkeepingSize) ranges none with
  | none => (none, empty)
  | some bookkeepingAddr =>
    let ptr := bookkeepingAddr.toNat
    let bookkeepingEnd := ptr + bookkeepingSize.toNat
    -- The tail of the bookkeeping is the scratch space of the sweep until it is done.
    let (ptr, p) := empty.populateAsBookkeeping ptr (bookkeepingSize.toNat - scratchSize)
    match findNormalizedRanges processRange sort ranges (p, false) with
    | (none, (p, _)) => (none, p)
    | (some _, (p, true)) => (none, p)
    | (some _, (p, false)) =>
      let (_, p) := p.populateAsBookkeeping ptr (bookkeepingEnd - ptr)
      match p.insertSubrange ⟨bookkeepingAddr, bookkeepingSize, poolBookkeeping⟩ none with
      | (none, p) => (none, p)
      | (some _, p) => (some (), { p with defaultMinAddr := minAddr, defaultMaxAddr := maxAddr })

end Pool

end Zircon.Memalloc
