import Mathlib
import Zircon.Lib.NodeList
import Zircon.Lib.StdAlgorithm
import Zircon.Memalloc.Pool

/-!
# Runs of the memory pool

A run starts from a pool that `Pool::Init` accepted and applies the public
operations, each within the preconditions its `ZX_ASSERT`s and documentation
state, whatever it returns.  Two properties of the reachable pools and the
address `Resize` returns are examined.

* The header states as an invariant of `ranges_` that its ranges are sorted,
  disjoint, maximally contiguous and free of overflow.  `Resize`, when it
  grows a range into the whole of the free range after it, unlinks that node
  and stops: the grown range can then touch a range of its own type without
  being merged with it.
* Nodes move between `ranges_` and `unused_`.  `Coalesce` returns the nodes
  it unlinks to `unused_`, but `Resize` and the merge loop of
  `MarkAsPeripheral` unlink nodes with `RemoveNodeAt` alone, and
  `InsertSubrange` drops the node it popped when a second one is missing:
  such nodes are in neither list ever after.
* `Resize`, growing a range into the free range before it, rounds the new
  start down with the mask `-(min_alignment - 1)`, which keeps bit 0: an odd
  candidate start stays odd, and the result is not aligned.
-/

namespace Zircon.Memalloc

open Zircon.Lib MemType

/-! ### The representation invariant -/

/-- No two neighbours of the same type touch. -/
def MaximallyCoalesced (rs : List Range) : Prop :=
  rs.IsChain fun a b ↦ ¬(a.type = b.type ∧ a.endAddr = b.addr)

instance : DecidablePred MaximallyCoalesced :=
  fun rs ↦ inferInstanceAs (Decidable (rs.IsChain _))

/-- The invariant the header states for `ranges_`, and that `num_ranges_`
counts it. -/
def PoolInvariant (p : Pool) : Prop :=
  (p.ranges.map Node.toRange).Pairwise (fun a b ↦ a.lt b = true ∧ a.intersectsWith b = false) ∧
    (∀ n ∈ p.ranges, 0 < n.size ∧ n.addr.toNat + n.size.toNat ≤ 2 ^ 64 - 1 ∧
      n.type ≠ reserved) ∧
    MaximallyCoalesced (p.ranges.map Node.toRange) ∧
    p.numRanges = p.ranges.length

instance : DecidablePred PoolInvariant :=
  fun p ↦ inferInstanceAs (Decidable (_ ∧ _ ∧ _ ∧ p.numRanges = p.ranges.length))

/-- The nodes the pool holds: those of `ranges_`, then those of `unused_`. -/
def Pool.nodes (p : Pool) : List ℕ :=
  p.ranges.map Node.ptr ++ p.unused

/-- Every node carved so far is in exactly one of the two lists. -/
def NodesConserved (p : Pool) : Prop :=
  p.nodes.Perm p.carved

instance : DecidablePred NodesConserved :=
  fun p ↦ inferInstanceAs (Decidable (p.nodes.Perm p.carved))

/-! ### Runs -/

/-- The public operations of `Pool` after `Init`, with their arguments. -/
inductive PoolOp
  | allocate (type : MemType) (size alignment : UInt64) (minAddr maxAddr : Option UInt64)
  | free (addr size : UInt64)
  | resize (original : Range) (newSize minAlignment : UInt64)
  | updateRamSubranges (type : MemType) (addr size : UInt64)
  | truncateTotalRam (newCapacityBytes : UInt64)
  | markAsPeripheral (range : Range)
  | coalescePeripherals (alignments : List ℕ)
  deriving DecidableEq, Repr

/-- `std::has_single_bit`. -/
def hasSingleBit (x : UInt64) : Bool :=
  x != 0 && (x &&& (x - 1)) == 0

/-- Whether the tracked range containing `[addr, addr + size)` satisfies `ok`. -/
def Pool.containedIn (p : Pool) (addr size : UInt64) (ok : MemType → Bool) : Bool :=
  match p.node? (p.findContainingRange addr size) with
  | some n => ok n.type
  | none => false

namespace PoolOp

/-- The preconditions of each operation: its `ZX_ASSERT`s and `ZX_DEBUG_ASSERT`s
and what its documentation requires of the caller. -/
def admissible (p : Pool) : PoolOp → Bool
  | allocate type size alignment minAddr maxAddr =>
    isAllocatedType type && 0 < size && hasSingleBit alignment &&
      minAddr.getD p.defaultMinAddr ≤ maxAddr.getD p.defaultMaxAddr
  | free addr size =>
    size ≤ kMax - addr &&
      (size == 0 || p.containedIn addr size fun t ↦
        t == freeRam || (isAllocatedType t && t != poolBookkeeping))
  | resize original newSize minAlignment =>
    0 < newSize && isAllocatedType original.type && hasSingleBit minAlignment &&
      original.addr % minAlignment == 0 &&
      p.containedIn original.addr original.size (· == original.type)
  | updateRamSubranges type addr size => isAllocatedType type && size ≤ kMax - addr
  | truncateTotalRam _ => true
  | markAsPeripheral range => range.type == peripheral
  | coalescePeripherals alignments => alignments.all (· < 64)

/-- The pool an operation leaves, whatever it returns. -/
def apply (p : Pool) : PoolOp → Pool
  | allocate type size alignment minAddr maxAddr =>
    (p.allocate type size alignment minAddr maxAddr).2
  | free addr size => (p.free addr size).2
  | resize original newSize minAlignment => (p.resize original newSize minAlignment).2
  | updateRamSubranges type addr size => (p.updateRamSubranges type addr size).2
  | truncateTotalRam newCapacityBytes => (p.truncateTotalRam newCapacityBytes).2
  | markAsPeripheral range => (p.markAsPeripheral range).2
  | coalescePeripherals alignments => (p.coalescePeripherals alignments).2

end PoolOp

/-- One admissible operation. -/
inductive PoolStep (p : Pool) : Pool → Prop
  | run (op : PoolOp) (h : op.admissible p = true) : PoolStep p (op.apply p)

/-- The pools reachable from one that `Pool::Init` accepted, `std::sort`
being `sort`. -/
def PoolReachable (sort : SortFn) (p : Pool) : Prop :=
  ∃ spans minAddr maxAddr p₀, Pool.init sort spans minAddr maxAddr = (some (), p₀) ∧
    Relation.ReflTransGen PoolStep p₀ p

theorem poolReachable_init {sort : SortFn} {spans : List (List Range)} {minAddr maxAddr : UInt64}
    {p : Pool} (h : Pool.init sort spans minAddr maxAddr = (some (), p)) : PoolReachable sort p :=
  ⟨spans, minAddr, maxAddr, p, h, .refl⟩

theorem PoolReachable.step {sort : SortFn} {p : Pool} (hp : PoolReachable sort p) {op : PoolOp}
    (hop : op.admissible p = true) : PoolReachable sort (op.apply p) := by
  obtain ⟨spans, minAddr, maxAddr, p₀, hinit, hrun⟩ := hp
  exact ⟨spans, minAddr, maxAddr, p₀, hinit, hrun.tail (.run op hop)⟩

/-! ### What the list primitives do to the nodes -/

namespace Pool

variable {p : Pool}

theorem map_ptr_modify (l : List Node) (k : ℕ) {f : Node → Node} (hf : ∀ n, (f n).ptr = n.ptr) :
    (NodeList.modify Node.ptr l k f).map Node.ptr = l.map Node.ptr :=
  NodeList.map_modify hf

theorem map_ptr_setNode (it : Iter) {f : Node → Node} (hf : ∀ n, (f n).ptr = n.ptr) :
    (p.setNode it f).ranges.map Node.ptr = p.ranges.map Node.ptr := by
  cases it <;> simp [setNode, map_ptr_modify _ _ hf]

theorem nodes_setNode (it : Iter) {f : Node → Node} (hf : ∀ n, (f n).ptr = n.ptr) :
    (p.setNode it f).nodes = p.nodes := by
  cases it <;> simp [setNode, nodes, map_ptr_modify _ _ hf]

theorem mem_map_ptr_of_node? {it : Iter} {n : Node} (h : p.node? it = some n) :
    n.ptr ∈ p.ranges.map Node.ptr := by
  cases it with
  | none => cases h
  | some k =>
    exact List.mem_map.mpr ⟨n, List.mem_of_find?_eq_some h, rfl⟩

theorem nodes_pushUnused_removeNodeAt {k : ℕ} (hk : k ∈ p.ranges.map Node.ptr) :
    ((p.removeNodeAt (some k)).2.pushUnused (p.removeNodeAt (some k)).1).nodes.Perm p.nodes := by
  simp only [removeNodeAt, pushUnused, nodes]
  have hmove : ((NodeList.erase Node.ptr p.ranges k).map Node.ptr ++ (p.unused ++ [k])).Perm
      (k :: (NodeList.erase Node.ptr p.ranges k).map Node.ptr ++ p.unused) := by
    rw [← List.append_assoc]
    exact List.perm_append_singleton _ _
  have hback : (k :: (NodeList.erase Node.ptr p.ranges k).map Node.ptr).Perm
      (p.ranges.map Node.ptr) :=
    ((NodeList.perm_erase hk).symm.cons k).trans (List.perm_cons_erase hk).symm
  exact hmove.trans (hback.append_right _)

theorem nodes_merge {it : Iter} {k : ℕ} {f : Node → Node} (hf : ∀ n, (f n).ptr = n.ptr)
    (hk : k ∈ p.ranges.map Node.ptr) :
    (((p.setNode it f).removeNodeAt (some k)).2.pushUnused
      ((p.setNode it f).removeNodeAt (some k)).1).nodes.Perm p.nodes := by
  have hk' : k ∈ (p.setNode it f).ranges.map Node.ptr := by rwa [map_ptr_setNode it hf]
  exact (nodes_pushUnused_removeNodeAt hk').trans (by rw [nodes_setNode it hf])

theorem nodes_coalescePrev (it : Iter) : (p.coalescePrev it).nodes.Perm p.nodes := by
  unfold coalescePrev
  split
  · rename_i prev cur hprev _
    split_ifs
    · exact nodes_merge (fun _ ↦ rfl) (mem_map_ptr_of_node? hprev)
    · rfl
  · rfl

theorem nodes_coalesceNext (it : Iter) : (p.coalesceNext it).nodes.Perm p.nodes := by
  unfold coalesceNext
  split
  · rename_i cur next _ hnext
    split_ifs
    · exact nodes_merge (fun _ ↦ rfl) (mem_map_ptr_of_node? hnext)
    · rfl
  · rfl

theorem newNode_eq_none {range : Range} {q : Pool} (h : p.newNode range = (none, q)) : q = p := by
  unfold newNode at h
  split at h <;> simp_all

theorem nodes_newNode {range : Range} {node : Node} {q : Pool}
    (h : p.newNode range = (some node, q)) :
    (node.ptr :: q.nodes).Perm p.nodes ∧ q.carved = p.carved := by
  unfold newNode at h
  split at h
  · cases h
  · rename_i ptr hlast
    simp only [Prod.mk.injEq, Option.some.injEq] at h
    obtain ⟨rfl, rfl⟩ := h
    refine ⟨?_, rfl⟩
    simp only [nodes]
    calc (ptr :: (p.ranges.map Node.ptr ++ p.unused.dropLast)).Perm
          (p.ranges.map Node.ptr ++ (p.unused.dropLast ++ [ptr])) := by
          rw [← List.append_assoc]
          exact (List.perm_append_singleton _ _).symm
      _ = p.ranges.map Node.ptr ++ p.unused := by rw [List.dropLast_append_getLast? ptr hlast]

theorem nodes_insertNodeAt (node : Node) (it : Iter) :
    (p.insertNodeAt node it).2.nodes.Perm (node.ptr :: p.nodes) := by
  simp only [insertNodeAt, nodes]
  exact (NodeList.perm_insertBefore node p.ranges it).append_right _

theorem splitAround_cases (it : Iter) (cur : Node) (range : Range) (node : Node) :
    ((p.splitAround it cur range node).1.isSome ∧
        (p.splitAround it cur range node).2.nodes.Perm (node.ptr :: p.nodes)) ∨
      ((p.splitAround it cur range node).1 = none ∧ (p.splitAround it cur range node).2 = p) := by
  unfold splitAround
  split_ifs with hhead htail
  · left
    refine ⟨rfl, (nodes_insertNodeAt node it).trans ?_⟩
    rw [nodes_setNode]
    intro; rfl
  · left
    refine ⟨rfl, (nodes_insertNodeAt node _).trans ?_⟩
    rw [nodes_setNode]
    intro; rfl
  · dsimp only
    split
    · rename_i q hq
      exact .inr ⟨rfl, newNode_eq_none hq⟩
    · -- The middle split links both popped nodes.
      rename_i afterNode q hq
      left
      refine ⟨rfl, ?_⟩
      obtain ⟨hpop, -⟩ := nodes_newNode hq
      refine (nodes_insertNodeAt afterNode _).trans ?_
      refine ((nodes_insertNodeAt node _).cons _).trans ?_
      rw [nodes_setNode]
      · exact (List.Perm.swap _ _ _).trans (hpop.cons _)
      · intro; rfl

theorem insertSubrange_cases (range : Range) (parentIt : Option Iter) :
    ((p.insertSubrange range parentIt).1.isSome ∧
        (p.insertSubrange range parentIt).2.nodes.Perm p.nodes) ∨
      ((p.insertSubrange range parentIt).1 = none ∧ (p.insertSubrange range parentIt).2 = p) ∨
      ((p.insertSubrange range parentIt).1 = none ∧
        ∃ k, (k :: (p.insertSubrange range parentIt).2.nodes).Perm p.nodes) := by
  unfold insertSubrange
  dsimp only
  split
  · exact .inr (.inl ⟨rfl, rfl⟩)
  · split_ifs
    · refine .inl ⟨rfl, ?_⟩
      rw [nodes_setNode]
      intro; rfl
    · split
      · rename_i q hq
        exact .inr (.inl ⟨rfl, newNode_eq_none hq⟩)
      · rename_i node q hq
        obtain ⟨hpop, -⟩ := nodes_newNode hq
        rcases splitAround_cases (p := q) _ _ range node with ⟨hs, hn⟩ | ⟨hn, heq⟩
        · exact .inl ⟨hs, hn.trans hpop⟩
        · refine .inr (.inr ⟨hn, node.ptr, ?_⟩)
          rw [heq]
          exact hpop

end Pool

/-! ### Two runs -/

/-- Free RAM, which takes the bookkeeping, then a payload range, one page of
free RAM, and a second payload range right after that page. -/
def payloadGapSpans : List (List Range) :=
  [[⟨0x10000, 0x10000, freeRam⟩, ⟨0x30000, 0x1000, poolTestPayload⟩,
    ⟨0x31000, 0x1000, freeRam⟩, ⟨0x32000, 0x1000, poolTestPayload⟩]]

/-- The pool `Init` makes of `payloadGapSpans`. -/
def payloadGapPool : Pool :=
  (Pool.init insertionSortBy payloadGapSpans kDefaultMinAddr kDefaultMaxAddr).2

/-- Grow the first payload range over the page of free RAM after it. -/
def growFirstPayload : PoolOp :=
  .resize ⟨0x30000, 0x1000, poolTestPayload⟩ 0x2000 0x1000

theorem resize_grown_payload_not_coalesced :
    Pool.init insertionSortBy payloadGapSpans kDefaultMinAddr kDefaultMaxAddr =
        (some (), payloadGapPool) ∧ PoolInvariant payloadGapPool ∧
      growFirstPayload.admissible payloadGapPool = true ∧
      PoolReachable insertionSortBy (growFirstPayload.apply payloadGapPool) ∧
      (growFirstPayload.apply payloadGapPool).ranges.map Node.toRange =
        [⟨0x10000, 0x1000, poolBookkeeping⟩, ⟨0x11000, 0xF000, freeRam⟩,
          ⟨0x30000, 0x2000, poolTestPayload⟩, ⟨0x32000, 0x1000, poolTestPayload⟩] ∧
      ¬PoolInvariant (growFirstPayload.apply payloadGapPool) := by
  have hinit : Pool.init insertionSortBy payloadGapSpans kDefaultMinAddr kDefaultMaxAddr =
      (some (), payloadGapPool) := Prod.ext (by decide) rfl
  have hadm : growFirstPayload.admissible payloadGapPool = true := by decide
  exact ⟨hinit, by decide, hadm, (poolReachable_init hinit).step hadm, by decide, by decide⟩

/-- Free RAM for the bookkeeping, then two peripheral ranges a page apart. -/
def peripheralPairSpans : List (List Range) :=
  [[⟨0x10000, 0x10000, freeRam⟩, ⟨0x40000, 0x1000, peripheral⟩, ⟨0x42000, 0x1000, peripheral⟩]]

/-- The pool `Init` makes of `peripheralPairSpans`. -/
def peripheralPairPool : Pool :=
  (Pool.init insertionSortBy peripheralPairSpans kDefaultMinAddr kDefaultMaxAddr).2

/-- Mark the peripheral span over both ranges and the page between them. -/
def markPeripheralSpan : PoolOp :=
  .markAsPeripheral ⟨0x40000, 0x3000, peripheral⟩

theorem markAsPeripheral_merged_node_lost :
    Pool.init insertionSortBy peripheralPairSpans kDefaultMinAddr kDefaultMaxAddr =
        (some (), peripheralPairPool) ∧ NodesConserved peripheralPairPool ∧
      markPeripheralSpan.admissible peripheralPairPool = true ∧
      PoolReachable insertionSortBy (markPeripheralSpan.apply peripheralPairPool) ∧
      (peripheralPairPool.markAsPeripheral ⟨0x40000, 0x3000, peripheral⟩).1 = some () ∧
      (markPeripheralSpan.apply peripheralPairPool).nodes.length + 1 =
        (markPeripheralSpan.apply peripheralPairPool).carved.length ∧
      ¬NodesConserved (markPeripheralSpan.apply peripheralPairPool) := by
  have hinit : Pool.init insertionSortBy peripheralPairSpans kDefaultMinAddr kDefaultMaxAddr =
      (some (), peripheralPairPool) := Prod.ext (by decide) rfl
  have hadm : markPeripheralSpan.admissible peripheralPairPool = true := by decide
  exact ⟨hinit, by decide, hadm, (poolReachable_init hinit).step hadm, by decide, by decide,
    by decide⟩

/-- Free RAM for the bookkeeping and a free range, then a payload page right after it. -/
def prevFreeSpans : List (List Range) :=
  [[⟨0x10000, 0x10000, freeRam⟩, ⟨0x20000, 0x1000, poolTestPayload⟩]]

/-- The pool `Init` makes of `prevFreeSpans`. -/
def prevFreePool : Pool :=
  (Pool.init insertionSortBy prevFreeSpans kDefaultMinAddr kDefaultMaxAddr).2

/-- Grow the payload page by one byte, page aligned: nothing follows it, so
`Resize` grows it into the free range before it. -/
def growByOneByte : PoolOp :=
  .resize ⟨0x20000, 0x1000, poolTestPayload⟩ 0x1001 0x1000

theorem resize_intoPrev_misaligned :
    Pool.init insertionSortBy prevFreeSpans kDefaultMinAddr kDefaultMaxAddr =
        (some (), prevFreePool) ∧ PoolInvariant prevFreePool ∧
      growByOneByte.admissible prevFreePool = true ∧
      (prevFreePool.resize ⟨0x20000, 0x1000, poolTestPayload⟩ 0x1001 0x1000).1 = some 0x1F001 ∧
      0x1F001 % (0x1000 : UInt64) ≠ 0 := by
  have hinit : Pool.init insertionSortBy prevFreeSpans kDefaultMinAddr kDefaultMaxAddr =
      (some (), prevFreePool) := Prod.ext (by decide) rfl
  exact ⟨hinit, by decide, by decide, by decide, by decide⟩

/-- One free range and a single spare node: the next `NewNode` leaves fewer
than two, so `TryToEnsureTwoBookkeepingNodes` carves its chunk. -/
def lastSparePool : Pool :=
  ⟨[⟨⟨0x10000, 0x10000, freeRam⟩, 0x1000⟩], [0x1028], 1, kDefaultMinAddr, kDefaultMaxAddr,
    [0x1000, 0x1028]⟩

/-- Mark a peripheral page below every tracked range. -/
def markLowPeripheral : PoolOp :=
  .markAsPeripheral ⟨0x8000, 0x1000, peripheral⟩

-- `insert_range_at` takes its iterator before `TryToEnsureTwoBookkeepingNodes`
-- carves the head of that very range, so the new node lands after the chunk.
theorem markAsPeripheral_inserted_after_chunk :
    PoolInvariant lastSparePool ∧ NodesConserved lastSparePool ∧
      markLowPeripheral.admissible lastSparePool = true ∧
      (lastSparePool.markAsPeripheral ⟨0x8000, 0x1000, peripheral⟩).1 = some () ∧
      (markLowPeripheral.apply lastSparePool).ranges.map Node.toRange =
        [⟨0x10000, 0x1000, poolBookkeeping⟩, ⟨0x8000, 0x1000, peripheral⟩,
          ⟨0x11000, 0xF000, freeRam⟩] ∧
      ¬PoolInvariant (markLowPeripheral.apply lastSparePool) :=
  ⟨by decide, by decide, by decide, by decide, by decide, by decide⟩

/-- Free RAM for the bookkeeping, then a peripheral page a gap above it. -/
def gapPeripheralSpans : List (List Range) :=
  [[⟨0x10000, 0x10000, freeRam⟩, ⟨0x30000, 0x1000, peripheral⟩]]

/-- The pool `Init` makes of `gapPeripheralSpans`. -/
def gapPeripheralPool : Pool :=
  (Pool.init insertionSortBy gapPeripheralSpans kDefaultMinAddr kDefaultMaxAddr).2

/-- Coalesce with 1 MiB alignment only, which no bound of the gap allows. -/
def coalesceMiB : PoolOp :=
  .coalescePeripherals [20]

theorem coalescePeripherals_fallback_from_gap :
    Pool.init insertionSortBy gapPeripheralSpans kDefaultMinAddr kDefaultMaxAddr =
        (some (), gapPeripheralPool) ∧ PoolInvariant gapPeripheralPool ∧
      coalesceMiB.admissible gapPeripheralPool = true ∧
      PoolReachable insertionSortBy (coalesceMiB.apply gapPeripheralPool) ∧
      (gapPeripheralPool.coalescePeripherals [20]).1 = some () ∧
      (coalesceMiB.apply gapPeripheralPool).ranges.map Node.toRange =
        [⟨0x10000, 0x1000, poolBookkeeping⟩, ⟨0x11000, 0xF000, freeRam⟩,
          ⟨0x20000, 0x11000, peripheral⟩] := by
  have hinit : Pool.init insertionSortBy gapPeripheralSpans kDefaultMinAddr kDefaultMaxAddr =
      (some (), gapPeripheralPool) := Prod.ext (by decide) rfl
  have hadm : coalesceMiB.admissible gapPeripheralPool = true := by decide
  exact ⟨hinit, by decide, hadm, (poolReachable_init hinit).step hadm, by decide, by decide⟩

/-- A truncated page, then free RAM for the bookkeeping. -/
def truncatedBelowSpans : List (List Range) :=
  [[⟨0x1000, 0x1000, truncatedRam⟩, ⟨0x10000, 0x10000, freeRam⟩]]

/-- The pool `Init` makes of `truncatedBelowSpans`. -/
def truncatedBelowPool : Pool :=
  (Pool.init insertionSortBy truncatedBelowSpans kDefaultMinAddr kDefaultMaxAddr).2

/-- Keep 64 KiB of RAM, as much as there is apart from the truncated page. -/
def truncateTo64KiB : PoolOp :=
  .truncateTotalRam 0x10000

theorem truncateTotalRam_counts_truncated :
    Pool.init insertionSortBy truncatedBelowSpans kDefaultMinAddr kDefaultMaxAddr =
        (some (), truncatedBelowPool) ∧ PoolInvariant truncatedBelowPool ∧
      truncatedBelowPool.ranges.map Node.toRange =
        [⟨0x1000, 0x1000, truncatedRam⟩, ⟨0x10000, 0x1000, poolBookkeeping⟩,
          ⟨0x11000, 0xF000, freeRam⟩] ∧
      PoolReachable insertionSortBy (truncateTo64KiB.apply truncatedBelowPool) ∧
      (truncatedBelowPool.truncateTotalRam 0x10000).1 = some () ∧
      (truncateTo64KiB.apply truncatedBelowPool).ranges.map Node.toRange =
        [⟨0x1000, 0x1000, truncatedRam⟩, ⟨0x10000, 0x1000, poolBookkeeping⟩,
          ⟨0x11000, 0xE000, freeRam⟩, ⟨0x1F000, 0x1000, truncatedRam⟩] := by
  have hinit : Pool.init insertionSortBy truncatedBelowSpans kDefaultMinAddr kDefaultMaxAddr =
      (some (), truncatedBelowPool) := Prod.ext (by decide) rfl
  have hadm : truncateTo64KiB.admissible truncatedBelowPool = true := rfl
  exact ⟨hinit, by decide, by decide, (poolReachable_init hinit).step hadm, by decide, by decide⟩

end Zircon.Memalloc
