import Zircon.Vm.PageListTraversal
import Zircon.Types

/-!
# Moving a range of slots to another page list

`MoveRange(on_migrate_fn, other, offset, end_offset)` moves the slots of
`[offset, end_offset)` into the empty list `other`, where `offset` becomes `0`.
The skews are chosen so that the nodes of the two lists line up: a node inside
the range leaves the tree and goes into `other` as it is, under its key less
`node_shift`.  A node that the range only partly covers gets a new node in
`other`, into which `MergeOnto` moves the slots of the range; allocating that
node may fail, and then the move stops where it is.  `on_migrate_fn` sees each
slot that moves before it moves.

The nodes are those of `VmPageListTree`: a node outside a tree is a
`VmPageListNode`, erasing a node from a tree takes its slots with it, and
inserting one puts its slots at its key.
-/

namespace Zircon.Vm

open Zircon.Lib VmPageOrMarker

/-- A `VmPageListNode` outside a tree: its key and its slots by index. -/
structure VmPageListNode (α : Type*) where
  offset : ℕ
  pages : ℕ → VmPageOrMarker α

namespace VmPageListNode

variable {α : Type*}

/-- A new node at `offset`, all of whose slots are empty. -/
def init (offset : ℕ) : VmPageListNode α := ⟨offset, fun _ ↦ empty⟩

/-- A write to slot `i` of the node. -/
def set (node : VmPageListNode α) (i : ℕ) (p : VmPageOrMarker α) : VmPageListNode α :=
  { node with pages := Function.update node.pages i p }

@[simp] theorem init_offset (offset : ℕ) : (init offset : VmPageListNode α).offset = offset := rfl
@[simp] theorem init_pages (offset i : ℕ) : (init offset : VmPageListNode α).pages i = empty := rfl

end VmPageListNode

namespace VmPageListTree

variable {α : Type*}

/-- A write to slot `index` of the node at `key`. -/
def setAt (l : VmPageListTree α) (key index : ℕ) (p : VmPageOrMarker α) : VmPageListTree α :=
  { l with pages := l.pages.set (key + index - l.listSkew) p }

/-- The node at `key`, as an object. -/
def nodeAt (l : VmPageListTree α) (key : ℕ) : VmPageListNode α := ⟨key, l.lookup key⟩

/-- `list_.erase` of the node at `key`: its slots leave the list with it. -/
def eraseNode (l : VmPageListTree α) (key : ℕ) : VmPageListTree α :=
  { l with
    list := l.list.erase key
    pages := ⟨fun o ↦ if l.nodeOffsetOf o = key then empty else l.pages.slots o⟩ }

/-- `list_.insert` of `node`: its slots join the list under its key. -/
def insertNode (l : VmPageListTree α) (node : VmPageListNode α) : VmPageListTree α :=
  { l with
    list := l.list.orderedInsert (· ≤ ·) node.offset
    pages := ⟨fun o ↦ if l.nodeOffsetOf o = node.offset then node.pages (l.nodeIndex o)
      else l.pages.slots o⟩ }

end VmPageListTree

/-- A call `on_migrate_fn(slot, offset)`: the offset in the list of the slot it
is given, and the offset it is passed. -/
structure MigrateCall where
  slot : ℕ
  offset : ℕ
  deriving DecidableEq, Repr

/-- What `MergeOnto` updates, with the lambda of `MoveRange`: the source list,
the calls made, the new node, and whether the source node and the new node are
still empty. -/
structure MergeAcc (α : Type*) where
  this : VmPageListTree α
  calls : List MigrateCall
  node : VmPageListNode α
  srcEmpty : Bool
  targetEmpty : Bool

/-- What the loop of `MoveRange` carries: the two lists, the calls made to
`on_migrate_fn`, and how many node allocations will still succeed. -/
structure MoveState (α : Type*) where
  this : VmPageListTree α
  other : VmPageListTree α
  calls : List MigrateCall
  allocs : ℕ

namespace VmPageListTree

variable {α : Type*}

/-- The lambda of `MoveRange` that `MergeOnto` calls on slot `i` of the node at
`key`: a filled slot of `[skewedOffset, skewedEndOffset)` moves to the new
node, and any other filled slot stays. -/
def mergeSlot (skewedOffset skewedEndOffset key : ℕ) (acc : MergeAcc α) (i : ℕ) : MergeAcc α :=
  let src := acc.this.lookup key i
  -- `MergeOnto` passes only the filled slots
  if src.isEmpty then acc
  else
    -- `off + other.list_skew_ + node_shift`: the `uint64_t` sum cancels to `key + i`
    let thisOff := key + i
    if thisOff < skewedOffset || skewedEndOffset ≤ thisOff then { acc with srcEmpty := false }
    else
      { acc with
        this := acc.this.setAt key i empty
        calls := acc.calls ++ [⟨key + i - acc.this.listSkew, thisOff⟩]
        node := acc.node.set i src
        targetEmpty := false }

/-- `iter->MergeOnto(lambda, *node, other.list_skew_)` on the node at `key`. -/
def mergeOnto (skewedOffset skewedEndOffset key : ℕ) (l : VmPageListTree α) (calls : List MigrateCall)
    (node : VmPageListNode α) : MergeAcc α :=
  (List.range kPageFanOut).foldl (mergeSlot skewedOffset skewedEndOffset key) ⟨l, calls, node, true, true⟩

end VmPageListTree

namespace MoveState

open VmPageListTree

variable {α : Type*}

/-- One pass of the loop of `MoveRange`, on the node at `key`; `none` when the
allocation of a new node fails. -/
def moveNode (skewedOffset skewedEndOffset nodeShift : ℕ) (s : MoveState α) (key : ℕ) :
    Option (MoveState α) :=
  let targetNodeOffset := key - nodeShift
  if key < skewedOffset || skewedEndOffset < key + kPageFanOut then
    -- the range covers part of the node: its slots there go to a new node
    match s.allocs with
    | 0 => none
    | allocs + 1 =>
      let acc := mergeOnto skewedOffset skewedEndOffset key s.this s.calls
        (VmPageListNode.init targetNodeOffset)
      let this := if acc.srcEmpty then acc.this.eraseNode key else acc.this
      let other := if acc.targetEmpty then s.other else s.other.insertNode acc.node
      some ⟨this, other, acc.calls, allocs⟩
  else
    -- the whole node moves, under its key in `other`
    some ⟨s.this.eraseNode key, s.other.insertNode { s.this.nodeAt key with offset := targetNodeOffset },
      s.calls ++ (s.this.nodeForEveryPageInRange key key (key + kPageFanOut)).map fun c ↦ ⟨c.2, c.2⟩,
      s.allocs⟩

/-- The loop of `MoveRange` over the nodes from `lower_bound`, while they start
before `skewedEndOffset`. -/
def moveLoop (skewedOffset skewedEndOffset nodeShift : ℕ) : MoveState α → List ℕ → ZxStatus × MoveState α
  | s, [] => (.ok, s)
  | s, key :: rest =>
    if key < skewedEndOffset then
      match moveNode skewedOffset skewedEndOffset nodeShift s key with
      | none => (.errNoMemory, s)
      | some s => moveLoop skewedOffset skewedEndOffset nodeShift s rest
    else (.ok, s)

end MoveState

namespace VmPageListTree

variable {α : Type*}

/-- `MoveRange(on_migrate_fn, other, offset, end_offset)`, when `allocs` node
allocations succeed: the status, and the two lists with the calls made to
`on_migrate_fn`. -/
def moveRange (l other : VmPageListTree α) (offset endOffset allocs : ℕ) : ZxStatus × MoveState α :=
  let skewedOffset := offset + l.listSkew
  let skewedEndOffset := endOffset + l.listSkew
  let nodeShift := nodeOffset (offset + l.listSkew - other.listSkew)
  MoveState.moveLoop skewedOffset skewedEndOffset nodeShift ⟨l, other, [], allocs⟩
    (l.lowerBound (nodeOffset skewedOffset))

/-! ### Writes, erasures and insertions of nodes -/

section Nodes

variable {l : VmPageListTree α} {key index i o : ℕ} {p : VmPageOrMarker α} {node : VmPageListNode α}

@[simp] theorem listSkew_setAt : (l.setAt key index p).listSkew = l.listSkew := rfl
@[simp] theorem list_setAt : (l.setAt key index p).list = l.list := rfl
@[simp] theorem listSkew_eraseNode : (l.eraseNode key).listSkew = l.listSkew := rfl
@[simp] theorem list_eraseNode : (l.eraseNode key).list = l.list.erase key := rfl
@[simp] theorem listSkew_insertNode : (l.insertNode node).listSkew = l.listSkew := rfl
@[simp] theorem list_insertNode :
    (l.insertNode node).list = l.list.orderedInsert (· ≤ ·) node.offset := rfl

theorem slots_setAt :
    (l.setAt key index p).pages.slots o = if o = key + index - l.listSkew then p else l.pages.slots o := by
  simp only [setAt, VmPageList.slots_set, Function.update_apply]

theorem slots_eraseNode :
    (l.eraseNode key).pages.slots o = if l.nodeOffsetOf o = key then empty else l.pages.slots o := rfl

theorem slots_insertNode :
    (l.insertNode node).pages.slots o =
      if l.nodeOffsetOf o = node.offset then node.pages (l.nodeIndex o) else l.pages.slots o := rfl

theorem nodeOffsetOf_congr {l' : VmPageListTree α} (h : l'.listSkew = l.listSkew) (o : ℕ) :
    l'.nodeOffsetOf o = l.nodeOffsetOf o := by
  unfold nodeOffsetOf
  rw [h]

theorem nodeOffsetOf_eq_iff (hk : key % kPageFanOut = 0) :
    l.nodeOffsetOf o = key ↔ key ≤ o + l.listSkew ∧ o + l.listSkew < key + kPageFanOut :=
  nodeOffset_eq_iff hk

theorem nodeIndex_eq (h : l.nodeOffsetOf o = key) : l.nodeIndex o = o + l.listSkew - key := by
  unfold nodeOffsetOf nodeOffset at h
  unfold nodeIndex
  unfold kPageFanOut at h ⊢
  omega

theorem lookup_eq_empty_iff : l.lookup key i = empty ↔ l.filled key i = false := by
  rw [← Bool.not_eq_true, filled_eq_true_iff, not_not]

end Nodes

/-! ### The node invariants under erasures and insertions -/

namespace NodesWellFormed

variable {l l' : VmPageListTree α} {key t : ℕ}

theorem filled_of_frame (hskew : l'.listSkew = l.listSkew)
    (hframe : ∀ o, l.nodeOffsetOf o ≠ key → l'.pages.slots o = l.pages.slots o) {k i : ℕ}
    (hk : k % kPageFanOut = 0) (hne : k ≠ key) (hi : i < kPageFanOut) (hf : l.filled k i = true) :
    l'.filled k i = true := by
  have hle := le_of_filled hf
  have hnode : l.nodeOffsetOf (k + i - l.listSkew) = k :=
    (nodeOffsetOf_eq_iff hk).mpr ⟨by omega, by omega⟩
  rw [filled, lookup_of_le (by omega), hskew, hframe _ (by rw [hnode]; exact hne), ← lookup_of_le hle]
  exact hf

variable (hw : l.NodesWellFormed)
include hw

theorem of_clear (hskew : l'.listSkew = l.listSkew)
    (hslots : ∀ o, l'.pages.slots o = empty ∨ l'.pages.slots o = l.pages.slots o)
    (hframe : ∀ o, l.nodeOffsetOf o ≠ key → l'.pages.slots o = l.pages.slots o)
    (hlist : (l'.list = l.list ∧ ∃ i < kPageFanOut, l'.filled key i = true) ∨
      (l'.list = l.list.erase key ∧ ∀ o, l.nodeOffsetOf o = key → l'.pages.slots o = empty)) :
    l'.NodesWellFormed := by
  have hsub : l'.list.Sublist l.list := by
    rcases hlist with ⟨heq, -⟩ | ⟨heq, -⟩ <;> rw [heq]
    exact List.erase_sublist
  have hother : ∀ k ∈ l'.list, k ≠ key → ∃ i < kPageFanOut, l'.filled k i = true := by
    intro k hk hne
    obtain ⟨i, hi, hf⟩ := hw.exists_filled k (hsub.subset hk)
    exact ⟨i, hi, filled_of_frame hskew hframe (hw.aligned k (hsub.subset hk)) hne hi hf⟩
  refine ⟨hskew ▸ hw.skew_lt, hw.sorted.sublist hsub, fun k hk ↦ hw.aligned k (hsub.subset hk),
    fun o ho ↦ ?_, fun k hk ↦ ?_⟩
  · have hne : l.pages.slots o ≠ empty := by
      rcases hslots o with h | h
      · exact absurd h ho
      · rwa [h] at ho
    have hmem := hw.mem_list_of_ne_empty o hne
    rw [nodeOffsetOf_congr hskew]
    rcases hlist with ⟨heq, -⟩ | ⟨heq, hempty⟩
    · rwa [heq]
    · rw [heq]
      exact (List.mem_erase_of_ne fun h ↦ ho (hempty o h)).mpr hmem
  · rcases hlist with ⟨heq, hkey'⟩ | ⟨heq, -⟩
    · by_cases hk' : k = key
      · exact hk' ▸ hkey'
      · exact hother k hk hk'
    · refine hother k hk fun hk' ↦ ?_
      rw [heq, hk'] at hk
      exact (List.Nodup.mem_erase_iff (hw.sorted.imp ne_of_lt)).mp hk |>.1 rfl

theorem of_fill (ht : t % kPageFanOut = 0) (hskew : l'.listSkew = l.listSkew)
    (hempty : ∀ o, l.nodeOffsetOf o = t → l.pages.slots o = empty)
    (hframe : ∀ o, l.nodeOffsetOf o ≠ t → l'.pages.slots o = l.pages.slots o)
    (hlist : l' = l ∨
      (l'.list = l.list.orderedInsert (· ≤ ·) t ∧ ∃ i < kPageFanOut, l'.filled t i = true)) :
    l'.NodesWellFormed := by
  rcases hlist with rfl | ⟨heq, hfilled⟩
  · exact hw
  have hnot : t ∉ l.list := by
    intro ht'
    obtain ⟨i, hi, hf⟩ := hw.exists_filled t ht'
    have hle := le_of_filled hf
    rw [filled_eq_true_iff, lookup_of_le hle] at hf
    exact hf (hempty _ ((nodeOffsetOf_eq_iff ht).mpr ⟨by omega, by omega⟩))
  have hmem : ∀ {k}, k ∈ l'.list ↔ k = t ∨ k ∈ l.list := by
    intro k
    rw [heq]
    exact List.mem_orderedInsert _
  refine ⟨hskew ▸ hw.skew_lt, heq ▸ pairwise_lt_orderedInsert hw.sorted hnot, fun k hk ↦ ?_,
    fun o ho ↦ ?_, fun k hk ↦ ?_⟩
  · rcases hmem.mp hk with rfl | hk
    · exact ht
    · exact hw.aligned k hk
  · rw [nodeOffsetOf_congr hskew]
    by_cases hn : l.nodeOffsetOf o = t
    · exact hmem.mpr (Or.inl hn)
    · rw [hframe o hn] at ho
      exact hmem.mpr (Or.inr (hw.mem_list_of_ne_empty o ho))
  · rcases hmem.mp hk with rfl | hk
    · exact hfilled
    · obtain ⟨i, hi, hf⟩ := hw.exists_filled k hk
      exact ⟨i, hi, filled_of_frame hskew hframe (hw.aligned k hk) (fun h ↦ hnot (h ▸ hk)) hi hf⟩

end NodesWellFormed

/-! ### `MergeOnto` with the lambda of `MoveRange` -/

/-- Whether `MoveRange` moves slot `i` of the node at `key`: it is filled and
its skewed offset lies in `[skewedOffset, skewedEndOffset)`. -/
def movesSlot (l : VmPageListTree α) (skewedOffset skewedEndOffset key i : ℕ) : Prop :=
  l.filled key i = true ∧ skewedOffset ≤ key + i ∧ key + i < skewedEndOffset

instance (l : VmPageListTree α) (skewedOffset skewedEndOffset key i : ℕ) :
    Decidable (l.movesSlot skewedOffset skewedEndOffset key i) :=
  inferInstanceAs (Decidable (_ ∧ _ ∧ _))

section MergeOnto

variable {so se key i : ℕ} {acc : MergeAcc α}

theorem mergeSlot_eq : mergeSlot so se key acc i =
    if acc.this.movesSlot so se key i then
      { acc with
        this := acc.this.setAt key i empty
        calls := acc.calls ++ [⟨key + i - acc.this.listSkew, key + i⟩]
        node := acc.node.set i (acc.this.lookup key i)
        targetEmpty := false }
    else if acc.this.filled key i then { acc with srcEmpty := false } else acc := by
  unfold mergeSlot movesSlot filled
  by_cases he : (acc.this.lookup key i).isEmpty = true
  · simp [he]
  · have hf : (acc.this.lookup key i).isEmpty = false := Bool.eq_false_iff.mpr he
    have hr : (key + i < so ∨ se ≤ key + i) ↔ ¬(so ≤ key + i ∧ key + i < se) := by omega
    simp only [hf, Bool.false_eq_true, if_false, Bool.not_false, true_and, Bool.or_eq_true,
      decide_eq_true_eq, hr, if_true]
    split_ifs <;> rfl

theorem mergeSlot_this : (mergeSlot so se key acc i).this =
    if acc.this.movesSlot so se key i then acc.this.setAt key i empty else acc.this := by
  rw [mergeSlot_eq]
  split_ifs <;> rfl

theorem mergeSlot_calls : (mergeSlot so se key acc i).calls =
    if acc.this.movesSlot so se key i then acc.calls ++ [⟨key + i - acc.this.listSkew, key + i⟩]
    else acc.calls := by
  rw [mergeSlot_eq]
  split_ifs <;> rfl

theorem mergeSlot_node : (mergeSlot so se key acc i).node =
    if acc.this.movesSlot so se key i then acc.node.set i (acc.this.lookup key i) else acc.node := by
  rw [mergeSlot_eq]
  split_ifs <;> rfl

theorem mergeSlot_srcEmpty : (mergeSlot so se key acc i).srcEmpty =
    (acc.srcEmpty && !(acc.this.filled key i && !decide (so ≤ key + i ∧ key + i < se))) := by
  rw [mergeSlot_eq]
  unfold movesSlot
  by_cases hf : acc.this.filled key i = true <;> by_cases hr : so ≤ key + i ∧ key + i < se <;>
    simp [hf, hr]

theorem mergeSlot_targetEmpty : (mergeSlot so se key acc i).targetEmpty =
    (acc.targetEmpty && !decide (acc.this.movesSlot so se key i)) := by
  rw [mergeSlot_eq]
  split_ifs with h₁ h₂ <;> simp [h₁]

/-- What `MergeOnto` has done once it has passed the slots below `n` of the
node at `key` of `l`: each slot it moved is empty, was passed to
`on_migrate_fn`, and is in the new node; the two flags say whether no filled
slot stayed and whether none moved. -/
structure MergedBelow (so se key : ℕ) (l : VmPageListTree α) (calls : List MigrateCall)
    (node : VmPageListNode α) (n : ℕ) (acc : MergeAcc α) : Prop where
  this_skew : acc.this.listSkew = l.listSkew
  this_list : acc.this.list = l.list
  this_slots : ∀ o, acc.this.pages.slots o =
    if ∃ i < n, l.movesSlot so se key i ∧ o + l.listSkew = key + i then empty else l.pages.slots o
  calls_eq : acc.calls = calls ++ (List.range n).filterMap fun i ↦
    if l.movesSlot so se key i then some ⟨key + i - l.listSkew, key + i⟩ else none
  node_offset : acc.node.offset = node.offset
  node_pages : ∀ i, acc.node.pages i =
    if i < n ∧ l.movesSlot so se key i then l.lookup key i else node.pages i
  srcEmpty_eq : acc.srcEmpty =
    (List.range n).all fun i ↦ !(l.filled key i && !decide (so ≤ key + i ∧ key + i < se))
  targetEmpty_eq : acc.targetEmpty = (List.range n).all fun i ↦ !decide (l.movesSlot so se key i)

namespace MergedBelow

variable {l : VmPageListTree α} {calls : List MigrateCall} {node : VmPageListNode α} {n : ℕ}

theorem lookup_eq (h : MergedBelow so se key l calls node n acc) :
    acc.this.lookup key n = l.lookup key n := by
  unfold lookup
  rw [h.this_skew]
  split_ifs with hle
  · rw [h.this_slots, if_neg]
    rintro ⟨i, hi, -, heq⟩
    omega
  · rfl

theorem movesSlot_iff (h : MergedBelow so se key l calls node n acc) :
    acc.this.movesSlot so se key n ↔ l.movesSlot so se key n := by
  unfold movesSlot filled
  rw [h.lookup_eq]

theorem step (h : MergedBelow so se key l calls node n acc) :
    MergedBelow so se key l calls node (n + 1) (mergeSlot so se key acc n) := by
  have hfilled : acc.this.filled key n = l.filled key n := by
    unfold filled
    rw [h.lookup_eq]
  -- the offsets moved below `n + 1`: those below `n`, and `n` itself if it moves
  have hmoved : ∀ o, (∃ i < n + 1, l.movesSlot so se key i ∧ o + l.listSkew = key + i) ↔
      (∃ i < n, l.movesSlot so se key i ∧ o + l.listSkew = key + i) ∨
        (l.movesSlot so se key n ∧ o + l.listSkew = key + n) :=
    fun o ↦ Nat.exists_lt_succ_right
  constructor
  · rw [mergeSlot_this]
    split_ifs <;> simp [h.this_skew]
  · rw [mergeSlot_this]
    split_ifs <;> simp [h.this_list]
  · intro o
    rw [mergeSlot_this]
    by_cases hm : acc.this.movesSlot so se key n
    · have hm' := h.movesSlot_iff.mp hm
      have hskew := le_of_filled hm'.1
      rw [if_pos hm, slots_setAt, h.this_skew]
      by_cases ho : o = key + n - l.listSkew
      · rw [if_pos ho, if_pos ((hmoved o).mpr (Or.inr ⟨hm', by omega⟩))]
      · have hne : o + l.listSkew ≠ key + n := by omega
        rw [if_neg ho, h.this_slots o]
        simp only [hmoved o, hne, and_false, or_false]
    · have hm' : ¬l.movesSlot so se key n := fun h' ↦ hm (h.movesSlot_iff.mpr h')
      rw [if_neg hm, h.this_slots o]
      simp only [hmoved o, hm', false_and, or_false]
  · rw [mergeSlot_calls, h.calls_eq, h.this_skew, List.range_succ, List.filterMap_append]
    by_cases hm : l.movesSlot so se key n
    · rw [if_pos (h.movesSlot_iff.mpr hm)]
      simp [hm]
    · rw [if_neg (fun h' ↦ hm (h.movesSlot_iff.mp h'))]
      simp [hm]
  · rw [mergeSlot_node]
    split_ifs <;> simp [VmPageListNode.set, h.node_offset]
  · intro i
    have hbelow : i ≠ n → ((i < n + 1 ∧ l.movesSlot so se key i) ↔ (i < n ∧ l.movesSlot so se key i)) :=
      fun hi ↦ ⟨fun h' ↦ ⟨by omega, h'.2⟩, fun h' ↦ ⟨by omega, h'.2⟩⟩
    rw [mergeSlot_node]
    by_cases hm : l.movesSlot so se key n
    · rw [if_pos (h.movesSlot_iff.mpr hm)]
      simp only [VmPageListNode.set, Function.update_apply, h.node_pages, h.lookup_eq]
      by_cases hi : i = n
      · subst hi
        simp [hm]
      · simp only [hi, if_false, hbelow hi]
    · rw [if_neg (fun h' ↦ hm (h.movesSlot_iff.mp h')), h.node_pages]
      by_cases hi : i = n
      · subst hi
        simp [hm]
      · simp only [hbelow hi]
  · rw [mergeSlot_srcEmpty, h.srcEmpty_eq, hfilled, List.range_succ, List.all_append]
    simp
  · rw [mergeSlot_targetEmpty, h.targetEmpty_eq, List.range_succ, List.all_append]
    simp [h.movesSlot_iff]

end MergedBelow

theorem mergedBelow_foldl {l : VmPageListTree α} {calls : List MigrateCall} {node : VmPageListNode α}
    (n : ℕ) : MergedBelow so se key l calls node n
      ((List.range n).foldl (mergeSlot so se key) ⟨l, calls, node, true, true⟩) := by
  induction n with
  | zero => exact ⟨rfl, rfl, fun o ↦ by simp, by simp, rfl, fun i ↦ by simp, rfl, rfl⟩
  | succ n ih =>
    rw [List.range_succ, List.foldl_append, List.foldl_cons, List.foldl_nil]
    exact ih.step

section Node

variable {l : VmPageListTree α} {calls : List MigrateCall} {node : VmPageListNode α}

theorem mergedBelow_mergeOnto :
    MergedBelow so se key l calls node kPageFanOut (mergeOnto so se key l calls node) :=
  mergedBelow_foldl _

namespace MergedBelow

variable (h : MergedBelow so se key l calls node kPageFanOut acc)
include h

theorem slots_eq (o : ℕ) : acc.this.pages.slots o =
    if key ≤ o + l.listSkew ∧ o + l.listSkew < key + kPageFanOut ∧ so ≤ o + l.listSkew ∧
      o + l.listSkew < se then empty else l.pages.slots o := by
  rw [h.this_slots]
  by_cases hin : key ≤ o + l.listSkew ∧ o + l.listSkew < key + kPageFanOut ∧ so ≤ o + l.listSkew ∧
      o + l.listSkew < se
  · rw [if_pos hin]
    split_ifs with hmoved
    · rfl
    · -- a slot of the range that did not move was empty
      by_contra hne
      refine hmoved ⟨o + l.listSkew - key, by omega, ⟨?_, by omega, by omega⟩, by omega⟩
      rw [filled_eq_true_iff, lookup_sub hin.1]
      exact hne
  · rw [if_neg hin, if_neg]
    rintro ⟨i, hi, ⟨-, h₁, h₂⟩, heq⟩
    exact hin ⟨by omega, by omega, by omega, by omega⟩

theorem slots_eq_empty_of_srcEmpty (hsrc : acc.srcEmpty = true) {o : ℕ}
    (hk : key ≤ o + l.listSkew) (hk' : o + l.listSkew < key + kPageFanOut)
    (hout : ¬(so ≤ o + l.listSkew ∧ o + l.listSkew < se)) : l.pages.slots o = empty := by
  rw [h.srcEmpty_eq, List.all_eq_true] at hsrc
  have hi := hsrc (o + l.listSkew - key) (List.mem_range.mpr (by omega))
  refine slots_eq_empty_of_filled_eq_false hk ?_
  rw [show key + (o + l.listSkew - key) = o + l.listSkew by omega] at hi
  simpa [hout] using hi

theorem exists_kept_of_srcEmpty (hsrc : acc.srcEmpty = false) :
    ∃ i < kPageFanOut, l.filled key i = true ∧ ¬(so ≤ key + i ∧ key + i < se) := by
  rw [h.srcEmpty_eq, List.all_eq_false] at hsrc
  obtain ⟨i, hi, hkept⟩ := hsrc
  exact ⟨i, List.mem_range.mp hi, by simpa using hkept⟩

theorem filled_of_kept {i : ℕ} (hf : l.filled key i = true)
    (hout : ¬(so ≤ key + i ∧ key + i < se)) : acc.this.filled key i = true := by
  have hskew := le_of_filled hf
  rw [filled_eq_true_iff, lookup_of_le (by rw [h.this_skew]; exact hskew), h.this_skew, h.slots_eq,
    if_neg (fun h' ↦ hout ⟨by omega, by omega⟩), ← lookup_of_le hskew]
  exact filled_eq_true_iff.mp hf

theorem not_movesSlot_of_targetEmpty (htarget : acc.targetEmpty = true) {i : ℕ}
    (hi : i < kPageFanOut) : ¬l.movesSlot so se key i := by
  rw [h.targetEmpty_eq, List.all_eq_true] at htarget
  simpa using htarget i (List.mem_range.mpr hi)

theorem exists_movesSlot_of_targetEmpty (htarget : acc.targetEmpty = false) :
    ∃ i < kPageFanOut, l.movesSlot so se key i := by
  rw [h.targetEmpty_eq, List.all_eq_false] at htarget
  obtain ⟨i, hi, hm⟩ := htarget
  exact ⟨i, List.mem_range.mp hi, by simpa using hm⟩

theorem calls_map_slot : acc.calls.map MigrateCall.slot =
    calls.map MigrateCall.slot ++
      (l.nodeForEveryPageInRange key (max so key) (min (key + kPageFanOut) se)).map Prod.snd := by
  rw [h.calls_eq, List.map_append, nodeForEveryPageInRange, List.map_filterMap,
    List.map_filterMap]
  congr 1
  have hrange := filterMap_range_ite (fun i ↦ if l.filled key i then some (key + i - l.listSkew) else none)
    (so - key) (se - key) kPageFanOut
  have hlen : min (key + kPageFanOut) se - key - (max so key - key) = min (se - key) kPageFanOut - (so - key) := by
    rw [Nat.min_def, Nat.min_def, Nat.max_def]
    split_ifs <;> omega
  rw [hlen, show max so key - key = so - key by rw [Nat.max_def]; split_ifs <;> omega]
  calc _ = (List.range kPageFanOut).filterMap (fun i ↦ if so - key ≤ i ∧ i < se - key then
          (if l.filled key i then some (key + i - l.listSkew) else none) else none) := by
        apply List.filterMap_congr
        intro i _
        by_cases hf : l.filled key i = true <;> by_cases hr : so - key ≤ i ∧ i < se - key
        · rw [if_pos (show l.movesSlot so se key i from ⟨hf, by omega, by omega⟩), if_pos hr, if_pos hf]
          rfl
        · rw [if_neg (fun ⟨_, h₁, h₂⟩ ↦ hr ⟨by omega, by omega⟩), if_neg hr]
          rfl
        · rw [if_neg (fun h : l.movesSlot so se key i ↦ hf h.1), if_pos hr, if_neg hf]
          rfl
        · rw [if_neg (fun h : l.movesSlot so se key i ↦ hf h.1), if_neg hr]
          rfl
    _ = _ := hrange
    _ = _ := List.filterMap_congr fun i _ ↦ by split_ifs <;> rfl

end MergedBelow

end Node

end MergeOnto

end VmPageListTree

namespace MoveState

open VmPageListTree

variable {α : Type*} {so se ns key : ℕ} {s s' : MoveState α}

/-- What a pass on one node can do: on a node the range covers in part, take
one allocation and run `MergeOnto` into a new node at `key - ns`; on a node
inside the range, move the node there. -/
theorem moveNode_eq_some (h : moveNode so se ns s key = some s') :
    ((key < so ∨ se < key + kPageFanOut) ∧ ∃ allocs acc, s.allocs = allocs + 1 ∧
      MergedBelow so se key s.this s.calls (VmPageListNode.init (key - ns)) kPageFanOut acc ∧
      s' = ⟨if acc.srcEmpty then acc.this.eraseNode key else acc.this,
        if acc.targetEmpty then s.other else s.other.insertNode acc.node, acc.calls, allocs⟩) ∨
    (so ≤ key ∧ key + kPageFanOut ≤ se ∧
      s' = ⟨s.this.eraseNode key, s.other.insertNode { s.this.nodeAt key with offset := key - ns },
        s.calls ++ (s.this.nodeForEveryPageInRange key key (key + kPageFanOut)).map fun c ↦ ⟨c.2, c.2⟩,
        s.allocs⟩) := by
  unfold moveNode at h
  split_ifs at h with hpart
  · rcases ha : s.allocs with _ | allocs
    · rw [ha] at h
      exact absurd h (by simp)
    · rw [ha] at h
      simp only [Bool.or_eq_true, decide_eq_true_eq] at hpart
      exact Or.inl ⟨hpart, allocs, _, rfl, mergedBelow_mergeOnto, (Option.some.inj h).symm⟩
  · simp only [Bool.or_eq_true, decide_eq_true_eq, not_or, not_lt] at hpart
    exact Or.inr ⟨hpart.1, hpart.2, (Option.some.inj h).symm⟩

theorem listSkew_moveNode (h : moveNode so se ns s key = some s') :
    s'.this.listSkew = s.this.listSkew ∧ s'.other.listSkew = s.other.listSkew := by
  rcases moveNode_eq_some h with ⟨-, allocs, acc, -, hm, hs'⟩ | ⟨-, -, hs'⟩
  · subst hs'
    constructor
    · split_ifs <;> simp [hm.this_skew]
    · split_ifs <;> simp
  · subst hs'
    exact ⟨rfl, rfl⟩

theorem slots_this_moveNode (h : moveNode so se ns s key = some s') (hkey : key % kPageFanOut = 0)
    (o : ℕ) : s'.this.pages.slots o =
      if s.this.nodeOffsetOf o = key ∧ so ≤ o + s.this.listSkew ∧ o + s.this.listSkew < se then empty
      else s.this.pages.slots o := by
  have hnode := nodeOffsetOf_eq_iff (l := s.this) (o := o) hkey
  rcases moveNode_eq_some h with ⟨-, allocs, acc, -, hm, hs'⟩ | ⟨hso, hse, hs'⟩
  · subst hs'
    by_cases hsrc : acc.srcEmpty = true
    · -- the old node goes, and with it nothing but empty slots
      rw [if_pos hsrc, slots_eraseNode, nodeOffsetOf_congr hm.this_skew]
      by_cases hn : s.this.nodeOffsetOf o = key
      · rw [if_pos hn]
        split_ifs with hin
        · rfl
        · exact (hm.slots_eq_empty_of_srcEmpty hsrc (hnode.mp hn).1 (hnode.mp hn).2
            fun h' ↦ hin ⟨hn, h'⟩).symm
      · rw [if_neg hn, hm.slots_eq, if_neg (fun h' ↦ hn (hnode.mpr ⟨h'.1, h'.2.1⟩)),
          if_neg (fun h' ↦ hn h'.1)]
    · rw [if_neg hsrc, hm.slots_eq]
      simp only [hnode, and_assoc]
  · subst hs'
    rw [slots_eraseNode]
    by_cases hn : s.this.nodeOffsetOf o = key
    · have hbounds := hnode.mp hn
      rw [if_pos hn, if_pos ⟨hn, by omega, by omega⟩]
    · rw [if_neg hn, if_neg (fun h' ↦ hn h'.1)]

theorem slots_other_moveNode (h : moveNode so se ns s key = some s') (hkey : key % kPageFanOut = 0)
    (hns : ns % kPageFanOut = 0) (hnk : ns ≤ key)
    (htarget : ∀ p, s.other.nodeOffsetOf p = key - ns → s.other.pages.slots p = empty) (p : ℕ) :
    s'.other.pages.slots p =
      if s.other.nodeOffsetOf p = key - ns ∧ so ≤ p + s.other.listSkew + ns ∧
        p + s.other.listSkew + ns < se then s.this.lookup key (p + s.other.listSkew + ns - key)
      else s.other.pages.slots p := by
  have hal : (key - ns) % kPageFanOut = 0 := by
    unfold kPageFanOut at *
    omega
  have hnode := nodeOffsetOf_eq_iff (l := s.other) (o := p) hal
  rcases moveNode_eq_some h with ⟨-, allocs, acc, -, hm, hs'⟩ | ⟨hso, hse, hs'⟩
  · subst hs'
    dsimp only
    -- a slot of the range that did not move is empty
    have hstay : ∀ i < kPageFanOut, so ≤ key + i → key + i < se → ¬s.this.movesSlot so se key i →
        s.this.lookup key i = empty := fun i _ h₁ h₂ hmv ↦
      lookup_eq_empty_iff.mpr (Bool.eq_false_iff.mpr fun hf ↦ hmv ⟨hf, h₁, h₂⟩)
    by_cases htgt : acc.targetEmpty = true
    · rw [if_pos htgt]
      split_ifs with hC
      · have hb := hnode.mp hC.1
        rw [htarget p hC.1, hstay _ (by omega) (by omega) (by omega)
          (hm.not_movesSlot_of_targetEmpty htgt (by omega))]
      · rfl
    · rw [if_neg htgt, slots_insertNode, hm.node_offset, VmPageListNode.init_offset]
      by_cases hn : s.other.nodeOffsetOf p = key - ns
      · have hb := hnode.mp hn
        rw [if_pos hn, hm.node_pages, nodeIndex_eq hn,
          show p + s.other.listSkew - (key - ns) = p + s.other.listSkew + ns - key by omega]
        by_cases hmv : s.this.movesSlot so se key (p + s.other.listSkew + ns - key)
        · obtain ⟨-, h₁, h₂⟩ := id hmv
          rw [if_pos ⟨by omega, hmv⟩, if_pos ⟨hn, by omega, by omega⟩]
        · rw [if_neg (fun h' ↦ hmv h'.2)]
          split_ifs with hC
          · exact (hstay _ (by omega) (by omega) (by omega) hmv).symm
          · exact (htarget p hn).symm
      · rw [if_neg hn, if_neg (fun h' ↦ hn h'.1)]
  · subst hs'
    rw [slots_insertNode]
    by_cases hn : s.other.nodeOffsetOf p = key - ns
    · have hb := hnode.mp hn
      rw [if_pos hn, if_pos ⟨hn, by omega, by omega⟩, nodeIndex_eq hn,
        show p + s.other.listSkew - (key - ns) = p + s.other.listSkew + ns - key by omega]
      rfl
    · rw [if_neg hn, if_neg (fun h' ↦ hn h'.1)]

theorem this_list_moveNode (h : moveNode so se ns s key = some s') :
    (s'.this.list = s.this.list ∧ ∃ i < kPageFanOut, s'.this.filled key i = true) ∨
      (s'.this.list = s.this.list.erase key ∧
        ∀ o, s.this.nodeOffsetOf o = key → s'.this.pages.slots o = empty) := by
  rcases moveNode_eq_some h with ⟨-, allocs, acc, -, hm, hs'⟩ | ⟨-, -, hs'⟩
  · subst hs'
    dsimp only
    by_cases hsrc : acc.srcEmpty = true
    · refine Or.inr ⟨by rw [if_pos hsrc, list_eraseNode, hm.this_list], fun o ho ↦ ?_⟩
      rw [if_pos hsrc, slots_eraseNode, nodeOffsetOf_congr hm.this_skew, if_pos ho]
    · obtain ⟨i, hi, hf, hout⟩ := hm.exists_kept_of_srcEmpty (Bool.eq_false_iff.mpr hsrc)
      rw [if_neg hsrc, hm.this_list]
      exact Or.inl ⟨rfl, i, hi, hm.filled_of_kept hf hout⟩
  · subst hs'
    exact Or.inr ⟨rfl, fun o ho ↦ by rw [slots_eraseNode, if_pos ho]⟩

theorem other_list_moveNode (h : moveNode so se ns s key = some s') (hkey : key % kPageFanOut = 0)
    (hns : ns % kPageFanOut = 0) (hshift : ns + s.other.listSkew ≤ so)
    (hfilled : ∃ i < kPageFanOut, s.this.filled key i = true) :
    s'.other = s.other ∨ (s'.other.list = s.other.list.orderedInsert (· ≤ ·) (key - ns) ∧
      ∃ i < kPageFanOut, s'.other.filled (key - ns) i = true) := by
  have hslot : ∀ i < kPageFanOut, so ≤ key + i → ∀ (node : VmPageListNode α), node.offset = key - ns →
      (s.other.insertNode node).filled (key - ns) i = !(node.pages i).isEmpty := by
    intro i hi hsoi node hoff
    have hle : ns ≤ key := by
      unfold kPageFanOut at *
      omega
    have hnode : s.other.nodeOffsetOf (key - ns + i - s.other.listSkew) = key - ns :=
      (nodeOffsetOf_eq_iff (by unfold kPageFanOut at *; omega)).mpr ⟨by omega, by omega⟩
    rw [filled, lookup_of_le (by rw [listSkew_insertNode]; omega), listSkew_insertNode, slots_insertNode,
      hoff, if_pos hnode, nodeIndex_eq hnode, show key - ns + i - s.other.listSkew + s.other.listSkew -
        (key - ns) = i by omega]
  rcases moveNode_eq_some h with ⟨-, allocs, acc, -, hm, hs'⟩ | ⟨hso, -, hs'⟩
  · subst hs'
    dsimp only
    by_cases htgt : acc.targetEmpty = true
    · exact Or.inl (if_pos htgt)
    · obtain ⟨i, hi, hmv⟩ := hm.exists_movesSlot_of_targetEmpty (Bool.eq_false_iff.mpr htgt)
      rw [if_neg htgt]
      refine Or.inr ⟨by rw [list_insertNode, hm.node_offset, VmPageListNode.init_offset], i, hi, ?_⟩
      rw [hslot i hi hmv.2.1 acc.node (by rw [hm.node_offset, VmPageListNode.init_offset]),
        hm.node_pages, if_pos ⟨hi, hmv⟩]
      simpa [filled] using hmv.1
  · subst hs'
    obtain ⟨i, hi, hf⟩ := hfilled
    refine Or.inr ⟨rfl, i, hi, ?_⟩
    rw [hslot i hi (by omega) _ rfl]
    simpa [filled, nodeAt] using hf

theorem calls_moveNode (h : moveNode so se ns s key = some s') :
    s'.calls.map MigrateCall.slot = s.calls.map MigrateCall.slot ++
      (s.this.nodeForEveryPageInRange key (max so key) (min (key + kPageFanOut) se)).map Prod.snd := by
  rcases moveNode_eq_some h with ⟨-, allocs, acc, -, hm, hs'⟩ | ⟨hso, hse, hs'⟩
  · subst hs'
    exact hm.calls_map_slot
  · subst hs'
    rw [max_eq_right hso, min_eq_left hse, List.map_append, List.map_map]
    rfl

end MoveState

/-- What holds of the loop of `MoveRange` from `l` into `other` once it has
passed the skewed offsets below `b`: the slots of the range below `b` have left
`this` for `other`, where nothing else is filled, every other slot of `this` is
as it was, and the nodes of both lists are well-formed. -/
structure MoveInv (l other : VmPageListTree α) (offset endOffset b : ℕ) (s : MoveState α) : Prop where
  this_wf : s.this.NodesWellFormed
  other_wf : s.other.NodesWellFormed
  this_skew : s.this.listSkew = l.listSkew
  other_skew : s.other.listSkew = other.listSkew
  this_slots : ∀ o, s.this.pages.slots o =
    if offset ≤ o ∧ o < endOffset ∧ o + l.listSkew < b then empty else l.pages.slots o
  other_slots : ∀ p, s.other.pages.slots p =
    if p + offset < endOffset ∧ p + offset + l.listSkew < b then l.pages.slots (p + offset) else empty

namespace MoveInv

open VmPageListTree

variable {l other : VmPageListTree α} {offset endOffset b key : ℕ} {s s' : MoveState α}

theorem start (hthis : l.NodesWellFormed) (hother : other.NodesWellFormed) (hempty : other.list = [])
    (allocs : ℕ) (hb : b ≤ offset + l.listSkew) :
    MoveInv l other offset endOffset b ⟨l, other, [], allocs⟩ := by
  refine ⟨hthis, hother, rfl, rfl, fun o ↦ ?_, fun p ↦ ?_⟩
  · rw [if_neg (fun h' ↦ by omega)]
  · rw [if_neg (fun h' ↦ by omega)]
    by_contra hne
    have hmem := hother.mem_list_of_ne_empty p hne
    rw [hempty] at hmem
    exact List.not_mem_nil hmem

theorem extend (h : MoveInv l other offset endOffset b s) {b' : ℕ} (hbb : b ≤ b')
    (hempty : ∀ o, b ≤ o + l.listSkew → o + l.listSkew < b' → l.pages.slots o = empty) :
    MoveInv l other offset endOffset b' s := by
  refine ⟨h.this_wf, h.other_wf, h.this_skew, h.other_skew, fun o ↦ ?_, fun p ↦ ?_⟩
  · rw [h.this_slots]
    by_cases hob : o + l.listSkew < b
    · simp only [hob, show o + l.listSkew < b' by omega, and_true]
    · rw [if_neg (fun h' ↦ hob h'.2.2)]
      by_cases hob' : o + l.listSkew < b'
      · rw [hempty o (by omega) hob']
        split_ifs <;> rfl
      · rw [if_neg (fun h' ↦ hob' h'.2.2)]
  · rw [h.other_slots]
    by_cases hpb : p + offset + l.listSkew < b
    · simp only [hpb, show p + offset + l.listSkew < b' by omega, and_true]
    · rw [if_neg (fun h' ↦ hpb h'.2)]
      by_cases hpb' : p + offset + l.listSkew < b'
      · rw [hempty (p + offset) (by omega) hpb']
        split_ifs <;> rfl
      · rw [if_neg (fun h' ↦ hpb' h'.2)]

theorem moveNode (h : MoveInv l other offset endOffset key s) (hw : l.NodesWellFormed)
    (hskew : (l.listSkew + offset) % kPageFanOut = other.listSkew) (hk : key ∈ l.list)
    (hso : nodeOffset (offset + l.listSkew) ≤ key)
    (hmove : MoveState.moveNode (offset + l.listSkew) (endOffset + l.listSkew)
      (nodeOffset (offset + l.listSkew - other.listSkew)) s key = some s') :
    MoveInv l other offset endOffset (key + kPageFanOut) s' ∧
      s'.calls.map MigrateCall.slot = s.calls.map MigrateCall.slot ++
        (l.nodeForEveryPageInRange key (max (offset + l.listSkew) key)
          (min (key + kPageFanOut) (endOffset + l.listSkew))).map Prod.snd := by
  have hkey := hw.aligned key hk
  -- the node shift: the skewed `offset` less the skew of `other`, a multiple of the span
  have hns : nodeOffset (offset + l.listSkew - other.listSkew) = offset + l.listSkew - other.listSkew ∧
      nodeOffset (offset + l.listSkew) = offset + l.listSkew - other.listSkew := by
    unfold nodeOffset
    unfold kPageFanOut at *
    omega
  generalize hnsv : nodeOffset (offset + l.listSkew - other.listSkew) = ns at hmove
  have hshift : ns + other.listSkew = offset + l.listSkew := by
    unfold kPageFanOut at hskew
    omega
  have hnsal : ns % kPageFanOut = 0 := by
    unfold kPageFanOut at *
    omega
  have hnk : ns ≤ key := by omega
  have hkns : (key - ns) % kPageFanOut = 0 := by
    unfold kPageFanOut at *
    omega
  have hlookup : ∀ i, s.this.lookup key i = l.lookup key i := by
    intro i
    unfold lookup
    rw [h.this_skew]
    split_ifs with hle
    · rw [h.this_slots, if_neg (fun h' ↦ by omega)]
    · rfl
  have hfilled : ∃ i < kPageFanOut, s.this.filled key i = true := by
    obtain ⟨i, hi, hf⟩ := hw.exists_filled key hk
    exact ⟨i, hi, by rw [filled, hlookup]; exact hf⟩
  have htarget : ∀ p, s.other.nodeOffsetOf p = key - ns → s.other.pages.slots p = empty := by
    intro p hp
    have hb := (nodeOffsetOf_eq_iff hkns).mp hp
    rw [h.other_skew] at hb
    rw [h.other_slots, if_neg (fun h' ↦ by omega)]
  obtain ⟨hskew', hoskew'⟩ := MoveState.listSkew_moveNode hmove
  have hthis := MoveState.slots_this_moveNode hmove hkey
  have hother := MoveState.slots_other_moveNode hmove hkey hnsal hnk htarget
  refine ⟨⟨?_, ?_, hskew'.trans h.this_skew, hoskew'.trans h.other_skew, fun o ↦ ?_, fun p ↦ ?_⟩, ?_⟩
  · refine h.this_wf.of_clear hskew' (fun o ↦ ?_) (fun o ho ↦ ?_) (MoveState.this_list_moveNode hmove)
    · rw [hthis o]
      split_ifs
      · exact Or.inl rfl
      · exact Or.inr rfl
    · rw [hthis o, if_neg (fun h' ↦ ho h'.1)]
  · refine h.other_wf.of_fill hkns hoskew' htarget (fun p hp ↦ ?_)
      (MoveState.other_list_moveNode hmove hkey hnsal (by rw [h.other_skew]; omega) hfilled)
    rw [hother p, if_neg (fun h' ↦ hp h'.1)]
  · rw [hthis o, h.this_slots o, h.this_skew]
    simp only [nodeOffsetOf_eq_iff hkey, h.this_skew]
    split_ifs <;> first | rfl | omega
  · rw [hother p, h.other_slots p]
    simp only [nodeOffsetOf_eq_iff hkns, h.other_skew]
    split_ifs <;> first | rfl | omega | skip
    rw [hlookup, lookup_of_le (by omega),
      show key + (p + other.listSkew + ns - key) - l.listSkew = p + offset by omega]
  · have hnode : s.this.nodeForEveryPageInRange key = l.nodeForEveryPageInRange key := by
      funext a e
      simp only [nodeForEveryPageInRange, filled, hlookup, h.this_skew]
      rfl
    rw [MoveState.calls_moveNode hmove, hnode]

/-- The loop from the nodes `keys` on, which hold every filled slot past `b`,
when it ends with `ZX_OK`: it passes the end of the range, and calls
`on_migrate_fn` on the slots that the walk over those nodes yields. -/
theorem moveLoop (hw : l.NodesWellFormed) (hskew : (l.listSkew + offset) % kPageFanOut = other.listSkew) :
    ∀ (keys : List ℕ) (s : MoveState α) (b : ℕ), MoveInv l other offset endOffset b s →
      keys.Pairwise (· < ·) → (∀ k ∈ keys, k ∈ l.list ∧ b ≤ k) →
      (∀ o, b ≤ o + l.listSkew → l.pages.slots o ≠ empty → l.nodeOffsetOf o ∈ keys) →
      nodeOffset (offset + l.listSkew) ≤ b →
      MoveState.moveLoop (offset + l.listSkew) (endOffset + l.listSkew)
        (nodeOffset (offset + l.listSkew - other.listSkew)) s keys = (.ok, s') →
      (∃ b', endOffset + l.listSkew ≤ b' ∧ MoveInv l other offset endOffset b' s') ∧
        s'.calls.map MigrateCall.slot = s.calls.map MigrateCall.slot ++
          (l.forEveryPageInRangeInternal offset endOffset keys).map Prod.snd := by
  intro keys
  induction keys with
  | nil =>
    intro s b h _ _ hcover _ hloop
    rw [MoveState.moveLoop, Prod.mk.injEq] at hloop
    obtain ⟨-, rfl⟩ := hloop
    -- past `b` nothing is filled
    refine ⟨⟨max b (endOffset + l.listSkew), le_max_right _ _,
      h.extend (le_max_left _ _) fun o hb _ ↦ ?_⟩, by rw [forEveryPageInRangeInternal]; simp⟩
    by_contra hne
    exact List.not_mem_nil (hcover o hb hne)
  | cons k rest ih =>
    intro s b h hsorted hkeys hcover hb hloop
    rw [List.pairwise_cons] at hsorted
    obtain ⟨hk, hbk⟩ := hkeys k List.mem_cons_self
    have hkal := hw.aligned k hk
    have hgap : ∀ o, b ≤ o + l.listSkew → o + l.listSkew < k → l.pages.slots o = empty := by
      intro o hbo hok
      by_contra hne
      exact nodeOffsetOf_not_mem_cons hsorted.1 hok (hcover o hbo hne)
    have hk' := h.extend hbk hgap
    rw [MoveState.moveLoop] at hloop
    split_ifs at hloop with hke
    · rcases hnode : MoveState.moveNode (offset + l.listSkew) (endOffset + l.listSkew)
          (nodeOffset (offset + l.listSkew - other.listSkew)) s k with _ | s₁
      · rw [hnode] at hloop
        simp at hloop
      rw [hnode] at hloop
      obtain ⟨hinv₁, hcalls₁⟩ := hk'.moveNode hw hskew hk (hb.trans hbk) hnode
      have hrest : ∀ k' ∈ rest, k + kPageFanOut ≤ k' := by
        intro k' hk'
        have hlt := hsorted.1 k' hk'
        have hal := hw.aligned k' (hkeys k' (List.mem_cons_of_mem k hk')).1
        unfold kPageFanOut at *
        omega
      obtain ⟨hend, hcalls⟩ := ih s₁ (k + kPageFanOut) hinv₁ hsorted.2
        (fun k' h' ↦ ⟨(hkeys k' (List.mem_cons_of_mem k h')).1, hrest k' h'⟩)
        (fun o ho hne ↦ nodeOffsetOf_mem_of_mem_cons hkal ho (hcover o (by omega) hne))
        (by omega) hloop
      refine ⟨hend, ?_⟩
      rw [hcalls, hcalls₁, forEveryPageInRangeInternal, if_pos hke, List.map_append, List.append_assoc]
    · -- the node at `k` starts past the range, and the loop ends
      rw [Prod.mk.injEq] at hloop
      obtain ⟨-, rfl⟩ := hloop
      refine ⟨⟨k, not_lt.mp hke, hk'⟩, ?_⟩
      rw [forEveryPageInRangeInternal, if_neg hke]
      simp

end MoveInv

namespace VmPageListTree

variable {l other : VmPageListTree α} {offset endOffset allocs : ℕ} {s : MoveState α}

/-- `MoveRange` that returns `ZX_OK`, from a list into an empty one whose skew
lines up with `offset`, moves each slot of `[offset, endOffset)` to the same
place less `offset` and leaves it empty, changes no other slot of either list,
calls `on_migrate_fn` on exactly the filled slots of the range, in order, and
leaves the nodes of both lists well-formed, none of them empty. -/
theorem moveRange_relocates (hthis : l.NodesWellFormed) (hother : other.NodesWellFormed)
    (hempty : other.list = []) (hskew : (l.listSkew + offset) % kPageFanOut = other.listSkew)
    (h : l.moveRange other offset endOffset allocs = (.ok, s)) :
    (∀ o, offset ≤ o → o < endOffset →
      s.other.pages.slots (o - offset) = l.pages.slots o ∧ s.this.pages.slots o = empty) ∧
    (∀ o, o < offset ∨ endOffset ≤ o → s.this.pages.slots o = l.pages.slots o) ∧
    (∀ p, endOffset - offset ≤ p → s.other.pages.slots p = empty) ∧
    s.calls.map MigrateCall.slot = (l.pages.filledIn offset endOffset).map Prod.snd ∧
    s.this.NodesWellFormed ∧ s.other.NodesWellFormed := by
  have hmem : ∀ {k}, k ∈ l.lowerBound (nodeOffset (offset + l.listSkew)) ↔
      k ∈ l.list ∧ nodeOffset (offset + l.listSkew) ≤ k :=
    mem_dropWhile_lt_iff hthis.sorted
  have hal : nodeOffset (offset + l.listSkew) % kPageFanOut = 0 := by
    unfold nodeOffset
    exact Nat.mul_mod_left _ _
  obtain ⟨⟨b, hb, hinv⟩, hcalls⟩ := MoveInv.moveLoop hthis hskew _ _ _
    (MoveInv.start hthis hother hempty allocs (nodeOffset_le _))
    (hthis.sorted.sublist (List.dropWhile_sublist _)) (fun k hk ↦ hmem.mp hk)
    (fun o ho hne ↦ hmem.mpr ⟨hthis.mem_list_of_ne_empty o hne, le_nodeOffset hal ho⟩) le_rfl h
  refine ⟨fun o h₁ h₂ ↦ ⟨?_, ?_⟩, fun o ho ↦ ?_, fun p hp ↦ ?_, ?_, hinv.this_wf, hinv.other_wf⟩
  · rw [hinv.other_slots, if_pos ⟨by omega, by omega⟩, Nat.sub_add_cancel h₁]
  · rw [hinv.this_slots, if_pos ⟨h₁, h₂, by omega⟩]
  · rw [hinv.this_slots, if_neg (fun h' ↦ by omega)]
  · rw [hinv.other_slots, if_neg (fun h' ↦ by omega)]
  · rw [hcalls, List.map_nil, List.nil_append]
    exact congrArg (List.map Prod.snd) hthis.forEveryPageInRangeInternal_lowerBound

/-- Three nodes under a skew of three, with slots at `5`, `12`, `20`, `39` and
`41`: a move of `[10, 40)` covers the first and the last node in part and the
middle one whole. -/
def threeNodes : VmPageListTree Unit where
  listSkew := 3
  list := [0, 16, 32]
  pages := ⟨fun o ↦ if o = 5 ∨ o = 12 ∨ o = 20 ∨ o = 39 ∨ o = 41 then .content () else .empty⟩

/-- An empty list under the skew `13` that lines up with offset `10` of
`threeNodes`. -/
def emptyList : VmPageListTree Unit := ⟨13, [], ⟨fun _ ↦ .empty⟩⟩

theorem threeNodes_nodesWellFormed : threeNodes.NodesWellFormed :=
  (WellFormedBelow.wellFormed (show threeNodes.WellFormedBelow 42 by decide) fun o ho ↦ by
    simp only [threeNodes]
    rw [if_neg (by omega)]).toNodesWellFormed

theorem emptyList_nodesWellFormed : emptyList.NodesWellFormed :=
  (WellFormedBelow.wellFormed (show emptyList.WellFormedBelow 0 by decide) fun _ _ ↦ rfl).toNodesWellFormed

theorem moveRange_relocates_threeNodes :
    threeNodes.NodesWellFormed ∧ emptyList.NodesWellFormed ∧ emptyList.list = [] ∧
      (threeNodes.listSkew + 10) % kPageFanOut = emptyList.listSkew ∧
      ∃ s, threeNodes.moveRange emptyList 10 40 2 = (.ok, s) ∧
        ((∀ o, 10 ≤ o → o < 40 →
          s.other.pages.slots (o - 10) = threeNodes.pages.slots o ∧ s.this.pages.slots o = empty) ∧
        (∀ o, o < 10 ∨ 40 ≤ o → s.this.pages.slots o = threeNodes.pages.slots o) ∧
        (∀ p, 40 - 10 ≤ p → s.other.pages.slots p = empty) ∧
        s.calls.map MigrateCall.slot = (threeNodes.pages.filledIn 10 40).map Prod.snd ∧
        s.this.NodesWellFormed ∧ s.other.NodesWellFormed) :=
  have hok : threeNodes.moveRange emptyList 10 40 2 = (.ok, (threeNodes.moveRange emptyList 10 40 2).2) :=
    Prod.ext (by decide) rfl
  ⟨threeNodes_nodesWellFormed, emptyList_nodesWellFormed, rfl, by decide, _, hok,
    moveRange_relocates threeNodes_nodesWellFormed emptyList_nodesWellFormed rfl (by decide) hok⟩

-- The slots at `12` and `39` lie in nodes the range covers in part, and
-- `on_migrate_fn` gets their skewed offsets; the node of `20` moves whole, and
-- it gets its offset.
example : (threeNodes.moveRange emptyList 10 40 2).2.calls = [⟨12, 15⟩, ⟨20, 20⟩, ⟨39, 42⟩] := by
  decide +kernel
example : (threeNodes.moveRange emptyList 10 40 2).2.this.list = [0, 32] := by decide +kernel
example : (threeNodes.moveRange emptyList 10 40 2).2.other.list = [0, 16, 32] := by decide +kernel
-- with one allocation, the node at `32` cannot get its new node
example : (threeNodes.moveRange emptyList 10 40 1).1 = .errNoMemory := by decide

end VmPageListTree

end Zircon.Vm
