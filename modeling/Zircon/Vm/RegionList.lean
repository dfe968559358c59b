import Mathlib
import Zircon.Lib.ExceptFold
import Zircon.Lib.WavlTree

/-!
# Finding a spot for a new subregion

`RegionList::FindSpotAtIndex` (`vm/include/vm/vm_address_region.h`) counts
the aligned spots of a requested size in the gaps of a parent range that the
subregions leave free, and returns the spot at a given index.  It walks the
subregion tree by parent links, using the augmented state of each subtree
(`vm_address_region_subtree_state.h`) to skip subtrees without a large enough
gap and an `already_visited` watermark to avoid descending twice.

The subregions are a `WavlTree` ordered by base; a node of the walk is its
path from the root.  The augmented state is computed as `Update` restores it,
so every tree here has correct augmented state.  Addresses and sizes are
`UInt64`, as `vaddr_t` and `size_t` on a 64-bit target.

When the walk comes back up from a right child, it runs the parent's body
again: the watermark keeps it from descending a second time, but the gaps on
both sides of the parent are counted again.
-/

namespace Zircon.Vm

open Zircon.Lib

/-- A subregion: its base address and size. -/
structure Subregion where
  base : UInt64
  size : UInt64
  deriving DecidableEq, Repr

namespace Subregion

def firstByte (r : Subregion) : UInt64 := r.base

def lastByte (r : Subregion) : UInt64 := r.base + r.size - 1

end Subregion

/-- `Gap`: the bytes strictly between two extents. -/
def gap (leftLastByte rightFirstByte : UInt64) : UInt64 :=
  rightFirstByte - leftLastByte - 1

/-- `ffl::SaturateAddAs<size_t>`. -/
def saturateAdd (a b : UInt64) : UInt64 :=
  if a.toNat + b.toNat < 2 ^ 64 then a + b else UInt64.ofNat (2 ^ 64 - 1)

/-- `ffl::SaturateSubtractAs<size_t>`. -/
def saturateSubtract (a b : UInt64) : UInt64 :=
  if b ≤ a then a - b else 0

/-- `ROUNDUP` to a power of two. -/
def roundUp (a b : UInt64) : UInt64 :=
  (a + (b - 1)) &&& ~~~(b - 1)

/-- `IS_ROUNDED`. -/
def isRounded (a b : UInt64) : Bool :=
  a &&& (b - 1) == 0

namespace RegionTree

/-! The augmented state of a subtree, as `Update` computes it from the children. -/

def minFirstByte : WavlTree Subregion → UInt64
  | .leaf => 0
  | .node .leaf x _ _ => x.firstByte
  | .node l _ _ _ => minFirstByte l

def maxLastByte : WavlTree Subregion → UInt64
  | .leaf => 0
  | .node _ x _ .leaf => x.lastByte
  | .node _ _ _ r => maxLastByte r

def maxGap : WavlTree Subregion → UInt64
  | .leaf => 0
  | .node l x _ r =>
    let leftMaxGap := match l with
      | .leaf => 0
      | l => max (gap (maxLastByte l) x.firstByte) (maxGap l)
    let rightMaxGap := match r with
      | .leaf => 0
      | r => max (gap x.lastByte (minFirstByte r)) (maxGap r)
    max leftMaxGap rightMaxGap

/-- The subtree at a path of child directions, `true` for right. -/
def subtreeAt : WavlTree Subregion → List Bool → WavlTree Subregion
  | t, [] => t
  | .leaf, _ :: _ => .leaf
  | .node l _ _ _, false :: p => subtreeAt l p
  | .node _ _ _ r, true :: p => subtreeAt r p

end RegionTree

open RegionTree

/-- `FindSpotAtIndexFailed`. -/
structure FindSpotAtIndexFailed where
  candidateSpotCount : UInt64
  deriving DecidableEq, Repr

/-- The result of `FindSpotAtIndex`. -/
abbrev SpotResult := Except FindSpotAtIndexFailed UInt64

section FindSpot

variable (alignPow2 : UInt64) (size upperLimit : UInt64)

/-- The `spots_in_range` lambda. -/
def spotsInRange (alignedBase alignedSize : UInt64) : UInt64 :=
  let rangeLimit := saturateAdd alignedBase alignedSize
  let clampedRangeSize :=
    if rangeLimit < upperLimit then alignedSize else alignedSize - (rangeLimit - upperLimit)
  if clampedRangeSize ≥ size then ((clampedRangeSize - size) >>> alignPow2) + 1 else 0

/-- `AlignedRange`. -/
structure AlignedRange where
  base : UInt64
  size : UInt64

/-- The `align_range` lambda: the aligned base, and the size left to the same end. -/
def alignRange (rangeBase rangeSize : UInt64) : AlignedRange :=
  let alignedBase := roundUp rangeBase (1 <<< alignPow2)
  ⟨alignedBase, saturateSubtract rangeSize (alignedBase - rangeBase)⟩

/-- The block that every gap goes through: give up past `upper_limit`, count
the gap's spots, and return the spot at the index if it lies in this gap.
A `return` is an `error` of the outer `Except`. -/
def considerGap (gapBase gapSize targetIndex count : UInt64) :
    Except SpotResult (UInt64 × UInt64) :=
  let alignedGap := alignRange alignPow2 gapBase gapSize
  if alignedGap.base ≥ upperLimit then .error (.error ⟨count⟩)
  else
    let spotCount := spotsInRange alignPow2 size upperLimit alignedGap.base alignedGap.size
    if targetIndex < spotCount then .error (.ok (alignedGap.base + (targetIndex <<< alignPow2)))
    else .ok (targetIndex - spotCount, count + spotCount)

/-- The variables of the traversal loop. -/
structure Traversal where
  node : Option (List Bool)
  alreadyVisited : UInt64
  targetIndex : UInt64
  count : UInt64
  deriving DecidableEq, Repr

/-- The end of the loop body at `pos`, whose subtree `here` is fully visited:
set the watermark to its end and go up. -/
def ascend (pos : List Bool) (here : WavlTree Subregion) (targetIndex count : UInt64) : Traversal :=
  ⟨if pos = [] then none else some pos.dropLast, maxLastByte here, targetIndex, count⟩

/-- The right half of the loop body at the node `pos`, whose subtree `here` is `l`, `x`, `r`. -/
def visitRight (pos : List Bool) (here r : WavlTree Subregion) (x : Subregion)
    (alreadyVisited targetIndex count : UInt64) : Except SpotResult Traversal :=
  match r with
  | .leaf => .ok (ascend pos here targetIndex count)
  | r => do
    let (targetIndex, count) ← considerGap alignPow2 size upperLimit (x.lastByte + 1)
      (gap x.lastByte (minFirstByte r)) targetIndex count
    if maxGap r ≥ size ∧ maxLastByte r > alreadyVisited then
      .ok ⟨some (pos ++ [true]), alreadyVisited, targetIndex, count⟩
    else .ok (ascend pos here targetIndex count)

/-- One pass of the `while (node)` loop. -/
def visitNode (pos : List Bool) (here : WavlTree Subregion) (st : Traversal) :
    Except SpotResult Traversal :=
  match here with
  | .leaf => .ok { st with node := none }
  | .node l x _ r =>
    if maxGap here ≥ size then
      match l with
      | .leaf => visitRight alignPow2 size upperLimit pos here r x st.alreadyVisited st.targetIndex
          st.count
      | l =>
        if maxGap l ≥ size ∧ maxLastByte l > st.alreadyVisited then
          .ok { st with node := some (pos ++ [false]) }
        else do
          let (targetIndex, count) ← considerGap alignPow2 size upperLimit (maxLastByte l + 1)
            (gap (maxLastByte l) x.firstByte) st.targetIndex st.count
          visitRight alignPow2 size upperLimit pos here r x st.alreadyVisited targetIndex count
    else .ok (ascend pos here st.targetIndex st.count)

/-- The loop, with `fuel` passes; it stops early once `node` is null. -/
def traverse (t : WavlTree Subregion) : ℕ → Traversal → Except SpotResult Traversal
  | 0, st => .ok st
  | fuel + 1, st =>
    match st.node with
    | none => .ok st
    | some pos => do
      let st ← visitNode alignPow2 size upperLimit pos (subtreeAt t pos) st
      traverse t fuel st

/-- The body of `RegionList::FindSpotAtIndex`, with `fuel` passes of its
loop.  Every `return` of the source is an `error`; `ok` means the fuel ran out. -/
def findSpotAtIndexBody (t : WavlTree Subregion) (fuel : ℕ)
    (targetIndex parentBase parentSize : UInt64) : Except SpotResult Unit := do
  let gapSize := match t with
    | .leaf => parentSize
    | t => minFirstByte t - parentBase
  let (targetIndex, count) ← considerGap alignPow2 size upperLimit parentBase gapSize targetIndex 0
  let st ← traverse alignPow2 size upperLimit t fuel ⟨some [], 0, targetIndex, count⟩
  if st.node.isSome then return ()
  match t with
  | .leaf => .error (.error ⟨st.count⟩)
  | t =>
    let gapBase := saturateAdd (maxLastByte t) 1
    let (_, count) ← considerGap alignPow2 size upperLimit gapBase
      (parentSize - (gapBase - parentBase)) st.targetIndex st.count
    .error (.error ⟨count⟩)

/-- `RegionList::FindSpotAtIndex`; `none` if the fuel ran out. -/
def findSpotAtIndex (t : WavlTree Subregion) (fuel : ℕ) (targetIndex parentBase parentSize : UInt64) :
    Option SpotResult :=
  match findSpotAtIndexBody alignPow2 size upperLimit t fuel targetIndex parentBase parentSize with
  | .ok () => none
  | .error r => some r

end FindSpot

/-! ### Every spot is aligned

`GetAllocSpot` asserts `IS_ROUNDED(*alloc_spot, 1UL << align_pow2)` on the
spot it returns.  The assertion holds of every tree and index: each spot is a
rounded-up gap base plus a multiple of the alignment. -/

section Alignment

variable {alignPow2 : UInt64}

theorem one_shiftLeft_toNat (ha : alignPow2 < 64) :
    ((1 : UInt64) <<< alignPow2).toNat = 2 ^ alignPow2.toNat := by
  have h : alignPow2.toNat < 64 := ha
  simp only [UInt64.toNat_shiftLeft, UInt64.reduceToNat, Nat.one_shiftLeft, Nat.mod_eq_of_lt h]
  exact Nat.mod_eq_of_lt (Nat.pow_lt_pow_right (by norm_num) h)

theorem isRounded_iff (ha : alignPow2 < 64) (z : UInt64) :
    isRounded z (1 <<< alignPow2) = true ↔ z.toNat % 2 ^ alignPow2.toNat = 0 := by
  have hpos : (1 : UInt64) ≤ 1 <<< alignPow2 := by
    rw [UInt64.le_iff_toNat_le, one_shiftLeft_toNat ha]
    exact Nat.one_le_two_pow
  have hmask : (z &&& ((1 <<< alignPow2) - 1)).toNat = z.toNat % 2 ^ alignPow2.toNat := by
    rw [UInt64.toNat_and, UInt64.toNat_sub_of_le _ _ hpos, one_shiftLeft_toNat ha]
    exact Nat.and_two_pow_sub_one_eq_mod z.toNat alignPow2.toNat
  rw [isRounded, beq_iff_eq, ← hmask, ← UInt64.toNat_inj]
  rfl

theorem isRounded_roundUp (x b : UInt64) : isRounded (roundUp x b) b = true := by
  rw [isRounded, roundUp, UInt64.and_assoc, UInt64.not_and_self, UInt64.and_zero]
  rfl

theorem isRounded_add_shiftLeft (ha : alignPow2 < 64) {x : UInt64}
    (hx : isRounded x (1 <<< alignPow2) = true) (t : UInt64) :
    isRounded (x + (t <<< alignPow2)) (1 <<< alignPow2) = true := by
  have h : alignPow2.toNat < 64 := ha
  have hdvd : 2 ^ alignPow2.toNat ∣ 2 ^ 64 := Nat.pow_dvd_pow 2 h.le
  have ht : (t <<< alignPow2).toNat % 2 ^ alignPow2.toNat = 0 := by
    rw [UInt64.toNat_shiftLeft, Nat.mod_eq_of_lt h, Nat.shiftLeft_eq, Nat.mod_mod_of_dvd _ hdvd]
    simp
  rw [isRounded_iff ha] at hx ⊢
  rw [UInt64.toNat_add, Nat.mod_mod_of_dvd _ hdvd, Nat.add_mod, hx, ht, Nat.add_zero, Nat.zero_mod]

variable {size upperLimit : UInt64}

/-- The early returns of a loop piece that only returns through `considerGap`. -/
def SpotsRounded (alignPow2 : UInt64) {α : Type} (e : Except SpotResult α) : Prop :=
  ∀ s, e = .error (.ok s) → isRounded s (1 <<< alignPow2) = true

theorem spotsRounded_ok {α : Type} (a : α) : SpotsRounded alignPow2 (.ok a) := by
  intro s h
  cases h

theorem SpotsRounded.bind {α β : Type} {x : Except SpotResult α} {g : α → Except SpotResult β}
    (hx : SpotsRounded alignPow2 x) (hg : ∀ a, SpotsRounded alignPow2 (g a)) :
    SpotsRounded alignPow2 (x >>= g) := by
  intro s h
  rcases Lib.bind_eq_error.mp h with h | ⟨a, -, h⟩
  · exact hx s h
  · exact hg a s h

theorem considerGap_rounded (ha : alignPow2 < 64) (gapBase gapSize targetIndex count : UInt64) :
    SpotsRounded alignPow2 (considerGap alignPow2 size upperLimit gapBase gapSize targetIndex count) := by
  intro s h
  dsimp only [considerGap] at h
  split_ifs at h
  · cases h
  · cases h
    exact isRounded_add_shiftLeft ha (isRounded_roundUp _ _) _

theorem visitRight_rounded (ha : alignPow2 < 64) (pos : List Bool) (here r : WavlTree Subregion)
    (x : Subregion) (alreadyVisited targetIndex count : UInt64) :
    SpotsRounded alignPow2
      (visitRight alignPow2 size upperLimit pos here r x alreadyVisited targetIndex count) := by
  unfold visitRight
  split
  · exact spotsRounded_ok _
  · refine (considerGap_rounded ha _ _ _ _).bind fun _ ↦ ?_
    split_ifs <;> exact spotsRounded_ok _

theorem visitNode_rounded (ha : alignPow2 < 64) (pos : List Bool) (here : WavlTree Subregion)
    (st : Traversal) : SpotsRounded alignPow2 (visitNode alignPow2 size upperLimit pos here st) := by
  unfold visitNode
  split
  · exact spotsRounded_ok _
  · split_ifs
    · split
      · exact visitRight_rounded ha _ _ _ _ _ _ _
      · split_ifs
        · exact spotsRounded_ok _
        · exact (considerGap_rounded ha _ _ _ _).bind fun _ ↦ visitRight_rounded ha _ _ _ _ _ _ _
    · exact spotsRounded_ok _

theorem traverse_rounded (ha : alignPow2 < 64) (t : WavlTree Subregion) :
    ∀ (fuel : ℕ) (st : Traversal),
      SpotsRounded alignPow2 (traverse alignPow2 size upperLimit t fuel st) := by
  intro fuel
  induction fuel with
  | zero => exact fun st ↦ spotsRounded_ok st
  | succ fuel ih =>
    intro st
    unfold traverse
    split
    · exact spotsRounded_ok _
    · exact (visitNode_rounded ha _ _ _).bind ih

theorem findSpotAtIndexBody_rounded (ha : alignPow2 < 64) (t : WavlTree Subregion) (fuel : ℕ)
    (targetIndex parentBase parentSize : UInt64) :
    SpotsRounded alignPow2
      (findSpotAtIndexBody alignPow2 size upperLimit t fuel targetIndex parentBase parentSize) := by
  unfold findSpotAtIndexBody
  refine (considerGap_rounded ha _ _ _ _).bind fun _ ↦ (traverse_rounded ha t _ _).bind fun st ↦ ?_
  split_ifs
  · exact spotsRounded_ok _
  · split
    · exact fun _ h ↦ by cases h
    · exact (considerGap_rounded ha _ _ _ _).bind fun _ _ h ↦ by cases h

end Alignment

/-- The spots the search is meant to enumerate: the aligned `s` with
`[s, s + size)` in the parent range, ending by `upperLimit` and overlapping no
subregion, in increasing order. -/
def freeSpots (regions : List Subregion) (alignPow2 size parentBase parentSize upperLimit : ℕ) :
    List ℕ :=
  ((List.range ((parentBase + parentSize) / 2 ^ alignPow2 + 1)).map (· * 2 ^ alignPow2)).filter
    fun s ↦ parentBase ≤ s ∧ s + size ≤ parentBase + parentSize ∧ s + size ≤ upperLimit ∧
      regions.all fun r ↦ s + size ≤ r.base.toNat ∨ r.base.toNat + r.size.toNat ≤ s

/-- The subregions in order are nonempty, disjoint and inside the parent range. -/
def regionsWellFormed (regions : List Subregion) (parentBase parentSize : ℕ) : Bool :=
  regions.all (fun r ↦ 0 < r.size.toNat ∧ parentBase ≤ r.base.toNat ∧
      r.base.toNat + r.size.toNat ≤ parentBase + parentSize) &&
    (regions.zip regions.tail).all fun p ↦ p.1.base.toNat + p.1.size.toNat ≤ p.2.base.toNat

/-- The tree drawn in `vm_address_region_subtree_state.h`, in pages: subregions
at pages 0-1, 4-5, 6-9 and 15-20 of a 21-page parent, with 4-5 at the root and
6-9 the left child of 15-20. -/
def headerExampleTree : WavlTree Subregion :=
  .node (.node .leaf ⟨0, 0x2000⟩ 1 .leaf) ⟨0x4000, 0x2000⟩ 3
    (.node (.node .leaf ⟨0x6000, 0x4000⟩ 1 .leaf) ⟨0xF000, 0x6000⟩ 2 .leaf)

theorem findSpotAtIndex_recounts_parent_gaps :
    regionsWellFormed headerExampleTree.toList 0 0x15000 = true ∧
      freeSpots headerExampleTree.toList 12 0x1000 0 0x15000 (2 ^ 64 - 1) =
        [0x2000, 0x3000, 0xA000, 0xB000, 0xC000, 0xD000, 0xE000] ∧
      findSpotAtIndex 12 0x1000 0xFFFFFFFFFFFFFFFF headerExampleTree 13 7 0 0x15000 =
        some (.ok 0x2000) ∧
      findSpotAtIndex 12 0x1000 0xFFFFFFFFFFFFFFFF headerExampleTree 13 9 0 0x15000 =
        some (.error ⟨9⟩) := by
  refine ⟨by decide, by decide, by decide, by decide⟩

end Zircon.Vm
