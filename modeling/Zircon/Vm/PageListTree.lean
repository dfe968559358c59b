import Zircon.Vm.PageListCov
import Zircon.Lib.RangeSearch
import Zircon.Lib.StdAlgorithm

/-!
# The nodes of the page list

`VmPageList` keeps its slots in a tree `list_` of nodes of `kPageFanOut`
slots, keyed by the offset of each node's first slot.  The offsets in the tree
are skewed: slot `o` of the list lies at `o + list_skew_`, at index
`NodeIndex(o)` of the node `NodeOffset(o)`.  A well-formed list keeps no empty
node.

The model keeps the tree as its keys in increasing order beside the slots of
the flat model: index `i` of the node at `key` is the flat slot
`key + i - list_skew_`, and the skewed offsets below the skew hold nothing.  An
operation on nodes is then its allocations and frees of nodes around writes to
slots that the flat model already has.

The interval queries of the source read one node: `NodeStartsInInterval` its
first filled slot, and `VmPageListNode::IsOffsetInInterval` the slot itself,
then the first filled slot to its right, else the last one to its left.  On a
well-formed list the helper built on them finds an interval of the state that
the flat model's coverage gives (`isOffsetInIntervalHelper_map`), and an offset
with no node at or after its own lies in no interval
(`cov_eq_none_of_lowerBound_eq_nil`).
-/

namespace Zircon.Vm

open Zircon.Lib VmPageOrMarker

theorem nodeOffset_le (q : ℕ) : nodeOffset q ≤ q := Nat.div_mul_le_self q kPageFanOut

theorem lt_nodeOffset_add (q : ℕ) : q < nodeOffset q + kPageFanOut := by
  unfold nodeOffset kPageFanOut
  omega

theorem nodeOffset_mono {q q' : ℕ} (h : q ≤ q') : nodeOffset q ≤ nodeOffset q' := by
  unfold nodeOffset kPageFanOut
  omega

theorem le_nodeOffset {k q : ℕ} (hk : k % kPageFanOut = 0) (h : k ≤ q) : k ≤ nodeOffset q := by
  unfold nodeOffset
  unfold kPageFanOut at hk ⊢
  omega

theorem nodeOffset_eq_iff {k q : ℕ} (hk : k % kPageFanOut = 0) :
    nodeOffset q = k ↔ k ≤ q ∧ q < k + kPageFanOut := by
  unfold nodeOffset
  unfold kPageFanOut at hk ⊢
  omega

/-- A `VmPageList` with the tree `list_` of its nodes: the skew, the keys of
the nodes in increasing order, and the slot at every page offset. -/
structure VmPageListTree (α : Type*) where
  listSkew : ℕ
  list : List ℕ
  pages : VmPageList α

namespace VmPageListTree

variable {α : Type*}

section Queries

variable (l : VmPageListTree α)

/-- `NodeOffset`, in pages: the key of the node that holds `offset`. -/
def nodeOffsetOf (offset : ℕ) : ℕ := nodeOffset (offset + l.listSkew)

/-- `NodeIndex`: the index of `offset` in its node. -/
def nodeIndex (offset : ℕ) : ℕ := (offset + l.listSkew) % kPageFanOut

/-- `Lookup(index)` on the node at `key`: the slot at the skewed offset
`key + index`.  No offset of the list lies below the skew. -/
def lookup (key index : ℕ) : VmPageOrMarker α :=
  if l.listSkew ≤ key + index then l.pages.slots (key + index - l.listSkew) else empty

/-- Whether slot `index` of the node at `key` is filled. -/
def filled (key index : ℕ) : Bool := !(l.lookup key index).isEmpty

/-- `list_.lower_bound(key)`: the keys from the first one at least `key`. -/
def lowerBound (key : ℕ) : List ℕ := l.list.dropWhile fun k ↦ decide (k < key)

/-- `VmPageListNode::NodeStartsInInterval` of the node at `key`: its first
filled slot, when that is an interval end.  The source panics on an empty node. -/
def nodeStartsInInterval (key : ℕ) : Option (VmPageOrMarker α) :=
  match firstIn (l.filled key) 0 kPageFanOut with
  | some i => if (l.lookup key i).isIntervalEnd then some (l.lookup key i) else none
  | none => none

/-- `VmPageListNode::IsOffsetInInterval` of the node at `key`, for the skewed
offset `off` in it.  The source panics on an empty node. -/
def nodeIsOffsetInInterval (key off : ℕ) : Option (VmPageOrMarker α) :=
  let index := off - key
  if l.filled key index then
    if (l.lookup key index).isInterval then some (l.lookup key index) else none
  else
    -- an end to the right puts `off` in an interval, anything else there does not
    match firstIn (l.filled key) (index + 1) (kPageFanOut - (index + 1)) with
    | some i => if (l.lookup key i).isIntervalEnd then some (l.lookup key i) else none
    | none =>
      -- with nothing to the right, a start to the left does
      match lastIn (l.filled key) 0 index with
      | some i => if (l.lookup key i).isIntervalStart then some (l.lookup key i) else none
      | none => none

/-- `IsOffsetInIntervalHelper`, on the node at `lowerBound` that `lower_bound`
found for `offset`. -/
def isOffsetInIntervalHelper (offset lowerBound : ℕ) : Option (VmPageOrMarker α) :=
  let offset := offset + l.listSkew
  if offset < lowerBound then l.nodeStartsInInterval lowerBound
  else l.nodeIsOffsetInInterval lowerBound offset

end Queries

section Lookup

variable {l : VmPageListTree α} {key i o : ℕ}

theorem lookup_of_le (h : l.listSkew ≤ key + i) :
    l.lookup key i = l.pages.slots (key + i - l.listSkew) :=
  if_pos h

theorem lookup_sub (h : key ≤ o + l.listSkew) : l.lookup key (o + l.listSkew - key) = l.pages.slots o := by
  rw [lookup_of_le (by omega), show key + (o + l.listSkew - key) - l.listSkew = o by omega]

theorem filled_eq_true_iff : l.filled key i = true ↔ l.lookup key i ≠ empty := by
  unfold filled
  rcases l.lookup key i with _ | _ | ⟨_, _, _⟩ <;> simp

theorem slots_eq_empty_of_filled_eq_false (hk : key ≤ o + l.listSkew)
    (h : l.filled key (o + l.listSkew - key) = false) : l.pages.slots o = empty := by
  rw [← lookup_sub hk]
  by_contra hne
  rw [filled_eq_true_iff.mpr hne] at h
  exact Bool.noConfusion h

theorem le_of_filled (h : l.filled key i = true) : l.listSkew ≤ key + i := by
  by_contra hlt
  rw [filled_eq_true_iff, lookup, if_neg hlt] at h
  exact h rfl

theorem nodeOffsetOf_not_mem_cons {k : ℕ} {rest : List ℕ} (hrest : ∀ k' ∈ rest, k < k')
    (h : o + l.listSkew < k) : l.nodeOffsetOf o ∉ k :: rest := by
  intro hmem
  have hle := nodeOffset_le (o + l.listSkew)
  rcases List.mem_cons.mp hmem with heq | hin
  · unfold nodeOffsetOf at heq
    omega
  · have := hrest _ hin
    unfold nodeOffsetOf at this
    omega

theorem nodeOffsetOf_mem_of_mem_cons {k : ℕ} {rest : List ℕ} (hk : k % kPageFanOut = 0)
    (h : k + kPageFanOut ≤ o + l.listSkew) (hmem : l.nodeOffsetOf o ∈ k :: rest) :
    l.nodeOffsetOf o ∈ rest := by
  have hle := le_nodeOffset ((Nat.add_mod_right k kPageFanOut).trans hk) h
  rcases List.mem_cons.mp hmem with heq | hin
  · unfold nodeOffsetOf at heq
    unfold kPageFanOut at hle
    omega
  · exact hin

end Lookup

/-- What the source keeps of the nodes of a page list: a skew below the span
of a node, node keys that are multiples of the span in increasing order, every
filled slot in a node and no empty node. -/
structure NodesWellFormed (l : VmPageListTree α) : Prop where
  skew_lt : l.listSkew < kPageFanOut
  sorted : l.list.Pairwise (· < ·)
  aligned : ∀ k ∈ l.list, k % kPageFanOut = 0
  mem_list_of_ne_empty : ∀ o, l.pages.slots o ≠ empty → l.nodeOffsetOf o ∈ l.list
  exists_filled : ∀ k ∈ l.list, ∃ i < kPageFanOut, l.filled k i = true

/-- What the source keeps of a page list: its nodes, and well-formed zero
intervals, each of which has its end. -/
structure WellFormed (l : VmPageListTree α) : Prop extends l.NodesWellFormed where
  intervals : l.pages.WellFormed
  closes : ∀ o, l.pages.carry o ≠ none → ∃ e, o ≤ e ∧ (l.pages.slots e).isIntervalEnd = true

namespace WellFormed

variable {l : VmPageListTree α} (hw : l.WellFormed) {o k : ℕ} {rest : List ℕ}
include hw

theorem slots_eq_empty_before_lowerBound (hlb : l.lowerBound (l.nodeOffsetOf o) = k :: rest) {x : ℕ}
    (hox : o ≤ x) (hxk : x + l.listSkew < k) : l.pages.slots x = empty := by
  by_contra hne
  have hmem := hw.mem_list_of_ne_empty x hne
  have hle : l.nodeOffsetOf o ≤ l.nodeOffsetOf x := nodeOffset_mono (by omega)
  have hkx := (dropWhile_lt_eq_cons hw.sorted hlb).2.2 _ hmem hle
  have := nodeOffset_le (x + l.listSkew)
  unfold nodeOffsetOf at hkx
  omega

theorem eq_nodeOffsetOf (hlb : l.lowerBound (l.nodeOffsetOf o) = k :: rest)
    (hk : k ≤ o + l.listSkew) : k = l.nodeOffsetOf o := by
  obtain ⟨hmem, hkey, -⟩ := dropWhile_lt_eq_cons hw.sorted hlb
  have := le_nodeOffset (hw.aligned k hmem) hk
  unfold nodeOffsetOf at hkey ⊢
  omega

theorem firstIn_filled_ne_none (hk : k ∈ l.list) : firstIn (l.filled k) 0 kPageFanOut ≠ none := by
  obtain ⟨i, hi, hfilled⟩ := hw.exists_filled k hk
  rw [Ne, firstIn_eq_none_iff]
  intro h
  rw [h i (Nat.zero_le _) (by omega)] at hfilled
  exact Bool.noConfusion hfilled

theorem cov_of_next_filled {e : ℕ} (hoe : o < e) (h : ∀ x, o ≤ x → x < e → l.pages.slots x = empty)
    (he : l.pages.slots e ≠ empty) :
    (if (l.pages.slots e).isIntervalEnd then some (l.pages.slots e) else none).map
      getZeroIntervalDirtyState = l.pages.cov o := by
  rw [VmPageList.cov_eq_slotCov, h o le_rfl hoe, hw.intervals.carry_of_next_filled hoe.le h he]
  split_ifs <;> rfl

theorem nodeStartsInInterval_map (hlb : l.lowerBound (l.nodeOffsetOf o) = k :: rest)
    (hlt : o + l.listSkew < k) :
    (l.nodeStartsInInterval k).map getZeroIntervalDirtyState = l.pages.cov o := by
  have hk := (dropWhile_lt_eq_cons hw.sorted hlb).1
  unfold nodeStartsInInterval
  rcases hfirst : firstIn (l.filled k) 0 kPageFanOut with _ | j
  · exact absurd hfirst (hw.firstIn_filled_ne_none hk)
  obtain ⟨-, hj, hjfilled, hbefore⟩ := firstIn_eq_some_iff.mp hfirst
  dsimp only
  have hslot : l.lookup k j = l.pages.slots (k + j - l.listSkew) := lookup_of_le (by omega)
  rw [hslot]
  refine hw.cov_of_next_filled (by omega : o < k + j - l.listSkew) ?_ ?_
  · intro x hox hxe
    by_cases hxk : x + l.listSkew < k
    · exact hw.slots_eq_empty_before_lowerBound hlb hox hxk
    · exact slots_eq_empty_of_filled_eq_false (by omega) (hbefore _ (Nat.zero_le _) (by omega))
  · rw [← hslot]
    exact filled_eq_true_iff.mp hjfilled

theorem nodeIsOffsetInInterval_map (hk : l.nodeOffsetOf o ∈ l.list) :
    (l.nodeIsOffsetInInterval (l.nodeOffsetOf o) (o + l.listSkew)).map getZeroIntervalDirtyState =
      l.pages.cov o := by
  have hle := nodeOffset_le (o + l.listSkew)
  have hlt := lt_nodeOffset_add (o + l.listSkew)
  unfold nodeIsOffsetInInterval
  dsimp only
  -- the index of `o` in its node, and the flat offset of index `i`
  generalize hkey : l.nodeOffsetOf o = key at hk hle hlt ⊢
  unfold nodeOffsetOf at hkey
  have hself : l.lookup key (o + l.listSkew - key) = l.pages.slots o := lookup_sub (by omega)
  have hflat : ∀ i, l.filled key i = true → l.lookup key i = l.pages.slots (key + i - l.listSkew) :=
    fun i hi ↦ lookup_of_le (le_of_filled hi)
  by_cases hfilled : l.filled key (o + l.listSkew - key) = true
  · -- the slot itself is a sentinel or content
    have hne : l.pages.slots o ≠ empty := by
      rw [← hself]
      exact filled_eq_true_iff.mp hfilled
    rw [if_pos hfilled, hself, VmPageList.cov_eq_slotCov]
    rcases hs : l.pages.slots o with _ | _ | ⟨_, _, _⟩
    · exact absurd hs hne
    all_goals rfl
  rw [if_neg hfilled]
  have hfalse : l.filled key (o + l.listSkew - key) = false := by simpa using hfilled
  have hempty : l.pages.slots o = empty := slots_eq_empty_of_filled_eq_false (by omega) hfalse
  rcases hright : firstIn (l.filled key) (o + l.listSkew - key + 1)
      (kPageFanOut - (o + l.listSkew - key + 1)) with _ | j
  · rcases hleft : lastIn (l.filled key) 0 (o + l.listSkew - key) with _ | j
    · -- an empty node: none of its slots is filled
      obtain ⟨i, hi, hifilled⟩ := hw.exists_filled key hk
      rw [firstIn_eq_none_iff] at hright
      rw [lastIn_eq_none_iff] at hleft
      rcases Nat.lt_trichotomy i (o + l.listSkew - key) with hio | rfl | hio
      · rw [hleft i (Nat.zero_le _) (by omega)] at hifilled
        exact Bool.noConfusion hifilled
      · exact absurd hifilled hfilled
      · rw [hright i (by omega) (by omega)] at hifilled
        exact Bool.noConfusion hifilled
    · -- the last filled slot to the left passes its state on to `o`
      obtain ⟨-, hj, hjfilled, hafter⟩ := lastIn_eq_some_iff.mp hleft
      have hjskew := le_of_filled hjfilled
      dsimp only
      rw [hflat j hjfilled, VmPageList.cov_eq_slotCov, hempty,
        VmPageList.carry_of_last (a := key + j - l.listSkew) (by omega)]
      · rw [carryPast_of_ne_empty (by rw [← hflat j hjfilled]; exact filled_eq_true_iff.mp hjfilled)]
        split_ifs <;> rfl
      · intro x hjx hxo
        exact slots_eq_empty_of_filled_eq_false (by omega) (hafter _ (by omega) (by omega))
  · -- the first filled slot to the right decides
    obtain ⟨hj₁, hj, hjfilled, hbefore⟩ := firstIn_eq_some_iff.mp hright
    dsimp only
    rw [hflat j hjfilled]
    refine hw.cov_of_next_filled (by omega : o < key + j - l.listSkew) ?_ ?_
    · intro x hox hxe
      rcases Nat.eq_or_lt_of_le hox with rfl | hox
      · exact hempty
      · exact slots_eq_empty_of_filled_eq_false (by omega) (hbefore _ (by omega) (by omega))
    · rw [← hflat j hjfilled]
      exact filled_eq_true_iff.mp hjfilled

theorem isOffsetInIntervalHelper_map (hlb : l.lowerBound (l.nodeOffsetOf o) = k :: rest) :
    (l.isOffsetInIntervalHelper o k).map getZeroIntervalDirtyState = l.pages.cov o := by
  unfold isOffsetInIntervalHelper
  dsimp only
  split_ifs with hlt
  · exact hw.nodeStartsInInterval_map hlb hlt
  · have hk := hw.eq_nodeOffsetOf hlb (not_lt.mp hlt)
    have hmem := (dropWhile_lt_eq_cons hw.sorted hlb).1
    subst hk
    exact hw.nodeIsOffsetInInterval_map hmem

theorem cov_eq_none_of_lowerBound_eq_nil (hlb : l.lowerBound (l.nodeOffsetOf o) = []) :
    l.pages.cov o = none := by
  have hall := lt_of_dropWhile_lt_eq_nil hlb
  have hempty : ∀ x, o ≤ x → l.pages.slots x = empty := by
    intro x hox
    by_contra hne
    have hx := hall _ (hw.mem_list_of_ne_empty x hne)
    have hle : l.nodeOffsetOf o ≤ l.nodeOffsetOf x := nodeOffset_mono (by omega)
    omega
  rw [VmPageList.cov_eq_slotCov, hempty o le_rfl]
  by_contra hcarry
  obtain ⟨e, hoe, hend⟩ := hw.closes o hcarry
  rw [hempty e hoe] at hend
  exact Bool.noConfusion hend

end WellFormed

/-! ### A test of well-formedness -/

/-- `WellFormed` below `bound`, which decides it for a list with nothing at or
past `bound` (`WellFormedBelow.wellFormed`). -/
def WellFormedBelow (l : VmPageListTree α) (bound : ℕ) : Prop :=
  l.listSkew < kPageFanOut ∧ l.list.Pairwise (· < ·) ∧ (∀ k ∈ l.list, k % kPageFanOut = 0) ∧
    (∀ o < bound, l.pages.slots o ≠ empty → l.nodeOffsetOf o ∈ l.list) ∧
    (∀ k ∈ l.list, ∃ i < kPageFanOut, l.filled k i = true) ∧
    (∀ o < bound, carryFits (l.pages.slots o) (l.pages.carry o)) ∧ l.pages.carry bound = none

instance [DecidableEq α] (l : VmPageListTree α) (bound : ℕ) : Decidable (l.WellFormedBelow bound) := by
  unfold WellFormedBelow
  infer_instance

theorem WellFormedBelow.wellFormed {l : VmPageListTree α} {bound : ℕ} (h : l.WellFormedBelow bound)
    (hempty : ∀ o, bound ≤ o → l.pages.slots o = empty) : l.WellFormed := by
  obtain ⟨hskew, hsorted, haligned, hmem, hfilled, hfits, hcarry⟩ := h
  have hw : l.pages.WellFormed := by
    rw [VmPageList.wellFormed_iff]
    intro x
    by_cases hx : x < bound
    · exact hfits x hx
    · rw [hempty x (not_lt.mp hx)]
      trivial
  refine ⟨⟨hskew, hsorted, haligned, fun o ho ↦ ?_, hfilled⟩, hw, fun o ho ↦ ?_⟩
  · by_cases hb : o < bound
    · exact hmem o hb ho
    · exact absurd (hempty o (not_lt.mp hb)) ho
  · -- past `bound` nothing is carried; below it, an open interval ends before `bound`
    by_cases hb : o ≤ bound
    · obtain ⟨e, h₁, -, h₃⟩ := hw.exists_end_of_carry hb hcarry ho
      exact ⟨e, h₁, h₃⟩
    · rw [VmPageList.carry_of_empty_between (not_le.mp hb).le fun i h₁ _ ↦ hempty i h₁] at ho
      exact absurd hcarry ho

end VmPageListTree

end Zircon.Vm
