import Zircon.Vm.PageListTree

/-!
# Walking the pages and the gaps of a range

`ForEveryPageAndGapInRange(per_page, per_gap, start, end)` walks the nodes
from the one that `lower_bound` finds for `start`, calls `per_page` on each
filled slot of `[start, end)` in order, and calls `per_gap` on the runs of
`[start, end)` that hold nothing and lie in no interval.  It infers the gaps
from jumps between the offsets it visits.  A jump that ends at an interval end
lies inside that interval.  The last gap is left out when the walk ended inside
an interval, which it knows from a start it saw, or, when it saw nothing at
all, from `IsOffsetInIntervalHelper` on the node that `lower_bound` found.

With callbacks that always return `ZX_ERR_NEXT` the walk is the list of calls
it makes.  On a well-formed list of any skew, it makes the calls of a scan of
the flat model one offset at a time (`forEveryPageAndGapInRange_eq_scanCalls`):
the filled slots, and the maximal runs of empty slots that no interval covers.
The proof has two layers.  The nodes visited from `lower_bound` yield exactly
the filled slots of the range in order (`forEveryPageInRangeInternal_lowerBound`),
and the wrapper run over them simulates the scan offset by offset
(`run_filledIn`), the invariant `WalkInv` relating the wrapper's state to the
flat model's coverage.
-/

namespace Zircon.Vm

open Zircon.Lib VmPageOrMarker

/-- A call of `ForEveryPageAndGapInRange` to one of its callbacks:
`per_page_func` on a filled slot at its offset, or `per_gap_func` on a range. -/
inductive RangeCall (α : Type*)
  | page (p : VmPageOrMarker α) (offset : ℕ)
  | gap (start «end» : ℕ)
  deriving DecidableEq, Repr

namespace VmPageList

variable {α : Type*}

/-- The filled slots of `[startOffset, endOffset)` in order, with their offsets. -/
def filledIn (l : VmPageList α) (startOffset endOffset : ℕ) : List (VmPageOrMarker α × ℕ) :=
  (List.range' startOffset (endOffset - startOffset)).filterMap fun o ↦
    if (l.slots o).isEmpty then none else some (l.slots o, o)

/-- The gap call that ends at `offset` a run of empty slots from `gapStart`. -/
def closeGap : Option ℕ → ℕ → List (RangeCall α)
  | some gapStart, offset => [.gap gapStart offset]
  | none, _ => []

/-- A scan of the `count` offsets from `offset` one at a time, inside a run of
empty slots outside any interval from `gapStart` if there is one. -/
def scan (l : VmPageList α) : Option ℕ → ℕ → ℕ → List (RangeCall α)
  | gapStart, offset, 0 => closeGap gapStart offset
  | gapStart, offset, count + 1 =>
    if !(l.slots offset).isEmpty then
      closeGap gapStart offset ++ .page (l.slots offset) offset :: l.scan none (offset + 1) count
    else if (l.cov offset).isSome then
      closeGap gapStart offset ++ l.scan none (offset + 1) count
    else l.scan (gapStart.or (some offset)) (offset + 1) count

/-- What a scan of `[startOffset, endOffset)` one offset at a time reports:
every filled slot, and every maximal run of empty slots that no interval covers. -/
def scanCalls (l : VmPageList α) (startOffset endOffset : ℕ) : List (RangeCall α) :=
  l.scan none startOffset (endOffset - startOffset)

section FilledIn

variable {l : VmPageList α} {a b c : ℕ}

theorem filledIn_eq_nil (h : ∀ o, a ≤ o → o < b → l.slots o = empty) : l.filledIn a b = [] := by
  unfold filledIn
  rw [List.filterMap_eq_nil_iff]
  intro o ho
  rw [List.mem_range'_1] at ho
  rw [h o ho.1 (by omega)]
  rfl

theorem filledIn_of_le (h : b ≤ a) : l.filledIn a b = [] := by
  rw [filledIn, Nat.sub_eq_zero_of_le h]
  rfl

theorem filledIn_append (hab : a ≤ b) (hbc : b ≤ c) :
    l.filledIn a c = l.filledIn a b ++ l.filledIn b c := by
  have hrange : List.range' a (b - a) ++ List.range' b (c - b) = List.range' a (c - a) := by
    have h := List.range'_append_1 (s := a) (m := b - a) (n := c - b)
    rw [Nat.add_sub_cancel' hab, show b - a + (c - b) = c - a by omega] at h
    exact h
  unfold filledIn
  rw [← List.filterMap_append, hrange]

theorem filledIn_succ (h : a < b) :
    l.filledIn a b = (if (l.slots a).isEmpty then [] else [(l.slots a, a)]) ++ l.filledIn (a + 1) b := by
  rw [filledIn_append (Nat.le_add_right a 1) h]
  congr 1
  rw [filledIn, show a + 1 - a = 1 by omega, List.range'_one, List.filterMap_cons, List.filterMap_nil]
  by_cases he : (l.slots a).isEmpty <;> simp [he]

end FilledIn

end VmPageList

/-- What the per-page wrapper of `ForEveryPageAndGapInRange` keeps between
calls: the offset it expects next, and whether it saw an interval start whose
end it has not seen. -/
structure GapWalk where
  expectedNextOff : ℕ
  inInterval : Bool

namespace GapWalk

variable {α : Type*}

/-- `per_page_wrapper_fn` on the slot `p` at `off`: the calls it makes and the
state it leaves. -/
def visit (s : GapWalk) (p : VmPageOrMarker α) (off : ℕ) : List (RangeCall α) × GapWalk :=
  let inInterval := if p.isIntervalStart then true else if p.isIntervalEnd then false else s.inInterval
  -- a jump to an interval end lies inside that interval
  let gap := if s.expectedNextOff != off && !p.isIntervalEnd then [.gap s.expectedNextOff off] else []
  (gap ++ [.page p off], ⟨off + 1, inInterval⟩)

/-- The wrapper on each visited slot in turn. -/
def run : GapWalk → List (VmPageOrMarker α × ℕ) → List (RangeCall α) × GapWalk
  | s, [] => ([], s)
  | s, (p, off) :: rest =>
    let (calls, s) := s.visit p off
    let (calls', s) := s.run rest
    (calls ++ calls', s)

end GapWalk

namespace VmPageList

variable {α : Type*} (l : VmPageList α)

/-- The start of the run of empty slots outside intervals that a scan at
`offset` is in, as a walk in state `s` sees it: the slots from the offset it
expects next are empty, and uncovered when nothing is carried into it. -/
def gapOf (s : GapWalk) (offset : ℕ) : Option ℕ :=
  if s.expectedNextOff < offset ∧ l.carry s.expectedNextOff = none then some s.expectedNextOff else none

/-- The state of the wrapper of a walk from `startOffset` once it is past
`offset`: only empty slots from the offset it expects to `offset`, and an
interval open past its last visit exactly when the flat model carries one. -/
structure WalkInv (startOffset offset : ℕ) (s : GapWalk) : Prop where
  start_le : startOffset ≤ s.expectedNextOff
  le_offset : s.expectedNextOff ≤ offset
  slots_empty : ∀ x, s.expectedNextOff ≤ x → x < offset → l.slots x = empty
  inInterval : s.inInterval = if startOffset < s.expectedNextOff then (l.carry s.expectedNextOff).isSome else false

variable {l} {st o : ℕ} {s : GapWalk}

theorem walkInv_start (st : ℕ) : l.WalkInv st st ⟨st, false⟩ :=
  ⟨le_rfl, le_rfl, fun _ h₁ h₂ ↦ by dsimp only at h₁; omega, by simp⟩

theorem WalkInv.succ_of_empty (h : l.WalkInv st o s) (ho : l.slots o = empty) : l.WalkInv st (o + 1) s := by
  refine ⟨h.start_le, by have := h.le_offset; omega, fun x h₁ h₂ ↦ ?_, h.inInterval⟩
  rcases Nat.lt_succ_iff_lt_or_eq.mp h₂ with h₂ | rfl
  · exact h.slots_empty x h₁ h₂
  · exact ho

theorem WalkInv.carry_eq (h : l.WalkInv st o s) : l.carry o = l.carry s.expectedNextOff :=
  carry_of_empty_between h.le_offset h.slots_empty

section Visit

variable (hw : l.WellFormed)
include hw

theorem WalkInv.visit_fst (h : l.WalkInv st o s) (ho : l.slots o ≠ empty) :
    (s.visit (l.slots o) o).1 = closeGap (l.gapOf s o) o ++ [.page (l.slots o) o] := by
  unfold GapWalk.visit gapOf
  dsimp only
  congr 1
  rcases Nat.eq_or_lt_of_le h.le_offset with heq | hlt
  · -- no jump
    simp [heq, closeGap]
  · -- a jump: the carry into `o` tells whether it ends at an interval end
    have hcarry := h.carry_eq
    have hne : (s.expectedNextOff != o) = true := by simpa using hlt.ne
    rw [hne, Bool.true_and]
    rcases hp : l.slots o with _ | c | ⟨sentinel, state, len⟩
    · exact absurd hp ho
    · rw [hw.carry_of_content hp] at hcarry
      simp [hlt, ← hcarry, closeGap]
    · rw [hw.carry_of_interval hp] at hcarry
      cases sentinel <;> simp [hlt, ← hcarry, closeGap]

theorem WalkInv.visit_snd (h : l.WalkInv st o s) (ho : l.slots o ≠ empty) :
    l.WalkInv st (o + 1) (s.visit (l.slots o) o).2 := by
  have hst := h.start_le
  have hle := h.le_offset
  refine ⟨by dsimp only [GapWalk.visit]; omega, le_rfl, fun x h₁ h₂ ↦ ?_, ?_⟩
  · dsimp only [GapWalk.visit] at h₁
    omega
  have hvisit : (s.visit (l.slots o) o).2 = ⟨o + 1, if (l.slots o).isIntervalStart then true
      else if (l.slots o).isIntervalEnd then false else s.inInterval⟩ := rfl
  rw [hvisit]
  dsimp only
  rw [if_pos (show st < o + 1 by omega), carry_succ]
  have hcarry := h.carry_eq
  rcases hp : l.slots o with _ | c | ⟨sentinel, state, len⟩
  · exact absurd hp ho
  · rw [hw.carry_of_content hp] at hcarry
    simp only [isIntervalStart_content, isIntervalEnd_content, Bool.false_eq_true, if_false]
    rw [h.inInterval, ← hcarry]
    split_ifs <;> rfl
  · rw [hw.carry_of_interval hp] at hcarry
    cases sentinel
    · simp only [isIntervalStart_interval, isIntervalEnd_interval, reduceCtorEq, decide_false,
        Bool.false_eq_true, if_false] at hcarry ⊢
      rw [h.inInterval, ← hcarry]
      split_ifs <;> rfl
    · rfl
    · rfl

end Visit

theorem run_filledIn (hw : l.WellFormed) (n : ℕ) :
    ∀ o (s : GapWalk), l.WalkInv st o s →
      l.WalkInv st (o + n) (s.run (l.filledIn o (o + n))).2 ∧
      l.scan (l.gapOf s o) o n =
        (s.run (l.filledIn o (o + n))).1 ++ closeGap (l.gapOf (s.run (l.filledIn o (o + n))).2 (o + n)) (o + n) := by
  induction n with
  | zero =>
    intro o s h
    rw [Nat.add_zero, filledIn_of_le le_rfl]
    exact ⟨h, rfl⟩
  | succ n ih =>
    intro o s h
    rw [filledIn_succ (by omega), show o + (n + 1) = o + 1 + n by omega]
    by_cases ho : l.slots o = empty
    · -- an empty slot: the scan's run goes on or closes, and the walk waits
      have hcarry := h.carry_eq
      have hle := h.le_offset
      obtain ⟨hinv, hscan⟩ := ih (o + 1) s (h.succ_of_empty ho)
      rw [ho, isEmpty_empty, if_pos rfl, List.nil_append]
      refine ⟨hinv, ?_⟩
      rw [← hscan, scan, ho, isEmpty_empty, Bool.not_true, if_neg Bool.false_ne_true]
      have hcov : l.cov o = l.carry s.expectedNextOff := by
        rw [cov_eq_slotCov, ho, hcarry]
        rfl
      rw [hcov]
      rcases hc : l.carry s.expectedNextOff with _ | state
      · -- uncovered: the run goes on from where the walk expects
        rw [Option.isSome_none, if_neg Bool.false_ne_true]
        congr 1
        unfold gapOf
        rcases Nat.eq_or_lt_of_le hle with heq | hlt
        · rw [heq] at hc
          simp [heq, hc]
        · simp [hlt, hc, show s.expectedNextOff < o + 1 by omega]
      · -- covered: no run is open
        simp [gapOf, hc, closeGap]
    · -- a filled slot: both report it, after the same gap
      have hfalse : (l.slots o).isEmpty = false := by
        rcases hp : l.slots o with _ | _ | ⟨_, _, _⟩
        · exact absurd hp ho
        all_goals rfl
      obtain ⟨hinv, hscan⟩ := ih (o + 1) _ (h.visit_snd hw ho)
      rw [hfalse, if_neg Bool.false_ne_true, List.singleton_append]
      refine ⟨hinv, ?_⟩
      have hnone : l.gapOf (s.visit (l.slots o) o).2 (o + 1) = none := by
        simp [gapOf, GapWalk.visit]
      rw [hnone] at hscan
      rw [scan, hfalse, Bool.not_false, if_pos rfl, hscan, GapWalk.run]
      dsimp only
      rw [h.visit_fst hw ho, List.append_assoc, List.append_assoc, List.singleton_append]

end VmPageList

namespace VmPageListTree

variable {α : Type*} (l : VmPageListTree α)

/-- `VmPageListNode::ForEveryPageInRange` on the node at `key`, for the skewed
range `[startOffset, endOffset)` in it, with a callback that goes on: the
filled slots it calls back on, each with its offset in the list. -/
def nodeForEveryPageInRange (key startOffset endOffset : ℕ) : List (VmPageOrMarker α × ℕ) :=
  (List.range' (startOffset - key) (endOffset - key - (startOffset - key))).filterMap fun i ↦
    if l.filled key i then some (l.lookup key i, key + i - l.listSkew) else none

/-- `ForEveryPageInRangeInternal` from the nodes `cur` on `[startOffset, endOffset)`,
with a callback that goes on: the filled slots it calls back on, node after
node while the nodes start before the end. -/
def forEveryPageInRangeInternal (startOffset endOffset : ℕ) : List ℕ → List (VmPageOrMarker α × ℕ)
  | [] => []
  | cur :: rest =>
    if cur < endOffset + l.listSkew then
      l.nodeForEveryPageInRange cur (max (startOffset + l.listSkew) cur)
          (min (cur + kPageFanOut) (endOffset + l.listSkew)) ++
        forEveryPageInRangeInternal startOffset endOffset rest
    else []

/-- `ForEveryPageAndGapInRange` with callbacks that always return
`ZX_ERR_NEXT`: the calls it makes. -/
def forEveryPageAndGapInRange (startOffset endOffset : ℕ) : List (RangeCall α) :=
  let cur := l.lowerBound (l.nodeOffsetOf startOffset)
  let (calls, s) := (GapWalk.mk startOffset false).run (l.forEveryPageInRangeInternal startOffset endOffset cur)
  if s.expectedNextOff ≠ endOffset then
    -- the walk ended in an interval if it saw its start, or saw nothing and is in one
    let endedInInterval := s.inInterval || (s.expectedNextOff == startOffset &&
      match cur with
      | k :: _ => (l.isOffsetInIntervalHelper startOffset k).isSome
      | [] => false)
    if endedInInterval then calls else calls ++ [.gap s.expectedNextOff endOffset]
  else calls

variable {l}

theorem nodeForEveryPageInRange_eq {key a b : ℕ} (hka : key ≤ a) (hskew : l.listSkew ≤ a) :
    l.nodeForEveryPageInRange key a b = l.pages.filledIn (a - l.listSkew) (b - l.listSkew) := by
  unfold nodeForEveryPageInRange VmPageList.filledIn
  rw [show b - key - (a - key) = b - l.listSkew - (a - l.listSkew) by omega]
  generalize b - l.listSkew - (a - l.listSkew) = n
  induction n generalizing a with
  | zero => rfl
  | succ n ih =>
    have hlook : l.lookup key (a - key) = l.pages.slots (a - l.listSkew) := by
      rw [lookup_of_le (by omega), show key + (a - key) - l.listSkew = a - l.listSkew by omega]
    rw [List.range'_succ, List.range'_succ, List.filterMap_cons, List.filterMap_cons,
      show a - key + 1 = a + 1 - key by omega, show a - l.listSkew + 1 = a + 1 - l.listSkew by omega,
      ih (by omega) (by omega), filled, hlook, show key + (a - key) - l.listSkew = a - l.listSkew by omega]
    cases (l.pages.slots (a - l.listSkew)).isEmpty <;> rfl

namespace NodesWellFormed

variable (hw : l.NodesWellFormed) {s e : ℕ}
include hw

/-- Nodes from `a` on that hold every filled slot of `[a, e)` walk exactly
those slots.  The walk of a node starts at `a` or at the node, whichever is
later, and the nodes after it start past its end. -/
theorem forEveryPageInRangeInternal_eq : ∀ (cur : List ℕ) (a : ℕ),
    cur.Pairwise (· < ·) → (∀ k ∈ cur, k ∈ l.list) → s ≤ a →
    (∀ k ∈ cur, a + l.listSkew < k + kPageFanOut) →
    (∀ k ∈ cur, max (s + l.listSkew) k = max (a + l.listSkew) k) →
    (∀ o, a ≤ o → o < e → l.pages.slots o ≠ empty → l.nodeOffsetOf o ∈ cur) →
    l.forEveryPageInRangeInternal s e cur = l.pages.filledIn a e := by
  intro cur
  induction cur with
  | nil =>
    intro a _ _ _ _ _ hcover
    rw [forEveryPageInRangeInternal, VmPageList.filledIn_eq_nil]
    intro o h₁ h₂
    by_contra hne
    exact List.not_mem_nil (hcover o h₁ h₂ hne)
  | cons k rest ih =>
    intro a hsorted hmem hsa hend hmax hcover
    rw [forEveryPageInRangeInternal]
    simp only [kPageFanOut] at hend ⊢
    rw [List.pairwise_cons] at hsorted
    have hk := hmem k List.mem_cons_self
    have hka := hend k List.mem_cons_self
    have hkmax := hmax k List.mem_cons_self
    have hkal : k % 16 = 0 := hw.aligned k hk
    -- the later nodes start at the end of this one or past it
    have hrest : ∀ k' ∈ rest, k + 16 ≤ k' := by
      intro k' hk'
      have hlt := hsorted.1 k' hk'
      have hal : k' % 16 = 0 := hw.aligned k' (hmem k' (List.mem_cons_of_mem k hk'))
      omega
    have hbefore : ∀ o, a ≤ o → o + l.listSkew < k → o < e → l.pages.slots o = empty := by
      intro o h₁ h₂ h₃
      by_contra hne
      exact nodeOffsetOf_not_mem_cons (fun k' h ↦ by have := hrest k' h; omega) h₂ (hcover o h₁ h₃ hne)
    have hih := ih (k + 16 - l.listSkew) hsorted.2 (fun k' h ↦ hmem k' (List.mem_cons_of_mem k h))
      (by omega) (fun k' h ↦ by have := hrest k' h; simp only [kPageFanOut]; omega)
      (fun k' h ↦ by have := hrest k' h; rw [max_eq_right (by omega), max_eq_right (by omega)])
      (fun o h₁ h₂ hne ↦ nodeOffsetOf_mem_of_mem_cons hkal (by simp only [kPageFanOut]; omega)
        (hcover o (by omega) h₂ hne))
    by_cases hke : k < e + l.listSkew
    · rw [if_pos hke, hih,
        nodeForEveryPageInRange_eq (le_max_right _ _) (le_trans (Nat.le_add_left _ _) (le_max_left _ _)), hkmax]
      have hA : max (a + l.listSkew) k - l.listSkew = max a (k - l.listSkew) := by
        simp only [max_def]
        split_ifs <;> omega
      have hB : min (k + 16) (e + l.listSkew) - l.listSkew = min (k + 16 - l.listSkew) e := by
        simp only [min_def]
        split_ifs <;> omega
      rw [hA, hB]
      by_cases hae : a < e
      · -- before the node nothing, then the node, then the rest
        have hmid : max a (k - l.listSkew) ≤ min (k + 16 - l.listSkew) e :=
          max_le (le_min (by omega) hae.le) (le_min (by omega) (by omega))
        rw [VmPageList.filledIn_append (le_max_left a _) (hmid.trans (min_le_right _ _)),
          VmPageList.filledIn_eq_nil (b := max a (k - l.listSkew))
            (fun o h₁ h₂ ↦ hbefore o h₁ (by rcases lt_max_iff.mp h₂ with h | h <;> omega) (by
              rcases lt_max_iff.mp h₂ with h | h <;> omega)),
          List.nil_append, VmPageList.filledIn_append hmid (min_le_right _ _)]
        congr 1
        rcases le_total (k + 16 - l.listSkew) e with hle | hle
        · rw [min_eq_left hle]
        · rw [min_eq_right hle, VmPageList.filledIn_of_le le_rfl, VmPageList.filledIn_of_le hle]
      · -- past the end there is nothing to walk
        have hend' : min (k + 16 - l.listSkew) e ≤ max a (k - l.listSkew) :=
          (min_le_right _ _).trans ((not_lt.mp hae).trans (le_max_left _ _))
        rw [VmPageList.filledIn_of_le hend', VmPageList.filledIn_of_le (by omega),
          VmPageList.filledIn_of_le (not_lt.mp hae)]
        rfl
    · rw [if_neg hke, VmPageList.filledIn_eq_nil fun o h₁ h₂ ↦ hbefore o h₁ (by omega) h₂]

theorem forEveryPageInRangeInternal_lowerBound :
    l.forEveryPageInRangeInternal s e (l.lowerBound (l.nodeOffsetOf s)) = l.pages.filledIn s e := by
  have hmem : ∀ {k}, k ∈ l.lowerBound (l.nodeOffsetOf s) ↔ k ∈ l.list ∧ l.nodeOffsetOf s ≤ k :=
    mem_dropWhile_lt_iff hw.sorted
  refine hw.forEveryPageInRangeInternal_eq _ s (hw.sorted.sublist (List.dropWhile_sublist _))
    (fun k h ↦ (hmem.mp h).1) le_rfl (fun k h ↦ ?_) (fun _ _ ↦ rfl) (fun o h₁ _ hne ↦ ?_)
  · have := (hmem.mp h).2
    have := lt_nodeOffset_add (s + l.listSkew)
    unfold nodeOffsetOf at *
    omega
  · exact hmem.mpr ⟨hw.mem_list_of_ne_empty o hne, nodeOffset_mono (by omega)⟩

end NodesWellFormed

namespace WellFormed

variable (hw : l.WellFormed) {s e : ℕ}
include hw

theorem endedInInterval_eq {st en : ℕ} {w : GapWalk} (hinv : l.pages.WalkInv st en w)
    (hlt : w.expectedNextOff < en) :
    (w.inInterval || (w.expectedNextOff == st &&
      match l.lowerBound (l.nodeOffsetOf st) with
      | k :: _ => (l.isOffsetInIntervalHelper st k).isSome
      | [] => false)) = (l.pages.carry w.expectedNextOff).isSome := by
  rw [hinv.inInterval]
  rcases Nat.eq_or_lt_of_le hinv.start_le with heq | hst
  · -- it saw nothing: the helper on the node `lower_bound` found decides
    have hempty := hinv.slots_empty st (by omega) (by omega)
    have hcov : l.pages.cov st = l.pages.carry st := by
      rw [VmPageList.cov_eq_slotCov, hempty]
      rfl
    rw [← heq, if_neg (lt_irrefl _), Bool.false_or, beq_self_eq_true, Bool.true_and, ← hcov]
    rcases hlb : l.lowerBound (l.nodeOffsetOf st) with _ | ⟨k, rest⟩
    · rw [hw.cov_eq_none_of_lowerBound_eq_nil hlb]
      rfl
    · rw [← hw.isOffsetInIntervalHelper_map hlb, Option.isSome_map]
  · -- it saw a slot, and knows from the starts and ends it saw
    rw [if_pos hst, beq_false_of_ne (Nat.ne_of_gt hst), Bool.false_and, Bool.or_false]

end WellFormed

/-- `ForEveryPageAndGapInRange`, on a well-formed list of any skew and with
callbacks that always go on, makes the calls of a scan one offset at a time:
every filled slot of the range in order, and between them every maximal run
of empty slots that no interval covers. -/
theorem forEveryPageAndGapInRange_eq_scanCalls (hw : l.WellFormed) {startOffset endOffset : ℕ}
    (h : startOffset ≤ endOffset) :
    l.forEveryPageAndGapInRange startOffset endOffset = l.pages.scanCalls startOffset endOffset := by
  unfold forEveryPageAndGapInRange VmPageList.scanCalls
  dsimp only
  rw [hw.forEveryPageInRangeInternal_lowerBound]
  obtain ⟨hinv, hscan⟩ := VmPageList.run_filledIn hw.intervals (endOffset - startOffset) startOffset _
    (VmPageList.walkInv_start startOffset)
  rw [Nat.add_sub_cancel' h] at hinv hscan
  have hgap : l.pages.gapOf ⟨startOffset, false⟩ startOffset = none := by
    simp [VmPageList.gapOf]
  rw [hgap] at hscan
  rw [hscan]
  generalize (GapWalk.mk startOffset false).run (l.pages.filledIn startOffset endOffset) = r at hinv ⊢
  obtain ⟨calls, w⟩ := r
  dsimp only at hinv ⊢
  unfold VmPageList.gapOf
  rcases Nat.eq_or_lt_of_le hinv.le_offset with heq | hlt
  · simp [heq, VmPageList.closeGap]
  · rw [if_pos hlt.ne, hw.endedInInterval_eq hinv hlt]
    rcases hc : l.pages.carry w.expectedNextOff with _ | state
    · simp [hlt, VmPageList.closeGap]
    · simp [VmPageList.closeGap]

/-- A list of skew 5 with content at offset 3 and an interval over `[8, 30]`
whose start and end lie in the nodes at 0 and 32, with no node between. -/
def intervalAcrossNodes : VmPageListTree Unit where
  listSkew := 5
  list := [0, 32]
  pages := ⟨fun o ↦ if o = 3 then .content () else if o = 8 then .interval .start .untracked 0
    else if o = 30 then .interval .end .untracked 0 else .empty⟩

theorem intervalAcrossNodes_wellFormed : intervalAcrossNodes.WellFormed :=
  WellFormedBelow.wellFormed (show intervalAcrossNodes.WellFormedBelow 31 by decide) fun o ho ↦ by
    simp only [intervalAcrossNodes]
    rw [if_neg (by omega), if_neg (by omega), if_neg (by omega)]

/-- A range inside the interval with no sentinel in it: the walk sees nothing
and asks the node at 0 whether it is in an interval. -/
theorem forEveryPageAndGapInRange_eq_scanCalls_insideInterval :
    intervalAcrossNodes.WellFormed ∧ 10 ≤ 28 ∧
      intervalAcrossNodes.forEveryPageAndGapInRange 10 28 = intervalAcrossNodes.pages.scanCalls 10 28 :=
  ⟨intervalAcrossNodes_wellFormed, by decide,
    forEveryPageAndGapInRange_eq_scanCalls intervalAcrossNodes_wellFormed (by decide)⟩

example : intervalAcrossNodes.forEveryPageAndGapInRange 10 28 = [] := by decide

example : intervalAcrossNodes.forEveryPageAndGapInRange 0 40 =
    [.gap 0 3, .page (.content ()) 3, .gap 4 8, .page (.interval .start .untracked 0) 8,
      .page (.interval .end .untracked 0) 30, .gap 31 40] := by
  decide

end VmPageListTree

end Zircon.Vm
