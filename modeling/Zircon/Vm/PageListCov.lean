import Mathlib
import Zircon.Vm.PageList

/-!
# Coverage of the page list by zero intervals

An empty slot lies in an interval exactly when the last filled slot before it
is a start; `carry l x` is the dirty state that start passes on to `x`.  It
moves along the list one slot at a time (`carry_succ`): an empty slot passes it
on, a start opens an interval of its state, and anything else closes it.  The
coverage of a slot is its own state when it is a sentinel and the carried
state when it is empty.

So a write changes the coverage only from where it is to where the carried
state agrees again: below the written window nothing changes
(`cov_congr_below`), and above it nothing changes once the carry past the
window agrees (`cov_congr_above`).

A list is well formed when every end closes an interval of its state and every
other filled slot lies outside any interval.
-/

namespace Zircon.Vm

namespace VmPageOrMarker

variable {α : Type*}

/-- How the carried dirty state passes one slot: a start opens an interval of
its state, an empty slot passes the state on, and anything else closes it. -/
def carryPast : VmPageOrMarker α → Option IntervalDirtyState → Option IntervalDirtyState
  | empty, c => c
  | interval .start state _, _ => some state
  | _, _ => none

/-- The coverage of a slot, given the state carried into it. -/
def slotCov : VmPageOrMarker α → Option IntervalDirtyState → Option IntervalDirtyState
  | empty, c => c
  | content _, _ => none
  | interval _ state _, _ => some state

/-- The slot with its `AwaitingCleanLength` cleared: all that the coverage reads of it. -/
def shape (p : VmPageOrMarker α) : VmPageOrMarker α :=
  p.setZeroIntervalAwaitingCleanLength 0

@[simp] theorem carryPast_shape (p : VmPageOrMarker α) (c : Option IntervalDirtyState) :
    carryPast p.shape c = carryPast p c := by
  rcases p with _ | _ | ⟨_ | _ | _, _, _⟩ <;> rfl

@[simp] theorem slotCov_shape (p : VmPageOrMarker α) (c : Option IntervalDirtyState) :
    slotCov p.shape c = slotCov p c := by
  rcases p with _ | _ | ⟨_, _, _⟩ <;> rfl

/-- The content a slot holds, if it holds any. -/
def content? : VmPageOrMarker α → Option α
  | content c => some c
  | _ => none

@[simp] theorem shape_empty : (empty : VmPageOrMarker α).shape = empty := rfl

@[simp] theorem shape_content (c : α) : (content c).shape = content c := rfl

@[simp] theorem shape_interval (sentinel : SentinelType) (state : IntervalDirtyState) (len : ℕ) :
    (interval sentinel state len : VmPageOrMarker α).shape = interval sentinel state 0 := rfl

@[simp] theorem shape_setZeroIntervalAwaitingCleanLength (p : VmPageOrMarker α) (len : ℕ) :
    (p.setZeroIntervalAwaitingCleanLength len).shape = p.shape := by
  rcases p with _ | _ | ⟨_, _, _⟩ <;> rfl

@[simp] theorem shape_changeIntervalSentinel (p : VmPageOrMarker α) (sentinel : SentinelType) :
    (p.changeIntervalSentinel sentinel).shape = p.shape.changeIntervalSentinel sentinel := by
  rcases p with _ | _ | ⟨_, _, _⟩ <;> rfl

@[simp] theorem isIntervalStart_setZeroIntervalAwaitingCleanLength (p : VmPageOrMarker α) (len : ℕ) :
    (p.setZeroIntervalAwaitingCleanLength len).isIntervalStart = p.isIntervalStart := by
  rcases p with _ | _ | ⟨_ | _ | _, _, _⟩ <;> rfl

@[simp] theorem shape_eq_empty_iff (p : VmPageOrMarker α) : p.shape = empty ↔ p = empty := by
  rcases p with _ | _ | ⟨_, _, _⟩ <;> simp [shape, setZeroIntervalAwaitingCleanLength]

@[simp] theorem isIntervalSlot_shape (p : VmPageOrMarker α) : p.shape.isIntervalSlot = p.isIntervalSlot := by
  rcases p with _ | _ | ⟨_ | _ | _, _, _⟩ <;> rfl

@[simp] theorem content?_shape (p : VmPageOrMarker α) : p.shape.content? = p.content? := by
  rcases p with _ | _ | ⟨_, _, _⟩ <;> rfl

/-- What a well-formed list may carry into a slot: anything into an empty one,
the state of its interval into an end, and nothing into any other. -/
def carryFits : VmPageOrMarker α → Option IntervalDirtyState → Prop
  | empty, _ => True
  | interval .end state _, c => c = some state
  | _, c => c = none

@[simp] theorem carryFits_shape (p : VmPageOrMarker α) (c : Option IntervalDirtyState) :
    carryFits p.shape c ↔ carryFits p c := by
  rcases p with _ | _ | ⟨_ | _ | _, _, _⟩ <;> rfl

instance instDecidableCarryFits :
    (p : VmPageOrMarker α) → (c : Option IntervalDirtyState) → Decidable (carryFits p c)
  | empty, _ => isTrue trivial
  | content _, c => inferInstanceAs (Decidable (c = none))
  | interval .slot _ _, c => inferInstanceAs (Decidable (c = none))
  | interval .start _ _, c => inferInstanceAs (Decidable (c = none))
  | interval .end state _, c => inferInstanceAs (Decidable (c = some state))

theorem carryPast_of_ne_empty {p : VmPageOrMarker α} (hp : p ≠ empty) (c : Option IntervalDirtyState) :
    carryPast p c = if p.isIntervalStart then some p.getZeroIntervalDirtyState else none := by
  rcases p with _ | _ | ⟨_ | _ | _, _, _⟩
  · exact absurd rfl hp
  all_goals rfl

end VmPageOrMarker

namespace VmPageList

open Zircon.Lib VmPageOrMarker

variable {α : Type*} {l l' : VmPageList α} {x m : ℕ}

theorem slots_set_of_ne {p : VmPageOrMarker α} {i o : ℕ} (h : i ≠ o) :
    (l.set o p).slots i = l.slots i :=
  Function.update_of_ne h _ _

theorem slots_ite (c : Prop) [Decidable c] (l₁ l₂ : VmPageList α) :
    (if c then l₁ else l₂).slots = if c then l₁.slots else l₂.slots := by
  split <;> rfl

/-- The dirty state that the last filled slot before `offset` passes on to it:
that of a start, and none past any other slot. -/
def carry (l : VmPageList α) (offset : ℕ) : Option IntervalDirtyState :=
  match l.prevFilled offset with
  | some (_, p) => if p.isIntervalStart then some p.getZeroIntervalDirtyState else none
  | none => none

@[simp] theorem carry_zero (l : VmPageList α) : l.carry 0 = none := rfl

theorem carry_succ (l : VmPageList α) (x : ℕ) : l.carry (x + 1) = carryPast (l.slots x) (l.carry x) := by
  unfold carry prevFilled
  rw [lastBefore_succ]
  rcases h : l.slots x with _ | c | ⟨_ | _ | _, state, len⟩ <;> rfl

theorem cov_eq_slotCov (l : VmPageList α) (x : ℕ) : l.cov x = slotCov (l.slots x) (l.carry x) := by
  unfold cov intervalAt carry
  rcases l.slots x with _ | c | ⟨sentinel, state, len⟩
  · rcases l.prevFilled x with _ | ⟨_, p⟩
    · rfl
    · dsimp only
      split_ifs <;> rfl
  · rfl
  · rfl

theorem content?_eq_none_of_cov (h : l.cov x ≠ none) : (l.slots x).content? = none := by
  rw [cov_eq_slotCov] at h
  rcases hx : l.slots x with _ | c | ⟨_, _, _⟩ <;> rw [hx] at h
  · rfl
  · exact absurd rfl h
  · rfl

/-! ### Frames -/

theorem carry_congr (h : ∀ i, i < x → (l'.slots i).shape = (l.slots i).shape) :
    l'.carry x = l.carry x := by
  induction x with
  | zero => rfl
  | succ x ih =>
    rw [carry_succ, carry_succ, ← carryPast_shape, h x (Nat.lt_succ_self x), carryPast_shape,
      ih fun i hi ↦ h i (Nat.lt_succ_of_lt hi)]

theorem carry_of_empty_between (hmx : m ≤ x) (h : ∀ i, m ≤ i → i < x → l.slots i = empty) :
    l.carry x = l.carry m := by
  induction x, hmx using Nat.le_induction with
  | base => rfl
  | succ x hmx ih =>
    rw [carry_succ, h x hmx (Nat.lt_succ_self x), ih fun i hi₁ hi₂ ↦ h i hi₁ (Nat.lt_succ_of_lt hi₂)]
    rfl

theorem cov_eq_of_shape_carry (hx : (l'.slots x).shape = (l.slots x).shape)
    (hc : l'.carry x = l.carry x) : l'.cov x = l.cov x := by
  rw [cov_eq_slotCov, cov_eq_slotCov, ← slotCov_shape, hx, slotCov_shape, hc]

theorem cov_congr_below (h : ∀ i, i ≤ x → (l'.slots i).shape = (l.slots i).shape) :
    l'.cov x = l.cov x :=
  cov_eq_of_shape_carry (h x le_rfl) (carry_congr fun i hi ↦ h i hi.le)

theorem carry_congr_above (hmx : m ≤ x) (h : ∀ i, m ≤ i → (l'.slots i).shape = (l.slots i).shape)
    (hc : l'.carry m = l.carry m) : l'.carry x = l.carry x := by
  induction x, hmx using Nat.le_induction with
  | base => exact hc
  | succ x hmx ih => rw [carry_succ, carry_succ, ← carryPast_shape, h x hmx, carryPast_shape, ih]

theorem cov_congr_above (hmx : m ≤ x) (h : ∀ i, m ≤ i → (l'.slots i).shape = (l.slots i).shape)
    (hc : l'.carry m = l.carry m) : l'.cov x = l.cov x :=
  cov_eq_of_shape_carry (h x hmx) (carry_congr_above hmx h hc)

theorem cov_eq_outside {a b : ℕ}
    (hout : ∀ i, i < a ∨ b < i → (l'.slots i).shape = (l.slots i).shape)
    (hc : l'.carry (b + 1) = l.carry (b + 1)) (hx : x < a ∨ b < x) : l'.cov x = l.cov x := by
  rcases hx with hx | hx
  · exact cov_congr_below fun i hi ↦ hout i (.inl (by omega))
  · exact cov_congr_above hx (fun i hi ↦ hout i (.inr (by omega))) hc

/-- A run of empty slots from `m` is covered by what is carried into `m`. -/
theorem cov_of_empty_run (hmx : m ≤ x) (h : ∀ i, m ≤ i → i ≤ x → l.slots i = empty) :
    l.cov x = l.carry m := by
  rw [cov_eq_slotCov, h x hmx le_rfl, carry_of_empty_between hmx fun i hi₁ hi₂ ↦ h i hi₁ hi₂.le]
  rfl

/-! ### Well-formed lists -/

/-- The zero intervals of the list are well formed: every end closes an
interval of its dirty state, and every other filled slot lies outside any
interval. -/
structure WellFormed (l : VmPageList α) : Prop where
  end_open : ∀ x state len, l.slots x = interval .end state len → l.carry x = some state
  closed : ∀ x, (l.slots x).isEmpty = false → (l.slots x).isIntervalEnd = false → l.carry x = none

theorem wellFormed_iff : l.WellFormed ↔ ∀ x, carryFits (l.slots x) (l.carry x) := by
  constructor
  · rintro ⟨hend, hclosed⟩ x
    rcases h : l.slots x with _ | c | ⟨_ | _ | _, state, len⟩
    · trivial
    · exact hclosed x (by rw [h]; rfl) (by rw [h]; rfl)
    · exact hclosed x (by rw [h]; rfl) (by rw [h]; rfl)
    · exact hclosed x (by rw [h]; rfl) (by rw [h]; rfl)
    · exact hend x state len h
  · intro h
    refine ⟨fun x state len hx ↦ ?_, fun x hx hend ↦ ?_⟩
    · simpa [hx, carryFits] using h x
    · have hfit := h x
      rcases hp : l.slots x with _ | c | ⟨_ | _ | _, state, len⟩ <;>
        simp_all [isEmpty, isIntervalEnd, carryFits]

theorem carry_of_last {a : ℕ} (hax : a < x) (h : ∀ i, a < i → i < x → l.slots i = empty) :
    l.carry x = carryPast (l.slots a) (l.carry a) := by
  rw [carry_of_empty_between (Nat.succ_le_of_lt hax) fun i hi₁ hi₂ ↦ h i hi₁ hi₂, carry_succ]

namespace WellFormed

variable (hw : l.WellFormed) {sentinel : SentinelType} {state : IntervalDirtyState} {len : ℕ}
include hw

theorem carry_of_interval (h : l.slots x = interval sentinel state len) :
    l.carry x = if sentinel = .end then some state else none := by
  split_ifs with hs
  · exact hw.end_open x state len (hs ▸ h)
  · exact hw.closed x (by rw [h]; rfl) (by rw [h]; cases sentinel <;> simp_all [isIntervalEnd])

theorem carry_of_content {c : α} (h : l.slots x = content c) : l.carry x = none :=
  hw.closed x (by rw [h]; rfl) (by rw [h]; rfl)

theorem carry_of_next_filled {e : ℕ} (hxe : x ≤ e) (h : ∀ i, x ≤ i → i < e → l.slots i = empty)
    (he : l.slots e ≠ empty) :
    l.carry x = if (l.slots e).isIntervalEnd then some (l.slots e).getZeroIntervalDirtyState else none := by
  rw [← carry_of_empty_between hxe h]
  rcases hp : l.slots e with _ | c | ⟨sentinel, state, len⟩
  · exact absurd hp he
  · rw [hw.carry_of_content hp]
    rfl
  · rw [hw.carry_of_interval hp]
    cases sentinel <;> rfl

theorem exists_end_of_carry {n : ℕ} (hxn : x ≤ n) (hn : l.carry n = none) (hx : l.carry x ≠ none) :
    ∃ e, x ≤ e ∧ e < n ∧ (l.slots e).isIntervalEnd = true := by
  induction n, hxn using Nat.le_induction with
  | base => exact absurd hn hx
  | succ n hxn ih =>
    by_cases hcn : l.carry n = none
    · obtain ⟨e, h₁, h₂, h₃⟩ := ih hcn
      exact ⟨e, h₁, by omega, h₃⟩
    refine ⟨n, hxn, Nat.lt_succ_self n, ?_⟩
    rw [carry_succ] at hn
    rcases hp : l.slots n with _ | c | ⟨_ | _ | _, state, len⟩
    · rw [hp] at hn
      exact absurd hn hcn
    · exact absurd (hw.carry_of_content hp) hcn
    · exact absurd ((hw.carry_of_interval hp).trans (if_neg (by decide))) hcn
    · rw [hp] at hn
      exact absurd hn (by simp [carryPast])
    · rfl

theorem of_window {a b : ℕ} (hout : ∀ i, i < a ∨ b < i → (l'.slots i).shape = (l.slots i).shape)
    (hc : l'.carry (b + 1) = l.carry (b + 1)) (hin : ∀ i, a ≤ i → i ≤ b → carryFits (l'.slots i) (l'.carry i)) :
    l'.WellFormed := by
  rw [wellFormed_iff]
  intro x
  by_cases hx : a ≤ x ∧ x ≤ b
  · exact hin x hx.1 hx.2
  have hcarry : l'.carry x = l.carry x := by
    rcases Nat.lt_or_ge x a with hxa | hxb
    · exact carry_congr fun i hi ↦ hout i (.inl (by omega))
    · exact carry_congr_above (by omega) (fun i hi ↦ hout i (.inr (by omega))) hc
  rw [← carryFits_shape, hout x (by omega), carryFits_shape, hcarry]
  exact (wellFormed_iff.mp hw) x

end WellFormed

end VmPageList

end Zircon.Vm
