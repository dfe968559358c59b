import Mathlib
import Zircon.Vm.PageListCov

/-!
# What the zero interval operations do to the coverage

Each operation of the page list writes a few sentinels around the range it is
given.  For each one this module reads off the slots it writes, and from them
its effect on the coverage: below the written window nothing changes, inside
it the coverage is computed from the new sentinels, and above it the carry past
the window is the old one.  No operation writes over content or writes any.

The preconditions are the source's debug assertions on a well-formed list.
-/

namespace Zircon.Vm

namespace VmPageList

open VmPageOrMarker

variable {α : Type*} {l : VmPageList α} {x i : ℕ} {d : IntervalDirtyState} {n : ℕ}

/-! ### Clipping an interval -/

section ClipStart

variable {s len : ℕ}

theorem clipIntervalStart_slots_of_ne (h₁ : i ≠ s) (h₂ : i ≠ s + len) :
    (l.clipIntervalStart s len).slots i = l.slots i := by
  unfold clipIntervalStart
  split_ifs <;> simp [slots_ite, ite_apply, Function.update_of_ne, h₁, h₂]

theorem clipIntervalStart_slots_self (hlen : len ≠ 0) : (l.clipIntervalStart s len).slots s = empty := by
  simp [clipIntervalStart, hlen]

theorem clipIntervalStart_slots_new (hlen : len ≠ 0) (hs : l.slots s = interval .start d n) :
    ((l.clipIntervalStart s len).slots (s + len)).shape =
      if (l.slots (s + len)).isIntervalEnd then (l.slots (s + len)).shape.changeIntervalSentinel .slot
      else interval .start d 0 := by
  rcases h : l.slots (s + len) with _ | _ | ⟨_ | _ | _, _, _⟩ <;>
    simp [clipIntervalStart, hlen, slots_ite, ite_apply, hs, h, isIntervalEnd, zeroInterval,
      getZeroIntervalDirtyState, changeIntervalSentinel, apply_ite VmPageOrMarker.shape]

variable (hw : l.WellFormed) (hs : l.slots s = interval .start d n)
  (hgap : ∀ i, s < i → i < s + len → l.slots i = empty)
  (hnew : (l.slots (s + len)).isEmpty ∨ (l.slots (s + len)).isIntervalEnd)
include hs hgap

theorem carry_clipped (hlen : len ≠ 0) : l.carry (s + len) = some d := by
  rw [carry_of_last (by omega) hgap, hs]
  rfl

include hw hnew

theorem clipIntervalStart_new (hlen : len ≠ 0) :
    ((l.clipIntervalStart s len).slots (s + len)).shape = interval .start d 0 ∧ l.slots (s + len) = empty ∨
      ((l.clipIntervalStart s len).slots (s + len)).shape = interval .slot d 0 ∧
        ∃ len', l.slots (s + len) = interval .end d len' := by
  rw [clipIntervalStart_slots_new hlen hs]
  have hcarry := carry_clipped hs hgap hlen
  rcases h : l.slots (s + len) with _ | _ | ⟨_ | _ | _, state, len'⟩ <;>
    simp_all [isEmpty, isIntervalEnd, changeIntervalSentinel]
  exact (by simpa [hcarry] using hw.end_open _ _ _ h : d = state).symm

theorem clipIntervalStart_cov (x : ℕ) :
    (l.clipIntervalStart s len).cov x = if s ≤ x ∧ x < s + len then none else l.cov x := by
  rcases Nat.eq_zero_or_pos len with rfl | hlen
  · rw [if_neg (by omega)]
    simp [clipIntervalStart]
  set l' := l.clipIntervalStart s len
  have hlen' : len ≠ 0 := hlen.ne'
  have hout : ∀ i, i < s ∨ s + len < i → (l'.slots i).shape = (l.slots i).shape := fun i hi ↦ by
    rw [clipIntervalStart_slots_of_ne (by omega) (by omega)]
  have hrun : ∀ i, s ≤ i → i < s + len → l'.slots i = empty := by
    intro i hi₁ hi₂
    rcases Nat.eq_or_lt_of_le hi₁ with rfl | hi₁
    · exact clipIntervalStart_slots_self hlen'
    · rw [clipIntervalStart_slots_of_ne (by omega) (by omega)]
      exact hgap i hi₁ hi₂
  have hbelow : l'.carry s = none := by
    have hs' : l'.carry s = l.carry s := carry_congr fun i hi ↦ hout i (.inl hi)
    rw [hs', hw.carry_of_interval hs]
    rfl
  have hcarry' : l'.carry (s + len) = none := by
    rw [carry_of_empty_between (by omega) hrun, hbelow]
  have hcarry := carry_clipped hs hgap hlen'
  have hshape := clipIntervalStart_new hw hs hgap hnew hlen'
  have hnew' : l'.carry (s + len + 1) = l.carry (s + len + 1) ∧ l'.cov (s + len) = l.cov (s + len) := by
    rw [carry_succ, carry_succ, cov_eq_slotCov, cov_eq_slotCov, ← carryPast_shape, ← slotCov_shape,
      hcarry', hcarry]
    rcases hshape with ⟨hnew, hold⟩ | ⟨hnew, len', hold⟩ <;> rw [hnew, hold] <;> exact ⟨rfl, rfl⟩
  have hx : x < s ∨ (s ≤ x ∧ x < s + len) ∨ x = s + len ∨ s + len < x := by omega
  rcases hx with hx | hx | rfl | hx
  · rw [if_neg (by omega)]
    exact cov_eq_outside hout hnew'.1 (.inl hx)
  · rw [if_pos hx, cov_of_empty_run hx.1 fun i hi₁ hi₂ ↦ hrun i hi₁ (by omega), hbelow]
  · rw [if_neg (by omega)]
    exact hnew'.2
  · rw [if_neg (by omega)]
    exact cov_eq_outside hout hnew'.1 (.inr hx)

theorem clipIntervalStart_content (x : ℕ) :
    ((l.clipIntervalStart s len).slots x).content? = (l.slots x).content? := by
  rcases Nat.eq_zero_or_pos len with rfl | hlen
  · simp [clipIntervalStart]
  have hx : x = s ∨ x = s + len ∨ (x ≠ s ∧ x ≠ s + len) := by omega
  rcases hx with rfl | rfl | ⟨hx₁, hx₂⟩
  · rw [clipIntervalStart_slots_self hlen.ne', hs]
    rfl
  · rw [← content?_shape, ← content?_shape (l.slots _)]
    rcases clipIntervalStart_new hw hs hgap hnew hlen.ne' with ⟨hnew, hold⟩ | ⟨hnew, len', hold⟩ <;>
      rw [hnew, hold] <;> rfl
  · rw [clipIntervalStart_slots_of_ne hx₁ hx₂]

end ClipStart

section ClipEnd

variable {e len : ℕ}

theorem clipIntervalEnd_slots_of_ne (h₁ : i ≠ e) (h₂ : i ≠ e - len) :
    (l.clipIntervalEnd e len).slots i = l.slots i := by
  unfold clipIntervalEnd
  split_ifs <;> simp [Function.update_of_ne, h₁, h₂]

theorem clipIntervalEnd_slots_self (hlen : len ≠ 0) : (l.clipIntervalEnd e len).slots e = empty := by
  simp [clipIntervalEnd, hlen]

variable (hw : l.WellFormed) (he : l.slots e = interval .end d n) (hle : len ≤ e)
  (hgap : ∀ i, e - len < i → i < e → l.slots i = empty)
  (hnew : (l.slots (e - len)).isEmpty ∨ (l.slots (e - len)).isIntervalStart)
include hw he hle hgap hnew

theorem clipIntervalEnd_new (hlen : len ≠ 0) :
    (((l.clipIntervalEnd e len).slots (e - len)).shape = interval .end d 0 ∧ l.slots (e - len) = empty ∧
        l.carry (e - len) = some d) ∨
      (((l.clipIntervalEnd e len).slots (e - len)).shape = interval .slot d 0 ∧
        ∃ len', l.slots (e - len) = interval .start d len') := by
  have hne : e - len ≠ e := by omega
  have hcarry := hw.end_open _ _ _ he
  rcases h : l.slots (e - len) with _ | _ | ⟨_ | _ | _, state, len'⟩
  · -- the old interval reaches over the empty new end
    have hrun : l.carry e = l.carry (e - len) :=
      carry_of_empty_between (by omega) fun i hi₁ hi₂ ↦ by
        rcases Nat.eq_or_lt_of_le hi₁ with rfl | hi₁
        · exact h
        · exact hgap i hi₁ hi₂
    refine .inl ⟨?_, rfl, hrun ▸ hcarry⟩
    simp [clipIntervalEnd, hlen, Function.update_of_ne hne, he, h, isIntervalStart, zeroInterval,
      getZeroIntervalDirtyState]
  · simp [h, isEmpty, isIntervalStart] at hnew
  · simp [h, isEmpty, isIntervalStart] at hnew
  · -- the old start becomes a slot
    have hstate : l.carry e = some state := by
      rw [carry_of_last (by omega) fun i hi₁ hi₂ ↦ hgap i hi₁ hi₂, h]
      rfl
    rw [hcarry, Option.some.injEq] at hstate
    subst hstate
    refine .inr ⟨?_, len', rfl⟩
    simp [clipIntervalEnd, hlen, Function.update_of_ne hne, h, isIntervalStart, changeIntervalSentinel]
  · simp [h, isEmpty, isIntervalStart] at hnew

theorem clipIntervalEnd_cov (x : ℕ) :
    (l.clipIntervalEnd e len).cov x = if e - len < x ∧ x ≤ e then none else l.cov x := by
  rcases Nat.eq_zero_or_pos len with rfl | hlen
  · rw [if_neg (by omega)]
    simp [clipIntervalEnd]
  set l' := l.clipIntervalEnd e len
  have hlen' : len ≠ 0 := hlen.ne'
  have hout : ∀ i, i < e - len ∨ e < i → (l'.slots i).shape = (l.slots i).shape := fun i hi ↦ by
    rw [clipIntervalEnd_slots_of_ne (by omega) (by omega)]
  have hrun : ∀ i, e - len < i → i ≤ e → l'.slots i = empty := by
    intro i hi₁ hi₂
    rcases Nat.eq_or_lt_of_le hi₂ with rfl | hi₂
    · exact clipIntervalEnd_slots_self hlen'
    · rw [clipIntervalEnd_slots_of_ne (by omega) (by omega)]
      exact hgap i hi₁ hi₂
  have hbelow : l'.carry (e - len) = l.carry (e - len) := carry_congr fun i hi ↦ hout i (.inl hi)
  have hpast : l'.carry (e - len + 1) = none ∧ l'.cov (e - len) = l.cov (e - len) := by
    rw [carry_succ, cov_eq_slotCov, cov_eq_slotCov, ← carryPast_shape, ← slotCov_shape,
      ← slotCov_shape (l.slots _), hbelow]
    rcases clipIntervalEnd_new hw he hle hgap hnew hlen' with ⟨hnew, hold, hc⟩ | ⟨hnew, len', hold⟩
    · rw [hnew, hold, hc]
      exact ⟨rfl, rfl⟩
    · rw [hnew, hold]
      exact ⟨rfl, rfl⟩
  have hcarry : l'.carry (e + 1) = l.carry (e + 1) := by
    rw [carry_of_empty_between (by omega) fun i hi₁ hi₂ ↦ hrun i hi₁ (by omega), hpast.1, carry_succ, he]
    rfl
  have hx : x < e - len ∨ x = e - len ∨ (e - len < x ∧ x ≤ e) ∨ e < x := by omega
  rcases hx with hx | rfl | hx | hx
  · rw [if_neg (by omega)]
    exact cov_eq_outside hout hcarry (.inl hx)
  · rw [if_neg (by omega)]
    exact hpast.2
  · rw [if_pos hx, cov_of_empty_run (Nat.succ_le_of_lt hx.1) fun i hi₁ hi₂ ↦ hrun i (by omega) (by omega),
      hpast.1]
  · rw [if_neg (by omega)]
    exact cov_eq_outside hout hcarry (.inr hx)

theorem clipIntervalEnd_content (x : ℕ) :
    ((l.clipIntervalEnd e len).slots x).content? = (l.slots x).content? := by
  rcases Nat.eq_zero_or_pos len with rfl | hlen
  · simp [clipIntervalEnd]
  have hx : x = e ∨ x = e - len ∨ (x ≠ e ∧ x ≠ e - len) := by omega
  rcases hx with rfl | rfl | ⟨hx₁, hx₂⟩
  · rw [clipIntervalEnd_slots_self hlen.ne', he]
    rfl
  · rw [← content?_shape, ← content?_shape (l.slots _)]
    rcases clipIntervalEnd_new hw he hle hgap hnew hlen.ne' with ⟨hnew, hold, -⟩ | ⟨hnew, len', hold⟩ <;>
      rw [hnew, hold] <;> rfl
  · rw [clipIntervalEnd_slots_of_ne hx₁ hx₂]

end ClipEnd

/-! ### Adding an interval -/

@[simp] theorem shape_slots_extendAwaitingClean (finalStart start len i : ℕ) :
    ((l.extendAwaitingClean finalStart start len).slots i).shape = (l.slots i).shape := by
  unfold extendAwaitingClean
  dsimp only
  split_ifs
  · by_cases h : i = finalStart
    · subst h
      simp
    · simp [Function.update_of_ne h]
  · rfl

@[simp] theorem isIntervalStart_slots_extendAwaitingClean (finalStart start len i : ℕ) :
    ((l.extendAwaitingClean finalStart start len).slots i).isIntervalStart = (l.slots i).isIntervalStart := by
  unfold extendAwaitingClean
  dsimp only
  split_ifs
  · by_cases h : i = finalStart
    · subst h
      simp
    · simp [Function.update_of_ne h]
  · rfl

theorem of_mergeWithPrev {s : ℕ} (h : l.mergeWithPrev s d = true) :
    0 < s ∧ ∃ n, l.slots (s - 1) = interval .end d n ∨ l.slots (s - 1) = interval .slot d n := by
  unfold mergeWithPrev at h
  rcases hp : l.slots (s - 1) with _ | _ | ⟨_ | _ | _, state, n⟩ <;>
    simp_all [isInterval, isIntervalEnd, isIntervalSlot, getZeroIntervalDirtyState]

theorem of_mergeWithNext {e : ℕ} (h : l.mergeWithNext e d = true) :
    ∃ n, l.slots e = interval .start d n ∨ l.slots e = interval .slot d n := by
  unfold mergeWithNext at h
  rcases hp : l.slots e with _ | _ | ⟨_ | _ | _, state, n⟩ <;>
    simp_all [isInterval, isIntervalStart, isIntervalSlot, getZeroIntervalDirtyState]

section AddZero

variable {s e len : ℕ}

theorem addZeroIntervalInternal_shape (hse : s < e) (hlast : l.slots (e - 1) = empty) (i : ℕ) :
    ((l.addZeroIntervalInternal s e d len).slots i).shape =
      if l.mergeWithNext e d ∧ i = e then
        if (l.slots e).isIntervalStart then empty else (l.slots e).shape.changeIntervalSentinel .end
      else if !l.mergeWithNext e d ∧ i = e - 1 then
        if !l.mergeWithPrev s d && e - 1 = s then interval .slot d 0 else interval .end d 0
      else if !l.mergeWithPrev s d ∧ i = s then interval .start d 0
      else if l.mergeWithPrev s d ∧ i = s - 1 then
        if (l.slots (s - 1)).isIntervalEnd then empty else (l.slots (s - 1)).shape.changeIntervalSentinel .start
      else (l.slots i).shape := by
  have he : e - 1 + 1 = e := by omega
  have hne : s - 1 ≠ e := by omega
  unfold addZeroIntervalInternal
  simp only [he]
  generalize (if l.mergeWithPrev s d = true then _ else s) = finalStart
  cases hmp : l.mergeWithPrev s d <;> cases hmn : l.mergeWithNext e d
  · -- no merge: a one-page interval is a slot
    by_cases hes : e - 1 = s
    · subst hes
      by_cases hlen : 0 < len <;>
        simp [apply_ite VmPageOrMarker.shape, Function.update_apply, hlen, zeroInterval, isIntervalStart]
    · simp [slots_ite, ite_apply, apply_ite VmPageOrMarker.shape, Function.update_apply, hlast, zeroInterval, hes,
        isIntervalStart]
  · have hes : e ≠ s := by omega
    simp [slots_ite, ite_apply, apply_ite VmPageOrMarker.shape, Function.update_apply, zeroInterval, hes]
    split_ifs <;> simp_all [changeIntervalSentinel]
  · have hs0 := (of_mergeWithPrev hmp).1
    have hes : e - 1 ≠ s - 1 := by omega
    simp [slots_ite, ite_apply, apply_ite VmPageOrMarker.shape, Function.update_apply, hlast, zeroInterval, hes,
      apply_ite isIntervalStart]
    split_ifs <;> simp_all [changeIntervalSentinel]
  · have hs0 := (of_mergeWithPrev hmp).1
    simp [slots_ite, ite_apply, apply_ite VmPageOrMarker.shape, Function.update_apply]
    split_ifs <;> simp_all [changeIntervalSentinel]

variable (hse : s < e) (hrange : ∀ i, s ≤ i → i < e → l.slots i = empty ∧ l.cov i = none)
include hse hrange

theorem carry_of_fresh : ∀ i, s ≤ i → i ≤ e → l.carry i = none := by
  have hs : l.carry s = none := by
    have h := hrange s le_rfl hse
    rw [cov_eq_slotCov, h.1] at h
    exact h.2
  intro i hi₁ hi₂
  rw [carry_of_empty_between hi₁ fun j hj₁ hj₂ ↦ (hrange j hj₁ (by omega)).1, hs]

theorem addZeroIntervalInternal_prev (hw : l.WellFormed) :
    (l.addZeroIntervalInternal s e d len).carry s = (if l.mergeWithPrev s d then some d else none) ∧
      (0 < s → (l.addZeroIntervalInternal s e d len).cov (s - 1) = l.cov (s - 1)) := by
  set l' := l.addZeroIntervalInternal s e d len
  have hsh := @addZeroIntervalInternal_shape _ l d s e len hse (hrange (e - 1) (by omega) (by omega)).1
  have hbelow : l'.carry (s - 1) = l.carry (s - 1) := carry_congr fun i hi ↦ by
    rw [hsh]
    simp [show i ≠ e by omega, show i ≠ e - 1 by omega, show i ≠ s by omega, show i ≠ s - 1 by omega]
  rcases Nat.eq_zero_or_pos s with rfl | hs0
  · have hmp : l.mergeWithPrev 0 d = false := by simp [mergeWithPrev]
    simp [hmp]
  have hsucc : s - 1 + 1 = s := by omega
  cases hmp : l.mergeWithPrev s d
  · -- the slot before keeps its shape and passes nothing on
    have hprev : (l'.slots (s - 1)).shape = (l.slots (s - 1)).shape := by
      rw [hsh]
      simp [hmp, show s - 1 ≠ e by omega, show s - 1 ≠ e - 1 by omega, show s - 1 ≠ s by omega]
    have hcarry : l'.carry s = l.carry s := by
      rw [← hsucc, carry_succ, carry_succ, ← carryPast_shape, hprev, carryPast_shape, hbelow]
    rw [hcarry, carry_of_fresh hse hrange s le_rfl hse.le]
    exact ⟨rfl, fun _ ↦ cov_eq_of_shape_carry hprev hbelow⟩
  · obtain ⟨-, n, hp | hp⟩ := of_mergeWithPrev hmp
    · -- an end before gives way, and its interval carries on
      have hprev : (l'.slots (s - 1)).shape = empty := by
        rw [hsh]
        simp [hmp, hp, isIntervalEnd, show s - 1 ≠ e by omega, show s - 1 ≠ e - 1 by omega,
          show s - 1 ≠ s by omega]
      have hend := hw.end_open _ _ _ hp
      rw [← hsucc, carry_succ, ← carryPast_shape, hprev, hsucc, cov_eq_slotCov, ← slotCov_shape, hprev,
        hbelow, hend, cov_eq_slotCov, hp]
      exact ⟨rfl, fun _ ↦ rfl⟩
    · -- a slot before becomes the start
      have hprev : (l'.slots (s - 1)).shape = interval .start d 0 := by
        rw [hsh]
        simp [hmp, hp, isIntervalEnd, show s - 1 ≠ e by omega, show s - 1 ≠ e - 1 by omega,
          show s - 1 ≠ s by omega]
      rw [← hsucc, carry_succ, ← carryPast_shape, hprev, hsucc, cov_eq_slotCov, ← slotCov_shape, hprev,
        cov_eq_slotCov, hp]
      exact ⟨rfl, fun _ ↦ rfl⟩

theorem addZeroIntervalInternal_mid (hw : l.WellFormed) :
    (∀ x, s ≤ x → x < e → (l.addZeroIntervalInternal s e d len).cov x = some d) ∧
      (l.addZeroIntervalInternal s e d len).carry e = (if l.mergeWithNext e d then some d else none) := by
  set l' := l.addZeroIntervalInternal s e d len
  have hsh := @addZeroIntervalInternal_shape _ l d s e len hse (hrange (e - 1) (by omega) (by omega)).1
  have hcs := (@addZeroIntervalInternal_prev _ l d s e len hse hrange hw).1
  by_cases hone : e - 1 = s
  · -- a one-page interval: a slot, an end, a start, or nothing of its own
    have hshs : (l'.slots s).shape =
        if l.mergeWithNext e d then (if l.mergeWithPrev s d then empty else interval .start d 0)
        else (if l.mergeWithPrev s d then interval .end d 0 else interval .slot d 0) := by
      rw [hsh]
      cases hmp : l.mergeWithPrev s d
      · cases l.mergeWithNext e d <;> simp [hone, show s ≠ e by omega]
      · have hss : s ≠ s - 1 := by
          have := (of_mergeWithPrev hmp).1
          omega
        cases l.mergeWithNext e d <;> simp [hone, hss, show s ≠ e by omega, (hrange s le_rfl hse).1]
    have hcarry : l'.carry e = l'.carry (s + 1) := by rw [show s + 1 = e by omega]
    refine ⟨fun x hx₁ hx₂ ↦ ?_, ?_⟩
    · rw [show x = s by omega, cov_eq_slotCov, ← slotCov_shape, hshs, hcs]
      cases l.mergeWithPrev s d <;> cases l.mergeWithNext e d <;> rfl
    · rw [hcarry, carry_succ, ← carryPast_shape, hshs, hcs]
      cases l.mergeWithPrev s d <;> cases l.mergeWithNext e d <;> rfl
  · -- the new start, then empty slots, then the new end
    have hshs : (l'.slots s).shape = if l.mergeWithPrev s d then empty else interval .start d 0 := by
      rw [hsh]
      cases hmp : l.mergeWithPrev s d
      · simp [Ne.symm hone, show s ≠ e by omega]
      · have hss : s ≠ s - 1 := by
          have := (of_mergeWithPrev hmp).1
          omega
        simp [hss, Ne.symm hone, show s ≠ e by omega, (hrange s le_rfl hse).1]
    have hshe : (l'.slots (e - 1)).shape = if l.mergeWithNext e d then empty else interval .end d 0 := by
      rw [hsh]
      cases l.mergeWithNext e d <;>
        simp [hone, show e - 1 ≠ e by omega, show e - 1 ≠ s - 1 by omega,
          (hrange (e - 1) (by omega) (by omega)).1]
    have hgap : ∀ i, s < i → i < e - 1 → l'.slots i = empty := fun i hi₁ hi₂ ↦ by
      rw [← shape_eq_empty_iff, hsh]
      simp [show i ≠ e by omega, show i ≠ e - 1 by omega, show i ≠ s by omega, show i ≠ s - 1 by omega,
        (hrange i (by omega) (by omega)).1]
    have hfirst : l'.carry (s + 1) = some d := by
      rw [carry_succ, ← carryPast_shape, hshs, hcs]
      cases l.mergeWithPrev s d <;> rfl
    have hrun : ∀ x, s < x → x ≤ e - 1 → l'.carry x = some d := fun x hx₁ hx₂ ↦ by
      rw [carry_of_empty_between (Nat.succ_le_of_lt hx₁) fun i hi₁ hi₂ ↦ hgap i (by omega) (by omega), hfirst]
    refine ⟨fun x hx₁ hx₂ ↦ ?_, ?_⟩
    · rw [cov_eq_slotCov, ← slotCov_shape]
      rcases Nat.eq_or_lt_of_le hx₁ with hxs | hx₁
      · rw [← hxs, hshs, hcs]
        cases l.mergeWithPrev s d <;> rfl
      rw [hrun x hx₁ (by omega)]
      rcases Nat.lt_or_ge x (e - 1) with hx₂ | hx₂
      · rw [hgap x hx₁ hx₂]
        rfl
      · rw [show x = e - 1 by omega, hshe]
        cases l.mergeWithNext e d <;> rfl
    · rw [show e = e - 1 + 1 by omega, carry_succ, ← carryPast_shape, hshe, hrun (e - 1) (by omega) le_rfl,
        show e - 1 + 1 = e by omega]
      cases l.mergeWithNext e d <;> rfl

theorem addZeroIntervalInternal_next (hw : l.WellFormed) :
    (l.addZeroIntervalInternal s e d len).cov e = l.cov e ∧
      (l.addZeroIntervalInternal s e d len).carry (e + 1) = l.carry (e + 1) := by
  set l' := l.addZeroIntervalInternal s e d len
  have hsh := @addZeroIntervalInternal_shape _ l d s e len hse (hrange (e - 1) (by omega) (by omega)).1
  have hce := (@addZeroIntervalInternal_mid _ l d s e len hse hrange hw).2
  cases hmn : l.mergeWithNext e d
  · -- the slot past the interval keeps its shape, and nothing reaches it
    have hnext : (l'.slots e).shape = (l.slots e).shape := by
      rw [hsh]
      simp [hmn, show e ≠ e - 1 by omega, show e ≠ s by omega, show e ≠ s - 1 by omega]
    have hcarry : l'.carry e = l.carry e := by
      rw [hce, hmn, carry_of_fresh hse hrange e hse.le le_rfl]
      rfl
    refine ⟨cov_eq_of_shape_carry hnext hcarry, ?_⟩
    rw [carry_succ, carry_succ, ← carryPast_shape, hnext, carryPast_shape, hcarry]
  · rw [hmn] at hce
    obtain ⟨n, hq | hq⟩ := of_mergeWithNext hmn
    · -- a start past the interval gives way, and the interval runs on
      have hnext : (l'.slots e).shape = empty := by
        rw [hsh]
        simp [hmn, hq, isIntervalStart]
      rw [cov_eq_slotCov, ← slotCov_shape, hnext, carry_succ, ← carryPast_shape, hnext, hce,
        cov_eq_slotCov, hq, carry_succ, hq]
      exact ⟨rfl, rfl⟩
    · -- a slot past the interval becomes its end
      have hnext : (l'.slots e).shape = interval .end d 0 := by
        rw [hsh]
        simp [hmn, hq, isIntervalStart]
      rw [cov_eq_slotCov, ← slotCov_shape, hnext, carry_succ, ← carryPast_shape, hnext,
        cov_eq_slotCov, hq, carry_succ, hq]
      exact ⟨rfl, rfl⟩

theorem addZeroIntervalInternal_cov (hw : l.WellFormed) (x : ℕ) :
    (l.addZeroIntervalInternal s e d len).cov x = if s ≤ x ∧ x < e then some d else l.cov x := by
  have hsh := @addZeroIntervalInternal_shape _ l d s e len hse (hrange (e - 1) (by omega) (by omega)).1
  have hout : ∀ i, i < s - 1 ∨ e < i →
      ((l.addZeroIntervalInternal s e d len).slots i).shape = (l.slots i).shape := fun i hi ↦ by
    rw [hsh]
    simp [show i ≠ e by omega, show i ≠ e - 1 by omega, show i ≠ s by omega, show i ≠ s - 1 by omega]
  obtain ⟨hnext, hcarry⟩ := @addZeroIntervalInternal_next _ l d s e len hse hrange hw
  have hx : x < s - 1 ∨ (x = s - 1 ∧ 0 < s) ∨ (s ≤ x ∧ x < e) ∨ x = e ∨ e < x := by omega
  rcases hx with hx | ⟨rfl, hs0⟩ | hx | rfl | hx
  · rw [if_neg (by omega)]
    exact cov_eq_outside hout hcarry (.inl hx)
  · rw [if_neg (by omega)]
    exact (@addZeroIntervalInternal_prev _ l d s e len hse hrange hw).2 hs0
  · rw [if_pos hx]
    exact (@addZeroIntervalInternal_mid _ l d s e len hse hrange hw).1 x hx.1 hx.2
  · rw [if_neg (by omega)]
    exact hnext
  · rw [if_neg (by omega)]
    exact cov_eq_outside hout hcarry (.inr hx)

theorem addZeroIntervalInternal_content (x : ℕ) :
    ((l.addZeroIntervalInternal s e d len).slots x).content? = (l.slots x).content? := by
  rw [← content?_shape, addZeroIntervalInternal_shape hse (hrange (e - 1) (by omega) (by omega)).1]
  by_cases hnext : l.mergeWithNext e d ∧ x = e
  · -- the start or slot past the interval
    rw [if_pos hnext, hnext.2]
    obtain ⟨n, hq | hq⟩ := of_mergeWithNext hnext.1 <;> simp [hq, isIntervalStart, content?]
  rw [if_neg hnext]
  by_cases hend : !l.mergeWithNext e d ∧ x = e - 1
  · rw [if_pos hend, hend.2, (hrange (e - 1) (by omega) (by omega)).1]
    split <;> rfl
  rw [if_neg hend]
  by_cases hstart : !l.mergeWithPrev s d ∧ x = s
  · rw [if_pos hstart, hstart.2, (hrange s le_rfl hse).1]
    rfl
  rw [if_neg hstart]
  by_cases hprev : l.mergeWithPrev s d ∧ x = s - 1
  · -- the end or slot before the interval
    rw [if_pos hprev, hprev.2]
    obtain ⟨-, n, hp | hp⟩ := of_mergeWithPrev hprev.1 <;> simp [hp, isIntervalEnd, content?]
  rw [if_neg hprev]
  exact content?_shape _

end AddZero

/-! ### Returning a slot -/

section ReturnSlot

variable {o : ℕ} (hw : l.WellFormed) (ho : l.slots o = interval .slot d n)
include hw ho

theorem carry_set_empty_of_slot (x : ℕ) : (l.set o empty).carry x = l.carry x := by
  have hout : ∀ i, i ≠ o → ((l.set o empty).slots i).shape = (l.slots i).shape := fun i hi ↦ by
    rw [slots_set_of_ne hi]
  rcases Nat.lt_or_ge o x with hox | hox
  · refine carry_congr_above (Nat.succ_le_of_lt hox) (fun i hi ↦ hout i (by omega)) ?_
    rw [carry_succ, carry_succ, slots_set, Function.update_self, ho,
      carry_congr fun i hi ↦ hout i (by omega), hw.carry_of_interval ho]
    rfl
  · exact carry_congr fun i hi ↦ hout i (by omega)

theorem wellFormed_set_empty_of_slot : (l.set o empty).WellFormed where
  end_open x state len hx := by
    have hxo : x ≠ o := by
      rintro rfl
      simp at hx
    rw [slots_set_of_ne hxo] at hx
    rw [carry_set_empty_of_slot hw ho]
    exact hw.end_open x state len hx
  closed x hx hend := by
    have hxo : x ≠ o := by
      rintro rfl
      simp [isEmpty] at hx
    rw [slots_set_of_ne hxo] at hx hend
    rw [carry_set_empty_of_slot hw ho]
    exact hw.closed x hx hend

theorem fresh_set_empty_of_slot :
    ∀ i, o ≤ i → i < o + 1 → (l.set o empty).slots i = empty ∧ (l.set o empty).cov i = none := by
  intro i hi₁ hi₂
  obtain rfl : i = o := by omega
  have hempty : (l.set i empty).slots i = empty := by simp
  refine ⟨hempty, ?_⟩
  rw [cov_eq_slotCov, hempty, carry_set_empty_of_slot hw ho, hw.carry_of_interval ho]
  rfl

theorem returnIntervalSlot_cov (x : ℕ) : (l.returnIntervalSlot o).cov x = l.cov x := by
  unfold returnIntervalSlot
  rw [ho, addZeroIntervalInternal_cov (Nat.lt_succ_self o) (fresh_set_empty_of_slot hw ho)
    (wellFormed_set_empty_of_slot hw ho)]
  split_ifs with hx
  · rw [show x = o by omega, cov_eq_slotCov, ho]
    rfl
  · exact cov_eq_of_shape_carry (by rw [slots_set_of_ne (by omega)]) (carry_set_empty_of_slot hw ho x)

theorem returnIntervalSlot_content (x : ℕ) :
    ((l.returnIntervalSlot o).slots x).content? = (l.slots x).content? := by
  unfold returnIntervalSlot
  rw [addZeroIntervalInternal_content (Nat.lt_succ_self o) (fresh_set_empty_of_slot hw ho)]
  by_cases hx : x = o
  · rw [hx, ho]
    simp [content?]
  · rw [slots_set_of_ne hx]

end ReturnSlot

/-! ### Splitting an interval around a slot -/

section Split

variable {o : ℕ}

theorem splitAround_shape (hslot : l.slots o = empty ∨ ∃ sentinel n, sentinel ≠ .slot ∧ l.slots o = interval sentinel d n) (i : ℕ) :
    ((l.splitAround o d).slots i).shape =
      if i = o then interval .slot d 0
      else if i = o + 1 ∧ !(l.slots o).isIntervalEnd then
        if (l.slots (o + 1)).isIntervalEnd then (l.slots (o + 1)).shape.changeIntervalSentinel .slot
        else interval .start d 0
      else if i = o - 1 ∧ !(l.slots o).isIntervalStart then
        if (l.slots (o - 1)).isIntervalStart then (l.slots (o - 1)).shape.changeIntervalSentinel .slot
        else interval .end d 0
      else (l.slots i).shape := by
  have h1 : o + 1 ≠ o := by omega
  unfold splitAround
  rcases hslot with h | ⟨_ | _ | _, n, hs, h⟩
  · simp only [h, isEmpty_empty, isIntervalEnd_empty, isIntervalStart_empty, Bool.not_false, and_true, if_true,
      slots_set, slots_modify, Function.update_apply]
    split_ifs <;> first | rfl | (exfalso; omega) | simp
  · exact absurd rfl hs
  · simp [h, Function.update_apply, zeroInterval, slots_ite, ite_apply]
    split_ifs <;> first | rfl | simp
  · -- an end at offset zero would make the left neighbour the end itself
    have h0 : o = o - 1 → (l.slots (o - 1)).isIntervalStart = false := fun heq ↦ by
      rw [← heq, h]
      rfl
    simp [h, Function.update_apply, zeroInterval]
    split_ifs <;> first | rfl | (simp; done) | (exact absurd (h0 ‹o = o - 1›) (by simp [‹(l.slots (o - 1)).isIntervalStart = true›]))

variable (hw : l.WellFormed) (hcov : l.cov o = some d) (hnot : (l.slots o).isIntervalSlot = false)
include hw hcov hnot

theorem split_cases :
    (l.slots o = empty ∧ l.carry o = some d) ∨ (∃ n, l.slots o = interval .start d n) ∨
      (∃ n, l.slots o = interval .end d n ∧ l.carry o = some d) := by
  rw [cov_eq_slotCov] at hcov
  rcases h : l.slots o with _ | c | ⟨_ | _ | _, state, n⟩ <;> rw [h] at hcov hnot
  · exact .inl ⟨rfl, hcov⟩
  · cases hcov
  · cases hnot
  · cases hcov
    exact .inr (.inl ⟨n, rfl⟩)
  · cases hcov
    exact .inr (.inr ⟨n, rfl, hw.end_open _ _ _ h⟩)

theorem split_right (hne : (l.slots o).isIntervalEnd = false) :
    l.carry (o + 1) = some d ∧ (l.slots (o + 1) = empty ∨ ∃ n, l.slots (o + 1) = interval .end d n) := by
  have hcarry : l.carry (o + 1) = some d := by
    rw [carry_succ]
    rcases split_cases hw hcov hnot with ⟨h, hc⟩ | ⟨n, h⟩ | ⟨n, h, -⟩
    · rw [h, hc]
      rfl
    · rw [h]
      rfl
    · rw [h] at hne
      cases hne
  refine ⟨hcarry, ?_⟩
  rcases h : l.slots (o + 1) with _ | c | ⟨_ | _ | _, state, n⟩
  · exact .inl rfl
  · rw [hw.carry_of_content h] at hcarry
    cases hcarry
  all_goals
    have hfit := hw.carry_of_interval h
    simp_all

theorem split_left (hns : (l.slots o).isIntervalStart = false) :
    0 < o ∧ ((∃ n, l.slots (o - 1) = interval .start d n) ∨
      (l.slots (o - 1) = empty ∧ l.carry (o - 1) = some d)) := by
  have hcarry : l.carry o = some d := by
    rcases split_cases hw hcov hnot with ⟨h, hc⟩ | ⟨n, h⟩ | ⟨n, h, hc⟩
    · exact hc
    · rw [h] at hns
      cases hns
    · exact hc
  have hpos : 0 < o := by
    rcases Nat.eq_zero_or_pos o with rfl | hpos
    · simp at hcarry
    · exact hpos
  refine ⟨hpos, ?_⟩
  rw [show o = o - 1 + 1 by omega, carry_succ] at hcarry
  rcases h : l.slots (o - 1) with _ | c | ⟨_ | _ | _, state, n⟩ <;> rw [h] at hcarry <;>
    simp_all [carryPast]

theorem split_slot : l.slots o = empty ∨ ∃ sentinel n, sentinel ≠ .slot ∧ l.slots o = interval sentinel d n := by
  rcases split_cases hw hcov hnot with ⟨h, -⟩ | ⟨n, h⟩ | ⟨n, h, -⟩
  exacts [.inl h, .inr ⟨_, n, by decide, h⟩, .inr ⟨_, n, by decide, h⟩]

theorem splitAround_right_shape (hne : (l.slots o).isIntervalEnd = false) :
    (((l.splitAround o d).slots (o + 1)).shape = interval .start d 0 ∧ l.slots (o + 1) = empty) ∨
      (((l.splitAround o d).slots (o + 1)).shape = interval .slot d 0 ∧
        ∃ n, l.slots (o + 1) = interval .end d n) := by
  have hsh := splitAround_shape (split_slot hw hcov hnot) (o + 1)
  obtain ⟨-, hq | ⟨n, hq⟩⟩ := split_right hw hcov hnot hne
  · simp [hne, hq] at hsh
    exact .inl ⟨hsh, hq⟩
  · simp [hne, hq] at hsh
    exact .inr ⟨hsh, n, hq⟩

theorem splitAround_left_shape (hns : (l.slots o).isIntervalStart = false) :
    0 < o ∧ ((((l.splitAround o d).slots (o - 1)).shape = interval .slot d 0 ∧
        ∃ n, l.slots (o - 1) = interval .start d n) ∨
      (((l.splitAround o d).slots (o - 1)).shape = interval .end d 0 ∧ l.slots (o - 1) = empty ∧
        l.carry (o - 1) = some d)) := by
  have hsh := splitAround_shape (split_slot hw hcov hnot) (o - 1)
  obtain ⟨hpos, ⟨n, hp⟩ | ⟨hp, hcarry⟩⟩ := split_left hw hcov hnot hns
  · simp [hns, hp, show o - 1 ≠ o by omega, show o - 1 ≠ o + 1 by omega] at hsh
    exact ⟨hpos, .inl ⟨hsh, n, hp⟩⟩
  · simp [hns, hp, show o - 1 ≠ o by omega, show o - 1 ≠ o + 1 by omega] at hsh
    exact ⟨hpos, .inr ⟨hsh, hp, hcarry⟩⟩

theorem splitAround_shape_of_far (hi : i + 1 < o ∨ o + 1 < i) :
    ((l.splitAround o d).slots i).shape = (l.slots i).shape := by
  rw [splitAround_shape (split_slot hw hcov hnot)]
  simp [show i ≠ o by omega, show i ≠ o + 1 by omega, show i ≠ o - 1 by omega]

theorem splitAround_right_of_end (hne : (l.slots o).isIntervalEnd = true) :
    ((l.splitAround o d).slots (o + 1)).shape = (l.slots (o + 1)).shape := by
  rw [splitAround_shape (split_slot hw hcov hnot)]
  simp [hne, show o + 1 ≠ o - 1 by omega]

theorem splitAround_left_of_start (hpos : 0 < o) (hns : (l.slots o).isIntervalStart = true) :
    ((l.splitAround o d).slots (o - 1)).shape = (l.slots (o - 1)).shape := by
  rw [splitAround_shape (split_slot hw hcov hnot)]
  simp [hns, show o - 1 ≠ o by omega, show o - 1 ≠ o + 1 by omega]

theorem splitAround_shape_self : ((l.splitAround o d).slots o).shape = interval .slot d 0 := by
  rw [splitAround_shape (split_slot hw hcov hnot)]
  simp

theorem splitAround_carry_succ : (l.splitAround o d).carry (o + 1) = none := by
  rw [carry_succ, ← carryPast_shape, splitAround_shape_self hw hcov hnot]
  rfl

theorem splitAround_carry_past : (l.splitAround o d).carry (o + 2) = l.carry (o + 2) := by
  set l' := l.splitAround o d
  show l'.carry (o + 1 + 1) = l.carry (o + 1 + 1)
  rw [carry_succ l' (o + 1), carry_succ l (o + 1), ← carryPast_shape, splitAround_carry_succ hw hcov hnot]
  cases hne : (l.slots o).isIntervalEnd
  · obtain ⟨hcarry, -⟩ := split_right hw hcov hnot hne
    rcases splitAround_right_shape hw hcov hnot hne with ⟨hq', hq⟩ | ⟨hq', n, hq⟩ <;>
      rw [hq', hq, hcarry] <;> rfl
  · rw [splitAround_right_of_end hw hcov hnot hne, carryPast_shape, carry_succ]
    rcases split_cases hw hcov hnot with ⟨h, -⟩ | ⟨n, h⟩ | ⟨n, h, -⟩ <;> simp_all [carryPast]

theorem splitAround_cov (x : ℕ) : (l.splitAround o d).cov x = l.cov x := by
  set l' := l.splitAround o d
  have hout : ∀ i, i < o - 1 ∨ o + 1 < i → (l'.slots i).shape = (l.slots i).shape :=
    fun i hi ↦ splitAround_shape_of_far hw hcov hnot (by omega)
  have hpast := splitAround_carry_past hw hcov hnot
  have hx : x < o - 1 ∨ (x = o - 1 ∧ 0 < o) ∨ x = o ∨ x = o + 1 ∨ o + 1 < x := by omega
  rcases hx with hx | ⟨rfl, hpos⟩ | rfl | rfl | hx
  · exact cov_eq_outside hout hpast (.inl hx)
  · -- before the split slot: the old start turned into a slot, or a new end
    have hbelow : l'.carry (o - 1) = l.carry (o - 1) := carry_congr fun i hi ↦ hout i (.inl hi)
    cases hns : (l.slots o).isIntervalStart
    · rw [cov_eq_slotCov, ← slotCov_shape, cov_eq_slotCov]
      rcases (splitAround_left_shape hw hcov hnot hns).2 with ⟨hp', n, hp⟩ | ⟨hp', hp, hcarry⟩
      · rw [hp', hp]
        rfl
      · rw [hp', hp, hcarry]
        rfl
    · exact cov_eq_of_shape_carry (splitAround_left_of_start hw hcov hnot hpos hns) hbelow
  · rw [hcov, cov_eq_slotCov, ← slotCov_shape, splitAround_shape_self hw hcov hnot]
    rfl
  · -- past the split slot: a new start, or the old end turned into a slot
    cases hne : (l.slots o).isIntervalEnd
    · obtain ⟨hcarry, -⟩ := split_right hw hcov hnot hne
      rw [cov_eq_slotCov, ← slotCov_shape, cov_eq_slotCov]
      rcases splitAround_right_shape hw hcov hnot hne with ⟨hq', hq⟩ | ⟨hq', n, hq⟩ <;>
        rw [hq', hq, hcarry] <;> rfl
    · refine cov_eq_of_shape_carry (splitAround_right_of_end hw hcov hnot hne) ?_
      rw [splitAround_carry_succ hw hcov hnot, carry_succ]
      rcases split_cases hw hcov hnot with ⟨h, -⟩ | ⟨n, h⟩ | ⟨n, h, -⟩ <;> simp_all [carryPast]
  · exact cov_eq_outside hout hpast (.inr hx)

theorem splitAround_content (x : ℕ) : ((l.splitAround o d).slots x).content? = (l.slots x).content? := by
  rw [← content?_shape, ← content?_shape (l.slots x)]
  have hx : x + 1 < o ∨ o + 1 < x ∨ x = o ∨ x = o + 1 ∨ (x = o - 1 ∧ 0 < o) := by omega
  rcases hx with hx | hx | rfl | rfl | ⟨rfl, hpos⟩
  · rw [splitAround_shape_of_far hw hcov hnot (.inl hx)]
  · rw [splitAround_shape_of_far hw hcov hnot (.inr hx)]
  · rw [splitAround_shape_self hw hcov hnot]
    rcases split_cases hw hcov hnot with ⟨h, -⟩ | ⟨n, h⟩ | ⟨n, h, -⟩ <;> rw [h] <;> rfl
  · cases hne : (l.slots o).isIntervalEnd
    · rcases splitAround_right_shape hw hcov hnot hne with ⟨hq', hq⟩ | ⟨hq', n, hq⟩ <;>
        rw [hq', hq] <;> rfl
    · rw [splitAround_right_of_end hw hcov hnot hne]
  · cases hns : (l.slots o).isIntervalStart
    · rcases (splitAround_left_shape hw hcov hnot hns).2 with ⟨hp', n, hp⟩ | ⟨hp', hp, -⟩ <;>
        rw [hp', hp] <;> rfl
    · rw [splitAround_left_of_start hw hcov hnot hpos hns]

theorem splitAround_isIntervalSlot (h : (l.slots i).isIntervalSlot = true) :
    ((l.splitAround o d).slots i).isIntervalSlot = true := by
  rw [← isIntervalSlot_shape]
  have hx : i + 1 < o ∨ o + 1 < i ∨ i = o ∨ i = o + 1 ∨ (i = o - 1 ∧ 0 < o) := by omega
  rcases hx with hx | hx | rfl | rfl | ⟨rfl, hpos⟩
  · rw [splitAround_shape_of_far hw hcov hnot (.inl hx), isIntervalSlot_shape, h]
  · rw [splitAround_shape_of_far hw hcov hnot (.inr hx), isIntervalSlot_shape, h]
  · rw [splitAround_shape_self hw hcov hnot]
    rfl
  · -- the slot past a split is an empty slot or an end unless the split slot is an end
    cases hne : (l.slots o).isIntervalEnd
    · rcases split_right hw hcov hnot hne with ⟨-, hq | ⟨n, hq⟩⟩ <;> simp [hq] at h
    · rw [splitAround_right_of_end hw hcov hnot hne, isIntervalSlot_shape, h]
  · cases hns : (l.slots o).isIntervalStart
    · rcases (split_left hw hcov hnot hns).2 with ⟨n, hp⟩ | ⟨hp, -⟩ <;> simp [hp] at h
    · rw [splitAround_left_of_start hw hcov hnot hpos hns, isIntervalSlot_shape, h]

theorem splitAround_wellFormed : (l.splitAround o d).WellFormed := by
  set l' := l.splitAround o d
  have hfits := wellFormed_iff.mp hw
  -- what is carried into the split slot: nothing, past a new end, an old start
  have hcarry_o : l'.carry o = none := by
    rcases Nat.eq_zero_or_pos o with h0 | hpos
    · rw [h0]
      rfl
    cases hns : (l.slots o).isIntervalStart
    · rw [show o = o - 1 + 1 by omega, carry_succ, ← carryPast_shape]
      rcases (splitAround_left_shape hw hcov hnot hns).2 with ⟨hp', -⟩ | ⟨hp', -⟩ <;> rw [hp'] <;> rfl
    · have hbelow : l'.carry o = l.carry o := carry_congr fun i hi ↦ by
        rcases Nat.lt_or_ge (i + 1) o with hi' | hi'
        · exact splitAround_shape_of_far hw hcov hnot (.inl hi')
        · rw [show i = o - 1 by omega]
          exact splitAround_left_of_start hw hcov hnot hpos hns
      rw [hbelow]
      rcases split_cases hw hcov hnot with ⟨h, -⟩ | ⟨n, h⟩ | ⟨n, h, -⟩ <;> simp [h] at hns
      rw [hw.carry_of_interval h]
      rfl
  refine @WellFormed.of_window _ _ _ hw (o - 1) (o + 1)
    (fun i hi ↦ splitAround_shape_of_far hw hcov hnot (by omega))
    (splitAround_carry_past hw hcov hnot) fun i hi₁ hi₂ ↦ ?_
  rw [← carryFits_shape]
  have hx : i = o ∨ i = o + 1 ∨ (i = o - 1 ∧ 0 < o) := by omega
  rcases hx with rfl | rfl | ⟨rfl, hpos⟩
  · rw [splitAround_shape_self hw hcov hnot, hcarry_o]
    rfl
  · rw [splitAround_carry_succ hw hcov hnot]
    cases hne : (l.slots o).isIntervalEnd
    · rcases splitAround_right_shape hw hcov hnot hne with ⟨hq', -⟩ | ⟨hq', -⟩ <;> rw [hq'] <;> rfl
    · -- the end stays, and nothing is carried past the split slot, as past the old end
      rw [splitAround_right_of_end hw hcov hnot hne, carryFits_shape]
      have hold : l.carry (o + 1) = none := by
        rw [carry_succ]
        rcases split_cases hw hcov hnot with ⟨h, -⟩ | ⟨n, h⟩ | ⟨n, h, -⟩ <;> simp_all [carryPast]
      rw [← hold]
      exact hfits (o + 1)
  · have hbelow : l'.carry (o - 1) = l.carry (o - 1) :=
      carry_congr fun i hi ↦ splitAround_shape_of_far hw hcov hnot (.inl (by omega))
    rw [hbelow]
    cases hns : (l.slots o).isIntervalStart
    · rcases (splitAround_left_shape hw hcov hnot hns).2 with ⟨hp', n, hp⟩ | ⟨hp', -, hcarry⟩
      · rw [hp', hw.carry_of_interval hp]
        rfl
      · rw [hp', hcarry]
        rfl
    · rw [splitAround_left_of_start hw hcov hnot hpos hns, carryFits_shape]
      exact hfits (o - 1)

end Split

/-! ### Looking up a slot, splitting the interval around it -/

section Lookup

variable {o : ℕ} {splitInterval : Bool} {r : Option ℕ × Bool} {l' : VmPageList α}

theorem cov_of_intervalAt {f : VmPageOrMarker α} (h : l.intervalAt o = some f) :
    l.cov o = some f.getZeroIntervalDirtyState := by
  simp [cov, h]

/-- `LookupOrAllocateCheckForInterval` keeps the list well formed, its coverage
and its content, and its slot sentinels; when it reports a slot in an interval,
that slot is now a slot sentinel. -/
theorem lookupOrAllocateCheckForInterval_spec (hw : l.WellFormed)
    (h : l.lookupOrAllocateCheckForInterval o splitInterval = (r, l')) :
    l'.WellFormed ∧ (∀ x, l'.cov x = l.cov x) ∧ (∀ x, (l'.slots x).content? = (l.slots x).content?) ∧
      (∀ i, (l.slots i).isIntervalSlot = true → (l'.slots i).isIntervalSlot = true) ∧
      (∀ o', r = (some o', true) → (l'.slots o).isIntervalSlot = true) := by
  unfold lookupOrAllocateCheckForInterval at h
  by_cases hmax : kMaxSize ≤ nodeOffset o
  · -- past `MAX_SIZE` nothing is looked up
    rw [if_pos hmax] at h
    cases h
    exact ⟨hw, fun _ ↦ rfl, fun _ ↦ rfl, fun _ h ↦ h, fun _ h ↦ by cases h⟩
  rw [if_neg hmax] at h
  rcases hf : l.intervalAt o with _ | f <;> simp only [hf] at h
  · cases h
    exact ⟨hw, fun _ ↦ rfl, fun _ ↦ rfl, fun _ h ↦ h, fun _ h ↦ by cases h⟩
  by_cases hslot : (l.slots o).isIntervalSlot = true
  · cases splitInterval <;> simp [hslot] at h <;> obtain ⟨rfl, rfl⟩ := h
    · exact ⟨hw, fun _ ↦ rfl, fun _ ↦ rfl, fun _ h ↦ h, fun _ h ↦ by cases h⟩
    · exact ⟨hw, fun _ ↦ rfl, fun _ ↦ rfl, fun _ h ↦ h, fun _ _ ↦ hslot⟩
  cases splitInterval <;> simp [hslot] at h <;> obtain ⟨rfl, rfl⟩ := h
  · exact ⟨hw, fun _ ↦ rfl, fun _ ↦ rfl, fun _ h ↦ h, fun _ h ↦ by cases h⟩
  · -- the split proper
    have hcov := cov_of_intervalAt hf
    have hnot : (l.slots o).isIntervalSlot = false := by simpa using hslot
    refine ⟨splitAround_wellFormed hw hcov hnot, splitAround_cov hw hcov hnot,
      splitAround_content hw hcov hnot, fun i hi ↦ splitAround_isIntervalSlot hw hcov hnot hi, fun _ _ ↦ ?_⟩
    rw [← isIntervalSlot_shape, splitAround_shape_self hw hcov hnot]
    rfl

theorem lookupOrAllocateCheckForInterval_of_cov (hin : l.cov o ≠ none)
    (h : l.lookupOrAllocateCheckForInterval o true = (r, l')) {o' : ℕ} (hr : r.1 = some o') :
    r = (some o, true) := by
  unfold lookupOrAllocateCheckForInterval at h
  by_cases hmax : kMaxSize ≤ nodeOffset o
  · rw [if_pos hmax] at h
    cases h
    cases hr
  rw [if_neg hmax] at h
  rcases hf : l.intervalAt o with _ | f
  · simp [cov, hf] at hin
  simp only [hf] at h
  by_cases hslot : (l.slots o).isIntervalSlot = true <;> simp [hslot] at h <;> rw [← h.1]

end Lookup

/-! ### Populating the slots of an interval -/

section Populate

theorem fillSlots_slots_of_not_mem (state : IntervalDirtyState) (a count : ℕ) (acc : VmPageList α × ℕ)
    (hi : i < a ∨ a + count ≤ i) : (fillSlots state a count acc).1.slots i = acc.1.slots i := by
  induction count generalizing a acc with
  | zero => rfl
  | succ count ih =>
    obtain ⟨l, len⟩ := acc
    unfold fillSlots
    split_ifs
    all_goals
      rw [ih _ _ (by omega), slots_set_of_ne (by omega)]

theorem fillSlots_shape_of_mem (state : IntervalDirtyState) (a count : ℕ) (acc : VmPageList α × ℕ)
    (hi : a ≤ i ∧ i < a + count) : ((fillSlots state a count acc).1.slots i).shape = interval .slot state 0 := by
  induction count generalizing a acc with
  | zero => omega
  | succ count ih =>
    obtain ⟨l, len⟩ := acc
    unfold fillSlots
    rcases Nat.eq_or_lt_of_le hi.1 with rfl | hlt
    · split_ifs
      all_goals
        rw [fillSlots_slots_of_not_mem _ _ _ _ (.inl (Nat.lt_succ_self _))]
        simp [zeroInterval]
    · split_ifs
      all_goals exact ih _ _ ⟨hlt, by omega⟩

@[simp] theorem shape_slots_carryAwaitingClean (endOffset len i : ℕ) :
    ((l.carryAwaitingClean endOffset len).slots i).shape = (l.slots i).shape := by
  unfold carryAwaitingClean
  dsimp only
  split_ifs
  all_goals
    simp only [slots_modify, Function.update_apply]
    try split_ifs <;> simp_all

theorem cov_of_populated {s e : ℕ} (hin : ∀ x, s ≤ x → x < e → l.cov x ≠ none)
    (hmid : ∀ x, s < x → x < e - 1 → l.slots x = empty) (hgap : s + 1 < e - 1) :
    ∀ x, s ≤ x → x < e - 1 → l.cov x = l.cov s := by
  have hcarry : l.carry (s + 1) = l.cov s := by
    have hnext := hin (s + 1) (by omega) (by omega)
    rw [cov_eq_slotCov, hmid (s + 1) (by omega) (by omega), carry_succ] at hnext
    rw [carry_succ, cov_eq_slotCov]
    rcases h : l.slots s with _ | c | ⟨_ | _ | _, state, n⟩ <;> simp_all [carryPast, slotCov]
  intro x hx₁ hx₂
  rcases Nat.eq_or_lt_of_le hx₁ with rfl | hx₁
  · rfl
  rw [cov_of_empty_run (Nat.succ_le_of_lt hx₁) fun i hi₁ hi₂ ↦ hmid i (by omega) (by omega), hcarry]

variable {s e : ℕ} {l' : VmPageList α}

/-- `PopulateSlotsInInterval`, when it succeeds, leaves a slot sentinel on
every page of `[startOffset, endOffset)`, and the coverage and the content as
they were. -/
theorem populateSlotsInInterval_spec (hw : l.WellFormed) (hse : s < e)
    (hin : ∀ x, s ≤ x → x < e → l.cov x ≠ none) (hmid : ∀ x, s < x → x < e - 1 → l.slots x = empty)
    (h : l.populateSlotsInInterval s e = (some (), l')) :
    (∀ x, l'.cov x = l.cov x) ∧ (∀ x, (l'.slots x).content? = (l.slots x).content?) ∧
      (∀ x, s ≤ x → x < e → (l'.slots x).isIntervalSlot = true) := by
  unfold populateSlotsInInterval at h
  -- the split at the start
  generalize hl₁ : l.lookupOrAllocateCheckForInterval s true = res₁ at h
  obtain ⟨⟨r₁, b₁⟩, l₁⟩ := res₁
  obtain ⟨hw₁, hcov₁, hcontent₁, -, hslot₁⟩ := lookupOrAllocateCheckForInterval_spec hw hl₁
  rcases r₁ with _ | o₁
  · cases h
  have hs₁ : (l₁.slots s).isIntervalSlot = true :=
    hslot₁ s (lookupOrAllocateCheckForInterval_of_cov (hin s le_rfl hse) hl₁ rfl)
  dsimp only at h
  by_cases hone : s = e - 1
  · rw [if_pos hone] at h
    cases h
    exact ⟨hcov₁, hcontent₁, fun x hx₁ hx₂ ↦ by rwa [show x = s by omega]⟩
  rw [if_neg hone] at h
  generalize hl₂ : l₁.lookupOrAllocateCheckForInterval (e - 1) true = res₂ at h
  obtain ⟨⟨r₂, b₂⟩, l₂⟩ := res₂
  obtain ⟨hw₂, hcov₂, hcontent₂, hkeep₂, hslot₂⟩ := lookupOrAllocateCheckForInterval_spec hw₁ hl₂
  rcases r₂ with _ | o₂
  · cases h
  have he₂ : (l₂.slots (e - 1)).isIntervalSlot = true := hslot₂ (e - 1)
    (lookupOrAllocateCheckForInterval_of_cov (by rw [hcov₁]; exact hin _ (by omega) (by omega)) hl₂ rfl)
  have hs₂ := hkeep₂ s hs₁
  have hcov₂₁ : ∀ x, l₂.cov x = l.cov x := fun x ↦ (hcov₂ x).trans (hcov₁ x)
  have hcontent₂₁ : ∀ x, (l₂.slots x).content? = (l.slots x).content? :=
    fun x ↦ (hcontent₂ x).trans (hcontent₁ x)
  dsimp only at h
  by_cases htwo : e - 1 = s + 1
  · rw [if_pos htwo] at h
    cases h
    refine ⟨hcov₂₁, hcontent₂₁, fun x hx₁ hx₂ ↦ ?_⟩
    rcases Nat.eq_or_lt_of_le hx₁ with rfl | hx₁
    · exact hs₂
    · rwa [show x = e - 1 by omega]
  rw [if_neg htwo] at h
  cases h
  obtain ⟨n, hsn⟩ : ∃ n, (l₂.slots s).shape = interval .slot (l₂.slots s).getZeroIntervalDirtyState n := by
    rcases hp : l₂.slots s with _ | _ | ⟨_ | _ | _, state, n⟩ <;> simp_all
  set state := (l₂.slots s).getZeroIntervalDirtyState
  set l₃ := (fillSlots state (s + 1) (e - 1 - (s + 1)) (l₂, (l₂.slots (s + 1)).getZeroIntervalAwaitingCleanLength)).1
  have hstate : l.cov s = some state := by
    rw [← hcov₂₁, cov_eq_slotCov, ← slotCov_shape, hsn]
    rfl
  have hfill : ∀ x, s + 1 ≤ x → x < e - 1 → (l₃.slots x).shape = interval .slot state 0 :=
    fun x hx₁ hx₂ ↦ fillSlots_shape_of_mem _ _ _ _ ⟨hx₁, by omega⟩
  have hout : ∀ x, x < s + 1 ∨ e - 1 - 1 < x → l₃.slots x = l₂.slots x :=
    fun x hx ↦ fillSlots_slots_of_not_mem _ _ _ _ (by omega)
  have hpopulated := cov_of_populated hin hmid (by omega)
  have hcarry : l₃.carry (e - 1 - 1 + 1) = l₂.carry (e - 1 - 1 + 1) := by
    obtain ⟨m, hem⟩ : ∃ m, l₂.slots (e - 1) = interval .slot (l₂.slots (e - 1)).getZeroIntervalDirtyState m := by
      rcases hp : l₂.slots (e - 1) with _ | _ | ⟨_ | _ | _, state, n⟩ <;> simp_all
    rw [show e - 1 - 1 + 1 = e - 1 by omega, hw₂.carry_of_interval hem, show e - 1 = e - 1 - 1 + 1 by omega,
      carry_succ, ← carryPast_shape, hfill _ (by omega) (by omega)]
    rfl
  have hcov₃ : ∀ x, l₃.cov x = l₂.cov x := by
    intro x
    by_cases hx : s + 1 ≤ x ∧ x < e - 1
    · rw [cov_eq_slotCov, ← slotCov_shape, hfill x hx.1 hx.2, hcov₂₁, hpopulated x (by omega) hx.2, hstate]
      rfl
    · exact cov_eq_outside (fun i hi ↦ by rw [hout i hi]) hcarry (by omega)
  have hcarried : ∀ len x, ((l₃.carryAwaitingClean (e - 1) len).slots x).shape = (l₃.slots x).shape :=
    fun len x ↦ shape_slots_carryAwaitingClean _ _ _
  refine ⟨fun x ↦ ?_, fun x ↦ ?_, fun x hx₁ hx₂ ↦ ?_⟩
  · rw [cov_congr_below fun i _ ↦ hcarried _ i, hcov₃, hcov₂₁]
  · rw [← content?_shape, hcarried, content?_shape, ← hcontent₂₁]
    by_cases hx : s + 1 ≤ x ∧ x < e - 1
    · rw [← content?_shape, hfill x hx.1 hx.2, content?_eq_none_of_cov]
      · rfl
      · rw [hcov₂₁, hpopulated x (by omega) hx.2, hstate]
        simp
    · rw [hout x (by omega)]
  · rw [← isIntervalSlot_shape, hcarried, isIntervalSlot_shape]
    by_cases hx : s + 1 ≤ x ∧ x < e - 1
    · rw [← isIntervalSlot_shape, hfill x hx.1 hx.2]
      rfl
    · rw [hout x (by omega)]
      rcases Nat.lt_or_ge x (s + 1) with hx' | hx'
      · rwa [show x = s by omega]
      · rwa [show x = e - 1 by omega]

end Populate

end VmPageList

end Zircon.Vm
