import Mathlib
import Zircon.Vm.PageListOps

/-!
# Overwriting a zero interval

`OverwriteZeroInterval` gives the pages `[newStart, newEnd]` of one interval a new
dirty state.  It is read here as three steps: the old sentinels are cleared or
the old interval is clipped, the new sentinels are placed, and the new interval
is joined to a neighbour of the same state on either side.  Each step has its
own coverage lemma; a join needs the neighbour to close (or open) an interval
there, which the well-formed list before the call provides.
-/

namespace Zircon.Vm

namespace VmPageList

open VmPageOrMarker

variable {α : Type*} {l : VmPageList α} {x i : ℕ} {d : IntervalDirtyState} {n : ℕ}

variable {a b : ℕ}

/-! ### Joining two touching intervals -/

section Join

/-- Slot `x` closes an interval of state `d`: an end that its interval reaches,
or a one-page slot. -/
def ClosesAt (l : VmPageList α) (x : ℕ) (d : IntervalDirtyState) : Prop :=
  (∃ n, l.slots x = interval .end d n ∧ l.carry x = some d) ∨ ∃ n, l.slots x = interval .slot d n

/-- Slot `x` opens an interval of state `d`: a start or a one-page slot. -/
def OpensAt (l : VmPageList α) (x : ℕ) (d : IntervalDirtyState) : Prop :=
  ∃ n, l.slots x = interval .start d n ∨ l.slots x = interval .slot d n

theorem closesAt_congr {l' : VmPageList α} (hs : l'.slots x = l.slots x) (hc : l'.carry x = l.carry x) :
    l'.ClosesAt x d ↔ l.ClosesAt x d := by
  rw [ClosesAt, ClosesAt, hs, hc]

theorem opensAt_congr {l' : VmPageList α} (hs : l'.slots x = l.slots x) : l'.OpensAt x d ↔ l.OpensAt x d := by
  rw [OpensAt, OpensAt, hs]

theorem closesAt_of_carry_succ (hw : l.WellFormed) (hi : (l.slots x).isInterval = true)
    (hd : (l.slots x).getZeroIntervalDirtyState = d) (hc : l.carry (x + 1) = none) : l.ClosesAt x d := by
  rw [carry_succ] at hc
  rcases h : l.slots x with _ | _ | ⟨sentinel, state, len⟩
  · simp [h] at hi
  · simp [h] at hi
  rw [h, getZeroIntervalDirtyState_interval] at hd
  subst hd
  cases sentinel with
  | slot => exact .inr ⟨len, h⟩
  | start => simp [h, carryPast] at hc
  | «end» => exact .inl ⟨len, h, hw.end_open x state len h⟩

theorem opensAt_of_carry (hw : l.WellFormed) (hi : (l.slots x).isInterval = true)
    (hd : (l.slots x).getZeroIntervalDirtyState = d) (hc : l.carry x = none) : l.OpensAt x d := by
  rcases h : l.slots x with _ | _ | ⟨sentinel, state, len⟩
  · simp [h] at hi
  · simp [h] at hi
  rw [h, getZeroIntervalDirtyState_interval] at hd
  subst hd
  cases sentinel with
  | slot => exact ⟨len, .inr h⟩
  | start => exact ⟨len, .inl h⟩
  | «end» => simp [hw.end_open x state len h] at hc

/-- Join the interval that ends on slot `a` to the one that starts on slot
`a + 1`: both merges of `OverwriteZeroInterval` are this step. -/
def joinAt (l : VmPageList α) (a : ℕ) : VmPageList α :=
  let l := if (l.slots a).isIntervalSlot then l.modify a (changeIntervalSentinel .start) else l.set a empty
  if (l.slots (a + 1)).isIntervalSlot then l.modify (a + 1) (changeIntervalSentinel .end) else l.set (a + 1) empty

theorem joinAt_slots_of_ne (h₁ : i ≠ a) (h₂ : i ≠ a + 1) : (l.joinAt a).slots i = l.slots i := by
  simp only [joinAt, slots_ite, ite_apply, slots_modify, slots_set, Function.update_of_ne h₁,
    Function.update_of_ne h₂, ite_self]

theorem joinAt_slots_left : (l.joinAt a).slots a =
    if (l.slots a).isIntervalSlot then (l.slots a).changeIntervalSentinel .start else empty := by
  have h : a ≠ a + 1 := by omega
  simp only [joinAt, slots_ite, ite_apply, slots_modify, slots_set, Function.update_of_ne h]
  split_ifs <;> simp

theorem joinAt_slots_right : (l.joinAt a).slots (a + 1) =
    if (l.slots (a + 1)).isIntervalSlot then (l.slots (a + 1)).changeIntervalSentinel .end else empty := by
  have h : a + 1 ≠ a := by omega
  simp only [joinAt, slots_ite, ite_apply, slots_modify, slots_set, Function.update_self,
    Function.update_of_ne h]
  split_ifs <;> simp_all

variable (hend : l.ClosesAt a d) (hstart : l.OpensAt (a + 1) d)
include hend hstart

theorem joinAt_cov :
    (∀ x, (l.joinAt a).cov x = l.cov x) ∧ (l.joinAt a).carry (a + 1) = some d ∧
      (l.joinAt a).carry (a + 2) = l.carry (a + 2) := by
  set l' := l.joinAt a
  have hbelow : l'.carry a = l.carry a := carry_congr fun i hi ↦ by rw [joinAt_slots_of_ne (by omega) (by omega)]
  have hout : ∀ i, i < a ∨ a + 1 < i → (l'.slots i).shape = (l.slots i).shape :=
    fun i hi ↦ by rw [joinAt_slots_of_ne (by omega) (by omega)]
  obtain ⟨m, hq | hq⟩ := hstart
  all_goals
    have hq' := @joinAt_slots_right _ l a
    rw [hq] at hq'
    simp at hq'
  all_goals
    rcases hend with ⟨n, hp, hc⟩ | ⟨n, hp⟩
    all_goals
      have hp' := @joinAt_slots_left _ l a
      rw [hp] at hp'
      simp at hp'
      have hc₁ : l'.carry (a + 1) = some d := by
        rw [carry_succ, hp', hbelow]
        first | rfl | exact hc
      have hpast : l'.carry (a + 1 + 1) = l.carry (a + 1 + 1) := by
        rw [carry_succ l' (a + 1), carry_succ l (a + 1), hq', hq, hc₁]
        rfl
      refine ⟨fun x ↦ ?_, hc₁, hpast⟩
      have hx : x < a ∨ x = a ∨ x = a + 1 ∨ a + 1 < x := by omega
      rcases hx with hx | rfl | rfl | hx
      · exact cov_eq_outside hout hpast (.inl hx)
      · rw [cov_eq_slotCov, cov_eq_slotCov, hp', hp, hbelow]
        first | rfl | exact hc
      · rw [cov_eq_slotCov, cov_eq_slotCov, hq', hq, hc₁]
        rfl
      · exact cov_eq_outside hout hpast (.inr hx)

theorem joinAt_content (x : ℕ) : ((l.joinAt a).slots x).content? = (l.slots x).content? := by
  have hx : x = a ∨ x = a + 1 ∨ (x ≠ a ∧ x ≠ a + 1) := by omega
  rcases hx with rfl | rfl | ⟨hx₁, hx₂⟩
  · rw [joinAt_slots_left]
    rcases hend with ⟨n, hp, -⟩ | ⟨n, hp⟩ <;> simp [hp, content?]
  · rw [joinAt_slots_right]
    obtain ⟨m, hq | hq⟩ := hstart <;> simp [hq, content?]
  · rw [joinAt_slots_of_ne hx₁ hx₂]

/-- A slot that closes an interval past the join still closes it: a one-page
slot just joined becomes the joined interval's end, and further on the carry
is the old one. -/
theorem closesAt_joinAt (hb : l.ClosesAt b d) (hab : a + 1 ≤ b) : (l.joinAt a).ClosesAt b d := by
  obtain ⟨-, hc₁, hc₂⟩ := joinAt_cov hend hstart
  rcases Nat.eq_or_lt_of_le hab with rfl | hab
  · -- the slot after the join both opens and closes: a one-page slot
    obtain ⟨m, hq | hq⟩ := hstart
    · rcases hb with ⟨n, hn, -⟩ | ⟨n, hn⟩ <;> simp [hq] at hn
    · exact .inl ⟨m, by simp [joinAt_slots_right, hq], hc₁⟩
  · have hs : (l.joinAt a).slots b = l.slots b := joinAt_slots_of_ne (by omega) (by omega)
    have hc : (l.joinAt a).carry b = l.carry b :=
      carry_congr_above (show a + 2 ≤ b by omega)
        (fun i hi ↦ by rw [joinAt_slots_of_ne (by omega) (by omega)]) hc₂
    rwa [closesAt_congr hs hc]

omit hend hstart

/-- A join made only where both sides fit keeps the coverage and the content. -/
theorem joined_spec {l' : VmPageList α}
    (h : l' = l ∨ l.ClosesAt a d ∧ l.OpensAt (a + 1) d ∧ l' = l.joinAt a) :
    (∀ x, l'.cov x = l.cov x) ∧ ∀ x, (l'.slots x).content? = (l.slots x).content? := by
  rcases h with rfl | ⟨hend, hstart, rfl⟩
  · exact ⟨fun _ ↦ rfl, fun _ ↦ rfl⟩
  · exact ⟨(joinAt_cov hend hstart).1, joinAt_content hend hstart⟩

end Join

/-! ### The merges -/

section Merge

variable {M : VmPageList α} {s e : ℕ}

theorem mergeLeft_eq : l.mergeLeft s s d =
    if 0 < s ∧ (l.slots (s - 1)).isInterval = true ∧ (l.slots (s - 1)).getZeroIntervalDirtyState = d then
      l.joinAt (s - 1)
    else l := by
  unfold mergeLeft joinAt
  rcases Nat.eq_zero_or_pos s with rfl | hs
  · simp
  rw [if_neg hs.ne', show s - 1 + 1 = s by omega]
  by_cases h : (l.slots (s - 1)).isInterval = true ∧ (l.slots (s - 1)).getZeroIntervalDirtyState = d
  · simp [h, hs]
  · rw [if_neg (by simpa using h), if_neg fun h' ↦ h ⟨h'.2.1, h'.2.2⟩]

theorem mergeRight_eq : l.mergeRight e e d =
    if (l.slots (e + 1)).isInterval = true ∧ (l.slots (e + 1)).getZeroIntervalDirtyState = d then l.joinAt e
    else l := by
  unfold mergeRight joinAt
  by_cases h : (l.slots (e + 1)).isInterval = true ∧ (l.slots (e + 1)).getZeroIntervalDirtyState = d
  · rw [if_pos (by simpa using h), if_pos h]
    have hne : e + 1 ≠ e := by omega
    apply VmPageList.ext
    funext i
    simp only [slots_ite, ite_apply, slots_modify, slots_set, Function.update_apply, hne, Ne.symm hne,
      if_false]
    split_ifs <;> simp_all
  · rw [if_neg (by simpa using h), if_neg h]

/-- The left merge on a list that reads as a well-formed `l` below `s`, with
nothing carried into `s`, is a join of fitting sides or nothing: the slot
before `s` cannot be a start, and an end there is reached by its interval. -/
theorem mergeLeft_join (hw : l.WellFormed) (hc : l.carry s = none) (hbelow : ∀ i, i < s → M.slots i = l.slots i)
    (hs : M.OpensAt s d) :
    M.mergeLeft s s d = M ∨
      0 < s ∧ M.ClosesAt (s - 1) d ∧ M.OpensAt (s - 1 + 1) d ∧ M.mergeLeft s s d = M.joinAt (s - 1) := by
  rw [mergeLeft_eq]
  split_ifs with h
  · obtain ⟨hpos, hi, hd⟩ := h
    have hsucc : s - 1 + 1 = s := by omega
    have heq : M.slots (s - 1) = l.slots (s - 1) := hbelow _ (by omega)
    have hcarry : M.carry (s - 1) = l.carry (s - 1) := carry_congr fun i hi ↦ by rw [hbelow i (by omega)]
    rw [heq] at hi hd
    refine .inr ⟨hpos, ?_, by rwa [hsucc], rfl⟩
    rw [closesAt_congr heq hcarry]
    exact closesAt_of_carry_succ hw hi hd (by rwa [hsucc])
  · exact .inl rfl

/-- The right merge on a list that closes the new interval at `e` and reads as a
well-formed `l` at `e + 1`, with nothing carried past `e` in `l`, is a join
of fitting sides or nothing: the slot after `e` cannot be an end. -/
theorem mergeRight_join (hw : l.WellFormed) (hc : l.carry (e + 1) = none)
    (habove : M.slots (e + 1) = l.slots (e + 1)) (he : M.ClosesAt e d) :
    M.mergeRight e e d = M ∨ M.ClosesAt e d ∧ M.OpensAt (e + 1) d ∧ M.mergeRight e e d = M.joinAt e := by
  rw [mergeRight_eq]
  split_ifs with h
  · obtain ⟨hi, hd⟩ := h
    rw [habove] at hi hd
    exact .inr ⟨he, (opensAt_congr habove).2 (opensAt_of_carry hw hi hd hc), rfl⟩
  · exact .inl rfl

theorem closesAt_of_mergeLeft {M' : VmPageList α}
    (h : M' = M ∨ 0 < s ∧ M.ClosesAt (s - 1) d ∧ M.OpensAt (s - 1 + 1) d ∧ M' = M.joinAt (s - 1))
    (hse : s ≤ e) (he : M.ClosesAt e d) : M'.ClosesAt e d ∧ M'.slots (e + 1) = M.slots (e + 1) := by
  rcases h with rfl | ⟨hpos, hend, hstart, rfl⟩
  · exact ⟨he, rfl⟩
  · exact ⟨closesAt_joinAt hend hstart he (by omega), joinAt_slots_of_ne (by omega) (by omega)⟩

end Merge

/-! ### Placing the new sentinels -/

section Place

/-- The sentinels of a new interval on `[a, b]`: a slot, or a start and an end. -/
def placeInterval (l : VmPageList α) (a b : ℕ) (state : IntervalDirtyState) : VmPageList α :=
  if a = b then l.set a (zeroInterval .slot state)
  else (l.set a (zeroInterval .start state)).set b (zeroInterval .end state)

theorem placeInterval_slots_of_ne (h₁ : i ≠ a) (h₂ : i ≠ b) : (l.placeInterval a b d).slots i = l.slots i := by
  unfold placeInterval
  split_ifs <;> simp [Function.update_of_ne, h₁, h₂]

theorem placeInterval_slots_of_not_mem (hi : i < a ∨ b < i) (hab : a ≤ b) :
    (l.placeInterval a b d).slots i = l.slots i :=
  placeInterval_slots_of_ne (by omega) (by omega)

theorem placeInterval_set_start (p : VmPageOrMarker α) :
    (l.set a p).placeInterval a b d = l.placeInterval a b d := by
  ext i
  unfold placeInterval
  split_ifs <;> simp only [slots_set, Function.update_apply] <;> split_ifs <;> rfl

theorem placeInterval_set_end (p : VmPageOrMarker α) :
    (l.set b p).placeInterval a b d = l.placeInterval a b d := by
  ext i
  unfold placeInterval
  split_ifs with h
  · subst h
    simp only [slots_set, Function.update_apply]
    split_ifs <;> rfl
  · simp only [slots_set, Function.update_apply]
    split_ifs <;> rfl

variable {ns ne : ℕ} in
theorem overwriteZeroInterval_whole :
    l.overwriteZeroInterval (some ns) (some ne) ns ne d =
      ((l.placeInterval ns ne d).mergeLeft ns ns d).mergeRight ne ne d := rfl

variable {ns ne : ℕ} in
theorem overwriteZeroInterval_clipStart (hle : ns ≤ ne) :
    l.overwriteZeroInterval (some ns) none ns ne d =
      ((l.clipIntervalStart ns (ne + 1 - ns)).placeInterval ns ne d).mergeLeft ns ns d := by
  have key : ∀ P : VmPageList α, P.set ns empty = l.clipIntervalStart ns (ne + 1 - ns) →
      (P.placeInterval ns ne d).mergeLeft ns ns d =
        ((l.clipIntervalStart ns (ne + 1 - ns)).placeInterval ns ne d).mergeLeft ns ns d := by
    intro P hP
    rw [← hP, placeInterval_set_start]
  refine key _ ?_
  unfold clipIntervalStart
  rw [if_neg (show ne + 1 - ns ≠ 0 by omega), show ns + (ne + 1 - ns) = ne + 1 by omega]

variable {ns ne : ℕ} in
theorem overwriteZeroInterval_clipEnd (hpos : 0 < ns) (hle : ns ≤ ne) :
    l.overwriteZeroInterval none (some ne) ns ne d =
      ((l.clipIntervalEnd ne (ne + 1 - ns)).placeInterval ns ne d).mergeRight ne ne d := by
  have key : ∀ P : VmPageList α, P.set ne empty = l.clipIntervalEnd ne (ne + 1 - ns) →
      (P.placeInterval ns ne d).mergeRight ne ne d =
        ((l.clipIntervalEnd ne (ne + 1 - ns)).placeInterval ns ne d).mergeRight ne ne d := by
    intro P hP
    rw [← hP, placeInterval_set_end]
  refine key _ ?_
  unfold clipIntervalEnd
  rw [if_neg (show ne + 1 - ns ≠ 0 by omega), show ne - (ne + 1 - ns) = ns - 1 by omega]
  rfl

theorem placeInterval_opensAt : (l.placeInterval a b d).OpensAt a d := by
  unfold placeInterval OpensAt
  split_ifs with h <;> simp [zeroInterval, h]

variable (hfree : ∀ i, a ≤ i → i ≤ b → l.slots i = empty)
include hfree

theorem placeInterval_carry_of_mem (hax : a < x) (hxb : x ≤ b) : (l.placeInterval a b d).carry x = some d := by
  have hab : a ≠ b := by omega
  have hmid : ∀ i, a < i → i < x → (l.placeInterval a b d).slots i = empty := fun i hi₁ hi₂ ↦ by
    rw [placeInterval_slots_of_ne (by omega) (by omega), hfree i (by omega) (by omega)]
  have ha : (l.placeInterval a b d).slots a = zeroInterval .start d := by simp [placeInterval, hab]
  rw [carry_of_last hax hmid, ha]
  rfl

theorem placeInterval_closesAt (hab : a ≤ b) : (l.placeInterval a b d).ClosesAt b d := by
  rcases Nat.eq_or_lt_of_le hab with rfl | hab
  · exact .inr ⟨0, by simp [placeInterval, zeroInterval]⟩
  · exact .inl ⟨0, by simp [placeInterval, zeroInterval, hab.ne], placeInterval_carry_of_mem hfree hab le_rfl⟩

omit hfree

theorem carry_succ_of_closesAt (h : l.ClosesAt x d) : l.carry (x + 1) = none := by
  rcases h with ⟨m, h, -⟩ | ⟨m, h⟩ <;> rw [carry_succ, h] <;> rfl

theorem placeInterval_cov (hab : a ≤ b) (hfree : ∀ i, a ≤ i → i ≤ b → l.slots i = empty ∧ l.cov i = none)
    (x : ℕ) : (l.placeInterval a b d).cov x = if a ≤ x ∧ x ≤ b then some d else l.cov x := by
  have hempty : ∀ i, a ≤ i → i ≤ b → l.slots i = empty := fun i h₁ h₂ ↦ (hfree i h₁ h₂).1
  by_cases hx : a ≤ x ∧ x ≤ b
  · -- inside: the new start or slot, then the carried state, then the new end
    rw [if_pos hx, cov_eq_slotCov]
    rcases Nat.eq_or_lt_of_le hx.1 with rfl | hx₁
    · obtain ⟨m, hq | hq⟩ := @placeInterval_opensAt _ l d a b <;> rw [hq] <;> rfl
    rcases Nat.eq_or_lt_of_le hx.2 with rfl | hx₂
    · rcases placeInterval_closesAt hempty hab with ⟨m, hq, -⟩ | ⟨m, hq⟩ <;> rw [hq] <;> rfl
    · rw [placeInterval_slots_of_ne (by omega) (by omega), hempty x hx.1 hx.2,
        placeInterval_carry_of_mem hempty hx₁ hx.2]
      rfl
  · -- outside: nothing was carried into the free range, and nothing is carried out of it
    rw [if_neg hx]
    have hca : l.carry a = none := by
      have h := (hfree a le_rfl hab).2
      rwa [cov_eq_slotCov, hempty a le_rfl hab] at h
    have hpast : (l.placeInterval a b d).carry (b + 1) = l.carry (b + 1) := by
      rw [carry_succ_of_closesAt (placeInterval_closesAt hempty hab),
        carry_of_empty_between (by omega) fun i hi₁ hi₂ ↦ hempty i hi₁ (by omega), hca]
    exact cov_eq_outside (fun i hi ↦ by rw [placeInterval_slots_of_not_mem hi hab]) hpast (by omega)

theorem placeInterval_content (hab : a ≤ b) (hfree : ∀ i, a ≤ i → i ≤ b → l.slots i = empty ∧ l.cov i = none)
    (x : ℕ) : ((l.placeInterval a b d).slots x).content? = (l.slots x).content? := by
  by_cases hx : a ≤ x ∧ x ≤ b
  · rw [(hfree x hx.1 hx.2).1]
    unfold placeInterval
    split_ifs <;> simp [Function.update_apply] <;> split_ifs <;> simp_all [zeroInterval, content?]
  · rw [placeInterval_slots_of_not_mem (by omega) hab]

end Place

/-! ### Whole intervals -/

section Whole

variable {s e len : ℕ}

/-- Slots `s` to `e` hold one whole interval: a one-page slot, or a start and
an end with only empty slots between. -/
def WholeInterval (l : VmPageList α) (s e : ℕ) : Prop :=
  s = e ∧ (∃ state len, l.slots s = interval .slot state len) ∨
    s < e ∧ (∃ state len, l.slots s = interval .start state len) ∧
      (∃ state len, l.slots e = interval .end state len) ∧ ∀ i, s < i → i < e → l.slots i = empty

namespace WholeInterval

variable (hi : l.WholeInterval s e)
include hi

theorem le : s ≤ e := by
  rcases hi with ⟨rfl, -⟩ | ⟨h, -⟩ <;> omega

theorem of_lt (hse : s < e) :
    (∃ state len, l.slots s = interval .start state len) ∧ (∃ state len, l.slots e = interval .end state len) ∧
      ∀ i, s < i → i < e → l.slots i = empty := by
  rcases hi with ⟨rfl, -⟩ | ⟨-, h⟩
  · omega
  · exact h

theorem slots_between (h₁ : s < i) (h₂ : i < e) : l.slots i = empty :=
  (hi.of_lt (by omega)).2.2 i h₁ h₂

theorem carry_start (hw : l.WellFormed) : l.carry s = none := by
  rcases hi with ⟨-, state, len, h⟩ | ⟨-, ⟨state, len, h⟩, -⟩ <;> rw [hw.carry_of_interval h] <;> rfl

theorem carry_past : l.carry (e + 1) = none := by
  rcases hi with ⟨rfl, state, len, h⟩ | ⟨-, -, ⟨state, len, h⟩, -⟩ <;> rw [carry_succ, h] <;> rfl

theorem content?_eq_none (h₁ : s ≤ x) (h₂ : x ≤ e) : (l.slots x).content? = none := by
  rcases Nat.eq_or_lt_of_le h₁ with rfl | h₁
  · rcases hi with ⟨-, state, len, h⟩ | ⟨-, ⟨state, len, h⟩, -⟩ <;> rw [h] <;> rfl
  rcases Nat.eq_or_lt_of_le h₂ with rfl | h₂
  · obtain ⟨-, ⟨state, len, h⟩, -⟩ := hi.of_lt h₁
    rw [h]
    rfl
  · rw [hi.slots_between h₁ h₂]
    rfl

theorem clear_slots (h₁ : s ≤ i) (h₂ : i ≤ e) : ((l.set s empty).set e empty).slots i = empty := by
  by_cases he : i = e
  · simp [he]
  rw [slots_set_of_ne he]
  by_cases hs : i = s
  · simp [hs]
  · rw [slots_set_of_ne hs, hi.slots_between (by omega) (by omega)]

theorem clear_cov (hw : l.WellFormed) (x : ℕ) :
    ((l.set s empty).set e empty).cov x = if s ≤ x ∧ x ≤ e then none else l.cov x := by
  have hse := hi.le
  have hout : ∀ i, i < s ∨ e < i → (((l.set s empty).set e empty).slots i).shape = (l.slots i).shape :=
    fun i h ↦ by rw [slots_set_of_ne (by omega), slots_set_of_ne (by omega)]
  have hrun : ∀ i, s ≤ i → i ≤ e + 1 → ((l.set s empty).set e empty).carry i = none := fun i h₁ h₂ ↦ by
    rw [carry_of_empty_between h₁ fun j hj₁ hj₂ ↦ hi.clear_slots hj₁ (by omega),
      carry_congr fun j hj ↦ hout j (.inl hj), hi.carry_start hw]
  by_cases hx : s ≤ x ∧ x ≤ e
  · rw [if_pos hx, cov_eq_slotCov, hi.clear_slots hx.1 hx.2, hrun x hx.1 (by omega)]
    rfl
  · rw [if_neg hx]
    exact cov_eq_outside hout (by rw [hrun (e + 1) (by omega) le_rfl, hi.carry_past]) (by omega)

theorem clear_content (x : ℕ) :
    (((l.set s empty).set e empty).slots x).content? = (l.slots x).content? := by
  have hse := hi.le
  by_cases hx : s ≤ x ∧ x ≤ e
  · rw [hi.clear_slots hx.1 hx.2, hi.content?_eq_none hx.1 hx.2]
    rfl
  · rw [slots_set_of_ne (by omega), slots_set_of_ne (by omega)]

/-- `ClipIntervalStart` of a whole interval by at most its length uncovers the
clipped pages and keeps the content. -/
theorem clipIntervalStart_spec (hw : l.WellFormed) (hse : s < e) (hlen : len ≤ e - s) :
    (∀ x, (l.clipIntervalStart s len).cov x = if s ≤ x ∧ x < s + len then none else l.cov x) ∧
      ∀ x, ((l.clipIntervalStart s len).slots x).content? = (l.slots x).content? := by
  rcases Nat.eq_zero_or_pos len with rfl | hpos
  · -- an empty clip returns at once
    exact ⟨fun x ↦ by rw [if_neg (by omega)]; simp [clipIntervalStart], fun x ↦ by simp [clipIntervalStart]⟩
  obtain ⟨⟨state, m, hs⟩, ⟨state', m', he⟩, hgap⟩ := hi.of_lt hse
  have hgap' : ∀ i, s < i → i < s + len → l.slots i = empty := fun i h₁ h₂ ↦ hgap i h₁ (by omega)
  have hnew : (l.slots (s + len)).isEmpty ∨ (l.slots (s + len)).isIntervalEnd := by
    rcases Nat.eq_or_lt_of_le (show s + len ≤ e by omega) with h | h
    · simp [h, he]
    · simp [hgap (s + len) (by omega) h]
  exact ⟨clipIntervalStart_cov hw hs hgap' hnew, clipIntervalStart_content hw hs hgap' hnew⟩

/-- `ClipIntervalEnd` of a whole interval by at most its length uncovers the
clipped pages and keeps the content. -/
theorem clipIntervalEnd_spec (hw : l.WellFormed) (hse : s < e) (hlen : len ≤ e - s) :
    (∀ x, (l.clipIntervalEnd e len).cov x = if e - len < x ∧ x ≤ e then none else l.cov x) ∧
      ∀ x, ((l.clipIntervalEnd e len).slots x).content? = (l.slots x).content? := by
  rcases Nat.eq_zero_or_pos len with rfl | hpos
  · exact ⟨fun x ↦ by rw [if_neg (by omega)]; simp [clipIntervalEnd], fun x ↦ by simp [clipIntervalEnd]⟩
  obtain ⟨⟨state, m, hs⟩, ⟨state', m', he⟩, hgap⟩ := hi.of_lt hse
  have hgap' : ∀ i, e - len < i → i < e → l.slots i = empty := fun i h₁ h₂ ↦ hgap i (by omega) h₂
  have hnew : (l.slots (e - len)).isEmpty ∨ (l.slots (e - len)).isIntervalStart := by
    rcases Nat.eq_or_lt_of_le (show s ≤ e - len by omega) with h | h
    · simp [← h, hs]
    · simp [hgap (e - len) h (by omega)]
  exact ⟨clipIntervalEnd_cov hw he (by omega) hgap' hnew, clipIntervalEnd_content hw he (by omega) hgap' hnew⟩

end WholeInterval

end Whole

/-! ### The three forms of the call

The caller names the old interval's sentinels it overwrites: both when the new
interval is the whole old one, only the start when it is a head of it, and only
the end when it is a tail. -/

section Overwrite

variable {s e ns ne : ℕ} (hw : l.WellFormed) (hi : l.WholeInterval s e)
include hw hi

/-- Overwriting a whole interval: the new sentinels replace the old ones and
join the neighbours of the new state on both sides. -/
theorem overwriteZeroInterval_whole_spec :
    (∀ x, (l.overwriteZeroInterval (some s) (some e) s e d).cov x = if s ≤ x ∧ x ≤ e then some d else l.cov x) ∧
      ∀ x, ((l.overwriteZeroInterval (some s) (some e) s e d).slots x).content? = (l.slots x).content? := by
  have hse := hi.le
  have hfree : ∀ i, s ≤ i → i ≤ e → ((l.set s empty).set e empty).slots i = empty ∧
      ((l.set s empty).set e empty).cov i = none := fun i h₁ h₂ ↦
    ⟨hi.clear_slots h₁ h₂, by rw [hi.clear_cov hw, if_pos ⟨h₁, h₂⟩]⟩
  have hplace : l.placeInterval s e d = ((l.set s empty).set e empty).placeInterval s e d := by
    rw [placeInterval_set_end, placeInterval_set_start]
  have hout : ∀ i, i < s ∨ e < i → (((l.set s empty).set e empty).placeInterval s e d).slots i = l.slots i :=
    fun i h ↦ by
      rw [placeInterval_slots_of_not_mem h hse, slots_set_of_ne (by omega), slots_set_of_ne (by omega)]
  have hleft := mergeLeft_join hw (hi.carry_start hw) (fun i h ↦ hout i (.inl h)) placeInterval_opensAt
  obtain ⟨hclose, habove⟩ :=
    closesAt_of_mergeLeft hleft hse (placeInterval_closesAt (fun i h₁ h₂ ↦ (hfree i h₁ h₂).1) hse)
  obtain ⟨hcov₁, hcon₁⟩ := joined_spec (hleft.imp_right And.right)
  obtain ⟨hcov₂, hcon₂⟩ :=
    joined_spec (mergeRight_join hw hi.carry_past (habove.trans (hout (e + 1) (.inr (by omega)))) hclose)
  rw [overwriteZeroInterval_whole, hplace]
  refine ⟨fun x ↦ ?_, fun x ↦ ?_⟩
  · rw [hcov₂, hcov₁, placeInterval_cov hse hfree, hi.clear_cov hw]
    split_ifs <;> rfl
  · rw [hcon₂, hcon₁, placeInterval_content hse hfree, hi.clear_content]

/-- Overwriting the head `[s, ne]` of an interval: the rest is clipped to start
at `ne + 1`, and the new interval joins a neighbour of its state on the left. -/
theorem overwriteZeroInterval_clipStart_spec (hsn : s ≤ ne) (hne : ne < e) :
    (∀ x, (l.overwriteZeroInterval (some s) none s ne d).cov x = if s ≤ x ∧ x ≤ ne then some d else l.cov x) ∧
      ∀ x, ((l.overwriteZeroInterval (some s) none s ne d).slots x).content? = (l.slots x).content? := by
  obtain ⟨hclip, hclipc⟩ := hi.clipIntervalStart_spec hw (by omega) (show ne + 1 - s ≤ e - s by omega)
  have hfree : ∀ i, s ≤ i → i ≤ ne → (l.clipIntervalStart s (ne + 1 - s)).slots i = empty ∧
      (l.clipIntervalStart s (ne + 1 - s)).cov i = none := fun i h₁ h₂ ↦ by
    refine ⟨?_, by rw [hclip, if_pos ⟨h₁, by omega⟩]⟩
    rcases Nat.eq_or_lt_of_le h₁ with rfl | h₁
    · exact clipIntervalStart_slots_self (by omega)
    · rw [clipIntervalStart_slots_of_ne (by omega) (by omega), hi.slots_between h₁ (by omega)]
  have hbelow : ∀ i, i < s → ((l.clipIntervalStart s (ne + 1 - s)).placeInterval s ne d).slots i = l.slots i :=
    fun i h ↦ by rw [placeInterval_slots_of_ne (by omega) (by omega), clipIntervalStart_slots_of_ne (by omega) (by omega)]
  obtain ⟨hcov₁, hcon₁⟩ :=
    joined_spec ((mergeLeft_join hw (hi.carry_start hw) hbelow placeInterval_opensAt).imp_right And.right)
  rw [overwriteZeroInterval_clipStart hsn]
  refine ⟨fun x ↦ ?_, fun x ↦ ?_⟩
  · rw [hcov₁, placeInterval_cov hsn hfree, hclip]
    split_ifs <;> first | rfl | omega
  · rw [hcon₁, placeInterval_content hsn hfree, hclipc]

/-- Overwriting the tail `[ns, e]` of an interval: the rest is clipped to end at
`ns - 1`, and the new interval joins a neighbour of its state on the right. -/
theorem overwriteZeroInterval_clipEnd_spec (hsn : s < ns) (hne : ns ≤ e) :
    (∀ x, (l.overwriteZeroInterval none (some e) ns e d).cov x = if ns ≤ x ∧ x ≤ e then some d else l.cov x) ∧
      ∀ x, ((l.overwriteZeroInterval none (some e) ns e d).slots x).content? = (l.slots x).content? := by
  obtain ⟨hclip, hclipc⟩ := hi.clipIntervalEnd_spec hw (by omega) (show e + 1 - ns ≤ e - s by omega)
  have hfree : ∀ i, ns ≤ i → i ≤ e → (l.clipIntervalEnd e (e + 1 - ns)).slots i = empty ∧
      (l.clipIntervalEnd e (e + 1 - ns)).cov i = none := fun i h₁ h₂ ↦ by
    refine ⟨?_, by rw [hclip, if_pos ⟨by omega, h₂⟩]⟩
    rcases Nat.eq_or_lt_of_le h₂ with rfl | h₂
    · exact clipIntervalEnd_slots_self (by omega)
    · rw [clipIntervalEnd_slots_of_ne (by omega) (by omega), hi.slots_between (by omega) h₂]
  have habove : ((l.clipIntervalEnd e (e + 1 - ns)).placeInterval ns e d).slots (e + 1) = l.slots (e + 1) := by
    rw [placeInterval_slots_of_ne (by omega) (by omega), clipIntervalEnd_slots_of_ne (by omega) (by omega)]
  obtain ⟨hcov₁, hcon₁⟩ := joined_spec (mergeRight_join hw hi.carry_past habove
    (placeInterval_closesAt (fun i h₁ h₂ ↦ (hfree i h₁ h₂).1) hne))
  rw [overwriteZeroInterval_clipEnd (by omega) hne]
  refine ⟨fun x ↦ ?_, fun x ↦ ?_⟩
  · rw [hcov₁, placeInterval_cov hne hfree, hclip]
    split_ifs <;> first | rfl | omega
  · rw [hcon₁, placeInterval_content hne hfree, hclipc]

end Overwrite

/-! ### The interval operations and the coverage -/

section Coverage

/-- What the zero interval operations do to the coverage of a list: the lookup
with a split, populating and returning slots keep it, adding an interval covers
its pages with its state, a clip uncovers the clipped pages, and an overwrite
gives its pages the new state.  None of them writes or drops content. -/
structure IntervalOpsSpec (l : VmPageList α) : Prop where
  lookup : ∀ o splitInterval r (l' : VmPageList α),
    l.lookupOrAllocateCheckForInterval o splitInterval = (r, l') →
      (∀ x, l'.cov x = l.cov x) ∧ (∀ x, (l'.slots x).content? = (l.slots x).content?) ∧
        ∀ o', r = (some o', true) → (l'.slots o).isIntervalSlot = true
  populate : ∀ s e (l' : VmPageList α), s < e → (∀ x, s ≤ x → x < e → l.cov x ≠ none) →
    (∀ x, s < x → x < e - 1 → l.slots x = empty) → l.populateSlotsInInterval s e = (some (), l') →
      (∀ x, l'.cov x = l.cov x) ∧ (∀ x, (l'.slots x).content? = (l.slots x).content?) ∧
        ∀ x, s ≤ x → x < e → (l'.slots x).isIntervalSlot = true
  returnSlot : ∀ o state len, l.slots o = interval .slot state len →
    (∀ x, (l.returnIntervalSlot o).cov x = l.cov x) ∧
      ∀ x, ((l.returnIntervalSlot o).slots x).content? = (l.slots x).content?
  add : ∀ s e d, s < e → (∀ i, s ≤ i → i < e → l.slots i = empty ∧ l.cov i = none) →
    (∀ x, (l.addZeroInterval s e d).cov x = if s ≤ x ∧ x < e then some d else l.cov x) ∧
      ∀ x, ((l.addZeroInterval s e d).slots x).content? = (l.slots x).content?
  clipStart : ∀ s e len, s < e → l.WholeInterval s e → len ≤ e - s →
    (∀ x, (l.clipIntervalStart s len).cov x = if s ≤ x ∧ x < s + len then none else l.cov x) ∧
      ∀ x, ((l.clipIntervalStart s len).slots x).content? = (l.slots x).content?
  clipEnd : ∀ s e len, s < e → l.WholeInterval s e → len ≤ e - s →
    (∀ x, (l.clipIntervalEnd e len).cov x = if e - len < x ∧ x ≤ e then none else l.cov x) ∧
      ∀ x, ((l.clipIntervalEnd e len).slots x).content? = (l.slots x).content?
  overwrite : ∀ s e d, l.WholeInterval s e →
    (∀ x, (l.overwriteZeroInterval (some s) (some e) s e d).cov x =
      if s ≤ x ∧ x ≤ e then some d else l.cov x) ∧
      ∀ x, ((l.overwriteZeroInterval (some s) (some e) s e d).slots x).content? = (l.slots x).content?
  overwriteHead : ∀ s e ne d, l.WholeInterval s e → s ≤ ne → ne < e →
    (∀ x, (l.overwriteZeroInterval (some s) none s ne d).cov x = if s ≤ x ∧ x ≤ ne then some d else l.cov x) ∧
      ∀ x, ((l.overwriteZeroInterval (some s) none s ne d).slots x).content? = (l.slots x).content?
  overwriteTail : ∀ s e ns d, l.WholeInterval s e → s < ns → ns ≤ e →
    (∀ x, (l.overwriteZeroInterval none (some e) ns e d).cov x = if ns ≤ x ∧ x ≤ e then some d else l.cov x) ∧
      ∀ x, ((l.overwriteZeroInterval none (some e) ns e d).slots x).content? = (l.slots x).content?

theorem intervalOps_spec (hw : l.WellFormed) : l.IntervalOpsSpec where
  lookup o splitInterval r l' h := by
    obtain ⟨-, hcov, hcon, -, hslot⟩ := lookupOrAllocateCheckForInterval_spec hw h
    exact ⟨hcov, hcon, hslot⟩
  populate s e l' hse hin hmid h := populateSlotsInInterval_spec hw hse hin hmid h
  returnSlot o state len ho := ⟨returnIntervalSlot_cov hw ho, returnIntervalSlot_content hw ho⟩
  add s e d hse hfree := ⟨addZeroIntervalInternal_cov hse hfree hw, addZeroIntervalInternal_content hse hfree⟩
  clipStart s e len hse hi hlen := hi.clipIntervalStart_spec hw hse hlen
  clipEnd s e len hse hi hlen := hi.clipIntervalEnd_spec hw hse hlen
  overwrite s e d hi := overwriteZeroInterval_whole_spec hw hi
  overwriteHead s e ne d hi hsn hne := overwriteZeroInterval_clipStart_spec hw hi hsn hne
  overwriteTail s e ns d hi hsn hne := overwriteZeroInterval_clipEnd_spec hw hi hsn hne

/-- Pages 0 to 2 one dirty zero interval: a start, an empty slot and an end. -/
def threeDirtyPages : VmPageList ℕ :=
  (((⟨fun _ ↦ empty⟩ : VmPageList ℕ).set 0 (zeroInterval .start .dirty)).set 2 (zeroInterval .end .dirty))

theorem intervalOps_spec_threeDirtyPages :
    threeDirtyPages.WellFormed ∧ (threeDirtyPages.populateSlotsInInterval 0 3).1 = some () ∧
      threeDirtyPages.IntervalOpsSpec := by
  have hw : threeDirtyPages.WellFormed := by
    rw [wellFormed_iff]
    intro x
    rcases (show x < 3 ∨ 3 ≤ x by omega) with hx | hx
    · interval_cases x <;> first | exact rfl | exact trivial
    · have hempty : threeDirtyPages.slots x = empty := by
        simp [threeDirtyPages, Function.update_of_ne (show x ≠ 0 by omega), Function.update_of_ne (show x ≠ 2 by omega)]
      rw [hempty]
      trivial
  exact ⟨hw, by decide, intervalOps_spec hw⟩

end Coverage

end VmPageList

end Zircon.Vm
