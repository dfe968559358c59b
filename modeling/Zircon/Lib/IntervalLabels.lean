import Mathlib

/-!
# Labelled intervals

A list of half-open intervals of `ℕ`, each with a label, read as a partial
map from points to labels: a point has the label of the first interval that
covers it.  When the intervals are sorted and disjoint, that is the label of
the one interval that covers the point.

What changes the map is local: the map of `l₁ ++ m ++ l₂` depends on `m` only
through the map of `m`, so replacing an interval by pieces that tile it, or
merging two touching intervals of one label, is checked on those few
intervals alone.
-/

namespace Zircon.Lib.IntervalLabels

variable {ι β : Type*} (lo hi : ι → ℕ) (label : ι → β)

/-- Whether the interval `[lo i, hi i)` contains `x`. -/
def covers (i : ι) (x : ℕ) : Bool :=
  decide (lo i ≤ x ∧ x < hi i)

/-- The label of the first interval that covers `x`. -/
def labelAt (l : List ι) (x : ℕ) : Option β :=
  (l.find? fun i ↦ covers lo hi i x).map label

/-- Each interval is nonempty and ends at or before the next begins. -/
def SortedDisjoint (l : List ι) : Prop :=
  (∀ i ∈ l, lo i < hi i) ∧ l.Pairwise fun a b ↦ hi a ≤ lo b

variable {lo hi label}

@[simp] theorem labelAt_nil (x : ℕ) : labelAt lo hi label ([] : List ι) x = none := rfl

theorem labelAt_cons (i : ι) (l : List ι) (x : ℕ) :
    labelAt lo hi label (i :: l) x =
      if lo i ≤ x ∧ x < hi i then some (label i) else labelAt lo hi label l x := by
  by_cases h : lo i ≤ x ∧ x < hi i
  · simp [labelAt, List.find?_cons, covers, h]
  · simp only [labelAt, List.find?_cons, covers, h, decide_false, if_false]

theorem labelAt_append (l₁ l₂ : List ι) (x : ℕ) :
    labelAt lo hi label (l₁ ++ l₂) x = (labelAt lo hi label l₁ x).or (labelAt lo hi label l₂ x) := by
  simp only [labelAt, List.find?_append, Option.map_or]

theorem labelAt_append_congr {l₁ m m' l₂ : List ι} {x : ℕ}
    (h : labelAt lo hi label m x = labelAt lo hi label m' x) :
    labelAt lo hi label (l₁ ++ m ++ l₂) x = labelAt lo hi label (l₁ ++ m' ++ l₂) x := by
  simp only [labelAt_append, h]

theorem labelAt_eq_none {l : List ι} {x : ℕ} (h : ∀ i ∈ l, ¬(lo i ≤ x ∧ x < hi i)) :
    labelAt lo hi label l x = none := by
  induction l with
  | nil => rfl
  | cons i l ih =>
    rw [labelAt_cons, if_neg (h i List.mem_cons_self)]
    exact ih fun j hj ↦ h j (List.mem_cons_of_mem i hj)

theorem labelAt_eq_none_of_le {l₁ l₂ : List ι} {i : ι} (h : SortedDisjoint lo hi (l₁ ++ i :: l₂))
    {x : ℕ} (hx : lo i ≤ x) : labelAt lo hi label l₁ x = none := by
  refine labelAt_eq_none fun j hj hcov ↦ ?_
  have hji : hi j ≤ lo i := (List.pairwise_append.mp h.2).2.2 j hj i List.mem_cons_self
  omega

theorem labelAt_fuse {a b c : ι} (hla : lo a ≤ hi a) (hlb : lo b ≤ hi b) (hab : hi a = lo b)
    (hc : lo c = lo a ∧ hi c = hi b)
    (ha : label a = label c) (hb : label b = label c) (x : ℕ) :
    labelAt lo hi label [a, b] x = labelAt lo hi label [c] x := by
  obtain ⟨hlo, hhi⟩ := hc
  simp only [labelAt_cons, labelAt_nil, ha, hb]
  split_ifs <;> first | rfl | omega

theorem labelAt_of_mem {l : List ι} (hl : SortedDisjoint lo hi l) {i : ι} (hmem : i ∈ l) {x : ℕ}
    (hx : lo i ≤ x ∧ x < hi i) : labelAt lo hi label l x = some (label i) := by
  induction l with
  | nil => cases hmem
  | cons j l ih =>
    rw [labelAt_cons]
    rcases List.mem_cons.mp hmem with rfl | hmem
    · rw [if_pos hx]
    · -- `j` ends before `i` begins, so it does not cover `x`
      have hji : hi j ≤ lo i := List.rel_of_pairwise_cons hl.2 hmem
      rw [if_neg (by omega)]
      exact ih ⟨fun k hk ↦ hl.1 k (List.mem_cons_of_mem j hk), hl.2.of_cons⟩ hmem

theorem labelAt_of_between {l₁ l₂ : List ι} {i : ι} (h : SortedDisjoint lo hi (l₁ ++ i :: l₂))
    {x : ℕ} (hx : lo i ≤ x) (hnext : ∀ j ∈ l₂, x < lo j) :
    labelAt lo hi label (l₁ ++ i :: l₂) x = if x < hi i then some (label i) else none := by
  have hafter : labelAt lo hi label l₂ x = none :=
    labelAt_eq_none fun j hj hcov ↦ Nat.lt_irrefl x ((hnext j hj).trans_le hcov.1)
  rw [labelAt_append, labelAt_eq_none_of_le h hx, Option.none_or, labelAt_cons, hafter]
  by_cases hxi : x < hi i
  · rw [if_pos ⟨hx, hxi⟩, if_pos hxi]
  · rw [if_neg fun hc ↦ hxi hc.2, if_neg hxi]

theorem SortedDisjoint.sublist {l l' : List ι} (h : SortedDisjoint lo hi l') (hs : l.Sublist l') :
    SortedDisjoint lo hi l :=
  ⟨fun i hmem ↦ h.1 i (hs.subset hmem), h.2.sublist hs⟩

theorem SortedDisjoint.replace {l₁ l₂ m : List ι} {i : ι}
    (h : SortedDisjoint lo hi (l₁ ++ i :: l₂)) (hm : SortedDisjoint lo hi m)
    (hin : ∀ j ∈ m, lo i ≤ lo j ∧ hi j ≤ hi i) : SortedDisjoint lo hi (l₁ ++ m ++ l₂) := by
  obtain ⟨hpos, hpw⟩ := h
  rw [List.pairwise_append, List.pairwise_cons] at hpw
  obtain ⟨hw₁, ⟨hi₂, hw₂⟩, hcross⟩ := hpw
  refine ⟨fun j hj ↦ ?_, ?_⟩
  · rcases List.mem_append.mp hj with hj | hj
    · rcases List.mem_append.mp hj with hj | hj
      · exact hpos j (List.mem_append_left _ hj)
      · exact hm.1 j hj
    · exact hpos j (List.mem_append_right _ (List.mem_cons_of_mem i hj))
  · rw [List.pairwise_append, List.pairwise_append]
    refine ⟨⟨hw₁, hm.2, fun a ha b hb ↦ ?_⟩, hw₂, fun a ha b hb ↦ ?_⟩
    · -- a piece starts no earlier than `i`, which starts after `a` ends
      have := hcross a ha i List.mem_cons_self
      have := (hin b hb).1
      omega
    · rcases List.mem_append.mp ha with ha | ha
      · exact hcross a ha b (List.mem_cons_of_mem i hb)
      · have := hi₂ b hb
        have := (hin a ha).2
        omega

theorem SortedDisjoint.fuse {l₁ l₂ : List ι} {a b c : ι}
    (h : SortedDisjoint lo hi (l₁ ++ a :: b :: l₂)) (hc : lo c = lo a ∧ hi c = hi b) :
    SortedDisjoint lo hi (l₁ ++ c :: l₂) := by
  obtain ⟨hpos, hpw⟩ := h
  rw [List.pairwise_append, List.pairwise_cons, List.pairwise_cons] at hpw
  obtain ⟨hw₁, ⟨ha, hb, hw₂⟩, hcross⟩ := hpw
  have hab : hi a ≤ lo b := ha b List.mem_cons_self
  have hposa := hpos a (by simp)
  have hposb := hpos b (by simp)
  refine ⟨fun j hj ↦ ?_, ?_⟩
  · rcases List.mem_append.mp hj with hj | hj
    · exact hpos j (List.mem_append_left _ hj)
    · rcases List.mem_cons.mp hj with rfl | hj
      · omega
      · exact hpos j (by simp [hj])
  · rw [List.pairwise_append, List.pairwise_cons]
    refine ⟨hw₁, ⟨fun j hj ↦ ?_, hw₂⟩, fun k hk j hj ↦ ?_⟩
    · have := hb j hj
      omega
    · rcases List.mem_cons.mp hj with rfl | hj
      · have := hcross k hk a List.mem_cons_self
        omega
      · exact hcross k hk j (by simp [hj])

end Zircon.Lib.IntervalLabels
