import Mathlib

/-!
# `std::sort` and `std::lower_bound`

`std::sort(first, last, comp)` promises, for a comparator that is a strict
weak ordering, a permutation of its range in which no element compares less
than an element before it.  The order of equivalent elements is unspecified,
so a model that runs `std::sort` takes the sorting routine as a parameter and
assumes only this contract.  An insertion sort meets it and is used to run
such models on concrete inputs.

`std::lower_bound(first, last, value, comp)` returns the first position whose
element does not compare less than `value`; on a range partitioned by
`comp (·) value`, which is all the standard promises anything for, that is the
first position where `comp` fails.
-/

namespace Zircon.Lib

/-- A sorting routine with the shape of `std::sort`: a strict comparator and
the range to sort. -/
abbrev SortFn := ∀ {α : Type}, (α → α → Bool) → List α → List α

/-- The postcondition of `std::sort` for every strict weak ordering. -/
def SortsBy (sort : SortFn) : Prop :=
  ∀ {α : Type} (lt : α → α → Bool), IsStrictWeakOrder α (fun a b ↦ lt a b = true) →
    ∀ l : List α, (sort lt l).Perm l ∧ (sort lt l).Pairwise (fun a b ↦ lt b a = false)

/-- Insertion sort under "not greater", a sorting routine meeting `SortsBy`. -/
def insertionSortBy : SortFn := fun lt l ↦ l.insertionSort (fun a b ↦ lt b a = false)

section StrictWeak

variable {α : Type} (lt : α → α → Bool) [hlt : IsStrictWeakOrder α (fun a b ↦ lt a b = true)]

theorem not_gt_total (a b : α) : lt b a = false ∨ lt a b = false := by
  by_cases hba : lt b a = true
  · right
    have h := (inferInstance : Std.Asymm (fun a b : α ↦ lt a b = true)).asymm b a hba
    simpa using h
  · left
    simpa using hba

theorem not_gt_trans {a b c : α} (hab : lt b a = false) (hbc : lt c b = false) :
    lt c a = false := by
  by_contra hca
  rw [Bool.not_eq_false] at hca
  have hab' : lt a b = false := by
    by_contra h
    rw [Bool.not_eq_false] at h
    have := trans_of (fun a b ↦ lt a b = true) hca h
    simp_all
  have hbc' : lt b c = false := by
    by_contra h
    rw [Bool.not_eq_false] at h
    have := trans_of (fun a b ↦ lt a b = true) h hca
    simp_all
  have hac := hlt.incomp_trans a b c
    ⟨by simp [hab'], by simp [hab]⟩ ⟨by simp [hbc'], by simp [hbc]⟩
  exact hac.2 hca

end StrictWeak

theorem sortsBy_insertionSortBy : SortsBy insertionSortBy := by
  intro α lt hlt l
  have : Std.Total (fun a b ↦ lt b a = false) := ⟨not_gt_total lt⟩
  have : IsTrans α (fun a b ↦ lt b a = false) := ⟨fun _ _ _ hab hbc ↦ not_gt_trans lt hab hbc⟩
  exact ⟨List.perm_insertionSort _ l, List.pairwise_insertionSort _ l⟩

theorem sortsBy_eq {sort : SortFn} (hsort : SortsBy sort) {α : Type} [DecidableEq α]
    (lt : α → α → Bool) (hlt : IsStrictWeakOrder α (fun a b ↦ lt a b = true)) {l l' : List α}
    (hunique : ∀ m ∈ l.permutations', m.Pairwise (fun a b ↦ lt b a = false) → m = l') :
    sort lt l = l' := by
  obtain ⟨hperm, hsorted⟩ := hsort lt hlt l
  exact hunique _ (List.mem_permutations'.mpr hperm) hsorted

theorem isStrictWeakOrder_of_key {α β : Type} [LinearOrder β] (key : α → β) :
    IsStrictWeakOrder α (fun a b ↦ decide (key a < key b) = true) where
  irrefl a := by simp
  trans a b c hab hbc := by
    simp only [decide_eq_true_eq] at *
    exact hab.trans hbc
  incomp_trans a b c hab hbc := by
    simp only [decide_eq_true_eq, not_lt] at *
    constructor <;> order

/-- `std::lower_bound` with a predicate `below x = comp x value`: the index of
the first element that is not below, or the length of the list. -/
def lowerBound {α : Type} (below : α → Bool) (l : List α) : ℕ :=
  l.findIdx (fun x ↦ !below x)

theorem lowerBound_le_length {α : Type} (below : α → Bool) (l : List α) :
    lowerBound below l ≤ l.length :=
  List.findIdx_le_length

theorem below_of_lt_lowerBound {α : Type} {below : α → Bool} {l : List α} {i : ℕ}
    (h : i < lowerBound below l) (hi : i < l.length) : below l[i] = true := by
  simpa using List.not_of_lt_findIdx h

theorem below_lowerBound_eq_false {α : Type} {below : α → Bool} {l : List α}
    (h : lowerBound below l < l.length) : below l[lowerBound below l] = false := by
  have h' : (!below l[lowerBound below l]) = true :=
    @List.findIdx_getElem _ (fun x ↦ !below x) l h
  simpa using h'

/-! ### `lower_bound` in a sorted container -/

section Sorted

variable {α : Type*} [LinearOrder α] {l : List α} {key k : α} {rest : List α}

theorem mem_dropWhile_lt_iff (hs : l.Pairwise (· < ·)) {x : α} :
    x ∈ l.dropWhile (fun y ↦ decide (y < key)) ↔ x ∈ l ∧ key ≤ x := by
  induction l with
  | nil => simp
  | cons a l ih =>
    rw [List.pairwise_cons] at hs
    by_cases ha : a < key
    · rw [List.dropWhile_cons_of_pos (by simpa using ha), ih hs.2, List.mem_cons]
      constructor
      · rintro ⟨hx, hkey⟩
        exact ⟨Or.inr hx, hkey⟩
      · rintro ⟨rfl | hx, hkey⟩
        · exact absurd ha (not_lt.mpr hkey)
        · exact ⟨hx, hkey⟩
    · rw [List.dropWhile_cons_of_neg (by simpa using ha)]
      refine ⟨fun hx ↦ ⟨hx, ?_⟩, fun h ↦ h.1⟩
      rcases List.mem_cons.mp hx with rfl | hx
      · exact not_lt.mp ha
      · exact (not_lt.mp ha).trans (hs.1 x hx).le

theorem dropWhile_lt_eq_cons (hs : l.Pairwise (· < ·))
    (h : l.dropWhile (fun y ↦ decide (y < key)) = k :: rest) :
    k ∈ l ∧ key ≤ k ∧ ∀ x ∈ l, key ≤ x → k ≤ x := by
  have hsuffix : (k :: rest).Pairwise (· < ·) := h ▸ hs.sublist (List.dropWhile_sublist _)
  have hk := (mem_dropWhile_lt_iff hs).mp (h ▸ List.mem_cons_self)
  refine ⟨hk.1, hk.2, fun x hx hkey ↦ ?_⟩
  have hx' : x ∈ k :: rest := h ▸ (mem_dropWhile_lt_iff hs).mpr ⟨hx, hkey⟩
  rcases List.mem_cons.mp hx' with rfl | hx'
  · exact le_rfl
  · exact (List.rel_of_pairwise_cons hsuffix hx').le

theorem lt_of_dropWhile_lt_eq_nil (h : l.dropWhile (fun y ↦ decide (y < key)) = []) :
    ∀ x ∈ l, x < key := by
  intro x hx
  simpa using List.dropWhile_eq_nil_iff.mp h x hx

theorem pairwise_lt_orderedInsert (hs : l.Pairwise (· < ·)) (hk : k ∉ l) :
    (l.orderedInsert (· ≤ ·) k).Pairwise (· < ·) := by
  induction l with
  | nil => exact List.pairwise_singleton _ k
  | cons a l ih =>
    rw [List.pairwise_cons] at hs
    rw [List.mem_cons, not_or] at hk
    by_cases hka : k ≤ a
    · rw [List.orderedInsert_cons, if_pos hka]
      have hlt : k < a := lt_of_le_of_ne hka hk.1
      exact List.Pairwise.cons (fun x hx ↦ by
        rcases List.mem_cons.mp hx with rfl | hx
        · exact hlt
        · exact hlt.trans (hs.1 x hx)) (List.Pairwise.cons hs.1 hs.2)
    · rw [List.orderedInsert_cons, if_neg hka]
      refine List.Pairwise.cons (fun x hx ↦ ?_) (ih hs.2 hk.2)
      rcases (List.mem_orderedInsert _).mp hx with rfl | hx
      · exact not_le.mp hka
      · exact hs.1 x hx

end Sorted

end Zircon.Lib
