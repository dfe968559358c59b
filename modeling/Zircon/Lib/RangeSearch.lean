import Mathlib.Data.List.Basic

/-!
# The first and the last position of a range where a test holds

`firstIn p a n` is the first position of `[a, a + n)` where `p` holds, and
`lastIn p a n` the last one; both are `none` when `p` fails on the whole range.
A forward scan of a bitmap for the first bit that differs from a value, a
backward scan for the last one, and a first-fit search for a run are read
through these two, and their specifications are the two `_eq_some_iff` and
`_eq_none_iff` lemmas.
-/

namespace Zircon.Lib

variable {p q : ℕ → Bool} {a n i : ℕ}

/-- The first position of `[a, a + n)` where `p` holds. -/
def firstIn (p : ℕ → Bool) (a : ℕ) : ℕ → Option ℕ
  | 0 => none
  | n + 1 => if p a then some a else firstIn p (a + 1) n

/-- The last position of `[a, a + n)` where `p` holds. -/
def lastIn (p : ℕ → Bool) (a : ℕ) : ℕ → Option ℕ
  | 0 => none
  | n + 1 => if p (a + n) then some (a + n) else lastIn p a n

theorem firstIn_eq_none_iff : firstIn p a n = none ↔ ∀ i, a ≤ i → i < a + n → p i = false := by
  induction n generalizing a with
  | zero => simp only [firstIn, true_iff]; intro i h₁ h₂; omega
  | succ n ih =>
    rw [firstIn]
    by_cases ha : p a = true
    · -- the scan stops at `a`
      rw [if_pos ha]
      simp only [reduceCtorEq, false_iff, not_forall]
      exact ⟨a, (Nat.le_refl _), by omega, by rw [ha]; decide⟩
    · rw [if_neg ha, ih]
      constructor
      · intro h i h₁ h₂
        rcases Nat.eq_or_lt_of_le h₁ with rfl | h₁
        · simpa using ha
        · exact h i h₁ (by omega)
      · intro h i h₁ h₂
        exact h i (by omega) (by omega)

theorem firstIn_eq_some_iff :
    firstIn p a n = some i ↔ a ≤ i ∧ i < a + n ∧ p i = true ∧ ∀ j, a ≤ j → j < i → p j = false := by
  induction n generalizing a with
  | zero => simp only [firstIn, reduceCtorEq, false_iff]; omega
  | succ n ih =>
    rw [firstIn]
    by_cases ha : p a = true
    · -- the scan stops at `a`
      rw [if_pos ha, Option.some.injEq]
      constructor
      · rintro rfl
        exact ⟨Nat.le_refl _, by omega, ha, fun j h₁ h₂ ↦ absurd h₂ (by omega)⟩
      · rintro ⟨h₁, -, -, hbefore⟩
        by_contra hne
        have := hbefore a (Nat.le_refl _) (by omega)
        rw [ha] at this
        exact Bool.noConfusion this
    · rw [if_neg ha, ih]
      simp only [Bool.not_eq_true] at ha
      constructor
      · rintro ⟨h₁, h₂, hi, hbefore⟩
        refine ⟨by omega, by omega, hi, fun j hj₁ hj₂ ↦ ?_⟩
        rcases Nat.eq_or_lt_of_le hj₁ with rfl | hj₁
        · exact ha
        · exact hbefore j hj₁ hj₂
      · rintro ⟨h₁, h₂, hi, hbefore⟩
        have hne : a ≠ i := by
          rintro rfl
          rw [ha] at hi
          exact Bool.noConfusion hi
        exact ⟨by omega, by omega, hi, fun j hj₁ hj₂ ↦ hbefore j (by omega) hj₂⟩

theorem lastIn_eq_none_iff : lastIn p a n = none ↔ ∀ i, a ≤ i → i < a + n → p i = false := by
  induction n with
  | zero => simp only [lastIn, true_iff]; intro i h₁ h₂; omega
  | succ n ih =>
    rw [lastIn]
    by_cases hlast : p (a + n) = true
    · -- the scan stops at `a + n`
      rw [if_pos hlast]
      simp only [reduceCtorEq, false_iff, not_forall]
      exact ⟨a + n, by omega, by omega, by rw [hlast]; decide⟩
    · rw [if_neg hlast, ih]
      constructor
      · intro h i h₁ h₂
        rcases Nat.lt_succ_iff_lt_or_eq.mp (show i < a + n + 1 by omega) with h₂ | rfl
        · exact h i h₁ h₂
        · simpa using hlast
      · intro h i h₁ h₂
        exact h i h₁ (by omega)

theorem lastIn_eq_some_iff :
    lastIn p a n = some i ↔ a ≤ i ∧ i < a + n ∧ p i = true ∧ ∀ j, i < j → j < a + n → p j = false := by
  induction n with
  | zero => simp only [lastIn, reduceCtorEq, false_iff]; omega
  | succ n ih =>
    rw [lastIn]
    by_cases hlast : p (a + n) = true
    · -- the scan stops at `a + n`
      rw [if_pos hlast, Option.some.injEq]
      constructor
      · rintro rfl
        exact ⟨by omega, by omega, hlast, fun j h₁ h₂ ↦ absurd h₂ (by omega)⟩
      · rintro ⟨-, h₂, -, hafter⟩
        by_contra hne
        have := hafter (a + n) (by omega) (by omega)
        rw [hlast] at this
        exact Bool.noConfusion this
    · rw [if_neg hlast, ih]
      simp only [Bool.not_eq_true] at hlast
      constructor
      · rintro ⟨h₁, h₂, hi, hafter⟩
        refine ⟨h₁, by omega, hi, fun j hj₁ hj₂ ↦ ?_⟩
        rcases Nat.lt_succ_iff_lt_or_eq.mp (show j < a + n + 1 by omega) with hj₂ | rfl
        · exact hafter j hj₁ hj₂
        · exact hlast
      · rintro ⟨h₁, h₂, hi, hafter⟩
        have hne : i ≠ a + n := by
          rintro rfl
          rw [hlast] at hi
          exact Bool.noConfusion hi
        exact ⟨h₁, by omega, hi, fun j hj₁ hj₂ ↦ hafter j hj₁ (by omega)⟩

theorem firstIn_congr (h : ∀ i, a ≤ i → i < a + n → p i = q i) : firstIn p a n = firstIn q a n := by
  induction n generalizing a with
  | zero => rfl
  | succ n ih =>
    rw [firstIn, firstIn, h a (Nat.le_refl _) (by omega), ih (fun i h₁ h₂ ↦ h i (by omega) (by omega))]

theorem firstIn_add_length (m : ℕ) :
    firstIn p a (n + m) = (firstIn p a n).or (firstIn p (a + n) m) := by
  induction n generalizing a with
  | zero => rw [Nat.zero_add, Nat.add_zero, firstIn, Option.none_or]
  | succ n ih =>
    rw [Nat.add_right_comm, firstIn, firstIn, ih, Nat.add_right_comm a 1 n, ← Nat.add_assoc]
    by_cases ha : p a = true
    · rw [if_pos ha, if_pos ha]
      rfl
    · rw [if_neg ha, if_neg ha]

theorem firstIn_add (c : ℕ) :
    firstIn p (a + c) n = (firstIn (fun j ↦ p (j + c)) a n).map (· + c) := by
  induction n generalizing a with
  | zero => rfl
  | succ n ih =>
    rw [firstIn, firstIn, Nat.add_right_comm, ih]
    by_cases ha : p (a + c) = true
    · rw [if_pos ha, if_pos ha]
      rfl
    · rw [if_neg ha, if_neg ha]

theorem filterMap_range_ite {β : Type*} (f : ℕ → Option β) (a b n : ℕ) :
    (List.range n).filterMap (fun i ↦ if a ≤ i ∧ i < b then f i else none) =
      (List.range' a (min b n - a)).filterMap f := by
  induction n with
  | zero => simp
  | succ n ih =>
    rw [List.range_succ, List.filterMap_append, ih]
    by_cases hn : a ≤ n ∧ n < b
    · -- `n` is the new last position of both ranges
      have hlen : min b (n + 1) - a = (min b n - a) + 1 := by
        rw [Nat.min_def, Nat.min_def]
        split_ifs <;> omega
      have hlast : a + (min b n - a) = n := by
        rw [Nat.min_def]
        split_ifs <;> omega
      rw [hlen, List.range'_concat, List.filterMap_append, Nat.one_mul, hlast]
      simp only [List.filterMap_cons, List.filterMap_nil, if_pos hn]
    · have hlen : min b (n + 1) - a = min b n - a := by
        rw [Nat.min_def, Nat.min_def]
        split_ifs <;> omega
      rw [hlen, List.filterMap_cons, if_neg hn, List.filterMap_nil, List.append_nil]

end Zircon.Lib
