import Mathlib

/-!
# Aligned power-of-two blocks

The aligned block of `2 ^ j` numbers with index `q` is the set of `x` with
`x / 2 ^ j = q`; its two halves, with indexes `2 * q` and `2 * q + 1` one level
down, are buddies.  Two aligned blocks either nest or are disjoint.

A block covered by pairwise disjoint smaller aligned blocks holds a pair of
buddies among them (`exists_buddies`): the least of the blocks that meet it
lies inside it, and so does its buddy, which nothing larger can cover without
overlapping the first.  An allocator that merges every free pair of buddies
therefore keeps a free block at least as large as any aligned free interval.
-/

namespace Zircon.Lib

theorem div_two_pow_add (x i j : ℕ) : x / 2 ^ (i + j) = x / 2 ^ i / 2 ^ j := by
  rw [Nat.pow_add, Nat.div_div_eq_div_mul]

theorem div_two_pow_eq_iff {t j x : ℕ} (ht : t % 2 ^ j = 0) :
    x / 2 ^ j = t / 2 ^ j ↔ t ≤ x ∧ x < t + 2 ^ j := by
  have hpos : 0 < 2 ^ j := Nat.two_pow_pos j
  obtain ⟨q, rfl⟩ := Nat.dvd_of_mod_eq_zero ht
  rw [Nat.mul_div_cancel_left q hpos, Nat.mul_comm]
  constructor
  · intro h
    have hlo := Nat.div_mul_le_self x (2 ^ j)
    have hhi := Nat.lt_div_mul_add (a := x) hpos
    rw [h] at hlo hhi
    exact ⟨hlo, hhi⟩
  · rintro ⟨hlo, hhi⟩
    exact Nat.div_eq_of_lt_le hlo (by rw [Nat.add_mul, Nat.one_mul]; exact hhi)

theorem div_two_pow_eq_of_le {x y i j : ℕ} (hij : i ≤ j) (h : x / 2 ^ i = y / 2 ^ i) :
    x / 2 ^ j = y / 2 ^ j := by
  obtain ⟨d, rfl⟩ := Nat.exists_eq_add_of_le hij
  rw [div_two_pow_add, div_two_pow_add, h]

theorem div_two_pow_succ (x j : ℕ) : x / 2 ^ (j + 1) = x / 2 ^ j / 2 := by
  rw [div_two_pow_add, Nat.pow_one]

theorem div_two_pow_succ_eq_div_two (x j : ℕ) : x / 2 ^ (j + 1) = x / 2 / 2 ^ j := by
  rw [Nat.add_comm, div_two_pow_add, Nat.pow_one]

theorem eq_two_pow_log2_of_and_sub_one {n : ℕ} (h0 : n ≠ 0) (h : n &&& (n - 1) = 0) :
    n = 2 ^ n.log2 := by
  have hlo := Nat.log2_self_le h0
  have hhi := Nat.lt_log2_self (n := n)
  rw [Nat.pow_succ] at hhi
  by_contra hne
  have hbit : (n - 1).testBit n.log2 = true := by
    have hdiv : (n - 1) / 2 ^ n.log2 = 1 := Nat.div_eq_of_lt_le (by omega) (by omega)
    rw [Nat.testBit_eq_decide_div_mod_eq, hdiv]
    rfl
  have hand := Nat.testBit_and n (n - 1) n.log2
  rw [h, Nat.zero_testBit, Nat.testBit_log2 h0, hbit] at hand
  exact Bool.false_ne_true hand

section Buddies

variable {k r : ℕ} {blocks : List (ℕ × ℕ)}

/-- Blocks given as `(level, index)`, each smaller than `2 ^ k`, pairwise
disjoint, and covering the block of `2 ^ k` numbers with index `r`, include
two buddies. -/
theorem exists_buddies (hlevel : ∀ p ∈ blocks, p.1 < k)
    (hdisj : ∀ p ∈ blocks, ∀ p' ∈ blocks, p ≠ p' → ∀ x, x / 2 ^ p.1 = p.2 → x / 2 ^ p'.1 ≠ p'.2)
    (hcover : ∀ x, x / 2 ^ k = r → ∃ p ∈ blocks, x / 2 ^ p.1 = p.2) :
    ∃ j q, j < k ∧ (j, 2 * q) ∈ blocks ∧ (j, 2 * q + 1) ∈ blocks := by
  -- the levels of the blocks that meet the block `r`
  have hmeets : ∃ j, ∃ q, (j, q) ∈ blocks ∧ q / 2 ^ (k - j) = r := by
    obtain ⟨p, hp, hx⟩ := hcover (r * 2 ^ k) (by simp)
    refine ⟨p.1, p.2, hp, ?_⟩
    have := hlevel p hp
    rw [← hx, ← div_two_pow_add, Nat.add_sub_cancel' this.le]
    simp
  classical
  obtain ⟨q₀, hq₀, hr₀⟩ := Nat.find_spec hmeets
  set j₀ := Nat.find hmeets
  have hj₀ : j₀ < k := hlevel _ hq₀
  set b := 2 * (q₀ / 2) + (1 - q₀ % 2) with hb
  have hbq : b / 2 = q₀ / 2 := by omega
  have hxb : b * 2 ^ j₀ / 2 ^ j₀ = b := by simp
  have hxr : b * 2 ^ j₀ / 2 ^ k = r := by
    obtain ⟨d, hd⟩ := Nat.exists_eq_add_of_lt hj₀
    rw [hd, show j₀ + d + 1 - j₀ = d + 1 by omega, div_two_pow_succ_eq_div_two] at hr₀
    rw [hd, Nat.add_assoc, div_two_pow_add, hxb, div_two_pow_succ_eq_div_two, hbq, hr₀]
  obtain ⟨p₁, hp₁, hx₁⟩ := hcover _ hxr
  have hlevel₁ : j₀ ≤ p₁.1 := by
    apply Nat.find_min' hmeets
    refine ⟨p₁.2, hp₁, ?_⟩
    rw [← hx₁, ← div_two_pow_add, Nat.add_sub_cancel' (hlevel p₁ hp₁).le, hxr]
  rcases Nat.eq_or_lt_of_le hlevel₁ with heq | hlt
  · -- the buddy itself is one of the blocks
    have hp₁eq : p₁ = (j₀, b) := Prod.ext heq.symm (by rw [← hx₁, ← heq]; exact hxb)
    refine ⟨j₀, q₀ / 2, hj₀, ?_, ?_⟩
    · rcases Nat.mod_two_eq_zero_or_one q₀ with h | h
      · rwa [show 2 * (q₀ / 2) = q₀ by omega]
      · rw [show 2 * (q₀ / 2) = b by omega, ← hp₁eq]
        exact hp₁
    · rcases Nat.mod_two_eq_zero_or_one q₀ with h | h
      · rw [show 2 * (q₀ / 2) + 1 = b by omega, ← hp₁eq]
        exact hp₁
      · rwa [show 2 * (q₀ / 2) + 1 = q₀ by omega]
  · -- a larger block over the buddy would cover the least block too
    exfalso
    have hsame : q₀ * 2 ^ j₀ / 2 ^ p₁.1 = p₁.2 := by
      have hq : q₀ * 2 ^ j₀ / 2 ^ j₀ = q₀ := by simp
      rw [← hx₁]
      apply div_two_pow_eq_of_le (i := j₀ + 1) hlt
      rw [div_two_pow_succ, div_two_pow_succ, hq, hxb, hbq]
    have hne : (j₀, q₀) ≠ p₁ := by
      intro h
      rw [← h] at hlt
      exact lt_irrefl _ hlt
    exact hdisj _ hq₀ _ hp₁ hne (q₀ * 2 ^ j₀) (by simp) hsame

end Buddies

end Zircon.Lib
