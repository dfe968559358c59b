import Mathlib

/-!
# Offsets aligned from a first aligned offset

Rounding up to a multiple of `b` as `(x + (b - 1)) / b * b` gives the least
multiple of `b` at or above `x`.  An offset is aligned from `first` with step
`step` when it is `first` plus a multiple of `step`.  Offsets that count units of
`2 ^ s` from a base have an address that is a multiple of `2 ^ a` exactly when
they are aligned, with step `2 ^ (a - s)`, from the first offset whose address is.
-/

namespace Zircon.Lib

section RoundUp

variable {x m b : ℕ}

theorem le_roundUp (hb : 0 < b) : x ≤ (x + (b - 1)) / b * b := by
  have := Nat.lt_div_mul_add (a := x + (b - 1)) hb
  omega

theorem roundUp_le (hb : 0 < b) (hm : m % b = 0) (hx : x ≤ m) : (x + (b - 1)) / b * b ≤ m := by
  obtain ⟨c, rfl⟩ := Nat.dvd_of_mod_eq_zero hm
  have hlt : x + (b - 1) < (c + 1) * b := by
    have : x ≤ c * b := by rwa [Nat.mul_comm] at hx
    rw [Nat.add_mul, Nat.one_mul]
    omega
  have hc : (x + (b - 1)) / b ≤ c := Nat.lt_succ_iff.mp ((Nat.div_lt_iff_lt_mul hb).mpr hlt)
  calc (x + (b - 1)) / b * b ≤ c * b := Nat.mul_le_mul_right b hc
    _ = b * c := Nat.mul_comm c b

theorem roundUp_mod (x b : ℕ) : (x + (b - 1)) / b * b % b = 0 :=
  Nat.mul_mod_left _ _

theorem add_le_of_lt_of_dvd {n : ℕ} (hx : b ∣ x) (hn : b ∣ n) (hlt : x < n) : x + b ≤ n := by
  obtain ⟨c, rfl⟩ := hx
  obtain ⟨d, rfl⟩ := hn
  have hcd : c < d := Nat.lt_of_mul_lt_mul_left hlt
  calc b * c + b = b * (c + 1) := by rw [Nat.mul_succ]
    _ ≤ b * d := Nat.mul_le_mul_left b hcd

end RoundUp

/-- `v` is `first` plus a multiple of `step`. -/
def AlignedFrom (first step v : ℕ) : Prop :=
  first ≤ v ∧ (v - first) % step = 0

instance (first step v : ℕ) : Decidable (AlignedFrom first step v) :=
  inferInstanceAs (Decidable (_ ∧ _))

theorem alignedFrom_self (first step : ℕ) : AlignedFrom first step first :=
  ⟨le_rfl, by simp⟩

theorem alignedFrom_roundUp (first step x : ℕ) :
    AlignedFrom first step ((x + (step - 1)) / step * step + first) := by
  refine ⟨Nat.le_add_left _ _, ?_⟩
  rw [Nat.add_sub_cancel]
  exact roundUp_mod x step

/-- The least multiple of `2 ^ a` at or above `base` is `base + first * 2 ^ s`;
then an offset `v` has `base + v * 2 ^ s` aligned to `2 ^ a` exactly when it is
aligned from `first` with step `2 ^ (a - s)`. -/
theorem mod_eq_zero_iff_alignedFrom {base first s a : ℕ} (hs : s ≤ a)
    (hfirst : (base + first * 2 ^ s) % 2 ^ a = 0)
    (hleast : ∀ m, m % 2 ^ a = 0 → base ≤ m → base + first * 2 ^ s ≤ m) (v : ℕ) :
    (base + v * 2 ^ s) % 2 ^ a = 0 ↔ AlignedFrom first (2 ^ (a - s)) v := by
  have hpow : 2 ^ a = 2 ^ (a - s) * 2 ^ s := by
    rw [← Nat.pow_add, Nat.sub_add_cancel hs]
  have hspos : 0 < 2 ^ s := Nat.two_pow_pos s
  constructor
  · intro hv
    have hle : first ≤ v := by
      have := hleast _ hv (Nat.le_add_right _ _)
      exact Nat.le_of_mul_le_mul_right (by omega) hspos
    have hdiff : base + v * 2 ^ s = base + first * 2 ^ s + (v - first) * 2 ^ s := by
      rw [Nat.add_assoc, ← Nat.add_mul, Nat.add_sub_cancel' hle]
    have hmod : (v - first) * 2 ^ s % (2 ^ (a - s) * 2 ^ s) = 0 := by
      rw [← hpow]
      rw [hdiff, Nat.add_mod, hfirst, Nat.zero_add, Nat.mod_mod] at hv
      exact hv
    rw [Nat.mul_mod_mul_right] at hmod
    exact ⟨hle, (Nat.mul_eq_zero.mp hmod).resolve_right hspos.ne'⟩
  · rintro ⟨hle, hmod⟩
    obtain ⟨t, ht⟩ := Nat.dvd_of_mod_eq_zero hmod
    have hv : base + v * 2 ^ s = base + first * 2 ^ s + t * 2 ^ a := by
      rw [hpow, ← Nat.mul_assoc, Nat.mul_comm t, ← ht, Nat.add_assoc, ← Nat.add_mul,
        Nat.add_sub_cancel' hle]
    rw [hv, Nat.add_mul_mod_self_right, hfirst]

end Zircon.Lib
