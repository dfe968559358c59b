import Mathlib

/-!
# Packed bit fields in a machine word

A field of a packed word is read as `(x >>> off) &&& mask` and written by
clearing the field's bits and or-ing in the new ones,
`(x &&& ~~~(mask <<< off)) ||| (value <<< off)`.  The lemmas here say when such
reads and writes commute: a write leaves every field whose bits it does not
touch unchanged, and a read after a write returns the value written.  Every
statement is by bits (`BitVec.getLsbD`), so they hold for any width.

Two 32-bit words packed as the halves of a 64-bit one, `(hi << 32) | lo`, come
back out as `hi` from the shifted word and `lo` from the low half
(`unpack_hi`, `unpack_lo`), and a 32-bit word masked with `a - 1`, for `a` a
power of two, is its remainder by `a` (`toNat_and_sub_one`).
-/

namespace Zircon.Lib

variable {w : ℕ}

/-- Replace the bits of `x` selected by `mask` with those of `value`. -/
def insertBits (x mask value : BitVec w) : BitVec w :=
  (x &&& ~~~mask) ||| value

/-- `value` has no bit outside `mask`. -/
def BitsWithin (value mask : BitVec w) : Prop :=
  ∀ i, value.getLsbD i → mask.getLsbD i

/-- The mask of the `len` bits starting at bit `lo`. -/
def fieldMask (lo len : ℕ) : BitVec w :=
  BitVec.ofNat w ((2 ^ len - 1) <<< lo)

theorem getLsbD_fieldMask (lo len i : ℕ) :
    (fieldMask lo len : BitVec w).getLsbD i = (decide (i < w) && decide (lo ≤ i ∧ i < lo + len)) := by
  rw [fieldMask, BitVec.getLsbD_ofNat, Nat.testBit_shiftLeft, Nat.testBit_two_pow_sub_one]
  by_cases hlo : lo ≤ i
  · simp only [hlo, decide_true, Bool.true_and, true_and]
    congr 2
    exact propext ⟨fun h ↦ by omega, fun h ↦ by omega⟩
  · simp [hlo]

theorem bitsWithin_ofNat_shiftLeft (lo : ℕ) {a len : ℕ} (ha : a < 2 ^ len) :
    BitsWithin (BitVec.ofNat w a <<< lo) (fieldMask lo len) := by
  intro i hi
  simp only [BitVec.getLsbD_shiftLeft, BitVec.getLsbD_ofNat, Bool.and_eq_true,
    decide_eq_true_eq, Bool.not_eq_true', decide_eq_false_iff_not, not_lt] at hi
  obtain ⟨⟨hw, hlo⟩, -, hbit⟩ := hi
  have hlen : i - lo < len := by
    by_contra hge
    have hpow : 2 ^ len ≤ 2 ^ (i - lo) := Nat.pow_le_pow_right two_pos (not_lt.mp hge)
    rw [Nat.testBit_lt_two_pow (lt_of_lt_of_le ha hpow)] at hbit
    exact Bool.false_ne_true hbit
  rw [getLsbD_fieldMask]
  simp only [Bool.and_eq_true, decide_eq_true_eq]
  omega

theorem getLsbD_insertBits {x mask value : BitVec w} (hv : BitsWithin value mask) (i : ℕ) :
    (insertBits x mask value).getLsbD i = if mask.getLsbD i then value.getLsbD i else x.getLsbD i := by
  have hvi := hv i
  by_cases hi : i < w
  · cases hm : mask.getLsbD i <;> cases hval : value.getLsbD i <;>
      simp_all [insertBits]
  · simp [BitVec.getLsbD_of_ge _ _ (not_lt.mp hi)]

theorem read_congr {x y : BitVec w} {off : ℕ} {mask : BitVec w}
    (h : ∀ i, mask.getLsbD i → x.getLsbD (off + i) = y.getLsbD (off + i)) :
    (x >>> off) &&& mask = (y >>> off) &&& mask := by
  ext i hi
  simp only [BitVec.getElem_and, BitVec.getElem_ushiftRight]
  by_cases hm : mask.getLsbD i
  · rw [h i hm]
  · simp [BitVec.getLsbD_eq_getElem hi] at hm
    simp [hm]

theorem read_insertBits_of_disjoint {x mask value : BitVec w} (hv : BitsWithin value mask)
    {off : ℕ} {m : BitVec w} (hdisj : ∀ i, m.getLsbD i → mask.getLsbD (off + i) = false) :
    (insertBits x mask value >>> off) &&& m = (x >>> off) &&& m := by
  apply read_congr
  intro i hi
  rw [getLsbD_insertBits hv, hdisj i hi, if_neg (by simp)]

theorem bitsWithin_shiftLeft {value mask : BitVec w} (hv : BitsWithin value mask) (off : ℕ) :
    BitsWithin (value <<< off) (mask <<< off) := by
  intro i hi
  rw [BitVec.getLsbD_shiftLeft] at hi ⊢
  simp only [Bool.and_eq_true] at hi ⊢
  exact ⟨hi.1, hv _ hi.2⟩

theorem read_insertBits_self {x m v : BitVec w} {off : ℕ} (hv : BitsWithin v m)
    (hfit : ∀ i, m.getLsbD i → off + i < w) :
    (insertBits x (m <<< off) (v <<< off) >>> off) &&& m = v := by
  apply BitVec.eq_of_getLsbD_eq
  intro i hi
  simp only [BitVec.getLsbD_and, BitVec.getLsbD_ushiftRight]
  rw [getLsbD_insertBits (bitsWithin_shiftLeft hv off)]
  by_cases hm : m.getLsbD i
  · simp [hm, hfit i hm, BitVec.getLsbD_eq_getElem hi]
  · have hvi : v.getLsbD i = false := by
      cases h : v.getLsbD i
      · rfl
      · exact absurd (hv i h) hm
    simp [hm, hvi]

/-! ## Fields given by position and width -/

theorem read_insertBits_fieldMask_of_disjoint {x value : BitVec w} {lo len off lo' len' off' : ℕ}
    (hv : BitsWithin value (fieldMask lo len <<< off))
    (hdisj : off' + lo' + len' ≤ off + lo ∨ off + lo + len ≤ off' + lo') :
    (insertBits x (fieldMask lo len <<< off) value >>> off') &&& fieldMask lo' len' =
      (x >>> off') &&& fieldMask lo' len' := by
  apply read_insertBits_of_disjoint hv
  intro i hi
  rw [getLsbD_fieldMask] at hi
  rw [BitVec.getLsbD_shiftLeft, getLsbD_fieldMask]
  simp only [Bool.and_eq_true, decide_eq_true_eq] at hi
  simp only [Bool.and_eq_false_iff, Bool.not_eq_false', decide_eq_true_eq, decide_eq_false_iff_not]
  omega

theorem read_insertBits_fieldMask_self {x : BitVec w} {lo len off a : ℕ} (ha : a < 2 ^ len)
    (hfit : off + lo + len ≤ w) :
    (insertBits x (fieldMask lo len <<< off) (BitVec.ofNat w a <<< lo <<< off) >>> off) &&&
      fieldMask lo len = BitVec.ofNat w a <<< lo := by
  apply read_insertBits_self (bitsWithin_ofNat_shiftLeft lo ha)
  intro i hi
  rw [getLsbD_fieldMask] at hi
  simp only [Bool.and_eq_true, decide_eq_true_eq] at hi
  omega

/-! ## Alignment masks -/

theorem land_two_pow_sub_two_pow {x w k : ℕ} (hx : x < 2 ^ w) (hk : k ≤ w) :
    x &&& (2 ^ w - 2 ^ k) = x / 2 ^ k * 2 ^ k := by
  have hpow : 2 ^ k - 1 < 2 ^ w := by
    have : 2 ^ k ≤ 2 ^ w := Nat.pow_le_pow_right two_pos hk
    omega
  have hsub : 2 ^ w - 2 ^ k = 2 ^ w - (2 ^ k - 1 + 1) := by
    have : 0 < 2 ^ k := Nat.two_pow_pos k
    omega
  apply Nat.eq_of_testBit_eq
  intro i
  rw [Nat.testBit_and, hsub, Nat.testBit_two_pow_sub_succ hpow, Nat.testBit_two_pow_sub_one,
    Nat.testBit_mul_two_pow]
  by_cases hki : k ≤ i
  · rw [Nat.testBit_div_two_pow, Nat.sub_add_cancel hki]
    by_cases hiw : i < w
    · simp [hki, hiw, not_lt.mpr hki]
    · simp [hki, hiw, Nat.testBit_lt_two_pow (lt_of_lt_of_le hx
        (Nat.pow_le_pow_right two_pos (not_lt.mp hiw)))]
  · simp [hki, lt_of_not_ge hki]

theorem toNat_and_not_sub_one {a : UInt64} {k : ℕ} (hk : a.toNat = 2 ^ k) (x : UInt64) :
    (x &&& ~~~(a - 1)).toNat = x.toNat / 2 ^ k * 2 ^ k := by
  have hk64 : k < 64 := by
    have h := a.toNat_lt
    rw [hk] at h
    exact (Nat.pow_lt_pow_iff_right (by decide)).mp h
  have hpos : 1 ≤ a := UInt64.le_iff_toNat_le.mpr (by simp [hk, Nat.one_le_two_pow])
  have h₁ : (a - 1).toNat = 2 ^ k - 1 := by
    rw [UInt64.toNat_sub_of_le _ _ hpos, hk]
    rfl
  have hone := Nat.one_le_two_pow (n := k)
  have hpow : 2 ^ k < 2 ^ 64 := Nat.pow_lt_pow_right (by decide) hk64
  have hmask : (~~~(a - 1)).toNat = 2 ^ 64 - 2 ^ k := by
    rw [UInt64.toNat_not, h₁]
    simp only [UInt64.size]
    generalize 2 ^ k = A at hone hpow ⊢
    omega
  rw [UInt64.toNat_and, hmask, land_two_pow_sub_two_pow x.toNat_lt hk64.le]

section Halves

theorem toNat_pack (hi lo : UInt32) :
    ((hi.toUInt64 <<< 32) ||| lo.toUInt64).toNat = 2 ^ 32 * hi.toNat + lo.toNat := by
  have hhi := hi.toNat_lt
  have hlo := lo.toNat_lt
  rw [UInt64.toNat_or, UInt64.toNat_shiftLeft, UInt32.toNat_toUInt64, UInt32.toNat_toUInt64,
    show (32 : UInt64).toNat % 64 = 32 by rfl, Nat.shiftLeft_eq,
    Nat.mod_eq_of_lt (by omega), Nat.mul_comm,
    Nat.two_pow_add_eq_or_of_lt (by simpa using hlo)]

theorem unpack_hi (hi lo : UInt32) : (((hi.toUInt64 <<< 32) ||| lo.toUInt64) >>> 32).toUInt32 = hi := by
  apply UInt32.toNat_inj.mp
  have hhi := hi.toNat_lt
  have hlo := lo.toNat_lt
  rw [UInt64.toNat_toUInt32, UInt64.toNat_shiftRight, toNat_pack, show (32 : UInt64).toNat % 64 = 32 by rfl,
    Nat.shiftRight_eq_div_pow, Nat.mul_add_div (by decide), Nat.div_eq_of_lt (by simpa using hlo),
    Nat.add_zero, Nat.mod_eq_of_lt (by simpa using hhi)]

theorem unpack_lo (hi lo : UInt32) : ((hi.toUInt64 <<< 32) ||| lo.toUInt64).toUInt32 = lo := by
  apply UInt32.toNat_inj.mp
  have hlo := lo.toNat_lt
  rw [UInt64.toNat_toUInt32, toNat_pack, Nat.mul_add_mod, Nat.mod_eq_of_lt (by simpa using hlo)]

theorem toNat_and_sub_one {a : UInt32} {k : ℕ} (hk : a.toNat = 2 ^ k) (x : UInt32) :
    (x &&& (a - 1)).toNat = x.toNat % 2 ^ k := by
  have hpos : 1 ≤ a := UInt32.le_iff_toNat_le.mpr (by simp [hk, Nat.one_le_two_pow])
  rw [UInt32.toNat_and, UInt32.toNat_sub_of_le _ _ hpos, hk, show (1 : UInt32).toNat = 1 by rfl,
    Nat.and_two_pow_sub_one_eq_mod]

end Halves

end Zircon.Lib
