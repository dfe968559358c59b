import Mathlib.Data.Nat.Bitwise
import Zircon.Lib.RangeSearch

/-!
# Leading zeros, and the first set bit of a word read from its top

`__builtin_clz` counts the zero bits above the highest one bit of a nonzero
word.  A bitmap may number the bits of each 32-bit word from the top, giving
position `p` the bit `31 - p`.  Its first set position at or after `s` is then
the count of leading zeros of the word with the positions before `s` masked
off (`firstIn_msbBit`).
-/

namespace Zircon.Lib

/-- `__builtin_clz` of a nonzero 32-bit word. -/
def clz32 (x : UInt32) : ℕ := 31 - Nat.log2 x.toNat

/-- Position `p` of a 32-bit word whose positions run down from its top bit. -/
def msbBit (w p : ℕ) : Bool := w.testBit (31 - p)

theorem firstIn_msbBit {w s : ℕ} (hs : s < 32) :
    firstIn (msbBit w) s (32 - s) =
      if w % 2 ^ (32 - s) = 0 then none else some (31 - Nat.log2 (w % 2 ^ (32 - s))) := by
  have hbit : ∀ q, q < 32 - s → (w % 2 ^ (32 - s)).testBit q = w.testBit q := by
    intro q hq
    rw [Nat.testBit_mod_two_pow, decide_eq_true hq, Bool.true_and]
  split_ifs with hzero
  · rw [firstIn_eq_none_iff]
    intro p hp₁ hp₂
    rw [msbBit, ← hbit _ (by omega), hzero, Nat.zero_testBit]
  · have hlog : Nat.log2 (w % 2 ^ (32 - s)) < 32 - s :=
      (Nat.log2_lt hzero).mpr (Nat.mod_lt _ (Nat.two_pow_pos _))
    rw [firstIn_eq_some_iff]
    refine ⟨by omega, by omega, ?_, fun q hq₁ hq₂ ↦ ?_⟩
    · -- the highest bit left by the mask
      rw [msbBit, show 31 - (31 - Nat.log2 (w % 2 ^ (32 - s))) = Nat.log2 (w % 2 ^ (32 - s)) by
        omega, ← hbit _ hlog]
      exact Nat.testBit_log2 hzero
    · -- the bits above it are clear
      have habove : w % 2 ^ (32 - s) < 2 ^ (31 - q) :=
        Nat.lt_of_lt_of_le Nat.lt_log2_self (Nat.pow_le_pow_right (by decide) (by omega))
      rw [msbBit, ← hbit _ (by omega)]
      exact Nat.testBit_eq_false_of_lt habove

end Zircon.Lib
