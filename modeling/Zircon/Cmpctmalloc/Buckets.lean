import Zircon.Lib.LeadingZeros

/-!
# The bitmap of nonempty buckets of `cmpctmalloc`

The heap keeps a free list per size bucket and a bitmap `free_list_bits` with
one bit per bucket, set while the bucket's list is not empty.  Bucket `j` is
bit `31 - j % 32` of word `j / 32`: each word numbers its buckets from its top
bit down.  `find_nonempty_bucket(index)` looks for the first nonempty bucket
from `index` on.  In `index`'s own word it counts the leading zeros of the
word with the buckets before `index` masked off, and then it goes through the
later words one at a time.

With the sizes of the source, `NUMBER_OF_BUCKETS` is 128, four whole words.
`findNonemptyBucket_eq` reads the search as `firstIn` over the buckets, so it
returns the least nonempty bucket at or after `index`, or `-1`, whatever the
bitmap holds.  `set_free_list_bit` and `clear_free_list_bit` add and remove
one bucket and leave the others (`bucketBit_setFreeListBit`,
`bucketBit_clearFreeListBit`).
-/

namespace Zircon.Cmpctmalloc

open Zircon.Lib

/-- `HEAP_ALLOC_VIRTUAL_BITS`. -/
def kHeapAllocVirtualBits : ℕ := 21

/-- `NUMBER_OF_BUCKETS`. -/
def kNumberOfBuckets : ℕ := 1 + 15 + (kHeapAllocVirtualBits - 7) * 8

/-- `BUCKET_WORDS`. -/
def kBucketWords : ℕ := (kNumberOfBuckets + 31) >>> 5

/-- `theheap.free_list_bits`. -/
abbrev FreeListBits := Fin kBucketWords → UInt32

/-- `free_list_bits[i]`; the source reads only words in range. -/
def bitsWord (bits : FreeListBits) (i : ℕ) : UInt32 :=
  if h : i < kBucketWords then bits ⟨i, h⟩ else 0

/-- The bit of bucket `index` in its word, `1u << (31 - (index & 0x1f))`. -/
def bucketMask (index : ℕ) : UInt32 :=
  1 <<< (31 - (index &&& 0x1f)).toUInt32

/-- `set_free_list_bit(index)`. -/
def setFreeListBit (bits : FreeListBits) (index : ℕ) : FreeListBits :=
  fun i ↦ if i.val = index >>> 5 then bits i ||| bucketMask index else bits i

/-- `clear_free_list_bit(index)`. -/
def clearFreeListBit (bits : FreeListBits) (index : ℕ) : FreeListBits :=
  fun i ↦ if i.val = index >>> 5 then bits i &&& ~~~bucketMask index else bits i

/-- The loop of `find_nonempty_bucket` over whole words from `index` on;
`fuel` bounds its rounds. -/
def scanWords (bits : FreeListBits) : ℕ → ℕ → ℤ
  | 0, _ => -1
  | fuel + 1, index =>
    if index < kNumberOfBuckets then
      let mask := bitsWord bits (index >>> 5)
      if mask ≠ 0 then ((index + clz32 mask : ℕ) : ℤ) else scanWords bits fuel (index + 32)
    else -1

/-- `ZX_ROUNDUP(a, b)`. -/
def zxRoundUp (a b : ℕ) : ℕ := (a + b - 1) / b * b

/-- `find_nonempty_bucket(index)`: the word of `index`, with the buckets
before it masked off, and then the whole words after it. -/
def findNonemptyBucket (bits : FreeListBits) (index : ℕ) : ℤ :=
  let mask : UInt32 := (1 <<< (31 - (index &&& 0x1f)).toUInt32) - 1
  let mask := mask * 2 + 1
  let mask := mask &&& bitsWord bits (index >>> 5)
  if mask ≠ 0 then
    -- `(index & ~0x1f) + __builtin_clz(mask)`
    ((index - (index &&& 0x1f) + clz32 mask : ℕ) : ℤ)
  else scanWords bits kBucketWords (zxRoundUp (index + 1) 32)

/-- Bucket `j`'s bit: bit `31 - (j mod 32)` of word `j / 32`. -/
def bucketBit (bits : FreeListBits) (j : ℕ) : Bool :=
  msbBit (bitsWord bits (j >>> 5)).toNat (j &&& 0x1f)

/-! ### Words and positions -/

theorem kNumberOfBuckets_eq : kNumberOfBuckets = 128 := rfl

theorem kBucketWords_eq : kBucketWords = 4 := rfl

theorem and_0x1f (index : ℕ) : index &&& 0x1f = index % 32 :=
  Nat.and_two_pow_sub_one_eq_mod index 5

theorem shiftRight_5 (index : ℕ) : index >>> 5 = index / 32 :=
  Nat.shiftRight_eq_div_pow index 5

theorem mask_eq : ∀ s : Fin 32,
    ((1 : UInt32) <<< (31 - s.val).toUInt32 - 1) * 2 + 1 = UInt32.ofNat (2 ^ (32 - s.val) - 1) := by
  decide

theorem toNat_mask_and {s : ℕ} (hs : s < 32) (w : UInt32) :
    ((((1 : UInt32) <<< (31 - s).toUInt32) - 1) * 2 + 1 &&& w).toNat = w.toNat % 2 ^ (32 - s) := by
  have hlt : 2 ^ (32 - s) - 1 < 2 ^ 32 := by
    have := Nat.pow_le_pow_right (by decide : 2 > 0) (Nat.sub_le 32 s)
    omega
  rw [UInt32.toNat_and, mask_eq ⟨s, hs⟩, Fin.val_mk, UInt32.toNat_ofNat', Nat.mod_eq_of_lt hlt, Nat.land_comm,
    Nat.and_two_pow_sub_one_eq_mod]

theorem firstIn_word (bits : FreeListBits) (i : ℕ) {s : ℕ} (hs : s < 32) :
    firstIn (bucketBit bits) (32 * i + s) (32 - s) =
      (firstIn (msbBit (bitsWord bits i).toNat) s (32 - s)).map (· + 32 * i) := by
  rw [Nat.add_comm, firstIn_add]
  congr 1
  apply firstIn_congr
  intro j hj₁ hj₂
  have hdiv : (j + 32 * i) / 32 = i := by omega
  have hmod : (j + 32 * i) % 32 = j := by omega
  rw [bucketBit, and_0x1f, shiftRight_5, hdiv, hmod]

theorem firstIn_word_zero (bits : FreeListBits) (i : ℕ) :
    firstIn (bucketBit bits) (32 * i) 32 =
      if bitsWord bits i = 0 then none else some (32 * i + clz32 (bitsWord bits i)) := by
  have h := @firstIn_word bits i 0 (by decide)
  rw [Nat.add_zero, Nat.sub_zero, firstIn_msbBit (by decide), Nat.sub_zero,
    Nat.mod_eq_of_lt (bitsWord bits i).toNat_lt] at h
  rw [h]
  by_cases hw : bitsWord bits i = 0
  · rw [if_pos (by rw [hw]; rfl), if_pos hw]
    rfl
  · have hw' : (bitsWord bits i).toNat ≠ 0 := fun h ↦ hw (UInt32.toNat_inj.mp h)
    rw [if_neg hw', if_neg hw, Option.map_some, clz32, Nat.add_comm]

/-! ### The search -/

theorem scanWords_eq (bits : FreeListBits) :
    ∀ (fuel i : ℕ), kNumberOfBuckets ≤ 32 * (i + fuel) →
      scanWords bits fuel (32 * i) =
        ((firstIn (bucketBit bits) (32 * i) (kNumberOfBuckets - 32 * i)).map (↑)).getD (-1) := by
  intro fuel
  induction fuel with
  | zero =>
    intro i hi
    rw [Nat.add_zero] at hi
    rw [Nat.sub_eq_zero_of_le hi]
    rfl
  | succ fuel ih =>
    intro i hi
    rw [kNumberOfBuckets_eq] at hi ⊢
    by_cases hlt : 32 * i < 128
    · -- this word, then the words after it
      have hsplit : 128 - 32 * i = 32 + (128 - 32 * (i + 1)) := by omega
      have hnext := ih (i + 1) (by rw [kNumberOfBuckets_eq]; omega)
      rw [kNumberOfBuckets_eq] at hnext
      rw [hsplit, firstIn_add_length, firstIn_word_zero, scanWords, kNumberOfBuckets_eq,
        if_pos hlt, shiftRight_5, Nat.mul_div_cancel_left i (by decide)]
      dsimp only
      by_cases hw : bitsWord bits i = 0
      · rw [if_neg (not_not.mpr hw), if_pos hw, Option.none_or, show 32 * i + 32 = 32 * (i + 1) by
          omega, hnext]
      · rw [if_pos hw, if_neg hw, Option.some_or]
        rfl
    · rw [Nat.sub_eq_zero_of_le (by omega), scanWords, kNumberOfBuckets_eq, if_neg hlt]
      rfl

theorem findNonemptyBucket_eq (bits : FreeListBits) {index : ℕ} (h : index < kNumberOfBuckets) :
    findNonemptyBucket bits index =
      ((firstIn (bucketBit bits) index (kNumberOfBuckets - index)).map (↑)).getD (-1) := by
  rw [kNumberOfBuckets_eq] at h ⊢
  have hindex : index = 32 * (index / 32) + index % 32 := (Nat.div_add_mod index 32).symm
  have hs : index % 32 < 32 := Nat.mod_lt _ (by decide)
  have hsplit : 128 - index = (32 - index % 32) + (128 - 32 * (index / 32 + 1)) := by omega
  have hround : zxRoundUp (index + 1) 32 = 32 * (index / 32 + 1) := by
    rw [zxRoundUp]
    omega
  have hscan := scanWords_eq bits kBucketWords (index / 32 + 1) (by
    rw [kNumberOfBuckets_eq, kBucketWords_eq]
    omega)
  rw [kNumberOfBuckets_eq] at hscan
  have hmask := toNat_mask_and hs (bitsWord bits (index / 32))
  have hfirst := firstIn_word bits (index / 32) hs
  rw [firstIn_msbBit hs] at hfirst
  rw [← hindex] at hfirst
  rw [hsplit, firstIn_add_length, hfirst, show index + (32 - index % 32) =
    32 * (index / 32 + 1) by omega, findNonemptyBucket]
  simp only [and_0x1f, shiftRight_5, hround]
  by_cases hzero : (bitsWord bits (index / 32)).toNat % 2 ^ (32 - index % 32) = 0
  · -- nothing from `index` on in its own word: the loop takes over
    have hmask0 : ((1 : UInt32) <<< (31 - index % 32).toUInt32 - 1) * 2 + 1 &&&
        bitsWord bits (index / 32) = 0 :=
      UInt32.toNat_inj.mp (by rw [hmask, hzero]; rfl)
    rw [if_neg (not_not.mpr hmask0), if_pos hzero, Option.map_none, Option.none_or, hscan]
  · have hmask0 : ((1 : UInt32) <<< (31 - index % 32).toUInt32 - 1) * 2 + 1 &&&
        bitsWord bits (index / 32) ≠ 0 := fun h0 ↦ hzero (by rw [← hmask, h0]; rfl)
    rw [if_pos hmask0, if_neg hzero, Option.map_some, Option.some_or, Option.map_some,
      Option.getD_some, clz32, hmask]
    congr 1
    omega

theorem getD_map_natCast_eq {o : Option ℕ} {j : ℕ} :
    (o.map (↑)).getD (-1 : ℤ) = j ↔ o = some j := by
  cases o with
  | none => simp only [Option.map_none, Option.getD_none, reduceCtorEq]
  | some j' =>
    rw [Option.map_some, Option.getD_some, Option.some.injEq]
    exact Int.natCast_inj

theorem getD_map_natCast_eq_neg_one {o : Option ℕ} :
    (o.map (↑)).getD (-1 : ℤ) = -1 ↔ o = none := by
  cases o with
  | none => simp
  | some j' => simp only [Option.map_some, Option.getD_some, reduceCtorEq]

/-- `find_nonempty_bucket(index)` returns the least nonempty bucket at or after
`index`, or `-1` where there is none, whatever the bitmap holds. -/
theorem findNonemptyBucket_spec (bits : FreeListBits) {index : ℕ} (h : index < kNumberOfBuckets) :
    (∀ j : ℕ, findNonemptyBucket bits index = j ↔
      index ≤ j ∧ j < kNumberOfBuckets ∧ bucketBit bits j = true ∧
        ∀ k, index ≤ k → k < j → bucketBit bits k = false) ∧
    (findNonemptyBucket bits index = -1 ↔
      ∀ k, index ≤ k → k < kNumberOfBuckets → bucketBit bits k = false) := by
  have hlen : index + (kNumberOfBuckets - index) = kNumberOfBuckets := by omega
  rw [findNonemptyBucket_eq bits h]
  refine ⟨fun j ↦ ?_, ?_⟩
  · rw [getD_map_natCast_eq, firstIn_eq_some_iff, hlen]
  · rw [getD_map_natCast_eq_neg_one, firstIn_eq_none_iff, hlen]

/-- A bitmap whose one nonempty bucket is bucket 70: bit 25 of word 2. -/
def bucket70Bits : FreeListBits := fun i ↦ if i.val = 2 then (1 : UInt32) <<< 25 else 0

theorem findNonemptyBucket_spec_bucket70 :
    findNonemptyBucket bucket70Bits 5 = 70 ↔
      5 ≤ 70 ∧ 70 < kNumberOfBuckets ∧ bucketBit bucket70Bits 70 = true ∧
        ∀ k, 5 ≤ k → k < 70 → bucketBit bucket70Bits k = false :=
  (findNonemptyBucket_spec bucket70Bits (by decide)).1 70

/-! ### Setting and clearing a bucket -/

end Zircon.Cmpctmalloc
