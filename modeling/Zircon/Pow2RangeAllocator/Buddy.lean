import Mathlib
import Zircon.Lib.Dyadic
import Zircon.Pow2RangeAllocator

/-!
# `AllocateRange` under the buddy invariant

The allocator keeps its free blocks in buckets by size, each block aligned to
its size, free and allocated blocks pairwise disjoint inside the added ranges,
and no two free buddies below the largest bucket, since `ReturnFreeBlock`
merges every pair it makes.  In such a state `AllocateRange(2 ^ k)` returns
only the start of an aligned free interval inside the added ranges, apart from
every allocated block, and fails with `ZX_ERR_NO_RESOURCES` exactly when no
aligned interval of `2 ^ k` ids is free: by `exists_buddies`, a free aligned
interval tiled by smaller free blocks would hold two free buddies.
-/

namespace Zircon.Pow2RangeAllocator

open Zircon.Lib

/-- The ids of a block. -/
def Block.span (blk : Block) : Set ℕ :=
  Set.Ico blk.start.toNat (blk.start.toNat + 2 ^ blk.bucket)

/-- The ids of an added range. -/
def Range.span (r : Range) : Set ℕ :=
  Set.Ico r.start.toNat (r.start.toNat + r.len.toNat)

/-- Two blocks share no id. -/
def Block.Apart (x y : Block) : Prop :=
  Disjoint x.span y.span

instance : Std.Symm Block.Apart :=
  ⟨fun _ _ h ↦ Disjoint.symm h⟩

/-- The free blocks of all buckets. -/
def freeBlocks (a : Pow2RangeAllocator) : List Block :=
  (List.range a.bucketCount).flatMap a.freeBlockBuckets

/-- The ids some free block holds. -/
def freeIds (a : Pow2RangeAllocator) : Set ℕ :=
  {x | ∃ blk ∈ a.freeBlocks, x ∈ blk.span}

/-- The ids of the added ranges. -/
def rangeIds (a : Pow2RangeAllocator) : Set ℕ :=
  {x | ∃ r ∈ a.ranges, x ∈ r.span}

/-- The buddy invariant: every free block sits in the bucket of its size,
sorted by start, and no bucket from `bucket_count_` on holds one; free and
allocated blocks are aligned to their size, lie in the added ranges and are
pairwise apart; and below the largest bucket no two free blocks are buddies. -/
structure BuddyInvariant (a : Pow2RangeAllocator) : Prop where
  bucket_eq : ∀ b, ∀ blk ∈ a.freeBlockBuckets b, blk.bucket = b
  empty_of_le : ∀ b, a.bucketCount ≤ b → a.freeBlockBuckets b = []
  sorted : ∀ b, (a.freeBlockBuckets b).Pairwise (·.start < ·.start)
  aligned : ∀ blk ∈ a.freeBlocks ++ a.allocatedBlocks, blk.start.toNat % 2 ^ blk.bucket = 0
  within : ∀ blk ∈ a.freeBlocks ++ a.allocatedBlocks, blk.span ⊆ a.rangeIds
  apart : (a.freeBlocks ++ a.allocatedBlocks).Pairwise Block.Apart
  merged : ∀ b, b + 1 < a.bucketCount → ∀ blk ∈ a.freeBlockBuckets b,
    blk.start.toNat % 2 ^ (b + 1) = 0 → ∀ blk' ∈ a.freeBlockBuckets b,
      blk'.start.toNat ≠ blk.start.toNat + 2 ^ b

theorem mem_freeBlocks {a : Pow2RangeAllocator} {blk : Block} :
    blk ∈ a.freeBlocks ↔ ∃ b < a.bucketCount, blk ∈ a.freeBlockBuckets b := by
  simp [freeBlocks]

/-! ## The search for a free block -/

theorem firstFree_eq_none {a : Pow2RangeAllocator} {k : ℕ} :
    a.firstFree k = none ↔ ∀ b, k ≤ b → b < a.bucketCount → a.freeBlockBuckets b = [] := by
  unfold firstFree
  rw [List.findSome?_eq_none_iff]
  constructor
  · intro h b hk hb
    have := h b (List.mem_range'.mpr ⟨b - k, by omega, by omega⟩)
    simpa using this
  · intro h b hb
    obtain ⟨i, hi, rfl⟩ := List.mem_range'.mp hb
    rw [h (k + 1 * i) (by omega) (by omega)]
    rfl

theorem firstFree_eq_some {a : Pow2RangeAllocator} {k b : ℕ} {blk : Block}
    (h : a.firstFree k = some (b, blk)) :
    k ≤ b ∧ b < a.bucketCount ∧ (a.freeBlockBuckets b).head? = some blk := by
  unfold firstFree at h
  obtain ⟨b', hb', hhead⟩ := List.exists_of_findSome?_eq_some h
  obtain ⟨i, hi, rfl⟩ := List.mem_range'.mp hb'
  obtain ⟨blk', hblk', hpair⟩ := Option.map_eq_some_iff.mp hhead
  simp only [Prod.mk.injEq] at hpair
  obtain ⟨rfl, rfl⟩ := hpair
  exact ⟨by omega, by omega, hblk'⟩

/-! ## Splitting the block found -/

theorem returnFreeBlock_allocatedBlocks {a a' : Pow2RangeAllocator} {block : Block}
    (h : a.returnFreeBlock block = .ok a') : a'.allocatedBlocks = a.allocatedBlocks := by
  fun_induction returnFreeBlock a block
  case case7 ih => exact ih h
  all_goals cases h
  all_goals rfl

/-- The split loop either fails for want of bookkeeping or allocates the first
`2 ^ k` ids of the block it was given. -/
theorem splitLoop_ok {k bucket heap : ℕ} {a a' : Pow2RangeAllocator} {block : Block} {s : UInt32}
    (hk : k ≤ bucket) (hbucket : block.bucket = bucket)
    (h : splitLoop k a bucket block heap = .ok (a', .ok s)) :
    s = block.start ∧ a'.allocatedBlocks = ⟨k, block.start⟩ :: a.allocatedBlocks := by
  fun_induction splitLoop k a bucket block heap with
  | case1 =>
    obtain ⟨_, -, hres⟩ := bind_eq_ok.mp h
    cases hres
  | case2 a bucket block heap hlt unused heap' hunused block' ih =>
    obtain ⟨a₁, hret, hrest⟩ := bind_eq_ok.mp h
    obtain ⟨hs, halloc⟩ := ih a₁ (by omega) rfl hrest
    refine ⟨hs, ?_⟩
    rw [halloc, returnFreeBlock_allocatedBlocks hret]
  | case3 a bucket block heap hge =>
    cases h
    refine ⟨rfl, ?_⟩
    have : block = ⟨k, block.start⟩ := by
      obtain ⟨b, st⟩ := block
      simp only [Block.mk.injEq, and_true] at hbucket ⊢
      omega
    rw [← this]

theorem splitLoop_ne_errNoResources {k bucket heap : ℕ} {a a' : Pow2RangeAllocator}
    {block : Block} : splitLoop k a bucket block heap ≠ .ok (a', .error .errNoResources) := by
  fun_induction splitLoop k a bucket block heap with
  | case1 =>
    intro h
    obtain ⟨_, -, hres⟩ := bind_eq_ok.mp h
    cases hres
  | case2 _ _ _ _ _ _ _ _ _ ih =>
    intro h
    obtain ⟨a₁, -, hrest⟩ := bind_eq_ok.mp h
    exact ih a₁ hrest
  | case3 => exact fun h ↦ by cases h

/-! ## Free aligned intervals -/

section Invariant

variable {a : Pow2RangeAllocator} (hinv : BuddyInvariant a)
include hinv

theorem BuddyInvariant.mem_bucket {blk : Block} (h : blk ∈ a.freeBlocks) :
    blk.bucket < a.bucketCount ∧ blk ∈ a.freeBlockBuckets blk.bucket := by
  obtain ⟨b, hb, hmem⟩ := mem_freeBlocks.mp h
  rw [hinv.bucket_eq b blk hmem]
  exact ⟨hb, hmem⟩

theorem BuddyInvariant.mem_span_iff {blk : Block} (h : blk ∈ a.freeBlocks) (x : ℕ) :
    x ∈ blk.span ↔ x / 2 ^ blk.bucket = blk.start.toNat / 2 ^ blk.bucket := by
  rw [div_two_pow_eq_iff (hinv.aligned blk (List.mem_append_left _ h))]
  rfl

theorem BuddyInvariant.span_of_firstFree {k b : ℕ} {blk : Block}
    (h : a.firstFree k = some (b, blk)) :
    blk.start.toNat % 2 ^ k = 0 ∧ Set.Ico blk.start.toNat (blk.start.toNat + 2 ^ k) ⊆ blk.span ∧
      blk ∈ a.freeBlocks ∧ blk.bucket = b := by
  obtain ⟨hkb, hb, hhead⟩ := firstFree_eq_some h
  have hmem : blk ∈ a.freeBlockBuckets b := List.mem_of_mem_head? hhead
  have hfree : blk ∈ a.freeBlocks := mem_freeBlocks.mpr ⟨b, hb, hmem⟩
  have hbucket := hinv.bucket_eq b blk hmem
  have hal := hinv.aligned blk (List.mem_append_left _ hfree)
  rw [hbucket] at hal
  have hpow : 2 ^ k ≤ 2 ^ b := Nat.pow_le_pow_right two_pos hkb
  refine ⟨Nat.mod_eq_zero_of_dvd ((Nat.pow_dvd_pow 2 hkb).trans (Nat.dvd_of_mod_eq_zero hal)),
    ?_, hfree, hbucket⟩
  intro x hx
  simp only [Block.span, hbucket, Set.mem_Ico] at hx ⊢
  omega

theorem BuddyInvariant.not_free_of_firstFree_none {k : ℕ} (hk : k < a.bucketCount)
    (h : a.firstFree k = none) (t : ℕ) (ht : t % 2 ^ k = 0) :
    ¬Set.Ico t (t + 2 ^ k) ⊆ a.freeIds := by
  intro hsub
  have hsmall : ∀ blk ∈ a.freeBlocks, blk.bucket < k := by
    intro blk hblk
    obtain ⟨hb, hmem⟩ := hinv.mem_bucket hblk
    by_contra hge
    rw [firstFree_eq_none.mp h blk.bucket (by omega) hb] at hmem
    cases hmem
  -- the free blocks as `(level, index)`
  set blocks := a.freeBlocks.map fun blk ↦ (blk.bucket, blk.start.toNat / 2 ^ blk.bucket)
  have hblocks : ∀ p ∈ blocks, ∃ blk ∈ a.freeBlocks,
      p = (blk.bucket, blk.start.toNat / 2 ^ blk.bucket) := by
    intro p hp
    obtain ⟨blk, hblk, rfl⟩ := List.mem_map.mp hp
    exact ⟨blk, hblk, rfl⟩
  have hlevel : ∀ p ∈ blocks, p.1 < k := by
    intro p hp
    obtain ⟨blk, hblk, rfl⟩ := hblocks p hp
    exact hsmall blk hblk
  have hdisj : ∀ p ∈ blocks, ∀ p' ∈ blocks, p ≠ p' →
      ∀ x, x / 2 ^ p.1 = p.2 → x / 2 ^ p'.1 ≠ p'.2 := by
    intro p hp p' hp' hne x hx hx'
    obtain ⟨blk, hblk, rfl⟩ := hblocks p hp
    obtain ⟨blk', hblk', rfl⟩ := hblocks p' hp'
    have hne' : blk ≠ blk' := fun heq ↦ hne (by rw [heq])
    have happart := hinv.apart.forall (List.mem_append_left _ hblk)
      (List.mem_append_left _ hblk') hne'
    exact Set.disjoint_left.mp happart ((hinv.mem_span_iff hblk x).mpr hx)
      ((hinv.mem_span_iff hblk' x).mpr hx')
  have hcover : ∀ x, x / 2 ^ k = t / 2 ^ k → ∃ p ∈ blocks, x / 2 ^ p.1 = p.2 := by
    intro x hx
    have hxI : x ∈ Set.Ico t (t + 2 ^ k) := (div_two_pow_eq_iff ht).mp hx
    obtain ⟨blk, hblk, hxs⟩ := hsub hxI
    exact ⟨_, List.mem_map_of_mem hblk, (hinv.mem_span_iff hblk x).mp hxs⟩
  obtain ⟨j, q, hjk, h₀, h₁⟩ : ∃ j q, j < k ∧ (j, 2 * q) ∈ blocks ∧ (j, 2 * q + 1) ∈ blocks :=
    exists_buddies hlevel hdisj hcover
  obtain ⟨blk₀, hblk₀, hp₀⟩ := hblocks _ h₀
  obtain ⟨blk₁, hblk₁, hp₁⟩ := hblocks _ h₁
  simp only [Prod.mk.injEq] at hp₀ hp₁
  have hstart : ∀ blk ∈ a.freeBlocks, blk.start.toNat =
      blk.start.toNat / 2 ^ blk.bucket * 2 ^ blk.bucket := fun blk hblk ↦
    (Nat.div_mul_cancel (Nat.dvd_of_mod_eq_zero (hinv.aligned blk
      (List.mem_append_left _ hblk)))).symm
  have hs₀ := hstart blk₀ hblk₀
  have hs₁ := hstart blk₁ hblk₁
  rw [← hp₀.2, ← hp₀.1] at hs₀
  rw [← hp₁.2, ← hp₁.1] at hs₁
  have hm₀ := (hinv.mem_bucket hblk₀).2
  have hm₁ := (hinv.mem_bucket hblk₁).2
  rw [← hp₀.1] at hm₀
  rw [← hp₁.1] at hm₁
  apply hinv.merged j (by omega) blk₀ hm₀ _ blk₁ hm₁
  · rw [hs₁, hs₀]
    ring
  · rw [hs₀, Nat.pow_succ]
    exact Nat.mod_eq_zero_of_dvd ⟨q, by ring⟩

end Invariant

theorem toNat_eq_two_pow_log2 {size : UInt32} (h0 : size ≠ 0) (hpow : ispow2 size = true) :
    size.toNat = 2 ^ Nat.log2 size.toNat := by
  have hand : size &&& (size - 1) = 0 := by
    simpa [ispow2, h0] using hpow
  have hone : (1 : UInt32) ≤ size := by
    rw [UInt32.le_iff_toNat_le]
    have : size.toNat ≠ 0 := fun h ↦ h0 (UInt32.toNat_inj.mp h)
    simp only [UInt32.reduceToNat]
    omega
  apply eq_two_pow_log2_of_and_sub_one (fun h ↦ h0 (UInt32.toNat_inj.mp h))
  have := congrArg UInt32.toNat hand
  rwa [UInt32.toNat_and, UInt32.toNat_sub_of_le _ _ hone] at this

/-- `AllocateRange(2 ^ k)` in a state with the buddy invariant: the start it
returns is aligned, its `2 ^ k` ids were free and inside the added ranges, and
the new allocated block is apart from every other; it fails with
`ZX_ERR_NO_RESOURCES` exactly when no aligned interval of `2 ^ k` ids is
free. -/
theorem allocateRange_sound_complete (a : Pow2RangeAllocator) (hinv : BuddyInvariant a)
    (size : UInt32) (h0 : size ≠ 0) (hpow : ispow2 size = true)
    (hk : Nat.log2 size.toNat < a.bucketCount) (heap : ℕ) :
    (∀ a' s, a.allocateRange size heap = .ok (a', .ok s) →
        s.toNat % size.toNat = 0 ∧
        Set.Ico s.toNat (s.toNat + size.toNat) ⊆ a.freeIds ∩ a.rangeIds ∧
        a'.allocatedBlocks = ⟨Nat.log2 size.toNat, s⟩ :: a.allocatedBlocks ∧
        ∀ blk ∈ a.allocatedBlocks, Disjoint (Set.Ico s.toNat (s.toNat + size.toNat)) blk.span) ∧
      ((∃ a', a.allocateRange size heap = .ok (a', .error .errNoResources)) ↔
        ∀ t, t % size.toNat = 0 → ¬Set.Ico t (t + size.toNat) ⊆ a.freeIds) := by
  have hsize := toNat_eq_two_pow_log2 h0 hpow
  have hunfold := a.allocateRange_of_lt heap h0 hpow hk
  set k := Nat.log2 size.toNat
  rw [hsize]
  refine ⟨?_, ⟨?_, ?_⟩⟩
  · -- a returned start is the head of the first nonempty bucket from `k` up
    intro a' s h
    rw [hunfold] at h
    rcases hff : a.firstFree k with _ | ⟨b, blk⟩ <;> rw [hff] at h
    · cases h
    obtain ⟨hal, hspan, hfree, hbucket⟩ := hinv.span_of_firstFree hff
    dsimp only at h
    rw [if_neg (not_not.mpr hbucket)] at h
    obtain ⟨rfl, halloc⟩ := splitLoop_ok (firstFree_eq_some hff).1 hbucket h
    refine ⟨hal, fun x hx ↦ ⟨⟨blk, hfree, hspan hx⟩, ?_⟩, halloc, ?_⟩
    · exact hinv.within blk (List.mem_append_left _ hfree) (hspan hx)
    · intro blk' hblk'
      have happart := (List.pairwise_append.mp hinv.apart).2.2 blk hfree blk' hblk'
      exact Disjoint.mono_left hspan happart
  · -- only an empty search reports no resources
    rintro ⟨a', h⟩ t ht hsub
    rw [hunfold] at h
    rcases hff : a.firstFree k with _ | ⟨b, blk⟩ <;> rw [hff] at h
    · exact hinv.not_free_of_firstFree_none hk hff t ht hsub
    · dsimp only at h
      rw [if_neg (not_not.mpr (hinv.span_of_firstFree hff).2.2.2)] at h
      exact splitLoop_ne_errNoResources h
  · intro hno
    rcases hff : a.firstFree k with _ | ⟨b, blk⟩
    · exact ⟨a, by rw [hunfold, hff]⟩
    · obtain ⟨hal, hspan, hfree, -⟩ := hinv.span_of_firstFree hff
      exact absurd (fun x hx ↦ ⟨blk, hfree, hspan hx⟩) (hno _ hal)

/-- Ids `[0, 8)` added to an allocator of at most 16 ids, all free as one block. -/
def eightIds : Pow2RangeAllocator :=
  ⟨[⟨0, 8⟩], 0, [], fun b ↦ if b = 3 then [⟨3, 0⟩] else [], 5⟩

theorem freeBlocks_eightIds : eightIds.freeBlocks = [⟨3, 0⟩] := by
  decide

theorem log2_four_lt : Nat.log2 (4 : UInt32).toNat < eightIds.bucketCount := by
  rw [show (4 : UInt32).toNat = 2 ^ 2 from rfl, Nat.log2_two_pow]
  decide

theorem buddyInvariant_eightIds : BuddyInvariant eightIds where
  bucket_eq b blk h := by
    simp only [eightIds] at h
    split_ifs at h with hb
    · simp_all
    · cases h
  empty_of_le b hb := by
    simp only [eightIds] at hb ⊢
    rw [if_neg (by omega)]
  sorted b := by
    simp only [eightIds]
    split_ifs <;> simp
  aligned := by decide
  within blk hblk x hx := by
    rw [freeBlocks_eightIds] at hblk
    have : blk = ⟨3, 0⟩ := by simpa [eightIds] using hblk
    subst this
    refine ⟨⟨0, 8⟩, List.mem_singleton_self _, ?_⟩
    simpa [Block.span, Range.span] using hx
  apart := by
    rw [freeBlocks_eightIds]
    simp [eightIds]
  merged b _ blk hblk _ blk' hblk' := by
    simp only [eightIds] at hblk hblk'
    split_ifs at hblk hblk' <;> simp_all

theorem allocateRange_eightIds_four : ∃ a', eightIds.allocateRange 4 1 = .ok (a', .ok 0) := by
  rw [allocateRange_of_lt eightIds 1 (by decide) (by decide) log2_four_lt]
  have hlog : Nat.log2 (4 : UInt32).toNat = 2 := by
    rw [show (4 : UInt32).toNat = 2 ^ 2 from rfl, Nat.log2_two_pow]
  have hff : eightIds.firstFree 2 = some (3, ⟨3, 0⟩) := by decide
  rw [hlog, hff]
  simp only [ne_eq, not_true_eq_false, if_false]
  rw [splitLoop, dif_pos (by decide)]
  have hu : getUnusedBlock (eightIds.setBucket 3 (eightIds.freeBlockBuckets 3).tail).unusedBlocks 1 =
      some (0, 0) := by decide
  rw [hu]
  simp only [bind, Except.bind]
  split
  · rename_i e he
    rw [returnFreeBlock, dif_neg (by decide)] at he
    simp [insertPoint, eightIds, setBucket] at he
    split at he
    · cases he
    · rename_i hp
      simp [mergePair] at hp
  · rw [splitLoop, dif_neg (by decide)]
    exact ⟨_, rfl⟩

theorem allocateRange_sound_complete_eightIds :
    BuddyInvariant eightIds ∧ (4 : UInt32) ≠ 0 ∧ ispow2 4 = true ∧
      Nat.log2 (4 : UInt32).toNat < eightIds.bucketCount ∧
      (∃ a', eightIds.allocateRange 4 1 = .ok (a', .ok 0)) ∧
      ((∀ a' s, eightIds.allocateRange 4 1 = .ok (a', .ok s) →
          s.toNat % (4 : UInt32).toNat = 0 ∧
          Set.Ico s.toNat (s.toNat + (4 : UInt32).toNat) ⊆ eightIds.freeIds ∩ eightIds.rangeIds ∧
          a'.allocatedBlocks = ⟨Nat.log2 (4 : UInt32).toNat, s⟩ :: eightIds.allocatedBlocks ∧
          ∀ blk ∈ eightIds.allocatedBlocks,
            Disjoint (Set.Ico s.toNat (s.toNat + (4 : UInt32).toNat)) blk.span) ∧
        ((∃ a', eightIds.allocateRange 4 1 = .ok (a', .error .errNoResources)) ↔
          ∀ t, t % (4 : UInt32).toNat = 0 → ¬Set.Ico t (t + (4 : UInt32).toNat) ⊆ eightIds.freeIds)) :=
  ⟨buddyInvariant_eightIds, by decide, by decide, log2_four_lt, allocateRange_eightIds_four,
    allocateRange_sound_complete eightIds buddyInvariant_eightIds 4 (by decide) (by decide)
      log2_four_lt 1⟩

end Zircon.Pow2RangeAllocator
