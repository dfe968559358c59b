import Mathlib
import Zircon.Types
import Zircon.Lib.ExceptFold

/-!
# The power-of-two range allocator

`Pow2RangeAllocator` (`lib/pow2_range_allocator`) hands out naturally aligned
power-of-two ranges of `uint32_t` ids from the ranges added to it.  Free
blocks of length `2 ^ b` sit in bucket `b`, sorted by start; returning a block
merges it with its buddy, which is always its list neighbour.  `AddRange`
breaks a range greedily into aligned blocks, growing the block size from the
largest bucket's down and up again.

The model is of a debug build, where each `DEBUG_ASSERT` that fails is a
`Pow2Fault`.  The heap behind `GetUnusedBlock` and `make_unique<Range>` is an
oracle: a call may make `heap` more allocations before the next one fails.

With `Init(2 ^ 31)` the largest block is `2 ^ 31`, and `AddRange` of a range
starting at 0 with at least `2 ^ 31` ids grows past it: `csize << 1`
overflows to 0, the grow loop's test holds again, and `DEBUG_ASSERT(bucket <
bucket_count_)` fails.  A release build loops there forever.
-/

namespace Zircon

open Zircon.Lib

structure Pow2RangeAllocator.Block where
  bucket : ℕ
  start : UInt32
  deriving DecidableEq, Repr

structure Pow2RangeAllocator.Range where
  start : UInt32
  len : UInt32
  deriving DecidableEq, Repr

/-- A failing `DEBUG_ASSERT`, by the function it is in. -/
inductive Pow2Fault
  | returnFreeBlock
  | addRange
  | allocateRange
  | freeRange
  deriving DecidableEq, Repr

structure Pow2RangeAllocator where
  ranges : List Pow2RangeAllocator.Range
  /-- The length of `unused_blocks_`, the spare bookkeeping. -/
  unusedBlocks : ℕ
  allocatedBlocks : List Pow2RangeAllocator.Block
  /-- `free_block_buckets_[b]`, sorted by start. -/
  freeBlockBuckets : ℕ → List Pow2RangeAllocator.Block
  bucketCount : ℕ

namespace Pow2RangeAllocator

/-- `ispow2` (`pow2.h`), which counts 0 as a power of two. -/
def ispow2 (val : UInt32) : Bool :=
  val = 0 || (val ≠ 0 && val &&& (val - 1) = 0)

/-- `1u << bucket`. -/
def blockLen (bucket : ℕ) : UInt32 :=
  1 <<< bucket.toUInt32

/-- `GetUnusedBlock`: a spare block if there is one, else a heap allocation,
which succeeds while `heap` is positive.  Returns the new `(unused, heap)`. -/
def getUnusedBlock (unused heap : ℕ) : Option (ℕ × ℕ) :=
  if 0 < unused then some (unused - 1, heap)
  else if 0 < heap then some (0, heap - 1)
  else none

def setBucket (a : Pow2RangeAllocator) (bucket : ℕ) (list : List Block) : Pow2RangeAllocator :=
  { a with freeBlockBuckets := Function.update a.freeBlockBuckets bucket list }

/-- The walk of `ReturnFreeBlock` over its bucket: the blocks before the insertion
point and the rest, with the overlap assertion on each block it passes. -/
def insertPoint (block : Block) : List Block → Except Pow2Fault (List Block × List Block)
  | [] => .ok ([], [])
  | after :: rest =>
    if ¬(block.start ≥ after.start + blockLen after.bucket ∨
        after.start ≥ block.start + blockLen block.bucket) then .error .returnFreeBlock
    else if after.start > block.start then .ok ([], after :: rest)
    else do
      let (pre, post) ← insertPoint block rest
      .ok (after :: pre, post)

/-- The merge candidates of a block inserted between `pre` and `post`: with odd
alignment it may be the second of a pair, with even alignment the first.  The
result is the pair and the bucket without it. -/
def mergePair (block : Block) (pre post : List Block) : Option (Block × Block × List Block) :=
  if block.start &&& ((blockLen block.bucket <<< 1) - 1) ≠ 0 then
    pre.getLast?.map fun first ↦ (first, block, pre.dropLast ++ post)
  else
    post.head?.map fun second ↦ (block, second, pre ++ post.tail)

theorem mergePair_mem {block first second : Block} {pre post rest : List Block}
    (h : mergePair block pre post = some (first, second, rest)) :
    first = block ∨ second = block := by
  unfold mergePair at h
  split_ifs at h
  · obtain ⟨_, -, hp⟩ := Option.map_eq_some_iff.mp h
    simp only [Prod.mk.injEq] at hp
    exact .inr hp.2.1.symm
  · obtain ⟨_, -, hp⟩ := Option.map_eq_some_iff.mp h
    simp only [Prod.mk.injEq] at hp
    exact .inl hp.1.symm

/-- `ReturnFreeBlock`. -/
def returnFreeBlock (a : Pow2RangeAllocator) (block : Block) :
    Except Pow2Fault Pow2RangeAllocator :=
  if _hb : ¬(block.bucket < a.bucketCount ∧ block.start &&& (blockLen block.bucket - 1) = 0) then
    .error .returnFreeBlock
  else
    match insertPoint block (a.freeBlockBuckets block.bucket) with
    | .error e => .error e
    | .ok (pre, post) =>
      if block.bucket + 1 = a.bucketCount then .ok (a.setBucket block.bucket (pre ++ block :: post))
      else
        match _hp : mergePair block pre post with
        | none => .ok (a.setBucket block.bucket (pre ++ block :: post))
        | some (first, second, rest) =>
          if first.start + blockLen first.bucket ≠ second.start then
            .ok (a.setBucket block.bucket (pre ++ block :: post))
          else if first.bucket ≠ second.bucket then .error .returnFreeBlock
          else
            -- one half's bookkeeping goes back to `unused_blocks_`, the other
            -- tracks the merged block one bucket up
            returnFreeBlock { a.setBucket block.bucket rest with unusedBlocks := a.unusedBlocks + 1 }
              { first with bucket := first.bucket + 1 }
termination_by a.bucketCount - block.bucket
decreasing_by
  have hfirst : first.bucket = block.bucket := by
    rcases mergePair_mem _hp with h | h <;> simp_all
  simp only [setBucket, hfirst]
  omega

def init (maxAllocSize : UInt32) : Except ZxStatus Pow2RangeAllocator :=
  if maxAllocSize = 0 ∨ !ispow2 maxAllocSize then .error .errInvalidArgs
  else .ok ⟨[], 0, [], fun _ ↦ [], Nat.log2 maxAllocSize.toNat + 1⟩

/-- The shrink loop of `AddRange`: halve the chunk until it is aligned with the
start and fits in what is left.  `csize` has 32 bits, so 32 passes suffice. -/
def shrink (rangeStart rangeLen : UInt32) : ℕ → ℕ → UInt32 → Bool → ℕ × UInt32 × Bool
  | 0, bucket, csize, shrunk => (bucket, csize, shrunk)
  | fuel + 1, bucket, csize, shrunk =>
    if rangeStart &&& (csize - 1) ≠ 0 ∨ rangeLen < csize then
      shrink rangeStart rangeLen fuel (bucket - 1) (csize >>> 1) true
    else (bucket, csize, shrunk)

/-- The grow loop of `AddRange`, with its `DEBUG_ASSERT(bucket < bucket_count_)`:
each pass raises `bucket`, so `bucketCount` passes suffice. -/
def grow (bucketCount : ℕ) (maxCsize rangeStart rangeLen : UInt32) :
    ℕ → ℕ → UInt32 → UInt32 → Except Pow2Fault (ℕ × UInt32)
  | 0, bucket, csize, _ => .ok (bucket, csize)
  | fuel + 1, bucket, csize, tmp =>
    if tmp ≤ maxCsize ∧ tmp ≤ rangeLen ∧ rangeStart &&& (tmp - 1) = 0 then
      if bucket + 1 < bucketCount then
        grow bucketCount maxCsize rangeStart rangeLen fuel (bucket + 1) tmp (tmp <<< 1)
      else .error .addRange
    else .ok (bucket, csize)

/-- The chunk size of one pass of `AddRange`'s loop, after shrinking and growing. -/
def chunkSize (bucketCount : ℕ) (maxCsize rangeStart rangeLen : UInt32) (bucket : ℕ)
    (csize : UInt32) : Except Pow2Fault (ℕ × UInt32) :=
  let (bucket, csize, shrunk) := shrink rangeStart rangeLen 32 bucket csize false
  if shrunk then .ok (bucket, csize)
  else grow bucketCount maxCsize rangeStart rangeLen bucketCount bucket csize (csize <<< 1)

/-- The `while (range_len)` loop of `AddRange`: the blocks broken off, in order,
and the spare bookkeeping left; `none` when bookkeeping runs out. -/
def chunkLoop (bucketCount : ℕ) (maxCsize : UInt32) (bucket : ℕ) (csize rangeStart rangeLen : UInt32)
    (unused heap : ℕ) (newBlocks : List Block) :
    Except Pow2Fault (Option (List Block) × ℕ) :=
  if rangeLen = 0 then .ok (some newBlocks, unused)
  else
    match chunkSize bucketCount maxCsize rangeStart rangeLen bucket csize with
    | .error e => .error e
    | .ok (bucket, csize) =>
      if _hc : ¬(blockLen bucket = csize ∧ bucket < bucketCount ∧ rangeStart &&& (csize - 1) = 0 ∧
          csize ≤ rangeLen ∧ csize ≠ 0) then .error .addRange
      else
        match getUnusedBlock unused heap with
        | none => .ok (none, unused)
        | some (unused, heap) =>
          chunkLoop bucketCount maxCsize bucket csize (rangeStart + csize) (rangeLen - csize)
            unused heap (newBlocks ++ [⟨bucket, rangeStart⟩])
termination_by rangeLen.toNat
decreasing_by
  have hle : csize.toNat ≤ rangeLen.toNat := UInt32.le_iff_toNat_le.mp (not_not.mp _hc).2.2.2.1
  have hpos : csize.toNat ≠ 0 := by
    have := (not_not.mp _hc).2.2.2.2
    rwa [ne_eq, ← UInt32.toNat_inj] at this
  rw [UInt32.toNat_sub_of_le _ _ (not_not.mp _hc).2.2.2.1]
  omega

def overlaps (range : Range) (rangeStart rangeLen : UInt32) : Bool :=
  (range.start ≥ rangeStart ∧ range.start < rangeStart + rangeLen) ||
    (rangeStart ≥ range.start ∧ rangeStart < range.start + range.len)

/-- `AddRange`; `heap` is the number of heap allocations that succeed. -/
def addRange (a : Pow2RangeAllocator) (rangeStart rangeLen : UInt32) (heap : ℕ) :
    Except Pow2Fault (Pow2RangeAllocator × ZxStatus) :=
  if rangeLen = 0 ∨ rangeStart + rangeLen < rangeStart then .ok (a, .errInvalidArgs)
  else if a.ranges.any (overlaps · rangeStart rangeLen) then .ok (a, .errAlreadyExists)
  -- `make_unique<Range>`
  else if heap = 0 then .ok (a, .errNoMemory)
  else if a.bucketCount = 0 then .error .addRange
  else do
    let bucket := a.bucketCount - 1
    match ← chunkLoop a.bucketCount (blockLen bucket) bucket (blockLen bucket) rangeStart rangeLen
        a.unusedBlocks (heap - 1) [] with
    | (none, unused) => .ok ({ a with unusedBlocks := unused }, .errNoMemory)
    | (some newBlocks, unused) =>
      let a := { a with ranges := a.ranges ++ [⟨rangeStart, rangeLen⟩], unusedBlocks := unused }
      let a ← newBlocks.foldlM returnFreeBlock a
      .ok (a, .ok)

/-- The first nonempty bucket from `bucket` up, and its head. -/
def firstFree (a : Pow2RangeAllocator) (bucket : ℕ) : Option (ℕ × Block) :=
  (List.range' bucket (a.bucketCount - bucket)).findSome? fun b ↦
    (a.freeBlockBuckets b).head?.map (b, ·)

/-- The split loop of `AllocateRange`: halve `block` down to `origBucket`, returning
each second half to the free buckets; when bookkeeping runs out, return the block
being split and fail. -/
def splitLoop (origBucket : ℕ) (a : Pow2RangeAllocator) (bucket : ℕ) (block : Block) (heap : ℕ) :
    Except Pow2Fault (Pow2RangeAllocator × Except ZxStatus UInt32) :=
  if _h : origBucket < bucket then
    match getUnusedBlock a.unusedBlocks heap with
    | none => do
      let a ← a.returnFreeBlock block
      .ok (a, .error .errNoMemory)
    | some (unused, heap) => do
      let block := { block with bucket := bucket - 1 }
      let a ← { a with unusedBlocks := unused }.returnFreeBlock
        ⟨bucket - 1, block.start + blockLen (bucket - 1)⟩
      splitLoop origBucket a (bucket - 1) block heap
  else .ok ({ a with allocatedBlocks := block :: a.allocatedBlocks }, .ok block.start)
termination_by bucket
decreasing_by omega

/-- `AllocateRange`: the start of the range, or the status. -/
def allocateRange (a : Pow2RangeAllocator) (size : UInt32) (heap : ℕ) :
    Except Pow2Fault (Pow2RangeAllocator × Except ZxStatus UInt32) :=
  if size = 0 ∨ !ispow2 size then .ok (a, .error .errInvalidArgs)
  else if a.bucketCount ≤ Nat.log2 size.toNat then .ok (a, .error .errInvalidArgs)
  else
    match a.firstFree (Nat.log2 size.toNat) with
    | none => .ok (a, .error .errNoResources)
    | some (bucket, block) =>
      if block.bucket ≠ bucket then .error .allocateRange
      else
        splitLoop (Nat.log2 size.toNat) (a.setBucket bucket (a.freeBlockBuckets bucket).tail)
          bucket block heap

/-- `FreeRange`, as a debug build runs it: the bookkeeping is the allocated
block with this start and size, which must exist. -/
def freeRange (a : Pow2RangeAllocator) (rangeStart size : UInt32) :
    Except Pow2Fault Pow2RangeAllocator :=
  if ¬(size ≠ 0 ∧ ispow2 size) then .error .freeRange
  else
    let block : Block := ⟨Nat.log2 size.toNat, rangeStart⟩
    if block ∈ a.allocatedBlocks then
      { a with allocatedBlocks := a.allocatedBlocks.erase block }.returnFreeBlock block
    else .error .freeRange

theorem init_eq_ok {m : UInt32} (h0 : m ≠ 0) (hm : ispow2 m) :
    init m = .ok ⟨[], 0, [], fun _ ↦ [], Nat.log2 m.toNat + 1⟩ := by
  simp [init, h0, hm]

theorem init_two_pow_31 : init (2 ^ 31) = .ok ⟨[], 0, [], fun _ ↦ [], 32⟩ := by
  rw [init_eq_ok (by decide) (by decide)]
  have hlog : Nat.log2 (2 ^ 31 : UInt32).toNat = 31 := by
    rw [show (2 ^ 31 : UInt32).toNat = 2 ^ 31 from rfl, Nat.log2_two_pow]
  rw [hlog]

theorem allocateRange_of_lt (a : Pow2RangeAllocator) {size : UInt32} (heap : ℕ) (h0 : size ≠ 0)
    (hpow : ispow2 size = true) (hk : Nat.log2 size.toNat < a.bucketCount) :
    a.allocateRange size heap =
      match a.firstFree (Nat.log2 size.toNat) with
      | none => .ok (a, .error .errNoResources)
      | some (bucket, block) =>
        if block.bucket ≠ bucket then .error .allocateRange
        else splitLoop (Nat.log2 size.toNat) (a.setBucket bucket (a.freeBlockBuckets bucket).tail)
          bucket block heap := by
  have hvalid : ¬(size = 0 ∨ (!ispow2 size) = true) := by simp [h0, hpow]
  rw [allocateRange, if_neg hvalid, if_neg (not_le.mpr hk)]

/-! ### Growing past the largest bucket -/

theorem shrink_aligned {rangeStart rangeLen csize : UInt32} {fuel bucket : ℕ} {shrunk : Bool}
    (h : rangeStart &&& (csize - 1) = 0) (hle : csize ≤ rangeLen) :
    shrink rangeStart rangeLen (fuel + 1) bucket csize shrunk = (bucket, csize, shrunk) := by
  simp [shrink, h, UInt32.not_lt.mpr hle]

theorem grow_overflow {bucketCount bucket fuel : ℕ} {maxCsize rangeLen csize : UInt32}
    (hlast : bucket + 1 = bucketCount) :
    grow bucketCount maxCsize 0 rangeLen (fuel + 1) bucket csize 0 = .error .addRange := by
  simp [grow]
  omega

theorem chunkSize_two_pow_31 {len : UInt32} (hlen : 2 ^ 31 ≤ len.toNat) :
    chunkSize 32 (blockLen 31) 0 len 31 (blockLen 31) = .error .addRange := by
  have hfits : blockLen 31 ≤ len := UInt32.le_iff_toNat_le.mpr hlen
  have hshrink : shrink 0 len 32 31 (blockLen 31) false = (31, blockLen 31, false) :=
    shrink_aligned (by simp) hfits
  have hwrap : blockLen 31 <<< 1 = 0 := by decide
  simp [chunkSize, hshrink, hwrap, grow_overflow]

theorem chunkLoop_two_pow_31_fault (len : UInt32) (unused heap : ℕ) (newBlocks : List Block)
    (hlen : 2 ^ 31 ≤ len.toNat) :
    chunkLoop 32 (blockLen 31) 31 (blockLen 31) 0 len unused heap newBlocks = .error .addRange := by
  have hlen0 : len ≠ 0 := by
    rintro rfl
    simp at hlen
  rw [chunkLoop]
  simp [hlen0, chunkSize_two_pow_31 hlen]

theorem chunkLoop_two_pow_31_fault_whole :
    2 ^ 31 ≤ (2 ^ 31 : UInt32).toNat ∧
      chunkLoop 32 (blockLen 31) 31 (blockLen 31) 0 (2 ^ 31) 0 0 [] = .error .addRange :=
  ⟨by decide, chunkLoop_two_pow_31_fault _ _ _ _ (by decide)⟩

theorem init_addRange_grow_fault (a : Pow2RangeAllocator) (len : UInt32) (heap : ℕ)
    (ha : init (2 ^ 31) = .ok a) (hlen : 2 ^ 31 ≤ len.toNat) (hheap : 0 < heap) :
    a.addRange 0 len heap = .error .addRange := by
  rw [init_two_pow_31, Except.ok.injEq] at ha
  subst ha
  have hlen0 : len ≠ 0 := by
    rintro rfl
    simp at hlen
  rw [addRange]
  simp only [hlen0, Nat.pos_iff_ne_zero.mp hheap]
  rw [chunkLoop]
  simp [hlen0, chunkSize_two_pow_31 hlen]

theorem init_addRange_grow_fault_two_pow_31 :
    init (2 ^ 31) = .ok ⟨[], 0, [], fun _ ↦ [], 32⟩ ∧ 2 ^ 31 ≤ (2 ^ 31 : UInt32).toNat ∧
      (⟨[], 0, [], fun _ ↦ [], 32⟩ : Pow2RangeAllocator).addRange 0 (2 ^ 31) 1 = .error .addRange :=
  ⟨init_two_pow_31, by decide,
    init_addRange_grow_fault _ _ _ init_two_pow_31 (by decide) (by decide)⟩

end Pow2RangeAllocator

end Zircon
