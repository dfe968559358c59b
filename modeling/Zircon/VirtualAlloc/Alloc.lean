import Zircon.VirtualAlloc.RawBitmap

/-!
# `VirtualAlloc`

A model of `VirtualAlloc` (`lib/virtual_alloc`), a page allocator over a
virtual range whose only record of what is allocated is a bitmap with one bit
per page.  `Init` places the bitmap in the range's first `bitmap_pages` pages
and sets their bits.  `AllocPages(n)` searches for a run of `n + 2 * guard`
clear bits, sets the inner `n` and maps them; when the mapping fails the bits
are cleared again.  `FreePages` clears the bits of a range inside an
allocation.  Every `size_t` is a `UInt64`, with its wrapping arithmetic.

The mapping of pages (`AllocMapPages`) is an outcome given to each call, and
the unmapping is not modelled.  Addresses are kept, so an allocation is the
address `AllocPages` returns; its pages are indexed from the base as
`FreePages` indexes them.  The `ZX_ASSERT`s of `BitmapFree` and `FreePages`
are proof obligations, and the `ZX_DEBUG_ASSERT`s are not checked, except the
one of the aligned search loop (`next_start > current_start`), which is the
variant the loop's model recurses on.
-/

namespace Zircon.VirtualAllocator

open Zircon.Lib

def PAGE_SIZE_SHIFT : UInt64 := 12

def PAGE_SIZE : UInt64 := 1 <<< PAGE_SIZE_SHIFT

/-- `PAGE_SIZE * CHAR_BIT`. -/
def kBitsPerPage : UInt64 := PAGE_SIZE * 8

/-- `ZX_ROUNDUP(a, b)` of `lib/zircon-internal/align.h`. -/
def zxRoundUp (a b : UInt64) : UInt64 := (a + b - 1) / b * b

/-- `ZX_IS_ALIGNED(a, b)` of `lib/zircon-internal/align.h`. -/
def zxIsAligned (a b : UInt64) : Bool := a &&& (b - 1) == 0

/-- The fields of a `VirtualAlloc`; `bitmapStorageSize` is the size in bytes of
the bitmap's storage, `bitmap_pages * PAGE_SIZE`. -/
structure VirtualAlloc where
  allocGuard : UInt64
  allocBase : UInt64
  nextSearchStart : UInt64
  alignLog2 : UInt64
  bitmapStorageSize : UInt64
  bitmap : RawBitmap

namespace VirtualAlloc

/-- A new allocator, before `Init`. -/
def new : VirtualAlloc := ⟨0, 0, 0, 0, 0, RawBitmap.reset 0⟩

def bitmapPages (va : VirtualAlloc) : UInt64 := va.bitmapStorageSize / PAGE_SIZE

/-- `Init(base, size, alloc_guard, align_log2)`, where mapping the bitmap's
pages returns `mapStatus`. -/
def init (va : VirtualAlloc) (base size allocGuard alignLog2 : UInt64) (mapStatus : ZxStatus) :
    ZxStatus × VirtualAlloc :=
  if va.allocBase ≠ 0 then (.errBadState, va)
  else if alignLog2 < PAGE_SIZE_SHIFT then (.errInvalidArgs, va)
  else
    let va := { va with alignLog2 }
    let vaddrAlign : UInt64 := 1 <<< alignLog2
    if size = 0 ∨ zxIsAligned size vaddrAlign = false ∨ zxIsAligned base vaddrAlign = false ∨
        base + size < base then (.errInvalidArgs, va)
    else
      let totalPages := size / PAGE_SIZE
      let bitmapPages := zxRoundUp totalPages kBitsPerPage / kBitsPerPage
      -- room for the bitmap and one allocation with its padding on both sides
      if bitmapPages + allocGuard * 2 ≥ totalPages then (.errInvalidArgs, va)
      else if mapStatus ≠ .ok then (mapStatus, va)
      else
        (.ok, { va with
          bitmapStorageSize := bitmapPages * PAGE_SIZE
          allocBase := base
          bitmap := (RawBitmap.reset totalPages).set 0 bitmapPages
          nextSearchStart := bitmapPages
          allocGuard })

/-- `complete_alloc` of `BitmapAllocRange`: of the run found at `startIndex`,
the first and last `alloc_guard_` bits stay clear as padding and the inner
`numPages` are set; the next search starts after them. -/
def completeAlloc (va : VirtualAlloc) (numPages startIndex : UInt64) :
    Except ZxStatus UInt64 × VirtualAlloc :=
  let startIndex := startIndex + va.allocGuard
  (.ok startIndex,
    { va with
      nextSearchStart := startIndex + numPages
      bitmap := va.bitmap.set startIndex (startIndex + numPages) })

/-- The candidate of the aligned search from `currentStart`: the first index at
or after it that lies `allocGuard` before a multiple of `alignPages`. -/
def alignedCandidate (allocGuard alignPages currentStart : UInt64) : UInt64 :=
  let candidate := zxRoundUp currentStart alignPages
  let candidate :=
    if candidate - currentStart < allocGuard then candidate + zxRoundUp allocGuard alignPages
    else candidate
  candidate - allocGuard

/-- The aligned search of `BitmapAllocRange` from `currentStart`: a run of
`findPages` clear bits whose start lies `allocGuard` before a multiple of
`alignPages`.  `none` is its `break`.  The loop's
`ZX_DEBUG_ASSERT(next_start > current_start)` is the variant it recurses on;
where that fails the model breaks. -/
def alignedSearch (bitmap : RawBitmap) (allocGuard alignPages findPages end_ currentStart : UInt64) :
    Option UInt64 :=
  let candidate := alignedCandidate allocGuard alignPages currentStart
  if candidate + findPages > end_ then none
  else
    match bitmap.scan candidate (candidate + findPages) false with
    | none => some candidate
    | some setBit =>
      -- the next start is the first clear bit after the set one
      match h : bitmap.scan setBit end_ true with
      | none => none
      | some nextStart =>
        if hgt : currentStart < nextStart then
          alignedSearch bitmap allocGuard alignPages findPages end_ nextStart
        else none
termination_by end_.toNat - currentStart.toNat
decreasing_by
  have := (RawBitmap.scan_eq_some h).2.1
  rw [UInt64.lt_iff_toNat_lt] at hgt
  omega

/-- `BitmapAllocRange(num_pages, start, end)`: an aligned run when the request
is at least an alignment step, and otherwise, or when there is none, the first
run at all. -/
def bitmapAllocRange (va : VirtualAlloc) (numPages start end_ : UInt64) :
    Except ZxStatus UInt64 × VirtualAlloc :=
  let alignPages : UInt64 := 1 <<< (va.alignLog2 - PAGE_SIZE_SHIFT)
  let findPages := numPages + va.allocGuard * 2
  let aligned :=
    if numPages ≥ alignPages ∧ alignPages > 1 then
      alignedSearch va.bitmap va.allocGuard alignPages findPages end_ start
    else none
  match aligned with
  | some candidate => va.completeAlloc numPages candidate
  | none =>
    match va.bitmap.find false start end_ findPages with
    | .error e => (.error e, va)
    | .ok allocStart => va.completeAlloc numPages allocStart

/-- `BitmapAlloc(num_pages)`: from the saved search start, then again from the
end of the bitmap. -/
def bitmapAlloc (va : VirtualAlloc) (numPages : UInt64) : Except ZxStatus UInt64 × VirtualAlloc :=
  match va.bitmapAllocRange numPages va.nextSearchStart va.bitmap.size with
  | (.error _, va') => va'.bitmapAllocRange numPages va'.bitmapPages va'.bitmap.size
  | result => result

/-- `BitmapFree(start, num_pages)`: the bits are cleared, and a search start
past them moves back to them, then further back over up to `alloc_guard_`
clear bits. -/
def bitmapFree (va : VirtualAlloc) (start numPages : UInt64) : VirtualAlloc :=
  let va := { va with bitmap := va.bitmap.clear start (start + numPages) }
  if start < va.nextSearchStart then
    let va := { va with nextSearchStart := start }
    if va.nextSearchStart ≥ va.allocGuard then
      match va.bitmap.reverseScan (va.nextSearchStart - va.allocGuard) va.nextSearchStart false with
      | none => { va with nextSearchStart := va.nextSearchStart - va.allocGuard }
      | some candidate => { va with nextSearchStart := candidate + 1 }
    else va
  else va

/-- `AllocPages(pages)`, where mapping the pages found returns `mapStatus`. -/
def allocPages (va : VirtualAlloc) (pages : UInt64) (mapStatus : ZxStatus) :
    Except ZxStatus UInt64 × VirtualAlloc :=
  if va.allocBase = 0 then (.error .errBadState, va)
  else if pages = 0 then (.error .errInvalidArgs, va)
  else
    match va.bitmapAlloc pages with
    | (.error e, va') => (.error e, va')
    | (.ok start, va') =>
      let vstart := va'.allocBase + start * PAGE_SIZE
      -- a failed mapping returns the range to the bitmap
      if mapStatus ≠ .ok then (.error mapStatus, va'.bitmapFree start pages)
      else (.ok vstart, va')

/-- The bitmap index of an address, as `FreePages` computes it. -/
def pageIndex (va : VirtualAlloc) (vaddr : UInt64) : UInt64 := (vaddr - va.allocBase) / PAGE_SIZE

/-- `FreePages(vaddr, pages)`. -/
def freePages (va : VirtualAlloc) (vaddr pages : UInt64) : VirtualAlloc :=
  va.bitmapFree (va.pageIndex vaddr) pages

/-- `Init` of four pages at `1 MiB` with a guard of `2^63` pages: `alloc_guard * 2`
wraps to `0`, so the check for room passes. -/
def hugeGuard : ZxStatus × VirtualAlloc := new.init 0x100000 0x4000 (2 ^ 63) 12 .ok

/-- After that `Init`, `AllocPages(1)` finds the clear page `1` as its run,
adds the guard to get the start `2^63 + 1`, which lies past the bitmap so its
bit is not set, and returns `base + (2^63 + 1) * PAGE_SIZE`, which wraps to
`base + PAGE_SIZE`: page `1`, below `bitmap_pages + guard`.  A second
`AllocPages(1)` returns the same page. -/
theorem allocPages_hugeGuard_sharesPage :
    hugeGuard.1 = .ok ∧ hugeGuard.2.bitmapPages = 1 ∧
      (hugeGuard.2.allocPages 1 .ok).1 = .ok 0x101000 ∧
      hugeGuard.2.pageIndex 0x101000 = 1 ∧
      ((hugeGuard.2.allocPages 1 .ok).2.allocPages 1 .ok).1 = .ok 0x101000 := by
  decide +kernel

end VirtualAlloc

end Zircon.VirtualAllocator
