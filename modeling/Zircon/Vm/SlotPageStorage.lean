import Mathlib
import Zircon.Lib.ExceptFold

/-!
# Slot page storage

`VmSlotPageStorage` (`vm/slot_page_storage.cc`) packs compressed items into
zram pages cut into 64 slots of 64 bytes.  A page's `free_block_mask` has a set
bit for each free slot, and the page sits in `max_contig_remain_[n]` where `n`
is its longest run of free slots.  `Store` takes the first page whose bucket
is at least the item's slot count, or converts the caller's page when there is
none; `Free` puts the slots back and gives the page to the PMM once it is all
free.

The model is of a debug build: every `DEBUG_ASSERT` of the helpers is a
`SlotFault`, and so is every `uint64_t` shift by 64 or more, which C++ leaves
undefined.  The slab allocator behind `allocator_.New()` is an oracle that
gives a fresh id or fails.

An item of more than `PAGE_SIZE - kSlotSize` bytes needs all 64 slots, and
`Store` then always converts the caller's page with `SlotMask(64, 0)`, which
fails `SlotMask`'s assertion.  `VmCompression::Compress` passes such sizes at
`kernel.compression.threshold` 99 and 100.
-/

namespace Zircon.Vm

/-- `PAGE_SIZE`. -/
def pageSize : ℕ := 4096

def kNumSlots : ℕ := 64

def kSlotSize : ℕ := pageSize / kNumSlots

/-- `UINT64_MAX`. -/
def uint64Max : UInt64 := 0xFFFFFFFFFFFFFFFF

/-- What stops a debug kernel inside the slot storage. -/
inductive SlotFault
  | slotMask (base len : ℕ)
  | contigBase
  | slotsNeeded (len : ℕ)
  | lastSlotBytes (len : ℕ)
  | byteSize
  | pageNotListed
  /-- `IdToObject` of an id with no live `Allocation`: outside `Free`'s contract. -/
  | staleRef
  /-- A `uint64_t` shift by this many bits. -/
  | shift (amount : ℕ)
  deriving DecidableEq, Repr

/-- `ktl::countr_zero` on a `uint64_t`: the index of the lowest set bit, 64 for zero. -/
def countrZero (x : UInt64) : ℕ :=
  ((List.range 64).find? fun i ↦ x.toNat.testBit i).getD 64

/-- `ktl::countr_one`. -/
def countrOne (x : UInt64) : ℕ :=
  countrZero (~~~x)

def shiftRight (x : UInt64) (n : ℕ) : Except SlotFault UInt64 :=
  if n < 64 then .ok (x >>> n.toUInt64) else .error (.shift n)

def shiftLeft (x : UInt64) (n : ℕ) : Except SlotFault UInt64 :=
  if n < 64 then .ok (x <<< n.toUInt64) else .error (.shift n)

/-- `SlotMask`: the slots `[base, base + len)` as set bits. -/
def slotMask (base len : ℕ) : Except SlotFault UInt64 :=
  if ¬(base < kNumSlots ∧ 0 < len ∧ base + len ≤ kNumSlots) then .error (.slotMask base len)
  else if len = kNumSlots then .ok uint64Max
  else do
    let ones ← shiftLeft 1 len
    shiftLeft (ones - 1) base

/-- The `while (free_mask)` loop of `ContigFree`.  Each pass shifts out at least
one set bit, so `kNumSlots` passes always reach the end. -/
def contigFreeLoop : ℕ → UInt64 → ℕ → Except SlotFault ℕ
  | 0, _, maxFree => .ok maxFree
  | fuel + 1, freeMask, maxFree =>
    if freeMask = 0 then .ok maxFree
    else do
      let freeMask ← shiftRight freeMask (countrZero freeMask)
      let ones := countrOne freeMask
      contigFreeLoop fuel (← shiftRight freeMask ones) (max maxFree ones)

/-- `ContigFree`: the longest run of set bits. -/
def contigFree (freeMask : UInt64) : Except SlotFault ℕ :=
  if freeMask = uint64Max then .ok kNumSlots
  else contigFreeLoop kNumSlots freeMask 0

/-- The loop of `ContigBase`.  Each pass shifts out at least one bit, so after
`kNumSlots` passes the mask is zero and one more test decides. -/
def contigBaseLoop (targetMask : UInt64) : ℕ → UInt64 → ℕ → Except SlotFault ℕ
  | 0, _, shifts => .ok shifts
  | fuel + 1, freeMask, shifts =>
    if freeMask &&& targetMask = targetMask then .ok shifts
    else if freeMask = 0 then .error .contigBase
    else do
      let ones := countrOne freeMask
      let freeMask ← shiftRight freeMask ones
      let zeroes := countrZero freeMask
      contigBaseLoop targetMask fuel (← shiftRight freeMask zeroes) (shifts + ones + zeroes)

/-- `ContigBase`: the start of the first run of at least `len` set bits. -/
def contigBase (freeMask : UInt64) (len : ℕ) : Except SlotFault ℕ := do
  let targetMask ← slotMask 0 len
  contigBaseLoop targetMask (kNumSlots + 1) freeMask 0

def slotsNeeded (len : ℕ) : Except SlotFault ℕ :=
  if 0 < len ∧ len < pageSize then .ok ((len - 1) / kSlotSize + 1) else .error (.slotsNeeded len)

def lastSlotBytes (len : ℕ) : Except SlotFault ℕ :=
  if 0 < len then .ok ((len - 1) % kSlotSize + 1) else .error (.lastSlotBytes len)

/-- `VmSlotPageStorage::Allocation`, without the `metadata` word. -/
structure Allocation where
  page : ℕ
  slotStart : ℕ
  numSlots : ℕ
  lastSlotBytes : ℕ
  deriving DecidableEq, Repr

def Allocation.byteSize (a : Allocation) : Except SlotFault ℕ :=
  if ¬(0 < a.numSlots ∧ 0 < a.lastSlotBytes ∧ a.lastSlotBytes ≤ kSlotSize) then .error .byteSize
  else .ok ((a.numSlots - 1) * kSlotSize + a.lastSlotBytes)

/-- `memcpy` of `len` bytes of `src` to `dst` at `offset`. -/
def memcpyAt (dst src : ℕ → UInt8) (offset len : ℕ) : ℕ → UInt8 :=
  fun o ↦ if offset ≤ o ∧ o < offset + len then src (o - offset) else dst o

structure SlotPageStorage where
  /-- The bytes of every physical page, through the physmap. -/
  mem : ℕ → ℕ → UInt8
  /-- `vm_page_t::zram.free_block_mask`. -/
  freeBlockMask : ℕ → UInt64
  /-- `max_contig_remain_[n]`, head first. -/
  maxContigRemain : ℕ → List ℕ
  /-- The live objects of `allocator_`, by id. -/
  allocs : ℕ → Option Allocation
  totalCompressedItemSize : ℕ
  storedItems : ℕ

namespace SlotPageStorage

def empty (mem : ℕ → ℕ → UInt8) : SlotPageStorage :=
  ⟨mem, fun _ ↦ 0, fun _ ↦ [], fun _ ↦ none, 0, 0⟩

/-- The `find_if_not` of `Store`: the first nonempty bucket from `slots` on, and its head. -/
def findTarget (s : SlotPageStorage) (slots : ℕ) : Option (ℕ × ℕ) :=
  (List.range' slots (kNumSlots - slots)).findSome? fun i ↦ (s.maxContigRemain i).head?.map (i, ·)

/-- `list_in_list(&page->queue_node)`. -/
def listed (s : SlotPageStorage) (page : ℕ) : Bool :=
  (List.range kNumSlots).any fun i ↦ page ∈ s.maxContigRemain i

/-- `Store(page, len)`, with `newRef` the outcome of `allocator_.New()`.  It returns
the reference, if any, and the page handed back to the caller, if any. -/
def store (s : SlotPageStorage) (page len : ℕ) (newRef : Option ℕ) :
    Except SlotFault (SlotPageStorage × Option ℕ × Option ℕ) :=
  match newRef with
  | none => .ok (s, none, some page)
  | some ref => do
    let s := { s with totalCompressedItemSize := s.totalCompressedItemSize + len
                      storedItems := s.storedItems + 1 }
    let slots ← slotsNeeded len
    let lastBytes ← lastSlotBytes len
    match s.findTarget slots with
    | none =>
      -- convert the caller's page: its bottom `slots` slots already hold the item
      let contigFree := kNumSlots - slots
      let mask ← slotMask slots contigFree
      .ok ({ s with freeBlockMask := Function.update s.freeBlockMask page mask
                    maxContigRemain := Function.update s.maxContigRemain contigFree
                      (page :: s.maxContigRemain contigFree)
                    allocs := Function.update s.allocs ref (some ⟨page, 0, slots, lastBytes⟩) },
        some ref, none)
    | some (i, target) =>
      let lists := Function.update s.maxContigRemain i (s.maxContigRemain i).tail
      let base ← contigBase (s.freeBlockMask target) slots
      let allocMask ← slotMask base slots
      let mask := s.freeBlockMask target &&& ~~~allocMask
      let contigFree ← contigFree mask
      .ok ({ s with mem := Function.update s.mem target
                      (memcpyAt (s.mem target) (s.mem page) (base * kSlotSize) len)
                    freeBlockMask := Function.update s.freeBlockMask target mask
                    maxContigRemain := Function.update lists contigFree (target :: lists contigFree)
                    allocs := Function.update s.allocs ref (some ⟨target, base, slots, lastBytes⟩) },
        some ref, some page)

/-- `Free(ref)`.  It returns the page given back to the PMM, if any. -/
def free (s : SlotPageStorage) (ref : ℕ) : Except SlotFault (SlotPageStorage × Option ℕ) :=
  match s.allocs ref with
  | none => .error .staleRef
  | some data => do
    if !s.listed data.page then throw .pageNotListed
    let size ← data.byteSize
    let freeMask ← slotMask data.slotStart data.numSlots
    let mask := s.freeBlockMask data.page ||| freeMask
    -- `list_delete` unlinks the page from whichever bucket holds it
    let lists := fun i ↦ (s.maxContigRemain i).erase data.page
    let contigFree ← contigFree mask
    let s := { s with freeBlockMask := Function.update s.freeBlockMask data.page mask
                      maxContigRemain := lists
                      allocs := Function.update s.allocs ref none
                      totalCompressedItemSize := s.totalCompressedItemSize - size
                      storedItems := s.storedItems - 1 }
    if contigFree ≠ kNumSlots then
      .ok ({ s with maxContigRemain := Function.update lists contigFree (data.page :: lists contigFree) },
        none)
    else .ok (s, some data.page)

/-- `CompressedData(ref)`: the bytes of the item. -/
def compressedData (s : SlotPageStorage) (ref : ℕ) : Except SlotFault (List UInt8) :=
  match s.allocs ref with
  | none => .error .staleRef
  | some data => do
    let size ← data.byteSize
    .ok ((List.range size).map fun j ↦ s.mem data.page (data.slotStart * kSlotSize + j))

end SlotPageStorage

/-! ### Sizes passed by `VmCompression::Compress` -/

/-- `sizeof(zx_instant_mono_ticks_t)`, the timestamp stored after each item. -/
def ticksSize : ℕ := 8

def ensureThreshold (threshold : ℕ) : ℕ :=
  if threshold + ticksSize > pageSize then pageSize - ticksSize else threshold

/-- `compression_threshold_` for `kernel.compression.threshold` `t`. -/
def compressionThreshold (t : ℕ) : ℕ :=
  ensureThreshold (pageSize * t / 100)

/-- The `storage_size` that `Compress` passes to `Store`. -/
def storageSize (compressedSize : ℕ) : ℕ :=
  compressedSize + ticksSize

theorem compressionThreshold_le (t : ℕ) : compressionThreshold t ≤ pageSize - ticksSize := by
  unfold compressionThreshold ensureThreshold
  split_ifs <;> omega

/-! ### Items that need the whole page -/

theorem slotsNeeded_of_lt {len : ℕ} (h0 : 0 < len) (h : len < pageSize) :
    slotsNeeded len = .ok ((len - 1) / kSlotSize + 1) := by
  simp [slotsNeeded, h0, h]

theorem slotsNeeded_eq_kNumSlots {len : ℕ} (hlo : pageSize - kSlotSize < len)
    (hhi : len < pageSize) : slotsNeeded len = .ok kNumSlots := by
  rw [slotsNeeded_of_lt (by omega) hhi]
  simp only [pageSize, kSlotSize, kNumSlots] at hlo hhi ⊢
  congr 1
  omega

theorem lastSlotBytes_of_pos {len : ℕ} (h0 : 0 < len) :
    lastSlotBytes len = .ok ((len - 1) % kSlotSize + 1) := by
  simp [lastSlotBytes, h0]

theorem slotMask_kNumSlots_zero : slotMask kNumSlots 0 = .error (.slotMask kNumSlots 0) := by
  simp [slotMask]

namespace SlotPageStorage

theorem findTarget_kNumSlots (s : SlotPageStorage) : s.findTarget kNumSlots = none := by
  simp [findTarget]

theorem store_allSlots (s : SlotPageStorage) (page len ref : ℕ)
    (hlo : pageSize - kSlotSize < len) (hhi : len < pageSize) :
    s.store page len (some ref) = .error (.slotMask kNumSlots 0) := by
  have hpos : 0 < len := by
    simp only [pageSize, kSlotSize, kNumSlots] at hlo
    omega
  rw [store]
  simp only [slotsNeeded_eq_kNumSlots hlo hhi, lastSlotBytes_of_pos hpos]
  simp [findTarget_kNumSlots, slotMask_kNumSlots_zero]

theorem store_pageSize (s : SlotPageStorage) (page ref : ℕ) :
    s.store page pageSize (some ref) = .error (.slotsNeeded pageSize) := by
  simp [store, slotsNeeded]

end SlotPageStorage

open SlotPageStorage

theorem store_compressed_fault (s : SlotPageStorage) (page ref t c : ℕ)
    (hc : c ≤ compressionThreshold t) (hbig : pageSize - kSlotSize < storageSize c) :
    s.store page (storageSize c) (some ref) = .error (.slotMask kNumSlots 0) ∨
      s.store page (storageSize c) (some ref) = .error (.slotsNeeded pageSize) := by
  have hle : storageSize c ≤ pageSize := by
    have := compressionThreshold_le t
    simp only [storageSize, pageSize, ticksSize] at this ⊢
    omega
  rcases hle.lt_or_eq with hlt | heq
  · exact .inl (store_allSlots s page _ ref hbig hlt)
  · exact .inr (heq ▸ store_pageSize s page ref)

theorem store_compressed_fault_threshold99 :
    4055 ≤ compressionThreshold 99 ∧ pageSize - kSlotSize < storageSize 4055 ∧
      ((empty fun _ _ ↦ 0).store 0 (storageSize 4055) (some 0) =
          .error (.slotMask kNumSlots 0) ∨
        (empty fun _ _ ↦ 0).store 0 (storageSize 4055) (some 0) =
          .error (.slotsNeeded pageSize)) :=
  ⟨by decide, by decide, store_compressed_fault _ 0 0 99 4055 (by decide) (by decide)⟩

end Zircon.Vm
