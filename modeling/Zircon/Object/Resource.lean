import Mathlib
import Zircon.Lib.BitField
import Zircon.Lib.ExceptFold
import Zircon.Types

/-!
# Resources and the root resource filter

A resource grants access to a range of one address space (`object/resource.cc`,
`object/resource_dispatcher.cc`, `lib/syscalls/resource.cc`).  The root
resource and the ranged root of a kind may mint any range the root resource
filter (`lib/root_resource_filter`) allows; any other resource only ranges
inside its own, and for MMIO its own range is first rounded out to pages.

The filter denies the RAM ranges of the handoff, the NVRAM range and the
regions platform code adds with `AddDenyRegion`.  Only the last are rounded
out to pages.  A resource minted from the root just below a RAM range that
starts inside a page is therefore validated later for the whole page, RAM
included; the debug assertion in `validate_ranged_resource` states exactly the
property that breaks.

`RegionAllocator` (in `region-alloc`, outside this tree) is modelled as the
set of its available intervals: the regions added, less those handed out
exclusively.  The model is of the arm64 build, whose pages are 4 KiB and
whose filter enforces MMIO only.
-/

namespace Zircon.Object

open Zircon.Lib

/-! ## Constants of `zircon/syscalls/resource.h` and `align.h` -/

def zxRsrcKindMmio : UInt32 := 0
def zxRsrcKindIrq : UInt32 := 1
def zxRsrcKindIoport : UInt32 := 2
def zxRsrcKindRoot : UInt32 := 3
def zxRsrcKindSmc : UInt32 := 4
def zxRsrcKindSystem : UInt32 := 5
def zxRsrcKindCount : UInt32 := 6

def zxRsrcFlagExclusive : UInt32 := 0x10000
def zxRsrcFlagsMask : UInt32 := zxRsrcFlagExclusive

def zxRsrcExtractKind (x : UInt32) : UInt32 := x &&& 0x0000FFFF
def zxRsrcExtractFlags (x : UInt32) : UInt32 := x &&& 0xFFFF0000

/-- `PAGE_SIZE` of the arm64 build with 4 KiB pages. -/
def pageSize : UInt64 := 4096

/-- `ROUNDDOWN_PAGE_SIZE`. -/
def roundDownPageSize (x : UInt64) : UInt64 := x &&& ~~~(pageSize - 1)

/-- `ROUNDUP_PAGE_SIZE`, which wraps to zero above the last page. -/
def roundUpPageSize (x : UInt64) : UInt64 := (x + (pageSize - 1)) &&& ~~~(pageSize - 1)

theorem toNat_not_pageSize_sub_one : (~~~(pageSize - 1)).toNat = 2 ^ 64 - 2 ^ 12 := by
  decide

theorem roundDownPageSize_toNat (x : UInt64) :
    (roundDownPageSize x).toNat = x.toNat / 4096 * 4096 := by
  rw [roundDownPageSize, UInt64.toNat_and, toNat_not_pageSize_sub_one,
    land_two_pow_sub_two_pow x.toNat_lt (by norm_num)]
  rfl

theorem roundUpPageSize_toNat (x : UInt64) :
    (roundUpPageSize x).toNat = (x.toNat + 4095) % 2 ^ 64 / 4096 * 4096 := by
  rw [roundUpPageSize, UInt64.toNat_and, toNat_not_pageSize_sub_one,
    land_two_pow_sub_two_pow (UInt64.toNat_lt _) (by norm_num), UInt64.toNat_add]
  rfl

/-! ## `kernel/range_check.h` -/

/-- `Intersects`: a zero-length range overlaps nothing.  The sums are
`uint64_t` and wrap. -/
def intersects (offset1 len1 offset2 len2 : UInt64) : Bool :=
  if len1 = 0 ∨ len2 = 0 then false
  else if offset1 ≤ offset2 then !(offset1 + len1 ≤ offset2)
  else !(offset1 ≥ offset2 + len2)

/-- `GetIntersect`: the intersection's offset and length, if they overlap. -/
def getIntersect (offset1 len1 offset2 len2 : UInt64) : Option (UInt64 × UInt64) :=
  if !intersects offset1 len1 offset2 len2 then none
  else if offset1 < offset2 then some (offset2, min ((offset1 + len1) - offset2) len2)
  else some (offset1, min ((offset2 + len2) - offset1) len1)

theorem intersects_eq_true {o1 l1 o2 l2 : UInt64} (h : intersects o1 l1 o2 l2 = true) :
    l1 ≠ 0 ∧ l2 ≠ 0 ∧
      (o1.toNat ≤ o2.toNat → o2.toNat < (o1.toNat + l1.toNat) % 2 ^ 64) ∧
      (o2.toNat < o1.toNat → o1.toNat < (o2.toNat + l2.toNat) % 2 ^ 64) := by
  unfold intersects at h
  split_ifs at h with h0 hle
  · simp only [Bool.not_eq_true', decide_eq_false_iff_not, UInt64.le_iff_toNat_le,
      UInt64.toNat_add, not_le] at h hle
    exact ⟨fun h' ↦ h0 (Or.inl h'), fun h' ↦ h0 (Or.inr h'), fun _ ↦ h, fun h' ↦ by omega⟩
  · simp only [Bool.not_eq_true', decide_eq_false_iff_not, UInt64.le_iff_toNat_le,
      UInt64.toNat_add, not_le, ge_iff_le] at h hle
    exact ⟨fun h' ↦ h0 (Or.inl h'), fun h' ↦ h0 (Or.inr h'), fun h' ↦ by omega, fun _ ↦ h⟩

theorem getIntersect_eq_self {o1 l1 o2 l2 : UInt64}
    (h : getIntersect o1 l1 o2 l2 = some (o1, l1)) :
    l1 ≠ 0 ∧ o2.toNat ≤ o1.toNat ∧ o1.toNat + l1.toNat ≤ o2.toNat + l2.toNat := by
  unfold getIntersect at h
  cases hint : intersects o1 l1 o2 l2 with
  | false => simp [hint] at h
  | true =>
    obtain ⟨hl1, -, hbelow, habove⟩ := intersects_eq_true hint
    simp only [hint, Bool.not_true, Bool.false_eq_true, if_false] at h
    split_ifs at h with hlt
    · simp only [Option.some.injEq, Prod.mk.injEq] at h
      rw [h.1, UInt64.lt_iff_toNat_lt] at hlt
      omega
    · simp only [Option.some.injEq, Prod.mk.injEq, true_and] at h
      have hmin : l1 ≤ (o2 + l2) - o1 := by
        change (if (o2 + l2) - o1 ≤ l1 then (o2 + l2) - o1 else l1) = l1 at h
        split_ifs at h with hle
        · exact h ▸ hle
        · rw [UInt64.le_iff_toNat_le] at hle ⊢
          omega
      rw [UInt64.le_iff_toNat_le, UInt64.toNat_sub, UInt64.toNat_add] at hmin
      rw [UInt64.lt_iff_toNat_lt, not_lt] at hlt
      have := o1.toNat_lt
      have := l2.toNat_lt
      refine ⟨hl1, hlt, ?_⟩
      rcases Nat.lt_or_ge o2.toNat o1.toNat with hlt' | hge
      · have := habove hlt'
        omega
      · have := hbelow hge
        omega

/-! ## `RegionAllocator` as a set of intervals -/

/-- `ralloc_region_t`. -/
structure RallocRegion where
  base : UInt64
  size : UInt64
  deriving DecidableEq, Repr

namespace RallocRegion

/-- The bytes of a region, `[base, base + size)` as numbers. -/
def Contains (r : RallocRegion) (x : ℕ) : Prop :=
  r.base.toNat ≤ x ∧ x < r.base.toNat + r.size.toNat

instance (r : RallocRegion) (x : ℕ) : Decidable (r.Contains x) :=
  inferInstanceAs (Decidable (_ ∧ _))

/-- Two regions share a byte. -/
def overlaps (r s : RallocRegion) : Bool :=
  decide (max r.base.toNat s.base.toNat < min (r.base.toNat + r.size.toNat) (s.base.toNat + s.size.toNat))

/-- Every byte of `r` is a byte of `s`. -/
def within (r s : RallocRegion) : Bool :=
  decide (s.base.toNat ≤ r.base.toNat ∧ r.base.toNat + r.size.toNat ≤ s.base.toNat + s.size.toNat)

theorem overlaps_iff {r s : RallocRegion} :
    r.overlaps s = true ↔ ∃ x, r.Contains x ∧ s.Contains x := by
  simp only [overlaps, decide_eq_true_eq, Contains]
  constructor
  · intro h
    exact ⟨max r.base.toNat s.base.toNat, by omega⟩
  · rintro ⟨x, ⟨h1, h2⟩, h3, h4⟩
    omega

end RallocRegion

/-- A `RegionAllocator`: whether it has a region pool, the regions added to
it, and the regions handed out and not yet returned. -/
structure RegionAllocator where
  hasRegionPool : Bool
  available : List RallocRegion
  allocated : List RallocRegion
  deriving DecidableEq, Repr

namespace RegionAllocator

/-- `RegionAllocator::AddRegion`: the union of the available set with the
region.  Rejecting an overlap under `AllowOverlap::No` is not modelled; the
callers here assert that it does not happen. -/
def addRegion (a : RegionAllocator) (region : RallocRegion) : RegionAllocator :=
  { a with available := region :: a.available }

/-- `RegionAllocator::TestRegionIntersects` against the available set. -/
def testRegionIntersects (a : RegionAllocator) (region : RallocRegion) : Bool :=
  a.available.any region.overlaps

/-- `RegionAllocator::GetRegion` for a specific region: a nonempty region,
without wrap-around, inside one available region and overlapping no
allocated one. -/
def getRegion (a : RegionAllocator) (region : RallocRegion) :
    Except ZxStatus RallocRegion :=
  if region.size = 0 ∨ region.base + region.size < region.base then .error .errInvalidArgs
  else if a.available.any region.within && !a.allocated.any region.overlaps then .ok region
  else .error .errNotFound

theorem getRegion_ok {a : RegionAllocator} {region region' : RallocRegion}
    (h : a.getRegion region = .ok region') : region.size ≠ 0 ∧ region' = region := by
  unfold getRegion at h
  split_ifs at h with hargs
  · cases h
    exact ⟨fun h0 ↦ hargs (Or.inl h0), rfl⟩

end RegionAllocator

/-! ## The root resource filter -/

/-- `RootResourceFilter` of the arm64 build: its MMIO deny list. -/
structure RootResourceFilter where
  mmioDeny : RegionAllocator
  deriving DecidableEq, Repr

namespace RootResourceFilter

/-- `RootResourceFilter::AddDenyRegion`: MMIO regions are rounded out to pages
first; other kinds are accepted and not enforced. -/
def addDenyRegion (f : RootResourceFilter) (base size : UInt64) (kind : UInt32) : RootResourceFilter :=
  if kind = zxRsrcKindMmio then
    let alignedBase := roundDownPageSize base
    let alignedSize := roundUpPageSize ((base - alignedBase) + size)
    ⟨f.mmioDeny.addRegion ⟨alignedBase, alignedSize⟩⟩
  else f

/-- `RootResourceFilter::Finalize`.  `normalizedRam` are the ranges
`NormalizeRanges` hands to `add_region` under `filter_for_ram`, and `nvram` the
handoff's NVRAM range; neither is rounded to pages. -/
def finalize (f : RootResourceFilter) (normalizedRam : List RallocRegion)
    (nvram : Option RallocRegion) : RootResourceFilter :=
  let f : RootResourceFilter := ⟨normalizedRam.foldl RegionAllocator.addRegion f.mmioDeny⟩
  match nvram with
  | some range => ⟨f.mmioDeny.addRegion range⟩
  | none => f

/-- `RootResourceFilter::IsRegionAllowed`. -/
def isRegionAllowed (f : RootResourceFilter) (base size : UInt64) (kind : UInt32) : Bool :=
  if kind = zxRsrcKindMmio then !f.mmioDeny.testRegionIntersects ⟨base, size⟩ else true

/-- The filter denies byte `x` of the MMIO space. -/
def Denies (f : RootResourceFilter) (x : ℕ) : Prop :=
  ∃ d ∈ f.mmioDeny.available, d.Contains x

/-- Every deny region starts and ends on a page boundary. -/
def PageAligned (f : RootResourceFilter) : Prop :=
  ∀ d ∈ f.mmioDeny.available, d.base.toNat % 4096 = 0 ∧ (d.base.toNat + d.size.toNat) % 4096 = 0

theorem isRegionAllowed_mmio {f : RootResourceFilter} {base size : UInt64}
    (h : f.isRegionAllowed base size zxRsrcKindMmio = true) {x : ℕ}
    (hx : (⟨base, size⟩ : RallocRegion).Contains x) : ¬ f.Denies x := by
  rintro ⟨d, hd, hdx⟩
  simp only [isRegionAllowed, if_true, RegionAllocator.testRegionIntersects, Bool.not_eq_true',
    List.any_eq_false] at h
  exact h d hd (RallocRegion.overlaps_iff.mpr ⟨x, hx, hdx⟩)

end RootResourceFilter

/-- `root_resource_filter_can_access_region` on the global filter `f`. -/
def rootResourceFilterCanAccessRegion (f : RootResourceFilter) (base size : UInt64)
    (kind : UInt32) : Bool :=
  f.isRegionAllowed base size kind

/-! ## Resource dispatchers -/

/-- A `ResourceDispatcher`: its kind, range and flags.  Its name is left out;
nothing modelled here reads it. -/
structure ResourceDispatcher where
  kind : UInt32
  base : UInt64
  size : UInt64
  flags : UInt32
  deriving DecidableEq, Repr

namespace ResourceDispatcher

/-- `ResourceDispatcher::IsRangedRoot`. -/
def isRangedRoot (r : ResourceDispatcher) (kind : UInt32) : Bool :=
  if r.kind = zxRsrcKindRoot then false else r.kind = kind && r.base = 0 && r.size = 0

/-- The range `validate_ranged_resource` checks requests against: for MMIO the
resource's range rounded out to pages. -/
def checkedRange (r : ResourceDispatcher) : UInt64 × UInt64 :=
  if r.kind = zxRsrcKindMmio then
    let alignedRbase := roundDownPageSize r.base
    (alignedRbase, roundUpPageSize ((r.base - alignedRbase) + r.size))
  else (r.base, r.size)

/-- Byte `x` lies in the range requests are checked against. -/
def InChecked (r : ResourceDispatcher) (x : ℕ) : Prop :=
  r.checkedRange.1.toNat ≤ x ∧ x < r.checkedRange.1.toNat + r.checkedRange.2.toNat

variable {r : ResourceDispatcher}

theorem checkedRange_toNat (h : r.kind = zxRsrcKindMmio) (hfit : r.base.toNat + r.size.toNat < 2 ^ 64) :
    r.checkedRange.1.toNat = r.base.toNat / 4096 * 4096 ∧
      (r.checkedRange.2.toNat =
          (r.base.toNat + r.size.toNat + 4095) / 4096 * 4096 - r.base.toNat / 4096 * 4096 ∨
        r.checkedRange.2.toNat = 0) := by
  have hle : roundDownPageSize r.base ≤ r.base := by
    rw [UInt64.le_iff_toNat_le, roundDownPageSize_toNat]
    omega
  simp only [checkedRange, if_pos h]
  rw [roundDownPageSize_toNat, roundUpPageSize_toNat, UInt64.toNat_add,
    UInt64.toNat_sub_of_le _ _ hle, roundDownPageSize_toNat]
  refine ⟨rfl, ?_⟩
  omega

theorem inChecked_bounds (h : r.kind = zxRsrcKindMmio) (hfit : r.base.toNat + r.size.toNat < 2 ^ 64)
    {x : ℕ} (hx : r.InChecked x) :
    r.base.toNat / 4096 * 4096 ≤ x ∧ x < (r.base.toNat + r.size.toNat + 4095) / 4096 * 4096 := by
  obtain ⟨hlo, hsize⟩ := checkedRange_toNat h hfit
  unfold InChecked at hx
  omega

theorem checkedRange_pageAligned (h : r.kind = zxRsrcKindMmio)
    (hfit : r.base.toNat + r.size.toNat < 2 ^ 64) :
    r.checkedRange.1.toNat % 4096 = 0 ∧ (r.checkedRange.1.toNat + r.checkedRange.2.toNat) % 4096 = 0 := by
  obtain ⟨hlo, hsize⟩ := checkedRange_toNat h hfit
  omega

end ResourceDispatcher

/-- `ResourceDispatcher::ResourceStorage`: the list of live resources, in
creation order, and one allocator per kind. -/
structure ResourceStorage where
  resourceList : List ResourceDispatcher
  rallocs : List RegionAllocator
  deriving DecidableEq, Repr

/-- `validate_ranged_resource`, as built without debug assertions.  Its
`ZX_DEBUG_ASSERT` that the checked range is allowed by the filter is
`checkedRange_allowed` below. -/
def validateRangedResource (f : RootResourceFilter) (resource : ResourceDispatcher) (kind : UInt32)
    (base size : UInt64) : ZxStatus :=
  if resource.kind = zxRsrcKindRoot ∨ resource.isRangedRoot kind then
    if !rootResourceFilterCanAccessRegion f base size kind then .errAccessDenied else .ok
  else if resource.kind ≠ kind then .errWrongType
  else
    let (rbase, rsize) := resource.checkedRange
    match getIntersect base size rbase rsize with
    | some (ibase, isize) => if isize ≠ size ∨ ibase ≠ base then .errOutOfRange else .ok
    | none => .errOutOfRange

/-- The condition of the debug assertion in `validate_ranged_resource`: the
filter allows the whole checked range of a resource. -/
def checkedRangeAllowed (f : RootResourceFilter) (resource : ResourceDispatcher) (kind : UInt32) :
    Bool :=
  rootResourceFilterCanAccessRegion f resource.checkedRange.1 resource.checkedRange.2 kind

section Validate

variable {f : RootResourceFilter} {r : ResourceDispatcher} {kind : UInt32} {base size : UInt64}

theorem validateRangedResource_ok_of_root (hroot : r.kind = zxRsrcKindRoot ∨ r.isRangedRoot kind = true)
    (h : validateRangedResource f r kind base size = .ok) :
    rootResourceFilterCanAccessRegion f base size kind = true := by
  unfold validateRangedResource at h
  rw [if_pos hroot] at h
  split_ifs at h with hallow
  simpa using hallow

theorem validateRangedResource_ok_within (hroot : r.kind ≠ zxRsrcKindRoot)
    (hranged : r.isRangedRoot kind = false) (h : validateRangedResource f r kind base size = .ok) :
    r.kind = kind ∧ size ≠ 0 ∧
      ∀ x, base.toNat ≤ x → x < base.toNat + size.toNat → r.InChecked x := by
  unfold validateRangedResource at h
  rw [if_neg (by simp [hroot, hranged])] at h
  split_ifs at h with hkind
  rcases hchecked : r.checkedRange with ⟨rbase, rsize⟩
  simp only [hchecked] at h
  split at h
  · rename_i ibase isize hget
    split_ifs at h with hne
    simp only [not_or, not_not] at hne
    rw [hne.1, hne.2] at hget
    obtain ⟨hsize, hlo, hhi⟩ := getIntersect_eq_self hget
    refine ⟨not_not.mp hkind, hsize, fun x hx1 hx2 ↦ ?_⟩
    simp only [ResourceDispatcher.InChecked, hchecked]
    omega
  · cases h

end Validate

namespace ResourceStorage

/-- The `switch (kind)` of `ResourceDispatcher::Create`: no region for the root
resource, otherwise the requested region out of the kind's allocator. -/
def createRegion (storage : ResourceStorage) (kind : UInt32) (base size : UInt64) :
    Except ZxStatus (Option RallocRegion) :=
  if kind = zxRsrcKindRoot then
    if base ≠ 0 ∨ size ≠ 0 then .error .errInvalidArgs else pure none
  else
    let ralloc := storage.rallocs.getD kind.toNat ⟨false, [], []⟩
    if !ralloc.hasRegionPool then .error .errBadState
    else (ralloc.getRegion ⟨base, size⟩).map some

/-- The allocators after `Create`: an exclusive resource keeps its region out
of its kind's allocator, a shared one gives it back. -/
def keepRegion (storage : ResourceStorage) (kind flags : UInt32) :
    Option RallocRegion → List RegionAllocator
  | some region =>
    if (flags &&& zxRsrcFlagExclusive) != 0 then
      let ralloc := storage.rallocs.getD kind.toNat ⟨false, [], []⟩
      storage.rallocs.set kind.toNat { ralloc with allocated := region :: ralloc.allocated }
    else storage.rallocs
  | none => storage.rallocs

/-- `ResourceDispatcher::Create`: the new resource, pushed to the back of the
list by its constructor, and the storage after the call. -/
def create (storage : ResourceStorage) (kind : UInt32) (base size : UInt64) (flags : UInt32) :
    Except ZxStatus (ResourceDispatcher × ResourceStorage) :=
  if kind ≥ zxRsrcKindCount ∨ (flags &&& zxRsrcFlagsMask) ≠ flags then .error .errInvalidArgs
  else do
    let region ← storage.createRegion kind base size
    if (flags &&& zxRsrcFlagExclusive) != 0 && storage.resourceList.any
        (fun rsrc ↦ rsrc.kind = kind && intersects base size rsrc.base rsrc.size) then
      .error .errNotFound
    else
      let resource : ResourceDispatcher := ⟨kind, base, size, flags⟩
      pure (resource, ⟨storage.resourceList ++ [resource], storage.keepRegion kind flags region⟩)

theorem create_ok {storage storage' : ResourceStorage} {kind : UInt32} {base size : UInt64}
    {flags : UInt32} {child : ResourceDispatcher}
    (h : storage.create kind base size flags = .ok (child, storage')) :
    child = ⟨kind, base, size, flags⟩ ∧ storage'.resourceList = storage.resourceList ++ [child] ∧
      (kind ≠ zxRsrcKindRoot → size ≠ 0) := by
  unfold create at h
  split at h
  · cases h
  obtain ⟨region, hregion, hrest⟩ := bind_eq_ok.mp h
  split at hrest
  · cases hrest
  obtain ⟨rfl, rfl⟩ := Prod.mk.inj (pure_eq_ok.mp hrest).symm
  refine ⟨rfl, rfl, fun hkind ↦ ?_⟩
  unfold createRegion at hregion
  rw [if_neg hkind] at hregion
  dsimp only at hregion
  generalize storage.rallocs.getD kind.toNat ⟨false, [], []⟩ = ralloc at hregion
  split at hregion
  · cases hregion
  cases hget : ralloc.getRegion ⟨base, size⟩ with
  | error e =>
    rw [hget] at hregion
    cases hregion
  | ok region' => exact (RegionAllocator.getRegion_ok hget).1

end ResourceStorage

/-- `sys_resource_create` on a parent resource the caller holds with
`ZX_RIGHT_WRITE`.  The name copy and the handle are left out. -/
def sysResourceCreate (f : RootResourceFilter) (storage : ResourceStorage)
    (parent : ResourceDispatcher) (options : UInt32) (base size : UInt64) :
    Except ZxStatus (ResourceDispatcher × ResourceStorage) :=
  if base + size < base then .error .errInvalidArgs
  else
    let kind := zxRsrcExtractKind options
    let flags := zxRsrcExtractFlags options
    if kind ≥ zxRsrcKindCount ∨ (flags &&& ~~~zxRsrcFlagsMask) ≠ 0 then .error .errInvalidArgs
    else if validateRangedResource f parent kind base size ≠ .ok then .error .errAccessDenied
    else if parent.kind ≠ zxRsrcKindRoot ∧ !parent.isRangedRoot kind ∧
        ((parent.flags &&& zxRsrcFlagExclusive) ≠ 0 ∨ (flags &&& zxRsrcFlagExclusive) ≠ 0) then
      .error .errInvalidArgs
    else storage.create kind base size flags

theorem sysResourceCreate_ok {f : RootResourceFilter} {storage storage' : ResourceStorage}
    {parent child : ResourceDispatcher} {options : UInt32} {base size : UInt64}
    (h : sysResourceCreate f storage parent options base size = .ok (child, storage')) :
    child.base = base ∧ child.size = size ∧ base.toNat + size.toNat < 2 ^ 64 ∧
      validateRangedResource f parent child.kind base size = .ok ∧
      storage'.resourceList = storage.resourceList ++ [child] ∧
      (child.kind ≠ zxRsrcKindRoot → size ≠ 0) := by
  unfold sysResourceCreate at h
  split at h
  · cases h
  rename_i hwrap
  dsimp only at h
  split at h
  · cases h
  split at h
  · cases h
  rename_i hval
  split at h
  · cases h
  obtain ⟨rfl, hlist, hsize⟩ := ResourceStorage.create_ok h
  rw [UInt64.lt_iff_toNat_lt, UInt64.toNat_add] at hwrap
  have := base.toNat_lt
  have := size.toNat_lt
  exact ⟨rfl, rfl, by omega, not_not.mp hval, hlist, hsize⟩

/-! ## Resources reachable from boot -/

/-- The root resource, made by `ResourceDispatcher::Create` at boot. -/
def rootResource : ResourceDispatcher := ⟨zxRsrcKindRoot, 0, 0, 0⟩

/-- The MMIO ranged root, made by `ResourceDispatcher::CreateRangedRoot`. -/
def mmioRangedRoot : ResourceDispatcher := ⟨zxRsrcKindMmio, 0, 0, 0⟩

/-- The storage once boot has run `InitializeAllocator(ZX_RSRC_KIND_MMIO, 0,
UINT64_MAX)` and made the root resource and the MMIO ranged root.  The
allocators of the other kinds are left empty. -/
def bootStorage : ResourceStorage :=
  ⟨[rootResource, mmioRangedRoot],
    ⟨true, [⟨0, 0xFFFFFFFFFFFFFFFF⟩], []⟩ :: List.replicate 5 ⟨false, [], []⟩⟩

/-- One successful `sys_resource_create` call on a live parent. -/
inductive CreateStep (f : RootResourceFilter) : ResourceStorage → ResourceStorage → Prop
  | mk {storage storage' : ResourceStorage} {parent child : ResourceDispatcher} {options : UInt32}
      {base size : UInt64} :
      parent ∈ storage.resourceList →
      sysResourceCreate f storage parent options base size = .ok (child, storage') →
      CreateStep f storage storage'

/-- The storages some sequence of `sys_resource_create` calls reaches from boot. -/
def Reachable (f : RootResourceFilter) (storage : ResourceStorage) : Prop :=
  Relation.ReflTransGen (CreateStep f) bootStorage storage

/-! ## What every lineage keeps

Every resource keeps a range without wrap-around, so a resource other than a
root validates only requests inside its range rounded out to pages.  If every
deny region is page-aligned, the checked range of every MMIO resource avoids
the deny list, and so does every range any resource validates. -/

section Lineage

variable {f : RootResourceFilter}

/-- No resource's range wraps around the top of the address space. -/
def RangesFit (storage : ResourceStorage) : Prop :=
  ∀ r ∈ storage.resourceList, r.base.toNat + r.size.toNat < 2 ^ 64

theorem rangesFit_of_reachable {s : ResourceStorage} (hs : Reachable f s) : RangesFit s := by
  induction hs with
  | refl =>
    intro r hr
    simp only [bootStorage, List.mem_cons, List.not_mem_nil, or_false] at hr
    rcases hr with rfl | rfl <;> decide
  | tail _ hstep ih =>
    obtain ⟨-, hcall⟩ := hstep
    obtain ⟨hbase, hsize, hfit, -, hlist, -⟩ := sysResourceCreate_ok hcall
    intro r hr
    rw [hlist, List.mem_append, List.mem_singleton] at hr
    rcases hr with hr | rfl
    · exact ih r hr
    · rw [hbase, hsize]
      exact hfit

/-- The filter denies no byte of the checked range of any MMIO resource other
than the ranged root. -/
def CheckedRangesAllowed (f : RootResourceFilter) (storage : ResourceStorage) : Prop :=
  ∀ r ∈ storage.resourceList, r.kind = zxRsrcKindMmio → r.isRangedRoot zxRsrcKindMmio = false →
    ∀ x, r.InChecked x → ¬ f.Denies x

theorem denies_of_pages (hf : f.PageAligned) (b e : ℕ) (hbe : b < e) {x : ℕ}
    (hx : b / 4096 * 4096 ≤ x ∧ x < (e + 4095) / 4096 * 4096) (hden : f.Denies x) :
    ∃ y, b ≤ y ∧ y < e ∧ f.Denies y := by
  obtain ⟨d, hd, hdx⟩ := hden
  obtain ⟨hlo, hhi⟩ := hf d hd
  unfold RallocRegion.Contains at hdx
  refine ⟨max b d.base.toNat, by omega, by omega, d, hd, ?_⟩
  unfold RallocRegion.Contains
  omega

theorem checkedRangesAllowed_boot : CheckedRangesAllowed f bootStorage := by
  intro r hr hmmio hranged
  simp only [bootStorage, List.mem_cons, List.not_mem_nil, or_false] at hr
  rcases hr with rfl | rfl
  · exact absurd hmmio (by decide)
  · exact absurd hranged (by decide)

/-- One `sys_resource_create` call keeps `CheckedRangesAllowed`: a child of a
root lies in what the filter allowed, rounded out to the aligned deny
regions' pages; any other child lies in its parent's checked range. -/
theorem checkedRangesAllowed_createStep (hf : f.PageAligned) {s s' : ResourceStorage}
    (hfit : RangesFit s) (hs : CheckedRangesAllowed f s) (hstep : CreateStep f s s') :
    CheckedRangesAllowed f s' := by
  obtain ⟨hparent, hcall⟩ := hstep
  rename_i parent child options base size
  obtain ⟨hbase, hsize, hfitc, hval, hlist, hnonempty⟩ := sysResourceCreate_ok hcall
  intro r hr hmmio hranged
  rw [hlist, List.mem_append, List.mem_singleton] at hr
  rcases hr with hr | rfl
  · exact hs r hr hmmio hranged
  intro x hx hden
  have hbounds := ResourceDispatcher.inChecked_bounds hmmio (by rw [hbase, hsize]; exact hfitc) hx
  rw [hbase, hsize] at hbounds
  have hpos : 0 < size.toNat := Nat.pos_of_ne_zero fun h0 ↦
    hnonempty (by rw [hmmio]; decide) (UInt64.toNat_inj.mp (by rw [h0, UInt64.toNat_zero]))
  rw [hmmio] at hval
  by_cases hroot : parent.kind = zxRsrcKindRoot ∨ parent.isRangedRoot zxRsrcKindMmio = true
  · -- the filter allowed the request itself
    have hallow := validateRangedResource_ok_of_root hroot hval
    obtain ⟨y, hy1, hy2, hdeny⟩ :=
      denies_of_pages hf base.toNat (base.toNat + size.toNat) (by omega) hbounds hden
    exact RootResourceFilter.isRegionAllowed_mmio hallow ⟨hy1, hy2⟩ hdeny
  · -- the request lies in the parent's checked range, which is page-aligned
    simp only [not_or, Bool.not_eq_true] at hroot
    obtain ⟨hkind, -, hwithin⟩ := validateRangedResource_ok_within hroot.1 hroot.2 hval
    have hpfit := hfit parent hparent
    apply hs parent hparent hkind hroot.2 x _ hden
    have hfirst : parent.InChecked base.toNat := hwithin _ le_rfl (by omega)
    have hlast : parent.InChecked (base.toNat + size.toNat - 1) := hwithin _ (by omega) (by omega)
    obtain ⟨hplo, hphi⟩ := ResourceDispatcher.checkedRange_pageAligned hkind hpfit
    unfold ResourceDispatcher.InChecked at hfirst hlast ⊢
    omega

theorem checkedRangesAllowed_of_reachable (hf : f.PageAligned) {s : ResourceStorage}
    (hs : Reachable f s) : CheckedRangesAllowed f s := by
  induction hs with
  | refl => exact checkedRangesAllowed_boot
  | tail hreach hstep ih =>
    exact checkedRangesAllowed_createStep hf (rangesFit_of_reachable hreach) ih hstep

/-- With a page-aligned deny list, no resource reachable from boot validates an
MMIO range that meets it. -/
theorem validateRangedResource_avoids_pageAligned_deny (hf : f.PageAligned) {s : ResourceStorage}
    (hs : Reachable f s) {r : ResourceDispatcher} (hr : r ∈ s.resourceList) {base size : UInt64}
    (h : validateRangedResource f r zxRsrcKindMmio base size = .ok) {x : ℕ}
    (hx : (⟨base, size⟩ : RallocRegion).Contains x) : ¬ f.Denies x := by
  by_cases hroot : r.kind = zxRsrcKindRoot ∨ r.isRangedRoot zxRsrcKindMmio = true
  · exact RootResourceFilter.isRegionAllowed_mmio (validateRangedResource_ok_of_root hroot h) hx
  · simp only [not_or, Bool.not_eq_true] at hroot
    obtain ⟨hkind, -, hwithin⟩ := validateRangedResource_ok_within hroot.1 hroot.2 h
    exact checkedRangesAllowed_of_reachable hf hs r hr hkind hroot.2 x (hwithin x hx.1 hx.2)

/-- The filter after `Finalize` for a handoff whose only RAM range is the page
`[0x2000, 0x3000)`. -/
def alignedRamFilter : RootResourceFilter :=
  (⟨⟨false, [], []⟩⟩ : RootResourceFilter).finalize [⟨0x2000, 0x1000⟩] none

/-- An MMIO resource minted from the root for the page below that RAM. -/
def belowAlignedRam : ResourceDispatcher := ⟨zxRsrcKindMmio, 0x1000, 0x1000, 0⟩

theorem validateRangedResource_avoids_pageAligned_deny_belowAlignedRam :
    alignedRamFilter.PageAligned ∧
      Reachable alignedRamFilter ⟨bootStorage.resourceList ++ [belowAlignedRam], bootStorage.rallocs⟩ ∧
      validateRangedResource alignedRamFilter belowAlignedRam zxRsrcKindMmio 0x1000 0x1000 = .ok ∧
      ¬ alignedRamFilter.Denies 0x1800 := by
  have hcreate : sysResourceCreate alignedRamFilter bootStorage rootResource zxRsrcKindMmio
      0x1000 0x1000 = .ok (belowAlignedRam, ⟨bootStorage.resourceList ++ [belowAlignedRam], bootStorage.rallocs⟩) := by
    decide
  have hreach : Reachable alignedRamFilter ⟨bootStorage.resourceList ++ [belowAlignedRam], bootStorage.rallocs⟩ :=
    .single (.mk (by decide) hcreate)
  have hval : validateRangedResource alignedRamFilter belowAlignedRam zxRsrcKindMmio 0x1000 0x1000 = .ok := by
    decide
  have haligned : alignedRamFilter.PageAligned := by
    unfold RootResourceFilter.PageAligned
    decide
  exact ⟨haligned, hreach, hval,
    validateRangedResource_avoids_pageAligned_deny haligned hreach (by simp) hval (by decide)⟩

end Lineage

/-! ## A RAM range that starts inside a page -/

/-- The filter after `Finalize` for a handoff whose only RAM range is
`[0x1800, 0x3000)`. -/
def unalignedRamFilter : RootResourceFilter :=
  (⟨⟨false, [], []⟩⟩ : RootResourceFilter).finalize [⟨0x1800, 0x1800⟩] none

/-- An MMIO resource minted from the root for `[0x1000, 0x1800)`, just below
the RAM. -/
def belowRam : ResourceDispatcher := ⟨zxRsrcKindMmio, 0x1000, 0x800, 0⟩

def afterBelowRam : ResourceStorage := ⟨bootStorage.resourceList ++ [belowRam], bootStorage.rallocs⟩

/-- The root mints `belowRam`, and `belowRam` then validates `[0x1000, 0x2000)`,
whose upper half is RAM the filter denies.  The debug assertion of
`validate_ranged_resource` fails there. -/
theorem validateRangedResource_belowRam_overlapsRam :
    Reachable unalignedRamFilter afterBelowRam ∧ belowRam ∈ afterBelowRam.resourceList ∧
      validateRangedResource unalignedRamFilter belowRam zxRsrcKindMmio 0x1000 0x1000 = .ok ∧
      (⟨0x1800, 0x1800⟩ : RallocRegion) ∈ unalignedRamFilter.mmioDeny.available ∧
      (⟨0x1000, 0x1000⟩ : RallocRegion).overlaps ⟨0x1800, 0x1800⟩ = true ∧
      checkedRangeAllowed unalignedRamFilter belowRam zxRsrcKindMmio = false := by
  have hcreate : sysResourceCreate unalignedRamFilter bootStorage rootResource zxRsrcKindMmio
      0x1000 0x800 = .ok (belowRam, afterBelowRam) := by
    decide
  refine ⟨.single (.mk (by decide) hcreate), ?_⟩
  decide

end Zircon.Object
