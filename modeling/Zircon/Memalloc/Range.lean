import Mathlib

/-!
# Memory ranges of the physical allocator

`memalloc::Range` is a half-open range `[addr, addr + size)` of physical
memory with a type.  The base types are those of the ZBI memory table; the
allocated types are the purposes a phys program hands memory out for, and
each of them is a refinement of free RAM.

The source keeps the type as a `uint64_t` enumeration whose allocated values
start at `2^32`; only the named values are modelled, in the order of their
values, since that order is all that the algorithms read of them.
-/

namespace Zircon.Memalloc

/-- `memalloc::Type`. -/
inductive MemType
  | freeRam
  | peripheral
  | reserved
  | poolBookkeeping
  | physKernel
  | physElf
  | physLog
  | kernel
  | kernelStorage
  | dataZbi
  | temporaryPhysHandoff
  | permanentPhysHandoff
  | vdso
  | userboot
  | bootMachineStack
  | bootShadowCallStack
  | trampolineStagingKernel
  | trampolineStagingDataZbi
  | legacyBootData
  | temporaryIdentityPageTables
  | kernelPageTables
  | physDebugdata
  | devicetreeBlob
  | physScratch
  | poolTestPayload
  | zbiTestPayload
  | testRamReserve
  | nvram
  | reservedLow
  | truncatedRam
  deriving DecidableEq, Repr

namespace MemType

/-- The allocated types, in increasing order of their values
(`kMinAllocatedTypeValue` up to `kMaxAllocatedTypeValue`). -/
def allocatedTypes : List MemType :=
  [poolBookkeeping, physKernel, physElf, physLog, kernel, kernelStorage, dataZbi,
    temporaryPhysHandoff, permanentPhysHandoff, vdso, userboot, bootMachineStack,
    bootShadowCallStack, trampolineStagingKernel, trampolineStagingDataZbi, legacyBootData,
    temporaryIdentityPageTables, kernelPageTables, physDebugdata, devicetreeBlob, physScratch,
    poolTestPayload, zbiTestPayload, testRamReserve, nvram, reservedLow, truncatedRam]

end MemType

open MemType

/-- `IsAllocatedType`: the value is at least `kMinAllocatedTypeValue`. -/
def isAllocatedType (type : MemType) : Bool :=
  match type with
  | freeRam | peripheral | reserved => false
  | _ => true

/-- `IsRamType`. -/
def isRamType (type : MemType) : Bool :=
  type == freeRam || isAllocatedType type

/-- `memalloc::Range`. -/
structure Range where
  addr : UInt64
  size : UInt64
  type : MemType
  deriving DecidableEq, Repr

namespace Range

/-- `Range::end()`, which wraps around when `addr + size` overflows. -/
def endAddr (r : Range) : UInt64 :=
  r.addr + r.size

/-- `Range::operator<`: the lexicographic order on `(addr, size)`. -/
def lt (r o : Range) : Bool :=
  r.addr < o.addr || (r.addr == o.addr && r.size < o.size)

/-- `Range::IntersectsWith`: the lesser range ends after the greater starts. -/
def intersectsWith (r o : Range) : Bool :=
  if r.lt o then o.addr < r.endAddr else r.addr < o.endAddr

theorem lt_eq_true_iff (a b : Range) :
    a.lt b = true ↔ a.addr.toNat < b.addr.toNat ∨
      a.addr.toNat = b.addr.toNat ∧ a.size.toNat < b.size.toNat := by
  simp [Range.lt, UInt64.lt_iff_toNat_lt, ← UInt64.toNat_inj]

theorem lt_self_eq_false (a : Range) : a.lt a = false := by
  rw [← Bool.not_eq_true, lt_eq_true_iff]
  omega

theorem lt_eq_false_of_lt {a b : Range} (h : a.lt b = true) : b.lt a = false := by
  rw [lt_eq_true_iff] at h
  rw [← Bool.not_eq_true, lt_eq_true_iff]
  omega

theorem lt_eq_false_trans {a b c : Range} (hab : b.lt a = false) (hbc : c.lt b = false) :
    c.lt a = false := by
  rw [← Bool.not_eq_true, lt_eq_true_iff] at hab hbc ⊢
  omega

theorem intersectsWith_eq (a b : Range) :
    a.intersectsWith b =
      if a.lt b then decide (b.addr.toNat < (a.addr.toNat + a.size.toNat) % 2 ^ 64)
      else decide (a.addr.toNat < (b.addr.toNat + b.size.toNat) % 2 ^ 64) := by
  simp only [Range.intersectsWith, Range.endAddr, UInt64.lt_iff_toNat_lt, UInt64.toNat_add]

theorem intersectsWith_comm (a b : Range) : a.intersectsWith b = b.intersectsWith a := by
  rw [intersectsWith_eq, intersectsWith_eq]
  by_cases h₁ : a.lt b = true
  · have h₂ : ¬ b.lt a = true := by
      rw [lt_eq_true_iff] at h₁ ⊢
      omega
    rw [if_pos h₁, if_neg h₂]
  · by_cases h₂ : b.lt a = true
    · rw [if_neg h₁, if_pos h₂]
    · -- neither is below the other: they are the same extent
      rw [if_neg h₁, if_neg h₂]
      rw [lt_eq_true_iff] at h₁ h₂
      have haddr : a.addr.toNat = b.addr.toNat := by omega
      have hsize : a.size.toNat = b.size.toNat := by omega
      rw [haddr, hsize]

end Range

end Zircon.Memalloc
