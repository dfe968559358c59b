import Zircon.Lib.RangeSearch
import Zircon.Types

/-!
# The bitmap of `VirtualAlloc`

`VirtualAlloc` records its allocated pages in a `bitmap::RawBitmapGeneric`,
whose source is not part of this tree; it is modelled by the interface the
allocator uses.  A bitmap has a `size` (a `size_t`) and a bit for every index.
`Set` and `Clear` give a range one value, and leave the bitmap as it was when
the range is reversed or runs past the end.  `Scan` returns the first bit of a
range that differs from a value (or reports that there is none), `ReverseScan`
the last one, and `Find` the first run of a given length of bits equal to a
value inside a range.

`RunIs b v s n` says that the `n` bits from `s` on are all `v`; the lemmas
below state each operation in its terms.
-/

namespace Zircon.VirtualAllocator

open Zircon.Lib

/-- A bitmap of `size` bits, bit `i` at `bits i`. -/
@[ext]
structure RawBitmap where
  size : UInt64
  bits : ℕ → Bool

namespace RawBitmap

/-- `Reset(size)`: `size` clear bits. -/
def reset (size : UInt64) : RawBitmap := ⟨size, fun _ ↦ false⟩

/-- The bits of `[bitoff, bitmax)` given the value `v`; a reversed range or one
past the end is refused. -/
def fill (b : RawBitmap) (bitoff bitmax : UInt64) (v : Bool) : RawBitmap :=
  if bitoff > bitmax ∨ bitmax > b.size then b
  else ⟨b.size, fun i ↦ if bitoff.toNat ≤ i ∧ i < bitmax.toNat then v else b.bits i⟩

/-- `Set(bitoff, bitmax)`. -/
def set (b : RawBitmap) (bitoff bitmax : UInt64) : RawBitmap := b.fill bitoff bitmax true

/-- `Clear(bitoff, bitmax)`. -/
def clear (b : RawBitmap) (bitoff bitmax : UInt64) : RawBitmap := b.fill bitoff bitmax false

/-- `Scan(bitoff, bitmax, is_set, &out)`: `none` where it returns true, every bit
of the range being `isSet`, and otherwise the first bit that is not. -/
def scan (b : RawBitmap) (bitoff bitmax : UInt64) (isSet : Bool) : Option UInt64 :=
  (firstIn (fun i ↦ b.bits i != isSet) bitoff.toNat (bitmax.toNat - bitoff.toNat)).map UInt64.ofNat

/-- `ReverseScan(bitoff, bitmax, is_set, &out)`: as `Scan`, with the last bit
that is not `isSet`. -/
def reverseScan (b : RawBitmap) (bitoff bitmax : UInt64) (isSet : Bool) : Option UInt64 :=
  (lastIn (fun i ↦ b.bits i != isSet) bitoff.toNat (bitmax.toNat - bitoff.toNat)).map UInt64.ofNat

/-- `Find(is_set, bitoff, bitmax, run_len, &out)`: the first run of `run_len`
bits equal to `isSet` inside `[bitoff, bitmax)`. -/
def find (b : RawBitmap) (isSet : Bool) (bitoff bitmax runLen : UInt64) : Except ZxStatus UInt64 :=
  if bitmax ≤ bitoff then .error .errInvalidArgs
  else
    match firstIn (fun s ↦ (firstIn (fun i ↦ b.bits i != isSet) s runLen.toNat).isNone) bitoff.toNat
        (bitmax.toNat + 1 - (bitoff.toNat + runLen.toNat)) with
    | some s => .ok (UInt64.ofNat s)
    | none => .error .errNoResources

/-- The `n` bits from `s` on are all `v`. -/
def RunIs (b : RawBitmap) (v : Bool) (s n : ℕ) : Prop := ∀ i, s ≤ i → i < s + n → b.bits i = v

variable {b : RawBitmap} {bitoff bitmax runLen x : UInt64} {v : Bool} {s n : ℕ}

/-! ### `Set` and `Clear` -/

theorem size_fill : (b.fill bitoff bitmax v).size = b.size := by
  unfold fill
  split_ifs <;> rfl

theorem bits_fill (hle : bitoff ≤ bitmax) (hsize : bitmax ≤ b.size) (i : ℕ) :
    (b.fill bitoff bitmax v).bits i =
      if bitoff.toNat ≤ i ∧ i < bitmax.toNat then v else b.bits i := by
  rw [fill, if_neg (by rw [not_or, UInt64.not_lt, UInt64.not_lt]; exact ⟨hle, hsize⟩)]

theorem fill_fill_of_runIs (hle : bitoff ≤ bitmax) (hsize : bitmax ≤ b.size)
    (hrun : b.RunIs v bitoff.toNat (bitmax.toNat - bitoff.toNat)) (w : Bool) :
    (b.fill bitoff bitmax w).fill bitoff bitmax v = b := by
  have hsize' : bitmax ≤ (b.fill bitoff bitmax w).size := by rw [size_fill]; exact hsize
  have hle' := UInt64.le_iff_toNat_le.mp hle
  ext i
  · rw [size_fill, size_fill]
  · rw [bits_fill hle hsize', bits_fill hle hsize]
    split_ifs with h
    · exact (hrun i h.1 (by omega)).symm
    · rfl

/-! ### `Scan` and `ReverseScan` -/

theorem runIs_iff_firstIn :
    (firstIn (fun i ↦ b.bits i != v) s n).isNone ↔ b.RunIs v s n := by
  rw [Option.isNone_iff_eq_none, firstIn_eq_none_iff]
  refine forall_congr' fun i ↦ forall_congr' fun _ ↦ forall_congr' fun _ ↦ ?_
  rw [bne_eq_false_iff_eq]

theorem scan_eq_none_iff : b.scan bitoff bitmax v = none ↔
    b.RunIs v bitoff.toNat (bitmax.toNat - bitoff.toNat) := by
  rw [scan, Option.map_eq_none_iff, ← Option.isNone_iff_eq_none, runIs_iff_firstIn]

theorem scan_eq_some (h : b.scan bitoff bitmax v = some x) :
    bitoff.toNat ≤ x.toNat ∧ x.toNat < bitmax.toNat ∧ b.bits x.toNat ≠ v ∧
      b.RunIs v bitoff.toNat (x.toNat - bitoff.toNat) := by
  rw [scan, Option.map_eq_some_iff] at h
  obtain ⟨i, hi, rfl⟩ := h
  obtain ⟨h₁, h₂, hdiff, hbefore⟩ := firstIn_eq_some_iff.mp hi
  have hlt : i < 2 ^ 64 := by have := UInt64.toNat_lt bitmax; omega
  rw [UInt64.toNat_ofNat', Nat.mod_eq_of_lt hlt]
  refine ⟨h₁, by omega, by simpa using hdiff, fun j hj₁ hj₂ ↦ ?_⟩
  simpa using hbefore j hj₁ (by omega)

theorem reverseScan_eq_some (h : b.reverseScan bitoff bitmax v = some x) :
    bitoff.toNat ≤ x.toNat ∧ x.toNat < bitmax.toNat ∧ b.bits x.toNat ≠ v ∧
      ∀ j, x.toNat < j → j < bitmax.toNat → b.bits j = v := by
  rw [reverseScan, Option.map_eq_some_iff] at h
  obtain ⟨i, hi, rfl⟩ := h
  obtain ⟨h₁, h₂, hdiff, hafter⟩ := lastIn_eq_some_iff.mp hi
  have hlt : i < 2 ^ 64 := by have := UInt64.toNat_lt bitmax; omega
  rw [UInt64.toNat_ofNat', Nat.mod_eq_of_lt hlt]
  refine ⟨h₁, by omega, by simpa using hdiff, fun j hj₁ hj₂ ↦ ?_⟩
  simpa using hafter j hj₁ (by omega)

/-! ### `Find` -/

theorem find_eq_ok (h : b.find v bitoff bitmax runLen = .ok x) :
    bitoff.toNat ≤ x.toNat ∧ x.toNat + runLen.toNat ≤ bitmax.toNat ∧ b.RunIs v x.toNat runLen.toNat ∧
      ∀ t, bitoff.toNat ≤ t → t < x.toNat → ¬ b.RunIs v t runLen.toNat := by
  unfold find at h
  split_ifs at h with hrange
  split at h
  · rename_i s hs
    cases h
    obtain ⟨h₁, h₂, hrun, hbefore⟩ := firstIn_eq_some_iff.mp hs
    have hlt : s < 2 ^ 64 := by have := UInt64.toNat_lt bitmax; omega
    rw [UInt64.toNat_ofNat', Nat.mod_eq_of_lt hlt]
    refine ⟨h₁, by omega, runIs_iff_firstIn.mp hrun, fun t ht₁ ht₂ hrunt ↦ ?_⟩
    have := hbefore t ht₁ ht₂
    rw [runIs_iff_firstIn.mpr hrunt] at this
    exact Bool.noConfusion this
  · cases h

theorem find_isError_iff (hrun : 0 < runLen.toNat) :
    (∃ e, b.find v bitoff bitmax runLen = .error e) ↔
      ∀ t, bitoff.toNat ≤ t → t + runLen.toNat ≤ bitmax.toNat → ¬ b.RunIs v t runLen.toNat := by
  unfold find
  split_ifs with hrange
  · -- an empty range holds no run
    rw [UInt64.le_iff_toNat_le] at hrange
    exact ⟨fun _ t h₁ h₂ ↦ absurd h₂ (by omega), fun _ ↦ ⟨_, rfl⟩⟩
  · split
    · rename_i s hs
      obtain ⟨h₁, h₂, hrun', -⟩ := firstIn_eq_some_iff.mp hs
      constructor
      · rintro ⟨_, he⟩
        cases he
      · intro hnone
        exact absurd (runIs_iff_firstIn.mp hrun') (hnone s h₁ (by omega))
    · rename_i hs
      refine ⟨fun _ t h₁ h₂ hrunt ↦ ?_, fun _ ↦ ⟨_, rfl⟩⟩
      have := (firstIn_eq_none_iff.mp hs) t h₁ (by omega)
      rw [runIs_iff_firstIn.mpr hrunt] at this
      exact Bool.noConfusion this

end RawBitmap

end Zircon.VirtualAllocator
