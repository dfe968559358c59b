import Mathlib
import Zircon.Types
import Zircon.Lib.BitField
import Zircon.Lib.RingBuffer

/-!
# The single-producer, single-consumer ring buffer

`SpscBuffer` (`lib/spsc_buffer/spsc_buffer.h`) is a ring of `storage_.size()`
cells, a power of two, with a read and a write pointer that count cells and
wrap at `2 ^ 32`.  The two pointers are the halves of one 64-bit atomic,
`combined_pointers_`.  The producer `Reserve`s a block, `Write`s into it and
`Commit`s it, which moves the write pointer; the consumer `Read`s, copying out
before it moves the read pointer, or `Drain`s.  Each pointer moves by a
`compare_exchange_weak` loop that keeps the other half as it finds it.

One producer and one consumer run at once.  `System` holds the buffer and the
point each thread has reached in its call, and `System.step` makes one step of
one thread: an atomic load, a compare-exchange, or a copy.  A call for a thread
that is not at the point where that call is its next step leaves everything
alone.  An `ASSERT` or `DEBUG_ASSERT` that fails stops the kernel, and the step
returns `panic`.
-/

namespace Zircon.Spsc

open Zircon.Lib

/-- `SpscBuffer::RingPointers`. -/
structure RingPointers where
  read : UInt32
  write : UInt32
  deriving DecidableEq, Repr

/-- `SpscBuffer::kMaxStorageSize`. -/
def kMaxStorageSize : UInt32 := (1 : UInt32) <<< 31

/-- `ktl::has_single_bit`: the word is a power of two. -/
def hasSingleBit (x : UInt32) : Bool := (List.range 32).any fun k ↦ x.toNat == 2 ^ k

/-- The sizes `Init` accepts. -/
def ValidSize (size : UInt32) : Prop := size ≤ kMaxStorageSize ∧ hasSingleBit size = true

/-- `SplitCombinedPointers`. -/
def splitCombinedPointers (combined : UInt64) : RingPointers :=
  ⟨(combined >>> 32).toUInt32, combined.toUInt32⟩

/-- `CombinePointers`. -/
def combinePointers (pointers : RingPointers) : UInt64 :=
  (pointers.read.toUInt64 <<< 32) ||| pointers.write.toUInt64

/-- `AvailableData`: an unsigned subtraction, right across a wrap of the write
pointer. -/
def availableData (pointers : RingPointers) : UInt32 := pointers.write - pointers.read

/-- An initialized `SpscBuffer`: `storage_`, of a size that `Init` accepted,
and `combined_pointers_`. -/
structure SpscBuffer (α : Type*) where
  size : UInt32
  size_valid : ValidSize size
  storage : ℕ → α
  combinedPointers : UInt64

/-- A `ktl::span` into `storage_`: its offset and its size. -/
structure Region where
  offset : ℕ
  size : ℕ
  deriving DecidableEq, Repr

/-- `SpscBuffer::Reservation`: the pointers loaded by `Reserve`, its two regions
and `write_offset_`; `committed_` is the point the producer has reached. -/
structure Reservation where
  initialRingPointers : RingPointers
  region1 : Region
  region2 : Region
  writeOffset : ℕ
  deriving DecidableEq, Repr

/-- `starting_pointers` and `target_pointers` of a `compare_exchange_weak` loop. -/
structure CasLoop where
  starting : UInt64
  target : UInt64
  deriving DecidableEq, Repr

/-- What one pass of a `compare_exchange_weak` loop leads to. -/
inductive CasResult where
  | stored (combined : UInt64)
  | retry (loop : CasLoop)
  | panic
  deriving DecidableEq, Repr

namespace SpscBuffer

variable {α : Type*}

/-- `Init(size)` on a buffer, `none` while it has no storage; `allocated` is
what `Allocator::Allocate(size)` returns. -/
def init (b : Option (SpscBuffer α)) (size : UInt32) (allocated : Option (ℕ → α)) :
    Except ZxStatus (SpscBuffer α) :=
  if hmax : size > kMaxStorageSize then .error .errInvalidArgs
  else if hbit : hasSingleBit size = false then .error .errInvalidArgs
  else if b.isSome then .error .errBadState
  else
    match allocated with
    | none => .error .errNoMemory
    | some storage => .ok ⟨size, ⟨UInt32.not_lt.mp hmax, by simpa using hbit⟩, storage, 0⟩

/-- `LoadPointers`. -/
def loadPointers (b : SpscBuffer α) : RingPointers := splitCombinedPointers b.combinedPointers

/-- `PointerToOffset`. -/
def pointerToOffset (b : SpscBuffer α) (pointer : UInt32) : UInt32 := pointer &&& (b.size - 1)

/-- `AvailableSpace`. -/
def availableSpace (b : SpscBuffer α) (pointers : RingPointers) : UInt32 :=
  b.size - availableData pointers

/-- The cells of `storage_.subspan(offset, count)`. -/
def subspan (b : SpscBuffer α) (offset count : ℕ) : List α :=
  List.ofFn fun i : Fin count ↦ b.storage (offset + i)

/-- `Reserve(size)`: `none` when the `DEBUG_ASSERT`s of the `Reservation`
constructor fail. -/
def reserve (b : SpscBuffer α) (size : UInt32) : Option (Except ZxStatus Reservation) :=
  if size > b.size then some (.error .errNoSpace)
  else
    let initialState := b.loadPointers
    let availableSpace := b.availableSpace initialState
    if availableSpace < size then some (.error .errNoSpace)
    else
      let writeOffset := b.pointerToOffset initialState.write
      let ringBreakDistance := b.size - writeOffset
      let bytesBeforeBreak := min size ringBreakDistance
      let region1 : Region := ⟨writeOffset.toNat, bytesBeforeBreak.toNat⟩
      let region2 : Region :=
        if bytesBeforeBreak < size then ⟨0, (size - bytesBeforeBreak).toNat⟩ else ⟨0, 0⟩
      if region1.size = 0 ∨ kMaxStorageSize.toNat < region1.size + region2.size then none
      else some (.ok ⟨initialState, region1, region2, 0⟩)

/-- The start of `AdvanceWritePointer(initial, delta)`, before its loop:
`none` when its `DEBUG_ASSERT` fails. -/
def advanceWritePointer (b : SpscBuffer α) (initial : RingPointers) (delta : UInt32) : Option CasLoop :=
  if delta ≤ b.availableSpace initial then
    some ⟨combinePointers initial, combinePointers ⟨initial.read, initial.write + delta⟩⟩
  else none

end SpscBuffer

/-- The start of `AdvanceReadPointer(initial, delta)`, before its loop: `none`
when its `DEBUG_ASSERT` fails. -/
def advanceReadPointer (initial : RingPointers) (delta : UInt32) : Option CasLoop :=
  if delta ≤ availableData initial then
    some ⟨combinePointers initial, combinePointers ⟨initial.read + delta, initial.write⟩⟩
  else none

/-- One pass of the loop of `AdvanceReadPointer` or `AdvanceWritePointer` on
`combined_pointers_`: the compare-exchange stores `target` when the word holds
`starting` and does not fail spuriously.  Otherwise `starting` becomes the word
observed, the half the caller owns must be as it loaded it
(`DEBUG_ASSERT_MSG`), and the new target takes the other half as observed. -/
def advanceStep (owned : RingPointers → UInt32) (retarget : RingPointers → RingPointers)
    (initial : RingPointers) (combined : UInt64) (loop : CasLoop) (spurious : Bool) : CasResult :=
  if !spurious && combined == loop.starting then .stored loop.target
  else
    let observed := splitCombinedPointers combined
    if owned observed ≠ owned initial then .panic
    else .retry ⟨combined, combinePointers (retarget observed)⟩

/-- A pass of the loop of `AdvanceReadPointer(initial, delta)`, whose target
read pointer is `target_read`. -/
def advanceReadPointerStep (initial : RingPointers) (targetRead : UInt32) :
    UInt64 → CasLoop → Bool → CasResult :=
  advanceStep RingPointers.read (fun observed ↦ ⟨targetRead, observed.write⟩) initial

/-- A pass of the loop of `AdvanceWritePointer(initial, delta)`, whose target
write pointer is `target_write`. -/
def advanceWritePointerStep (initial : RingPointers) (targetWrite : UInt32) :
    UInt64 → CasLoop → Bool → CasResult :=
  advanceStep RingPointers.write (fun observed ↦ ⟨observed.read, targetWrite⟩) initial

namespace Reservation

variable {α : Type*}

/-- `Reservation::Write(data)`: the storage with `data` copied in, as much as
fits into region 1 and the rest into region 2, and the reservation with its
`write_offset_` moved on; `none` when an `ASSERT` fails. -/
def write (r : Reservation) (storage : ℕ → α) (data : List α) : Option ((ℕ → α) × Reservation) :=
  let (storage, writeOffset, bytesToCopy, region1CopyAmount) :=
    if r.writeOffset < r.region1.size then
      let region1CopyAmount := min data.length (r.region1.size - r.writeOffset)
      (writeAt storage (r.region1.offset + r.writeOffset) (data.take region1CopyAmount),
        r.writeOffset + region1CopyAmount, data.length - region1CopyAmount, region1CopyAmount)
    else (storage, r.writeOffset, data.length, 0)
  if bytesToCopy = 0 then some (storage, { r with writeOffset })
  else
    let region2Offset := writeOffset - r.region1.size
    if writeOffset < r.region1.size ∨ r.region2.size < region2Offset ∨
        r.region2.size - region2Offset < bytesToCopy then none
    else
      some (writeAt storage (r.region2.offset + region2Offset) (data.drop region1CopyAmount),
        { r with writeOffset := writeOffset + bytesToCopy })

/-- `Commit()`, up to the loop of `AdvanceWritePointer`: the size committed and
the loop's locals; `none` when a `DEBUG_ASSERT` fails. -/
def commit (r : Reservation) (b : SpscBuffer α) : Option (UInt32 × CasLoop) :=
  if r.writeOffset ≠ r.region1.size + r.region2.size then none
  else
    let delta := UInt32.ofNat (r.region1.size + r.region2.size)
    (b.advanceWritePointer r.initialRingPointers delta).map fun loop ↦ (delta, loop)

end Reservation

namespace SpscBuffer

variable {α : Type*}

/-- The first step of `Read(copy_fn, len)`: the pointers loaded,
`amount_to_copy` and the region before the ring break; `none` when there is
nothing to read, and `Read` returns `zx::ok(0)`. -/
def readStart (b : SpscBuffer α) (len : UInt32) : Option (RingPointers × UInt32 × Region) :=
  let initialState := b.loadPointers
  let availableData := availableData initialState
  if availableData = 0 then none
  else
    let amountToCopy := min availableData len
    let readOffset := b.pointerToOffset initialState.read
    let ringBreakDistance := b.size - readOffset
    let bytesBeforeBreak := min amountToCopy ringBreakDistance
    some (initialState, amountToCopy, ⟨readOffset.toNat, bytesBeforeBreak.toNat⟩)

/-- The cells from the pointer `start` on, `count` of them, round the ring. -/
def cellsFrom (b : SpscBuffer α) (start : UInt32) (count : ℕ) : List α :=
  ringRead b.storage b.size.toNat start.toNat count

end SpscBuffer

/-- Where the producer is: between calls, holding a reservation it writes into,
or in the loop of `AdvanceWritePointer` that `Commit` runs. -/
inductive Producer where
  | idle
  | writing (r : Reservation)
  | committing (initial : RingPointers) (delta : UInt32) (loop : CasLoop)
  deriving DecidableEq, Repr

/-- Where the consumer is: between calls; in `Read`, before the copy of the
region before the ring break or of the one after it, holding in `dst` what it
copied; or in the loop of `AdvanceReadPointer`, for a `Read` with its `dst` or
for a `Drain`. -/
inductive Consumer (α : Type*) where
  | idle
  | copyBeforeBreak (initial : RingPointers) (amount : UInt32) (region1 : Region)
  | copyAfterBreak (initial : RingPointers) (amount : UInt32) (bytesBeforeBreak : ℕ) (dst : List α)
  | advancing (initial : RingPointers) (delta : UInt32) (loop : CasLoop) (dst : Option (List α))
  deriving DecidableEq, Repr

/-- A step of one of the two threads, with the outcomes the environment
chooses: the size of a reservation and the bytes written into it, the length
of a read, the status each `copy_fn` call returns, and whether a
`compare_exchange_weak` fails spuriously. -/
inductive SpscCall (α : Type*) where
  | reserve (size : UInt32)
  | write (data : List α)
  | commit
  | producerCas (spurious : Bool)
  | read (len : UInt32)
  | copy (status : ZxStatus)
  | drain
  | consumerCas (spurious : Bool)
  deriving DecidableEq, Repr

/-- What a step returns: `none` for a step inside a call or a call its thread
is not ready for.  A `Read` returns its result and the bytes `copy_fn` put in
`dst`; a `Drain` returns nothing, and `dropped` records the bytes it let go. -/
inductive SpscReturn (α : Type*) where
  | none
  | reserved (result : Except ZxStatus Unit)
  | wrote
  | committed
  | read (result : Except ZxStatus UInt32) (dst : List α)
  | drained (dropped : List α)
  | panic
  deriving DecidableEq, Repr

/-- The buffer and the two threads. -/
structure System (α : Type*) where
  buffer : SpscBuffer α
  producer : Producer
  consumer : Consumer α

namespace System

variable {α : Type*}

/-- The system right after `Init`, both threads between calls. -/
def start (b : SpscBuffer α) : System α := ⟨b, .idle, .idle⟩

/-- The consumer's next step once `Read` has copied `dst`: the start of
`AdvanceReadPointer(initial, amount)`. -/
def advanceAfterCopy (s : System α) (initial : RingPointers) (amount : UInt32) (dst : List α) :
    System α × SpscReturn α :=
  match advanceReadPointer initial amount with
  | none => (s, .panic)
  | some loop => ({ s with consumer := .advancing initial amount loop (some dst) }, .none)

/-- One step of the producer or of the consumer. -/
def step (s : System α) : SpscCall α → System α × SpscReturn α
  | .reserve size =>
    match s.producer with
    | .idle =>
      match s.buffer.reserve size with
      | none => (s, .panic)
      | some (.error e) => (s, .reserved (.error e))
      | some (.ok r) => ({ s with producer := .writing r }, .reserved (.ok ()))
    | _ => (s, .none)
  | .write data =>
    match s.producer with
    | .writing r =>
      match r.write s.buffer.storage data with
      | none => (s, .panic)
      | some (storage, r') => ({ s with buffer := { s.buffer with storage }, producer := .writing r' }, .wrote)
    | _ => (s, .none)
  | .commit =>
    match s.producer with
    | .writing r =>
      match r.commit s.buffer with
      | none => (s, .panic)
      | some (delta, loop) => ({ s with producer := .committing r.initialRingPointers delta loop }, .none)
    | _ => (s, .none)
  | .producerCas spurious =>
    match s.producer with
    | .committing initial delta loop =>
      match advanceWritePointerStep initial (initial.write + delta) s.buffer.combinedPointers loop spurious with
      | .stored combined =>
        ({ s with buffer := { s.buffer with combinedPointers := combined }, producer := .idle }, .committed)
      | .retry loop => ({ s with producer := .committing initial delta loop }, .none)
      | .panic => (s, .panic)
    | _ => (s, .none)
  | .read len =>
    match s.consumer with
    | .idle =>
      match s.buffer.readStart len with
      | none => (s, .read (.ok 0) [])
      | some (initial, amount, region1) => ({ s with consumer := .copyBeforeBreak initial amount region1 }, .none)
    | _ => (s, .none)
  | .copy status =>
    match s.consumer with
    | .copyBeforeBreak initial amount region1 =>
      let dst := s.buffer.subspan region1.offset region1.size
      if status ≠ .ok then ({ s with consumer := .idle }, .read (.error status) dst)
      else if region1.size < amount.toNat then
        ({ s with consumer := .copyAfterBreak initial amount region1.size dst }, .none)
      else s.advanceAfterCopy initial amount dst
    | .copyAfterBreak initial amount bytesBeforeBreak dst =>
      let dst := dst ++ s.buffer.subspan 0 (amount.toNat - bytesBeforeBreak)
      if status ≠ .ok then ({ s with consumer := .idle }, .read (.error status) dst)
      else s.advanceAfterCopy initial amount dst
    | _ => (s, .none)
  | .drain =>
    match s.consumer with
    | .idle =>
      let initialState := s.buffer.loadPointers
      let availableData := availableData initialState
      if availableData = 0 then (s, .drained [])
      else
        match advanceReadPointer initialState availableData with
        | none => (s, .panic)
        | some loop => ({ s with consumer := .advancing initialState availableData loop none }, .none)
    | _ => (s, .none)
  | .consumerCas spurious =>
    match s.consumer with
    | .advancing initial delta loop dst =>
      match advanceReadPointerStep initial (initial.read + delta) s.buffer.combinedPointers loop spurious with
      | .stored combined =>
        ({ s with buffer := { s.buffer with combinedPointers := combined }, consumer := .idle },
          match dst with
          | some dst => .read (.ok delta) dst
          | none => .drained (s.buffer.cellsFrom initial.read delta.toNat))
      | .retry loop => ({ s with consumer := .advancing initial delta loop dst }, .none)
      | .panic => (s, .panic)
    | _ => (s, .none)

end System

end Zircon.Spsc

/-! ### Pointers and sizes -/

namespace Zircon.Spsc

open Zircon.Lib

@[simp] theorem splitCombinedPointers_combinePointers (p : RingPointers) :
    splitCombinedPointers (combinePointers p) = p := by
  rw [splitCombinedPointers, combinePointers, unpack_hi, unpack_lo]

theorem toNat_availableData (p : RingPointers) :
    (availableData p).toNat = (2 ^ 32 - p.read.toNat + p.write.toNat) % 2 ^ 32 :=
  UInt32.toNat_sub _ _

theorem availableData_add_write (p : RingPointers) {delta : UInt32}
    (h : (availableData p).toNat + delta.toNat < 2 ^ 32) :
    (availableData ⟨p.read, p.write + delta⟩).toNat = (availableData p).toNat + delta.toNat := by
  simp only [toNat_availableData, UInt32.toNat_add] at h ⊢
  have := p.read.toNat_lt
  have := p.write.toNat_lt
  have := delta.toNat_lt
  omega

theorem availableData_add_read (p : RingPointers) {delta : UInt32}
    (h : delta.toNat ≤ (availableData p).toNat) :
    (availableData ⟨p.read + delta, p.write⟩).toNat = (availableData p).toNat - delta.toNat := by
  simp only [toNat_availableData, UInt32.toNat_add] at h ⊢
  have := p.read.toNat_lt
  have := p.write.toNat_lt
  omega

namespace SpscBuffer

variable {α : Type*} (b : SpscBuffer α)

theorem exists_size_eq : ∃ k, k < 32 ∧ b.size.toNat = 2 ^ k := by
  have h := b.size_valid.2
  simp only [hasSingleBit, List.any_eq_true, List.mem_range, beq_iff_eq] at h
  exact h

theorem size_pos : 0 < b.size.toNat := by
  obtain ⟨k, -, hk⟩ := b.exists_size_eq
  rw [hk]
  exact Nat.two_pow_pos k

theorem size_le : b.size.toNat ≤ 2 ^ 31 := by
  have h := UInt32.le_iff_toNat_le.mp b.size_valid.1
  exact h.trans_eq rfl

theorem size_dvd : b.size.toNat ∣ 2 ^ 32 := by
  obtain ⟨k, hk, hsize⟩ := b.exists_size_eq
  rw [hsize]
  exact Nat.pow_dvd_pow 2 hk.le

theorem toNat_pointerToOffset (pointer : UInt32) :
    (b.pointerToOffset pointer).toNat = pointer.toNat % b.size.toNat := by
  obtain ⟨k, -, hk⟩ := b.exists_size_eq
  rw [pointerToOffset, toNat_and_sub_one hk, hk]

theorem write_mod (p : RingPointers) :
    p.write.toNat % b.size.toNat = (p.read.toNat + (availableData p).toNat) % b.size.toNat := by
  have hw := p.write.toNat_lt
  have hr := p.read.toNat_lt
  have hwrap : (p.read.toNat + (availableData p).toNat) % 2 ^ 32 = p.write.toNat := by
    rw [toNat_availableData]
    omega
  rw [← hwrap, Nat.mod_mod_of_dvd _ b.size_dvd]

theorem cellsFrom_add (start delta : UInt32) (n : ℕ) :
    b.cellsFrom (start + delta) n = ringRead b.storage b.size.toNat (start.toNat + delta.toNat) n := by
  rw [cellsFrom, UInt32.toNat_add, ringRead_mod_of_dvd b.size_dvd]

theorem subspan_eq_ringRead {offset count : ℕ} (hlt : offset < b.size.toNat)
    (h : offset + count ≤ b.size.toNat) :
    b.subspan offset count = ringRead b.storage b.size.toNat offset count := by
  have hoff : offset % b.size.toNat = offset := Nat.mod_eq_of_lt hlt
  rw [ringRead_eq_ofFn (by rw [hoff]; exact h), hoff]
  rfl

/-! ### What each function does -/

variable {b}

/-- `Reserve` against the pointers it loads, while they are at most the ring's
size apart: no space when fewer than `size` cells are free, the `DEBUG_ASSERT`
of the constructor for a reservation of nothing, else the reservation of the
`size` cells after the write pointer, round the ring. -/
theorem reserve_eq (hA : (availableData b.loadPointers).toNat ≤ b.size.toNat) (size : UInt32) :
    b.reserve size =
      if b.size.toNat - (availableData b.loadPointers).toNat < size.toNat then some (.error .errNoSpace)
      else if size.toNat = 0 then none
      else
        let offset := b.loadPointers.write.toNat % b.size.toNat
        some (.ok ⟨b.loadPointers, ⟨offset, min size.toNat (b.size.toNat - offset)⟩,
          ⟨0, size.toNat - min size.toNat (b.size.toNat - offset)⟩, 0⟩) := by
  have hS := b.size_pos
  have hmax := b.size_le
  have hspace : (b.availableSpace b.loadPointers).toNat = b.size.toNat - (availableData b.loadPointers).toNat := by
    rw [availableSpace, UInt32.toNat_sub_of_le _ _ (UInt32.le_iff_toNat_le.mpr hA)]
  have hoff := b.toNat_pointerToOffset b.loadPointers.write
  have hbreak : (b.size - b.pointerToOffset b.loadPointers.write).toNat =
      b.size.toNat - b.loadPointers.write.toNat % b.size.toNat := by
    rw [UInt32.toNat_sub_of_le _ _ (UInt32.le_iff_toNat_le.mpr (by rw [hoff]; exact (Nat.mod_lt _ hS).le)), hoff]
  have hbbb : (min size (b.size - b.pointerToOffset b.loadPointers.write)).toNat =
      min size.toNat (b.size.toNat - b.loadPointers.write.toNat % b.size.toNat) := by
    rw [UInt32.toNat_min, hbreak]
  -- region 2 holds what does not fit before the break, if anything
  have hregion2 : (if min size (b.size - b.pointerToOffset b.loadPointers.write) < size then
      (⟨0, (size - min size (b.size - b.pointerToOffset b.loadPointers.write)).toNat⟩ : Region) else ⟨0, 0⟩) =
      ⟨0, size.toNat - min size.toNat (b.size.toNat - b.loadPointers.write.toNat % b.size.toNat)⟩ := by
    split_ifs with hlt
    · rw [UInt32.toNat_sub_of_le _ _ Std.min_le_left, hbbb]
    · have heq : min size (b.size - b.pointerToOffset b.loadPointers.write) = size :=
        UInt32.le_antisymm Std.min_le_left (UInt32.not_lt.mp hlt)
      rw [← hbbb, heq, Nat.sub_self]
  have hle : size.toNat ≤ b.size.toNat ∨ b.size.toNat < size.toNat := le_or_gt _ _
  have hmod := Nat.mod_lt b.loadPointers.write.toNat hS
  unfold reserve
  dsimp only
  rw [hregion2]
  simp only [gt_iff_lt, UInt32.lt_iff_toNat_lt, hspace, hbbb, hoff, show kMaxStorageSize.toNat = 2 ^ 31 by rfl]
  by_cases hsp : b.size.toNat - (availableData b.loadPointers).toNat < size.toNat
  · -- no room, whether or not `size` is more than the whole ring
    rw [if_pos hsp, if_pos hsp, ite_self]
  rw [if_neg hsp, if_neg hsp, if_neg (show ¬b.size.toNat < size.toNat by omega)]
  by_cases h0 : size.toNat = 0
  · rw [if_pos (.inl (by rw [h0]; exact Nat.zero_min _)), if_pos h0]
  · rw [if_neg (by omega), if_neg h0]

theorem Reservation.write_eq {r : Reservation} {storage : ℕ → α} {data : List α} {W n : ℕ}
    (hS : 0 < b.size.toNat) (hn : n ≤ b.size.toNat)
    (h1 : r.region1 = ⟨W % b.size.toNat, min n (b.size.toNat - W % b.size.toNat)⟩)
    (h2 : r.region2 = ⟨0, n - min n (b.size.toNat - W % b.size.toNat)⟩)
    (hfit : r.writeOffset + data.length ≤ n) :
    r.write storage data =
      some (ringWrite storage b.size.toNat ((W + r.writeOffset) % b.size.toNat) data,
        { r with writeOffset := r.writeOffset + data.length }) := by
  set S := b.size.toNat with hSdef
  have hmod : W % S < S := Nat.mod_lt _ hS
  have hstart : (W + r.writeOffset) % S = (W % S + r.writeOffset) % S := (Nat.mod_add_mod W S _).symm
  unfold Reservation.write
  rw [h1, h2]
  dsimp only
  by_cases hk : r.writeOffset < min n (S - W % S)
  · rw [if_pos hk]
    dsimp only
    have hst : (W + r.writeOffset) % S = W % S + r.writeOffset := by
      rw [hstart, Nat.mod_eq_of_lt (by omega)]
    by_cases hrest : data.length - min data.length (min n (S - W % S) - r.writeOffset) = 0
    · -- all of it fits into region 1
      rw [if_pos hrest, hst, ringWrite_eq_writeAt (by omega), List.take_of_length_le (by omega)]
      congr 3
      omega
    · -- region 1 fills up, and the rest goes to the start of the ring
      rw [if_neg hrest, if_neg (by omega), hst, ringWrite_eq_writeAt_writeAt (by omega) (by omega)]
      have hamt : min data.length (min n (S - W % S) - r.writeOffset) = S - (W % S + r.writeOffset) := by omega
      have hoff2 : 0 + (r.writeOffset + (S - (W % S + r.writeOffset)) - min n (S - W % S)) = 0 := by omega
      have hend : r.writeOffset + (S - (W % S + r.writeOffset)) + (data.length - (S - (W % S + r.writeOffset))) =
          r.writeOffset + data.length := by omega
      rw [hamt, hoff2, hend]
  · rw [if_neg hk]
    dsimp only
    by_cases hd : data.length = 0
    · rw [if_pos hd, List.length_eq_zero_iff.mp hd, ringWrite_nil]
      rfl
    -- nothing goes to region 1: the write starts past the break
    have hst : (W + r.writeOffset) % S = r.writeOffset - min n (S - W % S) := by
      rw [hstart, Nat.mod_eq_sub_mod (by omega), Nat.mod_eq_of_lt (by omega)]
      omega
    rw [if_neg hd, if_neg (by omega), hst, ringWrite_eq_writeAt (by omega), List.drop_zero, Nat.zero_add]

theorem Reservation.write_eq_none {r : Reservation} {storage : ℕ → α} {data : List α} {n : ℕ}
    (h2 : r.region2.size = n - r.region1.size) (hr1 : r.region1.size ≤ n) (hk : r.writeOffset ≤ n)
    (hover : n < r.writeOffset + data.length) : r.write storage data = none := by
  unfold Reservation.write
  by_cases hk1 : r.writeOffset < r.region1.size
  · rw [if_pos hk1]
    dsimp only
    rw [if_neg (by omega), if_pos (.inr (.inr (by omega)))]
  · rw [if_neg hk1]
    dsimp only
    rw [if_neg (by omega), if_pos (.inr (.inr (by omega)))]

theorem Reservation.commit_eq {r : Reservation} (hA : (availableData r.initialRingPointers).toNat ≤ b.size.toNat)
    (hn : (availableData r.initialRingPointers).toNat + (r.region1.size + r.region2.size) ≤ b.size.toNat) :
    r.commit b =
      if r.writeOffset = r.region1.size + r.region2.size then
        some (UInt32.ofNat (r.region1.size + r.region2.size),
          ⟨combinePointers r.initialRingPointers, combinePointers ⟨r.initialRingPointers.read,
            r.initialRingPointers.write + UInt32.ofNat (r.region1.size + r.region2.size)⟩⟩)
      else none := by
  have hmax := b.size_le
  have hdelta : (UInt32.ofNat (r.region1.size + r.region2.size)).toNat = r.region1.size + r.region2.size :=
    UInt32.toNat_ofNat_of_lt' (lt_of_le_of_lt (show _ ≤ 2 ^ 31 by omega) (by decide))
  unfold Reservation.commit
  by_cases hw : r.writeOffset = r.region1.size + r.region2.size
  · rw [if_neg (not_not_intro hw), if_pos hw]
    dsimp only
    rw [SpscBuffer.advanceWritePointer, if_pos]
    · rfl
    rw [UInt32.le_iff_toNat_le, hdelta, availableSpace, UInt32.toNat_sub_of_le _ _ (UInt32.le_iff_toNat_le.mpr hA)]
    omega
  · rw [if_pos hw, if_neg hw]

theorem readStart_eq (len : UInt32) :
    b.readStart len =
      if (availableData b.loadPointers).toNat = 0 then none
      else
        let offset := b.loadPointers.read.toNat % b.size.toNat
        some (b.loadPointers, min (availableData b.loadPointers) len,
          ⟨offset, min (min (availableData b.loadPointers).toNat len.toNat) (b.size.toNat - offset)⟩) := by
  have hS := b.size_pos
  have hoff := b.toNat_pointerToOffset b.loadPointers.read
  have hbreak : (b.size - b.pointerToOffset b.loadPointers.read).toNat =
      b.size.toNat - b.loadPointers.read.toNat % b.size.toNat := by
    rw [UInt32.toNat_sub_of_le _ _ (UInt32.le_iff_toNat_le.mpr (by rw [hoff]; exact (Nat.mod_lt _ hS).le)), hoff]
  unfold readStart
  dsimp only
  by_cases h0 : (availableData b.loadPointers).toNat = 0
  · rw [if_pos (UInt32.toNat_inj.mp h0), if_pos h0]
  · rw [if_neg (fun h ↦ h0 (by rw [h]; rfl)), if_neg h0, UInt32.toNat_min, UInt32.toNat_min, hbreak, hoff]

end SpscBuffer

section Advance

variable {owned : RingPointers → UInt32} {retarget : RingPointers → RingPointers} {initial : RingPointers}
  {combined : UInt64} {loop : CasLoop} {spurious : Bool}

theorem advanceStep_of_eq (h : combined = loop.starting) (hs : spurious = false) :
    advanceStep owned retarget initial combined loop spurious = .stored loop.target := by
  rw [advanceStep, if_pos (by simp [h, hs])]

theorem advanceStep_of_ne (h : ¬(spurious = false ∧ combined = loop.starting))
    (hown : owned (splitCombinedPointers combined) = owned initial) :
    advanceStep owned retarget initial combined loop spurious =
      .retry ⟨combined, combinePointers (retarget (splitCombinedPointers combined))⟩ := by
  rw [advanceStep, if_neg (by simpa using h)]
  dsimp only
  rw [if_neg (not_not_intro hown)]

end Advance

end Zircon.Spsc
