import Mathlib
import Zircon.Lib.QueueRun
import Zircon.SpscBuffer.Basic

/-!
# The ring buffer is a FIFO under every interleaving

The bytes in flight are the cells between the read and the write pointer
(`SpscBuffer.queued`) followed by those the producer has written into its
reservation and not yet committed (`System.pending`).  A `Write` appends its
bytes to them, a `Commit` turns the pending bytes into queued ones without
changing the whole, and a `Read` or a `Drain` that moves the read pointer takes
its bytes off the front: over every interleaving of the two threads the bytes
read, then those in flight, are the bytes written (`spscRun_lossless`).  The
only assertions a run can fail are those of the caller's contract
(`spscRun_panic_iff`).

What carries this is `SystemInv`: the pointers are at most the ring's size
apart; the producer's reservation lies in the free cells after the queued
ones, and the write pointer is the one it loaded, since only it moves it; the
consumer's read pointer is the one it loaded, and the cells it copied are the
first queued ones.  Each thread's view of the other's pointer may be stale, but
only on the safe side: the producer sees at most the free space there is, the
consumer at most the data.  Every `compare_exchange_weak` that succeeds finds
the other half as its target holds it, so it moves only its own pointer; one
that fails finds its own half unchanged, so its `DEBUG_ASSERT_MSG` holds.
-/

namespace Zircon.Spsc

open Zircon.Lib

variable {α : Type*}

namespace SpscBuffer

/-- The bytes queued: from the read pointer on, `AvailableData` of them. -/
def queued (b : SpscBuffer α) : List α :=
  b.cellsFrom b.loadPointers.read (availableData b.loadPointers).toNat

end SpscBuffer

namespace System

/-- The bytes the producer has written into its reservation, or committed and
not yet published by its compare-exchange. -/
def pending (s : System α) : List α :=
  match s.producer with
  | .idle => []
  | .writing r => s.buffer.cellsFrom r.initialRingPointers.write r.writeOffset
  | .committing initial delta _ => s.buffer.cellsFrom initial.write delta.toNat

/-- The bytes in flight. -/
def content (s : System α) : List α := s.buffer.queued ++ s.pending

end System

/-- The bytes a step puts into the buffer: those of a `Write` that passed its
`ASSERT`s. -/
def SpscCall.accepted : SpscCall α → SpscReturn α → List α
  | .write data, .wrote => data
  | _, _ => []

/-- The bytes a step takes out: those a `Read` returning `ZX_OK` copied to
`dst`, and those a `Drain` let go. -/
def SpscCall.delivered : SpscCall α → SpscReturn α → List α
  | _, .read (.ok _) dst => dst
  | _, .drained dropped => dropped
  | _, _ => []

namespace System

/-- The calls that fail an assertion of the caller's contract: `Reserve(0)`,
whose region 1 is empty; a `Write` past the end of its reservation; a `Commit`
before the reservation is filled. -/
def Misuse (s : System α) : SpscCall α → Prop
  | .reserve size => s.producer = .idle ∧ size = 0
  | .write data => ∃ r, s.producer = .writing r ∧ r.region1.size + r.region2.size < r.writeOffset + data.length
  | .commit => ∃ r, s.producer = .writing r ∧ r.writeOffset ≠ r.region1.size + r.region2.size
  | _ => False

end System

/-! ### The invariant -/

/-- The producer holds a reservation of `n` cells from the write pointer: the
write pointer is the one it loaded, the space it saw free is at most the space
free now, and the reservation fits in it. -/
structure WritingInv (b : SpscBuffer α) (initial : RingPointers) (n : ℕ) : Prop where
  write_eq : initial.write = b.loadPointers.write
  avail_le : (availableData b.loadPointers).toNat ≤ (availableData initial).toNat
  fits : (availableData initial).toNat + n ≤ b.size.toNat

/-- The consumer reads `amount` cells from the read pointer it loaded, which is
the one there is, of the data it saw, which is at most the data there is. -/
structure ReadingInv (b : SpscBuffer α) (initial : RingPointers) (amount : ℕ) : Prop where
  read_eq : initial.read = b.loadPointers.read
  le_initial : amount ≤ (availableData initial).toNat
  initial_le : (availableData initial).toNat ≤ (availableData b.loadPointers).toNat

/-- What the producer's locals say of the buffer. -/
def ProducerInv (b : SpscBuffer α) : Producer → Prop
  | .idle => True
  | .writing r =>
    WritingInv b r.initialRingPointers (r.region1.size + r.region2.size) ∧
      r.region1 = ⟨r.initialRingPointers.write.toNat % b.size.toNat,
        min (r.region1.size + r.region2.size) (b.size.toNat - r.initialRingPointers.write.toNat % b.size.toNat)⟩ ∧
      r.region2 = ⟨0, r.region1.size + r.region2.size -
        min (r.region1.size + r.region2.size) (b.size.toNat - r.initialRingPointers.write.toNat % b.size.toNat)⟩ ∧
      r.writeOffset ≤ r.region1.size + r.region2.size
  | .committing initial delta loop =>
    WritingInv b initial delta.toNat ∧
      (splitCombinedPointers loop.starting).write = initial.write ∧
      splitCombinedPointers loop.target = ⟨(splitCombinedPointers loop.starting).read, initial.write + delta⟩

/-- What the consumer's locals say of the buffer. -/
def ConsumerInv (b : SpscBuffer α) : Consumer α → Prop
  | .idle => True
  | .copyBeforeBreak initial amount region1 =>
    ReadingInv b initial amount.toNat ∧
      region1 = ⟨initial.read.toNat % b.size.toNat,
        min amount.toNat (b.size.toNat - initial.read.toNat % b.size.toNat)⟩
  | .copyAfterBreak initial amount bytesBeforeBreak dst =>
    ReadingInv b initial amount.toNat ∧
      bytesBeforeBreak = b.size.toNat - initial.read.toNat % b.size.toNat ∧
      bytesBeforeBreak < amount.toNat ∧ dst = b.cellsFrom initial.read bytesBeforeBreak
  | .advancing initial delta loop dst =>
    ReadingInv b initial delta.toNat ∧
      (splitCombinedPointers loop.starting).read = initial.read ∧
      splitCombinedPointers loop.target = ⟨initial.read + delta, (splitCombinedPointers loop.starting).write⟩ ∧
      ∀ d, dst = some d → d = b.cellsFrom initial.read delta.toNat

/-- What holds of the buffer and the two threads at every step of every run. -/
structure SystemInv (s : System α) : Prop where
  avail_le : (availableData s.buffer.loadPointers).toNat ≤ s.buffer.size.toNat
  producer : ProducerInv s.buffer s.producer
  consumer : ConsumerInv s.buffer s.consumer

/-! ### What the other thread's steps do to a thread's view -/

section Frame

variable {b : SpscBuffer α}

theorem cellsFrom_ringWrite {k m : ℕ} {data : List α} (hm : m ≤ (availableData b.loadPointers).toNat)
    (hfit : (availableData b.loadPointers).toNat + k + data.length ≤ b.size.toNat) :
    ({ b with storage := ringWrite b.storage b.size.toNat ((b.loadPointers.write.toNat + k) % b.size.toNat) data }
      : SpscBuffer α).cellsFrom b.loadPointers.read m = b.cellsFrom b.loadPointers.read m := by
  have hstart : (b.loadPointers.write.toNat + k) % b.size.toNat =
      (b.loadPointers.read.toNat + m + ((availableData b.loadPointers).toNat - m + k)) % b.size.toNat := by
    rw [Nat.add_mod, b.write_mod, ← Nat.add_mod, show b.loadPointers.read.toNat + m +
      ((availableData b.loadPointers).toNat - m + k) = b.loadPointers.read.toNat +
      (availableData b.loadPointers).toNat + k by omega]
  unfold SpscBuffer.cellsFrom
  rw [hstart, ringRead_ringWrite_of_le (by omega)]

theorem ReadingInv.of_storage {storage : ℕ → α} {initial : RingPointers} {amount : ℕ}
    (h : ReadingInv b initial amount) : ReadingInv { b with storage } initial amount :=
  ⟨h.read_eq, h.le_initial, h.initial_le⟩

theorem ConsumerInv.of_write {c : Consumer α} {k : ℕ} {data : List α} (h : ConsumerInv b c)
    (hfit : (availableData b.loadPointers).toNat + k + data.length ≤ b.size.toNat) :
    ConsumerInv
      { b with storage := ringWrite b.storage b.size.toNat ((b.loadPointers.write.toNat + k) % b.size.toNat) data } c := by
  cases c with
  | idle => trivial
  | copyBeforeBreak initial amount region1 => exact ⟨h.1.of_storage, h.2⟩
  | copyAfterBreak initial amount bytesBeforeBreak dst =>
    obtain ⟨hr, hbreak, hlt, hdst⟩ := h
    refine ⟨hr.of_storage, hbreak, hlt, ?_⟩
    rw [hdst, hr.read_eq, cellsFrom_ringWrite (by have := hr.le_initial; have := hr.initial_le; omega) hfit]
  | advancing initial delta loop dst =>
    obtain ⟨hr, hstart, htarget, hdst⟩ := h
    refine ⟨hr.of_storage, hstart, htarget, fun d hd ↦ ?_⟩
    rw [hdst d hd, hr.read_eq, cellsFrom_ringWrite (by have := hr.le_initial; have := hr.initial_le; omega) hfit]

theorem WritingInv.of_storage {storage : ℕ → α} {initial : RingPointers} {n : ℕ}
    (h : WritingInv b initial n) : WritingInv { b with storage } initial n :=
  ⟨h.write_eq, h.avail_le, h.fits⟩

namespace SpscBuffer

@[simp] theorem loadPointers_storage (f : ℕ → α) :
    ({ b with storage := f } : SpscBuffer α).loadPointers = b.loadPointers := rfl

@[simp] theorem loadPointers_combinedPointers (w : UInt64) :
    ({ b with combinedPointers := w } : SpscBuffer α).loadPointers = splitCombinedPointers w := rfl

@[simp] theorem cellsFrom_combinedPointers (w : UInt64) :
    ({ b with combinedPointers := w } : SpscBuffer α).cellsFrom = b.cellsFrom := rfl

end SpscBuffer

/-- The producer's compare-exchange stores `w`, with the read pointer as it
was and at least the data there was: the consumer's locals stay valid. -/
theorem ConsumerInv.of_publish {c : Consumer α} {w : UInt64} (h : ConsumerInv b c)
    (hread : (splitCombinedPointers w).read = b.loadPointers.read)
    (hA : (availableData b.loadPointers).toNat ≤ (availableData (splitCombinedPointers w)).toNat) :
    ConsumerInv { b with combinedPointers := w } c := by
  have hr : ∀ {initial : RingPointers} {amount : ℕ}, ReadingInv b initial amount →
      ReadingInv { b with combinedPointers := w } initial amount := fun h ↦
    ⟨h.read_eq.trans hread.symm, h.le_initial, h.initial_le.trans hA⟩
  cases c with
  | idle => trivial
  | copyBeforeBreak initial amount region1 => exact ⟨hr h.1, h.2⟩
  | copyAfterBreak initial amount bytesBeforeBreak dst => exact ⟨hr h.1, h.2⟩
  | advancing initial delta loop dst => exact ⟨hr h.1, h.2⟩

/-- The consumer's compare-exchange stores `w`, with the write pointer as it
was and at most the data there was: the producer's locals stay valid. -/
theorem ProducerInv.of_consume {p : Producer} {w : UInt64} (h : ProducerInv b p)
    (hwrite : (splitCombinedPointers w).write = b.loadPointers.write)
    (hA : (availableData (splitCombinedPointers w)).toNat ≤ (availableData b.loadPointers).toNat) :
    ProducerInv { b with combinedPointers := w } p := by
  have hw : ∀ {initial : RingPointers} {n : ℕ}, WritingInv b initial n →
      WritingInv { b with combinedPointers := w } initial n := fun h ↦
    ⟨h.write_eq.trans hwrite.symm, hA.trans h.avail_le, h.fits⟩
  cases p with
  | idle => trivial
  | writing r => exact ⟨hw h.1, h.2⟩
  | committing initial delta loop => exact ⟨hw h.1, h.2⟩

/-- The loop of `AdvanceReadPointer` as it starts, from a read of cells the
consumer may take. -/
theorem ReadingInv.advancing {initial : RingPointers} {delta : UInt32} {dst : Option (List α)}
    (h : ReadingInv b initial delta.toNat) (hdst : ∀ d, dst = some d → d = b.cellsFrom initial.read delta.toNat) :
    ConsumerInv b (.advancing initial delta
      ⟨combinePointers initial, combinePointers ⟨initial.read + delta, initial.write⟩⟩ dst) :=
  ⟨h, by simp, by simp, hdst⟩

end Frame

/-! ### The cells in flight -/

namespace SpscBuffer

variable (b : SpscBuffer α)

/-- The cells after the queued ones start at the write pointer. -/
theorem cellsFrom_read_add (p : RingPointers) (n : ℕ) :
    b.cellsFrom p.read ((availableData p).toNat + n) =
      b.cellsFrom p.read (availableData p).toNat ++ b.cellsFrom p.write n := by
  have hwrite : p.read + availableData p = p.write := add_sub_cancel p.read p.write
  rw [← hwrite, b.cellsFrom_add]
  exact ringRead_add

theorem cellsFrom_append_add (start delta : UInt32) {n : ℕ} (h : delta.toNat ≤ n) :
    b.cellsFrom start delta.toNat ++ b.cellsFrom (start + delta) (n - delta.toNat) = b.cellsFrom start n := by
  rw [b.cellsFrom_add]
  unfold cellsFrom
  rw [← ringRead_add, Nat.add_sub_cancel' h]

theorem cellsFrom_ringWrite_append {start : UInt32} {k : ℕ} {data : List α}
    (hfit : k + data.length ≤ b.size.toNat) :
    ({ b with storage := ringWrite b.storage b.size.toNat ((start.toNat + k) % b.size.toNat) data } :
      SpscBuffer α).cellsFrom start (k + data.length) = b.cellsFrom start k ++ data :=
  ringRead_ringWrite_append hfit

/-- Region 1 of a `Read`: the cells from the read pointer up to the ring break. -/
theorem subspan_eq_cellsFrom (start : UInt32) (amount : ℕ) :
    b.subspan (start.toNat % b.size.toNat) (min amount (b.size.toNat - start.toNat % b.size.toNat)) =
      b.cellsFrom start (min amount (b.size.toNat - start.toNat % b.size.toNat)) := by
  have hS := b.size_pos
  have hmod := Nat.mod_lt start.toNat hS
  rw [b.subspan_eq_ringRead hmod (by omega), ringRead_mod]
  rfl

/-- Region 1 of a `Read` that crosses the ring break, then region 2 from the
start of the ring. -/
theorem cellsFrom_append_subspan (start : UInt32) {amount : ℕ}
    (hlt : b.size.toNat - start.toNat % b.size.toNat < amount) (hle : amount ≤ b.size.toNat) :
    b.cellsFrom start (b.size.toNat - start.toNat % b.size.toNat) ++
        b.subspan 0 (amount - (b.size.toNat - start.toNat % b.size.toNat)) = b.cellsFrom start amount := by
  have hS := b.size_pos
  have hmod := Nat.mod_le start.toNat b.size.toNat
  have hmodlt := Nat.mod_lt start.toNat hS
  have hzero : (start.toNat + (b.size.toNat - start.toNat % b.size.toNat)) % b.size.toNat = 0 := by
    rw [show start.toNat + (b.size.toNat - start.toNat % b.size.toNat) =
        start.toNat - start.toNat % b.size.toNat + b.size.toNat by omega,
      Nat.add_mod_right, Nat.sub_mod_eq_zero_of_mod_eq (Nat.mod_mod _ _).symm]
  have hbreak : ringRead b.storage b.size.toNat (start.toNat + (b.size.toNat - start.toNat % b.size.toNat))
      (amount - (b.size.toNat - start.toNat % b.size.toNat)) =
      ringRead b.storage b.size.toNat 0 (amount - (b.size.toNat - start.toNat % b.size.toNat)) := by
    rw [← ringRead_mod, hzero]
  rw [b.subspan_eq_ringRead hS (by omega), ← hbreak]
  unfold cellsFrom
  rw [← ringRead_add, Nat.add_sub_cancel' hlt.le]

end SpscBuffer

namespace System

/-- The bytes the producer holds are kept by the consumer's steps. -/
theorem pending_publish (b : SpscBuffer α) (w : UInt64) (p : Producer) (c c' : Consumer α) :
    pending ⟨{ b with combinedPointers := w }, p, c'⟩ = pending ⟨b, p, c⟩ := by
  cases p <;> rfl

end System

/-! ### Each step -/

/-- What a step from `s` that makes the call `call`, leads to `t` and returns
`r` must do: keep the invariant, pass bytes through first in, first out, and
panic just when the call breaks the caller's contract. -/
structure StepOk (s : System α) (call : SpscCall α) (t : System α) (r : SpscReturn α) : Prop where
  inv : SystemInv t
  fifo : call.delivered r ++ t.content = s.content ++ call.accepted r
  panic_iff : r = .panic ↔ s.Misuse call
  size_eq : t.buffer.size = s.buffer.size

/-- A step that leaves the state as it is and passes no bytes. -/
theorem StepOk.stay {s : System α} {call : SpscCall α} {r : SpscReturn α} (hs : SystemInv s)
    (hd : call.delivered r = []) (ha : call.accepted r = []) (hpanic : r = .panic ↔ s.Misuse call) :
    StepOk s call s r :=
  ⟨hs, by rw [hd, ha, List.nil_append, List.append_nil], hpanic, rfl⟩

/-- A step of the consumer that moves no pointer and passes no bytes: only its
program point changes. -/
theorem StepOk.ofConsumer {s : System α} {call : SpscCall α} {c : Consumer α} {r : SpscReturn α}
    (hinv : SystemInv { s with consumer := c }) (hd : call.delivered r = []) (ha : call.accepted r = [])
    (hpanic : r = .panic ↔ s.Misuse call) : StepOk s call { s with consumer := c } r :=
  ⟨hinv, by rw [hd, ha, List.nil_append, List.append_nil]; rfl, hpanic, rfl⟩

section Steps

variable {b : SpscBuffer α} {p : Producer} {c : Consumer α} {t : System α} {ret : SpscReturn α}

theorem stepOk_reserve (hs : SystemInv ⟨b, .idle, c⟩) {size : UInt32}
    (h : System.step ⟨b, .idle, c⟩ (.reserve size) = (t, ret)) : StepOk ⟨b, .idle, c⟩ (.reserve size) t ret := by
  have hA := hs.avail_le
  simp only [System.step, SpscBuffer.reserve_eq hA] at h
  by_cases hsp : b.size.toNat - (availableData b.loadPointers).toNat < size.toNat
  · -- no room: the state as it was
    rw [if_pos hsp] at h
    simp only [Prod.mk.injEq] at h
    obtain ⟨rfl, rfl⟩ := h
    have hsize : size ≠ 0 := by
      rintro rfl
      exact Nat.not_lt_zero _ hsp
    exact .stay hs rfl rfl (by simp [System.Misuse, hsize])
  rw [if_neg hsp] at h
  by_cases h0 : size.toNat = 0
  · -- `Reserve(0)`: region 1 is empty
    rw [if_pos h0] at h
    simp only [Prod.mk.injEq] at h
    obtain ⟨rfl, rfl⟩ := h
    exact .stay hs rfl rfl (by simp [System.Misuse, UInt32.toNat_inj.mp (show size.toNat = (0 : UInt32).toNat from h0)])
  rw [if_neg h0] at h
  simp only [Prod.mk.injEq] at h
  obtain ⟨rfl, rfl⟩ := h
  have hn : min size.toNat (b.size.toNat - b.loadPointers.write.toNat % b.size.toNat) +
      (size.toNat - min size.toNat (b.size.toNat - b.loadPointers.write.toNat % b.size.toNat)) = size.toNat := by
    omega
  refine ⟨⟨hA, ⟨⟨rfl, le_rfl, ?_⟩, ?_, ?_, Nat.zero_le _⟩, hs.consumer⟩, ?_, ?_, rfl⟩
  · simp only [hn]
    omega
  · simp only [hn]
  · simp only [hn]
  · simp [System.content, System.pending, SpscCall.delivered, SpscCall.accepted, SpscBuffer.cellsFrom, ringRead]
  · simp [System.Misuse, show size ≠ 0 from fun h ↦ h0 (by rw [h]; rfl)]

theorem stepOk_write {r : Reservation} (hs : SystemInv ⟨b, .writing r, c⟩) {data : List α}
    (h : System.step ⟨b, .writing r, c⟩ (.write data) = (t, ret)) :
    StepOk ⟨b, .writing r, c⟩ (.write data) t ret := by
  obtain ⟨hw, h1, h2, hk⟩ : ProducerInv b (.writing r) := hs.producer
  simp only [System.step] at h
  by_cases hfit : r.writeOffset + data.length ≤ r.region1.size + r.region2.size
  · have hS := b.size_pos
    have hn : r.region1.size + r.region2.size ≤ b.size.toNat := by
      have := hw.fits
      omega
    rw [SpscBuffer.Reservation.write_eq hS hn h1 h2 hfit, hw.write_eq] at h
    simp only [Prod.mk.injEq] at h
    obtain ⟨rfl, rfl⟩ := h
    have hroom : (availableData b.loadPointers).toNat + r.writeOffset + data.length ≤ b.size.toNat := by
      have := hw.avail_le
      have := hw.fits
      omega
    refine ⟨⟨hs.avail_le, ⟨hw.of_storage, h1, h2, hfit⟩, hs.consumer.of_write hroom⟩, ?_, ?_, rfl⟩
    · -- the queued cells are kept, and the bytes land right after the pending ones
      simp only [System.content, System.pending, SpscCall.delivered, SpscCall.accepted, List.nil_append,
        SpscBuffer.queued, SpscBuffer.loadPointers_storage]
      rw [cellsFrom_ringWrite le_rfl hroom, hw.write_eq, SpscBuffer.cellsFrom_ringWrite_append b (by omega),
        List.append_assoc]
    · simp only [System.Misuse]
      simp only [reduceCtorEq, Producer.writing.injEq, exists_eq_left', false_iff, not_lt]
      exact hfit
  · rw [SpscBuffer.Reservation.write_eq_none (by omega) (by omega) hk (by omega)] at h
    simp only [Prod.mk.injEq] at h
    obtain ⟨rfl, rfl⟩ := h
    exact .stay hs rfl rfl (by simp only [System.Misuse, true_iff]; exact ⟨r, rfl, by omega⟩)

theorem stepOk_commit {r : Reservation} (hs : SystemInv ⟨b, .writing r, c⟩)
    (h : System.step ⟨b, .writing r, c⟩ .commit = (t, ret)) : StepOk ⟨b, .writing r, c⟩ .commit t ret := by
  obtain ⟨hw, h1, h2, hk⟩ : ProducerInv b (.writing r) := hs.producer
  have hfits := hw.fits
  have hmax := b.size_le
  simp only [System.step, SpscBuffer.Reservation.commit_eq (by omega) hfits] at h
  by_cases hwo : r.writeOffset = r.region1.size + r.region2.size
  · rw [if_pos hwo] at h
    simp only [Prod.mk.injEq] at h
    obtain ⟨rfl, rfl⟩ := h
    have hdelta : (UInt32.ofNat (r.region1.size + r.region2.size)).toNat = r.region1.size + r.region2.size :=
      UInt32.toNat_ofNat_of_lt' (lt_of_le_of_lt (show _ ≤ 2 ^ 31 by omega) (by decide))
    refine ⟨⟨hs.avail_le, ⟨by rw [hdelta]; exact hw, by simp, by simp⟩, hs.consumer⟩, ?_, ?_, rfl⟩
    · -- the pending bytes are those of the whole reservation
      simp only [System.content, System.pending, SpscCall.delivered, SpscCall.accepted, List.nil_append,
        List.append_nil, hdelta, hwo]
    · simp [System.Misuse, hwo]
  · rw [if_neg hwo] at h
    simp only [Prod.mk.injEq] at h
    obtain ⟨rfl, rfl⟩ := h
    exact .stay hs rfl rfl (by simp only [System.Misuse, true_iff]; exact ⟨r, rfl, hwo⟩)

theorem stepOk_producerCas {initial : RingPointers} {delta : UInt32} {loop : CasLoop}
    (hs : SystemInv ⟨b, .committing initial delta loop, c⟩) {spurious : Bool}
    (h : System.step ⟨b, .committing initial delta loop, c⟩ (.producerCas spurious) = (t, ret)) :
    StepOk ⟨b, .committing initial delta loop, c⟩ (.producerCas spurious) t ret := by
  obtain ⟨hw, hstart, htarget⟩ : ProducerInv b (.committing initial delta loop) := hs.producer
  have hc : ConsumerInv b c := hs.consumer
  simp only [System.step, advanceWritePointerStep] at h
  by_cases hcas : spurious = false ∧ b.combinedPointers = loop.starting
  · rw [advanceStep_of_eq hcas.2 hcas.1] at h
    simp only [Prod.mk.injEq] at h
    obtain ⟨rfl, rfl⟩ := h
    -- the word stored is the one loaded, with the write pointer moved on
    have hlp : splitCombinedPointers loop.target = ⟨b.loadPointers.read, b.loadPointers.write + delta⟩ := by
      rw [htarget, ← hcas.2, hw.write_eq]
      rfl
    have hroom : (availableData b.loadPointers).toNat + delta.toNat ≤ b.size.toNat :=
      (Nat.add_le_add_right hw.avail_le _).trans hw.fits
    have hA : (availableData (splitCombinedPointers loop.target)).toNat =
        (availableData b.loadPointers).toNat + delta.toNat := by
      rw [hlp]
      exact availableData_add_write _ (lt_of_le_of_lt (hroom.trans b.size_le) (by decide))
    refine ⟨⟨hA.trans_le hroom, trivial, hc.of_publish (by rw [hlp]) (by rw [hA]; omega)⟩, ?_,
      by simp [System.Misuse], rfl⟩
    -- the pending bytes join the queued ones
    simp only [System.content, System.pending, SpscCall.delivered, SpscCall.accepted, List.nil_append,
      List.append_nil, SpscBuffer.queued, SpscBuffer.loadPointers_combinedPointers,
      SpscBuffer.cellsFrom_combinedPointers]
    rw [hA, hlp, hw.write_eq]
    exact b.cellsFrom_read_add b.loadPointers delta.toNat
  · have hown : (splitCombinedPointers b.combinedPointers).write = initial.write := hw.write_eq.symm
    rw [advanceStep_of_ne hcas hown] at h
    simp only [Prod.mk.injEq] at h
    obtain ⟨rfl, rfl⟩ := h
    exact ⟨⟨hs.avail_le, ⟨hw, hown, by simp⟩, hs.consumer⟩, by simp [SpscCall.delivered, SpscCall.accepted, System.content, System.pending],
      by simp [System.Misuse], rfl⟩

theorem stepOk_read (hs : SystemInv ⟨b, p, .idle⟩) {len : UInt32}
    (h : System.step ⟨b, p, .idle⟩ (.read len) = (t, ret)) : StepOk ⟨b, p, .idle⟩ (.read len) t ret := by
  simp only [System.step, SpscBuffer.readStart_eq] at h
  by_cases h0 : (availableData b.loadPointers).toNat = 0
  · -- nothing to read: `zx::ok(0)`
    rw [if_pos h0] at h
    simp only [Prod.mk.injEq] at h
    obtain ⟨rfl, rfl⟩ := h
    exact .stay hs rfl rfl (by simp [System.Misuse])
  · rw [if_neg h0] at h
    simp only [Prod.mk.injEq] at h
    obtain ⟨rfl, rfl⟩ := h
    refine .ofConsumer ⟨hs.avail_le, hs.producer, ⟨⟨rfl, ?_, le_rfl⟩, ?_⟩⟩ rfl rfl (by simp [System.Misuse])
    · rw [UInt32.toNat_min]
      exact min_le_left _ _
    · rw [UInt32.toNat_min]

theorem advanceAfterCopy_eq {initial : RingPointers} {amount : UInt32} {dst : List α}
    (h : amount.toNat ≤ (availableData initial).toNat) :
    System.advanceAfterCopy ⟨b, p, c⟩ initial amount dst =
      (⟨b, p, .advancing initial amount
        ⟨combinePointers initial, combinePointers ⟨initial.read + amount, initial.write⟩⟩ (some dst)⟩, .none) := by
  rw [System.advanceAfterCopy, advanceReadPointer, if_pos (UInt32.le_iff_toNat_le.mpr h)]

theorem stepOk_copyBeforeBreak {initial : RingPointers} {amount : UInt32} {region1 : Region}
    (hs : SystemInv ⟨b, p, .copyBeforeBreak initial amount region1⟩) {status : ZxStatus}
    (h : System.step ⟨b, p, .copyBeforeBreak initial amount region1⟩ (.copy status) = (t, ret)) :
    StepOk ⟨b, p, .copyBeforeBreak initial amount region1⟩ (.copy status) t ret := by
  obtain ⟨hr, rfl⟩ : ConsumerInv b (.copyBeforeBreak initial amount region1) := hs.consumer
  have hdst := b.subspan_eq_cellsFrom initial.read amount.toNat
  simp only [System.step, hdst] at h
  by_cases hst : status = .ok
  · rw [if_neg (not_not_intro hst)] at h
    by_cases hlt : min amount.toNat (b.size.toNat - initial.read.toNat % b.size.toNat) < amount.toNat
    · -- the read crosses the ring break
      rw [if_pos hlt] at h
      simp only [Prod.mk.injEq] at h
      obtain ⟨rfl, rfl⟩ := h
      have hc : ConsumerInv b (.copyAfterBreak initial amount
          (min amount.toNat (b.size.toNat - initial.read.toNat % b.size.toNat))
          (b.cellsFrom initial.read (min amount.toNat (b.size.toNat - initial.read.toNat % b.size.toNat)))) :=
        ⟨hr, by omega, hlt, rfl⟩
      exact .ofConsumer ⟨hs.avail_le, hs.producer, hc⟩ rfl rfl (by simp [System.Misuse])
    · rw [if_neg hlt, advanceAfterCopy_eq hr.le_initial] at h
      simp only [Prod.mk.injEq] at h
      obtain ⟨rfl, rfl⟩ := h
      refine .ofConsumer ⟨hs.avail_le, hs.producer, hr.advancing fun d hd ↦ ?_⟩ rfl rfl (by simp [System.Misuse])
      rw [← Option.some.inj hd, show min amount.toNat (b.size.toNat - initial.read.toNat % b.size.toNat) =
        amount.toNat by omega]
  · -- `copy_fn` failed: `Read` returns its error and leaves the pointers alone
    rw [if_pos hst] at h
    simp only [Prod.mk.injEq] at h
    obtain ⟨rfl, rfl⟩ := h
    exact .ofConsumer ⟨hs.avail_le, hs.producer, trivial⟩ rfl rfl (by simp [System.Misuse])

theorem stepOk_copyAfterBreak {initial : RingPointers} {amount : UInt32} {bytesBeforeBreak : ℕ} {dst : List α}
    (hs : SystemInv ⟨b, p, .copyAfterBreak initial amount bytesBeforeBreak dst⟩) {status : ZxStatus}
    (h : System.step ⟨b, p, .copyAfterBreak initial amount bytesBeforeBreak dst⟩ (.copy status) = (t, ret)) :
    StepOk ⟨b, p, .copyAfterBreak initial amount bytesBeforeBreak dst⟩ (.copy status) t ret := by
  obtain ⟨hr, rfl, hlt, rfl⟩ : ConsumerInv b (.copyAfterBreak initial amount bytesBeforeBreak dst) := hs.consumer
  have hA : (availableData b.loadPointers).toNat ≤ b.size.toNat := hs.avail_le
  have hdst := b.cellsFrom_append_subspan initial.read hlt (hr.le_initial.trans (hr.initial_le.trans hA))
  simp only [System.step, hdst] at h
  by_cases hst : status = .ok
  · rw [if_neg (not_not_intro hst), advanceAfterCopy_eq hr.le_initial] at h
    simp only [Prod.mk.injEq] at h
    obtain ⟨rfl, rfl⟩ := h
    exact .ofConsumer ⟨hs.avail_le, hs.producer, hr.advancing fun d hd ↦ (Option.some.inj hd).symm⟩ rfl rfl
      (by simp [System.Misuse])
  · rw [if_pos hst] at h
    simp only [Prod.mk.injEq] at h
    obtain ⟨rfl, rfl⟩ := h
    exact .ofConsumer ⟨hs.avail_le, hs.producer, trivial⟩ rfl rfl (by simp [System.Misuse])

theorem stepOk_drain (hs : SystemInv ⟨b, p, .idle⟩) (h : System.step ⟨b, p, .idle⟩ .drain = (t, ret)) :
    StepOk ⟨b, p, .idle⟩ .drain t ret := by
  simp only [System.step] at h
  by_cases h0 : availableData b.loadPointers = 0
  · rw [if_pos h0] at h
    simp only [Prod.mk.injEq] at h
    obtain ⟨rfl, rfl⟩ := h
    exact .stay hs rfl rfl (by simp [System.Misuse])
  · rw [if_neg h0, advanceReadPointer, if_pos (show availableData b.loadPointers ≤ availableData b.loadPointers from
      UInt32.le_iff_toNat_le.mpr le_rfl)] at h
    simp only [Prod.mk.injEq] at h
    obtain ⟨rfl, rfl⟩ := h
    exact .ofConsumer ⟨hs.avail_le, hs.producer, ReadingInv.advancing ⟨rfl, le_rfl, le_rfl⟩ (by simp)⟩ rfl rfl
      (by simp [System.Misuse])

theorem stepOk_consumerCas {initial : RingPointers} {delta : UInt32} {loop : CasLoop} {dst : Option (List α)}
    (hs : SystemInv ⟨b, p, .advancing initial delta loop dst⟩) {spurious : Bool}
    (h : System.step ⟨b, p, .advancing initial delta loop dst⟩ (.consumerCas spurious) = (t, ret)) :
    StepOk ⟨b, p, .advancing initial delta loop dst⟩ (.consumerCas spurious) t ret := by
  obtain ⟨hr, hstart, htarget, hdst⟩ : ConsumerInv b (.advancing initial delta loop dst) := hs.consumer
  have hp : ProducerInv b p := hs.producer
  have hA0 : (availableData b.loadPointers).toNat ≤ b.size.toNat := hs.avail_le
  simp only [System.step, advanceReadPointerStep] at h
  by_cases hcas : spurious = false ∧ b.combinedPointers = loop.starting
  · rw [advanceStep_of_eq hcas.2 hcas.1] at h
    simp only [Prod.mk.injEq] at h
    obtain ⟨rfl, rfl⟩ := h
    -- the word stored is the one loaded, with the read pointer moved on
    have hlp : splitCombinedPointers loop.target = ⟨b.loadPointers.read + delta, b.loadPointers.write⟩ := by
      rw [htarget, ← hcas.2, hr.read_eq]
      rfl
    have hD : delta.toNat ≤ (availableData b.loadPointers).toNat := hr.le_initial.trans hr.initial_le
    have hA : (availableData (splitCombinedPointers loop.target)).toNat =
        (availableData b.loadPointers).toNat - delta.toNat := by
      rw [hlp]
      exact availableData_add_read _ hD
    have hinv : SystemInv ⟨{ b with combinedPointers := loop.target }, p, .idle⟩ :=
      ⟨by simp only [SpscBuffer.loadPointers_combinedPointers, hA]; omega,
        hp.of_consume (by rw [hlp]) (by rw [hA]; omega), trivial⟩
    -- the bytes taken, then those left, are the bytes that were queued
    have hq : b.cellsFrom initial.read delta.toNat ++
        SpscBuffer.queued { b with combinedPointers := loop.target } = b.queued := by
      simp only [SpscBuffer.queued, SpscBuffer.loadPointers_combinedPointers, SpscBuffer.cellsFrom_combinedPointers]
      rw [hA, hlp, hr.read_eq]
      exact b.cellsFrom_append_add _ _ hD
    cases dst with
    | none =>
      refine ⟨hinv, ?_, by simp [System.Misuse], rfl⟩
      simp only [System.content, SpscCall.delivered, SpscCall.accepted, ← List.append_assoc, hq, List.append_nil]
      exact congrArg (b.queued ++ ·) (System.pending_publish _ _ _ _ _)
    | some d =>
      -- `Read` returns the bytes it copied, as `Drain` lets the same go
      rw [hdst d rfl]
      refine ⟨hinv, ?_, by simp [System.Misuse], rfl⟩
      simp only [System.content, SpscCall.delivered, SpscCall.accepted, ← List.append_assoc, hq, List.append_nil]
      exact congrArg (b.queued ++ ·) (System.pending_publish _ _ _ _ _)
  · have hown : (splitCombinedPointers b.combinedPointers).read = initial.read := hr.read_eq.symm
    rw [advanceStep_of_ne hcas hown] at h
    simp only [Prod.mk.injEq] at h
    obtain ⟨rfl, rfl⟩ := h
    exact .ofConsumer ⟨hs.avail_le, hp, hr, hown, by simp, hdst⟩ rfl rfl (by simp [System.Misuse])

/-- Every step from a state of the invariant, by the call and the thread's
program point; a call for a thread that is elsewhere leaves everything alone. -/
theorem SystemInv.stepOk {s : System α} (hs : SystemInv s) (call : SpscCall α) :
    StepOk s call (s.step call).1 (s.step call).2 := by
  obtain ⟨b, p, c⟩ := s
  cases call with
  | reserve size =>
    cases p
    case idle => exact stepOk_reserve hs rfl
    all_goals exact .stay hs rfl rfl (by simp [System.step, System.Misuse])
  | write data =>
    cases p
    case writing r => exact stepOk_write hs rfl
    all_goals exact .stay hs rfl rfl (by simp [System.step, System.Misuse])
  | commit =>
    cases p
    case writing r => exact stepOk_commit hs rfl
    all_goals exact .stay hs rfl rfl (by simp [System.step, System.Misuse])
  | producerCas spurious =>
    cases p
    case committing initial delta loop => exact stepOk_producerCas hs rfl
    all_goals exact .stay hs rfl rfl (by simp [System.step, System.Misuse])
  | read len =>
    cases c
    case idle => exact stepOk_read hs rfl
    all_goals exact .stay hs rfl rfl (by simp [System.step, System.Misuse])
  | copy status =>
    cases c
    case copyBeforeBreak initial amount region1 => exact stepOk_copyBeforeBreak hs rfl
    case copyAfterBreak initial amount bytesBeforeBreak dst => exact stepOk_copyAfterBreak hs rfl
    all_goals exact .stay hs rfl rfl (by simp [System.step, System.Misuse])
  | drain =>
    cases c
    case idle => exact stepOk_drain hs rfl
    all_goals exact .stay hs rfl rfl (by simp [System.step, System.Misuse])
  | consumerCas spurious =>
    cases c
    case advancing initial delta loop dst => exact stepOk_consumerCas hs rfl
    all_goals exact .stay hs rfl rfl (by simp [System.step, System.Misuse])

end Steps

/-! ### Every run -/

/-- The calls `calls`, in the order of their interleaving, from the buffer
`Init` returned. -/
def spscRun (b : SpscBuffer α) (calls : List (SpscCall α)) : System α × List (SpscReturn α) :=
  run System.step (System.start b) calls

theorem SpscBuffer.combinedPointers_of_init {b : SpscBuffer α} {size : UInt32} {allocated : Option (ℕ → α)}
    (h : SpscBuffer.init none size allocated = .ok b) : b.combinedPointers = 0 := by
  unfold SpscBuffer.init at h
  split_ifs at h
  cases allocated with
  | none => cases h
  | some storage =>
    cases h
    rfl

section Run

variable {b : SpscBuffer α} (h0 : b.combinedPointers = 0)
include h0

theorem availableData_start : availableData b.loadPointers = 0 := by
  rw [SpscBuffer.loadPointers, h0]
  rfl

theorem SystemInv.start : SystemInv (System.start b) :=
  ⟨show (availableData b.loadPointers).toNat ≤ b.size.toNat by
    rw [availableData_start h0]
    exact Nat.zero_le _, trivial, trivial⟩

theorem content_start : (System.start b).content = [] := by
  simp [System.content, System.pending, System.start, SpscBuffer.queued, availableData_start h0,
    SpscBuffer.cellsFrom, ringRead]

/-- Every state a run reaches keeps the invariant and the ring `Init` made. -/
theorem spscRun_inv (calls : List (SpscCall α)) :
    SystemInv (spscRun b calls).1 ∧ (spscRun b calls).1.buffer.size = b.size :=
  run_invariant (fun s ↦ SystemInv s ∧ s.buffer.size = b.size)
    (fun _ call hs ↦ ⟨(hs.1.stepOk call).inv, (hs.1.stepOk call).size_eq.trans hs.2⟩)
    ⟨SystemInv.start h0, rfl⟩ calls

end Run

/-- A `copy_fn` that fails ends the `Read` with the pointers as they were. -/
theorem System.step_copy_of_ne_ok (s : System α) {status : ZxStatus} (hst : status ≠ .ok) :
    (s.step (.copy status)).1 = { s with consumer := .idle } ∨ (s.step (.copy status)).1 = s := by
  obtain ⟨b, p, c⟩ := s
  cases c
  case copyBeforeBreak initial amount region1 => exact .inl (by simp [System.step, hst])
  case copyAfterBreak initial amount bytesBeforeBreak dst => exact .inl (by simp [System.step, hst])
  all_goals exact .inr rfl

/-- `Reserve` fails for want of space just when the cells asked for are more
than those free. -/
theorem System.step_reserve_noSpace_iff {b : SpscBuffer α} {c : Consumer α}
    (hA : (availableData b.loadPointers).toNat ≤ b.size.toNat) (size : UInt32) :
    (System.step ⟨b, .idle, c⟩ (.reserve size)).2 = .reserved (.error .errNoSpace) ↔
      b.size.toNat - (availableData b.loadPointers).toNat < size.toNat := by
  simp only [System.step, SpscBuffer.reserve_eq hA]
  by_cases hsp : b.size.toNat - (availableData b.loadPointers).toNat < size.toNat
  · simp [hsp]
  · rw [if_neg hsp]
    split_ifs <;> simp [hsp]

theorem spscRun_lossless {size : UInt32} {allocated : Option (ℕ → α)} {b : SpscBuffer α}
    (hinit : SpscBuffer.init none size allocated = .ok b) (calls : List (SpscCall α)) :
    (availableData (spscRun b calls).1.buffer.loadPointers).toNat ≤ b.size.toNat ∧
      items SpscCall.delivered calls (spscRun b calls).2 ++ (spscRun b calls).1.buffer.queued ++
          (spscRun b calls).1.pending = items SpscCall.accepted calls (spscRun b calls).2 ∧
      (∀ status, status ≠ .ok →
        ((spscRun b calls).1.step (.copy status)).1 = { (spscRun b calls).1 with consumer := .idle } ∨
          ((spscRun b calls).1.step (.copy status)).1 = (spscRun b calls).1) ∧
      ((spscRun b calls).1.producer = .idle → ∀ n : UInt32,
        ((spscRun b calls).1.step (.reserve n)).2 = .reserved (.error .errNoSpace) ↔
          b.size.toNat - (availableData (spscRun b calls).1.buffer.loadPointers).toNat < n.toNat) := by
  have h0 := SpscBuffer.combinedPointers_of_init hinit
  obtain ⟨hinv, hsize⟩ := spscRun_inv h0 calls
  refine ⟨hsize ▸ hinv.avail_le, ?_, fun status ↦ System.step_copy_of_ne_ok _, ?_⟩
  · -- the bytes delivered and those in flight are the bytes written
    have hfifo := run_fifo SystemInv System.content SpscCall.accepted SpscCall.delivered
      (fun s call hs ↦ (hs.stepOk call).inv) (fun s call hs ↦ (hs.stepOk call).fifo) (SystemInv.start h0) calls
    rw [content_start h0, List.nil_append] at hfifo
    rw [List.append_assoc]
    exact hfifo
  · intro hp
    rw [← hsize]
    generalize (spscRun b calls).1 = s at hinv hp
    obtain ⟨b', p, c⟩ := s
    cases hp
    exact System.step_reserve_noSpace_iff hinv.avail_le

/-- A ring of four cells, as `Init(4)` makes it. -/
def fourCells : SpscBuffer ℕ := ⟨4, ⟨by decide, by decide⟩, fun _ ↦ 0, 0⟩

/-- Two reservations of three bytes, the second across the ring break, with
reads between: each thread's compare-exchange fails once, against the other's
store or spuriously, and the last `Read` crosses the break. -/
def twoWrapCalls : List (SpscCall ℕ) :=
  [.reserve 3, .write [1, 2, 3], .commit, .producerCas false,
    .read 2, .copy .ok, .consumerCas false,
    .reserve 3, .write [4, 5], .read 4, .write [6], .commit, .copy .ok, .consumerCas false,
    .producerCas false, .producerCas false,
    .read 5, .copy .ok, .copy .ok, .consumerCas true, .consumerCas false]

theorem spscRun_lossless_twoWrapCalls :
    SpscBuffer.init none 4 (some fun _ ↦ 0) = .ok fourCells ∧
      items SpscCall.delivered twoWrapCalls (spscRun fourCells twoWrapCalls).2 ++
          (spscRun fourCells twoWrapCalls).1.buffer.queued ++ (spscRun fourCells twoWrapCalls).1.pending =
        items SpscCall.accepted twoWrapCalls (spscRun fourCells twoWrapCalls).2 := by
  have hinit : SpscBuffer.init none 4 (some fun _ ↦ 0) = .ok fourCells := rfl
  exact ⟨hinit, (spscRun_lossless hinit twoWrapCalls).2.1⟩

example : items SpscCall.delivered twoWrapCalls (spscRun fourCells twoWrapCalls).2 = [1, 2, 3, 4, 5, 6] := by
  decide

example : ((spscRun fourCells [.reserve 2]).1.step (.write [7, 8, 9])).2 = .panic := by
  decide

end Zircon.Spsc
