import Mathlib
import Zircon.Types

/-!
# FIFO dispatchers

`FifoDispatcher` (`object/fifo_dispatcher.cc`) keeps, for each endpoint of a
pair, a ring of `elem_count_` elements that the peer's writes fill and the
endpoint's own reads drain.  The positions are two free-running `uint32_t`
counters, `head_` and `tail_`, and a counter names the slot
`counter % elem_count_`.

One direction of a pair is modelled: the ring of the reading endpoint, with
its `ZX_FIFO_READABLE` signal and the writer's `ZX_FIFO_WRITABLE` signal, which
only this direction's calls change.  An element is a value of `α` (the copies
move whole elements of `elem_size_` bytes), and user memory is a function from
element index to element.  Each user copy is an oracle call that may fault.

When `elem_count_` divides `2 ^ 32` the counters name slots consistently
across the wrap and every run refines a bounded queue.  Otherwise the slot of
`head_` jumps at the wrap, and a run of `2 ^ 32 + 1` elements through a ring
of three loses one.
-/

namespace Zircon.Object

/-- `ZX_FIFO_MAX_SIZE_BYTES` (`zircon/types.h`): one page. -/
def zxFifoMaxSizeBytes : ℕ := 4096

/-- The ring of one endpoint of a FIFO pair. -/
structure FifoDispatcher (α : Type) where
  elemCount : UInt32
  elemSize : UInt32
  head : UInt32
  tail : UInt32
  /-- `data_`, by element slot. -/
  data : ℕ → α
  /-- `ZX_FIFO_READABLE` on this endpoint. -/
  readable : Bool
  /-- `ZX_FIFO_WRITABLE` on the peer, the endpoint whose writes fill this ring. -/
  peerWritable : Bool
  elemCount_pos : 0 < elemCount

/-- What `WriteSelfLocked` and `ReadToUserLocked` return: a status, a captured
copy fault, or `ZX_OK` with what the call transferred. -/
inductive FifoResult (β : Type) where
  | status (s : ZxStatus)
  | copyFault
  | ok (value : β)

variable {α : Type}

/-- `FifoDispatcher::Create` for one endpoint: the size checks, then a ring
whose storage holds `init` (the allocation is not zeroed), with both counters
at zero and `ZX_FIFO_WRITABLE` asserted.  Allocation failures are not
modelled. -/
def FifoDispatcher.create (count elemsize : ℕ) (init : ℕ → α) :
    Except ZxStatus (FifoDispatcher α) :=
  if h : count = 0 ∨ elemsize = 0 ∨ count > zxFifoMaxSizeBytes ∨
      elemsize > zxFifoMaxSizeBytes ∨ count * elemsize > zxFifoMaxSizeBytes then
    .error .errOutOfRange
  else
    .ok { elemCount := count.toUInt32, elemSize := elemsize.toUInt32, head := 0, tail := 0,
          data := init, readable := false, peerWritable := true,
          elemCount_pos := by
            rw [UInt32.lt_iff_toNat_lt]
            simp only [UInt32.toNat_zero, UInt32.toNat_ofNat', zxFifoMaxSizeBytes] at h ⊢
            omega }

namespace FifoDispatcher

/-- The slots of one chunk: `toCopy` elements of `src`, from its element
`copied` on, written to the slots from `offset`. -/
def copyIn (d : ℕ → α) (offset toCopy : ℕ) (src : ℕ → α) (copied : ℕ) : ℕ → α :=
  fun i ↦ if offset ≤ i ∧ i < offset + toCopy then src (copied + (i - offset)) else d i

/-- `elem_count_ - counter % elem_count_`: the slots from a counter's slot to the
end of the ring. -/
def slotsToEnd (f : FifoDispatcher α) (ctr : UInt32) : ℕ :=
  (f.elemCount - ctr % f.elemCount).toNat

theorem slotsToEnd_pos (f : FifoDispatcher α) (ctr : UInt32) : 0 < f.slotsToEnd ctr := by
  have hlt : ctr % f.elemCount < f.elemCount := UInt32.mod_lt ctr f.elemCount_pos
  rw [UInt32.lt_iff_toNat_lt] at hlt
  rw [slotsToEnd, UInt32.toNat_sub_of_le _ _ (UInt32.le_of_lt hlt)]
  omega

/-- `to_copy`: the elements one chunk moves when `count` remain, up to the end
of the ring. -/
def chunkLen (f : FifoDispatcher α) (ctr : UInt32) (count : ℕ) : ℕ :=
  min count (f.slotsToEnd ctr)

theorem chunkLen_pos (f : FifoDispatcher α) (ctr : UInt32) {count : ℕ} (hc : count ≠ 0) :
    0 < f.chunkLen ctr count := by
  have := f.slotsToEnd_pos ctr
  rw [chunkLen]
  omega

theorem chunkLen_le (f : FifoDispatcher α) (ctr : UInt32) (count : ℕ) :
    f.chunkLen ctr count ≤ count :=
  min_le_left _ _

/-! ### Counter arithmetic

The counters are `uint32_t` and wrap; these are the facts about their
differences that the calls use. -/

theorem toNat_add_sub (a b : UInt32) (m : ℕ) (h : (a - b).toNat + m < 2 ^ 32) :
    (a + m.toUInt32 - b).toNat = (a - b).toNat + m := by
  have ha := a.toNat_lt
  have hb := b.toNat_lt
  simp only [UInt32.toNat_sub, UInt32.toNat_add, UInt32.toNat_ofNat'] at h ⊢
  omega

theorem toNat_sub_add (a b : UInt32) (m : ℕ) (h : m ≤ (a - b).toNat) :
    (a - (b + m.toUInt32)).toNat = (a - b).toNat - m := by
  have ha := a.toNat_lt
  have hb := b.toNat_lt
  simp only [UInt32.toNat_sub, UInt32.toNat_add, UInt32.toNat_ofNat'] at h ⊢
  omega

theorem toNat_sub_eq_zero (a b : UInt32) : (a - b).toNat = 0 ↔ a = b := by
  have ha := a.toNat_lt
  have hb := b.toNat_lt
  rw [UInt32.ext_iff, UInt32.toNat_sub]
  omega

/-- `head_ - tail_`: the elements queued in the ring. -/
def queued (f : FifoDispatcher α) : ℕ := (f.head - f.tail).toNat

/-- `elem_count_ - (head_ - tail_)`: the empty slots. -/
def freeSlots (f : FifoDispatcher α) : ℕ := (f.elemCount - (f.head - f.tail)).toNat

/-- One chunk of a write: `toCopy` elements of `src`, from its element
`copied` on, placed from `head_`'s slot, and `head_` advanced past them. -/
def fillChunk (f : FifoDispatcher α) (src : ℕ → α) (copied toCopy : ℕ) : FifoDispatcher α :=
  { f with data := copyIn f.data (f.head % f.elemCount).toNat toCopy src copied,
           head := f.head + toCopy.toUInt32 }

@[simp] theorem elemCount_fillChunk (f : FifoDispatcher α) (src : ℕ → α) (copied t : ℕ) :
    (f.fillChunk src copied t).elemCount = f.elemCount := rfl
@[simp] theorem elemSize_fillChunk (f : FifoDispatcher α) (src : ℕ → α) (copied t : ℕ) :
    (f.fillChunk src copied t).elemSize = f.elemSize := rfl
@[simp] theorem head_fillChunk (f : FifoDispatcher α) (src : ℕ → α) (copied t : ℕ) :
    (f.fillChunk src copied t).head = f.head + t.toUInt32 := rfl
@[simp] theorem tail_fillChunk (f : FifoDispatcher α) (src : ℕ → α) (copied t : ℕ) :
    (f.fillChunk src copied t).tail = f.tail := rfl

/-- The copy loop of `WriteSelfLocked`, with `count` elements still to copy and
`copied` already copied.  Each chunk runs from `head_`'s slot to at most the end
of the ring; a faulting chunk ends the loop with the state it found. -/
def writeLoop (src : ℕ → α) (copyOk : ℕ → Bool) (f : FifoDispatcher α) (count copied : ℕ) :
    Except (FifoDispatcher α) (FifoDispatcher α) :=
  if _hc : count = 0 then .ok f
  else if copyOk copied then
    writeLoop src copyOk (f.fillChunk src copied (f.chunkLen f.head count))
      (count - f.chunkLen f.head count) (copied + f.chunkLen f.head count)
  else .error f
termination_by count
decreasing_by
  have := f.chunkLen_pos f.head _hc
  omega

/-- The signals at the end of a successful write: the ring has become readable
if it was empty, and the writer is no longer writable if the ring is now full. -/
def signalWrite (wasEmpty : Prop) [Decidable wasEmpty] (g : FifoDispatcher α) :
    FifoDispatcher α :=
  let g := if wasEmpty then { g with readable := true } else g
  if g.elemCount = g.head - g.tail then { g with peerWritable := false } else g

/-- `FifoDispatcher::WriteSelfLocked`, called on the reading endpoint by its
peer's `WriteFromUser`.  A faulting copy rolls `head_` back but keeps what the
earlier chunks wrote. -/
def writeSelfLocked (f : FifoDispatcher α) (elemSize : ℕ) (src : ℕ → α) (count : ℕ)
    (copyOk : ℕ → Bool) : FifoDispatcher α × FifoResult ℕ :=
  if elemSize ≠ f.elemSize.toNat then (f, .status .errOutOfRange)
  else if count = 0 then (f, .status .errOutOfRange)
  else if f.freeSlots = 0 then (f, .status .errShouldWait)
  else
    match writeLoop src copyOk f (min count f.freeSlots) 0 with
    | .error g => ({ g with head := f.head }, .copyFault)
    | .ok g => (signalWrite (f.freeSlots = f.elemCount.toNat) g, .ok (g.head - f.head).toNat)

/-- The elements one chunk of a read copies out: `toCopy` slots from `tail_`'s. -/
def chunkOut (f : FifoDispatcher α) (toCopy : ℕ) : List α :=
  (List.range toCopy).map fun j ↦ f.data ((f.tail % f.elemCount).toNat + j)

/-- The copy loop of `ReadToUserLocked`; it returns the elements copied out, in
order. -/
def readLoop (copyOk : ℕ → Bool) (f : FifoDispatcher α) (count copied : ℕ) :
    Option (FifoDispatcher α × List α) :=
  if _hc : count = 0 then some (f, [])
  else if copyOk copied then
    (readLoop copyOk { f with tail := f.tail + (f.chunkLen f.tail count).toUInt32 }
        (count - f.chunkLen f.tail count) (copied + f.chunkLen f.tail count)).map
      fun r ↦ (r.1, f.chunkOut (f.chunkLen f.tail count) ++ r.2)
  else none
termination_by count
decreasing_by
  have := f.chunkLen_pos f.tail _hc
  omega

/-- The signals at the end of a successful read: the writer has become writable
if the ring was full and the peer is still there, and the ring is no longer
readable if it is now empty. -/
def signalRead (wasFull : Prop) [Decidable wasFull] (g : FifoDispatcher α) : FifoDispatcher α :=
  let g := if wasFull then { g with peerWritable := true } else g
  if g.head - g.tail = 0 then { g with readable := false } else g

/-- `FifoDispatcher::ReadToUserLocked`; `hasPeer` says whether `peer()` is still
set.  A faulting copy rolls `tail_` back. -/
def readToUserLocked (f : FifoDispatcher α) (elemSize count : ℕ) (copyOk : ℕ → Bool)
    (hasPeer : Bool) : FifoDispatcher α × FifoResult (List α) :=
  if elemSize ≠ f.elemSize.toNat then (f, .status .errOutOfRange)
  else if count = 0 then (f, .status .errOutOfRange)
  else if f.queued = 0 then (f, .status (if hasPeer then .errShouldWait else .errPeerClosed))
  else
    match readLoop copyOk f (min count f.queued) 0 with
    | none => (f, .copyFault)
    | some (g, out) => (signalRead (f.queued = f.elemCount.toNat ∧ hasPeer) g, .ok out)

/-! ### The copy loops -/

section Loops

variable (src : ℕ → α) (copyOk : ℕ → Bool)

theorem writeLoop_zero (f : FifoDispatcher α) (copied : ℕ) :
    writeLoop src copyOk f 0 copied = .ok f := by
  rw [writeLoop, dif_pos rfl]

theorem writeLoop_of_copyOk {f : FifoDispatcher α} {count copied : ℕ} (hc : count ≠ 0)
    (hok : copyOk copied = true) :
    writeLoop src copyOk f count copied =
      writeLoop src copyOk (f.fillChunk src copied (f.chunkLen f.head count))
        (count - f.chunkLen f.head count) (copied + f.chunkLen f.head count) := by
  rw [writeLoop, dif_neg hc, if_pos hok]

theorem writeLoop_of_fault {f : FifoDispatcher α} {count copied : ℕ} (hc : count ≠ 0)
    (hok : copyOk copied = false) : writeLoop src copyOk f count copied = .error f := by
  rw [writeLoop, dif_neg hc]
  simp [hok]

/-- A write that fits before the end of the ring is one chunk. -/
theorem writeLoop_single {f : FifoDispatcher α} {count copied : ℕ} (hc : count ≠ 0)
    (hle : count ≤ f.slotsToEnd f.head) (hok : copyOk copied = true) :
    writeLoop src copyOk f count copied = .ok (f.fillChunk src copied count) := by
  rw [writeLoop_of_copyOk src copyOk hc hok, chunkLen, min_eq_left hle, Nat.sub_self,
    writeLoop_zero]

theorem readLoop_zero (f : FifoDispatcher α) (copied : ℕ) :
    readLoop copyOk f 0 copied = some (f, []) := by
  rw [readLoop, dif_pos rfl]

theorem readLoop_of_copyOk {f : FifoDispatcher α} {count copied : ℕ} (hc : count ≠ 0)
    (hok : copyOk copied = true) :
    readLoop copyOk f count copied =
      (readLoop copyOk { f with tail := f.tail + (f.chunkLen f.tail count).toUInt32 }
          (count - f.chunkLen f.tail count) (copied + f.chunkLen f.tail count)).map
        fun r ↦ (r.1, f.chunkOut (f.chunkLen f.tail count) ++ r.2) := by
  rw [readLoop, dif_neg hc, if_pos hok]

theorem readLoop_of_fault {f : FifoDispatcher α} {count copied : ℕ} (hc : count ≠ 0)
    (hok : copyOk copied = false) : readLoop copyOk f count copied = none := by
  rw [readLoop, dif_neg hc]
  simp [hok]

/-- A read that fits before the end of the ring is one chunk. -/
theorem readLoop_single {f : FifoDispatcher α} {count copied : ℕ} (hc : count ≠ 0)
    (hle : count ≤ f.slotsToEnd f.tail) (hok : copyOk copied = true) :
    readLoop copyOk f count copied =
      some ({ f with tail := f.tail + count.toUInt32 }, f.chunkOut count) := by
  rw [readLoop_of_copyOk copyOk hc hok, chunkLen, min_eq_left hle, Nat.sub_self, readLoop_zero]
  simp

/-- The write loop moves only `data_` and `head_`, and on success it has moved
`head_` by exactly `count`. -/
theorem writeLoop_ok {f g : FifoDispatcher α} {count copied : ℕ}
    (h : writeLoop src copyOk f count copied = .ok g) :
    g = { f with data := g.data, head := f.head + count.toUInt32 } := by
  induction f, count, copied using writeLoop.induct src copyOk generalizing g with
  | case1 f copied =>
    rw [writeLoop_zero] at h
    cases h
    simp
  | case2 f count copied hc hok ih =>
    rw [writeLoop_of_copyOk src copyOk hc hok] at h
    rw [ih h]
    simp only [fillChunk, mk.injEq, true_and, and_true]
    rw [add_assoc, ← UInt32.ofNat_add, Nat.add_sub_cancel' (f.chunkLen_le f.head count)]
  | case3 f count copied hc hok =>
    rw [writeLoop_of_fault src copyOk hc (by simpa using hok)] at h
    cases h

/-- A faulting write loop also moves only `data_` and `head_`. -/
theorem writeLoop_error {f g : FifoDispatcher α} {count copied : ℕ}
    (h : writeLoop src copyOk f count copied = .error g) :
    g = { f with data := g.data, head := g.head } := by
  induction f, count, copied using writeLoop.induct src copyOk generalizing g with
  | case1 f copied =>
    rw [writeLoop_zero] at h
    cases h
  | case2 f count copied hc hok ih =>
    rw [writeLoop_of_copyOk src copyOk hc hok] at h
    rw [ih h]
    rfl
  | case3 f count copied hc hok =>
    rw [writeLoop_of_fault src copyOk hc (by simpa using hok)] at h
    cases h
    rfl

/-- The read loop moves only `tail_`, by exactly `count`. -/
theorem readLoop_some {f g : FifoDispatcher α} {count copied : ℕ} {out : List α}
    (h : readLoop copyOk f count copied = some (g, out)) :
    g = { f with tail := f.tail + count.toUInt32 } := by
  induction f, count, copied using readLoop.induct copyOk generalizing g out with
  | case1 f copied =>
    rw [readLoop_zero] at h
    cases h
    simp
  | case2 f count copied hc hok ih =>
    rw [readLoop_of_copyOk copyOk hc hok] at h
    obtain ⟨⟨g', out'⟩, hr, hgo⟩ := Option.map_eq_some_iff.mp h
    cases hgo
    rw [ih hr]
    simp only [mk.injEq, true_and, and_true]
    rw [add_assoc, ← UInt32.ofNat_add, Nat.add_sub_cancel' (f.chunkLen_le f.tail count)]
  | case3 f count copied hc hok =>
    rw [readLoop_of_fault copyOk hc (by simpa using hok)] at h
    cases h

end Loops

/-! ### Creation -/

theorem create_eq_ok {count elemsize : ℕ} {init : ℕ → α} {f : FifoDispatcher α}
    (h : create count elemsize init = .ok f) :
    f.elemCount.toNat = count ∧ f.queued = 0 ∧ f.readable = false ∧ f.peerWritable = true := by
  unfold create at h
  split_ifs at h with hbad
  cases h
  simp only [zxFifoMaxSizeBytes] at hbad
  refine ⟨?_, by simp [queued], rfl, rfl⟩
  simp only [Nat.toUInt32, UInt32.toNat_ofNat']
  omega

/-! ### The calls -/

section Calls

variable {src : ℕ → α} {copyOk : ℕ → Bool} {f g : FifoDispatcher α} {elemSize count : ℕ}

theorem freeSlots_lt (f : FifoDispatcher α) : f.freeSlots < 2 ^ 32 :=
  UInt32.toNat_lt _

theorem full_iff (g : FifoDispatcher α) :
    g.elemCount = g.head - g.tail ↔ g.queued = g.elemCount.toNat := by
  rw [← UInt32.toNat_inj, queued, eq_comm]

theorem empty_iff (g : FifoDispatcher α) : g.head - g.tail = 0 ↔ g.queued = 0 := by
  rw [← UInt32.toNat_inj, queued, UInt32.toNat_zero]

theorem signalWrite_eq (wasEmpty : Prop) [Decidable wasEmpty] (g : FifoDispatcher α) :
    signalWrite wasEmpty g =
      { g with readable := g.readable || decide wasEmpty,
               peerWritable := g.peerWritable && decide (g.queued ≠ g.elemCount.toNat) } := by
  unfold signalWrite
  by_cases he : wasEmpty <;> by_cases hfull : g.queued = g.elemCount.toNat <;>
    simp [he, hfull, full_iff]

theorem signalRead_eq (wasFull : Prop) [Decidable wasFull] (g : FifoDispatcher α) :
    signalRead wasFull g =
      { g with peerWritable := g.peerWritable || decide wasFull,
               readable := g.readable && decide (g.queued ≠ 0) } := by
  unfold signalRead
  by_cases hf : wasFull <;> by_cases he : g.queued = 0 <;> simp [hf, he, empty_iff]

section Projections

variable (w : Prop) {dw : Decidable w} (g : FifoDispatcher α)

-- The signal updates move no counter and no slot.
@[simp] theorem elemCount_signalWrite : (signalWrite w g).elemCount = g.elemCount := by
  rw [signalWrite_eq]
@[simp] theorem elemSize_signalWrite : (signalWrite w g).elemSize = g.elemSize := by
  rw [signalWrite_eq]
@[simp] theorem head_signalWrite : (signalWrite w g).head = g.head := by rw [signalWrite_eq]
@[simp] theorem tail_signalWrite : (signalWrite w g).tail = g.tail := by rw [signalWrite_eq]
@[simp] theorem data_signalWrite : (signalWrite w g).data = g.data := by rw [signalWrite_eq]
@[simp] theorem elemCount_signalRead : (signalRead w g).elemCount = g.elemCount := by
  rw [signalRead_eq]
@[simp] theorem elemSize_signalRead : (signalRead w g).elemSize = g.elemSize := by
  rw [signalRead_eq]
@[simp] theorem head_signalRead : (signalRead w g).head = g.head := by rw [signalRead_eq]
@[simp] theorem tail_signalRead : (signalRead w g).tail = g.tail := by rw [signalRead_eq]
@[simp] theorem data_signalRead : (signalRead w g).data = g.data := by rw [signalRead_eq]

end Projections

theorem writeSelfLocked_status {s : ZxStatus}
    (h : f.writeSelfLocked elemSize src count copyOk = (g, .status s)) : g = f := by
  unfold writeSelfLocked at h
  split_ifs at h
  · exact (Prod.mk.inj h).1.symm
  · exact (Prod.mk.inj h).1.symm
  · exact (Prod.mk.inj h).1.symm
  · split at h <;> simp at h

theorem writeSelfLocked_copyFault
    (h : f.writeSelfLocked elemSize src count copyOk = (g, .copyFault)) :
    ∃ w, writeLoop src copyOk f (min count f.freeSlots) 0 = .error w ∧
      g = { f with data := w.data } := by
  unfold writeSelfLocked at h
  split_ifs at h
  · simp at h
  · simp at h
  · simp at h
  split at h
  · rename_i w hw
    obtain ⟨rfl, -⟩ := Prod.mk.inj h
    refine ⟨w, hw, ?_⟩
    rw [writeLoop_error src copyOk hw]
  · simp at h

/-- Everything a successful write does: it accepts `min count avail` elements,
which the write loop placed, moves `head_` past them, and updates the two
signals. -/
theorem writeSelfLocked_ok {actual : ℕ}
    (h : f.writeSelfLocked elemSize src count copyOk = (g, .ok actual)) :
    count ≠ 0 ∧ f.freeSlots ≠ 0 ∧ actual = min count f.freeSlots ∧
      writeLoop src copyOk f actual 0 =
        .ok { f with data := g.data, head := f.head + actual.toUInt32 } ∧
      g = signalWrite (f.freeSlots = f.elemCount.toNat)
        { f with data := g.data, head := f.head + actual.toUInt32 } := by
  unfold writeSelfLocked at h
  split_ifs at h with hsize hc hfree
  · simp at h
  · simp at h
  · simp at h
  split at h
  · simp at h
  · rename_i w hw
    have hw' := writeLoop_ok src copyOk hw
    have hm : min count f.freeSlots < 2 ^ 32 := lt_of_le_of_lt (min_le_right _ _) f.freeSlots_lt
    have hactual : (w.head - f.head).toNat = min count f.freeSlots := by
      rw [hw', toNat_add_sub f.head f.head _ (by simpa using hm)]
      simp
    obtain ⟨rfl, hres⟩ := Prod.mk.inj h
    simp only [FifoResult.ok.injEq] at hres
    subst hres
    refine ⟨hc, hfree, hactual, ?_, ?_⟩
    · rw [hactual]
      simp only [signalWrite_eq]
      rw [← hw']
      exact hw
    · rw [hactual]
      rw [hw'] at hactual ⊢
      simp

theorem readToUserLocked_status {hasPeer : Bool} {s : ZxStatus}
    (h : f.readToUserLocked elemSize count copyOk hasPeer = (g, .status s)) : g = f := by
  unfold readToUserLocked at h
  split_ifs at h
  · exact (Prod.mk.inj h).1.symm
  · exact (Prod.mk.inj h).1.symm
  · exact (Prod.mk.inj h).1.symm
  · exact (Prod.mk.inj h).1.symm
  · split at h <;> simp at h

theorem readToUserLocked_copyFault {hasPeer : Bool}
    (h : f.readToUserLocked elemSize count copyOk hasPeer = (g, .copyFault)) : g = f := by
  unfold readToUserLocked at h
  split_ifs at h
  · simp at h
  · simp at h
  · simp at h
  · simp at h
  split at h
  · exact (Prod.mk.inj h).1.symm
  · simp at h

theorem readToUserLocked_ok {hasPeer : Bool} {out : List α}
    (h : f.readToUserLocked elemSize count copyOk hasPeer = (g, .ok out)) :
    count ≠ 0 ∧ f.queued ≠ 0 ∧
      readLoop copyOk f (min count f.queued) 0 =
        some ({ f with tail := f.tail + (min count f.queued).toUInt32 }, out) ∧
      g = signalRead (f.queued = f.elemCount.toNat ∧ hasPeer = true)
        { f with tail := f.tail + (min count f.queued).toUInt32 } := by
  unfold readToUserLocked at h
  split_ifs at h with hsize hc hq
  · simp at h
  · simp at h
  · simp at h
  · simp at h
  split at h
  · simp at h
  · rename_i w out' hw
    obtain ⟨rfl, hres⟩ := Prod.mk.inj h
    simp only [FifoResult.ok.injEq] at hres
    subst hres
    have hw' := readLoop_some copyOk hw
    subst hw'
    exact ⟨hc, hq, hw, rfl⟩

theorem writeSelfLocked_single (src : ℕ → α) (copyOk : ℕ → Bool)
    (hsize : elemSize = f.elemSize.toNat) (hfree : f.freeSlots ≠ 0) (hok : copyOk 0 = true) :
    f.writeSelfLocked elemSize src 1 copyOk =
      (signalWrite (f.freeSlots = f.elemCount.toNat) (f.fillChunk src 0 1), .ok 1) := by
  have hmin : min 1 f.freeSlots = 1 := min_eq_left (Nat.one_le_iff_ne_zero.mpr hfree)
  rw [writeSelfLocked, if_neg (not_not.mpr hsize), if_neg one_ne_zero, if_neg hfree, hmin,
    writeLoop_single src copyOk one_ne_zero (f.slotsToEnd_pos f.head) hok]
  simp [fillChunk]

theorem readToUserLocked_single (count : ℕ) (copyOk : ℕ → Bool) (hasPeer : Bool)
    (hsize : elemSize = f.elemSize.toNat) (hc : count ≠ 0) (hq : f.queued ≠ 0) (hle : min count f.queued ≤ f.slotsToEnd f.tail)
    (hok : copyOk 0 = true) :
    f.readToUserLocked elemSize count copyOk hasPeer =
      (signalRead (f.queued = f.elemCount.toNat ∧ hasPeer = true)
          { f with tail := f.tail + (min count f.queued).toUInt32 },
        .ok (f.chunkOut (min count f.queued))) := by
  have hm : min count f.queued ≠ 0 := by omega
  rw [readToUserLocked, if_neg (not_not.mpr hsize), if_neg hc, if_neg hq,
    readLoop_single copyOk hm hle hok]

end Calls

/-! ### Slots when `elem_count_` divides `2 ^ 32`

A counter names the slot `counter % elem_count_`.  The copy loops place the
`j`-th element of a chunk `j` slots after the slot of the counter where the
chunk starts; when `elem_count_` divides `2 ^ 32`, that is the slot of the
counter `j` further on, across the wrap too. -/

theorem add_mod_eq_of_lt {a j c : ℕ} (h : a % c + j < c) : (a + j) % c = a % c + j := by
  rw [Nat.add_mod, Nat.mod_eq_of_lt (lt_of_le_of_lt (Nat.le_add_left j _) h), Nat.mod_eq_of_lt h]

theorem eq_of_add_mod_eq {h a b c : ℕ} (ha : a < c) (hb : b < c)
    (e : (h + a) % c = (h + b) % c) : a = b :=
  (Nat.ModEq.add_left_cancel' h e).eq_of_lt_of_lt ha hb

theorem mod_add_mod_of_dvd {c M : ℕ} (hd : c ∣ M) (a j : ℕ) : (a % M + j) % c = (a + j) % c := by
  rw [Nat.add_mod, Nat.mod_mod_of_dvd _ hd, ← Nat.add_mod]

section Slots

variable {f g : FifoDispatcher α}

theorem slotsToEnd_eq (f : FifoDispatcher α) (ctr : UInt32) :
    f.slotsToEnd ctr = f.elemCount.toNat - ctr.toNat % f.elemCount.toNat := by
  have hlt : ctr % f.elemCount < f.elemCount := UInt32.mod_lt ctr f.elemCount_pos
  rw [slotsToEnd, UInt32.toNat_sub_of_le _ _ (UInt32.le_of_lt hlt), UInt32.toNat_mod]

theorem chunkLen_lt (f : FifoDispatcher α) (ctr : UInt32) (count : ℕ) :
    f.chunkLen ctr count < 2 ^ 32 := by
  have h1 : f.chunkLen ctr count ≤ f.slotsToEnd ctr := min_le_right _ _
  have h2 := f.elemCount.toNat_lt
  rw [slotsToEnd_eq] at h1
  omega

theorem chunk_slot (f : FifoDispatcher α) (ctr : UInt32) {count j : ℕ}
    (hj : j < f.chunkLen ctr count) :
    (ctr.toNat + j) % f.elemCount.toNat = (ctr % f.elemCount).toNat + j := by
  have h1 : f.chunkLen ctr count ≤ f.slotsToEnd ctr := min_le_right _ _
  have hpos : 0 < f.elemCount.toNat := UInt32.lt_iff_toNat_lt.mp f.elemCount_pos
  have hmod := Nat.mod_lt ctr.toNat hpos
  rw [slotsToEnd_eq] at h1
  rw [UInt32.toNat_mod, add_mod_eq_of_lt (by omega)]

theorem slot_advance (hdvd : f.elemCount.toNat ∣ 2 ^ 32) (ctr : UInt32) {m : ℕ}
    (hm : m < 2 ^ 32) (j : ℕ) :
    ((ctr + m.toUInt32).toNat + j) % f.elemCount.toNat =
      (ctr.toNat + (m + j)) % f.elemCount.toNat := by
  rw [UInt32.toNat_add, UInt32.toNat_ofNat', Nat.mod_eq_of_lt hm, mod_add_mod_of_dvd hdvd,
    Nat.add_assoc]

theorem head_toNat (f : FifoDispatcher α) :
    f.head.toNat = (f.tail.toNat + f.queued) % 2 ^ 32 := by
  have ht := f.tail.toNat_lt
  have hh := f.head.toNat_lt
  rw [queued, UInt32.toNat_sub]
  omega

/-- A write loop changes no slot outside the `count` slots from `head_`'s. -/
theorem writeLoop_data_of_not_mem {src : ℕ → α} {copyOk : ℕ → Bool} {count copied : ℕ}
    (hdvd : f.elemCount.toNat ∣ 2 ^ 32)
    (h : writeLoop src copyOk f count copied = .ok g ∨
      writeLoop src copyOk f count copied = .error g)
    {i : ℕ} (hi : ∀ j < count, (f.head.toNat + j) % f.elemCount.toNat ≠ i) :
    g.data i = f.data i := by
  induction f, count, copied using writeLoop.induct src copyOk with
  | case1 f copied =>
    rw [writeLoop_zero] at h
    rcases h with h | h <;> cases h
    rfl
  | case2 f count copied hc hok ih =>
    rw [writeLoop_of_copyOk src copyOk hc hok] at h
    set t := f.chunkLen f.head count
    have ht := f.chunkLen_le f.head count
    have hrest : ∀ j < count - t,
        ((f.fillChunk src copied t).head.toNat + j) % f.elemCount.toNat ≠ i := by
      intro j hj
      rw [fillChunk, slot_advance hdvd _ (f.chunkLen_lt f.head count)]
      exact hi (t + j) (by omega)
    rw [ih hdvd h hrest]
    have hout : ¬((f.head % f.elemCount).toNat ≤ i ∧ i < (f.head % f.elemCount).toNat + t) := by
      rintro ⟨hlo, hhi⟩
      have hj : i - (f.head % f.elemCount).toNat < t := by omega
      apply hi _ (lt_of_lt_of_le hj ht)
      rw [f.chunk_slot f.head hj]
      omega
    simp only [fillChunk, copyIn, if_neg hout]
  | case3 f count copied hc hok =>
    rw [writeLoop_of_fault src copyOk hc (by simpa using hok)] at h
    rcases h with h | h <;> cases h
    rfl

/-- A write loop that completes places the `j`-th element it copies in the slot
of counter `head_ + j`. -/
theorem writeLoop_data_slot {src : ℕ → α} {copyOk : ℕ → Bool} {count copied : ℕ}
    (hdvd : f.elemCount.toNat ∣ 2 ^ 32) (hcount : count ≤ f.elemCount.toNat)
    (h : writeLoop src copyOk f count copied = .ok g) {j : ℕ} (hj : j < count) :
    g.data ((f.head.toNat + j) % f.elemCount.toNat) = src (copied + j) := by
  induction f, count, copied using writeLoop.induct src copyOk generalizing j with
  | case1 f copied => omega
  | case2 f count copied hc hok ih =>
    rw [writeLoop_of_copyOk src copyOk hc hok] at h
    set t := f.chunkLen f.head count
    have ht := f.chunkLen_le f.head count
    have htlt := f.chunkLen_lt f.head count
    by_cases hjt : j < t
    · -- placed by this chunk, and outside the rest of the loop's window
      have hrest : ∀ j' < count - t, ((f.fillChunk src copied t).head.toNat + j') %
          f.elemCount.toNat ≠ (f.head.toNat + j) % f.elemCount.toNat := by
        intro j' hj' e
        rw [fillChunk, slot_advance hdvd _ htlt] at e
        have := eq_of_add_mod_eq (by omega) (by omega) e
        omega
      rw [writeLoop_data_of_not_mem (f := f.fillChunk src copied t) hdvd (.inl h) hrest,
        f.chunk_slot f.head hjt]
      simp only [fillChunk, copyIn]
      rw [if_pos (by omega), Nat.add_sub_cancel_left]
    · -- placed by the rest of the loop
      have e := ih hdvd (by simpa [fillChunk] using (show count - t ≤ f.elemCount.toNat by omega))
        h (j := j - t) (by omega)
      rw [fillChunk, slot_advance hdvd _ htlt] at e
      rwa [Nat.add_sub_cancel' (by omega), Nat.add_assoc, Nat.add_sub_cancel' (by omega)] at e
  | case3 f count copied hc hok =>
    rw [writeLoop_of_fault src copyOk hc (by simpa using hok)] at h
    cases h

/-- A read loop hands out, in order, the elements in the slots of counters
`tail_`, `tail_ + 1`, and so on. -/
theorem readLoop_out {copyOk : ℕ → Bool} {count copied : ℕ} {out : List α}
    (hdvd : f.elemCount.toNat ∣ 2 ^ 32) (h : readLoop copyOk f count copied = some (g, out)) :
    out = (List.range count).map fun j ↦ f.data ((f.tail.toNat + j) % f.elemCount.toNat) := by
  induction f, count, copied using readLoop.induct copyOk generalizing g out with
  | case1 f copied =>
    rw [readLoop_zero] at h
    cases h
    rfl
  | case2 f count copied hc hok ih =>
    rw [readLoop_of_copyOk copyOk hc hok] at h
    obtain ⟨⟨g', out'⟩, hr, hgo⟩ := Option.map_eq_some_iff.mp h
    cases hgo
    set t := f.chunkLen f.tail count
    have ht := f.chunkLen_le f.tail count
    show f.chunkOut t ++ out' = _
    rw [ih hdvd hr]
    conv_rhs => rw [← Nat.add_sub_cancel' ht, List.range_add, List.map_append, List.map_map]
    congr 1
    · -- the chunk: `t` slots from `tail_`'s
      refine List.map_congr_left fun j hj ↦ ?_
      rw [f.chunk_slot f.tail (List.mem_range.mp hj)]
    · refine List.map_congr_left fun j _ ↦ ?_
      simp only [Function.comp_apply]
      rw [slot_advance hdvd _ (f.chunkLen_lt f.tail count)]
  | case3 f count copied hc hok =>
    rw [readLoop_of_fault copyOk hc (by simpa using hok)] at h
    cases h

end Slots

/-! ### Signals over whole runs -/

/-- The ring holds at most `elem_count_` elements, `ZX_FIFO_READABLE` says it
is not empty and the writer's `ZX_FIFO_WRITABLE` says it is not full. -/
structure SignalsExact (f : FifoDispatcher α) : Prop where
  queued_le : f.queued ≤ f.elemCount.toNat
  readable_iff : f.readable = true ↔ f.queued ≠ 0
  peerWritable_iff : f.peerWritable = true ↔ f.queued ≠ f.elemCount.toNat

namespace SignalsExact

variable {f : FifoDispatcher α}

theorem freeSlots_eq (hf : SignalsExact f) : f.freeSlots = f.elemCount.toNat - f.queued := by
  have hle : f.head - f.tail ≤ f.elemCount := UInt32.le_iff_toNat_le.mpr hf.queued_le
  rw [freeSlots, UInt32.toNat_sub_of_le _ _ hle, queued]

theorem with_data (hf : SignalsExact f) (d : ℕ → α) : SignalsExact { f with data := d } :=
  ⟨hf.queued_le, hf.readable_iff, hf.peerWritable_iff⟩

theorem of_signals {g : FifoDispatcher α} {r p : Bool} (hle : g.queued ≤ g.elemCount.toNat)
    (hr : r = true ↔ g.queued ≠ 0) (hp : p = true ↔ g.queued ≠ g.elemCount.toNat) :
    SignalsExact { g with readable := r, peerWritable := p } :=
  ⟨hle, hr, hp⟩

theorem writeSelfLocked {src : ℕ → α} {copyOk : ℕ → Bool} {elemSize count : ℕ}
    (hf : SignalsExact f) : SignalsExact (f.writeSelfLocked elemSize src count copyOk).1 := by
  rcases hs : f.writeSelfLocked elemSize src count copyOk with ⟨g, s | _ | actual⟩
  · rwa [writeSelfLocked_status hs]
  · obtain ⟨w, -, rfl⟩ := writeSelfLocked_copyFault hs
    exact hf.with_data _
  · obtain ⟨hc, hfree, rfl, -, hg⟩ := writeSelfLocked_ok hs
    have hfs := hf.freeSlots_eq
    have hm : f.queued + min count f.freeSlots ≤ f.elemCount.toNat := by omega
    have hq : (f.head + (min count f.freeSlots).toUInt32 - f.tail).toNat =
        f.queued + min count f.freeSlots :=
      toNat_add_sub _ _ _ (lt_of_le_of_lt hm (UInt32.toNat_lt _))
    rw [hg, signalWrite_eq]
    apply of_signals
    · exact (congrArg (· ≤ _) hq).mpr hm
    · have hr : f.readable = true ∨ f.freeSlots = f.elemCount.toNat := by
        by_cases h0 : f.queued = 0
        · exact .inr (by omega)
        · exact .inl (hf.readable_iff.mpr h0)
      change _ ↔ (f.head + _ - f.tail).toNat ≠ 0
      rw [hq]
      rcases hr with hr | hr <;> simp [hr] <;> omega
    · have hw : f.peerWritable = true := hf.peerWritable_iff.mpr (by omega)
      change _ ↔ (f.head + _ - f.tail).toNat ≠ _
      simp only [queued, hq, hw, Bool.true_and, decide_eq_true_eq]

theorem readToUserLocked {copyOk : ℕ → Bool} {elemSize count : ℕ} {hasPeer : Bool}
    (hpeer : hasPeer = true) (hf : SignalsExact f) :
    SignalsExact (f.readToUserLocked elemSize count copyOk hasPeer).1 := by
  rcases hs : f.readToUserLocked elemSize count copyOk hasPeer with ⟨g, s | _ | out⟩
  · rwa [readToUserLocked_status hs]
  · rwa [readToUserLocked_copyFault hs]
  · obtain ⟨hc, hq0, -, rfl⟩ := readToUserLocked_ok hs
    have hle := hf.queued_le
    have hq : (f.head - (f.tail + (min count f.queued).toUInt32)).toNat =
        f.queued - min count f.queued :=
      toNat_sub_add _ _ _ (min_le_right _ _)
    rw [signalRead_eq]
    apply of_signals
    · change (f.head - _).toNat ≤ f.elemCount.toNat
      rw [hq]
      omega
    · have hr : f.readable = true := hf.readable_iff.mpr hq0
      change _ ↔ (f.head - _).toNat ≠ 0
      simp only [hr, Bool.true_and, decide_eq_true_eq]
      exact Iff.rfl
    · have hw : f.peerWritable = true ∨ f.queued = f.elemCount.toNat := by
        by_cases hfull : f.queued = f.elemCount.toNat
        · exact .inr hfull
        · exact .inl (hf.peerWritable_iff.mpr hfull)
      change _ ↔ (f.head - _).toNat ≠ _
      rw [hq]
      rcases hw with hw | hw <;> simp [hw, hpeer] <;> omega

end SignalsExact

/-! ### The ring as a bounded queue -/

/-- The ring holds the queue `q`, oldest first: `head_ - tail_` counts it, and
its `i`-th element is in the slot of counter `tail_ + i`. -/
structure Holds (f : FifoDispatcher α) (q : List α) : Prop where
  queued_eq : f.queued = q.length
  get_eq : ∀ i (hi : i < q.length), f.data ((f.tail.toNat + i) % f.elemCount.toNat) = q[i]

namespace Holds

variable {f g : FifoDispatcher α} {q : List α} {elemSize count : ℕ}

theorem free_ne_live (hdvd : f.elemCount.toNat ∣ 2 ^ 32) (hf : SignalsExact f) (hq : Holds f q)
    {i j : ℕ} (hi : i < q.length) (hj : j < f.freeSlots) :
    (f.head.toNat + j) % f.elemCount.toNat ≠ (f.tail.toNat + i) % f.elemCount.toNat := by
  intro e
  have hfs := hf.freeSlots_eq
  have hle := hf.queued_le
  have hlen := hq.queued_eq
  rw [head_toNat, mod_add_mod_of_dvd hdvd, Nat.add_assoc] at e
  have := eq_of_add_mod_eq (by omega) (by omega) e
  omega

theorem with_signals (hq : Holds g q) (r p : Bool) :
    Holds { g with readable := r, peerWritable := p } q :=
  ⟨hq.queued_eq, hq.get_eq⟩

theorem with_tail (hq : Holds f q) {m : ℕ} (hm : m ≤ q.length) (hdvd : f.elemCount.toNat ∣ 2 ^ 32) :
    Holds { f with tail := f.tail + m.toUInt32 } (q.drop m) := by
  have hm' : m ≤ f.queued := by rw [hq.queued_eq]; exact hm
  have hlen : m < 2 ^ 32 := lt_of_le_of_lt hm' (UInt32.toNat_lt _)
  constructor
  · change (f.head - (f.tail + m.toUInt32)).toNat = _
    rw [toNat_sub_add _ _ _ hm', List.length_drop, ← hq.queued_eq]
    rfl
  · intro i hi
    change f.data (((f.tail + m.toUInt32).toNat + i) % f.elemCount.toNat) = _
    rw [slot_advance hdvd _ hlen, List.getElem_drop]
    exact hq.get_eq _ _

theorem writeSelfLocked_ok {src : ℕ → α} {copyOk : ℕ → Bool} {actual : ℕ}
    (hdvd : f.elemCount.toNat ∣ 2 ^ 32) (hf : SignalsExact f) (hq : Holds f q)
    (h : f.writeSelfLocked elemSize src count copyOk = (g, .ok actual)) :
    Holds g (q ++ (List.range actual).map src) := by
  obtain ⟨hc, hfree, hactual, hloop, hg⟩ := FifoDispatcher.writeSelfLocked_ok h
  have hfs := hf.freeSlots_eq
  have hlen := hq.queued_eq
  have hm : actual ≤ f.freeSlots := hactual ▸ min_le_right _ _
  have hsum : f.queued + actual ≤ f.elemCount.toNat := by have := hf.queued_le; omega
  have hcount : actual ≤ f.elemCount.toNat := by omega
  rw [hg, signalWrite_eq]
  apply with_signals
  constructor
  · change (f.head + actual.toUInt32 - f.tail).toNat = _
    rw [toNat_add_sub _ _ _ (lt_of_le_of_lt hsum (UInt32.toNat_lt _))]
    simp only [List.length_append, List.length_map, List.length_range, ← hlen]
    rfl
  · intro i hi
    change g.data ((f.tail.toNat + i) % f.elemCount.toNat) = _
    by_cases hiq : i < q.length
    · -- an element already queued: its slot is outside the write's window
      rw [List.getElem_append_left hiq, ← hq.get_eq i hiq]
      exact writeLoop_data_of_not_mem hdvd (.inl hloop)
        fun j hj ↦ hq.free_ne_live hdvd hf hiq (by omega)
    · -- an element the write placed, `i - q.length` slots after `head_`'s
      have hj : i - q.length < actual := by simp at hi; omega
      have hslot : (f.tail.toNat + i) % f.elemCount.toNat =
          (f.head.toNat + (i - q.length)) % f.elemCount.toNat := by
        rw [head_toNat, mod_add_mod_of_dvd hdvd, Nat.add_assoc, hlen, Nat.add_sub_cancel' (by omega)]
      rw [hslot, writeLoop_data_slot hdvd hcount hloop hj, List.getElem_append_right (by omega)]
      simp

theorem writeSelfLocked_copyFault {src : ℕ → α} {copyOk : ℕ → Bool}
    (hdvd : f.elemCount.toNat ∣ 2 ^ 32) (hf : SignalsExact f) (hq : Holds f q)
    (h : f.writeSelfLocked elemSize src count copyOk = (g, .copyFault)) : Holds g q := by
  obtain ⟨w, hloop, rfl⟩ := FifoDispatcher.writeSelfLocked_copyFault h
  refine ⟨hq.queued_eq, fun i hi ↦ ?_⟩
  change w.data _ = _
  rw [← hq.get_eq i hi]
  exact writeLoop_data_of_not_mem hdvd (.inr hloop)
    fun j hj ↦ hq.free_ne_live hdvd hf hi (lt_of_lt_of_le hj (min_le_right _ _))

theorem readToUserLocked_ok {copyOk : ℕ → Bool} {hasPeer : Bool} {out : List α}
    (hdvd : f.elemCount.toNat ∣ 2 ^ 32) (hq : Holds f q)
    (h : f.readToUserLocked elemSize count copyOk hasPeer = (g, .ok out)) :
    ∃ rest, q = out ++ rest ∧ Holds g rest := by
  obtain ⟨hc, hq0, hloop, rfl⟩ := FifoDispatcher.readToUserLocked_ok h
  have hm : min count f.queued ≤ q.length := hq.queued_eq ▸ min_le_right _ _
  have hout := readLoop_out hdvd hloop
  have htake : out = q.take (min count f.queued) := by
    apply List.ext_getElem
    · simp [hout, hm]
    · intro j h1 h2
      simp only [hout, List.getElem_map, List.getElem_range, List.getElem_take]
      exact hq.get_eq j (by simp [hout] at h1; omega)
  refine ⟨q.drop (min count f.queued), by rw [htake, List.take_append_drop], ?_⟩
  rw [signalRead_eq]
  exact (hq.with_tail hm hdvd).with_signals _ _

end Holds

theorem queued_fillChunk (f : FifoDispatcher α) (src : ℕ → α) (copied t : ℕ)
    (h : f.queued + t < 2 ^ 32) : (f.fillChunk src copied t).queued = f.queued + t :=
  toNat_add_sub _ _ _ h

theorem queued_advanceTail (f : FifoDispatcher α) {m : ℕ} (h : m ≤ f.queued) :
    ({ f with tail := f.tail + m.toUInt32 } : FifoDispatcher α).queued = f.queued - m :=
  toNat_sub_add _ _ _ h

theorem fillChunk_data_head (f : FifoDispatcher α) (src : ℕ → α) (copied : ℕ) {t : ℕ}
    (ht : t ≠ 0) : (f.fillChunk src copied t).data (f.head % f.elemCount).toNat = src copied := by
  simp only [fillChunk, copyIn]
  rw [if_pos ⟨le_rfl, by omega⟩, Nat.sub_self, Nat.add_zero]

end FifoDispatcher

/-! ### Runs of one direction -/

/-- A call on one direction of a pair: a `zx_fifo_write` on the writer, which
lands in `WriteSelfLocked` on this ring, or a `zx_fifo_read` on this endpoint. -/
inductive FifoCall (α : Type) where
  | write (elemSize : ℕ) (src : ℕ → α) (count : ℕ) (copyOk : ℕ → Bool)
  | read (elemSize count : ℕ) (copyOk : ℕ → Bool)

/-- A run of one direction: the ring, with the elements that successful writes
accepted and that successful reads returned, in order. -/
structure FifoRun (α : Type) where
  fifo : FifoDispatcher α
  accepted : List α
  returned : List α

namespace FifoRun

def start (f : FifoDispatcher α) : FifoRun α := ⟨f, [], []⟩

/-- What a write leaves: the ring, and on success the elements it accepted. -/
def afterWrite (r : FifoRun α) (src : ℕ → α) : FifoDispatcher α × FifoResult ℕ → FifoRun α
  | (g, .ok actual) => ⟨g, r.accepted ++ (List.range actual).map src, r.returned⟩
  | (g, _) => { r with fifo := g }

/-- What a read leaves: the ring, and on success the elements it returned. -/
def afterRead (r : FifoRun α) : FifoDispatcher α × FifoResult (List α) → FifoRun α
  | (g, .ok out) => ⟨g, r.accepted, r.returned ++ out⟩
  | (g, _) => { r with fifo := g }

/-- One call, with both endpoints open. -/
def call (r : FifoRun α) : FifoCall α → FifoRun α
  | .write elemSize src count copyOk =>
    r.afterWrite src (r.fifo.writeSelfLocked elemSize src count copyOk)
  | .read elemSize count copyOk => r.afterRead (r.fifo.readToUserLocked elemSize count copyOk true)

def callAll (r : FifoRun α) (calls : List (FifoCall α)) : FifoRun α :=
  calls.foldl call r

theorem afterWrite_fifo (r : FifoRun α) (src : ℕ → α) (res : FifoDispatcher α × FifoResult ℕ) :
    (r.afterWrite src res).fifo = res.1 := by
  rcases res with ⟨g, _ | _ | _⟩ <;> rfl

theorem afterRead_fifo (r : FifoRun α) (res : FifoDispatcher α × FifoResult (List α)) :
    (r.afterRead res).fifo = res.1 := by
  rcases res with ⟨g, _ | _ | _⟩ <;> rfl

theorem call_fifo (r : FifoRun α) (c : FifoCall α) :
    (r.call c).fifo = match c with
      | .write elemSize src count copyOk => (r.fifo.writeSelfLocked elemSize src count copyOk).1
      | .read elemSize count copyOk => (r.fifo.readToUserLocked elemSize count copyOk true).1 := by
  cases c with
  | write elemSize src count copyOk => exact afterWrite_fifo _ _ _
  | read elemSize count copyOk => exact afterRead_fifo _ _

/-- The run is a bounded queue: the signals are exact and the ring holds the
elements accepted and not yet returned, in order. -/
def Refines (r : FifoRun α) : Prop :=
  r.fifo.SignalsExact ∧ ∃ q, r.fifo.Holds q ∧ r.returned ++ q = r.accepted

theorem elemCount_call (r : FifoRun α) (c : FifoCall α) :
    (r.call c).fifo.elemCount = r.fifo.elemCount := by
  cases c with
  | write elemSize src count copyOk =>
    rw [call, afterWrite_fifo]
    rcases hs : r.fifo.writeSelfLocked elemSize src count copyOk with ⟨g, s | _ | actual⟩
    · rw [FifoDispatcher.writeSelfLocked_status hs]
    · obtain ⟨w, -, rfl⟩ := FifoDispatcher.writeSelfLocked_copyFault hs
      rfl
    · obtain ⟨-, -, -, -, hg⟩ := FifoDispatcher.writeSelfLocked_ok hs
      rw [hg, FifoDispatcher.signalWrite_eq]
  | read elemSize count copyOk =>
    rw [call, afterRead_fifo]
    rcases hs : r.fifo.readToUserLocked elemSize count copyOk true with ⟨g, s | _ | out⟩
    · rw [FifoDispatcher.readToUserLocked_status hs]
    · rw [FifoDispatcher.readToUserLocked_copyFault hs]
    · obtain ⟨-, -, -, hg⟩ := FifoDispatcher.readToUserLocked_ok hs
      rw [hg, FifoDispatcher.signalRead_eq]

theorem Refines.call {r : FifoRun α} (hdvd : r.fifo.elemCount.toNat ∣ 2 ^ 32) (hr : r.Refines)
    (c : FifoCall α) : (r.call c).Refines := by
  obtain ⟨hf, q, hq, hacc⟩ := hr
  refine ⟨call_fifo r c ▸ ?_, ?_⟩
  · cases c with
    | write elemSize src count copyOk => exact hf.writeSelfLocked
    | read elemSize count copyOk => exact hf.readToUserLocked rfl
  cases c with
  | write elemSize src count copyOk =>
    rcases hs : r.fifo.writeSelfLocked elemSize src count copyOk with ⟨g, s | _ | actual⟩ <;>
      simp only [FifoRun.call, hs, afterWrite]
    · rw [FifoDispatcher.writeSelfLocked_status hs]
      exact ⟨q, hq, hacc⟩
    · exact ⟨q, hq.writeSelfLocked_copyFault hdvd hf hs, hacc⟩
    · refine ⟨_, hq.writeSelfLocked_ok hdvd hf hs, ?_⟩
      rw [← hacc, List.append_assoc]
  | read elemSize count copyOk =>
    rcases hs : r.fifo.readToUserLocked elemSize count copyOk true with ⟨g, s | _ | out⟩ <;>
      simp only [FifoRun.call, hs, afterRead]
    · rw [FifoDispatcher.readToUserLocked_status hs]
      exact ⟨q, hq, hacc⟩
    · rw [FifoDispatcher.readToUserLocked_copyFault hs]
      exact ⟨q, hq, hacc⟩
    · obtain ⟨rest, rfl, hrest⟩ := hq.readToUserLocked_ok hdvd hs
      refine ⟨rest, hrest, ?_⟩
      rw [← hacc, List.append_assoc]

theorem Refines.callAll {r : FifoRun α} (hdvd : r.fifo.elemCount.toNat ∣ 2 ^ 32)
    (hr : r.Refines) (calls : List (FifoCall α)) : (r.callAll calls).Refines := by
  induction calls generalizing r with
  | nil => exact hr
  | cons c calls ih =>
    exact ih (by rwa [elemCount_call]) (hr.call hdvd c)

/-- Every run of a pair whose `elem_count_` divides `2 ^ 32` is a bounded queue:
what successful reads returned is a prefix of what successful writes accepted,
and the ring holds the rest, in order, with exact signals. -/
theorem create_callAll_refines {count elemsize : ℕ} {init : ℕ → α} {f : FifoDispatcher α}
    (hcreate : FifoDispatcher.create count elemsize init = .ok f) (hdvd : count ∣ 2 ^ 32)
    (calls : List (FifoCall α)) : ((start f).callAll calls).Refines := by
  obtain ⟨hc, hq, hr, hw⟩ := FifoDispatcher.create_eq_ok hcreate
  have hpos : 0 < f.elemCount.toNat := UInt32.lt_iff_toNat_lt.mp f.elemCount_pos
  apply Refines.callAll (hc ▸ hdvd)
  refine ⟨⟨by simp [start, hq], ?_, ?_⟩, [], ⟨hq, fun i hi ↦ absurd hi (Nat.not_lt_zero i)⟩, rfl⟩
  · simp [start, hq, hr]
  · simp only [start, hq, hw, true_iff]
    omega

/-- The ring `Create(4, 1)` makes, its storage holding zeros. -/
def fourSlots : FifoDispatcher ℕ := ⟨4, 1, 0, 0, fun _ ↦ 0, false, true, by decide⟩

theorem create_callAll_refines_fourSlots :
    FifoDispatcher.create 4 1 (fun _ ↦ 0) = .ok fourSlots ∧ 4 ∣ 2 ^ 32 ∧
      ((start fourSlots).callAll [.write 1 id 3 (fun _ ↦ true), .read 1 2 (fun _ ↦ true)]).Refines :=
  have hcreate : FifoDispatcher.create 4 1 (fun _ ↦ 0) = .ok fourSlots := rfl
  ⟨hcreate, by decide, create_callAll_refines hcreate (by decide) _⟩

end FifoRun

/-! ### Runs past the wrap of the counters -/

namespace FifoRun

open FifoDispatcher

theorem callAll_append (r : FifoRun α) (calls calls' : List (FifoCall α)) :
    r.callAll (calls ++ calls') = (r.callAll calls).callAll calls' :=
  List.foldl_append

/-- A round trip of the element `x`: a one-element write, then a one-element
read. -/
def roundTrip (elemSize : ℕ) (x : α) : List (FifoCall α) :=
  [.write elemSize (fun _ ↦ x) 1 (fun _ ↦ true), .read elemSize 1 (fun _ ↦ true)]

theorem callAll_roundTrip (f : FifoDispatcher α) (acc ret : List α) (elemSize : ℕ) (x : α)
    (hq : f.queued = 0) (hsize : elemSize = f.elemSize.toNat) (hr : f.readable = false)
    (hw : f.peerWritable = true) :
    (FifoRun.mk f acc ret).callAll (roundTrip elemSize x) =
      ⟨{ f with data := (f.fillChunk (fun _ ↦ x) 0 1).data, head := f.head + 1,
                tail := f.tail + 1 }, acc ++ [x], ret ++ [x]⟩ := by
  subst hsize
  have hpos : 0 < f.elemCount.toNat := UInt32.lt_iff_toNat_lt.mp f.elemCount_pos
  have hht : f.head = f.tail := (toNat_sub_eq_zero _ _).mp hq
  have hfree : f.freeSlots = f.elemCount.toNat := by
    rw [freeSlots, hht, UInt32.sub_self, UInt32.sub_zero]
  have hw1 := f.writeSelfLocked_single (fun _ ↦ x) (fun _ ↦ true) rfl
    (by omega) rfl
  set fill := f.fillChunk (fun _ ↦ x) 0 1
  have hfq : fill.queued = 1 := by
    rw [queued_fillChunk _ _ _ _ (by omega), hq]
  set g1 := signalWrite (f.freeSlots = f.elemCount.toNat) fill
  have hg1q : g1.queued = 1 := by
    simp only [g1, signalWrite_eq]
    exact hfq
  have hr1 := g1.readToUserLocked_single 1 (fun _ ↦ true) true
    (show f.elemSize.toNat = g1.elemSize.toNat by simp [g1, fill, fillChunk])
    one_ne_zero (by omega) (by rw [hg1q]; exact g1.slotsToEnd_pos _) rfl
  simp only [callAll, roundTrip, List.foldl, call, hw1, afterWrite, hr1, afterRead, hg1q,
    Nat.min_self]
  have hout : g1.chunkOut 1 = [x] := by
    have hslot : (g1.tail % g1.elemCount).toNat + 0 = (f.head % f.elemCount).toNat := by
      simp [g1, fill, fillChunk, hht]
    have hdata : g1.data = fill.data := by simp [g1]
    simp only [chunkOut, List.range_one, List.map_cons, List.map_nil, hslot, hdata, fill,
      fillChunk_data_head f _ 0 one_ne_zero]
  have hq2 := queued_advanceTail g1 (m := 1) (by omega)
  rw [hg1q] at hq2
  rw [hout, signalRead_eq, hq2]
  simp only [g1, signalWrite_eq, hfq]
  simp [fill, fillChunk, hr, hw]

/-- `k` round trips of the element `x`. -/
def roundTrips (elemSize : ℕ) (x : α) (k : ℕ) : List (FifoCall α) :=
  (List.replicate k (roundTrip elemSize x)).flatten

theorem callAll_roundTrips (r : FifoRun α) (elemSize : ℕ) (x : α) (k : ℕ)
    (hsize : elemSize = r.fifo.elemSize.toNat) (hq : r.fifo.queued = 0)
    (hr : r.fifo.readable = false) (hw : r.fifo.peerWritable = true) :
    ∃ g : FifoDispatcher α, r.callAll (roundTrips elemSize x k) =
        ⟨g, r.accepted ++ List.replicate k x, r.returned ++ List.replicate k x⟩ ∧
      g = { r.fifo with data := g.data, head := r.fifo.head + k.toUInt32,
                        tail := r.fifo.tail + k.toUInt32 } := by
  induction k with
  | zero => exact ⟨r.fifo, by simp [roundTrips, callAll], by simp⟩
  | succ k ih =>
    obtain ⟨g, hrun, hg⟩ := ih
    rw [roundTrips, List.replicate_succ', List.flatten_append, ← roundTrips, callAll_append, hrun,
      List.flatten_singleton]
    have hgq : g.queued = 0 := by
      rw [hg]
      simp only [queued, add_sub_add_right_eq_sub]
      exact hq
    rw [callAll_roundTrip g _ _ elemSize x hgq (by rw [hg]; exact hsize) (by rw [hg]; exact hr)
      (by rw [hg]; exact hw)]
    refine ⟨_, by rw [List.replicate_succ', List.append_assoc, List.append_assoc], ?_⟩
    rw [hg]
    simp only [UInt32.ofNat_add, add_assoc]
    rfl

/-- Two one-element writes, of `1` and then `2`, and a read of two. -/
def wrapTail : List (FifoCall ℕ) :=
  [.write 1 (fun _ ↦ 1) 1 (fun _ ↦ true), .write 1 (fun _ ↦ 2) 1 (fun _ ↦ true),
    .read 1 2 (fun _ ↦ true)]

/-- At the wrap of a ring of three slots, the two writes accept `1` and `2`,
but the second puts `2` in the slot of the first: the counter `2 ^ 32 - 1`
names slot `0`, and so does the counter after it, which wraps to `0`.  The read
then returns `2` first. -/
theorem callAll_wrapTail (g : FifoDispatcher ℕ) (acc ret : List ℕ) (hc : g.elemCount = 3)
    (hs : g.elemSize = 1) (hh : g.head = 4294967295) (ht : g.tail = 4294967295) :
    ((FifoRun.mk g acc ret).callAll wrapTail).accepted = acc ++ [1, 2] ∧
      ∃ y, ((FifoRun.mk g acc ret).callAll wrapTail).returned = ret ++ [2, y] := by
  have hw1 := g.writeSelfLocked_single (fun _ ↦ 1) (fun _ ↦ true)
    (show 1 = g.elemSize.toNat by simp [hs]) (by simp [freeSlots, hc, hh, ht]) rfl
  set g1 := signalWrite (g.freeSlots = g.elemCount.toNat) (g.fillChunk (fun _ ↦ 1) 0 1)
  have h1 : g1.elemCount = 3 ∧ g1.elemSize = 1 ∧ g1.head = 0 ∧ g1.tail = 4294967295 := by
    simp [g1, hc, hs, hh, ht]
  have hw2 := g1.writeSelfLocked_single (fun _ ↦ 2) (fun _ ↦ true)
    (show 1 = g1.elemSize.toNat by simp [h1]) (by simp [freeSlots, h1]) rfl
  set g2 := signalWrite (g1.freeSlots = g1.elemCount.toNat) (g1.fillChunk (fun _ ↦ 2) 0 1)
  have h2 : g2.elemCount = 3 ∧ g2.elemSize = 1 ∧ g2.head = 1 ∧ g2.tail = 4294967295 := by
    simp [g2, h1]
  have hq : g2.queued = 2 := by simp [queued, h2]
  have hr := g2.readToUserLocked_single 2 (fun _ ↦ true) true
    (show 1 = g2.elemSize.toNat by simp [h2]) two_ne_zero (by omega)
    (by simp [hq, slotsToEnd, h2]) rfl
  simp only [callAll, wrapTail, List.foldl, call, hw1, afterWrite, hw2, hr, afterRead, hq]
  refine ⟨by simp, g2.data 1, ?_⟩
  have hslot : (g2.tail % g2.elemCount).toNat = 0 := by simp [h2]
  have h0 : g2.data 0 = 2 := by
    simp only [g2, data_signalWrite, fillChunk, copyIn, h1]
    simp
  simp only [chunkOut, hslot, Nat.zero_add, Nat.min_self]
  rw [show List.range 2 = [0, 1] from rfl]
  simp [h0]

/-- The calls of the run that loses an element: `2 ^ 32 - 1` round trips of
`0`, then the two writes and the read at the wrap. -/
def wrapCalls : List (FifoCall ℕ) :=
  roundTrips 1 0 (2 ^ 32 - 1) ++ wrapTail

theorem wrapCalls_returned_not_prefix :
    ∃ f : FifoDispatcher ℕ, FifoDispatcher.create 3 1 (fun _ ↦ 0) = .ok f ∧
      ¬((FifoRun.start f).callAll wrapCalls).returned <+:
        ((FifoRun.start f).callAll wrapCalls).accepted := by
  refine ⟨⟨3, 1, 0, 0, fun _ ↦ 0, false, true, by decide⟩, rfl, ?_⟩
  obtain ⟨g, hrun, hg⟩ := callAll_roundTrips
    (start ⟨3, 1, 0, 0, fun _ ↦ 0, false, true, by decide⟩) 1 0 (2 ^ 32 - 1) rfl rfl rfl rfl
  rw [wrapCalls, callAll_append, hrun]
  obtain ⟨hacc, y, hret⟩ := callAll_wrapTail g _ _ (by rw [hg]; rfl) (by rw [hg]; rfl)
    (by rw [hg]; rfl) (by rw [hg]; rfl)
  rw [hacc, hret]
  simp only [start, List.nil_append, List.prefix_append_right_inj]
  simp

end FifoRun

end Zircon.Object
