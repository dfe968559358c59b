import Mathlib
import Zircon.Lib.StdAlgorithm
import Zircon.Memalloc.Range

/-!
# Normalizing a set of memory ranges

The two routines of `algorithm.cc` that turn arbitrarily overlapping ranges
into disjoint, maximally contiguous ones:

* `FindNormalizedRamRanges` streams the ranges in lexicographic order and
  keeps only a candidate RAM interval and the last merged interval of
  everything else;
* `FindNormalizedRanges` sorts all endpoints and sweeps them with a counter
  per type, emitting a range each time the dominant type changes.

Both report their output through a callback that may stop them early.  A
callback with state is a function `σ → Range → Bool × σ`; the routines thread
its state and return it.

Both clip the right endpoint of a range at `UINT64_MAX`, so an `Interval` never
reaches that address.
-/

namespace Zircon.Memalloc

open Zircon.Lib MemType

/-- `std::numeric_limits<uint64_t>::max()`. -/
def kMax : UInt64 := 0xFFFFFFFFFFFFFFFF

/-- `GetLeft`. -/
def getLeft (range : Range) : UInt64 :=
  range.addr

/-- `GetRight`: the end of the range, clipped at `kMax`. -/
def getRight (range : Range) : UInt64 :=
  getLeft range + min (kMax - getLeft range) range.size

/-- `Interval`: `[left, right)`, where the empty interval is always `[0, 0)`. -/
structure Interval where
  left : UInt64
  right : UInt64
  normal : left < right ∨ (left = 0 ∧ right = 0)
  deriving DecidableEq

namespace Interval

/-- `Interval()`. -/
def zero : Interval :=
  ⟨0, 0, .inr ⟨rfl, rfl⟩⟩

/-- `Interval(left, right)`: empty unless `left < right`. -/
def ofBounds (left right : UInt64) : Interval :=
  if h : left < right then ⟨left, right, .inl h⟩ else zero

/-- `Interval(const Range&)`. -/
def ofRange (range : Range) : Interval :=
  ofBounds (getLeft range) (getRight range)

/-- `Interval::empty`. -/
def empty (i : Interval) : Bool :=
  i.left == i.right

/-- `Interval::IsAdjacentTo`. -/
def isAdjacentTo (i other : Interval) : Bool :=
  i.left == other.right || other.left == i.right

/-- `Interval::IntersectsWith`. -/
def intersectsWith (i other : Interval) : Bool :=
  !i.empty && !other.empty && i.left < other.right && i.right > other.left

/-- `Interval::HeadBeforeIntersection`. -/
def headBeforeIntersection (i other : Interval) : Interval :=
  ofBounds i.left (max i.left other.left)

/-- `Interval::TailAfterIntersection`. -/
def tailAfterIntersection (i other : Interval) : Interval :=
  ofBounds (min i.right other.right) i.right

theorem left_lt_right_of_not_empty {i : Interval} (h : i.empty = false) : i.left < i.right := by
  rcases i.normal with hlt | ⟨hl, hr⟩
  · exact hlt
  · simp [empty, hl, hr] at h

/-- `Interval::MergeInto`, returning the merged interval. -/
def mergeInto (i other : Interval) : Interval :=
  if ho : other.empty then i
  else if i.empty then other
  else
    ⟨min i.left other.left, max i.right other.right, .inl <| by
      have h := left_lt_right_of_not_empty (i := other) (by simpa using ho)
      rw [UInt64.lt_iff_toNat_lt, UInt64.toNat_min, UInt64.toNat_max]
      rw [UInt64.lt_iff_toNat_lt] at h
      omega⟩

/-- `Interval::AsRamRange`. -/
def asRamRange (i : Interval) : Range :=
  ⟨i.left, i.right - i.left, freeRam⟩

end Interval

/-! ### `FindNormalizedRamRanges` -/

section Callback

variable {σ : Type} (cb : σ → Range → Bool × σ)

/-- The loop of `FindNormalizedRamRanges` over what remains of the stream, with
the candidate RAM interval and the current non-RAM interval. -/
def findNormalizedRamRangesLoop : List Range → Interval → Interval → σ → σ
  | [], candidate, _, s =>
    if candidate.empty then s else (cb s candidate.asRamRange).2
  | range :: rest, candidate, currentNonRam, s =>
    let interval := Interval.ofRange range
    if interval.empty then findNormalizedRamRangesLoop rest candidate currentNonRam s
    else if range.type = freeRam then
      -- A RAM interval can only meet the non-RAM interval at its head.
      let truncated := interval.intersectsWith currentNonRam
      let interval := if truncated then interval.tailAfterIntersection currentNonRam else interval
      if truncated && interval.empty then findNormalizedRamRangesLoop rest candidate currentNonRam s
      else if candidate.intersectsWith interval || candidate.isAdjacentTo interval then
        findNormalizedRamRangesLoop rest (candidate.mergeInto interval) currentNonRam s
      else if candidate.empty then findNormalizedRamRangesLoop rest interval currentNonRam s
      else
        match cb s candidate.asRamRange with
        | (true, s) => findNormalizedRamRangesLoop rest interval currentNonRam s
        | (false, s) => s
    else
      let currentNonRam :=
        if currentNonRam.intersectsWith interval || currentNonRam.isAdjacentTo interval then
          currentNonRam.mergeInto interval
        else interval
      if candidate.intersectsWith interval then
        -- Emit the head of the candidate before the non-RAM interval and keep its tail.
        let before := candidate.headBeforeIntersection interval
        let candidate := candidate.tailAfterIntersection interval
        if before.empty then findNormalizedRamRangesLoop rest candidate currentNonRam s
        else
          match cb s before.asRamRange with
          | (true, s) => findNormalizedRamRangesLoop rest candidate currentNonRam s
          | (false, s) => s
      else findNormalizedRamRangesLoop rest candidate currentNonRam s

/-- `FindNormalizedRamRanges` on the ranges of a stream, in stream order. -/
def findNormalizedRamRanges (ranges : List Range) (s : σ) : σ :=
  findNormalizedRamRangesLoop cb ranges .zero .zero s

end Callback

/-! ### `RangeStream` -/

/-- The index of the first context whose head is least (`std::min_element`
with ended contexts above all others), if some context has not ended. -/
def leastHead : List (List Range) → Option ℕ
  | [] => none
  | ctx :: ctxs =>
    match ctx, leastHead ctxs with
    | [], none => none
    | [], some i => some (i + 1)
    | _ :: _, none => some 0
    | r :: _, some i =>
      match (ctxs[i]?).bind List.head? with
      | some r' => if r'.lt r then some (i + 1) else some 0
      | none => some 0

/-- `RangeStream::operator()`: the next range and the advanced contexts. -/
def rangeStreamNext (ctxs : List (List Range)) : Option (Range × List (List Range)) :=
  match leastHead ctxs with
  | none => none
  | some i =>
    match ctxs[i]? with
    | some (r :: rest) => some (r, ctxs.set i rest)
    | _ => none

/-- The whole stream, read by calling `RangeStream::operator()` `fuel` times. -/
def rangeStreamRead : ℕ → List (List Range) → List Range
  | 0, _ => []
  | fuel + 1, ctxs =>
    match rangeStreamNext ctxs with
    | none => []
    | some (r, ctxs) => r :: rangeStreamRead fuel ctxs

/-- A `RangeStream` over spans, each sorted on construction of its
`RangeIterationContext`, read in full: `RangeStream::size()` calls suffice. -/
def rangeStream (sort : SortFn) (spans : List (List Range)) : List Range :=
  rangeStreamRead (spans.map List.length).sum (spans.map (sort Range.lt))

/-! ### `FindNormalizedRanges` -/

/-- `EndpointType`. -/
inductive EndpointType
  | left
  | right
  deriving DecidableEq, Repr

/-- `Endpoint`: a range and one of its ends. -/
structure Endpoint where
  range : Range
  type : EndpointType
  deriving DecidableEq, Repr

namespace Endpoint

/-- `Endpoint::IsLeft`. -/
def isLeft (e : Endpoint) : Bool :=
  e.type == .left

/-- `Endpoint::value`. -/
def value (e : Endpoint) : UInt64 :=
  if e.isLeft then getLeft e.range else getRight e.range

/-- `Endpoint::operator<`: by value, left endpoints first. -/
def lt (e other : Endpoint) : Bool :=
  e.value < other.value || (e.value == other.value && e.isLeft && !other.isLeft)

end Endpoint

/-- `ActiveRanges`: a counter of active ranges per type. -/
structure ActiveRanges where
  values : MemType → ℕ

namespace ActiveRanges

/-- No active ranges. -/
def zero : ActiveRanges :=
  ⟨fun _ ↦ 0⟩

/-- Count an endpoint: a left one opens a range of its type, a right one closes it. -/
def count (c : ActiveRanges) (e : Endpoint) : ActiveRanges :=
  ⟨Function.update c.values e.range.type
    (if e.isLeft then c.values e.range.type + 1 else c.values e.range.type - 1)⟩

/-- `ActiveRanges::DominantType`: `none` is `fit::failed`, `some none` that no
range is active. -/
def dominantType (c : ActiveRanges) : Option (Option MemType) :=
  -- The base types in reverse order of precedence: the last active one wins.
  let activeBase : Option MemType :=
    [freeRam, peripheral, reserved].foldl (fun acc t ↦ if 0 < c.values t then some t else acc) none
  let step (activeAllocated : Option MemType) (t : MemType) : Option (Option MemType) :=
    if 0 < c.values t then
      if (activeBase.isSome && activeBase != some freeRam) || activeAllocated.isSome then none
      else some (some t)
    else some activeAllocated
  match allocatedTypes.foldlM step none with
  | none => none
  | some (some t) => some (some t)
  | some none => some activeBase

end ActiveRanges

/-- The locals of the sweep in `FindNormalizedRanges`. -/
structure SweepState where
  counters : ActiveRanges
  currType : Option MemType
  currStart : UInt64

section Callback

variable {σ : Type} (cb : σ → Range → Bool × σ)

/-- The `process_event` lambda at `curr_value`: emit the range built so far if
the dominant type changes.  The flag is `false` when the callback stops. -/
def processEvent (currValue : UInt64) (activeType : Option MemType) (st : SweepState) (s : σ) :
    Bool × SweepState × σ :=
  if activeType = st.currType then (true, st, s)
  else
    let st' := { st with currStart := currValue, currType := activeType }
    match st.currType with
    | some t =>
      if st.currStart < currValue then
        match cb s ⟨st.currStart, currValue - st.currStart, t⟩ with
        | (true, s) => (true, st', s)
        | (false, s) => (false, st, s)
      else (true, st', s)
    | none => (true, st', s)

/-- Whether the next endpoint has the same value, so belongs to the same batch. -/
def sameBatch (e : Endpoint) : List Endpoint → Bool
  | [] => false
  | e' :: _ => e'.value == e.value

/-- The sweep of `FindNormalizedRanges` over the sorted endpoints: each batch of
endpoints of one value is counted, then its dominant type decides the event. -/
def findNormalizedRangesLoop : List Endpoint → SweepState → σ → Option Unit × σ
  | [], _, s => (some (), s)
  | e :: es, st, s =>
    let st := { st with counters := st.counters.count e }
    if sameBatch e es then findNormalizedRangesLoop es st s
    else
      match st.counters.dominantType with
      | none => (none, s)
      | some activeType =>
        match processEvent cb e.value activeType st s with
        | (true, st, s) => findNormalizedRangesLoop es st s
        | (false, _, s) => (some (), s)

/-- `FindNormalizedRangesScratchSize`, in words. -/
def findNormalizedRangesScratchSize (n : ℕ) : ℕ :=
  4 * n

/-- `FindNormalizedRanges` on the ranges of a stream: `none` is `fit::failed`,
when ranges of two allocated types, or of an allocated type and one of
`kReserved` or `kPeripheral`, overlap. -/
def findNormalizedRanges (sort : SortFn) (ranges : List Range) (s : σ) : Option Unit × σ :=
  let endpoints := sort Endpoint.lt (ranges.flatMap fun r ↦ [⟨r, .left⟩, ⟨r, .right⟩])
  match endpoints with
  | [] => (some (), s)
  | e :: _ => findNormalizedRangesLoop cb endpoints ⟨.zero, none, e.value⟩ s

end Callback

end Zircon.Memalloc
