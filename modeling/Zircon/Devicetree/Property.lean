import Mathlib.Data.List.Basic

/-!
# `reg` and `ranges` properties, and address translation

A `prop-encoded-array` is a byte string of entries, each a tuple of fields of
one or two big-endian 32-bit cells.  `RegProperty::Create` and
`RangesProperty::Create` check the cell counts and the byte length before
`PropEncodedArray`'s constructor asserts that the length is a whole number of
entries.  `PropertyDecoder::TranslateAddress` maps a child-bus address up
through the `ranges` of the node's ancestors, with `uint64_t` arithmetic.

`RangesProperty::Create` validates exactly when some cell count is positive
(`rangesProperty_create_spec`).  `RegProperty::Create` checks the length
against the number of cells rather than of bytes, so a length that is a whole
number of cells but not of entries reaches the constructor's assertion; with
no cells at all both `Create`s take a remainder by zero.  The translation
wraps where one over unbounded integers leaves the 64-bit range; wherever the
`ranges` decode it is the composition of the levels in `uint64_t`
(`translateAddress_eq_translateWrap`).
-/

namespace Zircon.Devicetree

/-- A `ZX_ASSERT` or `ZX_PANIC` that fails, or a `%` by zero. -/
inductive DecodeFault
  | assertion
  | divideByZero
  deriving DecidableEq, Repr

/-! ### Cells -/

/-- `ReadBigEndianUint32`: the first four bytes, the first the most significant;
the `ZX_ASSERT` wants four. -/
def readBigEndianUint32 (bytes : List UInt8) : Except DecodeFault UInt32 :=
  match bytes with
  | b0 :: b1 :: b2 :: b3 :: _ =>
    .ok ((b0.toUInt32 <<< 24) ||| (b1.toUInt32 <<< 16) ||| (b2.toUInt32 <<< 8) ||| b3.toUInt32)
  | _ => .error .assertion

/-- `ParseCells(bytes, num_cells)`: one cell, or two with the first the high half;
any other count panics. -/
def parseCells (bytes : List UInt8) (numCells : ℕ) : Except DecodeFault UInt64 :=
  match numCells with
  | 1 => do
    let higher ← readBigEndianUint32 bytes
    pure higher.toUInt64
  | 2 => do
    let higher ← readBigEndianUint32 bytes
    let lower ← readBigEndianUint32 (bytes.drop 4)
    pure (higher.toUInt64 <<< 32 ||| lower.toUInt64)
  | _ => .error .assertion

/-- `PropEncodedArrayElement`'s constructor: each field with cells is parsed from
the next `4 * num_cells` bytes, and a field without cells stays `nullopt`. -/
def elementFields (rawElement : List UInt8) : List ℕ → Except DecodeFault (List (Option UInt64))
  | [] => pure []
  | numCells :: rest =>
    if numCells = 0 then do
      let fields ← elementFields rawElement rest
      pure (none :: fields)
    else do
      let field ← parseCells (rawElement.take (4 * numCells)) numCells
      let fields ← elementFields (rawElement.drop (4 * numCells)) rest
      pure (some field :: fields)

/-! ### `PropEncodedArray` -/

/-- `PropEncodedArray`: the cells of each field, the bytes of an entry, and the
raw bytes. -/
structure PropEncodedArray where
  cellsForElements : List ℕ
  entrySize : ℕ
  propEncodedRaw : List UInt8

namespace PropEncodedArray

/-- The constructor; its `ZX_ASSERT` takes the remainder of the length by the
entry size. -/
def make (data : List UInt8) (cells : List ℕ) : Except DecodeFault PropEncodedArray :=
  let entrySize := cells.foldl (fun acc numCells ↦ acc + numCells * 4) 0
  if entrySize = 0 then .error .divideByZero
  else if data.length % entrySize ≠ 0 then .error .assertion
  else .ok ⟨cells, entrySize, data⟩

/-- `size()`: the number of entries, none when entries are empty. -/
def size (arr : PropEncodedArray) : ℕ :=
  if arr.entrySize = 0 then 0 else arr.propEncodedRaw.length / arr.entrySize

/-- `operator[]`: the fields of the entry at `index`. -/
def get (arr : PropEncodedArray) (index : ℕ) : Except DecodeFault (List (Option UInt64)) :=
  if index * arr.entrySize < arr.propEncodedRaw.length then
    elementFields ((arr.propEncodedRaw.drop (index * arr.entrySize)).take arr.entrySize) arr.cellsForElements
  else .error .assertion

/-- All entries, in order. -/
def entries (arr : PropEncodedArray) : Except DecodeFault (List (List (Option UInt64))) :=
  (List.range arr.size).mapM arr.get

end PropEncodedArray

/-! ### `reg` and `ranges` -/

/-- `RegProperty::Create(num_address_cells, num_size_cells, bytes)`; `none` is
`nullopt`. -/
def RegProperty.create (numAddressCells numSizeCells : ℕ) (bytes : List UInt8) :
    Except DecodeFault (Option PropEncodedArray) :=
  if numAddressCells > 2 ∨ numSizeCells > 2 then .ok none
  else
    let cells := numAddressCells + numSizeCells
    if cells = 0 then .error .divideByZero
    else if bytes.length % cells ≠ 0 then .ok none
    else some <$> PropEncodedArray.make bytes [numAddressCells, numSizeCells]

/-- `RangesProperty::Create(num_address_cells, num_size_cells,
num_parent_address_cells, bytes)`. -/
def RangesProperty.create (numAddressCells numSizeCells numParentAddressCells : ℕ) (bytes : List UInt8) :
    Except DecodeFault (Option PropEncodedArray) :=
  if numAddressCells > 2 ∨ numSizeCells > 2 then .ok none
  else
    let entryBytes := 4 * (numAddressCells + numSizeCells + numParentAddressCells)
    if entryBytes = 0 then .error .divideByZero
    else if bytes.length % entryBytes ≠ 0 then .ok none
    else some <$> PropEncodedArray.make bytes [numAddressCells, numSizeCells, numParentAddressCells]

theorem make_of_entrySize {data : List UInt8} {cells : List ℕ} {e : ℕ}
    (he : cells.foldl (fun acc numCells ↦ acc + numCells * 4) 0 = e) :
    PropEncodedArray.make data cells =
      if e = 0 then .error .divideByZero else if data.length % e ≠ 0 then .error .assertion
      else .ok ⟨cells, e, data⟩ := by
  subst he
  rfl

theorem make_entrySize {a s p : ℕ} :
    [a, s, p].foldl (fun acc numCells ↦ acc + numCells * 4) 0 = 4 * (a + s + p) := by
  simp only [List.foldl_cons, List.foldl_nil]
  omega

theorem regProperty_create_faults :
    RegProperty.create 1 1 [0, 0] = .error .assertion ∧
      RegProperty.create 0 0 [0, 0, 0, 0] = .error .divideByZero ∧
      RangesProperty.create 0 0 0 [0, 0, 0, 0] = .error .divideByZero :=
  ⟨rfl, rfl, rfl⟩

/-! ### Address translation -/

/-- What `TranslateAddress` reads of a node: its `#address-cells`, its
`#size-cells` and its `ranges`. -/
structure NodeCells where
  numAddressCells : Option ℕ
  numSizeCells : Option ℕ
  ranges : Option (List UInt8)

def kRegDefaultAddressCells : ℕ := 2

def kRegDefaultSizeCells : ℕ := 1

/-- `RangesProperty::Create(const PropertyDecoder&, bytes)` for the node `decoder`
under `parent`; a node without a parent has no ranges. -/
def RangesProperty.createFor (decoder : NodeCells) (parent : Option NodeCells) (bytes : List UInt8) :
    Except DecodeFault (Option PropEncodedArray) :=
  match parent with
  | none => .ok none
  | some parent =>
    RangesProperty.create (decoder.numAddressCells.getD kRegDefaultAddressCells)
      (decoder.numSizeCells.getD kRegDefaultSizeCells) (parent.numAddressCells.getD kRegDefaultAddressCells) bytes

/-- The loop of `TranslateChildAddress` over the entries from `indices` on. -/
def translateLoop (ranges : PropEncodedArray) (address : UInt64) : List ℕ → Except DecodeFault (Option UInt64)
  | [] => pure none
  | i :: rest => do
    let range ← ranges.get i
    match range with
    | [some c, some p, some l] =>
      if c ≤ address ∧ address < c + l then pure (some (address - c + p))
      else translateLoop ranges address rest
    | _ => translateLoop ranges address rest

/-- `RangesProperty::TranslateChildAddress`: an empty `ranges` maps every address
to itself, and otherwise the first complete entry holding the address moves it. -/
def translateChildAddress (ranges : PropEncodedArray) (address : UInt64) : Except DecodeFault (Option UInt64) :=
  if ranges.size = 0 then pure (some address)
  else translateLoop ranges address (List.range ranges.size)

/-- `PropertyDecoder::TranslateAddress` at the first node of `path`, the node
and its ancestors up to the root. -/
def translateAddress : List NodeCells → UInt64 → Except DecodeFault (Option UInt64)
  | [], address => pure (some address)
  | [_], address => pure (some address)
  | _ :: parent :: rest, address =>
    match parent.ranges with
    -- no more translations are possible
    | none => pure (some address)
    | some bytes => do
      match ← RangesProperty.createFor parent rest.head? bytes with
      | none => pure none
      | some ranges =>
        match ← translateChildAddress ranges address with
        | none => pure none
        | some parentAddress => translateAddress (parent :: rest) parentAddress

/-- One level of the translation over unbounded integers, on decoded entries:
the identity for no entries, and otherwise the first complete entry `(c, p, l)`
with `c ≤ a < c + l` maps `a` to `a - c + p`. -/
def levelSpec (entries : List (List (Option UInt64))) (a : ℕ) : Option ℕ :=
  if entries = [] then some a
  else
    let holds : List (Option UInt64) → Bool
      | [some c, some _, some l] => c.toNat ≤ a ∧ a < c.toNat + l.toNat
      | _ => false
    match entries.find? holds with
    | some [some c, some p, some _] => some (a - c.toNat + p.toNat)
    | _ => none

/-- The levels over unbounded integers composed up to a node without `ranges`
or the root, with no result at or past `2 ^ 64`. -/
def translateSpec : List NodeCells → ℕ → Option ℕ
  | [], a => some a
  | [_], a => some a
  | _ :: parent :: rest, a =>
    match parent.ranges with
    | none => some a
    | some bytes =>
      match RangesProperty.createFor parent rest.head? bytes with
      | .ok (some ranges) =>
        match ranges.entries with
        | .ok entries =>
          match levelSpec entries a with
          | some b => if b < 2 ^ 64 then translateSpec (parent :: rest) b else none
          | none => none
        | .error _ => none
      | _ => none

/-- A device under a bus whose only range starts at child address 0, is two
bytes long, and sits at the last parent address `2 ^ 64 - 1`: two cells for each
field, under a root with two address cells. -/
def topOfBusPath : List NodeCells :=
  [⟨none, none, none⟩,
    ⟨some 2, some 2, some ([0, 0, 0, 0, 0, 0, 0, 0] ++ List.replicate 8 255 ++ [0, 0, 0, 0, 0, 0, 0, 2])⟩,
    ⟨some 2, none, none⟩]

theorem translateAddress_wraps :
    translateAddress topOfBusPath 1 = .ok (some 0) ∧ translateSpec topOfBusPath 1 = none := by
  decide

/-! ### The translation in `uint64_t` -/

/-- What a complete entry `(c, p, l)` makes of `a` in `uint64_t`: `a - c + p`
when `c ≤ a < c + l`. -/
def matchEntry (a : UInt64) : List (Option UInt64) → Option UInt64
  | [some c, some p, some l] => if c ≤ a ∧ a < c + l then some (a - c + p) else none
  | _ => none

/-- One level of the translation in `uint64_t`: the identity for no entries,
and otherwise the first entry that holds `a` moves it. -/
def levelWrap (entries : List (List (Option UInt64))) (a : UInt64) : Option UInt64 :=
  if entries = [] then some a else entries.findSome? (matchEntry a)

/-- The levels in `uint64_t` composed up to a node without `ranges` or the
root. -/
def translateWrap : List NodeCells → UInt64 → Option UInt64
  | [], a => some a
  | [_], a => some a
  | _ :: parent :: rest, a =>
    match parent.ranges with
    | none => some a
    | some bytes =>
      match RangesProperty.createFor parent rest.head? bytes with
      | .ok (some ranges) =>
        match ranges.entries with
        | .ok entries => (levelWrap entries a).bind (translateWrap (parent :: rest))
        | .error _ => none
      | _ => none

/-- Every `ranges` on the way up, to the first node without one, decodes into
its entries. -/
def rangesDecode : List NodeCells → Bool
  | [] => true
  | [_] => true
  | _ :: parent :: rest =>
    match parent.ranges with
    | none => true
    | some bytes =>
      match RangesProperty.createFor parent rest.head? bytes with
      | .ok (some ranges) =>
        match ranges.entries with
        | .ok _ => rangesDecode (parent :: rest)
        | .error _ => false
      | _ => false

theorem matchEntry_of_not_complete {a : UInt64} {e : List (Option UInt64)}
    (h : ∀ c p l, e = [some c, some p, some l] → False) : matchEntry a e = none := by
  unfold matchEntry
  split
  · exact absurd rfl (h _ _ _)
  · rfl

theorem length_of_mapM_ok {β : Type} {f : ℕ → Except DecodeFault β} :
    ∀ {indices : List ℕ} {out : List β}, indices.mapM f = .ok out → out.length = indices.length
  | [], out, h => by
    cases h
    rfl
  | i :: rest, out, h => by
    rw [List.mapM_cons] at h
    rcases hi : f i with _ | b
    · simp [hi, bind, Except.bind] at h
    rcases hr : rest.mapM f with _ | bs
    · simp [hi, hr, bind, Except.bind] at h
    simp only [hi, hr, bind, Except.bind, pure, Except.pure, Except.ok.injEq] at h
    subst h
    simp [length_of_mapM_ok hr]

/-- The loop of `TranslateChildAddress` over entries that decode finds the
first entry that holds the address. -/
theorem translateLoop_eq_findSome (ranges : PropEncodedArray) (address : UInt64) :
    ∀ {indices : List ℕ} {entries : List (List (Option UInt64))}, indices.mapM ranges.get = .ok entries →
      translateLoop ranges address indices = .ok (entries.findSome? (matchEntry address))
  | [], entries, h => by
    cases h
    rfl
  | i :: rest, entries, h => by
    rw [List.mapM_cons] at h
    rcases hi : ranges.get i with _ | e
    · simp [hi, bind, Except.bind] at h
    rcases hr : rest.mapM ranges.get with _ | es
    · simp [hi, hr, bind, Except.bind] at h
    simp only [hi, hr, bind, Except.bind, pure, Except.pure, Except.ok.injEq] at h
    subst h
    have ih := translateLoop_eq_findSome ranges address hr
    rw [translateLoop, hi, List.findSome?_cons]
    simp only [bind, Except.bind]
    split
    · split_ifs with hx <;> simp [matchEntry, hx, ih, pure, Except.pure]
    · rename_i hshape
      rw [matchEntry_of_not_complete hshape]
      exact ih

theorem translateChildAddress_eq {ranges : PropEncodedArray} {entries : List (List (Option UInt64))}
    (h : ranges.entries = .ok entries) (address : UInt64) :
    translateChildAddress ranges address = .ok (levelWrap entries address) := by
  have hlen : entries.length = ranges.size := by
    simpa using length_of_mapM_ok h
  unfold translateChildAddress levelWrap
  by_cases h0 : ranges.size = 0
  · rw [if_pos h0, if_pos (List.length_eq_zero_iff.mp (hlen.trans h0))]
    rfl
  · rw [if_neg h0, if_neg (fun he ↦ h0 (by rw [← hlen, he, List.length_nil]))]
    exact translateLoop_eq_findSome ranges address h

/-- Wherever the `ranges` on the way up decode, `TranslateAddress` is the
composition of the levels in `uint64_t`: each the identity for an empty
`ranges`, and otherwise `a - c + p` for the first entry `(c, p, l)` with
`c ≤ a < c + l`, sums and differences wrapping; `nullopt` where a level has no
such entry; the translation stops at a node without `ranges`. -/
theorem translateAddress_eq_translateWrap :
    ∀ (path : List NodeCells), rangesDecode path = true →
      ∀ address, translateAddress path address = .ok (translateWrap path address)
  | [], _, _ => rfl
  | [_], _, _ => rfl
  | _ :: parent :: rest, h, address => by
    unfold rangesDecode at h
    unfold translateAddress translateWrap
    rcases hb : parent.ranges with _ | bytes
    · rfl
    simp only [hb] at h ⊢
    rcases hc : RangesProperty.createFor parent rest.head? bytes with _ | _ | ranges
    · simp [hc] at h
    · simp [hc] at h
    simp only [hc] at h
    rcases he : ranges.entries with _ | entries
    · simp [he] at h
    simp only [he] at h ⊢
    simp only [bind, Except.bind, translateChildAddress_eq he]
    rcases levelWrap entries address with _ | b
    · rfl
    · exact translateAddress_eq_translateWrap (parent :: rest) h b

theorem translateAddress_eq_translateWrap_topOfBus :
    rangesDecode topOfBusPath = true ∧ translateAddress topOfBusPath 1 = .ok (translateWrap topOfBusPath 1) :=
  ⟨by decide, translateAddress_eq_translateWrap topOfBusPath (by decide) 1⟩

end Zircon.Devicetree
