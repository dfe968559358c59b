import Mathlib
import Zircon.Lib.Align
import Zircon.Lib.BitField
import Zircon.Vm.RegionList

/-!
# Runs of free pages in a PMM arena

`PmmArena::FindFreeContiguous` (vm/pmm_arena.cc) looks for `count` free pages
whose first physical address is aligned to `2 ^ alignment_log2`.  It starts at
the first aligned offset at or after `search_hint_`, walks aligned candidates
towards the end of the arena, skips past the last non-free page of each window
that fails, then wraps once to the first aligned offset and stops when it laps
the hint.

Offsets into `page_array_` are natural numbers: they stay below the page count
plus one alignment step, and `InRange`'s test for a wrapped `offset + len` gives
the answer `offset + len ≤ max` gives on numbers below `2 ^ 64`.  The base is the
`paddr_t` it is, and the first aligned offset is computed in 64 bits, where
`ROUNDUP` of a base near the top of the address space wraps.  `PAGE_SIZE_SHIFT`
is a parameter.

The search returns only aligned runs of free pages inside the arena, returns
one whenever one exists, keeps the hint inside the arena, and examines at most
one run more than the arena has pages (`findFreeContiguous_spec`).
-/

namespace Zircon.Vm

open Zircon.Lib

variable (pageSizeShift : ℕ)

/-- A `PmmArena` as `FindFreeContiguous` sees it: the physical base, the number
of pages, which of them are free and `search_hint_`.  `Init` asserts the base
page-aligned and starts the hint at zero in an arena of at least one page. -/
structure PmmArena where
  base : UInt64
  pageCount : ℕ
  isFree : ℕ → Bool
  searchHint : ℕ
  base_aligned : base.toNat % 2 ^ pageSizeShift = 0
  searchHint_lt : searchHint < pageCount

/-! ## `InRange`, `Align` and `FindLastNonFree` -/

/-- `InRange` of kernel/range_check.h: is `[offset, offset + len]` inside
`[0, max]`?  A sum that wraps in 64 bits is above `max` here, so the first test
never decides. -/
def inRange (offset len max : ℕ) : Bool :=
  if offset + len < offset then false
  else if offset > max then false
  else if offset + len > max then false
  else true

theorem inRange_eq_true {offset len max : ℕ} :
    inRange offset len max = true ↔ offset + len ≤ max := by
  unfold inRange
  split_ifs <;> simp <;> omega

/-- `first_aligned_offset`, `(ROUNDUP(base(), 1UL << alignment_log2) - base()) /
PAGE_SIZE` in 64 bits. -/
def firstAlignedOffset (base : UInt64) (alignmentLog2 : ℕ) : ℕ :=
  ((roundUp base (1 <<< alignmentLog2.toUInt64) - base) / (1 <<< pageSizeShift.toUInt64)).toNat

/-- `Align`: the first offset at or after `offset` whose physical address has the
alignment.  It may lie past the end of the arena. -/
def align (offset alignmentLog2 firstAlignedOffset : ℕ) : ℕ :=
  if offset < firstAlignedOffset then firstAlignedOffset
  else
    -- the alignment beyond `PAGE_SIZE`
    let offsetAlignment := alignmentLog2 - pageSizeShift
    (offset - firstAlignedOffset + (2 ^ offsetAlignment - 1)) / 2 ^ offsetAlignment *
      2 ^ offsetAlignment + firstAlignedOffset

/-- `FindLastNonFree`: the last non-free page of `[offset, offset + count)`,
walking the window back to front. -/
def findLastNonFree (isFree : ℕ → Bool) (offset count : ℕ) : Option ℕ :=
  go (offset + count - 1)
where
  /-- The `do … while (i-- > offset)` loop at page `i`. -/
  go (i : ℕ) : Option ℕ :=
    if !isFree i then some i
    else if i > offset then go (i - 1)
    else none
  termination_by i
  decreasing_by omega

variable {pageSizeShift}

section Align

variable {offset alignmentLog2 first : ℕ}

theorem le_align : offset ≤ align pageSizeShift offset alignmentLog2 first := by
  unfold align
  split_ifs with h
  · exact h.le
  · dsimp only
    have := le_roundUp (x := offset - first) (Nat.two_pow_pos (alignmentLog2 - pageSizeShift))
    omega

theorem alignedFrom_align :
    AlignedFrom first (2 ^ (alignmentLog2 - pageSizeShift))
      (align pageSizeShift offset alignmentLog2 first) := by
  unfold align
  split_ifs
  · exact alignedFrom_self _ _
  · exact alignedFrom_roundUp _ _ _

theorem align_le {v : ℕ} (hv : AlignedFrom first (2 ^ (alignmentLog2 - pageSizeShift)) v)
    (hle : offset ≤ v) : align pageSizeShift offset alignmentLog2 first ≤ v := by
  unfold align
  split_ifs with h
  · exact hv.1
  · dsimp only
    have := roundUp_le (x := offset - first) (Nat.two_pow_pos _) hv.2 (by omega)
    have := hv.1
    omega

end Align

section FindLastNonFree

variable {isFree : ℕ → Bool} {offset count : ℕ}

/-- The scan from page `i` down to `offset` finds the last non-free page there,
or reports every page free. -/
theorem findLastNonFree_go_spec (isFree : ℕ → Bool) (offset i : ℕ) (hi : offset ≤ i) :
    match findLastNonFree.go isFree offset i with
    | some l => offset ≤ l ∧ l ≤ i ∧ isFree l = false
    | none => ∀ j, offset ≤ j → j ≤ i → isFree j = true := by
  induction i using Nat.strong_induction_on with
  | _ i ih =>
    rw [findLastNonFree.go]
    by_cases hfree : isFree i = true
    · have hnot : (!isFree i) = false := by simp [hfree]
      simp only [hnot, Bool.false_eq_true, if_false]
      split_ifs with hlt
      · -- the page is free: go on one page lower
        have hrec := ih (i - 1) (by omega) (by omega)
        split
        · next l hl =>
          rw [hl] at hrec
          exact ⟨hrec.1, by omega, hrec.2.2⟩
        · next hl =>
          rw [hl] at hrec
          intro j hj hji
          rcases Nat.lt_or_ge j i with hj' | hj'
          · exact hrec j hj (by omega)
          · rwa [show j = i by omega]
      · intro j hj hji
        rwa [show j = i by omega]
    · simp only [Bool.not_eq_true] at hfree
      simp [hfree]
      exact hi

theorem findLastNonFree_eq_some {l : ℕ} (hcount : 0 < count)
    (h : findLastNonFree isFree offset count = some l) :
    offset ≤ l ∧ l < offset + count ∧ isFree l = false := by
  have hspec := findLastNonFree_go_spec isFree offset (offset + count - 1) (by omega)
  rw [findLastNonFree] at h
  rw [h] at hspec
  exact ⟨hspec.1, by omega, hspec.2.2⟩

theorem findLastNonFree_eq_none (hcount : 0 < count)
    (h : findLastNonFree isFree offset count = none) :
    ∀ j, offset ≤ j → j < offset + count → isFree j = true := by
  have hspec := findLastNonFree_go_spec isFree offset (offset + count - 1) (by omega)
  rw [findLastNonFree] at h
  rw [h] at hspec
  intro j hj hjc
  exact hspec j hj (by omega)

end FindLastNonFree

/-! ## The search loop -/

/-- `count` free pages from `i` on, all inside the arena of `arenaCount` pages. -/
def RunFree (isFree : ℕ → Bool) (arenaCount count i : ℕ) : Prop :=
  i + count ≤ arenaCount ∧ ∀ j, i ≤ j → j < i + count → isFree j = true

instance (isFree : ℕ → Bool) (arenaCount count i : ℕ) :
    Decidable (RunFree isFree arenaCount count i) :=
  inferInstanceAs (Decidable (_ ∧ _))

/-- The locals `FindFreeContiguous` fixes before its loop: the pages' states,
`arena_count`, `count` (its `DEBUG_ASSERT(count > 0)` as a field), the raised
`alignment_log2`, `first_aligned_offset` and `initial`, the hint. -/
structure SearchContext where
  isFree : ℕ → Bool
  arenaCount : ℕ
  count : ℕ
  alignmentLog2 : ℕ
  firstAlignedOffset : ℕ
  initial : ℕ
  count_pos : 0 < count

namespace SearchContext

variable (pageSizeShift) (ctx : SearchContext)

/-- `v` has the physical alignment: it is the first aligned offset plus a
multiple of the alignment beyond `PAGE_SIZE`. -/
def Aligned (v : ℕ) : Prop :=
  AlignedFrom ctx.firstAlignedOffset (2 ^ (ctx.alignmentLog2 - pageSizeShift)) v

/-- A run the search may return at `v`. -/
def Fits (v : ℕ) : Prop :=
  RunFree ctx.isFree ctx.arenaCount ctx.count v ∧ ctx.Aligned pageSizeShift v

end SearchContext

variable (pageSizeShift)

/-- The `while` loop of `FindFreeContiguous` from `candidate`, with `wrapped` and
`num_runs_examined`: the page it stops at, if any, and the runs examined.  With
`count = 0` a non-free page just before an aligned candidate would keep the
loop in place; the context rules that out. -/
def searchLoop (ctx : SearchContext) (candidate : ℕ) (wrapped : Bool)
    (numRunsExamined : ℕ) : Option ℕ × ℕ :=
  if !wrapped || candidate < ctx.initial then
    if !inRange candidate ctx.count ctx.arenaCount then
      if wrapped then (none, numRunsExamined + 1)
      else searchLoop ctx ctx.firstAlignedOffset true (numRunsExamined + 1)
    else
      match h : findLastNonFree ctx.isFree candidate ctx.count with
      | none => (some candidate, numRunsExamined + 1)
      | some lastNonFree =>
        -- skip over the broken run, keeping the alignment
        searchLoop ctx (align pageSizeShift (lastNonFree + 1) ctx.alignmentLog2
          ctx.firstAlignedOffset) wrapped (numRunsExamined + 1)
  else (none, numRunsExamined)
termination_by (if wrapped then 0 else ctx.arenaCount + 1) + (ctx.arenaCount - candidate)
decreasing_by
  · rw [if_pos trivial, if_neg ‹¬wrapped = true›]
    omega
  · rename_i hrange
    have hin : candidate + ctx.count ≤ ctx.arenaCount := by
      simpa [inRange_eq_true] using hrange
    have hl := (findLastNonFree_eq_some ctx.count_pos h).1
    have ha : lastNonFree + 1 ≤ align pageSizeShift (lastNonFree + 1) ctx.alignmentLog2
        ctx.firstAlignedOffset := le_align
    have := ctx.count_pos
    omega

variable {pageSizeShift}

theorem le_of_inRange {offset len max : ℕ} (h : ¬(!inRange offset len max) = true) :
    offset + len ≤ max := by
  simpa [inRange_eq_true] using h

theorem lt_of_not_inRange {offset len max : ℕ} (h : (!inRange offset len max) = true) :
    max < offset + len := by
  simp only [Bool.not_eq_eq_eq_not, Bool.not_true, Bool.eq_false_iff, ne_eq, inRange_eq_true] at h
  omega

section Loop

variable {ctx : SearchContext}

theorem align_le_of_skip {candidate lastNonFree v : ℕ}
    (hlast : findLastNonFree ctx.isFree candidate ctx.count = some lastNonFree)
    (hcv : candidate ≤ v) (hv : ctx.Fits pageSizeShift v) :
    align pageSizeShift (lastNonFree + 1) ctx.alignmentLog2 ctx.firstAlignedOffset ≤ v := by
  obtain ⟨hcl, hlc, hbusy⟩ := findLastNonFree_eq_some ctx.count_pos hlast
  apply align_le hv.2
  by_contra hvl
  have hfree := hv.1.2 lastNonFree (by omega) (by omega)
  rw [hbusy] at hfree
  exact Bool.false_ne_true hfree

theorem searchLoop_sound {candidate : ℕ} {wrapped : Bool} {runs : ℕ}
    (hc : ctx.Aligned pageSizeShift candidate) {i : ℕ}
    (h : (searchLoop pageSizeShift ctx candidate wrapped runs).1 = some i) :
    ctx.Fits pageSizeShift i := by
  fun_induction searchLoop pageSizeShift ctx candidate wrapped runs with
  | case1 => cases h
  | case2 _ _ _ _ _ _ ih => exact ih (alignedFrom_self _ _) h
  | case3 candidate _ _ _ hrange hnone =>
    cases h
    exact ⟨⟨le_of_inRange hrange, findLastNonFree_eq_none ctx.count_pos hnone⟩, hc⟩
  | case4 _ _ _ _ _ _ _ ih => exact ih alignedFrom_align h
  | case5 => cases h

/-- Where a run the search may return can lie once the loop from `candidate`
has returned nothing: below the candidate and at or past the hint before the
wrap, below the candidate or at or past the hint after it. -/
def Missed (initial candidate : ℕ) (wrapped : Bool) (v : ℕ) : Prop :=
  if wrapped then v < candidate ∨ initial ≤ v else v < candidate ∧ initial ≤ v

theorem searchLoop_none {candidate : ℕ} {wrapped : Bool} {runs : ℕ}
    (h : (searchLoop pageSizeShift ctx candidate wrapped runs).1 = none) {v : ℕ}
    (hv : ctx.Fits pageSizeShift v) : Missed ctx.initial candidate wrapped v := by
  have hfit := hv.1.1
  fun_induction searchLoop pageSizeShift ctx candidate wrapped runs with
  | case1 candidate _ hrange _ =>
    have := lt_of_not_inRange hrange
    exact Or.inl (by omega)
  | case2 candidate wrapped _ _ hrange hwrapped ih =>
    have hafter : ctx.initial ≤ v := by
      have := ih h
      simp only [Missed, if_true] at this
      have := hv.2.1
      omega
    have := lt_of_not_inRange hrange
    rw [Bool.not_eq_true] at hwrapped
    simp only [Missed, hwrapped]
    exact ⟨by omega, hafter⟩
  | case3 => cases h
  | case4 candidate wrapped _ _ _ lastNonFree hlast ih =>
    have hskip : v < candidate ∨ align pageSizeShift (lastNonFree + 1) ctx.alignmentLog2
        ctx.firstAlignedOffset ≤ v := by
      rcases Nat.lt_or_ge v candidate with hlt | hge
      · exact Or.inl hlt
      · exact Or.inr (align_le_of_skip hlast hge hv)
    have hih := ih h
    cases wrapped <;> simp only [Missed, Bool.false_eq_true, if_true, if_false] at hih ⊢ <;> omega
  | case5 candidate wrapped _ hcond =>
    have : wrapped = true ∧ ctx.initial ≤ candidate := by
      simpa using hcond
    rw [this.1]
    simp only [Missed, if_true]
    omega

/-- The loop from `candidate` examines at most one run per offset it can still
visit, and one more to wrap. -/
theorem searchLoop_runs_le {candidate : ℕ} {wrapped : Bool} {runs : ℕ} :
    (searchLoop pageSizeShift ctx candidate wrapped runs).2 ≤ runs +
      if wrapped then ctx.initial - candidate
      else ctx.arenaCount - candidate + 1 + ctx.initial := by
  fun_induction searchLoop pageSizeShift ctx candidate wrapped runs with
  | case1 candidate _ _ hcond =>
    have : candidate < ctx.initial := by simpa using hcond
    simp only [if_true]
    omega
  | case2 candidate wrapped _ _ _ hwrapped ih =>
    rw [Bool.not_eq_true] at hwrapped
    simp only [hwrapped, if_true, Bool.false_eq_true, if_false] at ih ⊢
    omega
  | case3 candidate wrapped _ hcond _ _ =>
    cases wrapped
    · simp only [Bool.false_eq_true, if_false]
      omega
    · have : candidate < ctx.initial := by simpa using hcond
      simp only [if_true]
      omega
  | case4 candidate wrapped _ hcond hrange lastNonFree hlast ih =>
    have hnext : candidate < align pageSizeShift (lastNonFree + 1) ctx.alignmentLog2
        ctx.firstAlignedOffset := by
      have := (findLastNonFree_eq_some ctx.count_pos hlast).1
      have : lastNonFree + 1 ≤ align pageSizeShift (lastNonFree + 1) ctx.alignmentLog2
          ctx.firstAlignedOffset := le_align
      omega
    have hin := le_of_inRange hrange
    have := ctx.count_pos
    cases wrapped
    · simp only [Bool.false_eq_true, if_false] at ih ⊢
      omega
    · have : candidate < ctx.initial := by simpa using hcond
      simp only [if_true] at ih ⊢
      omega
  | case5 => omega

end Loop

/-! ## The first aligned offset -/

theorem toNat_one_shiftLeft {k : ℕ} (hk : k < 64) :
    ((1 : UInt64) <<< k.toUInt64).toNat = 2 ^ k := by
  have hkn : k.toUInt64.toNat = k := by
    rw [UInt64.toNat_ofNat']
    exact Nat.mod_eq_of_lt (by omega)
  have hk' : k.toUInt64 < 64 := by
    rw [UInt64.lt_iff_toNat_lt, hkn]
    exact hk
  rw [one_shiftLeft_toNat hk', hkn]

theorem toNat_roundUp {x : UInt64} {k : ℕ} (hk : k < 64) (hx : x.toNat + (2 ^ k - 1) < 2 ^ 64) :
    (roundUp x (1 <<< k.toUInt64)).toNat = (x.toNat + (2 ^ k - 1)) / 2 ^ k * 2 ^ k := by
  have hb := toNat_one_shiftLeft hk
  have hone : (1 : UInt64) ≤ 1 <<< k.toUInt64 := by
    rw [UInt64.le_iff_toNat_le, hb]
    exact Nat.one_le_two_pow
  have hmask : ((1 <<< k.toUInt64) - 1 : UInt64).toNat = 2 ^ k - 1 := by
    rw [UInt64.toNat_sub_of_le _ _ hone, hb]
    rfl
  have hsum : (x + ((1 <<< k.toUInt64) - 1)).toNat = x.toNat + (2 ^ k - 1) := by
    rw [UInt64.toNat_add, hmask, Nat.mod_eq_of_lt hx]
  have hnot : (~~~((1 <<< k.toUInt64) - 1 : UInt64)).toNat = 2 ^ 64 - 2 ^ k := by
    rw [UInt64.toNat_not, hmask]
    have : 0 < 2 ^ k := Nat.two_pow_pos k
    have : UInt64.size = 2 ^ 64 := rfl
    omega
  rw [roundUp, UInt64.toNat_and, hsum, hnot, land_two_pow_sub_two_pow hx hk.le]

/-- With `ROUNDUP` clear of the top of the address space, the first aligned
offset lands on the least multiple of `2 ^ a` at or above the base. -/
theorem firstAlignedOffset_spec {base : UInt64} {a : ℕ} (hs : pageSizeShift ≤ a) (ha : a < 64)
    (hbase : base.toNat % 2 ^ pageSizeShift = 0) (hroom : base.toNat + (2 ^ a - 1) < 2 ^ 64) :
    base.toNat + firstAlignedOffset pageSizeShift base a * 2 ^ pageSizeShift =
      (base.toNat + (2 ^ a - 1)) / 2 ^ a * 2 ^ a := by
  have hround := toNat_roundUp ha hroom
  have hle : base ≤ roundUp base (1 <<< a.toUInt64) := by
    rw [UInt64.le_iff_toNat_le, hround]
    exact le_roundUp (Nat.two_pow_pos a)
  have hdvd : 2 ^ pageSizeShift ∣ (base.toNat + (2 ^ a - 1)) / 2 ^ a * 2 ^ a - base.toNat := by
    apply Nat.dvd_sub
    · exact Dvd.dvd.mul_left (Nat.pow_dvd_pow 2 hs) _
    · exact Nat.dvd_of_mod_eq_zero hbase
  have hge := le_roundUp (x := base.toNat) (Nat.two_pow_pos a)
  unfold firstAlignedOffset
  rw [UInt64.toNat_div, UInt64.toNat_sub_of_le _ _ hle, hround,
    toNat_one_shiftLeft (by omega), Nat.div_mul_cancel hdvd]
  omega

/-! ## `FindFreeContiguous` -/

/-- The locals of `FindFreeContiguous` for an arena, a count and the raised
alignment. -/
def PmmArena.searchContext (a : PmmArena pageSizeShift) (count : ℕ) (hcount : 0 < count)
    (alignmentLog2 : ℕ) : SearchContext :=
  ⟨a.isFree, a.pageCount, count, alignmentLog2,
    firstAlignedOffset pageSizeShift a.base alignmentLog2, a.searchHint, hcount⟩

/-- The loop `FindFreeContiguous` runs, from the first aligned offset at or
after the hint, after raising the alignment to at least `PAGE_SIZE`. -/
def PmmArena.search (a : PmmArena pageSizeShift) (count : ℕ) (hcount : 0 < count)
    (alignmentLog2 : ℕ) : Option ℕ × ℕ :=
  let alignmentLog2 := if alignmentLog2 < pageSizeShift then pageSizeShift else alignmentLog2
  let ctx := a.searchContext count hcount alignmentLog2
  let candidate := align pageSizeShift ctx.initial alignmentLog2 ctx.firstAlignedOffset
  searchLoop pageSizeShift ctx candidate false 0

/-- What `FindFreeContiguous` leaves behind: the index of the page it returns
(`none` for `nullptr`), the arena with its new `search_hint_`, and the runs it
examined, which it reports to `counter_max_runs_examined`. -/
structure FindResult (pageSizeShift : ℕ) where
  page : Option ℕ
  arena : PmmArena pageSizeShift
  numRunsExamined : ℕ

/-- `PmmArena::FindFreeContiguous`: a found run moves the hint past itself. -/
def PmmArena.findFreeContiguous (a : PmmArena pageSizeShift) (count : ℕ) (hcount : 0 < count)
    (alignmentLog2 : ℕ) : FindResult pageSizeShift :=
  match a.search count hcount alignmentLog2 with
  | (some candidate, numRunsExamined) =>
    ⟨some candidate,
      { a with
        searchHint := (candidate + count) % a.pageCount
        searchHint_lt := Nat.mod_lt _ (Nat.zero_lt_of_lt a.searchHint_lt) },
      numRunsExamined⟩
  | (none, numRunsExamined) => ⟨none, a, numRunsExamined⟩

/-- `count` free pages of the arena from page `i` on, the first at a physical
address aligned to `2 ^ alignmentLog2`. -/
def PmmArena.FreeRunAt (a : PmmArena pageSizeShift) (count alignmentLog2 i : ℕ) : Prop :=
  RunFree a.isFree a.pageCount count i ∧
    (a.base.toNat + i * 2 ^ pageSizeShift) % 2 ^ alignmentLog2 = 0

namespace PmmArena

variable (a : PmmArena pageSizeShift) (count : ℕ) (hcount : 0 < count) (alignmentLog2 : ℕ)

@[simp] theorem findFreeContiguous_page :
    (a.findFreeContiguous count hcount alignmentLog2).page =
      (a.search count hcount alignmentLog2).1 := by
  rcases h : a.search count hcount alignmentLog2 with ⟨_ | _, _⟩ <;>
    simp [findFreeContiguous, h]

@[simp] theorem findFreeContiguous_numRunsExamined :
    (a.findFreeContiguous count hcount alignmentLog2).numRunsExamined =
      (a.search count hcount alignmentLog2).2 := by
  rcases h : a.search count hcount alignmentLog2 with ⟨_ | _, _⟩ <;>
    simp [findFreeContiguous, h]

@[simp] theorem findFreeContiguous_pageCount :
    (a.findFreeContiguous count hcount alignmentLog2).arena.pageCount =
      a.pageCount := by
  rcases h : a.search count hcount alignmentLog2 with ⟨_ | _, _⟩ <;>
    simp [findFreeContiguous, h]

/-- For a raised alignment clear of the top of the address space, the runs the
loop may return are the arena's aligned runs of free pages. -/
theorem fits_iff_freeRunAt {al : ℕ} (hs : pageSizeShift ≤ al) (hal : al < 64)
    (hroom : a.base.toNat + (2 ^ al - 1) < 2 ^ 64) (i : ℕ) :
    (a.searchContext count hcount al).Fits pageSizeShift i ↔ a.FreeRunAt count al i := by
  have hfirst := firstAlignedOffset_spec hs hal a.base_aligned hroom
  have hmod := mod_eq_zero_iff_alignedFrom hs (by rw [hfirst]; exact roundUp_mod _ _)
    (fun m hm hle ↦ by rw [hfirst]; exact roundUp_le (Nat.two_pow_pos al) hm hle) i
  simp only [SearchContext.Fits, SearchContext.Aligned, FreeRunAt, searchContext, hmod]

/-- The raised alignment leaves `ROUNDUP` of the base clear of the top of the
address space: either it is the requested one, or the base is a multiple of the
page size below `2 ^ 64`. -/
theorem base_add_lt {al : ℕ} (hs : pageSizeShift < 64)
    (hroom : a.base.toNat + 2 ^ al < 2 ^ 64) :
    a.base.toNat + (2 ^ max al pageSizeShift - 1) < 2 ^ 64 := by
  rcases le_total pageSizeShift al with hle | hle
  · rw [max_eq_left hle]
    have : 0 < 2 ^ al := Nat.two_pow_pos al
    omega
  · rw [max_eq_right hle]
    have := add_le_of_lt_of_dvd (Nat.dvd_of_mod_eq_zero a.base_aligned)
      (Nat.pow_dvd_pow 2 (by omega : pageSizeShift ≤ 64)) a.base.toNat_lt
    have : 0 < 2 ^ pageSizeShift := Nat.two_pow_pos _
    omega

end PmmArena

/-- `FindFreeContiguous` from any hint, for any count and any alignment that
keeps `ROUNDUP` of the base below `2 ^ 64`: a page it returns starts `count`
free pages inside the arena at an address aligned to `2 ^ a`, with `a` the
alignment raised to at least `PAGE_SIZE`; it returns `nullptr` only when no
such run exists; the hint stays inside the arena; and the loop examines at most
one run more than the arena has pages. -/
theorem findFreeContiguous_spec (a : PmmArena pageSizeShift) (count alignmentLog2 : ℕ)
    (hcount : 0 < count) (hs : pageSizeShift < 64) (halign : alignmentLog2 ≤ 63)
    (hroom : a.base.toNat + 2 ^ alignmentLog2 < 2 ^ 64) :
    let r := a.findFreeContiguous count hcount alignmentLog2
    (∀ i, r.page = some i → a.FreeRunAt count (max alignmentLog2 pageSizeShift) i) ∧
      (r.page = none ↔ ∀ i, ¬a.FreeRunAt count (max alignmentLog2 pageSizeShift) i) ∧
      r.arena.searchHint < r.arena.pageCount ∧ r.arena.pageCount = a.pageCount ∧
      r.numRunsExamined ≤ a.pageCount + 1 := by
  intro r
  have hraise : (if alignmentLog2 < pageSizeShift then pageSizeShift else alignmentLog2) =
      max alignmentLog2 pageSizeShift := by
    split_ifs <;> omega
  set ctx := a.searchContext count hcount (max alignmentLog2 pageSizeShift)
  set first := align pageSizeShift a.searchHint (max alignmentLog2 pageSizeShift)
    ctx.firstAlignedOffset
  have hfits : ∀ i, ctx.Fits pageSizeShift i ↔ a.FreeRunAt count (max alignmentLog2 pageSizeShift) i :=
    a.fits_iff_freeRunAt count hcount (le_max_right _ _) (by omega) (a.base_add_lt hs hroom)
  -- the loop `FindFreeContiguous` runs, from the first aligned offset past the hint
  have hsearch : a.search count hcount alignmentLog2 = searchLoop pageSizeShift ctx first false 0 := by
    simp only [PmmArena.search, hraise]
    rfl
  have hsound : ∀ i, r.page = some i → a.FreeRunAt count (max alignmentLog2 pageSizeShift) i := by
    intro i hi
    rw [PmmArena.findFreeContiguous_page, hsearch] at hi
    exact (hfits i).1 (searchLoop_sound alignedFrom_align hi)
  refine ⟨hsound, ⟨?_, ?_⟩, r.arena.searchHint_lt, a.findFreeContiguous_pageCount _ _ _, ?_⟩
  · -- a run the loop missed would lie below its first candidate and past the hint
    intro hnone i hrun
    rw [PmmArena.findFreeContiguous_page, hsearch] at hnone
    have hv := (hfits i).2 hrun
    have hmissed := searchLoop_none hnone hv
    simp only [Missed, Bool.false_eq_true, if_false] at hmissed
    have : first ≤ i := align_le hv.2 hmissed.2
    omega
  · intro hno
    cases hpage : r.page with
    | none => rfl
    | some i => exact absurd (hsound i hpage) (hno i)
  · rw [PmmArena.findFreeContiguous_numRunsExamined, hsearch]
    have hruns := @searchLoop_runs_le pageSizeShift ctx first false 0
    simp only [Bool.false_eq_true, if_false] at hruns
    have hinitial : ctx.initial = a.searchHint := rfl
    have harena : ctx.arenaCount = a.pageCount := rfl
    have hle : a.searchHint ≤ first := le_align
    have := a.searchHint_lt
    omega

/-- Eight pages at 1 MiB with page 1 in use and the hint at page 5. -/
def eightPageArena : PmmArena 12 :=
  ⟨0x100000, 8, fun i ↦ i != 1, 5, by decide, by decide⟩

theorem findFreeContiguous_spec_eightPages :
    0 < 2 ∧ 12 < 64 ∧ 13 ≤ 63 ∧ eightPageArena.base.toNat + 2 ^ 13 < 2 ^ 64 ∧
      let r := eightPageArena.findFreeContiguous 2 (by decide) 13
      (∀ i, r.page = some i → eightPageArena.FreeRunAt 2 (max 13 12) i) ∧
        (r.page = none ↔ ∀ i, ¬eightPageArena.FreeRunAt 2 (max 13 12) i) ∧
        r.arena.searchHint < r.arena.pageCount ∧ r.arena.pageCount = eightPageArena.pageCount ∧
        r.numRunsExamined ≤ eightPageArena.pageCount + 1 :=
  ⟨by decide, by decide, by decide, by decide,
    findFreeContiguous_spec eightPageArena 2 13 (by decide) (by decide) (by decide) (by decide)⟩

end Zircon.Vm
