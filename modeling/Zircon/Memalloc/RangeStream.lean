import Zircon.Lib.Merge
import Zircon.Memalloc.Algorithm

/-!
# `RangeStream`, a k-way merge

A `RangeStream` holds a `RangeIterationContext` for each array: the array,
sorted lexicographically when the context is made, and an iterator into it.
Each call of `operator()` takes the least range under the iterators, counting
ended contexts above all others, and steps that iterator on; once every
context has ended it returns null.  `reset()` puts every iterator back at the
beginning.

`Algorithm` reads a stream through `rangeStreamNext`, on what is left of each
array; a call on the contexts does just that (`next_map_rest`).  Each call
takes a range that no range left is below (`rangeStreamNext_spec`), so the
stream is a source of least elements in the sense of `Zircon.Lib.LeastSource`.
Its calls give every range once, in order, then null forever.
-/

namespace Zircon.Memalloc

open Zircon.Lib

/-! ### The least head -/

/-- `leastHead` finds none only when every context has ended, and otherwise a
context whose head no other head is below. -/
theorem leastHead_spec (ctxs : List (List Range)) :
    (leastHead ctxs = none ∧ ∀ c ∈ ctxs, c = []) ∨
      ∃ i r rest, leastHead ctxs = some i ∧ ctxs[i]? = some (r :: rest) ∧
        ∀ c ∈ ctxs, ∀ x ∈ c.head?, x.lt r = false := by
  induction ctxs with
  | nil => exact .inl ⟨rfl, fun c hc ↦ absurd hc List.not_mem_nil⟩
  | cons ctx ctxs ih =>
    rcases ih with ⟨hnone, hended⟩ | ⟨i, r', rest', hsome, hget, hleast⟩
    · -- every later context has ended
      cases ctx with
      | nil =>
        refine .inl ⟨by simp only [leastHead, hnone], fun c hc ↦ ?_⟩
        rcases List.mem_cons.mp hc with rfl | hc
        · rfl
        · exact hended c hc
      | cons r rest =>
        refine .inr ⟨0, r, rest, by simp only [leastHead, hnone], rfl, fun c hc x hx ↦ ?_⟩
        rcases List.mem_cons.mp hc with rfl | hc
        · cases hx
          exact Range.lt_self_eq_false r
        · rw [hended c hc] at hx
          cases hx
    · have hget' : (ctx :: ctxs)[i + 1]? = some (r' :: rest') := by
        rw [List.getElem?_cons_succ, hget]
      have hhead : (ctxs[i]?).bind List.head? = some r' := by
        rw [hget]
        rfl
      cases ctx with
      | nil =>
        refine .inr ⟨i + 1, r', rest', by simp only [leastHead, hsome], hget', fun c hc x hx ↦ ?_⟩
        rcases List.mem_cons.mp hc with rfl | hc
        · cases hx
        · exact hleast c hc x hx
      | cons r rest =>
        by_cases hlt : r'.lt r = true
        · -- a later head is below this one
          refine .inr ⟨i + 1, r', rest', ?_, hget', fun c hc x hx ↦ ?_⟩
          · simp only [leastHead, hsome, hhead, hlt, if_true]
          rcases List.mem_cons.mp hc with rfl | hc
          · cases hx
            exact Range.lt_eq_false_of_lt hlt
          · exact hleast c hc x hx
        · -- this head is least; a tie goes to the earlier context
          rw [Bool.not_eq_true] at hlt
          refine .inr ⟨0, r, rest, ?_, rfl, fun c hc x hx ↦ ?_⟩
          · simp only [leastHead, hsome, hhead, hlt, Bool.false_eq_true, if_false]
          rcases List.mem_cons.mp hc with rfl | hc
          · cases hx
            exact Range.lt_self_eq_false r
          · exact Range.lt_eq_false_trans hlt (hleast c hc x hx)

/-- `RangeStream::operator()` on what is left of each array: null only once
every array has ended, and otherwise the head of one of them, which no other
head is below. -/
theorem rangeStreamNext_spec (ctxs : List (List Range)) :
    (rangeStreamNext ctxs = none ∧ ∀ c ∈ ctxs, c = []) ∨
      ∃ i r rest, ctxs[i]? = some (r :: rest) ∧
        rangeStreamNext ctxs = some (r, ctxs.set i rest) ∧
        ∀ c ∈ ctxs, ∀ x ∈ c.head?, x.lt r = false := by
  rcases leastHead_spec ctxs with ⟨hnone, hended⟩ | ⟨i, r, rest, hsome, hget, hleast⟩
  · exact .inl ⟨by simp only [rangeStreamNext, hnone], hended⟩
  · exact .inr ⟨i, r, rest, hget, by simp only [rangeStreamNext, hsome, hget], hleast⟩

/-! ### A source of least ranges -/

/-- Each array is sorted lexicographically: no range is below one before it. -/
def ContextsSorted (ctxs : List (List Range)) : Prop :=
  ∀ c ∈ ctxs, c.Pairwise fun a b ↦ b.lt a = false

theorem lt_eq_false_of_mem_sorted {c : List Range} (hc : c.Pairwise fun a b ↦ b.lt a = false)
    {r : Range} (hhead : ∀ h ∈ c.head?, h.lt r = false) {x : Range} (hx : x ∈ c) :
    x.lt r = false := by
  cases c with
  | nil => cases hx
  | cons h t =>
    rcases List.mem_cons.mp hx with rfl | hx
    · exact hhead x rfl
    · exact Range.lt_eq_false_trans (hhead h rfl) (List.rel_of_pairwise_cons hc hx)

theorem rangeStreamNext_eq_some {ctxs ctxs' : List (List Range)} {r : Range}
    (h : rangeStreamNext ctxs = some (r, ctxs')) :
    ∃ i rest, ctxs[i]? = some (r :: rest) ∧ ctxs' = ctxs.set i rest ∧
      ∀ c ∈ ctxs, ∀ x ∈ c.head?, x.lt r = false := by
  rcases rangeStreamNext_spec ctxs with ⟨hnone, -⟩ | ⟨i, r', rest, hget, hsome, hleast⟩
  · rw [hnone] at h
    cases h
  · rw [hsome, Option.some_inj, Prod.mk.injEq] at h
    obtain ⟨rfl, rfl⟩ := h
    exact ⟨i, rest, hget, rfl, hleast⟩

theorem rangeStreamNext_leastSource :
    LeastSource rangeStreamNext List.flatten ContextsSorted fun a b ↦ b.lt a = false where
  inv_next := by
    intro ctxs r ctxs' hs h
    obtain ⟨i, rest, hget, rfl, -⟩ := rangeStreamNext_eq_some h
    intro c hc
    rcases List.mem_or_eq_of_mem_set hc with hc | rfl
    · exact hs c hc
    · exact (List.pairwise_cons.mp (hs _ (List.mem_of_getElem? hget))).2
  eq_none_iff := by
    intro ctxs _
    rw [List.flatten_eq_nil_iff]
    rcases rangeStreamNext_spec ctxs with ⟨hnone, hended⟩ | ⟨i, r, rest, hget, hsome, -⟩
    · exact ⟨fun _ ↦ hended, fun _ ↦ hnone⟩
    · rw [hsome]
      refine ⟨fun h ↦ absurd h (Option.some_ne_none _), fun hended ↦ ?_⟩
      exact absurd (hended _ (List.mem_of_getElem? hget)) (List.cons_ne_nil r rest)
  perm_next := by
    intro ctxs r ctxs' _ h
    obtain ⟨i, rest, hget, rfl, -⟩ := rangeStreamNext_eq_some h
    exact perm_flatten_set hget
  le_next := by
    intro ctxs r ctxs' hs h x hx
    obtain ⟨i, rest, hget, rfl, hleast⟩ := rangeStreamNext_eq_some h
    obtain ⟨c, hc, hxc⟩ := List.mem_flatten.mp hx
    rcases List.mem_or_eq_of_mem_set hc with hc | rfl
    · exact lt_eq_false_of_mem_sorted (hs c hc) (hleast c hc) hxc
    · exact List.rel_of_pairwise_cons (hs _ (List.mem_of_getElem? hget)) hxc

/-! ### The contexts -/

/-- `RangeIterationContext`: an array and an iterator into it. -/
structure RangeIterationContext where
  ranges : List Range
  it : ℕ
  it_le : it ≤ ranges.length

namespace RangeIterationContext

/-- A context at the beginning of its array, as it is made and as `reset()`
leaves it. -/
def atBegin (ranges : List Range) : RangeIterationContext :=
  ⟨ranges, 0, Nat.zero_le _⟩

/-- What the iterator has not yet passed. -/
def rest (ctx : RangeIterationContext) : List Range :=
  ctx.ranges.drop ctx.it

end RangeIterationContext

namespace RangeStream

open RangeIterationContext

/-- `RangeStream::operator()`: the least range under the iterators, with the
iterator that pointed to it stepped on, or none, with nothing changed, once
every context has ended. -/
def next (state : List RangeIterationContext) : Option (Range × List RangeIterationContext) :=
  match leastHead (state.map rest) with
  | none => none
  | some i =>
    match state[i]? with
    | some ctx =>
      if h : ctx.it < ctx.ranges.length then
        some (ctx.ranges[ctx.it], state.set i ⟨ctx.ranges, ctx.it + 1, h⟩)
      else none
    | none => none

/-- `RangeStream::reset()`. -/
def reset (state : List RangeIterationContext) : List RangeIterationContext :=
  state.map fun ctx ↦ atBegin ctx.ranges

theorem next_map_rest (state : List RangeIterationContext) :
    (next state).map (fun p ↦ (p.1, p.2.map rest)) = rangeStreamNext (state.map rest) := by
  unfold next rangeStreamNext
  cases leastHead (state.map rest) with
  | none => rfl
  | some i =>
    dsimp only
    rw [List.getElem?_map]
    cases state[i]? with
    | none => rfl
    | some ctx =>
      dsimp only
      by_cases h : ctx.it < ctx.ranges.length
      · -- the context's head is the range under its iterator
        have hrest : ctx.rest = ctx.ranges[ctx.it] :: ctx.ranges.drop (ctx.it + 1) :=
          List.drop_eq_getElem_cons h
        rw [dif_pos h, Option.map_some, Option.map_some, hrest, List.map_set]
        rfl
      · have hrest : ctx.rest = [] := List.drop_eq_nil_of_le (Nat.le_of_not_lt h)
        rw [dif_neg h, Option.map_some, hrest]
        rfl

theorem ranges_next {state state' : List RangeIterationContext} {r : Range}
    (h : next state = some (r, state')) : state'.map (·.ranges) = state.map (·.ranges) := by
  unfold next at h
  split at h
  · cases h
  · split at h
    · rename_i ctx hctx
      split_ifs at h with hlt
      rw [Option.some_inj, Prod.mk.injEq] at h
      obtain ⟨-, rfl⟩ := h
      obtain ⟨hi, rfl⟩ := List.getElem?_eq_some_iff.mp hctx
      rw [List.map_set]
      exact List.ext_getElem (by simp) fun j _ _ ↦ by
        rw [List.getElem_set]
        split_ifs with hj <;> simp [hj]
    · cases h

theorem reset_eq (state : List RangeIterationContext) :
    reset state = (state.map (·.ranges)).map atBegin := by
  rw [reset, List.map_map]
  rfl

theorem rangeStreamNext_of_next {state state' : List RangeIterationContext} {r : Range}
    (h : next state = some (r, state')) :
    rangeStreamNext (state.map rest) = some (r, state'.map rest) := by
  rw [← next_map_rest, h]
  rfl

theorem next_eq_none_iff (state : List RangeIterationContext) :
    next state = none ↔ rangeStreamNext (state.map rest) = none := by
  rw [← next_map_rest, Option.map_eq_none_iff]

/-- Every context's array is sorted lexicographically. -/
def ArraysSorted (state : List RangeIterationContext) : Prop :=
  ∀ ctx ∈ state, ctx.ranges.Pairwise fun a b ↦ b.lt a = false

theorem contextsSorted_of_arraysSorted {state : List RangeIterationContext}
    (h : ArraysSorted state) : ContextsSorted (state.map rest) := by
  intro c hc
  obtain ⟨ctx, hctx, rfl⟩ := List.mem_map.mp hc
  exact (h ctx hctx).sublist (List.drop_sublist _ _)

theorem next_leastSource :
    LeastSource next (fun state ↦ (state.map rest).flatten) ArraysSorted
      fun a b ↦ b.lt a = false where
  inv_next := by
    intro state r state' hs h ctx hctx
    have hmem : ctx.ranges ∈ state.map (·.ranges) := ranges_next h ▸ List.mem_map_of_mem hctx
    obtain ⟨ctx₀, hctx₀, hranges⟩ := List.mem_map.mp hmem
    exact hranges ▸ hs ctx₀ hctx₀
  eq_none_iff := by
    intro state hs
    rw [next_eq_none_iff]
    exact rangeStreamNext_leastSource.eq_none_iff (contextsSorted_of_arraysSorted hs)
  perm_next hs h :=
    rangeStreamNext_leastSource.perm_next (contextsSorted_of_arraysSorted hs)
      (rangeStreamNext_of_next h)
  le_next hs h :=
    rangeStreamNext_leastSource.le_next (contextsSorted_of_arraysSorted hs)
      (rangeStreamNext_of_next h)

/-- `RangeStream` is a k-way merge: from contexts at the beginning of sorted
arrays, its calls give every range of every array once, in lexicographic
order, then null forever; and after any number of calls, `reset()` starts the
same calls again. -/
theorem rangeStream_merge (arrays : List (List Range))
    (hsorted : ∀ a ∈ arrays, a.Pairwise fun x y ↦ y.lt x = false) :
    ∃ out : List Range, out.Perm arrays.flatten ∧ out.Pairwise (fun x y ↦ y.lt x = false) ∧
      (∀ m, (pulls next (out.length + m) (arrays.map atBegin)).1 =
        out.map some ++ List.replicate m none) ∧
      ∀ n k, (pulls next k (reset (pulls next n (arrays.map atBegin)).2)).1 =
        (pulls next k (arrays.map atBegin)).1 := by
  have hinv : ArraysSorted (arrays.map atBegin) := by
    intro ctx hctx
    obtain ⟨a, ha, rfl⟩ := List.mem_map.mp hctx
    exact hsorted a ha
  have hback : (arrays.map atBegin).map (·.ranges) = arrays := by
    rw [List.map_map]
    exact List.map_id arrays
  have hrest : ((arrays.map atBegin).map rest).flatten = arrays.flatten := by
    rw [List.map_map]
    congr 1
    exact (List.map_congr_left fun a _ ↦ List.drop_zero).trans (List.map_id arrays)
  obtain ⟨hperm, hsort⟩ := drain_spec next_leastSource hinv
  refine ⟨_, hperm.trans (List.Perm.of_eq hrest), hsort, fun m ↦ ?_, fun n k ↦ ?_⟩
  · rw [hperm.length_eq]
    exact pulls_spec next_leastSource hinv m
  · -- the calls keep the arrays, so `reset()` gives back the contexts as they began
    have hranges := pulls_invariant (fun state ↦ state.map (·.ranges) =
        (arrays.map atBegin).map (·.ranges)) (fun h hs ↦ (ranges_next h).trans hs) rfl n
    rw [reset_eq, hranges, hback]

/-- Two sorted arrays and an empty one. -/
def threeArrays : List (List Range) :=
  [[⟨0x1000, 0x1000, .freeRam⟩, ⟨0x3000, 0x1000, .reserved⟩], [⟨0x2000, 0x800, .peripheral⟩], []]

theorem rangeStream_merge_threeArrays :
    ∃ out : List Range, out.Perm threeArrays.flatten ∧
      out.Pairwise (fun x y ↦ y.lt x = false) ∧
      (∀ m, (pulls next (out.length + m) (threeArrays.map atBegin)).1 =
        out.map some ++ List.replicate m none) ∧
      ∀ n k, (pulls next k (reset (pulls next n (threeArrays.map atBegin)).2)).1 =
        (pulls next k (threeArrays.map atBegin)).1 :=
  rangeStream_merge threeArrays (by decide)

end RangeStream

end Zircon.Memalloc
