import Zircon.Memalloc.Pool

/-!
# Finding the range that holds a range

`FindContainingRangeAmong` answers which range holds `[addr, addr + size)`
with one `std::lower_bound` in the lexicographic order, and then looks only
at the range found and, where that starts past `addr`, at the one before it.
The ranges are sorted and mutually disjoint in the sense of `IntersectsWith`,
as the pool keeps them.  `end()` may wrap: a range whose end wraps holds no
query, since the query's own end does not wrap.

Disjointness rules every other range out.  A range after the lower bound
starts past `addr`.  A range that holds the query meets every range that
starts after it and at or before `addr` (`intersectsWith_of_not_lt`), such as
the predecessor of the lower bound.  It also meets the lower bound where that
starts at `addr` (`intersectsWith_of_addr_eq`).  So the range the lookup
tests, `candidate`, is the one that holds the query whenever one does
(`candidate_eq_of_containsRange`).
-/

namespace Zircon.Memalloc

open Zircon.Lib

namespace Range

/-- The test `FindContainingRangeAmong` makes of a range: it holds
`[addr, addr + size)`, with `end()` as the source computes it. -/
def containsRange (r : Range) (addr size : UInt64) : Bool :=
  r.addr ≤ addr && addr + size ≤ r.endAddr

section Query

variable {addr size : UInt64} (hsize : 1 ≤ size.toNat)
  (hfit : size.toNat ≤ 2 ^ 64 - 1 - addr.toNat)
include hsize hfit

theorem toNat_of_containsRange {r : Range} (h : r.containsRange addr size = true) :
    r.addr.toNat ≤ addr.toNat ∧ addr.toNat + size.toNat ≤ r.addr.toNat + r.size.toNat ∧
      r.addr.toNat + r.size.toNat < 2 ^ 64 := by
  simp only [containsRange, endAddr, Bool.and_eq_true, decide_eq_true_eq, UInt64.le_iff_toNat_le,
    UInt64.toNat_add] at h
  have hr := r.size.toNat_lt
  omega

theorem intersectsWith_of_not_lt {r s : Range} (hr : r.containsRange addr size = true)
    (hs : s.addr.toNat ≤ addr.toNat) (hsr : s.lt r = false) : r.intersectsWith s = true := by
  obtain ⟨h₁, h₂, h₃⟩ := toNat_of_containsRange hsize hfit hr
  have hsr' := (lt_eq_true_iff s r).not.mp (by rw [hsr]; decide)
  rw [intersectsWith_eq]
  split_ifs with hrs
  · -- `s` starts inside `r`
    rw [decide_eq_true_eq]
    omega
  · -- neither is below the other: `s` is `r`'s own extent
    rw [lt_eq_true_iff] at hrs
    rw [decide_eq_true_eq]
    omega

theorem intersectsWith_of_addr_eq {r s : Range} (hr : r.containsRange addr size = true)
    (hs : s.addr = addr) (hss : size.toNat ≤ s.size.toNat) : r.intersectsWith s = true := by
  obtain ⟨h₁, h₂, h₃⟩ := toNat_of_containsRange hsize hfit hr
  have hs' := congrArg UInt64.toNat hs
  rw [intersectsWith_eq]
  split_ifs with hrs
  · rw [decide_eq_true_eq]
    omega
  · -- `r` starts at `addr` too and is no shorter than `s`
    rw [lt_eq_true_iff] at hrs
    rw [decide_eq_true_eq]
    omega

end Query

end Range

/-- The range `FindContainingRangeAmong` tests: the lower bound where it starts
at or before `addr`, and otherwise the range before it. -/
def candidate (ranges : List Node) (addr size : UInt64) : Option Node :=
  let i := lowerBound (fun n : Node ↦ n.toRange.lt ⟨addr, size, n.type⟩) ranges
  match ranges[i]? with
  | some next => if addr ≥ next.addr then some next else if i = 0 then none else ranges[i - 1]?
  | none => if i = 0 then none else ranges[i - 1]?

theorem findContainingRangeAmong_eq_candidate (ranges : List Node) (addr size : UInt64) :
    findContainingRangeAmong ranges addr size =
      (candidate ranges addr size).bind fun c ↦
        if c.containsRange addr size then some c.ptr else none := by
  unfold findContainingRangeAmong candidate
  dsimp only
  generalize lowerBound _ ranges = i
  cases hnext : ranges[i]? with
  | none =>
    cases i with
    | zero => rfl
    | succ i => cases ranges[i + 1 - 1]? <;> simp [Range.containsRange]
  | some next =>
    by_cases hge : addr ≥ next.addr
    · simp [hge, Range.containsRange]
    · cases i with
      | zero => simp [hge]
      | succ i => cases ranges[i + 1 - 1]? <;> simp [hge, Range.containsRange]

theorem mem_of_candidate {ranges : List Node} {addr size : UInt64} {c : Node}
    (h : candidate ranges addr size = some c) : c ∈ ranges := by
  unfold candidate at h
  dsimp only at h
  generalize lowerBound _ ranges = i at h
  have hprev : (if i = 0 then none else ranges[i - 1]?) = some c → c ∈ ranges := by
    split_ifs
    · intro h
      cases h
    · exact List.mem_of_getElem?
  cases hnext : ranges[i]? with
  | none =>
    simp only [hnext] at h
    exact hprev h
  | some next =>
    simp only [hnext] at h
    by_cases hge : addr ≥ next.addr
    · rw [if_pos hge, Option.some_inj] at h
      exact h ▸ List.mem_of_getElem? hnext
    · rw [if_neg hge] at h
      exact hprev h

/-! ### Sorted, disjoint ranges -/

section Sorted

variable {ranges : List Node}
  (hsorted : ranges.Pairwise fun a b ↦ b.toRange.lt a.toRange = false)
  (hdisjoint : ranges.Pairwise fun a b ↦ a.toRange.intersectsWith b.toRange = false)
  {addr size : UInt64} (hsize : 1 ≤ size.toNat) (hfit : size.toNat ≤ 2 ^ 64 - 1 - addr.toNat)

include hdisjoint in
theorem intersectsWith_getElem {i j : ℕ} (hi : i < ranges.length) (hj : j < ranges.length)
    (hij : i ≠ j) : ranges[i].toRange.intersectsWith ranges[j].toRange = false := by
  rcases Nat.lt_or_gt_of_ne hij with h | h
  · exact List.pairwise_iff_getElem.mp hdisjoint i j hi hj h
  · rw [Range.intersectsWith_comm]
    exact List.pairwise_iff_getElem.mp hdisjoint j i hj hi h

include hsorted in
theorem addr_le_getElem {i j : ℕ} (hi : i < ranges.length) (hj : j < ranges.length)
    (hij : i ≤ j) : ranges[i].addr.toNat ≤ ranges[j].addr.toNat := by
  rcases Nat.lt_or_eq_of_le hij with h | rfl
  · have hji := List.pairwise_iff_getElem.mp hsorted i j hi hj h
    have := (Range.lt_eq_true_iff _ _).not.mp (by rw [hji]; decide)
    omega
  · exact le_refl _

include hsorted hdisjoint hsize hfit in
theorem candidate_eq_of_containsRange {i : ℕ} (hi : i < ranges.length)
    (h : ranges[i].containsRange addr size = true) :
    candidate ranges addr size = some ranges[i] := by
  have hle := (Range.toNat_of_containsRange hsize hfit h).1
  unfold candidate
  dsimp only
  have hlen := lowerBound_le_length (fun n : Node ↦ n.toRange.lt ⟨addr, size, n.type⟩) ranges
  generalize hk : lowerBound (fun n : Node ↦ n.toRange.lt ⟨addr, size, n.type⟩) ranges = k at hlen
  by_cases hA : ∃ hkl : k < ranges.length, ranges[k].addr ≤ addr
  · -- the lower bound starts at `addr`, and only it can hold the query there
    obtain ⟨hkl, hkaddr⟩ := hA
    have hnot : ranges[k].toRange.lt ⟨addr, size, ranges[k].type⟩ = false := by
      subst hk
      exact below_lowerBound_eq_false hkl
    have hq := (Range.lt_eq_true_iff _ _).not.mp (by rw [hnot]; decide)
    have hkaddr' := UInt64.le_iff_toNat_le.mp hkaddr
    have haddr : ranges[k].addr = addr := UInt64.toNat_inj.mp (by dsimp only at hq; omega)
    have hki : k = i := by
      by_contra hne
      have hmeet := Range.intersectsWith_of_addr_eq hsize hfit h haddr (by dsimp only at hq; omega)
      rw [intersectsWith_getElem hdisjoint hi hkl (Ne.symm hne)] at hmeet
      exact Bool.false_ne_true hmeet
    subst hki
    rw [List.getElem?_eq_getElem hkl]
    exact if_pos hkaddr
  · -- the lower bound starts past `addr`: the query's range is just before it
    have hik : i < k := by
      by_contra hki
      have hkl : k < ranges.length := by omega
      exact hA ⟨hkl, UInt64.le_iff_toNat_le.mpr
        ((addr_le_getElem hsorted hkl hi (by omega)).trans hle)⟩
    have hki : k = i + 1 := by
      by_contra hne
      -- the range before the lower bound would start inside the query's range
      have hj : k - 1 < ranges.length := by omega
      have hkk : k - 1 < k := by omega
      have hbelow : ranges[k - 1].toRange.lt ⟨addr, size, ranges[k - 1].type⟩ = true := by
        subst hk
        exact below_of_lt_lowerBound hkk hj
      rw [Range.lt_eq_true_iff] at hbelow
      have hsr := List.pairwise_iff_getElem.mp hsorted i (k - 1) hi hj (by omega)
      have hmeet := Range.intersectsWith_of_not_lt hsize hfit h (by dsimp only at hbelow; omega) hsr
      rw [intersectsWith_getElem hdisjoint hi hj (by omega)] at hmeet
      exact Bool.false_ne_true hmeet
    subst hki
    have hprev : (if i + 1 = 0 then none else ranges[i + 1 - 1]?) = some ranges[i] := by
      rw [if_neg (Nat.succ_ne_zero i), Nat.add_sub_cancel, List.getElem?_eq_getElem hi]
    cases hnext : ranges[i + 1]? with
    | none => exact hprev
    | some next =>
      have hge : ¬ addr ≥ next.addr := by
        obtain ⟨hkl, rfl⟩ := List.getElem?_eq_some_iff.mp hnext
        exact fun hge ↦ hA ⟨hkl, hge⟩
      exact (if_neg hge).trans hprev

include hsorted hdisjoint hsize hfit in
/-- `FindContainingRangeAmong` is a correct lookup: on ranges sorted and
mutually disjoint, at most one range holds a nonempty query whose end does not
wrap, the lookup returns that range where there is one, and `end()`
otherwise. -/
theorem findContainingRangeAmong_spec :
    (∀ r ∈ ranges, ∀ r' ∈ ranges, r.containsRange addr size = true →
        r'.containsRange addr size = true → r = r') ∧
    (∀ r ∈ ranges, r.containsRange addr size = true →
        findContainingRangeAmong ranges addr size = some r.ptr) ∧
    ((∀ r ∈ ranges, r.containsRange addr size = false) →
        findContainingRangeAmong ranges addr size = none) := by
  have hcand : ∀ r ∈ ranges, r.containsRange addr size = true →
      candidate ranges addr size = some r := by
    intro r hr h
    obtain ⟨i, hi, rfl⟩ := List.mem_iff_getElem.mp hr
    exact candidate_eq_of_containsRange hsorted hdisjoint hsize hfit hi h
  refine ⟨fun r hr r' hr' h h' ↦ ?_, fun r hr h ↦ ?_, fun hnone ↦ ?_⟩
  · -- both are the one candidate
    exact Option.some_inj.mp ((hcand r hr h).symm.trans (hcand r' hr' h'))
  · rw [findContainingRangeAmong_eq_candidate, hcand r hr h, Option.bind_some, if_pos h]
  · rw [findContainingRangeAmong_eq_candidate]
    cases hc : candidate ranges addr size with
    | none => rfl
    | some c => rw [Option.bind_some, if_neg (by rw [hnone c (mem_of_candidate hc)]; decide)]

/-- Two ranges of free RAM, and a query inside the second. -/
theorem findContainingRangeAmong_spec_secondRange :
    findContainingRangeAmong [⟨⟨0x1000, 0x1000, .freeRam⟩, 1⟩, ⟨⟨0x3000, 0x2000, .freeRam⟩, 2⟩]
      0x3800 0x100 = some 2 :=
  (findContainingRangeAmong_spec (by decide) (by decide) (by decide) (by decide)).2.1 _
    (List.mem_cons_of_mem _ List.mem_cons_self) (by decide)

end Sorted

end Zircon.Memalloc
