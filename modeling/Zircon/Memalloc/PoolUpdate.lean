import Mathlib
import Zircon.Memalloc.PoolAllocate

/-!
# Freeing and retyping RAM

`Pool::Free` finds the node that holds the range before it makes sure of two
spare nodes, then retypes the range within that node as free RAM.  The node
is neither free RAM nor bookkeeping, and carving a chunk of bookkeeping only
splits a free node and merges bookkeeping, so the node is still there.

`Pool::UpdateRamSubranges` walks the list from its start, retyping the part of
each RAM node that meets the range and coalescing the result.  A split leaves
at most one new node after the cursor, and that node starts at the end of the
range; a merge swallows the next node only when it already has the new type.
So every pass moves past a node of the list on entry that starts below the end
of the range, the fuel of the model is enough, and at the end every RAM
address of the range has the new type and every other address its old one.
-/

namespace Zircon.Memalloc

open Zircon.Lib IntervalLabels MemType

theorem toNat_max (a b : UInt64) : (max a b).toNat = max a.toNat b.toNat := by
  show (if a ≤ b then b else a).toNat = _
  split_ifs with h
  · rw [UInt64.le_iff_toNat_le] at h
    omega
  · rw [UInt64.le_iff_toNat_le] at h
    omega

theorem toNat_min (a b : UInt64) : (min a b).toNat = min a.toNat b.toNat := by
  show (if a ≤ b then a else b).toNat = _
  split_ifs with h
  · rw [UInt64.le_iff_toNat_le] at h
    omega
  · rw [UInt64.le_iff_toNat_le] at h
    omega

namespace Pool

variable {p q : Pool}

theorem Tidy.nextIt_split (ht : p.Tidy) {l₁ l₂ : List Node} {n : Node}
    (hr : p.ranges = l₁ ++ n :: l₂) : p.nextIt (some n.ptr) = l₂.head?.map Node.ptr := by
  simp only [nextIt, Option.bind_some, hr]
  exact NodeList.next_split rfl (ht.not_mem_left hr)

theorem Tidy.typeAt_between (ht : p.Tidy) {l₁ l₂ : List Node} {n : Node}
    (hr : p.ranges = l₁ ++ n :: l₂) {x : ℕ} (hx : n.lo ≤ x) (hnext : ∀ j ∈ l₂, x < j.lo) :
    p.typeAt x = if x < n.hi then some n.type else none := by
  rw [typeAt, hr]
  exact labelAt_of_between (hr ▸ ht.sorted) hx hnext

/-! ### `Free` -/

/-- `Free` of a range inside a node of free RAM, or of an allocated type other
than bookkeeping: when it succeeds the range is free RAM, and every other
address keeps its type, but for free RAM carved into bookkeeping. -/
theorem free_spec (ht : p.Tidy) (hfree : ∀ k ∈ p.nodes, p.typeAt k ≠ some freeRam)
    {addr size : UInt64} {n : Node} (hn : n ∈ p.ranges)
    (hin : n.lo ≤ addr.toNat ∧ addr.toNat + size.toNat ≤ n.hi)
    (htype : n.type = freeRam ∨ (isAllocatedType n.type = true ∧ n.type ≠ poolBookkeeping))
    (h : p.free addr size = (some (), q)) :
    q.Tidy ∧ ∀ x, (addr.toNat ≤ x ∧ x < addr.toNat + size.toNat → q.typeAt x = some freeRam) ∧
      (¬(addr.toNat ≤ x ∧ x < addr.toNat + size.toNat) →
        q.typeAt x = p.typeAt x ∨ (p.typeAt x = some freeRam ∧ q.typeAt x = some poolBookkeeping)) := by
  by_cases hsize : size = 0
  · -- nothing to do
    simp only [free, if_pos hsize, Prod.mk.injEq] at h
    obtain ⟨-, rfl⟩ := h
    subst hsize
    exact ⟨ht, fun x ↦ ⟨fun hx ↦ absurd hx.2 (by simp; omega), fun _ ↦ .inl rfl⟩⟩
  have hpos : 0 < size.toNat := by
    rcases Nat.eq_zero_or_pos size.toNat with h0 | h0
    · exact absurd (UInt64.toNat_inj.mp (by simpa using h0)) hsize
    · exact h0
  simp only [free, if_neg hsize, ht.findContainingRange hn hpos hin, ht.node?_ptr hn] at h
  split_ifs at h with hft
  · -- a double free: the node is free RAM already
    simp only [Prod.mk.injEq] at h
    obtain ⟨-, rfl⟩ := h
    refine ⟨ht, fun x ↦ ⟨fun hx ↦ ?_, fun _ ↦ .inl rfl⟩⟩
    rw [← hft]
    exact labelAt_of_mem ht.sorted hn ⟨hin.1.trans hx.1, by omega⟩
  -- the node survives the carving of bookkeeping, and `InsertSubrange` splits it
  obtain ⟨ht', htype', hkeep⟩ := ht.tryToEnsure hfree
  have hn' := hkeep n hn hft (htype.resolve_left hft).2
  have hcur : p.tryToEnsureTwoBookkeepingNodes.node? ((some (some n.ptr)).getD
      (p.tryToEnsureTwoBookkeepingNodes.findContainingRange (⟨addr, size, freeRam⟩ : Range).addr
        (⟨addr, size, freeRam⟩ : Range).size)) = some n :=
    ht'.node?_ptr hn'
  have hsub : n.lo ≤ (⟨addr, size, freeRam⟩ : Range).lo ∧ (⟨addr, size, freeRam⟩ : Range).hi ≤ n.hi :=
    hin
  cases hins : p.tryToEnsureTwoBookkeepingNodes.insertSubrange ⟨addr, size, freeRam⟩
      (some (some n.ptr)) with
  | mk it p₂ =>
    cases it with
    | none => simp [hins] at h
    | some it =>
      simp only [hins, Prod.mk.injEq] at h
      obtain ⟨-, rfl⟩ := h
      obtain ⟨ht₂, htype₂⟩ := insertSubrange_typeAt ht' hcur hsub hpos hins
      obtain ⟨ht₃, htype₃⟩ := ht₂.coalesce it
      refine ⟨ht₃, fun x ↦ ⟨fun hx ↦ ?_, fun hx ↦ ?_⟩⟩
      · rw [htype₃, htype₂]
        exact if_pos hx
      · have hx' : ¬((⟨addr, size, freeRam⟩ : Range).lo ≤ x ∧ x < (⟨addr, size, freeRam⟩ : Range).hi) :=
          hx
        rw [htype₃, htype₂, if_neg hx']
        exact htype' x

/-! ### `UpdateRamSubranges` -/

/-- The map `UpdateRamSubranges` is to leave, from the map `T`: RAM in
`[lo, hi)` has `type`, and every other address keeps its type. -/
def retypeRam (type : MemType) (lo hi : ℕ) (T : ℕ → Option MemType) (x : ℕ) : Option MemType :=
  (T x).map fun t ↦ if lo ≤ x ∧ x < hi ∧ isRamType t = true then type else t

section Retype

variable {type : MemType} {lo hi : ℕ} {T : ℕ → Option MemType} {x : ℕ}

theorem retypeRam_eq_self (h : ∀ t, T x = some t → lo ≤ x ∧ x < hi ∧ isRamType t = true → t = type) :
    retypeRam type lo hi T x = T x := by
  cases hT : T x with
  | none => simp [retypeRam, hT]
  | some t =>
    simp only [retypeRam, hT, Option.map_some, Option.some.injEq]
    split_ifs with hx
    · exact (h t hT hx).symm
    · rfl

theorem retypeRam_of_ram {t : MemType} (hx : lo ≤ x ∧ x < hi) (hT : T x = some t)
    (hram : isRamType t = true) : retypeRam type lo hi T x = some type := by
  simp [retypeRam, hT, hx, hram]

end Retype

/-- What holds each time the loop of `UpdateRamSubranges` reaches the nodes
`rest`, the list from its cursor on: below all of them the map is the one to
leave, and from the first of them on it is still the map on entry. -/
structure UpdateInv (type : MemType) (lo hi : ℕ) (T₀ : ℕ → Option MemType) (p : Pool)
    (rest : List Node) : Prop where
  tidy : p.Tidy
  suffix : ∃ done, p.ranges = done ++ rest
  visited : ∀ x, (∀ j ∈ rest, x < j.lo) → p.typeAt x = retypeRam type lo hi T₀ x
  pending : ∀ x, ∀ j ∈ rest, j.lo ≤ x → p.typeAt x = T₀ x

section Loop

variable {type : MemType} {lo hi : ℕ} {T₀ : ℕ → Option MemType} {cur : Node} {rest : List Node}

theorem UpdateInv.sorted_rest (hinv : UpdateInv type lo hi T₀ p (cur :: rest)) :
    cur.lo < cur.hi ∧ ∀ j ∈ rest, cur.hi ≤ j.lo := by
  obtain ⟨done, hr⟩ := hinv.suffix
  have hs := hr ▸ hinv.tidy.sorted
  exact ⟨hs.1 cur (by simp), fun j hj ↦ List.rel_of_pairwise_cons (List.pairwise_append.mp hs.2).2.1 hj⟩

theorem UpdateInv.finish (hinv : UpdateInv type lo hi T₀ p rest) (hdone : ∀ j ∈ rest, hi ≤ j.lo)
    (x : ℕ) : p.typeAt x = retypeRam type lo hi T₀ x := by
  by_cases hx : ∀ j ∈ rest, x < j.lo
  · exact hinv.visited x hx
  · push Not at hx
    obtain ⟨j, hj, hjx⟩ := hx
    rw [hinv.pending x j hj hjx, retypeRam_eq_self]
    intro t _ hin
    have := hdone j hj
    omega

theorem UpdateInv.skip (hinv : UpdateInv type lo hi T₀ p (cur :: rest))
    (hskip : ¬(lo < cur.hi ∧ isRamType cur.type = true)) : UpdateInv type lo hi T₀ p rest := by
  obtain ⟨hcur, hrest⟩ := hinv.sorted_rest
  obtain ⟨done, hr⟩ := hinv.suffix
  refine ⟨hinv.tidy, ⟨done ++ [cur], by simp [hr]⟩, fun x hx ↦ ?_,
    fun x j hj hjx ↦ hinv.pending x j (List.mem_cons_of_mem _ hj) hjx⟩
  by_cases hxc : x < cur.lo
  · refine hinv.visited x fun j hj ↦ ?_
    rcases List.mem_cons.mp hj with rfl | hj
    · exact hxc
    · have := hrest j hj
      omega
  · -- `x` lies in `cur` or in the gap after it
    have hT := hinv.pending x cur List.mem_cons_self (by omega)
    have hread := hinv.tidy.typeAt_between hr (by omega) hx
    rw [hT, retypeRam_eq_self]
    intro t ht hin
    rw [← hT, hread] at ht
    split_ifs at ht with hxi
    cases ht
    exact absurd ⟨by omega, hin.2.2⟩ hskip

/-- The pass that retypes the part `range` of the RAM node `cur` that meets the
range, then coalesces it: the cursor moves on to nodes of which none that
start below the end of the range is new. -/
theorem UpdateInv.retype (hinv : UpdateInv type lo hi T₀ p (cur :: rest))
    (hram : isRamType cur.type = true) {range : Range}
    (hrange : range.lo = max cur.lo lo ∧ range.hi = min cur.hi hi ∧ range.type = type)
    (hpos : 0 < range.size.toNat) {it : Iter}
    (hins : p.insertSubrange range (some (some cur.ptr)) = (some it, q)) :
    ∃ R, UpdateInv type lo hi T₀ (q.coalesce it).2 R ∧
      (q.coalesce it).2.nextIt it = R.head?.map Node.ptr ∧
      R.countP (·.lo < hi) ≤ rest.countP (·.lo < hi) := by
  obtain ⟨hcurpos, hrest⟩ := hinv.sorted_rest
  obtain ⟨done, hr⟩ := hinv.suffix
  have ht := hinv.tidy
  have hcur : p.node? ((some (some cur.ptr)).getD (p.findContainingRange range.addr range.size)) =
      some cur := ht.node?_ptr (by simp [hr])
  have hsub : cur.lo ≤ range.lo ∧ range.hi ≤ cur.hi := by omega
  have hrpos : range.lo < range.hi := by
    simp only [Range.lo, Range.hi]
    omega
  obtain ⟨htq, htypeq⟩ := insertSubrange_typeAt ht hcur hsub hpos hins
  obtain ⟨l₁, l₂, m, hr', hq, htiles, n, hn, hnr, rfl⟩ := insertSubrange_spec ht hcur hsub hpos hins
  obtain ⟨rfl, -, rfl⟩ := ht.split_inj hr hr' rfl
  have hnlo : n.lo = range.lo := by simp [Range.lo, ← hnr]
  have hnhi : n.hi = range.hi := by simp [Range.hi, ← hnr]
  have hntype : n.type = type := by rw [← hrange.2.2, ← hnr]
  -- the new node sits in the pieces of `cur`, and `Coalesce` grows it in place
  obtain ⟨m₁, m₂, rfl⟩ := List.append_of_mem hn
  have hq' : q.ranges = (done ++ m₁) ++ n :: (m₂ ++ rest) := by simp [hq]
  obtain ⟨L, c, R, hc, hcptr, hctype, hclo, hchi, -, hR⟩ := htq.coalesce_shape hq'
  obtain ⟨htc, htypec⟩ := htq.coalesce (some n.ptr)
  have hsc := hc ▸ htc.sorted
  have hcR : ∀ j ∈ R, c.hi ≤ j.lo := fun j hj ↦
    List.rel_of_pairwise_cons (List.pairwise_append.mp hsc.2).2.1 hj
  have hm₂ : ∀ j ∈ m₂, ¬j.lo < hi := by
    intro j hj hlt
    have hnj : n.hi ≤ j.lo :=
      List.rel_of_pairwise_cons (List.pairwise_append.mp htiles.sorted.2).2.1 hj
    have hjpos : j.lo < j.hi := htiles.sorted.1 j (by simp [hj])
    have hjin : j.hi ≤ cur.hi := (htiles.inside j (by simp [hj])).2
    omega
  refine ⟨R, ⟨htc, ⟨L ++ [c], by simp [hc]⟩, fun x hx ↦ ?_, fun x j hj hjx ↦ ?_⟩, ?_, ?_⟩
  · rw [htypec, htypeq]
    by_cases hxc : x < cur.lo
    · -- below `cur` nothing changed
      rw [if_neg (by omega)]
      refine hinv.visited x fun j hj ↦ ?_
      rcases List.mem_cons.mp hj with rfl | hj
      · exact hxc
      · have := hrest j hj
        omega
    have hT := hinv.pending x cur List.mem_cons_self (by omega)
    split_ifs with hx'
    · -- the range itself: it was RAM of type `cur.type`
      have hcurx : p.typeAt x = some cur.type := labelAt_of_mem ht.sorted (by simp [hr]) ⟨by omega, by omega⟩
      rw [hrange.2.2]
      exact (retypeRam_of_ram ⟨by omega, by omega⟩ (hT ▸ hcurx) hram).symm
    · -- past the range, up to the next node: `c` or the gap after it
      rw [hT, retypeRam_eq_self]
      intro t ht' hin
      have hread := htc.typeAt_between hc (by omega) hx
      rw [htypec, htypeq, if_neg hx', hT, ht'] at hread
      split_ifs at hread
      cases hread
      exact hctype.trans hntype
  · -- the nodes after the cursor start after the range
    have hjR := hcR j hj
    have hxr : ¬(range.lo ≤ x ∧ x < range.hi) := by omega
    rw [htypec, htypeq, if_neg hxr]
    exact hinv.pending x cur List.mem_cons_self (by omega)
  · have hnext := htc.nextIt_split hc
    rwa [hcptr] at hnext
  · have hsub : R.Sublist (m₂ ++ rest) := by
      rcases hR with rfl | ⟨b, hb, -⟩
      · exact List.Sublist.refl _
      · rw [hb]
        exact List.sublist_cons_self b R
    calc R.countP (·.lo < hi) ≤ (m₂ ++ rest).countP (·.lo < hi) := hsub.countP_le
      _ = rest.countP (·.lo < hi) := by
        rw [List.countP_append, List.countP_eq_zero.mpr (by simpa using hm₂), Nat.zero_add]

/-- The loop of `UpdateRamSubranges` from an invariant state, with at least as
much fuel as nodes left that start below the end of the range: when it
succeeds, the map is the one to leave. -/
theorem updateRamSubrangesLoop_spec {addr size : UInt64} (hpos : 0 < size.toNat) (hend : addr.toNat + size.toNat ≤ 2 ^ 64 - 1) (fuel : ℕ) :
    ∀ p rest, UpdateInv type addr.toNat (addr.toNat + size.toNat) T₀ p rest →
      rest.countP (·.lo < addr.toNat + size.toNat) ≤ fuel →
      ∀ q, updateRamSubrangesLoop type addr size fuel (rest.head?.map Node.ptr) p = (some (), q) →
        q.Tidy ∧ ∀ x, q.typeAt x = retypeRam type addr.toNat (addr.toNat + size.toNat) T₀ x := by
  have hA : (addr + size).toNat = addr.toNat + size.toNat := toNat_add_of_le hend
  induction fuel with
  | zero =>
    -- out of fuel: no node is left that starts below the end of the range
    intro p rest hinv hcount q h
    simp only [updateRamSubrangesLoop, Prod.mk.injEq] at h
    obtain ⟨-, rfl⟩ := h
    refine ⟨hinv.tidy, hinv.finish fun j hj ↦ ?_⟩
    have := List.countP_eq_zero.mp (Nat.le_zero.mp hcount) j hj
    simpa using this
  | succ fuel ih =>
    intro p rest hinv hcount q h
    cases rest with
    | nil =>
      simp only [List.head?_nil, Option.map_none, updateRamSubrangesLoop, node?, Option.bind_none,
        Prod.mk.injEq] at h
      obtain ⟨-, rfl⟩ := h
      exact ⟨hinv.tidy, hinv.finish (by simp)⟩
    | cons cur rest =>
      obtain ⟨hcurpos, hrest⟩ := hinv.sorted_rest
      obtain ⟨done, hr⟩ := hinv.suffix
      have hmem : cur ∈ p.ranges := by simp [hr]
      have hend' : cur.endAddr.toNat = cur.hi := toNat_add_of_le (hinv.tidy.bounded cur hmem)
      simp only [List.head?_cons, Option.map_some, updateRamSubrangesLoop,
        hinv.tidy.node?_ptr hmem] at h
      split_ifs at h with hstart hram
      · -- the node meets the range and is RAM: retype the part that meets it
        rw [gt_iff_lt, UInt64.lt_iff_toNat_lt, hA] at hstart
        have ecl : cur.lo = cur.addr.toNat := rfl
        have hcount' : rest.countP (·.lo < addr.toNat + size.toNat) ≤ fuel := by
          rw [List.countP_cons, if_pos (by simpa [ecl] using hstart)] at hcount
          omega
        have hlo : addr.toNat < cur.hi := hend' ▸ UInt64.lt_iff_toNat_lt.mp hram.1
        have hfirst : (max cur.addr addr).toNat = max cur.lo addr.toNat := toNat_max _ _
        have hlast : (min cur.endAddr (addr + size)).toNat = min cur.hi (addr.toNat + size.toNat) := by
          rw [toNat_min, hend', hA]
        have hle : max cur.addr addr ≤ min cur.endAddr (addr + size) := by
          rw [UInt64.le_iff_toNat_le, hfirst, hlast]
          omega
        have hsize := UInt64.toNat_sub_of_le _ _ hle
        have hrange : (⟨max cur.addr addr, min cur.endAddr (addr + size) - max cur.addr addr, type⟩ :
            Range).lo = max cur.lo addr.toNat ∧
            (⟨max cur.addr addr, min cur.endAddr (addr + size) - max cur.addr addr, type⟩ :
              Range).hi = min cur.hi (addr.toNat + size.toNat) ∧
            (⟨max cur.addr addr, min cur.endAddr (addr + size) - max cur.addr addr, type⟩ :
              Range).type = type := by
          refine ⟨hfirst, ?_, rfl⟩
          show (max cur.addr addr).toNat + (min cur.endAddr (addr + size) - max cur.addr addr).toNat = _
          rw [hsize, hlast, hfirst]
          omega
        have hrpos : 0 < (min cur.endAddr (addr + size) - max cur.addr addr).toNat := by
          rw [hsize, hlast, hfirst]
          omega
        cases hins : p.insertSubrange
            ⟨max cur.addr addr, min cur.endAddr (addr + size) - max cur.addr addr, type⟩
            (some (some cur.ptr)) with
        | mk it q₁ =>
          cases it with
          | none => simp [hins] at h
          | some it =>
            obtain ⟨R, hinv', hnext, hR⟩ := hinv.retype hram.2 hrange hrpos hins
            have hnext' : (q₁.coalesce it).2.nextIt (q₁.coalesce it).1 = R.head?.map Node.ptr := hnext
            simp only [hins] at h
            rw [hnext'] at h
            exact ih _ R hinv' (hR.trans hcount') q h
      · -- the node is passed over
        rw [gt_iff_lt, UInt64.lt_iff_toNat_lt, hA] at hstart
        rw [hinv.tidy.nextIt_split hr] at h
        refine ih p rest (hinv.skip fun hc ↦ hram ⟨?_, hc.2⟩) ?_ q h
        · rw [UInt64.lt_iff_toNat_lt, hend']
          exact hc.1
        · have hstart' : cur.lo < addr.toNat + size.toNat := hstart
          rw [List.countP_cons, if_pos (by simpa using hstart')] at hcount
          omega
      · -- the node starts at or after the end of the range: the loop stops
        rw [gt_iff_lt, UInt64.lt_iff_toNat_lt, hA] at hstart
        simp only [Prod.mk.injEq] at h
        obtain ⟨-, rfl⟩ := h
        refine ⟨hinv.tidy, hinv.finish fun j hj ↦ ?_⟩
        rcases List.mem_cons.mp hj with rfl | hj
        · exact Nat.le_of_not_lt hstart
        · have hj' : cur.hi ≤ j.lo := hrest j hj
          have ecl : cur.lo = cur.addr.toNat := rfl
          omega

end Loop

/-- `UpdateRamSubranges` on a range that ends by `UINT64_MAX`: when it
succeeds, every RAM address of the range has the new type and every other
address keeps its type, but for free RAM carved into bookkeeping.  A node of
the new type that a merge swallows keeps its type either way, so the source's
assertion that the type is allocated is not needed. -/
theorem updateRamSubranges_spec (ht : p.Tidy) (hfree : ∀ k ∈ p.nodes, p.typeAt k ≠ some freeRam)
    {type : MemType} {addr size : UInt64}
    (hend : addr.toNat + size.toNat ≤ 2 ^ 64 - 1) (h : p.updateRamSubranges type addr size = (some (), q)) :
    q.Tidy ∧ ∀ x, (addr.toNat ≤ x ∧ x < addr.toNat + size.toNat →
        q.typeAt x = (p.typeAt x).map fun t ↦ if isRamType t = true then type else t) ∧
      (¬(addr.toNat ≤ x ∧ x < addr.toNat + size.toNat) →
        q.typeAt x = p.typeAt x ∨ (p.typeAt x = some freeRam ∧ q.typeAt x = some poolBookkeeping)) := by
  by_cases hsize : size = 0
  · -- nothing to do
    simp only [updateRamSubranges, if_pos hsize, Prod.mk.injEq] at h
    obtain ⟨-, rfl⟩ := h
    subst hsize
    exact ⟨ht, fun x ↦ ⟨fun hx ↦ absurd hx.2 (by simp; omega), fun _ ↦ .inl rfl⟩⟩
  have hpos : 0 < size.toNat := by
    rcases Nat.eq_zero_or_pos size.toNat with h0 | h0
    · exact absurd (UInt64.toNat_inj.mp (by simpa using h0)) hsize
    · exact h0
  obtain ⟨ht', htype', -⟩ := ht.tryToEnsure hfree
  simp only [updateRamSubranges, if_neg hsize] at h
  have hinv : UpdateInv type addr.toNat (addr.toNat + size.toNat) p.tryToEnsureTwoBookkeepingNodes.typeAt
      p.tryToEnsureTwoBookkeepingNodes p.tryToEnsureTwoBookkeepingNodes.ranges := by
    refine ⟨ht', ⟨[], rfl⟩, fun x hx ↦ ?_, fun x _ _ _ ↦ rfl⟩
    have hnone : p.tryToEnsureTwoBookkeepingNodes.typeAt x = none :=
      labelAt_eq_none fun j hj hcov ↦ Nat.lt_irrefl x ((hx j hj).trans_le hcov.1)
    simp [retypeRam, hnone]
  obtain ⟨htq, hq⟩ := updateRamSubrangesLoop_spec hpos hend _ _ _ hinv
    ((List.countP_le_length).trans (Nat.le_succ _)) q h
  refine ⟨htq, fun x ↦ ⟨fun hx ↦ ?_, fun hx ↦ ?_⟩⟩
  · rw [hq]
    rcases htype' x with e | ⟨e₁, e₂⟩
    · simp [retypeRam, e, hx]
    · -- free RAM carved into bookkeeping is RAM either way
      simp [retypeRam, e₁, e₂, hx, isRamType, isAllocatedType]
  · rw [hq, retypeRam_eq_self fun t _ hin ↦ absurd ⟨hin.1, hin.2.1⟩ hx]
    exact htype' x

/-- On a pool that keeps its representation invariant, with its nodes distinct
and outside free RAM: `Free` of a range inside one node of free RAM or of an
allocated type other than bookkeeping leaves the range free RAM, and
`UpdateRamSubranges` with an allocated type on a range that ends by
`UINT64_MAX` gives every RAM address of the range the new type; in both, every
other address keeps its type, but for free RAM carved into bookkeeping. -/
theorem free_updateRamSubranges_retype {p : Pool} (hp : PoolInvariant p) (hnodup : p.nodes.Nodup)
    (hfree : ∀ k ∈ p.nodes, p.typeAt k ≠ some freeRam) :
    (∀ (addr size : UInt64) (n : Node), n ∈ p.ranges → n.lo ≤ addr.toNat →
      addr.toNat + size.toNat ≤ n.hi →
      (n.type = freeRam ∨ (isAllocatedType n.type = true ∧ n.type ≠ poolBookkeeping)) →
      ∀ q, p.free addr size = (some (), q) → ∀ x,
        (addr.toNat ≤ x ∧ x < addr.toNat + size.toNat → q.typeAt x = some freeRam) ∧
        (¬(addr.toNat ≤ x ∧ x < addr.toNat + size.toNat) →
          q.typeAt x = p.typeAt x ∨ (p.typeAt x = some freeRam ∧ q.typeAt x = some poolBookkeeping))) ∧
    (∀ (type : MemType) (addr size : UInt64), isAllocatedType type = true →
      addr.toNat + size.toNat ≤ 2 ^ 64 - 1 →
      ∀ q, p.updateRamSubranges type addr size = (some (), q) → ∀ x,
        (addr.toNat ≤ x ∧ x < addr.toNat + size.toNat →
          q.typeAt x = (p.typeAt x).map fun t ↦ if isRamType t = true then type else t) ∧
        (¬(addr.toNat ≤ x ∧ x < addr.toNat + size.toNat) →
          q.typeAt x = p.typeAt x ∨ (p.typeAt x = some freeRam ∧ q.typeAt x = some poolBookkeeping))) := by
  have ht := hp.tidy hnodup
  refine ⟨fun addr size n hn hlo hhi htype q h x ↦ ?_, fun type addr size _ hend q h x ↦ ?_⟩
  · exact (free_spec ht hfree hn ⟨hlo, hhi⟩ htype h).2 x
  · exact (updateRamSubranges_spec ht hfree hend h).2 x

theorem free_updateRamSubranges_retype_bookkeepingThenRam :
    PoolInvariant bookkeepingThenRam ∧ bookkeepingThenRam.nodes.Nodup ∧
      (∀ k ∈ bookkeepingThenRam.nodes, bookkeepingThenRam.typeAt k ≠ some freeRam) ∧
      (bookkeepingThenRam.free 0x2000 0x1000).1 = some () ∧
      (bookkeepingThenRam.updateRamSubranges kernel 0x2000 0x1000).1 = some () ∧
      (∀ (addr size : UInt64) (n : Node), n ∈ bookkeepingThenRam.ranges → n.lo ≤ addr.toNat →
        addr.toNat + size.toNat ≤ n.hi →
        (n.type = freeRam ∨ (isAllocatedType n.type = true ∧ n.type ≠ poolBookkeeping)) →
        ∀ q, bookkeepingThenRam.free addr size = (some (), q) → ∀ x,
          (addr.toNat ≤ x ∧ x < addr.toNat + size.toNat → q.typeAt x = some freeRam) ∧
          (¬(addr.toNat ≤ x ∧ x < addr.toNat + size.toNat) →
            q.typeAt x = bookkeepingThenRam.typeAt x ∨
              (bookkeepingThenRam.typeAt x = some freeRam ∧ q.typeAt x = some poolBookkeeping))) ∧
      (∀ (type : MemType) (addr size : UInt64), isAllocatedType type = true →
        addr.toNat + size.toNat ≤ 2 ^ 64 - 1 →
        ∀ q, bookkeepingThenRam.updateRamSubranges type addr size = (some (), q) → ∀ x,
          (addr.toNat ≤ x ∧ x < addr.toNat + size.toNat →
            q.typeAt x = (bookkeepingThenRam.typeAt x).map fun t ↦
              if isRamType t = true then type else t) ∧
          (¬(addr.toNat ≤ x ∧ x < addr.toNat + size.toNat) →
            q.typeAt x = bookkeepingThenRam.typeAt x ∨
              (bookkeepingThenRam.typeAt x = some freeRam ∧ q.typeAt x = some poolBookkeeping))) :=
  ⟨by decide, by decide, by decide, by decide, by decide,
    free_updateRamSubranges_retype (by decide) (by decide) (by decide)⟩

end Pool

end Zircon.Memalloc
