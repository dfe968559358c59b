import Mathlib
import Zircon.Memalloc.PoolRuns
import Zircon.Memalloc.PoolUpdate

/-!
# Truncating RAM

`Pool::TruncateTotalRam(c)` walks the list from its start with a budget of `c`
bytes.  A node of RAM other than NVRAM within the budget is kept and takes its
size off the budget; in the first node that does not fit, the head that the
budget still covers is kept and the tail is retyped as truncated RAM, and so is
every such node after it.  Truncated RAM is an allocated type, so it is RAM and
takes its part of the budget like any other.

So when the call succeeds, of the addresses of RAM other than NVRAM the lowest
`c` keep their types and the others are truncated RAM, and every other address
keeps its type (`truncateTotalRam_keeps_lowest`).  Truncation keeps which
addresses are counted, so a second truncation to the same capacity leaves the
same map.
-/

namespace Zircon.Memalloc

open Zircon.Lib IntervalLabels MemType

/-- The types `TruncateTotalRam` counts against its budget: RAM but NVRAM. -/
def countsAsRam (t : MemType) : Bool := isRamType t && t != nvram

/-- The number of counted addresses below `x`. -/
def ramBelow (T : ℕ → Option MemType) : ℕ → ℕ
  | 0 => 0
  | x + 1 => ramBelow T x + if (T x).any countsAsRam then 1 else 0

@[simp] theorem ramBelow_zero (T : ℕ → Option MemType) : ramBelow T 0 = 0 := rfl

@[simp] theorem ramBelow_succ (T : ℕ → Option MemType) (x : ℕ) :
    ramBelow T (x + 1) = ramBelow T x + if (T x).any countsAsRam then 1 else 0 := rfl

/-- The map `TruncateTotalRam(c)` is to leave from the map `T`: a counted
address with `c` counted addresses below it becomes truncated RAM. -/
def truncateMap (c : ℕ) (T : ℕ → Option MemType) (x : ℕ) : Option MemType :=
  (T x).map fun t ↦ if countsAsRam t = true ∧ c ≤ ramBelow T x then truncatedRam else t

section RamBelow

variable {T T' : ℕ → Option MemType} {a k : ℕ}

theorem ramBelow_add_of_counted (h : ∀ y, a ≤ y → y < a + k → (T y).any countsAsRam = true) :
    ramBelow T (a + k) = ramBelow T a + k := by
  induction k with
  | zero => rfl
  | succ k ih =>
    rw [← Nat.add_assoc, ramBelow_succ, ih fun y hy hyk ↦ h y hy (by omega), if_pos (h (a + k) (by omega) (by omega))]
    omega

theorem ramBelow_add_of_not_counted (h : ∀ y, a ≤ y → y < a + k → (T y).any countsAsRam = false) :
    ramBelow T (a + k) = ramBelow T a := by
  induction k with
  | zero => rfl
  | succ k ih =>
    rw [← Nat.add_assoc, ramBelow_succ, ih fun y hy hyk ↦ h y hy (by omega), if_neg (by simp [h (a + k) (by omega) (by omega)])]
    omega

theorem ramBelow_mono {b : ℕ} (hab : a ≤ b) : ramBelow T a ≤ ramBelow T b := by
  induction b with
  | zero => rw [Nat.le_zero.mp hab]
  | succ b ih =>
    rcases Nat.lt_or_eq_of_le hab with hlt | rfl
    · exact (ih (by omega)).trans (by rw [ramBelow_succ]; omega)
    · exact le_rfl

theorem ramBelow_congr (h : ∀ y, (T y).any countsAsRam = (T' y).any countsAsRam) (x : ℕ) :
    ramBelow T x = ramBelow T' x := by
  induction x with
  | zero => rfl
  | succ x ih => rw [ramBelow_succ, ramBelow_succ, ih, h x]

end RamBelow

theorem countsAsRam_truncatedRam : countsAsRam truncatedRam = true := rfl

theorem countsAsRam_eq_false_iff (t : MemType) : countsAsRam t = false ↔ ((!isRamType t) = true ∨ t = nvram) := by
  cases t <;> decide

theorem countsAsRam_eq_true_of_not {t : MemType} (h : ¬((!isRamType t) = true ∨ t = nvram)) :
    countsAsRam t = true :=
  Bool.of_not_eq_false (mt (countsAsRam_eq_false_iff t).mp h)

theorem truncateMap_eq_self {c : ℕ} {T : ℕ → Option MemType} {x : ℕ}
    (h : T x = none ∨ T x = some truncatedRam) : truncateMap c T x = T x := by
  rcases h with h | h <;> simp [truncateMap, h]

theorem truncateMap_truncateMap (c : ℕ) (T : ℕ → Option MemType) :
    truncateMap c (truncateMap c T) = truncateMap c T := by
  have hcount : ∀ y, (truncateMap c T y).any countsAsRam = (T y).any countsAsRam := by
    intro y
    cases hT : T y with
    | none => simp [truncateMap, hT]
    | some t =>
      simp only [truncateMap, hT, Option.map_some, Option.any_some]
      split_ifs with ht
      · rw [countsAsRam_truncatedRam, ht.1]
      · rfl
  funext x
  have hbelow := ramBelow_congr hcount x
  cases hT : T x with
  | none => simp [truncateMap, hT]
  | some t =>
    by_cases ht : countsAsRam t = true ∧ c ≤ ramBelow T x
    · simp [truncateMap, hT, ht, hbelow, countsAsRam_truncatedRam]
    · simp [truncateMap, hT, ht, hbelow]

namespace Pool

variable {p q : Pool}

theorem Tidy.lt_of_split (ht : p.Tidy) {done rest : List Node} {cur : Node}
    (hr : p.ranges = done ++ cur :: rest) : cur.lo < cur.hi ∧ ∀ j ∈ rest, cur.hi ≤ j.lo := by
  have hs := hr ▸ ht.sorted
  exact ⟨hs.1 cur (by simp), fun j hj ↦ List.rel_of_pairwise_cons (List.pairwise_append.mp hs.2).2.1 hj⟩

/-- What holds each time the loop of `TruncateTotalRam` reaches the nodes
`rest` with `cap` bytes of budget left: below all of them the map is the one to
leave, from the first of them on it is still the map on entry, and the budget
is what the counted addresses below them leave of `c`. -/
structure TruncInv (c : ℕ) (T₀ : ℕ → Option MemType) (p : Pool) (rest : List Node) (cap : ℕ) : Prop where
  tidy : p.Tidy
  suffix : ∃ done, p.ranges = done ++ rest
  visited : ∀ x, (∀ j ∈ rest, x < j.lo) → p.typeAt x = truncateMap c T₀ x
  pending : ∀ x, ∀ j ∈ rest, j.lo ≤ x → p.typeAt x = T₀ x
  budget : ∀ j ∈ rest.head?, cap = c - ramBelow T₀ j.lo

section Loop

variable {c cap : ℕ} {T₀ : ℕ → Option MemType} {cur : Node} {rest : List Node}

theorem TruncInv.cur_lt (hinv : TruncInv c T₀ p (cur :: rest) cap) :
    cur.lo < cur.hi ∧ ∀ j ∈ rest, cur.hi ≤ j.lo := by
  obtain ⟨done, hr⟩ := hinv.suffix
  exact hinv.tidy.lt_of_split hr

/-- Below the node at the cursor the map is already the one to leave. -/
theorem TruncInv.visited_of_lt (hinv : TruncInv c T₀ p (cur :: rest) cap) {x : ℕ} (hxc : x < cur.lo) :
    p.typeAt x = truncateMap c T₀ x := by
  obtain ⟨hcur, hrest⟩ := hinv.cur_lt
  refine hinv.visited x fun j hj ↦ ?_
  rcases List.mem_cons.mp hj with rfl | hj
  · exact hxc
  · have := hrest j hj
    omega

theorem TruncInv.read_cur (hinv : TruncInv c T₀ p (cur :: rest) cap) {x : ℕ} (hx : cur.lo ≤ x)
    (hnext : ∀ j ∈ rest, x < j.lo) : T₀ x = if x < cur.hi then some cur.type else none := by
  obtain ⟨done, hr⟩ := hinv.suffix
  rw [← hinv.pending x cur List.mem_cons_self hx]
  exact hinv.tidy.typeAt_between hr hx hnext

/-- The counted addresses below a point between the node at the cursor and the
next node: those below the node, and the part of the node below the point when
the node is counted. -/
theorem TruncInv.ramBelow_eq (hinv : TruncInv c T₀ p (cur :: rest) cap) {y : ℕ} (hy : cur.lo ≤ y)
    (hnext : ∀ j ∈ rest, y ≤ j.lo) :
    ramBelow T₀ y = ramBelow T₀ cur.lo + if countsAsRam cur.type = true then min y cur.hi - cur.lo else 0 := by
  have hcur := hinv.cur_lt.1
  have hread : ∀ z, cur.lo ≤ z → z < y → T₀ z = if z < cur.hi then some cur.type else none :=
    fun z hz hzy ↦ hinv.read_cur hz fun j hj ↦ lt_of_lt_of_le hzy (hnext j hj)
  have hgap : ramBelow T₀ (min y cur.hi + (y - min y cur.hi)) = ramBelow T₀ (min y cur.hi) :=
    ramBelow_add_of_not_counted fun z hz hzy ↦ by
      rw [hread z (by omega) (by omega), if_neg (by omega)]
      rfl
  have hnode : ramBelow T₀ (cur.lo + (min y cur.hi - cur.lo)) =
      ramBelow T₀ cur.lo + if countsAsRam cur.type = true then min y cur.hi - cur.lo else 0 := by
    split_ifs with hc
    · exact ramBelow_add_of_counted fun z hz hzy ↦ by
        rw [hread z hz (by omega), if_pos (by omega)]
        simpa using hc
    · rw [Nat.add_zero]
      exact ramBelow_add_of_not_counted fun z hz hzy ↦ by
        rw [hread z hz (by omega), if_pos (by omega)]
        simpa using hc
  calc ramBelow T₀ y = ramBelow T₀ (min y cur.hi + (y - min y cur.hi)) := by congr 1; omega
    _ = ramBelow T₀ (cur.lo + (min y cur.hi - cur.lo)) := by rw [hgap]; congr 1; omega
    _ = _ := hnode

theorem TruncInv.head_le (hinv : TruncInv c T₀ p (cur :: rest) cap) {j : Node} (hj : j ∈ rest.head?) :
    cur.hi ≤ j.lo ∧ ∀ j' ∈ rest, j.lo ≤ j'.lo := by
  obtain ⟨done, hr⟩ := hinv.suffix
  obtain ⟨-, hrest⟩ := hinv.tidy.lt_of_split hr
  cases rest with
  | nil => simp at hj
  | cons k rest =>
    obtain rfl : k = j := by simpa using hj
    have hr' : p.ranges = (done ++ [cur]) ++ k :: rest := by simp [hr]
    obtain ⟨hk, hks⟩ := hinv.tidy.lt_of_split hr'
    refine ⟨hrest k List.mem_cons_self, fun j' hj' ↦ ?_⟩
    rcases List.mem_cons.mp hj' with rfl | hj'
    · exact le_rfl
    · have := hks j' hj'
      omega

/-- The cursor moves past a node that the pass leaves as it is, once the node
and the gap after it are as they are to be left. -/
theorem TruncInv.next {cap' : ℕ} (hinv : TruncInv c T₀ p (cur :: rest) cap)
    (hcur : ∀ x, cur.lo ≤ x → (∀ j ∈ rest, x < j.lo) → truncateMap c T₀ x = T₀ x)
    (hbudget : ∀ j ∈ rest.head?, cap' = c - ramBelow T₀ j.lo) : TruncInv c T₀ p rest cap' := by
  obtain ⟨done, hr⟩ := hinv.suffix
  refine ⟨hinv.tidy, ⟨done ++ [cur], by simp [hr]⟩, fun x hx ↦ ?_,
    fun x j hj hjx ↦ hinv.pending x j (List.mem_cons_of_mem _ hj) hjx, hbudget⟩
  by_cases hxc : x < cur.lo
  · exact hinv.visited_of_lt hxc
  · rw [hinv.pending x cur List.mem_cons_self (by omega), hcur x (by omega) hx]

theorem TruncInv.skip (hinv : TruncInv c T₀ p (cur :: rest) cap) (hc : countsAsRam cur.type = false) :
    TruncInv c T₀ p rest cap := by
  have hcur := hinv.cur_lt.1
  refine hinv.next (fun x hx hnext ↦ ?_) fun j hj ↦ ?_
  · -- `x` lies in `cur` or in the gap after it, neither counted
    rw [truncateMap, hinv.read_cur hx hnext]
    split_ifs
    · simp [hc]
    · rfl
  · obtain ⟨hjcur, hjle⟩ := hinv.head_le hj
    rw [hinv.budget cur rfl, hinv.ramBelow_eq (by omega) hjle, if_neg (by simp [hc]), Nat.add_zero]

theorem TruncInv.keep (hinv : TruncInv c T₀ p (cur :: rest) cap) (hc : countsAsRam cur.type = true)
    (hfit : cur.hi - cur.lo ≤ cap) : TruncInv c T₀ p rest (cap - (cur.hi - cur.lo)) := by
  have hcur := hinv.cur_lt.1
  have hcap : cap = c - ramBelow T₀ cur.lo := hinv.budget cur rfl
  refine hinv.next (fun x hx hnext ↦ ?_) fun j hj ↦ ?_
  · -- the node lies within the budget: fewer than `c` counted addresses below
    have hbelow := hinv.ramBelow_eq hx fun j hj ↦ (hnext j hj).le
    rw [if_pos hc] at hbelow
    rw [truncateMap, hinv.read_cur hx hnext]
    split_ifs with hxh
    · rw [Option.map_some, if_neg (by omega)]
    · rfl
  · obtain ⟨hjcur, hjle⟩ := hinv.head_le hj
    rw [hinv.ramBelow_eq (by omega) hjle, if_pos hc]
    omega

/-- The pass that retypes the part of the counted node `cur` past the budget
as truncated RAM and coalesces it: the budget is spent, and the cursor moves to
the node after the coalesced one. -/
theorem TruncInv.truncate (hinv : TruncInv c T₀ p (cur :: rest) cap) (hc : countsAsRam cur.type = true)
    (hover : cap < cur.hi - cur.lo) {range : Range}
    (hrange : range.lo = cur.lo + cap ∧ range.hi = cur.hi ∧ range.type = truncatedRam) {it : Iter}
    (hins : p.insertSubrange range (some (some cur.ptr)) = (some it, q)) :
    ∃ R, TruncInv c T₀ (q.coalesce it).2 R 0 ∧
      (q.coalesce it).2.nextIt it = R.head?.map Node.ptr ∧ R.length ≤ rest.length := by
  obtain ⟨done, hr⟩ := hinv.suffix
  have ht := hinv.tidy
  obtain ⟨hcurpos, hrest⟩ := hinv.cur_lt
  have hcap : cap = c - ramBelow T₀ cur.lo := hinv.budget cur rfl
  have hcur : p.node? ((some (some cur.ptr)).getD (p.findContainingRange range.addr range.size)) =
      some cur := ht.node?_ptr (by simp [hr])
  have hsize : range.hi = range.lo + range.size.toNat := rfl
  have hsub : cur.lo ≤ range.lo ∧ range.hi ≤ cur.hi := by omega
  obtain ⟨htq, htypeq⟩ := insertSubrange_typeAt ht hcur hsub (by omega) hins
  obtain ⟨l₁, l₂, m, hr', hq, htiles, n, hn, hnr, rfl⟩ := insertSubrange_spec ht hcur hsub (by omega) hins
  obtain ⟨rfl, -, rfl⟩ := ht.split_inj hr hr' rfl
  have hnlo : n.lo = range.lo := by simp [Range.lo, ← hnr]
  have hnhi : n.hi = range.hi := by simp [Range.hi, ← hnr]
  have hntype : n.type = truncatedRam := by rw [← hrange.2.2, ← hnr]
  -- the new node reaches the end of `cur`, so nothing of `cur` is left after it
  obtain ⟨m₁, m₂, rfl⟩ := List.append_of_mem hn
  have hm₂ : m₂ = [] := List.eq_nil_iff_forall_not_mem.mpr fun j hj ↦ by
    have hnj : n.hi ≤ j.lo :=
      List.rel_of_pairwise_cons (List.pairwise_append.mp htiles.sorted.2).2.1 hj
    have hjpos : j.lo < j.hi := htiles.sorted.1 j (by simp [hj])
    have hjin : j.hi ≤ cur.hi := (htiles.inside j (by simp [hj])).2
    omega
  subst hm₂
  have hq' : q.ranges = (done ++ m₁) ++ n :: rest := by simp [hq]
  obtain ⟨L, c', R, hc', hcptr, hctype, hclo, hchi, -, hR⟩ := htq.coalesce_shape hq'
  obtain ⟨htc, htypec⟩ := htq.coalesce (some n.ptr)
  have hsc := hc' ▸ htc.sorted
  have hRsub : R.Sublist rest := by
    rcases hR with rfl | ⟨b, hb, -⟩
    · exact List.Sublist.refl _
    · rw [hb]
      exact List.sublist_cons_self b R
  have hend : c ≤ ramBelow T₀ cur.hi := by
    rw [hinv.ramBelow_eq hcurpos.le hrest, if_pos hc, min_self]
    omega
  refine ⟨R, ⟨htc, ⟨L ++ [c'], by simp [hc']⟩, fun x hx ↦ ?_, fun x j hj hjx ↦ ?_, fun j hj ↦ ?_⟩,
    by have hnext := htc.nextIt_split hc'; rwa [hcptr] at hnext, hRsub.length_le⟩
  · rw [htypec, htypeq]
    by_cases hxc : x < cur.lo
    · rw [if_neg (by omega)]
      exact hinv.visited_of_lt hxc
    have hT := hinv.pending x cur List.mem_cons_self (by omega)
    by_cases hxh : x < cur.hi
    · -- within `cur`: the addresses past the budget are the tail retyped
      have hbelow := hinv.ramBelow_eq (y := x) (by omega) fun j hj ↦ by have := hrest j hj; omega
      rw [if_pos hc, min_eq_left hxh.le] at hbelow
      have hcurx : T₀ x = some cur.type := by
        rw [← hT]
        exact labelAt_of_mem ht.sorted (by simp [hr]) ⟨by omega, hxh⟩
      rw [truncateMap, hcurx, Option.map_some, hrange.2.2]
      split_ifs with hin hcount hcount
      · rfl
      · exact absurd ⟨hc, by omega⟩ hcount
      · omega
      · rw [hT, hcurx]
    · -- past `cur`, up to the next node: the coalesced node or the gap after it
      have hread := htc.typeAt_between hc' (by omega) hx
      rw [htypec, htypeq, if_neg (by omega), hT, hctype, hntype] at hread
      rw [if_neg (by omega), hT, truncateMap_eq_self]
      split_ifs at hread
      · exact Or.inr hread
      · exact Or.inl hread
  · have hjR : c'.hi ≤ j.lo :=
      List.rel_of_pairwise_cons (List.pairwise_append.mp hsc.2).2.1 hj
    rw [htypec, htypeq, if_neg (by omega)]
    exact hinv.pending x cur List.mem_cons_self (by omega)
  · have hj' : j ∈ rest := hRsub.subset (List.mem_of_mem_head? hj)
    have := ramBelow_mono (T := T₀) (hrest j hj')
    omega

/-- What the loop leaves: every address has its type on entry or the type to
leave, and all of them the type to leave when it succeeds. -/
def TruncResult (c : ℕ) (T₀ : ℕ → Option MemType) (r : Option Unit) (q : Pool) : Prop :=
  (∀ x, q.typeAt x = truncateMap c T₀ x ∨ q.typeAt x = T₀ x) ∧
    (r = some () → q.Tidy ∧ ∀ x, q.typeAt x = truncateMap c T₀ x)

theorem TruncInv.typeAt_cases (hinv : TruncInv c T₀ p rest cap) (x : ℕ) :
    p.typeAt x = truncateMap c T₀ x ∨ p.typeAt x = T₀ x := by
  by_cases h : ∃ j ∈ rest, j.lo ≤ x
  · obtain ⟨j, hj, hjx⟩ := h
    exact .inr (hinv.pending x j hj hjx)
  · push Not at h
    exact .inl (hinv.visited x h)

theorem TruncInv.finish (hinv : TruncInv c T₀ p [] cap) : TruncResult c T₀ (some ()) p :=
  have hdone : ∀ x, p.typeAt x = truncateMap c T₀ x := fun x ↦ hinv.visited x (by simp)
  ⟨fun x ↦ .inl (hdone x), fun _ ↦ ⟨hinv.tidy, hdone⟩⟩

theorem TruncInv.fail (hinv : TruncInv c T₀ p rest cap) (hr : q.ranges = p.ranges) :
    TruncResult c T₀ none q := by
  have hq : q.typeAt = p.typeAt := by
    funext x
    simp only [typeAt, hr]
  exact ⟨fun x ↦ hq ▸ hinv.typeAt_cases x, by simp⟩

/-- The loop of `TruncateTotalRam` from an invariant state, with at least as
much fuel as nodes left. -/
theorem truncateTotalRamLoop_spec (fuel : ℕ) :
    ∀ p rest (cap : UInt64), TruncInv c T₀ p rest cap.toNat → rest.length ≤ fuel →
      ∀ r q, truncateTotalRamLoop fuel cap (rest.head?.map Node.ptr) p = (r, q) → TruncResult c T₀ r q := by
  induction fuel with
  | zero =>
    intro p rest cap hinv hlen r q h
    obtain rfl := List.eq_nil_of_length_eq_zero (Nat.le_zero.mp hlen)
    simp only [truncateTotalRamLoop, Prod.mk.injEq] at h
    obtain ⟨rfl, rfl⟩ := h
    exact hinv.finish
  | succ fuel ih =>
    intro p rest cap hinv hlen r q h
    cases rest with
    | nil =>
      simp only [List.head?_nil, Option.map_none, truncateTotalRamLoop, node?, Option.bind_none,
        Prod.mk.injEq] at h
      obtain ⟨rfl, rfl⟩ := h
      exact hinv.finish
    | cons cur rest =>
      obtain ⟨done, hr⟩ := hinv.suffix
      have hmem : cur ∈ p.ranges := by simp [hr]
      have hb := hinv.tidy.bounded cur hmem
      have hlen' : rest.length ≤ fuel := by simpa using hlen
      have hsize : cur.hi - cur.lo = cur.size.toNat := by simp [Range.hi, Range.lo]
      simp only [List.head?_cons, Option.map_some, truncateTotalRamLoop,
        hinv.tidy.node?_ptr hmem] at h
      split_ifs at h with hskip hfit
      · -- not RAM, or NVRAM: `continue`
        rw [hinv.tidy.nextIt_split hr] at h
        exact ih p rest cap (hinv.skip ((countsAsRam_eq_false_iff _).mpr hskip)) hlen' r q h
      · -- RAM within the budget: keep it
        have hc := countsAsRam_eq_true_of_not hskip
        have hfit' : cur.size.toNat ≤ cap.toNat := UInt64.le_iff_toNat_le.mp hfit
        rw [hinv.tidy.nextIt_split hr] at h
        refine ih p rest _ ?_ hlen' r q h
        rw [UInt64.toNat_sub_of_le _ _ hfit, ← hsize]
        exact hinv.keep hc (by omega)
      · -- the first node past the budget: truncate its tail
        have hc := countsAsRam_eq_true_of_not hskip
        have hover : cap.toNat < cur.size.toNat := by
          simpa [UInt64.le_iff_toNat_le] using hfit
        have hstart : (cur.addr + cap).toNat = cur.lo + cap.toNat :=
          toNat_add_of_le (by simp only [Range.hi] at hb; omega)
        have hendc : cur.endAddr.toNat = cur.hi := toNat_add_of_le hb
        have hle : cur.addr + cap ≤ cur.endAddr := by
          rw [UInt64.le_iff_toNat_le, hstart, hendc]
          omega
        have hrange : (⟨cur.addr + cap, cur.endAddr - (cur.addr + cap), truncatedRam⟩ : Range).lo =
              cur.lo + cap.toNat ∧
            (⟨cur.addr + cap, cur.endAddr - (cur.addr + cap), truncatedRam⟩ : Range).hi = cur.hi ∧
            (⟨cur.addr + cap, cur.endAddr - (cur.addr + cap), truncatedRam⟩ : Range).type = truncatedRam := by
          refine ⟨hstart, ?_, rfl⟩
          show (cur.addr + cap).toNat + (cur.endAddr - (cur.addr + cap)).toNat = _
          rw [UInt64.toNat_sub_of_le _ _ hle, hstart, hendc]
          omega
        cases hins : p.insertSubrange ⟨cur.addr + cap, cur.endAddr - (cur.addr + cap), truncatedRam⟩
            (some (some cur.ptr)) with
        | mk it q₁ =>
          cases it with
          | none =>
            simp only [hins, Prod.mk.injEq] at h
            obtain ⟨rfl, rfl⟩ := h
            exact hinv.fail (insertSubrange_eq_none hins).1
          | some it =>
            obtain ⟨R, hinv', hnext, hR⟩ := hinv.truncate hc (by omega) hrange hins
            -- `Coalesce` hands back the iterator it was given
            have hnext' : (q₁.coalesce it).2.nextIt (q₁.coalesce it).1 = R.head?.map Node.ptr := hnext
            simp only [hins] at h
            rw [hnext'] at h
            exact ih _ R 0 hinv' (hR.trans hlen') r q h

end Loop

theorem TruncInv.entry (ht : p.Tidy) (c : ℕ) : TruncInv c p.typeAt p p.ranges c := by
  refine ⟨ht, ⟨[], rfl⟩, fun x hx ↦ ?_, fun x _ _ _ ↦ rfl, fun j hj ↦ ?_⟩
  · have hnone : p.typeAt x = none :=
      labelAt_eq_none fun j hj hcov ↦ Nat.lt_irrefl x ((hx j hj).trans_le hcov.1)
    simp [truncateMap, hnone]
  · obtain ⟨rest, hr⟩ : ∃ rest, p.ranges = [] ++ j :: rest := by
      cases e : p.ranges with
      | nil => simp [e] at hj
      | cons k rest => exact ⟨rest, by simpa [e] using hj⟩
    obtain ⟨hjpos, hjrest⟩ := ht.lt_of_split hr
    have hzero : ramBelow p.typeAt (0 + j.lo) = ramBelow p.typeAt 0 :=
      ramBelow_add_of_not_counted fun y _ hy ↦ by
        have hnone : p.typeAt y = none := labelAt_eq_none fun k hk hcov ↦ by
          rw [hr] at hk
          rcases List.mem_cons.mp hk with rfl | hk
          · omega
          · have := hjrest k hk
            omega
        rw [hnone]
        rfl
    rw [Nat.zero_add, ramBelow_zero] at hzero
    rw [hzero, Nat.sub_zero]

theorem truncateTotalRam_result (ht : p.Tidy) {c : UInt64} {r : Option Unit}
    (h : p.truncateTotalRam c = (r, q)) : TruncResult c.toNat p.typeAt r q :=
  truncateTotalRamLoop_spec _ _ _ _ (TruncInv.entry ht c.toNat) (Nat.le_succ _) r q h

/-- On a pool that keeps its representation invariant, with its nodes
distinct: when `TruncateTotalRam(c)` succeeds, of the addresses of RAM other
than NVRAM (truncated RAM included) the lowest `c` keep their types and the
others are truncated RAM, and every other address keeps its type; a second
`TruncateTotalRam(c)` then changes no address's type. -/
theorem truncateTotalRam_keeps_lowest (hp : PoolInvariant p) (hnodup : p.nodes.Nodup) {c : UInt64}
    (h : p.truncateTotalRam c = (some (), q)) :
    (∀ x, q.typeAt x = truncateMap c.toNat p.typeAt x) ∧
      ∀ r q', q.truncateTotalRam c = (r, q') → q'.typeAt = q.typeAt := by
  obtain ⟨htq, hq⟩ := (truncateTotalRam_result (hp.tidy hnodup) h).2 rfl
  have hfix : truncateMap c.toNat q.typeAt = q.typeAt := by
    rw [funext hq, truncateMap_truncateMap]
  refine ⟨hq, fun r q' h' ↦ funext fun x ↦ ?_⟩
  rcases (truncateTotalRam_result htq h').1 x with e | e
  · rw [e, hfix]
  · exact e

theorem truncateTotalRam_keeps_lowest_truncatedBelow :
    PoolInvariant truncatedBelowPool ∧ truncatedBelowPool.nodes.Nodup ∧
      truncatedBelowPool.truncateTotalRam 0x10000 = (some (), (truncatedBelowPool.truncateTotalRam 0x10000).2) ∧
      (∀ x, (truncatedBelowPool.truncateTotalRam 0x10000).2.typeAt x =
        truncateMap (0x10000 : UInt64).toNat truncatedBelowPool.typeAt x) ∧
      ∀ r q', (truncatedBelowPool.truncateTotalRam 0x10000).2.truncateTotalRam 0x10000 = (r, q') →
        q'.typeAt = (truncatedBelowPool.truncateTotalRam 0x10000).2.typeAt := by
  have hok : (truncatedBelowPool.truncateTotalRam 0x10000).1 = some () := by decide
  have hrun : truncatedBelowPool.truncateTotalRam 0x10000 =
      (some (), (truncatedBelowPool.truncateTotalRam 0x10000).2) := by
    rw [← hok]
  have hinv : PoolInvariant truncatedBelowPool := by decide
  have hnodup : truncatedBelowPool.nodes.Nodup := by decide
  exact ⟨hinv, hnodup, hrun, truncateTotalRam_keeps_lowest hinv hnodup hrun⟩

end Pool

end Zircon.Memalloc
