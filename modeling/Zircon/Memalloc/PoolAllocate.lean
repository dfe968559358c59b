import Mathlib
import Zircon.Lib.StdAlgorithm
import Zircon.Lib.BitField
import Zircon.Memalloc.PoolTypes
import Zircon.Memalloc.FindContaining

/-!
# Allocating from the pool

`Pool::Allocate` first makes sure of two spare nodes, carving a chunk of
bookkeeping out of free RAM when it has fewer, then asks `FindAllocatable`
for an address and retypes the range there with `InsertSubrange` and
`Coalesce`.

`FindAllocatable` scans the ranges in order and stops at the first free
range where the aligned request fits, or early, at the first range past the
upper bound or where alignment overflows.  On sorted ranges, every early
stop is right: the address it returns is the least address where the request
fits, and it returns none only when no address fits.

The proofs read addresses as numbers; the representation invariant keeps
every range below `UINT64_MAX`, so that the `UInt64` comparisons of the
source are those of the numbers.
-/

namespace Zircon.Memalloc

open Zircon.Lib IntervalLabels MemType

namespace Pool

variable {p q : Pool}

/-! ### Finding the node that contains a range -/

theorem Tidy.lookupOrder (ht : p.Tidy) :
    (p.ranges.Pairwise fun a b ↦ b.toRange.lt a.toRange = false) ∧
      p.ranges.Pairwise fun a b ↦ a.toRange.intersectsWith b.toRange = false := by
  constructor
  · refine ht.sorted.2.imp_of_mem fun {a b} ha _ hab ↦ ?_
    have ha₁ := ht.sorted.1 a ha
    simp only [Range.lo, Range.hi] at ha₁ hab
    rw [← Bool.not_eq_true, Range.lt_eq_true_iff]
    omega
  · refine ht.sorted.2.imp_of_mem fun {a b} ha _ hab ↦ ?_
    have ha₁ := ht.sorted.1 a ha
    have hba := ht.bounded a ha
    simp only [Range.lo, Range.hi] at ha₁ hab hba
    have hlt : a.toRange.lt b.toRange = true := by
      rw [Range.lt_eq_true_iff]
      omega
    rw [Range.intersectsWith_eq, if_pos hlt, decide_eq_false_iff_not, Nat.mod_eq_of_lt (by omega)]
    omega

theorem Tidy.findContainingRange (ht : p.Tidy) {n : Node} (hn : n ∈ p.ranges)
    {addr size : UInt64} (hpos : 0 < size.toNat)
    (hin : n.lo ≤ addr.toNat ∧ addr.toNat + size.toNat ≤ n.hi) :
    p.findContainingRange addr size = some n.ptr := by
  have hbn : n.hi ≤ 2 ^ 64 - 1 := ht.bounded n hn
  simp only [Range.lo, Range.hi] at hin hbn
  have hcontains : n.containsRange addr size = true := by
    simp only [Range.containsRange, Range.endAddr, Bool.and_eq_true, decide_eq_true_eq,
      UInt64.le_iff_toNat_le, UInt64.toNat_add]
    rw [Nat.mod_eq_of_lt (by omega), Nat.mod_eq_of_lt (by omega)]
    omega
  obtain ⟨hsorted, hdisjoint⟩ := ht.lookupOrder
  obtain ⟨i, hi, rfl⟩ := List.mem_iff_getElem.mp hn
  rw [Pool.findContainingRange, findContainingRangeAmong_eq_candidate,
    candidate_eq_of_containsRange hsorted hdisjoint (by omega) (by omega) hi hcontains,
    Option.bind_some, if_pos hcontains]

end Pool

/-! ### Rounding up to the alignment -/

theorem le_ceilDiv_mul {n a : ℕ} (ha : 0 < a) : n ≤ n ⌈/⌉ a * a := by
  have := le_smul_ceilDiv (β := ℕ) (b := n) ha
  rwa [smul_eq_mul, Nat.mul_comm] at this

theorem ceilDiv_mul_le {n a b : ℕ} (ha : 0 < a) (hb : b % a = 0) (hn : n ≤ b) :
    n ⌈/⌉ a * a ≤ b := by
  obtain ⟨c, rfl⟩ := Nat.dvd_of_mod_eq_zero hb
  have hc : n ⌈/⌉ a ≤ c := (ceilDiv_le_iff_le_mul ha).mpr hn
  calc n ⌈/⌉ a * a ≤ c * a := Nat.mul_le_mul_right a hc
    _ = a * c := Nat.mul_comm c a

section Align

variable {x alignment : UInt64} {k : ℕ}

theorem lt_sixtyFour_of_toNat (hk : alignment.toNat = 2 ^ k) : k < 64 := by
  have h := alignment.toNat_lt
  rw [hk] at h
  exact (Nat.pow_lt_pow_iff_right (by decide)).mp h

theorem toNat_kMax_sub (hk : alignment.toNat = 2 ^ k) :
    (kMax - (alignment - 1)).toNat = 2 ^ 64 - 2 ^ k := by
  have hpos : 1 ≤ alignment := UInt64.le_iff_toNat_le.mpr (by simp [hk, Nat.one_le_two_pow])
  have hlt := Nat.pow_lt_pow_right (a := 2) (by decide) (lt_sixtyFour_of_toNat hk)
  have h₁ : (alignment - 1).toNat = 2 ^ k - 1 := by
    rw [UInt64.toNat_sub_of_le _ _ hpos, hk]
    rfl
  have hle : alignment - 1 ≤ kMax :=
    UInt64.le_iff_toNat_le.mpr (Nat.le_pred_of_lt (alignment - 1).toNat_lt)
  rw [UInt64.toNat_sub_of_le _ _ hle, h₁]
  simp only [kMax, UInt64.reduceToNat]
  have hone := Nat.one_le_two_pow (n := k)
  generalize 2 ^ k = A at hlt hone ⊢
  norm_num at hlt ⊢
  omega

theorem align_eq_none (hk : alignment.toNat = 2 ^ k) (h : align x alignment = none) :
    2 ^ 64 - 2 ^ k < x.toNat := by
  unfold align at h
  split_ifs at h with hover
  rwa [GT.gt, UInt64.lt_iff_toNat_lt, toNat_kMax_sub hk] at hover

theorem align_eq_some {r : UInt64} (hk : alignment.toNat = 2 ^ k) (h : align x alignment = some r) :
    r.toNat = x.toNat ⌈/⌉ 2 ^ k * 2 ^ k := by
  unfold align at h
  split_ifs at h with hover
  cases h
  have hk64 := lt_sixtyFour_of_toNat hk
  have hx : x.toNat ≤ 2 ^ 64 - 2 ^ k := by
    rwa [GT.gt, UInt64.lt_iff_toNat_lt, toNat_kMax_sub hk, not_lt] at hover
  have hpow : 2 ^ k < 2 ^ 64 := Nat.pow_lt_pow_right (by decide) hk64
  have hpos : 1 ≤ alignment := UInt64.le_iff_toNat_le.mpr (by simp [hk, Nat.one_le_two_pow])
  have h₁ : (alignment - 1).toNat = 2 ^ k - 1 := by
    rw [UInt64.toNat_sub_of_le _ _ hpos, hk]
    rfl
  have hone := Nat.one_le_two_pow (n := k)
  have hlt : x.toNat + 2 ^ k - 1 < 2 ^ 64 := by
    generalize 2 ^ k = A at hx hpow hone ⊢
    omega
  have hsum : (x + alignment - 1).toNat = x.toNat + 2 ^ k - 1 := by
    rw [show x + alignment - 1 = x + (alignment - 1) by grind, toNat_add_of_le (by omega), h₁]
    generalize 2 ^ k = A at hone ⊢
    omega
  rw [toNat_and_not_sub_one hk, hsum, Nat.ceilDiv_eq_add_pred_div]

theorem two_pow_le_of_mod_eq_zero {b : ℕ} (hk : k ≤ 64) (hb : b % 2 ^ k = 0)
    (hgt : 2 ^ 64 - 2 ^ k < b) : 2 ^ 64 ≤ b := by
  obtain ⟨q, rfl⟩ := Nat.dvd_of_mod_eq_zero hb
  have h64 : 2 ^ 64 = 2 ^ k * 2 ^ (64 - k) := by rw [← Nat.pow_add, Nat.add_sub_cancel' hk]
  have hpos : 0 < 2 ^ k := Nat.two_pow_pos k
  rw [h64] at hgt ⊢
  have hq : 2 ^ (64 - k) - 1 < q := by
    rw [← Nat.mul_lt_mul_left hpos, Nat.mul_sub_one]
    exact hgt
  exact Nat.mul_le_mul_left _ (by omega)

end Align

/-! ### First fit -/

/-- `o` is the least element of `S`, or none when `S` is empty. -/
def IsFirst (S : Set ℕ) : Option ℕ → Prop
  | some a => IsLeast S a
  | none => S = ∅

theorem isFirst_none {S : Set ℕ} (h : ∀ b, b ∉ S) : IsFirst S none :=
  Set.eq_empty_iff_forall_notMem.mpr h

theorem IsFirst.congr {S T : Set ℕ} {o : Option ℕ} (h : IsFirst S o) (hST : S = T) : IsFirst T o :=
  hST ▸ h

section FirstFit

variable (size alignment lower upper : ℕ)

/-- `size` bytes at `a` are aligned, lie within `[lower, upper]`, and lie
within the free RAM of the node `n`. -/
def FitsIn (n : Node) (a : ℕ) : Prop :=
  a % alignment = 0 ∧ lower ≤ a ∧ a + size - 1 ≤ upper ∧ n.type = freeRam ∧ n.lo ≤ a ∧
    a + size ≤ n.hi

/-- `size` bytes fit at `a` within one of the nodes of `l`. -/
def Fits (l : List Node) (a : ℕ) : Prop :=
  ∃ n ∈ l, FitsIn size alignment lower upper n a

variable {size alignment lower upper}

theorem fits_cons {n : Node} {l : List Node} {a : ℕ} :
    Fits size alignment lower upper (n :: l) a ↔
      FitsIn size alignment lower upper n a ∨ Fits size alignment lower upper l a := by
  simp [Fits]

theorem isFirst_cons {n : Node} {l : List Node} {o : Option ℕ}
    (hn : ∀ b, ¬FitsIn size alignment lower upper n b)
    (h : IsFirst {b | Fits size alignment lower upper l b} o) :
    IsFirst {b | Fits size alignment lower upper (n :: l) b} o :=
  h.congr (Set.ext fun b ↦ by simp [fits_cons, hn b])

end FirstFit

namespace Pool

section Loop

variable {size alignment minAddr maxAddr : UInt64} {k : ℕ}

theorem toNat_lastStart (hsize : 0 < size.toNat)
    (hwin : size.toNat - 1 ≤ maxAddr.toNat - minAddr.toNat) :
    (maxAddr - size + 1).toNat = maxAddr.toNat + 1 - size.toNat := by
  have hone : 1 ≤ size := UInt64.le_iff_toNat_le.mpr hsize
  have h₁ : (size - 1).toNat = size.toNat - 1 := by
    rw [UInt64.toNat_sub_of_le _ _ hone]
    rfl
  have hle : size - 1 ≤ maxAddr := UInt64.le_iff_toNat_le.mpr (by omega)
  rw [show maxAddr - size + 1 = maxAddr - (size - 1) by grind, UInt64.toNat_sub_of_le _ _ hle, h₁]
  omega

theorem findAllocatableStep_found (hk : alignment.toNat = 2 ^ k) {range : Node}
    (hbr : range.hi ≤ 2 ^ 64 - 1) {a : UInt64}
    (h : findAllocatableStep size alignment minAddr maxAddr range = .found a) :
    range.type = freeRam ∧ (max range.addr minAddr).toNat ≤ a.toNat ∧
      a.toNat = (max range.addr minAddr).toNat ⌈/⌉ 2 ^ k * 2 ^ k ∧ a.toNat + size.toNat ≤ range.hi ∧
      ¬a > maxAddr - size + 1 := by
  have hend : range.endAddr.toNat = range.hi := toNat_add_of_le hbr
  unfold findAllocatableStep at h
  split_ifs at h with hskip hover
  split at h
  · cases h
  · rename_i aligned halign
    split_ifs at h with htop hshort
    cases h
    have haligned := align_eq_some hk halign
    have hc := le_ceilDiv_mul (n := (max range.addr minAddr).toNat) (Nat.two_pow_pos k)
    rw [← haligned] at hc
    simp only [not_or, ne_eq, not_not, UInt64.le_iff_toNat_le, hend, not_le] at hskip hshort
    rw [UInt64.lt_iff_toNat_lt, UInt64.toNat_sub_of_le _ _ (UInt64.le_iff_toNat_le.mpr
      (by omega)), hend] at hshort
    exact ⟨hskip.1, hc, haligned, by omega, htop⟩

section Window

variable (hk : alignment.toNat = 2 ^ k) (hsize : 0 < size.toNat)
  (hwin : size.toNat - 1 ≤ maxAddr.toNat - minAddr.toNat)
include hk hsize hwin

/-- What one pass of the loop decides about the fits in a list of ranges that
starts at `range`, when each fit lies at or above `max range.addr min_addr`:
`continue` when none is in `range`, `break` when there is none at all, and
otherwise an address that is the least fit. -/
theorem findAllocatableStep_spec {range : Node} {l : List Node} (hbr : range.hi ≤ 2 ^ 64 - 1)
    (hlow : ∀ b, Fits size.toNat alignment.toNat minAddr.toNat maxAddr.toNat (range :: l) b →
      (max range.addr minAddr).toNat ≤ b ∧ b % 2 ^ k = 0 ∧ b + size.toNat ≤ 2 ^ 64 - 1) :
    match findAllocatableStep size alignment minAddr maxAddr range with
    | .skip => ∀ b, ¬FitsIn size.toNat alignment.toNat minAddr.toNat maxAddr.toNat range b
    | .stop => ∀ b, ¬Fits size.toNat alignment.toNat minAddr.toNat maxAddr.toNat (range :: l) b
    | .found a => IsLeast {b | Fits size.toNat alignment.toNat minAddr.toNat maxAddr.toNat
        (range :: l) b} a.toNat := by
  have hend : range.endAddr.toNat = range.hi := toNat_add_of_le hbr
  have hlast := toNat_lastStart hsize hwin
  -- the least aligned candidate is at most every fit
  have hleast : ∀ aligned, align (max range.addr minAddr) alignment = some aligned →
      ∀ b, Fits size.toNat alignment.toNat minAddr.toNat maxAddr.toNat (range :: l) b →
        aligned.toNat ≤ b := fun aligned halign b hfit ↦ by
    obtain ⟨hge, hmod, -⟩ := hlow b hfit
    rw [align_eq_some hk halign]
    exact ceilDiv_mul_le (Nat.two_pow_pos k) hmod hge
  split
  · -- `continue`: `range` is not free RAM, ends at or below the window, or is
    rename_i hstep
    intro b hfit
    have hfit' := hfit
    obtain ⟨-, hlower, -, htype, -, hhi⟩ := hfit
    unfold findAllocatableStep at hstep
    split_ifs at hstep with hskip hover
    · rcases hskip with hskip | hskip
      · exact hskip htype
      · rw [UInt64.le_iff_toNat_le, hend] at hskip
        omega
    · split at hstep
      · cases hstep
      · rename_i aligned halign
        have := hleast aligned halign b (fits_cons.mpr (.inl hfit'))
        split_ifs at hstep with htop hshort
        rcases hshort with hshort | hshort
        · rw [GE.ge, UInt64.le_iff_toNat_le, hend] at hshort
          omega
        · rw [UInt64.lt_iff_toNat_lt, UInt64.toNat_sub_of_le _ _ ?_, hend] at hshort
          · omega
          · exact UInt64.le_iff_toNat_le.mpr (by omega)
  · -- `break`: past the window, or past `UINT64_MAX` once aligned
    rename_i hstep
    intro b hfit
    obtain ⟨hge, hmod, htop⟩ := hlow b hfit
    have hfit' := hfit
    obtain ⟨n, -, -, -, hupper, -⟩ := hfit
    unfold findAllocatableStep at hstep
    split_ifs at hstep with hskip hover
    · rw [GT.gt, UInt64.lt_iff_toNat_lt] at hover
      rw [UInt64.toNat_max] at hge
      omega
    · split at hstep
      · rename_i halign
        have := two_pow_le_of_mod_eq_zero (lt_sixtyFour_of_toNat hk).le hmod
          (lt_of_lt_of_le (align_eq_none hk halign) hge)
        omega
      · rename_i aligned halign
        have := hleast aligned halign b hfit'
        split_ifs at hstep with htop
        rw [GT.gt, UInt64.lt_iff_toNat_lt, hlast] at htop
        omega
  · -- `return`: the least candidate fits in `range`
    rename_i a hstep
    obtain ⟨htype, hc, haligned, hhi, htop⟩ := findAllocatableStep_found hk hbr hstep
    rw [GT.gt, UInt64.lt_iff_toNat_lt, hlast, not_lt] at htop
    rw [UInt64.toNat_max] at hc
    refine ⟨⟨range, List.mem_cons_self, ?_, by omega, by omega, htype, by simp only [Range.lo]; omega,
      hhi⟩, fun b hfit ↦ ?_⟩
    · rw [haligned, hk]
      exact Nat.mul_mod_left _ _
    · obtain ⟨hge, hmod, -⟩ := hlow b hfit
      rw [haligned]
      exact ceilDiv_mul_le (Nat.two_pow_pos k) hmod hge

/-- The first-fit loop of `FindAllocatable` on sorted ranges returns the least
address where the request fits, and none only when no address does. -/
theorem findAllocatableLoop_isFirst {l : List Node}
    (hl : SortedDisjoint (fun n : Node ↦ n.lo) (fun n ↦ n.hi) l) (hb : ∀ n ∈ l, n.hi ≤ 2 ^ 64 - 1) :
    IsFirst {b | Fits size.toNat alignment.toNat minAddr.toNat maxAddr.toNat l b}
      ((findAllocatableLoop size alignment minAddr maxAddr l).map UInt64.toNat) := by
  induction l with
  | nil => exact isFirst_none fun b ⟨_, hn, _⟩ ↦ List.not_mem_nil hn
  | cons range rest ih =>
    have ih := ih (hl.sublist (List.sublist_cons_self _ _))
      fun n hn ↦ hb n (List.mem_cons_of_mem _ hn)
    have hbr := hb range List.mem_cons_self
    have hposr : range.lo < range.hi := hl.1 range List.mem_cons_self
    have hrest : ∀ b, Fits size.toNat alignment.toNat minAddr.toNat maxAddr.toNat rest b →
        range.hi ≤ b := fun b ⟨n, hn, hfit⟩ ↦ (List.rel_of_pairwise_cons hl.2 hn).trans hfit.2.2.2.2.1
    have hlow : ∀ b, Fits size.toNat alignment.toNat minAddr.toNat maxAddr.toNat (range :: rest) b →
        (max range.addr minAddr).toNat ≤ b ∧ b % 2 ^ k = 0 ∧ b + size.toNat ≤ 2 ^ 64 - 1 := by
      intro b hfit
      rw [UInt64.toNat_max]
      rcases fits_cons.mp hfit with hfit | hfit
      · obtain ⟨hal, hlower, -, -, hlo, hhi⟩ := hfit
        exact ⟨max_le hlo hlower, hk ▸ hal, hhi.trans hbr⟩
      · have := hrest b hfit
        obtain ⟨n, hn, hal, hlower, -, -, -, hhi⟩ := hfit
        exact ⟨max_le (by simp only [Range.lo, Range.hi] at *; omega) hlower, hk ▸ hal,
          hhi.trans (hb n (List.mem_cons_of_mem _ hn))⟩
    have hstep := findAllocatableStep_spec hk hsize hwin hbr hlow
    simp only [findAllocatableLoop]
    split
    all_goals rename_i h
    all_goals simp only [h] at hstep
    · exact isFirst_cons hstep ih
    · exact isFirst_none hstep
    · exact hstep

end Window

theorem findAllocatable_isFirst {p : Pool} (ht : p.Tidy) (hk : alignment.toNat = 2 ^ k)
    (hsize : 0 < size.toNat) (hle : minAddr ≤ maxAddr) :
    IsFirst {b | Fits size.toNat alignment.toNat minAddr.toNat maxAddr.toNat p.ranges b}
      ((p.findAllocatable size alignment minAddr maxAddr).map UInt64.toNat) := by
  have hone : 1 ≤ size := UInt64.le_iff_toNat_le.mpr hsize
  unfold findAllocatable
  split_ifs with hbig
  all_goals rw [GT.gt, UInt64.lt_iff_toNat_lt, UInt64.toNat_sub_of_le _ _ hle,
    UInt64.toNat_sub_of_le _ _ hone, UInt64.toNat_one] at hbig
  · -- the request is longer than the window
    refine isFirst_none fun b ⟨n, _, _, hlower, hupper, _⟩ ↦ ?_
    have := UInt64.le_iff_toNat_le.mp hle
    omega
  · exact findAllocatableLoop_isFirst hk hsize (not_lt.mp hbig) ht.sorted ht.bounded

/-- Whatever the window, an address the first-fit loop returns has the
request within a free node. -/
theorem findAllocatableLoop_sound (hk : alignment.toNat = 2 ^ k) {l : List Node}
    (hb : ∀ n ∈ l, n.hi ≤ 2 ^ 64 - 1) {a : UInt64}
    (h : findAllocatableLoop size alignment minAddr maxAddr l = some a) :
    ∃ n ∈ l, n.type = freeRam ∧ n.lo ≤ a.toNat ∧ a.toNat + size.toNat ≤ n.hi := by
  induction l with
  | nil => cases h
  | cons range rest ih =>
    simp only [findAllocatableLoop] at h
    split at h
    · obtain ⟨n, hn, hfit⟩ := ih (fun n hn ↦ hb n (List.mem_cons_of_mem _ hn)) h
      exact ⟨n, List.mem_cons_of_mem _ hn, hfit⟩
    · cases h
    · rename_i a' hstep
      cases h
      obtain ⟨htype, hc, -, hhi, -⟩ := findAllocatableStep_found hk (hb range List.mem_cons_self) hstep
      rw [UInt64.toNat_max] at hc
      exact ⟨range, List.mem_cons_self, htype, le_of_max_le_left hc, hhi⟩

theorem findAllocatable_sound {p : Pool} (hk : alignment.toNat = 2 ^ k)
    (hb : ∀ n ∈ p.ranges, n.hi ≤ 2 ^ 64 - 1) {a : UInt64}
    (h : p.findAllocatable size alignment minAddr maxAddr = some a) :
    ∃ n ∈ p.ranges, n.type = freeRam ∧ n.lo ≤ a.toNat ∧ a.toNat + size.toNat ≤ n.hi := by
  unfold findAllocatable at h
  split_ifs at h
  exact findAllocatableLoop_sound hk hb h

end Loop

/-! ### Carving bookkeeping out of free RAM -/

section Bookkeeping

variable {p q : Pool}

theorem typeAt_of_ranges_eq (h : q.ranges = p.ranges) : q.typeAt = p.typeAt := by
  funext x
  simp only [typeAt, h]

theorem Tidy.of_unused_sublist (ht : p.Tidy) (hr : q.ranges = p.ranges)
    (hu : q.unused.Sublist p.unused) : q.Tidy :=
  ⟨hr ▸ ht.sorted, hr ▸ ht.bounded,
    ht.nodup.sublist (by simpa [Pool.nodes, hr] using hu)⟩

theorem insertSubrange_eq_none {range : Range} {parentIt : Option Iter}
    (h : p.insertSubrange range parentIt = (none, q)) :
    q.ranges = p.ranges ∧ q.unused.Sublist p.unused := by
  simp only [insertSubrange] at h
  cases hcur : p.node? (parentIt.getD (p.findContainingRange range.addr range.size)) with
  | none =>
    simp only [hcur, Prod.mk.injEq] at h
    obtain ⟨-, rfl⟩ := h
    exact ⟨rfl, .refl _⟩
  | some cur =>
    simp only [hcur] at h
    split_ifs at h
    · cases h
    split at h
    · -- no spare node: nothing changed
      rename_i p₁ hpop
      cases h
      rw [newNode_eq_none hpop]
      exact ⟨rfl, .refl _⟩
    · -- the split failed for want of a second spare node
      rename_i node p₁ hpop
      obtain ⟨-, -, rfl⟩ := newNode_eq_some hpop
      rcases splitAround_cases (p := { p with unused := p.unused.dropLast })
        (parentIt.getD (p.findContainingRange range.addr range.size)) cur range node with
        ⟨hs, -⟩ | ⟨-, heq⟩
      · simp [h] at hs
      · rw [h] at heq
        cases heq
        exact ⟨rfl, List.dropLast_sublist _⟩

theorem nodes_populateAsBookkeeping (addr size : ℕ) :
    (p.populateAsBookkeeping addr size).2.ranges = p.ranges ∧
      (p.populateAsBookkeeping addr size).2.nodes =
        p.nodes ++ (List.range (size / kNodeSize)).map fun i ↦ addr + i * kNodeSize := by
  simp [populateAsBookkeeping, Pool.nodes]

theorem mem_carved_chunk {addr size y : ℕ}
    (hy : y ∈ (List.range (size / kNodeSize)).map fun i ↦ addr + i * kNodeSize) :
    addr ≤ y ∧ y < addr + size := by
  obtain ⟨i, hi, rfl⟩ := List.mem_map.mp hy
  have hi' := List.mem_range.mp hi
  have : i * kNodeSize + kNodeSize ≤ size := by
    have := Nat.div_mul_le_self size kNodeSize
    have := Nat.mul_le_mul_right kNodeSize (Nat.succ_le_of_lt hi')
    simp only [kNodeSize] at *
    omega
  simp only [kNodeSize] at *
  omega

/-- `TryToEnsureTwoBookkeepingNodes` keeps the pool tidy, and the only types
it changes are of free RAM, which becomes bookkeeping; a node of any other
type stays as it is.  The nodes must not lie in free RAM, where the new ones
are carved. -/
theorem Tidy.tryToEnsure (ht : p.Tidy) (hfree : ∀ k ∈ p.nodes, p.typeAt k ≠ some freeRam) :
    p.tryToEnsureTwoBookkeepingNodes.Tidy ∧
      (∀ x, p.tryToEnsureTwoBookkeepingNodes.typeAt x = p.typeAt x ∨
        (p.typeAt x = some freeRam ∧
          p.tryToEnsureTwoBookkeepingNodes.typeAt x = some poolBookkeeping)) ∧
      ∀ j ∈ p.ranges, j.type ≠ freeRam → j.type ≠ poolBookkeeping →
        j ∈ p.tryToEnsureTwoBookkeepingNodes.ranges := by
  unfold tryToEnsureTwoBookkeepingNodes
  split_ifs with henough
  · exact ⟨ht, fun x ↦ .inl rfl, fun j hj _ _ ↦ hj⟩
  cases hfind : p.findAllocatable kBookkeepingChunkSize kBookkeepingChunkSize p.defaultMinAddr
      p.defaultMaxAddr with
  | none => exact ⟨ht, fun x ↦ .inl rfl, fun j hj _ _ ↦ hj⟩
  | some addr =>
    obtain ⟨n, hn, htype, hlo, hhi⟩ := findAllocatable_sound (k := 12) rfl ht.bounded hfind
    have hchunk : kBookkeepingChunkSize.toNat = 4096 := rfl
    rw [hchunk] at hhi
    -- the chunk is free RAM, so no node lies there
    have hfreeAt : ∀ x, addr.toNat ≤ x → x < addr.toNat + 4096 → p.typeAt x = some freeRam := by
      intro x hx₁ hx₂
      rw [← htype]
      exact labelAt_of_mem ht.sorted hn ⟨hlo.trans hx₁, by omega⟩
    obtain ⟨hr₁, hn₁⟩ := nodes_populateAsBookkeeping (p := p) addr.toNat kBookkeepingChunkSize.toNat
    dsimp only
    generalize (p.populateAsBookkeeping addr.toNat kBookkeepingChunkSize.toNat).2 = p₁ at hr₁ hn₁ ⊢
    have ht₁ : p₁.Tidy := by
      refine ⟨hr₁ ▸ ht.sorted, hr₁ ▸ ht.bounded, ?_⟩
      rw [hn₁]
      refine List.Nodup.append ht.nodup ((List.nodup_range).map fun i j hij ↦ ?_) ?_
      · simp only [kNodeSize] at hij
        omega
      · intro y hy hy'
        obtain ⟨h₁, h₂⟩ := mem_carved_chunk hy'
        exact hfree y hy (hfreeAt y h₁ (by rwa [hchunk] at h₂))
    have htype₁ : p₁.typeAt = p.typeAt := typeAt_of_ranges_eq hr₁
    set chunk : Range := ⟨addr, kBookkeepingChunkSize, poolBookkeeping⟩
    have hpos : 0 < chunk.size.toNat := by
      show 0 < kBookkeepingChunkSize.toNat
      rw [hchunk]
      decide
    have hsub : n.lo ≤ chunk.lo ∧ chunk.hi ≤ n.hi := by
      refine ⟨hlo, ?_⟩
      show addr.toNat + kBookkeepingChunkSize.toNat ≤ n.hi
      rw [hchunk]
      exact hhi
    have hn' : n ∈ p₁.ranges := hr₁ ▸ hn
    have hcur : p₁.node? ((none : Option Iter).getD
        (p₁.findContainingRange chunk.addr chunk.size)) = some n := by
      rw [Option.getD_none, ht₁.findContainingRange hn' hpos hsub, ht₁.node?_ptr hn']
    cases hins : p₁.insertSubrange chunk none with
    | mk it p₂ =>
      cases it with
      | none =>
        obtain ⟨hr₂, hu₂⟩ := insertSubrange_eq_none hins
        refine ⟨ht₁.of_unused_sublist hr₂ hu₂, fun x ↦ .inl ?_, fun j hj _ _ ↦ ?_⟩
        · rw [typeAt_of_ranges_eq hr₂, htype₁]
        · rwa [hr₂, hr₁]
      | some it =>
        obtain ⟨ht₂, htype₂⟩ := insertSubrange_typeAt ht₁ hcur hsub hpos hins
        obtain ⟨l₁, l₂, m, hr, hq, -, k, hk, hkr, rfl⟩ := insertSubrange_spec ht₁ hcur hsub hpos hins
        obtain ⟨ht₃, htype₃⟩ := ht₂.coalesce (some k.ptr)
        refine ⟨ht₃, fun x ↦ ?_, fun j hj hj₁ hj₂ ↦ ?_⟩
        · rw [htype₃, htype₂, htype₁]
          split_ifs with hx
          · exact .inr ⟨hfreeAt x hx.1 (by rw [← hchunk]; exact hx.2), rfl⟩
          · exact .inl rfl
        · -- the node is not the free node split, nor of the chunk's type
          obtain ⟨m₁, m₂, rfl⟩ := List.append_of_mem hk
          have hq' : p₂.ranges = (l₁ ++ m₁) ++ k :: (m₂ ++ l₂) := by simp [hq]
          have hj' : j ∈ p₂.ranges := by
            rw [← hr₁, hr] at hj
            have hjn : j ≠ n := fun h ↦ hj₁ (h ▸ htype)
            rw [hq']
            rcases List.mem_append.mp hj with hj | hj
            · exact List.mem_append_left _ (List.mem_append_left _ hj)
            · have hjl : j ∈ l₂ := (List.mem_cons.mp hj).resolve_left hjn
              exact List.mem_append_right _ (List.mem_cons_of_mem _ (List.mem_append_right _ hjl))
          refine ht₂.mem_coalesce hq' hj' ?_
          rwa [show k.type = poolBookkeeping from congrArg Range.type hkr]

end Bookkeeping

/-! ### `Allocate` -/

/-- `Allocate` on a pool that keeps its representation invariant, with its
nodes distinct and outside free RAM: the address it returns is the least
aligned address within the bounds where the request lies in free RAM, in the
pool that `TryToEnsureTwoBookkeepingNodes` left; the request then has the
type asked for, and every other address keeps its type.  `FindAllocatable`
fails only when no such address exists. -/
theorem allocate_firstFit {p : Pool} (hp : PoolInvariant p) (hnodup : p.nodes.Nodup)
    (hfree : ∀ k ∈ p.nodes, p.typeAt k ≠ some freeRam) {type : MemType} {size alignment : UInt64}
    {k : ℕ} (hsize : 0 < size.toNat) (halign : alignment.toNat = 2 ^ k)
    {minAddr maxAddr : Option UInt64}
    (hle : minAddr.getD p.defaultMinAddr ≤ maxAddr.getD p.defaultMaxAddr) :
    (∀ a q, p.allocate type size alignment minAddr maxAddr = (some a, q) →
      IsLeast {b | Fits size.toNat alignment.toNat (minAddr.getD p.defaultMinAddr).toNat
          (maxAddr.getD p.defaultMaxAddr).toNat p.tryToEnsureTwoBookkeepingNodes.ranges b} a.toNat ∧
        ∀ x, q.typeAt x = if a.toNat ≤ x ∧ x < a.toNat + size.toNat then some type
          else p.tryToEnsureTwoBookkeepingNodes.typeAt x) ∧
    (p.tryToEnsureTwoBookkeepingNodes.findAllocatable size alignment (minAddr.getD p.defaultMinAddr)
        (maxAddr.getD p.defaultMaxAddr) = none →
      ∀ b, ¬Fits size.toNat alignment.toNat (minAddr.getD p.defaultMinAddr).toNat
        (maxAddr.getD p.defaultMaxAddr).toNat p.tryToEnsureTwoBookkeepingNodes.ranges b) := by
  obtain ⟨ht', -, -⟩ := (hp.tidy hnodup).tryToEnsure hfree
  have hfirst := findAllocatable_isFirst ht' halign hsize hle
  simp only [allocate]
  generalize p.tryToEnsureTwoBookkeepingNodes = p' at ht' hfirst ⊢
  refine ⟨fun a q h ↦ ?_, fun h b hb ↦ ?_⟩
  · cases hfind : p'.findAllocatable size alignment (minAddr.getD p.defaultMinAddr)
        (maxAddr.getD p.defaultMaxAddr) with
    | none => simp [hfind] at h
    | some a' =>
      rw [hfind] at h hfirst
      cases hins : p'.insertSubrange ⟨a', size, type⟩ none with
      | mk it p₂ =>
        cases it with
        | none => simp [hins] at h
        | some it =>
          simp only [hins, Prod.mk.injEq, Option.some.injEq] at h
          obtain ⟨rfl, rfl⟩ := h
          -- the least fit lies in a free node, which `InsertSubrange` finds
          have hleast : IsLeast _ a'.toNat := hfirst
          obtain ⟨n, hn, -, -, -, -, hlo, hhi⟩ := hleast.1
          have hsub : n.lo ≤ (⟨a', size, type⟩ : Range).lo ∧ (⟨a', size, type⟩ : Range).hi ≤ n.hi :=
            ⟨hlo, hhi⟩
          have hcur : p'.node? ((none : Option Iter).getD (p'.findContainingRange
              (⟨a', size, type⟩ : Range).addr (⟨a', size, type⟩ : Range).size)) = some n := by
            rw [Option.getD_none, ht'.findContainingRange hn hsize hsub, ht'.node?_ptr hn]
          obtain ⟨ht₂, htype₂⟩ := insertSubrange_typeAt ht' hcur hsub hsize hins
          obtain ⟨-, htype₃⟩ := ht₂.coalesce it
          refine ⟨hleast, fun x ↦ ?_⟩
          rw [htype₃, htype₂]
          rfl
  · rw [h] at hfirst
    exact (Set.eq_empty_iff_forall_notMem.mp hfirst) b hb

/-- A pool with one chunk of bookkeeping, which holds its four nodes, and free
RAM after it. -/
def bookkeepingThenRam : Pool where
  ranges := [⟨⟨0x1000, 0x1000, poolBookkeeping⟩, 0x1000⟩, ⟨⟨0x2000, 0x10000, freeRam⟩, 0x1028⟩]
  unused := [0x1050, 0x1078]
  numRanges := 2
  defaultMinAddr := 0
  defaultMaxAddr := kMax
  carved := [0x1000, 0x1028, 0x1050, 0x1078]

theorem allocate_firstFit_bookkeepingThenRam :
    PoolInvariant bookkeepingThenRam ∧ bookkeepingThenRam.nodes.Nodup ∧
      (∀ k ∈ bookkeepingThenRam.nodes, bookkeepingThenRam.typeAt k ≠ some freeRam) ∧
      0 < (0x3000 : UInt64).toNat ∧ (0x1000 : UInt64).toNat = 2 ^ 12 ∧
      (none : Option UInt64).getD bookkeepingThenRam.defaultMinAddr ≤
        (none : Option UInt64).getD bookkeepingThenRam.defaultMaxAddr ∧
      (bookkeepingThenRam.allocate kernel 0x3000 0x1000 none none).1 = some 0x2000 ∧
      ((∀ a q, bookkeepingThenRam.allocate kernel 0x3000 0x1000 none none = (some a, q) →
        IsLeast {b | Fits (0x3000 : UInt64).toNat (0x1000 : UInt64).toNat
            ((none : Option UInt64).getD bookkeepingThenRam.defaultMinAddr).toNat
            ((none : Option UInt64).getD bookkeepingThenRam.defaultMaxAddr).toNat
            bookkeepingThenRam.tryToEnsureTwoBookkeepingNodes.ranges b} a.toNat ∧
          ∀ x, q.typeAt x = if a.toNat ≤ x ∧ x < a.toNat + (0x3000 : UInt64).toNat then some kernel
            else bookkeepingThenRam.tryToEnsureTwoBookkeepingNodes.typeAt x) ∧
      (bookkeepingThenRam.tryToEnsureTwoBookkeepingNodes.findAllocatable 0x3000 0x1000
          ((none : Option UInt64).getD bookkeepingThenRam.defaultMinAddr)
          ((none : Option UInt64).getD bookkeepingThenRam.defaultMaxAddr) = none →
        ∀ b, ¬Fits (0x3000 : UInt64).toNat (0x1000 : UInt64).toNat
          ((none : Option UInt64).getD bookkeepingThenRam.defaultMinAddr).toNat
          ((none : Option UInt64).getD bookkeepingThenRam.defaultMaxAddr).toNat
          bookkeepingThenRam.tryToEnsureTwoBookkeepingNodes.ranges b)) :=
  ⟨by decide, by decide, by decide, by decide, by decide, by decide, by decide,
    allocate_firstFit (k := 12) (by decide) (by decide) (by decide) (by decide) (by decide)
      (by decide)⟩

end Pool

end Zircon.Memalloc
