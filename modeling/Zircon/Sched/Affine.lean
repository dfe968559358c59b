import Mathlib

/-!
# Affine maps between the monotonic and the variable timeline

`sched::Affine<PrecisionBits>` (lib/sched/affine.h) converts monotonic time to
the variable timeline of variable-bandwidth scheduling and back: a monotonic
delta from the reference time is shifted right by the precision and scaled by
the slope, a variable delta is divided by the slope and shifted left.  A slope
is an `ffl::Fixed<int64_t, PrecisionBits>`, kept here as its raw value, so the
slope 1 is `2 ^ PrecisionBits` and the least slope is 1.

`ffl::Fixed` lives outside this tree.  Its division of a `Time` by an integer
is taken to be a `Rounding` of the exact quotient: any monotone map to an
integer less than one unit away, which covers truncation, flooring and every
round-to-nearest.  Times are integers; overflow of `int64_t` is left out, so
every statement holds for the inputs where no intermediate overflows.

The round trip through both conversions loses less than one precision unit
(`roundTrip_error`), a change of slope keeps the variable time of the moment
it is made (`monotonicToVariable_changeSlope`), and the forward conversion is
monotone (`monotone_monotonicToVariable`).
-/

namespace Zircon.Sched

/-- A rounding of rationals to integers: monotone, and less than one away. -/
structure Rounding where
  round : ℚ → ℤ
  mono : Monotone round
  near : ∀ x, |(round x : ℚ) - x| < 1

namespace Rounding

variable (r : Rounding)

theorem round_intCast (n : ℤ) : r.round n = n := by
  have h := r.near n
  rw [abs_lt] at h
  have hlo : ((n - 1 : ℤ) : ℚ) < r.round n := by push_cast; linarith [h.1]
  have hhi : (r.round n : ℚ) < ((n + 1 : ℤ) : ℚ) := by push_cast; linarith [h.2]
  have hlo' : n - 1 < r.round n := by exact_mod_cast hlo
  have hhi' : r.round n < n + 1 := by exact_mod_cast hhi
  omega

theorem round_mul_div {q s : ℤ} (hs : s ≠ 0) : r.round ((q * s : ℤ) / (s : ℚ)) = q := by
  have hq : ((q * s : ℤ) : ℚ) / (s : ℚ) = (q : ℚ) := by
    push_cast
    field_simp
  rw [hq, round_intCast]

theorem abs_round_div_mul_sub_lt {x k : ℤ} (hk : 0 < k) :
    |r.round ((x : ℚ) / k) * k - x| < k := by
  have hkq : (0 : ℚ) < k := by exact_mod_cast hk
  have hfac : ((r.round ((x : ℚ) / k) * k - x : ℤ) : ℚ) =
      ((r.round ((x : ℚ) / k) : ℚ) - x / k) * k := by
    push_cast
    field_simp
  have herr : |((r.round ((x : ℚ) / k) * k - x : ℤ) : ℚ)| < (k : ℚ) := by
    rw [hfac, abs_mul, abs_of_pos hkq]
    exact mul_lt_of_lt_one_left hkq (r.near _)
  exact_mod_cast herr

/-- Rounding half up. -/
def halfUp : Rounding where
  round x := ⌊x + 1 / 2⌋
  mono _ _ hxy := Int.floor_mono (by linarith)
  near x := by
    have h₁ := Int.floor_le (x + 1 / 2)
    have h₂ := Int.lt_floor_add_one (x + 1 / 2)
    rw [abs_lt]
    constructor <;> linarith

end Rounding

/-- `sched::Affine`: the two reference times and the raw value of the slope. -/
structure Affine where
  monotonicReferenceTime : ℤ
  variableReferenceTime : ℤ
  slope : ℤ
  deriving DecidableEq, Repr

variable (precisionBits : ℕ) (r : Rounding)

/-- `kPrecision`, `Slope::Format::Power`. -/
def kPrecision : ℤ := 2 ^ precisionBits

/-- The raw value of `kMaxSlope`, `Slope{1}`. -/
def kMaxSlope : ℤ := 2 ^ precisionBits

/-- The raw value of `kMinSlope`, `Slope::Epsilon()`. -/
def kMinSlope : ℤ := 1

namespace Affine

/-- `Affine()`: both timelines identical. -/
def init : Affine :=
  ⟨0, 0, kMaxSlope precisionBits⟩

/-- `Multiply`. -/
def multiply (a : Affine) (delta : ℤ) : ℤ :=
  if a.slope ≠ kMaxSlope precisionBits then
    -- arithmetic right shift, then the scale
    r.round ((delta : ℚ) / kPrecision precisionBits) * a.slope
  else delta

/-- `Divide`. -/
def divide (a : Affine) (delta : ℤ) : ℤ :=
  if a.slope ≠ kMaxSlope precisionBits then
    r.round ((delta : ℚ) / a.slope) * kPrecision precisionBits
  else delta

/-- `MonotonicToVariable`. -/
def monotonicToVariable (a : Affine) (monotonic : ℤ) : ℤ :=
  a.multiply precisionBits r (monotonic - a.monotonicReferenceTime) + a.variableReferenceTime

/-- `VariableToMonotonic`. -/
def variableToMonotonic (a : Affine) (variableTime : ℤ) : ℤ :=
  a.divide precisionBits r (variableTime - a.variableReferenceTime) + a.monotonicReferenceTime

/-- `ChangeSlopeAtMonotonicTime`; its `ZX_DEBUG_ASSERT` on the slope is a
precondition of the statements below. -/
def changeSlopeAtMonotonicTime (a : Affine) (monotonic slope : ℤ) : Affine :=
  ⟨monotonic, a.monotonicToVariable precisionBits r monotonic, slope⟩

/-- The affine map after a sequence of slope changes `(monotonic, slope)` from
`Affine()`. -/
def build (calls : List (ℤ × ℤ)) : Affine :=
  calls.foldl (fun a c ↦ a.changeSlopeAtMonotonicTime precisionBits r c.1 c.2) (init precisionBits)

/-- The slope lies in `[kMinSlope, kMaxSlope]`. -/
def SlopeInRange (a : Affine) : Prop :=
  kMinSlope ≤ a.slope ∧ a.slope ≤ kMaxSlope precisionBits

variable {precisionBits}

theorem kPrecision_pos : 0 < kPrecision precisionBits := by
  unfold kPrecision
  positivity

theorem slopeInRange_build :
    ∀ (calls : List (ℤ × ℤ)) (a : Affine), a.SlopeInRange precisionBits →
      (∀ c ∈ calls, kMinSlope ≤ c.2 ∧ c.2 ≤ kMaxSlope precisionBits) →
      (calls.foldl (fun a c ↦ a.changeSlopeAtMonotonicTime precisionBits r c.1 c.2) a).SlopeInRange
        precisionBits
  | [], _, ha, _ => ha
  | c :: rest, _, _, hc =>
    slopeInRange_build rest _ (hc c (List.mem_cons_self ..))
      fun c' hc' ↦ hc c' (List.mem_cons_of_mem _ hc')

theorem multiply_zero (a : Affine) : a.multiply precisionBits r 0 = 0 := by
  unfold multiply
  split_ifs
  · have h0 := r.round_intCast 0
    simp only [Int.cast_zero, zero_div] at h0 ⊢
    rw [h0, zero_mul]
  · rfl

theorem monotonicToVariable_changeSlope (a : Affine) (monotonic slope : ℤ) :
    (a.changeSlopeAtMonotonicTime precisionBits r monotonic slope).monotonicToVariable
        precisionBits r monotonic =
      a.monotonicToVariable precisionBits r monotonic := by
  show (a.changeSlopeAtMonotonicTime precisionBits r monotonic slope).multiply precisionBits r
      (monotonic - monotonic) + a.monotonicToVariable precisionBits r monotonic = _
  rw [sub_self, multiply_zero, zero_add]

theorem slope_pos {a : Affine} (ha : a.SlopeInRange precisionBits) : 0 < a.slope := by
  have := ha.1
  unfold kMinSlope at this
  omega

theorem divide_multiply {a : Affine} (ha : a.SlopeInRange precisionBits) (delta : ℤ) :
    a.divide precisionBits r (a.multiply precisionBits r delta) =
      if a.slope ≠ kMaxSlope precisionBits then
        r.round ((delta : ℚ) / kPrecision precisionBits) * kPrecision precisionBits
      else delta := by
  unfold divide multiply
  split_ifs
  · rw [r.round_mul_div (slope_pos ha).ne']
  · rfl

theorem roundTrip_error {a : Affine} (ha : a.SlopeInRange precisionBits) (monotonic : ℤ) :
    |a.variableToMonotonic precisionBits r (a.monotonicToVariable precisionBits r monotonic) -
        monotonic| < 2 ^ precisionBits := by
  have hround : a.variableToMonotonic precisionBits r
      (a.monotonicToVariable precisionBits r monotonic) - monotonic =
      a.divide precisionBits r (a.multiply precisionBits r (monotonic - a.monotonicReferenceTime)) -
        (monotonic - a.monotonicReferenceTime) := by
    unfold variableToMonotonic monotonicToVariable
    rw [add_sub_cancel_right]
    ring
  rw [hround, divide_multiply r ha]
  split_ifs
  · -- only the shift right loses anything
    exact r.abs_round_div_mul_sub_lt kPrecision_pos
  · -- the slope 1: both conversions are exact
    rw [sub_self, abs_zero]
    positivity

theorem monotone_monotonicToVariable {a : Affine} (ha : a.SlopeInRange precisionBits) :
    Monotone (a.monotonicToVariable precisionBits r) := by
  intro m₁ m₂ hm
  unfold monotonicToVariable multiply
  split_ifs
  · have hslope : 0 ≤ a.slope := (slope_pos ha).le
    have hkp : (0 : ℚ) < kPrecision precisionBits := by exact_mod_cast kPrecision_pos
    have hdiv : ((m₁ - a.monotonicReferenceTime : ℤ) : ℚ) / kPrecision precisionBits ≤
        ((m₂ - a.monotonicReferenceTime : ℤ) : ℚ) / kPrecision precisionBits := by
      apply div_le_div_of_nonneg_right _ hkp.le
      exact_mod_cast sub_le_sub_right hm _
    have hround := r.mono hdiv
    have hmul := mul_le_mul_of_nonneg_right hround hslope
    omega
  · omega

/-- Any `Affine<P>` built by slope changes in `[kMinSlope, kMaxSlope]`: every
change keeps the variable time of its moment, the conversion there and back
misses by less than `2 ^ P` from the reference time on, and the forward
conversion is nondecreasing. -/
theorem affine_conversion_properties (calls : List (ℤ × ℤ))
    (hslope : ∀ c ∈ calls, kMinSlope ≤ c.2 ∧ c.2 ≤ kMaxSlope precisionBits) :
    (∀ (a : Affine) (monotonic slope : ℤ),
      (a.changeSlopeAtMonotonicTime precisionBits r monotonic slope).monotonicToVariable
          precisionBits r monotonic =
        a.monotonicToVariable precisionBits r monotonic) ∧
      (∀ monotonic, (build precisionBits r calls).monotonicReferenceTime ≤ monotonic →
        |(build precisionBits r calls).variableToMonotonic precisionBits r
            ((build precisionBits r calls).monotonicToVariable precisionBits r monotonic) -
          monotonic| ≤ 2 ^ precisionBits) ∧
      Monotone ((build precisionBits r calls).monotonicToVariable precisionBits r) := by
  have hinit : (init precisionBits).SlopeInRange precisionBits := by
    refine ⟨?_, le_rfl⟩
    unfold kMinSlope init kMaxSlope
    dsimp only
    have : (1 : ℤ) ≤ 2 ^ precisionBits := one_le_pow₀ (by norm_num)
    exact this
  have hbuild := slopeInRange_build r calls _ hinit hslope
  refine ⟨monotonicToVariable_changeSlope r, ?_, monotone_monotonicToVariable r hbuild⟩
  intro monotonic _
  exact (roundTrip_error r hbuild monotonic).le

theorem affine_conversion_properties_halfUp :
    (∀ c ∈ [((5 : ℤ), (3 : ℤ))], kMinSlope ≤ c.2 ∧ c.2 ≤ kMaxSlope 10) ∧
      ((∀ (a : Affine) (monotonic slope : ℤ),
        (a.changeSlopeAtMonotonicTime 10 Rounding.halfUp monotonic slope).monotonicToVariable 10
            Rounding.halfUp monotonic =
          a.monotonicToVariable 10 Rounding.halfUp monotonic) ∧
        (∀ monotonic, (build 10 Rounding.halfUp [(5, 3)]).monotonicReferenceTime ≤ monotonic →
          |(build 10 Rounding.halfUp [(5, 3)]).variableToMonotonic 10 Rounding.halfUp
              ((build 10 Rounding.halfUp [(5, 3)]).monotonicToVariable 10 Rounding.halfUp
                monotonic) - monotonic| ≤ 2 ^ 10) ∧
        Monotone ((build 10 Rounding.halfUp [(5, 3)]).monotonicToVariable 10 Rounding.halfUp)) := by
  have hc : ∀ c ∈ [((5 : ℤ), (3 : ℤ))], kMinSlope ≤ c.2 ∧ c.2 ≤ kMaxSlope 10 := by
    intro c hc
    rw [List.mem_singleton] at hc
    subst hc
    unfold kMinSlope kMaxSlope
    norm_num
  exact ⟨hc, affine_conversion_properties Rounding.halfUp [(5, 3)] hc⟩

end Affine

end Zircon.Sched
