import Zircon.Lib.StdAlgorithm

/-!
# Building the energy model of a power domain

`EnergyModel::Create` (lib/power-management/energy-model.cc) validates the
power levels and transitions handed to `zx_system_set_processor_power_domain`,
tags every level with its original index, sorts the levels by
`(processing_rate, power_coefficient_nw)`, fills the transition matrix through
a lookup table, and builds a second lookup table sorted by
`(control_interface, control_argument)` for `FindPowerLevel`.

Both sorts are `std::sort`, so the model takes the sorting routine as a
parameter constrained by `Zircon.Lib.SortsBy`.  The values of the
`ZX_PROCESSOR_POWER_CONTROL_*` enumerators live in the syscall headers outside
this tree; `IsSupportedControlInterface` is modelled as membership in a list of
interface values given as a parameter.

The transition matrix is placed through `power_levels_lookup`, which maps a
sorted position to an original index, but is indexed by an original index.
The `ZX_ASSERT` that double-checks the translation therefore fails as soon as
the sorting permutation is not its own inverse.
-/

namespace Zircon.PowerManagement

open Zircon.Lib

/-- `zx_processor_power_level_t`, without its diagnostic name. -/
structure ZxProcessorPowerLevel where
  options : ℕ
  processingRate : ℕ
  powerCoefficientNw : ℕ
  controlInterface : ℕ
  controlArgument : ℕ
  deriving DecidableEq, Repr

/-- `zx_processor_power_level_transition_t`. -/
structure ZxProcessorPowerLevelTransition where
  latency : ℤ
  energyNj : ℕ
  fromLevel : ℕ
  toLevel : ℕ
  deriving DecidableEq, Repr

/-- `PowerLevel`: an input level together with its original index `level()`. -/
structure PowerLevel where
  options : ℕ
  control : ℕ
  controlArgument : ℕ
  processingRate : ℕ
  powerCoefficientNw : ℕ
  level : UInt8
  deriving DecidableEq, Repr, Inhabited

/-- `PowerLevel(level_index, level)`. -/
def PowerLevel.ofLevel (levelIndex : UInt8) (level : ZxProcessorPowerLevel) : PowerLevel where
  options := level.options
  control := level.controlInterface
  controlArgument := level.controlArgument
  processingRate := level.processingRate
  powerCoefficientNw := level.powerCoefficientNw
  level := levelIndex

/-- `PowerLevel::Type`. -/
inductive PowerLevelType
  | idle
  | active
  deriving DecidableEq, Repr

/-- `PowerLevel::type()`: a level with no processing rate is idle. -/
def PowerLevel.type (p : PowerLevel) : PowerLevelType :=
  if p.processingRate = 0 then .idle else .active

/-- `PowerLevelTransition`. -/
structure PowerLevelTransition where
  latency : ℤ
  energyCostNj : ℕ
  deriving DecidableEq, Repr

/-- `ZX_TIME_INFINITE`, the largest `zx_duration_t`. -/
def zxTimeInfinite : ℤ := 2 ^ 63 - 1

/-- `PowerLevelTransition::Invalid()`. -/
def PowerLevelTransition.invalid : PowerLevelTransition := ⟨zxTimeInfinite, 2 ^ 64 - 1⟩

/-- `PowerLevelTransition::Zero()`. -/
def PowerLevelTransition.zero : PowerLevelTransition := ⟨0, 0⟩

/-- `PowerLevelTransition(transition)`. -/
def PowerLevelTransition.ofTransition (t : ZxProcessorPowerLevelTransition) :
    PowerLevelTransition :=
  ⟨t.latency, t.energyNj⟩

/-- The fields of `EnergyModel`. -/
structure EnergyModel where
  powerLevels : List PowerLevel
  transitions : List PowerLevelTransition
  controlLookup : List ℕ
  idlePowerLevels : ℕ
  deriving DecidableEq, Repr

/-- How `EnergyModel::Create` ends other than with a model: `ZX_ERR_INVALID_ARGS`,
or a failed `ZX_ASSERT` (a kernel panic). -/
inductive CreateError
  | invalidArgs
  | assertionFailure
  deriving DecidableEq, Repr

/-- `kSupportedControlInterfaces`, at the values of the
`ZX_PROCESSOR_POWER_CONTROL_*` enumerators: `kArmPsci`, `kArmWfi`,
`kRiscvSbi`, `kRiscvWfi`, `kCpuDriver`. -/
def kSupportedControlInterfaces : List ℕ := [1, 2, 3, 4, 0]

/-- The comparator of both `(processing_rate, power_coefficient_nw)` sorts. -/
def levelLess (a b : PowerLevel) : Bool :=
  if a.processingRate = b.processingRate then a.powerCoefficientNw < b.powerCoefficientNw
  else a.processingRate < b.processingRate

/-- The comparator of the `(control_interface, control_argument)` sort. -/
def controlLess (a b : PowerLevel) : Bool :=
  if a.control = b.control then a.controlArgument < b.controlArgument
  else a.control < b.control

variable (sort : SortFn) (supportedInterfaces : List ℕ)

/-- The validation at the top of `EnergyModel::Create`: at least one level, at
most `n * n` transitions, every transition between existing levels, and every
level with a supported control interface. -/
def createArgsValid (levels : List ZxProcessorPowerLevel)
    (transitions : List ZxProcessorPowerLevelTransition) : Bool :=
  decide (1 ≤ levels.length) && decide (transitions.length ≤ levels.length * levels.length) &&
    transitions.all (fun t ↦ decide (t.fromLevel < levels.length) &&
      decide (t.toLevel < levels.length)) &&
    levels.all (fun level ↦ decide (level.controlInterface ∈ supportedInterfaces))

/-- The levels in input order, each tagged with `static_cast<uint8_t>(i)`. -/
def taggedLevels (levels : List ZxProcessorPowerLevel) : List PowerLevel :=
  levels.zipIdx.map fun entry ↦ PowerLevel.ofLevel (UInt8.ofNat entry.2) entry.1

/-- One iteration of the loop filling the transition matrix, with its two
`ZX_ASSERT`s on the translated indices. -/
def placeTransition (lookup : List ℕ) (powerLevels : List PowerLevel)
    (matrix : List PowerLevelTransition) (t : ZxProcessorPowerLevelTransition) :
    Except CreateError (List PowerLevelTransition) :=
  let i := lookup.getD t.fromLevel 0
  let j := lookup.getD t.toLevel 0
  if (powerLevels.getD i default).level.toNat ≠ t.fromLevel then .error .assertionFailure
  else if (powerLevels.getD j default).level.toNat ≠ t.toLevel then .error .assertionFailure
  else .ok (matrix.set (i * powerLevels.length + j) (.ofTransition t))

/-- `EnergyModel::Create(levels, transitions)`, with allocations that succeed. -/
def create (levels : List ZxProcessorPowerLevel)
    (transitions : List ZxProcessorPowerLevelTransition) : Except CreateError EnergyModel := do
  if !createArgsValid supportedInterfaces levels transitions then throw .invalidArgs
  let tagged := taggedLevels levels
  let idle := (tagged.filter fun p ↦ p.type = .idle).length
  let lookup := sort (fun a b ↦ levelLess (tagged.getD a default) (tagged.getD b default))
    (List.range levels.length)
  let powerLevels := sort levelLess tagged
  let defaultValue := if transitions.isEmpty then PowerLevelTransition.zero
    else PowerLevelTransition.invalid
  let matrix ← transitions.foldlM (placeTransition lookup powerLevels)
    (List.replicate (levels.length * levels.length) defaultValue)
  let controlLookup := sort
    (fun a b ↦ controlLess (powerLevels.getD a default) (powerLevels.getD b default))
    (List.range levels.length)
  return ⟨powerLevels, matrix, controlLookup, idle⟩

/-- `EnergyModel::FindPowerLevel(interface_id, control_argument)`: a
`std::lower_bound` over `control_lookup_` followed by an equality check. -/
def EnergyModel.findPowerLevel (m : EnergyModel) (interfaceId controlArgument : ℕ) :
    Option UInt8 :=
  let below := fun i ↦
    let a := m.powerLevels.getD i default
    decide (a.control < interfaceId) ||
      (decide (a.control = interfaceId) && decide (a.controlArgument < controlArgument))
  match m.controlLookup[lowerBound below m.controlLookup]? with
  | some k =>
    let a := m.powerLevels.getD k default
    if a.control = interfaceId ∧ a.controlArgument = controlArgument then some (UInt8.ofNat k)
    else none
  | none => none

/-! ## The sort keys -/

/-- The key of the `(processing_rate, power_coefficient_nw)` order. -/
def PowerLevel.rateKey (p : PowerLevel) : ℕ ×ₗ ℕ :=
  toLex (p.processingRate, p.powerCoefficientNw)

theorem levelLess_eq_rateKey : levelLess = fun a b ↦ decide (a.rateKey < b.rateKey) := by
  funext a b
  simp only [levelLess, PowerLevel.rateKey, Prod.Lex.toLex_lt_toLex]
  split_ifs with h <;> simp [h]

theorem isStrictWeakOrder_levelLess {α : Type} (f : α → PowerLevel) :
    IsStrictWeakOrder α (fun a b ↦ levelLess (f a) (f b) = true) := by
  rw [levelLess_eq_rateKey]
  exact isStrictWeakOrder_of_key fun a ↦ (f a).rateKey

/-! ## What `Create` returns -/

theorem create_eq_ok {levels : List ZxProcessorPowerLevel}
    {transitions : List ZxProcessorPowerLevelTransition} {m : EnergyModel}
    (h : create sort supportedInterfaces levels transitions = .ok m) :
    createArgsValid supportedInterfaces levels transitions = true ∧
      m.powerLevels = sort levelLess (taggedLevels levels) ∧
      m.idlePowerLevels = ((taggedLevels levels).filter fun p ↦ p.type = .idle).length := by
  unfold create at h
  cases hvalid : createArgsValid supportedInterfaces levels transitions
  · simp only [hvalid, Bool.not_false, if_true] at h
    cases h
  · simp only [hvalid, Bool.not_true, Bool.false_eq_true, if_false] at h
    cases hfold : transitions.foldlM (placeTransition _ _) _ with
    | error e =>
        rw [hfold] at h
        cases h
    | ok matrix =>
        rw [hfold] at h
        cases h
        exact ⟨rfl, rfl, rfl⟩

/-- Three levels on control interface 1 whose rates `2, 0, 1` are put in
order by a rotation of the indices. -/
def rotatedRates : List ZxProcessorPowerLevel :=
  [⟨0, 2, 0, 1, 0⟩, ⟨0, 0, 0, 1, 1⟩, ⟨0, 1, 0, 1, 2⟩]

/-- The transition from level 0 to itself. -/
def selfTransition : ZxProcessorPowerLevelTransition := ⟨0, 0, 0, 0⟩

/-- Whatever order `std::sort` produces, `Create` panics on `rotatedRates`:
`power_levels_lookup` is `[1, 2, 0]`, so the transition from level 0 is placed
at sorted position `lookup[0] = 1`, which holds original level 2, and the
`ZX_ASSERT(power_levels[i].level() == transition.from)` fails. -/
theorem create_rotatedRates_assertionFailure {sort : SortFn} (hsort : SortsBy sort)
    (hc : 1 ∈ supportedInterfaces) :
    create sort supportedInterfaces rotatedRates [selfTransition] =
      .error .assertionFailure := by
  have hvalid : createArgsValid supportedInterfaces rotatedRates [selfTransition] = true := by
    simp [createArgsValid, rotatedRates, selfTransition, hc]
  have hlookup : sort (fun a b ↦ levelLess ((taggedLevels rotatedRates).getD a default)
      ((taggedLevels rotatedRates).getD b default)) (List.range 3) = [1, 2, 0] :=
    sortsBy_eq hsort _ (isStrictWeakOrder_levelLess _) (by decide)
  have hlevels : sort levelLess (taggedLevels rotatedRates) =
      [⟨0, 1, 1, 0, 0, 1⟩, ⟨0, 1, 2, 1, 0, 2⟩, ⟨0, 1, 0, 2, 0, 0⟩] :=
    sortsBy_eq hsort _ (isStrictWeakOrder_levelLess id) (by decide)
  have hlength : rotatedRates.length = 3 := rfl
  simp only [create, hvalid, Bool.not_true, hlength, hlookup, hlevels]
  rfl

theorem create_rotatedRates_insertionSort :
    SortsBy insertionSortBy ∧ 1 ∈ kSupportedControlInterfaces ∧
      create insertionSortBy kSupportedControlInterfaces rotatedRates [selfTransition] =
        .error .assertionFailure :=
  ⟨sortsBy_insertionSortBy, by decide,
    create_rotatedRates_assertionFailure kSupportedControlInterfaces sortsBy_insertionSortBy
      (by decide)⟩

/-- The model `Create` makes of `rotatedRates` with no transitions. -/
def rotatedRatesModel : EnergyModel :=
  ⟨[⟨0, 1, 1, 0, 0, 1⟩, ⟨0, 1, 2, 1, 0, 2⟩, ⟨0, 1, 0, 2, 0, 0⟩], List.replicate 9 .zero, [2, 0, 1], 1⟩

end Zircon.PowerManagement
