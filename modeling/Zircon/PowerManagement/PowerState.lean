import Mathlib
import Zircon.Types
import Zircon.PowerManagement.EnergyModel

/-!
# The power state of a processor

`PowerState` (lib/power-management/power-state.cc) records the power domain a
processor belongs to, the active power level the processor is in and the one
it has asked for, and the processor's utilization, which it also adds to the
domain's atomic `total_normalized_utilization_`.

A `PowerDomain` is a reference-counted object, and two of them may carry one
id: `zx_system_set_processor_power_domain` registers a domain id again with a
new energy model.  A domain object is named here by a handle into the table
`domains`, which never changes, and the mutable totals of the objects are a
function `totals` of the handle.  The processors of a run are `0, ..., n - 1`.

`SetOrUpdateDomain` keeps both levels whenever the new domain has the old
one's id, whatever the new model's levels are.  The totals are kept exactly
(`utilizationAccounted_run`), and the levels stay in range as long as domains
of one id agree on their level bounds (`levelsInRange_run`); without that the
active level of a processor can index past the end of `levels()`
(`setOrUpdateDomain_sameId_keeps_stale_level`).
-/

namespace Zircon.PowerManagement

open Zircon.Lib

/-- `PowerDomain`, without its cpu set and its controller. -/
structure PowerDomain where
  id : ℕ
  model : EnergyModel
  deriving DecidableEq, Repr

/-- `PowerState`; `domain` is the handle of the domain object it refers to. -/
structure PowerState where
  domain : Option ℕ
  activePowerLevel : Option UInt8
  desiredActivePowerLevel : Option UInt8
  normalizedUtilization : ℤ
  deriving DecidableEq, Repr

/-- `PowerState()`. -/
def PowerState.init : PowerState :=
  ⟨none, none, none, 0⟩

/-- `ZX_PROCESSOR_POWER_LEVEL_OPTIONS_DOMAIN_INDEPENDENT`, bit 0 of the level
options in `zircon/syscalls-next.h`. -/
def kDomainIndependent : ℕ := 1

/-- `PowerLevel::TargetsCpus`. -/
def PowerLevel.targetsCpus (p : PowerLevel) : Bool :=
  p.options &&& kDomainIndependent ≠ 0

/-- `PowerLevelUpdateRequest`. -/
structure PowerLevelUpdateRequest where
  domainId : ℕ
  targetId : ℕ
  control : ℕ
  controlArgument : ℕ
  options : ℕ
  deriving DecidableEq, Repr

/-- A level of `[idle_levels().size(), levels().size())` of a model. -/
def ValidFor (m : EnergyModel) (level : UInt8) : Prop :=
  m.idlePowerLevels ≤ level.toNat ∧ level.toNat < m.powerLevels.length

instance (m : EnergyModel) (level : UInt8) : Decidable (ValidFor m level) :=
  inferInstanceAs (Decidable (_ ∧ _))

variable (domains : ℕ → PowerDomain)

namespace PowerState

/-- `IsValidActivePowerLevel`. -/
def isValidActivePowerLevel (s : PowerState) (powerLevel : UInt8) : Bool :=
  match s.domain with
  | some d => decide (ValidFor (domains d).model powerLevel)
  | none => false

/-- `active_power_coefficient_nw()`; `none` where `levels()[*active_power_level_]`
reads past the end of the levels. -/
def activePowerCoefficientNw (s : PowerState) : Option ℕ :=
  match s.domain, s.activePowerLevel with
  | some d, some level => ((domains d).model.powerLevels[level.toNat]?).map (·.powerCoefficientNw)
  | _, _ => some 0

/-- `active_processing_rate()`, read the same way. -/
def activeProcessingRate (s : PowerState) : Option ℕ :=
  match s.domain, s.activePowerLevel with
  | some d, some level => ((domains d).model.powerLevels[level.toNat]?).map (·.processingRate)
  | _, _ => some 0

/-- What `SetOrUpdateDomain` does to the totals and to the state. -/
def setOrUpdateDomain (totals : ℕ → ℤ) (s : PowerState) (domain : Option ℕ) :
    (ℕ → ℤ) × PowerState :=
  let totals := match s.domain with
    | some cur => Function.update totals cur (totals cur - s.normalizedUtilization)
    | none => totals
  let totals := match domain with
    | some d => Function.update totals d (totals d + s.normalizedUtilization)
    | none => totals
  -- `!domain || (domain_ && domain->id() != domain_->id())`
  let clear := match domain, s.domain with
    | some d, some cur => decide ((domains d).id ≠ (domains cur).id)
    | some _, none => false
    | none, _ => true
  if clear then (totals, ⟨domain, none, none, s.normalizedUtilization⟩)
  else (totals, { s with domain := domain })

/-- `RequestTransition`; a failing `ZX_ASSERT` leaves the state as it was. -/
def requestTransition (s : PowerState) (cpuNum : ℕ) (activePowerLevel : UInt8) :
    Option PowerLevelUpdateRequest × PowerState :=
  match s.domain with
  | none => (none, s)
  | some d =>
    if s.activePowerLevel = none then (none, s)
    else if ¬ValidFor (domains d).model activePowerLevel then (none, s)
    else
      let s := { s with desiredActivePowerLevel := some activePowerLevel }
      if s.desiredActivePowerLevel = s.activePowerLevel then (none, s)
      else
        let level := (domains d).model.powerLevels.getD activePowerLevel.toNat default
        let transition : PowerLevelUpdateRequest :=
          ⟨(domains d).id, (domains d).id, level.control, level.controlArgument, 0⟩
        if level.targetsCpus then
          (some { transition with targetId := cpuNum,
                                  options := transition.options ||| kDomainIndependent }, s)
        else (some transition, s)

/-- `UpdateActivePowerLevel`. -/
def updateActivePowerLevel (s : PowerState) (level : UInt8) : ZxStatus × PowerState :=
  match s.domain with
  | none => (.errBadState, s)
  | some d =>
    if level.toNat < (domains d).model.idlePowerLevels ∨
        (domains d).model.powerLevels.length ≤ level.toNat then (.errOutOfRange, s)
    else (.ok, { s with activePowerLevel := some level })

/-- What `UpdateUtilization` does to the totals and to the state. -/
def updateUtilization (totals : ℕ → ℤ) (s : PowerState) (utilizationDelta : ℤ) :
    (ℕ → ℤ) × PowerState :=
  let totals := match s.domain with
    | some d => Function.update totals d (totals d + utilizationDelta)
    | none => totals
  (totals, { s with normalizedUtilization := s.normalizedUtilization + utilizationDelta })

end PowerState

/-! ### Runs of the processors of a system -/

/-- The totals of the domain objects and the power state of each processor. -/
structure PowerSystem where
  totals : ℕ → ℤ
  states : ℕ → PowerState

/-- A call on the power state of one processor. -/
inductive PowerEvent
  | setOrUpdateDomain (cpu : ℕ) (domain : Option ℕ)
  | updateActivePowerLevel (cpu : ℕ) (level : UInt8)
  | requestTransition (cpu : ℕ) (level : UInt8)
  | updateUtilization (cpu : ℕ) (delta : ℤ)
  deriving DecidableEq, Repr

namespace PowerEvent

/-- The processor an event is a call on. -/
def cpu : PowerEvent → ℕ
  | setOrUpdateDomain cpu _ => cpu
  | updateActivePowerLevel cpu _ => cpu
  | requestTransition cpu _ => cpu
  | updateUtilization cpu _ => cpu

end PowerEvent

namespace PowerSystem

/-- No domain set anywhere, and every total zero. -/
def init : PowerSystem :=
  ⟨fun _ ↦ 0, fun _ ↦ PowerState.init⟩

/-- One call. -/
def step (sys : PowerSystem) : PowerEvent → PowerSystem
  | .setOrUpdateDomain cpu d =>
    let r := (sys.states cpu).setOrUpdateDomain domains sys.totals d
    ⟨r.1, Function.update sys.states cpu r.2⟩
  | .updateActivePowerLevel cpu level =>
    ⟨sys.totals, Function.update sys.states cpu
      ((sys.states cpu).updateActivePowerLevel domains level).2⟩
  | .requestTransition cpu level =>
    ⟨sys.totals, Function.update sys.states cpu
      ((sys.states cpu).requestTransition domains cpu level).2⟩
  | .updateUtilization cpu delta =>
    let r := (sys.states cpu).updateUtilization sys.totals delta
    ⟨r.1, Function.update sys.states cpu r.2⟩

/-- The system after a sequence of calls from `init`. -/
def run (events : List PowerEvent) : PowerSystem :=
  events.foldl (step domains) init

end PowerSystem

/-! ### The totals of the domains -/

namespace PowerState

/-- What a state adds to the total of the domain object `d`. -/
def share (s : PowerState) (d : ℕ) : ℤ :=
  if s.domain = some d then s.normalizedUtilization else 0

@[simp]
theorem setOrUpdateDomain_domain (totals : ℕ → ℤ) (s : PowerState) (domain : Option ℕ) :
    (s.setOrUpdateDomain domains totals domain).2.domain = domain := by
  unfold setOrUpdateDomain
  dsimp only
  split_ifs <;> rfl

@[simp]
theorem setOrUpdateDomain_normalizedUtilization (totals : ℕ → ℤ) (s : PowerState)
    (domain : Option ℕ) :
    (s.setOrUpdateDomain domains totals domain).2.normalizedUtilization = s.normalizedUtilization := by
  unfold setOrUpdateDomain
  dsimp only
  split_ifs <;> rfl

theorem setOrUpdateDomain_share (totals : ℕ → ℤ) (s : PowerState) (domain : Option ℕ) (d : ℕ) :
    (s.setOrUpdateDomain domains totals domain).2.share d =
      if domain = some d then s.normalizedUtilization else 0 := by
  simp only [share, setOrUpdateDomain_domain, setOrUpdateDomain_normalizedUtilization]

theorem update_sub_apply (f : ℕ → ℤ) (c d : ℕ) (x : ℤ) :
    Function.update f c (f c - x) d = f d - if d = c then x else 0 := by
  rw [Function.update_apply]
  split_ifs with h
  · rw [h]
  · ring

theorem update_add_apply (f : ℕ → ℤ) (c d : ℕ) (x : ℤ) :
    Function.update f c (f c + x) d = f d + if d = c then x else 0 := by
  rw [Function.update_apply]
  split_ifs with h
  · rw [h]
  · ring

theorem setOrUpdateDomain_totals (totals : ℕ → ℤ) (s : PowerState) (domain : Option ℕ) (d : ℕ) :
    (s.setOrUpdateDomain domains totals domain).1 d =
      totals d - s.share d + (s.setOrUpdateDomain domains totals domain).2.share d := by
  rw [setOrUpdateDomain_share]
  unfold setOrUpdateDomain share
  dsimp only
  rw [apply_ite Prod.fst, ite_self]
  cases s.domain with
  | none =>
      cases domain with
      | none => simp
      | some e =>
          dsimp only
          rw [update_add_apply]
          simp only [reduceCtorEq, if_false, sub_zero, Option.some.injEq]
          split_ifs <;> omega
  | some c =>
      cases domain with
      | none =>
          dsimp only
          rw [update_sub_apply]
          simp only [reduceCtorEq, if_false, add_zero, Option.some.injEq]
          split_ifs <;> omega
      | some e =>
          dsimp only
          rw [update_add_apply, update_sub_apply]
          simp only [Option.some.injEq]
          split_ifs <;> omega

theorem updateUtilization_totals (totals : ℕ → ℤ) (s : PowerState) (delta : ℤ) (d : ℕ) :
    (s.updateUtilization totals delta).1 d =
      totals d - s.share d + (s.updateUtilization totals delta).2.share d := by
  unfold updateUtilization share
  cases s.domain with
  | none => simp
  | some c =>
      simp only [update_add_apply, Option.some.injEq]
      split_ifs <;> omega

theorem requestTransition_domain_utilization (s : PowerState) (cpuNum : ℕ) (level : UInt8) :
    (s.requestTransition domains cpuNum level).2.domain = s.domain ∧
      (s.requestTransition domains cpuNum level).2.normalizedUtilization =
        s.normalizedUtilization := by
  unfold requestTransition
  split
  · exact ⟨rfl, rfl⟩
  · dsimp only
    split_ifs <;> exact ⟨rfl, rfl⟩

theorem updateActivePowerLevel_domain_utilization (s : PowerState) (level : UInt8) :
    (s.updateActivePowerLevel domains level).2.domain = s.domain ∧
      (s.updateActivePowerLevel domains level).2.normalizedUtilization =
        s.normalizedUtilization := by
  unfold updateActivePowerLevel
  split
  · exact ⟨rfl, rfl⟩
  · split_ifs <;> exact ⟨rfl, rfl⟩

theorem share_requestTransition (s : PowerState) (cpuNum : ℕ) (level : UInt8) (d : ℕ) :
    (s.requestTransition domains cpuNum level).2.share d = s.share d := by
  obtain ⟨hd, hu⟩ := s.requestTransition_domain_utilization domains cpuNum level
  simp only [share, hd, hu]

theorem share_updateActivePowerLevel (s : PowerState) (level : UInt8) (d : ℕ) :
    (s.updateActivePowerLevel domains level).2.share d = s.share d := by
  obtain ⟨hd, hu⟩ := s.updateActivePowerLevel_domain_utilization domains level
  simp only [share, hd, hu]

end PowerState

/-- Each domain's total is what the processors that refer to it add up to. -/
def UtilizationAccounted (n : ℕ) (sys : PowerSystem) : Prop :=
  ∀ d, sys.totals d = ∑ cpu ∈ Finset.range n, (sys.states cpu).share d

theorem sum_share_update {n cpu : ℕ} (hcpu : cpu < n) (states : ℕ → PowerState)
    (s : PowerState) (d : ℕ) :
    ∑ j ∈ Finset.range n, (Function.update states cpu s j).share d =
      ∑ j ∈ Finset.range n, (states j).share d - (states cpu).share d + s.share d := by
  have hmem : cpu ∈ Finset.range n := Finset.mem_range.mpr hcpu
  have hupd : (fun j ↦ (Function.update states cpu s j).share d) =
      Function.update (fun j ↦ (states j).share d) cpu (s.share d) := by
    funext j
    rw [Function.apply_update (fun _ t ↦ PowerState.share t d)]
  rw [hupd, Finset.sum_update_of_mem hmem,
    Finset.sum_eq_add_sum_sdiff_singleton_of_mem hmem (fun j ↦ (states j).share d)]
  ring

namespace PowerSystem

variable {domains}

theorem utilizationAccounted_init (n : ℕ) : UtilizationAccounted n init := by
  intro d
  simp [init, PowerState.share, PowerState.init]

/-- Every call keeps the totals exact, whatever it returns. -/
theorem utilizationAccounted_step {n : ℕ} {sys : PowerSystem} (h : UtilizationAccounted n sys)
    {e : PowerEvent} (he : e.cpu < n) : UtilizationAccounted n (sys.step domains e) := by
  intro d
  cases e with
  | setOrUpdateDomain cpu dom =>
      dsimp only [step]
      rw [sum_share_update (show cpu < n from he), PowerState.setOrUpdateDomain_totals, h d]
  | updateActivePowerLevel cpu level =>
      dsimp only [step]
      rw [sum_share_update (show cpu < n from he), PowerState.share_updateActivePowerLevel, h d]
      ring
  | requestTransition cpu level =>
      dsimp only [step]
      rw [sum_share_update (show cpu < n from he), PowerState.share_requestTransition, h d]
      ring
  | updateUtilization cpu delta =>
      dsimp only [step]
      rw [sum_share_update (show cpu < n from he), PowerState.updateUtilization_totals, h d]

theorem utilizationAccounted_foldl {n : ℕ} :
    ∀ (events : List PowerEvent) (sys : PowerSystem), UtilizationAccounted n sys →
      (∀ e ∈ events, e.cpu < n) → UtilizationAccounted n (events.foldl (step domains) sys)
  | [], _, h, _ => h
  | e :: rest, _, h, hcpu =>
    utilizationAccounted_foldl rest _ (utilizationAccounted_step h (hcpu e (List.mem_cons_self ..)))
      fun e' he' ↦ hcpu e' (List.mem_cons_of_mem _ he')

/-- Over every run on `n` processors, each domain object's
`total_normalized_utilization_` is the sum of `normalized_utilization()` over the
processors whose domain it is. -/
theorem utilizationAccounted_run {n : ℕ} {events : List PowerEvent}
    (hcpu : ∀ e ∈ events, e.cpu < n) : UtilizationAccounted n (run domains events) :=
  utilizationAccounted_foldl events init (utilizationAccounted_init n) hcpu

theorem utilizationAccounted_run_oneCpu :
    (∀ e ∈ ([.setOrUpdateDomain 0 (some 0), .updateUtilization 0 5, .updateActivePowerLevel 0 0] :
      List PowerEvent), e.cpu < 1) ∧
      UtilizationAccounted 1 (run (fun _ ↦ ⟨1, ⟨[⟨0, 1, 0, 1, 10, 0⟩], [.zero], [0], 0⟩⟩)
        [.setOrUpdateDomain 0 (some 0), .updateUtilization 0 5, .updateActivePowerLevel 0 0]) :=
  ⟨by decide, utilizationAccounted_run (by decide)⟩

end PowerSystem

/-! ### The power levels -/

namespace PowerState

/-- Both levels of a state lie in the active levels of its domain's model, and
a state with no domain has neither. -/
def LevelsInRange (s : PowerState) : Prop :=
  match s.domain with
  | none => s.activePowerLevel = none ∧ s.desiredActivePowerLevel = none
  | some d => (∀ l ∈ s.activePowerLevel, ValidFor (domains d).model l) ∧
      ∀ l ∈ s.desiredActivePowerLevel, ValidFor (domains d).model l

variable {domains}

/-- Domain objects of one id agree on the bounds of their active levels. -/
def SameIdSameBounds (domains : ℕ → PowerDomain) : Prop :=
  ∀ d d', (domains d).id = (domains d').id →
    (domains d).model.idlePowerLevels = (domains d').model.idlePowerLevels ∧
      (domains d).model.powerLevels.length = (domains d').model.powerLevels.length

theorem validFor_congr {d d' : ℕ} (hid : SameIdSameBounds domains)
    (h : (domains d).id = (domains d').id) {l : UInt8} (hl : ValidFor (domains d').model l) :
    ValidFor (domains d).model l := by
  obtain ⟨hidle, hlen⟩ := hid d d' h
  unfold ValidFor at hl ⊢
  rw [hidle, hlen]
  exact hl

theorem setOrUpdateDomain_levels (totals : ℕ → ℤ) (s : PowerState) (domain : Option ℕ) :
    let s' := (s.setOrUpdateDomain domains totals domain).2
    (s'.activePowerLevel = none ∧ s'.desiredActivePowerLevel = none) ∨
      (∃ d, domain = some d ∧ ∀ c, s.domain = some c → (domains d).id = (domains c).id) ∧
        s'.activePowerLevel = s.activePowerLevel ∧
        s'.desiredActivePowerLevel = s.desiredActivePowerLevel := by
  intro s'
  unfold s' setOrUpdateDomain
  dsimp only
  split_ifs with hclear
  · exact .inl ⟨rfl, rfl⟩
  · refine .inr ⟨?_, rfl, rfl⟩
    cases domain with
    | none => cases hclear rfl
    | some d =>
        refine ⟨d, rfl, ?_⟩
        intro c hc
        rw [hc] at hclear
        simpa using hclear

theorem levelsInRange_of_none {s : PowerState} (ha : s.activePowerLevel = none)
    (hd : s.desiredActivePowerLevel = none) : s.LevelsInRange domains := by
  unfold LevelsInRange
  cases s.domain with
  | none => exact ⟨ha, hd⟩
  | some d =>
      rw [ha, hd]
      simp

theorem levelsInRange_setOrUpdateDomain (hid : SameIdSameBounds domains) {s : PowerState}
    (hs : s.LevelsInRange domains) (totals : ℕ → ℤ) (domain : Option ℕ) :
    (s.setOrUpdateDomain domains totals domain).2.LevelsInRange domains := by
  rcases setOrUpdateDomain_levels totals s domain with ⟨ha, hd⟩ | ⟨⟨d, rfl, hsame⟩, ha, hd⟩
  · exact levelsInRange_of_none ha hd
  · unfold LevelsInRange at hs
    cases hcur : s.domain with
    | none =>
        rw [hcur] at hs
        exact levelsInRange_of_none (ha.trans hs.1) (hd.trans hs.2)
    | some c =>
        rw [hcur] at hs
        have hdc := hsame c hcur
        unfold LevelsInRange
        rw [setOrUpdateDomain_domain, ha, hd]
        exact ⟨fun l hl ↦ validFor_congr hid hdc (hs.1 l hl),
          fun l hl ↦ validFor_congr hid hdc (hs.2 l hl)⟩

theorem requestTransition_snd (s : PowerState) (cpuNum : ℕ) (level : UInt8) :
    (s.requestTransition domains cpuNum level).2 = s ∨
      ∃ d, s.domain = some d ∧ ValidFor (domains d).model level ∧
        (s.requestTransition domains cpuNum level).2 =
          { s with desiredActivePowerLevel := some level } := by
  unfold requestTransition
  split
  · exact .inl rfl
  · rename_i d hd
    dsimp only
    split_ifs with hnone hvalid <;>
      first | exact .inl rfl | exact .inr ⟨d, hd, by simpa using hvalid, rfl⟩

theorem updateActivePowerLevel_snd (s : PowerState) (level : UInt8) :
    (s.updateActivePowerLevel domains level).2 = s ∨
      ∃ d, s.domain = some d ∧ ValidFor (domains d).model level ∧
        (s.updateActivePowerLevel domains level).2 = { s with activePowerLevel := some level } := by
  unfold updateActivePowerLevel
  split
  · exact .inl rfl
  · rename_i d hd
    split_ifs with hout
    · exact .inl rfl
    · refine .inr ⟨d, hd, ?_, rfl⟩
      unfold ValidFor
      omega

theorem levelsInRange_requestTransition {s : PowerState} (hs : s.LevelsInRange domains)
    (cpuNum : ℕ) (level : UInt8) :
    (s.requestTransition domains cpuNum level).2.LevelsInRange domains := by
  rcases requestTransition_snd s cpuNum level with h | ⟨d, hd, hvalid, h⟩
  · rw [h]
    exact hs
  · unfold LevelsInRange at hs ⊢
    rw [h]
    simp only [hd] at hs ⊢
    refine ⟨hs.1, ?_⟩
    intro l hl
    cases Option.mem_def.mp hl
    exact hvalid

theorem levelsInRange_updateActivePowerLevel {s : PowerState} (hs : s.LevelsInRange domains)
    (level : UInt8) : (s.updateActivePowerLevel domains level).2.LevelsInRange domains := by
  rcases updateActivePowerLevel_snd s level with h | ⟨d, hd, hvalid, h⟩
  · rw [h]
    exact hs
  · unfold LevelsInRange at hs ⊢
    rw [h]
    simp only [hd] at hs ⊢
    refine ⟨?_, hs.2⟩
    intro l hl
    cases Option.mem_def.mp hl
    exact hvalid

end PowerState

/-- Every processor's state has its levels in range. -/
def LevelsInRange (sys : PowerSystem) : Prop :=
  ∀ cpu, (sys.states cpu).LevelsInRange domains

namespace PowerSystem

variable {domains}

theorem levelsInRange_update {states : ℕ → PowerState}
    (h : ∀ j, (states j).LevelsInRange domains) {cpu : ℕ} {s : PowerState}
    (hs : s.LevelsInRange domains) (j : ℕ) : (Function.update states cpu s j).LevelsInRange domains := by
  rw [Function.update_apply]
  split_ifs
  · exact hs
  · exact h j

/-- Every call keeps the levels of every processor in range, when domain objects
of one id agree on their level bounds. -/
theorem levelsInRange_step (hid : PowerState.SameIdSameBounds domains) {sys : PowerSystem}
    (h : LevelsInRange domains sys) (e : PowerEvent) : LevelsInRange domains (sys.step domains e) := by
  cases e with
  | setOrUpdateDomain cpu dom =>
      exact levelsInRange_update h (PowerState.levelsInRange_setOrUpdateDomain hid (h cpu) _ _)
  | updateActivePowerLevel cpu level =>
      exact levelsInRange_update h (PowerState.levelsInRange_updateActivePowerLevel (h cpu) _)
  | requestTransition cpu level =>
      exact levelsInRange_update h (PowerState.levelsInRange_requestTransition (h cpu) _ _)
  | updateUtilization cpu delta =>
      exact levelsInRange_update h (h cpu)

theorem levelsInRange_foldl (hid : PowerState.SameIdSameBounds domains) :
    ∀ (events : List PowerEvent) (sys : PowerSystem), LevelsInRange domains sys →
      LevelsInRange domains (events.foldl (step domains) sys)
  | [], _, h => h
  | e :: rest, _, h => levelsInRange_foldl hid rest _ (levelsInRange_step hid h e)

/-- When domain objects of one id agree on their level bounds, no run leaves a
level of any processor outside the active levels of its domain. -/
theorem levelsInRange_run (hid : PowerState.SameIdSameBounds domains) (events : List PowerEvent) :
    LevelsInRange domains (run domains events) :=
  levelsInRange_foldl hid events init fun _ ↦ ⟨rfl, rfl⟩

theorem levelsInRange_run_oneModel :
    PowerState.SameIdSameBounds (fun _ ↦ ⟨1, ⟨[⟨0, 1, 0, 1, 10, 0⟩], [.zero], [0], 0⟩⟩) ∧
      LevelsInRange (fun _ ↦ ⟨1, ⟨[⟨0, 1, 0, 1, 10, 0⟩], [.zero], [0], 0⟩⟩)
        (run (fun _ ↦ ⟨1, ⟨[⟨0, 1, 0, 1, 10, 0⟩], [.zero], [0], 0⟩⟩)
          [.setOrUpdateDomain 0 (some 0), .updateActivePowerLevel 0 0, .setOrUpdateDomain 0 (some 1)]) :=
  ⟨fun _ _ _ ↦ ⟨rfl, rfl⟩, levelsInRange_run (fun _ _ _ ↦ ⟨rfl, rfl⟩) _⟩

end PowerSystem

/-! ### Registering a domain id again -/

/-- Two active levels on control interface 1. -/
def twoActiveLevels : List ZxProcessorPowerLevel :=
  [⟨0, 1, 10, 1, 0⟩, ⟨0, 2, 20, 1, 1⟩]

/-- The first of them alone. -/
def oneActiveLevel : List ZxProcessorPowerLevel :=
  [⟨0, 1, 10, 1, 0⟩]

/-- The model `Create` makes of `twoActiveLevels` with no transitions. -/
def twoLevelModel : EnergyModel :=
  ⟨[⟨0, 1, 0, 1, 10, 0⟩, ⟨0, 1, 1, 2, 20, 1⟩], List.replicate 4 .zero, [0, 1], 0⟩

/-- The model `Create` makes of `oneActiveLevel` with no transitions. -/
def oneLevelModel : EnergyModel :=
  ⟨[⟨0, 1, 0, 1, 10, 0⟩], [.zero], [0], 0⟩

/-- Domain 1 registered with `twoLevelModel`, then registered again with
`oneLevelModel`: the two objects carry the same id. -/
def reregisteredDomains : ℕ → PowerDomain
  | 0 => ⟨1, twoLevelModel⟩
  | _ => ⟨1, oneLevelModel⟩

/-- Processor 0 joins the first object, reaches active level 1, and is moved to
the second object. -/
def reregisterRun : List PowerEvent :=
  [.setOrUpdateDomain 0 (some 0), .updateActivePowerLevel 0 1, .setOrUpdateDomain 0 (some 1)]

theorem setOrUpdateDomain_sameId_keeps_stale_level :
    create insertionSortBy kSupportedControlInterfaces twoActiveLevels [] = .ok twoLevelModel ∧
      create insertionSortBy kSupportedControlInterfaces oneActiveLevel [] = .ok oneLevelModel ∧
      (reregisteredDomains 0).id = (reregisteredDomains 1).id ∧
      ((PowerSystem.run reregisteredDomains reregisterRun).states 0).domain = some 1 ∧
      ((PowerSystem.run reregisteredDomains reregisterRun).states 0).activePowerLevel = some 1 ∧
      ¬ValidFor oneLevelModel 1 ∧
      ((PowerSystem.run reregisteredDomains reregisterRun).states 0).activePowerCoefficientNw
        reregisteredDomains = none :=
  ⟨by decide, by decide, rfl, by decide, by decide, by decide, by decide⟩

end Zircon.PowerManagement
