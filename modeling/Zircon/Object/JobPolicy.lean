import Mathlib
import Zircon.Lib.BitField
import Zircon.Lib.ExceptFold
import Zircon.Types

/-!
# Basic job policy

The basic policy of a job (`object/job_policy.{h,cc}`).  A
`JobPolicyCollection` packs, for every condition except the synthetic
`ZX_POL_NEW_ANY`, a three-bit action and an override bit into four bits of a
single 64-bit bucket.  The override bit is stored inverted, so the all-zero
root policy allows every action and lets every condition be overridden.

`AddPartial` merges one `(condition, action, flags)` entry into a collection,
and `JobPolicy::AddBasicPolicy` merges an array of entries, expanding
`ZX_POL_NEW_ANY` into every new-object condition.  A condition whose override
is `ZX_POL_OVERRIDE_DENY` is locked: `AddPartial` never changes it.

We read a collection back as the table `condition ↦ (action, override)`, show
that the bit operations act on that table as point updates, and derive which
calls keep a locked condition fixed: every call in `ZX_JOB_POL_ABSOLUTE` mode,
every call without a `ZX_POL_NEW_ANY` entry, and every call for a condition
that is not a new-object one.  The remaining case is not covered: after its
merges, `AddBasicPolicy` writes the `ZX_POL_NEW_ANY` entry's override into every
new-object condition, locked ones included, and a relative call with
`ZX_POL_OVERRIDE_ALLOW` unlocks them.
-/

namespace Zircon.Object

open Zircon.Lib

/-! ## Constants of `zircon/syscalls/policy.h` -/

def zxPolBadHandle : ℕ := 0
def zxPolWrongObject : ℕ := 1
def zxPolVmarWx : ℕ := 2
def zxPolNewAny : ℕ := 3
def zxPolNewVmo : ℕ := 4
def zxPolNewChannel : ℕ := 5
def zxPolNewEvent : ℕ := 6
def zxPolNewEventpair : ℕ := 7
def zxPolNewPort : ℕ := 8
def zxPolNewSocket : ℕ := 9
def zxPolNewFifo : ℕ := 10
def zxPolNewTimer : ℕ := 11
def zxPolNewProcess : ℕ := 12
def zxPolNewProfile : ℕ := 13
def zxPolNewPager : ℕ := 14
def zxPolAmbientMarkVmoExec : ℕ := 15
def zxPolNewIob : ℕ := 16
def zxPolMax : ℕ := 17

def zxPolActionAllow : ℕ := 0
def zxPolActionDeny : ℕ := 1
def zxPolActionMax : ℕ := 5

def zxPolOverrideAllow : ℕ := 0
def zxPolOverrideDeny : ℕ := 1

def zxJobPolRelative : ℕ := 0
def zxJobPolAbsolute : ℕ := 1

/-- `kNewObjectPolicies`: the conditions `ZX_POL_NEW_ANY` stands for. -/
def kNewObjectPolicies : List ℕ :=
  [zxPolNewVmo, zxPolNewChannel, zxPolNewEvent, zxPolNewEventpair, zxPolNewPort,
    zxPolNewSocket, zxPolNewFifo, zxPolNewTimer, zxPolNewProcess, zxPolNewProfile,
    zxPolNewPager, zxPolNewIob]

/-- `kJobPolicyBitsPerPolicy`, which the header pins to four by a
`static_assert`. -/
def kJobPolicyBitsPerPolicy : ℕ := 4

def kJobPolicyBitsPerBucket : ℕ := 64

/-- A real condition: below `ZX_POL_MAX` and not the synthetic
`ZX_POL_NEW_ANY`.  These are the arguments `operator[]` asserts on. -/
def IsCondition (condition : ℕ) : Prop :=
  condition < zxPolMax ∧ condition ≠ zxPolNewAny

instance : DecidablePred IsCondition := fun _ ↦ inferInstanceAs (Decidable (_ ∧ _))

theorem isCondition_of_mem_kNewObjectPolicies {c : ℕ} (hc : c ∈ kNewObjectPolicies) :
    IsCondition c := by
  simp only [kNewObjectPolicies, List.mem_cons, List.not_mem_nil, or_false] at hc
  rcases hc with rfl | rfl | rfl | rfl | rfl | rfl | rfl | rfl | rfl | rfl | rfl | rfl <;> decide

/-! ## The packed storage -/

/-- `JobPolicyCollection`: its storage is `kJobPolicyJobPolicyBuckets = 1`
bucket of 64 bits, since the 16 stored conditions take four bits each. -/
structure JobPolicyCollection where
  storage : BitVec 64
  deriving DecidableEq, Repr

def kPolicyBitMask : BitVec 64 := (1#64 <<< kJobPolicyBitsPerPolicy) - 1
def kOverrideMask : BitVec 64 := 0x1#64
def kActionMask : BitVec 64 := kPolicyBitMask &&& ~~~kOverrideMask

/-- `JobPolicyCollection::operator[]`: the offset of a condition's four bits.
The synthetic `ZX_POL_NEW_ANY` has no bits, so the conditions after it move
down one slot. -/
def policyOffset (policy : ℕ) : ℕ :=
  (if policy > zxPolNewAny then policy - 1 else policy) * kJobPolicyBitsPerPolicy

/-- The bit offset of `Policy::policy_range`; the bucket index is always zero. -/
def bitOffset (policyOffset : ℕ) : ℕ := policyOffset % kJobPolicyBitsPerBucket

namespace Policy

/-- `Policy::action`. -/
def action (storage : BitVec 64) (policyOffset : ℕ) : ℕ :=
  (((storage >>> bitOffset policyOffset) &&& kActionMask) >>> 1).toNat

/-- `Policy::set_action`: the action goes to the three upper bits of the slot. -/
def setAction (storage : BitVec 64) (policyOffset action : ℕ) : BitVec 64 :=
  (storage &&& ~~~(kActionMask <<< bitOffset policyOffset)) |||
    (BitVec.ofNat 64 action <<< (bitOffset policyOffset + 1))

/-- `Policy::override`: the stored bit is inverted, so zero means overridable. -/
def override (storage : BitVec 64) (policyOffset : ℕ) : Bool :=
  !(((storage >>> bitOffset policyOffset) &&& kOverrideMask) != 0#64)

/-- `Policy::set_override`. -/
def setOverride (storage : BitVec 64) (policyOffset : ℕ) (override : Bool) : BitVec 64 :=
  (storage &&& ~~~(kOverrideMask <<< bitOffset policyOffset)) |||
    (BitVec.ofNat 64 (!override).toNat <<< bitOffset policyOffset)

end Policy

/-! ## Slots

Every offset `operator[]` hands out is a multiple of four inside the bucket,
and distinct conditions get distinct offsets.  Reads and writes of one slot
then leave every other slot alone. -/

/-- An offset of a four-bit slot inside the bucket. -/
def IsSlot (policyOffset : ℕ) : Prop :=
  policyOffset % kJobPolicyBitsPerPolicy = 0 ∧ policyOffset < kJobPolicyBitsPerBucket

theorem isSlot_policyOffset {c : ℕ} (hc : IsCondition c) : IsSlot (policyOffset c) := by
  obtain ⟨hlt, hne⟩ := hc
  simp only [zxPolMax, zxPolNewAny] at hlt hne
  simp only [IsSlot, policyOffset, kJobPolicyBitsPerPolicy, kJobPolicyBitsPerBucket, zxPolNewAny]
  by_cases h : 3 < c <;> simp only [gt_iff_lt, h, if_true, if_false] <;> omega

theorem policyOffset_injective {c c' : ℕ} (hc : IsCondition c) (hc' : IsCondition c')
    (h : policyOffset c = policyOffset c') : c = c' := by
  obtain ⟨-, hne⟩ := hc
  obtain ⟨-, hne'⟩ := hc'
  simp only [policyOffset, kJobPolicyBitsPerPolicy, zxPolNewAny] at h hne hne'
  by_cases h3 : 3 < c <;> by_cases h3' : 3 < c' <;>
    simp only [gt_iff_lt, h3, h3', if_true, if_false] at h <;> omega

theorem kActionMask_eq : kActionMask = fieldMask 1 3 := by decide

theorem kOverrideMask_eq : kOverrideMask = fieldMask 0 1 := by decide

namespace Policy

variable {storage : BitVec 64} {off off' : ℕ}

theorem bitOffset_of_isSlot (h : IsSlot off) : bitOffset off = off :=
  Nat.mod_eq_of_lt h.2

theorem setAction_eq_insertBits (storage : BitVec 64) (off a : ℕ) :
    setAction storage off a =
      insertBits storage (fieldMask 1 3 <<< bitOffset off)
        (BitVec.ofNat 64 a <<< 1 <<< bitOffset off) := by
  rw [setAction, insertBits, kActionMask_eq, Nat.add_comm, BitVec.shiftLeft_add]

theorem setOverride_eq_insertBits (storage : BitVec 64) (off : ℕ) (b : Bool) :
    setOverride storage off b =
      insertBits storage (fieldMask 0 1 <<< bitOffset off)
        (BitVec.ofNat 64 (!b).toNat <<< 0 <<< bitOffset off) := by
  rw [setOverride, insertBits, kOverrideMask_eq, BitVec.shiftLeft_zero]

theorem action_eq_read (storage : BitVec 64) (off : ℕ) :
    action storage off = (((storage >>> bitOffset off) &&& fieldMask 1 3) >>> 1).toNat := by
  rw [action, kActionMask_eq]

theorem override_eq_read (storage : BitVec 64) (off : ℕ) :
    override storage off = !(((storage >>> bitOffset off) &&& fieldMask 0 1) != 0#64) := by
  rw [override, kOverrideMask_eq]

theorem action_lt_two_pow {a : ℕ} (ha : a < zxPolActionMax) : a < 2 ^ 3 := by
  simp only [zxPolActionMax] at ha
  omega

theorem bitsWithin_setAction_value {a : ℕ} (ha : a < zxPolActionMax) (off : ℕ) :
    BitsWithin (BitVec.ofNat 64 a <<< 1 <<< off) (fieldMask 1 3 <<< off : BitVec 64) :=
  bitsWithin_shiftLeft (bitsWithin_ofNat_shiftLeft 1 (action_lt_two_pow ha)) off

theorem bitsWithin_setOverride_value (b : Bool) (off : ℕ) :
    BitsWithin (BitVec.ofNat 64 (!b).toNat <<< 0 <<< off) (fieldMask 0 1 <<< off : BitVec 64) :=
  bitsWithin_shiftLeft (bitsWithin_ofNat_shiftLeft 0 (Bool.toNat_lt _)) off

theorem action_setAction_self {a : ℕ} (hoff : IsSlot off) (ha : a < zxPolActionMax) :
    action (setAction storage off a) off = a := by
  have hfit : bitOffset off + 1 + 3 ≤ 64 := by
    rw [bitOffset_of_isSlot hoff]
    simp only [IsSlot, kJobPolicyBitsPerPolicy, kJobPolicyBitsPerBucket] at hoff
    omega
  rw [action_eq_read, setAction_eq_insertBits,
    read_insertBits_fieldMask_self (action_lt_two_pow ha) hfit]
  have ha8 := action_lt_two_pow ha
  simp only [BitVec.toNat_ushiftRight, BitVec.toNat_shiftLeft, BitVec.toNat_ofNat,
    Nat.shiftLeft_eq, Nat.shiftRight_eq_div_pow]
  omega

theorem action_setAction_of_ne {a : ℕ} (hoff : IsSlot off) (hoff' : IsSlot off')
    (hne : off ≠ off') (ha : a < zxPolActionMax) :
    action (setAction storage off a) off' = action storage off' := by
  have hv := bitsWithin_setAction_value ha (bitOffset off)
  rw [action_eq_read, action_eq_read, setAction_eq_insertBits,
    read_insertBits_fieldMask_of_disjoint hv]
  rw [bitOffset_of_isSlot hoff, bitOffset_of_isSlot hoff']
  simp only [IsSlot, kJobPolicyBitsPerPolicy, kJobPolicyBitsPerBucket] at hoff hoff'
  omega

theorem override_setAction {a : ℕ} (hoff : IsSlot off) (hoff' : IsSlot off')
    (ha : a < zxPolActionMax) :
    override (setAction storage off a) off' = override storage off' := by
  have hv := bitsWithin_setAction_value ha (bitOffset off)
  rw [override_eq_read, override_eq_read, setAction_eq_insertBits,
    read_insertBits_fieldMask_of_disjoint hv]
  rw [bitOffset_of_isSlot hoff, bitOffset_of_isSlot hoff']
  simp only [IsSlot, kJobPolicyBitsPerPolicy, kJobPolicyBitsPerBucket] at hoff hoff'
  omega

theorem override_setOverride_self (hoff : IsSlot off) (b : Bool) :
    override (setOverride storage off b) off = b := by
  have hfit : bitOffset off + 0 + 1 ≤ 64 := by
    rw [bitOffset_of_isSlot hoff]
    simp only [IsSlot, kJobPolicyBitsPerBucket] at hoff
    omega
  rw [override_eq_read, setOverride_eq_insertBits,
    read_insertBits_fieldMask_self (Bool.toNat_lt _) hfit]
  cases b <;> decide

theorem override_setOverride_of_ne (hoff : IsSlot off) (hoff' : IsSlot off') (hne : off ≠ off')
    (b : Bool) : override (setOverride storage off b) off' = override storage off' := by
  rw [override_eq_read, override_eq_read, setOverride_eq_insertBits,
    read_insertBits_fieldMask_of_disjoint (bitsWithin_setOverride_value b _)]
  rw [bitOffset_of_isSlot hoff, bitOffset_of_isSlot hoff']
  simp only [IsSlot, kJobPolicyBitsPerPolicy, kJobPolicyBitsPerBucket] at hoff hoff'
  omega

theorem action_setOverride (hoff : IsSlot off) (hoff' : IsSlot off') (b : Bool) :
    action (setOverride storage off b) off' = action storage off' := by
  rw [action_eq_read, action_eq_read, setOverride_eq_insertBits,
    read_insertBits_fieldMask_of_disjoint (bitsWithin_setOverride_value b _)]
  rw [bitOffset_of_isSlot hoff, bitOffset_of_isSlot hoff']
  simp only [IsSlot, kJobPolicyBitsPerPolicy, kJobPolicyBitsPerBucket] at hoff hoff'
  omega

end Policy

/-! ## The collection as a table -/

namespace JobPolicyCollection

/-- The action and the override a collection records for a condition. -/
def entry (bits : JobPolicyCollection) (condition : ℕ) : ℕ × Bool :=
  (Policy.action bits.storage (policyOffset condition),
    Policy.override bits.storage (policyOffset condition))

variable {bits : JobPolicyCollection} {c cond : ℕ}

theorem entry_setAction (hc : IsCondition c) (hcond : IsCondition cond) {a : ℕ}
    (ha : a < zxPolActionMax) :
    entry ⟨Policy.setAction bits.storage (policyOffset cond) a⟩ c =
      if c = cond then (a, (entry bits c).2) else entry bits c := by
  have hs := isSlot_policyOffset hc
  have hs' := isSlot_policyOffset hcond
  simp only [entry, Policy.override_setAction hs' hs ha]
  split_ifs with h
  · subst h
    rw [Policy.action_setAction_self hs ha]
  · have hne : policyOffset cond ≠ policyOffset c := fun h' ↦ h (policyOffset_injective hcond hc h').symm
    rw [Policy.action_setAction_of_ne hs' hs hne ha]

theorem entry_setOverride (hc : IsCondition c) (hcond : IsCondition cond) (b : Bool) :
    entry ⟨Policy.setOverride bits.storage (policyOffset cond) b⟩ c =
      if c = cond then ((entry bits c).1, b) else entry bits c := by
  have hs := isSlot_policyOffset hc
  have hs' := isSlot_policyOffset hcond
  simp only [entry, Policy.action_setOverride hs' hs b]
  split_ifs with h
  · subst h
    rw [Policy.override_setOverride_self hs]
  · have hne : policyOffset cond ≠ policyOffset c := fun h' ↦ h (policyOffset_injective hcond hc h').symm
    rw [Policy.override_setOverride_of_ne hs' hs hne]

end JobPolicyCollection

/-! ## `AddPartial` and `AddBasicPolicy` -/

/-- `PolicyOverrideIsValid`. -/
def policyOverrideIsValid (override : ℕ) : Bool :=
  override == zxPolOverrideDeny || override == zxPolOverrideAllow

/-- `AddPartial`: merge one entry into `bits`.  `ZX_OK` is `.ok` with the
collection after the call; every error path returns before touching `bits`. -/
def addPartial (mode condition action override : ℕ) (bits : JobPolicyCollection) :
    Except ZxStatus JobPolicyCollection :=
  if action ≥ zxPolActionMax then .error .errNotSupported
  else if !policyOverrideIsValid override then .error .errInvalidArgs
  else if condition ≥ zxPolMax ∨ condition = zxPolNewAny then .error .errInvalidArgs
  else
    let overrideBit := override == zxPolOverrideAllow
    let conditionBits := policyOffset condition
    if Policy.override bits.storage conditionBits then
      let storage := Policy.setAction bits.storage conditionBits action
      .ok ⟨Policy.setOverride storage conditionBits overrideBit⟩
    else if Policy.action bits.storage conditionBits == action && !overrideBit then .ok bits
    else if mode = zxJobPolAbsolute then .error .errAlreadyExists
    else .ok bits

/-- `zx_policy_basic_v2_t`. -/
structure ZxPolicyBasicV2 where
  condition : ℕ
  action : ℕ
  flags : ℕ
  deriving DecidableEq, Repr

/-- `JobPolicy`.  Its timer slack is left out: no function modelled here reads
it, and copying a policy copies the collection unchanged. -/
structure JobPolicy where
  collection : JobPolicyCollection
  deriving DecidableEq, Repr

/-- `JobPolicy::CreateRootPolicy`: the all-zero collection. -/
def JobPolicy.createRootPolicy : JobPolicy := ⟨⟨0#64⟩⟩

/-- The locals of `AddBasicPolicy`'s loop. -/
structure AddBasicPolicyState where
  updatedCollection : JobPolicyCollection
  hasNewAny : Bool
  newAnyOverride : ℕ

/-- One iteration of `AddBasicPolicy`'s loop.  A `ZX_POL_NEW_ANY` entry is
merged into every new-object condition with `ZX_POL_OVERRIDE_ALLOW`; its own
flags are only remembered, for the pass after the loop. -/
def addBasicPolicyStep (mode : ℕ) (st : AddBasicPolicyState) (input : ZxPolicyBasicV2) :
    Except ZxStatus AddBasicPolicyState :=
  if input.condition = zxPolNewAny then do
    let bits ← kNewObjectPolicies.foldlM
      (fun bits cond ↦ addPartial mode cond input.action zxPolOverrideAllow bits)
      st.updatedCollection
    return ⟨bits, true, input.flags⟩
  else do
    let bits ← addPartial mode input.condition input.action input.flags st.updatedCollection
    return { st with updatedCollection := bits }

/-- The pass after `AddBasicPolicy`'s loop: the remembered `ZX_POL_NEW_ANY`
override goes to every new-object condition. -/
def setNewObjectOverrides (overrideBit : Bool) (bits : JobPolicyCollection) :
    JobPolicyCollection :=
  kNewObjectPolicies.foldl
    (fun bits cond ↦ ⟨Policy.setOverride bits.storage (policyOffset cond) overrideBit⟩) bits

/-- The body of `JobPolicy::AddBasicPolicy`: the collection it stores on
`ZX_OK`, or the status it returns. -/
def addBasicPolicyCollection (mode : ℕ) (policyInput : List ZxPolicyBasicV2)
    (collection : JobPolicyCollection) : Except ZxStatus JobPolicyCollection :=
  if policyInput.length > zxPolMax then .error .errOutOfRange
  else do
    let st ← policyInput.foldlM (addBasicPolicyStep mode) ⟨collection, false, 0⟩
    if st.hasNewAny then
      if !policyOverrideIsValid st.newAnyOverride then .error .errInvalidArgs
      else pure (setNewObjectOverrides (st.newAnyOverride == zxPolOverrideAllow) st.updatedCollection)
    else pure st.updatedCollection

namespace JobPolicy

/-- `JobPolicy::AddBasicPolicy`: the status returned and the policy after the
call.  The policy is written only on `ZX_OK`. -/
def addBasicPolicy (mode : ℕ) (policyInput : List ZxPolicyBasicV2) (p : JobPolicy) :
    ZxStatus × JobPolicy :=
  match addBasicPolicyCollection mode policyInput p.collection with
  | .ok collection => (.ok, ⟨collection⟩)
  | .error status => (status, p)

/-- `JobPolicy::QueryBasicPolicy`. -/
def queryBasicPolicy (p : JobPolicy) (condition : ℕ) : ℕ :=
  if condition ≥ zxPolMax ∨ condition = zxPolNewAny then zxPolActionDeny
  else Policy.action p.collection.storage (policyOffset condition)

/-- `JobPolicy::QueryBasicPolicyOverride`. -/
def queryBasicPolicyOverride (p : JobPolicy) (condition : ℕ) : ℕ :=
  if condition ≥ zxPolMax ∨ condition = zxPolNewAny then zxPolOverrideDeny
  else if Policy.override p.collection.storage (policyOffset condition) then zxPolOverrideAllow
  else zxPolOverrideDeny

/-- A sequence of `AddBasicPolicy` calls, each given by its mode and entries,
whatever each returns. -/
def addBasicPolicyRun : List (ℕ × List ZxPolicyBasicV2) → JobPolicy → JobPolicy
  | [], p => p
  | (mode, policyInput) :: calls, p => addBasicPolicyRun calls (addBasicPolicy mode policyInput p).2

end JobPolicy

/-! ## `AddPartial` on the table -/

namespace JobPolicyCollection

variable {bits bits' : JobPolicyCollection} {mode c cond a ov : ℕ}

theorem entry_addPartial (hc : IsCondition c) (h : addPartial mode cond a ov bits = .ok bits') :
    bits'.entry c =
      if c = cond ∧ (bits.entry cond).2 then (a, ov == zxPolOverrideAllow) else bits.entry c := by
  unfold addPartial at h
  dsimp only at h
  split_ifs at h with ha hov hcond hover hsame habs
  · have hcond' : IsCondition cond := ⟨by omega, by tauto⟩
    cases h
    rw [entry_setOverride hc hcond', entry_setAction hc hcond' (not_le.mp ha)]
    by_cases hcc : c = cond
    · subst hcc
      simp [entry, hover]
    · simp [hcc]
  all_goals
    cases h
    have hlock : (bits.entry cond).2 = false := by simpa [entry] using hover
    by_cases hcc : c = cond
    · subst hcc
      simp [hlock]
    · simp [hcc]

theorem entry_addPartial_of_locked (hc : IsCondition c) (hlock : (bits.entry c).2 = false)
    (h : addPartial mode cond a ov bits = .ok bits') : bits'.entry c = bits.entry c := by
  rw [entry_addPartial hc h]
  split_ifs with hcc
  · obtain ⟨rfl, hover⟩ := hcc
    rw [hlock] at hover
    cases hover
  · rfl

theorem addPartial_absolute_locked (hlock : (bits.entry c).2 = false) :
    addPartial zxJobPolAbsolute c a zxPolOverrideAllow bits ≠ .ok bits' := by
  intro h
  have hover : Policy.override bits.storage (policyOffset c) = false := hlock
  unfold addPartial at h
  dsimp only at h
  split_ifs at h with ha hov hcond hover' hsame habs
  · simp [hover] at hover'
  · simp [zxPolOverrideAllow] at hsame
  · exact habs rfl

theorem entry_foldl_setOverride (hc : IsCondition c) (b : Bool) :
    ∀ (l : List ℕ), (∀ cond ∈ l, IsCondition cond) → ∀ bits : JobPolicyCollection,
      (l.foldl (fun bits cond ↦ ⟨Policy.setOverride bits.storage (policyOffset cond) b⟩)
        bits).entry c = if c ∈ l then ((bits.entry c).1, b) else bits.entry c
  | [], _, bits => by simp
  | cond :: l, hl, bits => by
    have hcond : IsCondition cond := hl cond List.mem_cons_self
    rw [List.foldl_cons, entry_foldl_setOverride hc b l (fun x hx ↦ hl x (List.mem_cons_of_mem _ hx)),
      entry_setOverride hc hcond]
    by_cases hcc : c = cond <;> by_cases hcl : c ∈ l <;> simp [hcc, hcl]

theorem entry_setNewObjectOverrides (hc : IsCondition c) (b : Bool) :
    (setNewObjectOverrides b bits).entry c =
      if c ∈ kNewObjectPolicies then ((bits.entry c).1, b) else bits.entry c :=
  entry_foldl_setOverride hc b _ (fun _ h ↦ isCondition_of_mem_kNewObjectPolicies h) bits

end JobPolicyCollection

/-! ## Which calls keep a locked condition -/

namespace JobPolicy

variable {p : JobPolicy} {mode c : ℕ} {policyInput : List ZxPolicyBasicV2}

theorem queryBasicPolicy_eq (hc : IsCondition c) :
    p.queryBasicPolicy c = (p.collection.entry c).1 := by
  have hc' : ¬(c ≥ zxPolMax ∨ c = zxPolNewAny) := by
    rintro (h | h)
    · exact absurd hc.1 (not_lt.mpr h)
    · exact hc.2 h
  rw [queryBasicPolicy, if_neg hc']
  rfl

theorem queryBasicPolicyOverride_eq (hc : IsCondition c) :
    p.queryBasicPolicyOverride c =
      if (p.collection.entry c).2 then zxPolOverrideAllow else zxPolOverrideDeny := by
  have hc' : ¬(c ≥ zxPolMax ∨ c = zxPolNewAny) := by
    rintro (h | h)
    · exact absurd hc.1 (not_lt.mpr h)
    · exact hc.2 h
  rw [queryBasicPolicyOverride, if_neg hc']
  rfl

theorem queryBasicPolicyOverride_eq_deny_iff (hc : IsCondition c) :
    p.queryBasicPolicyOverride c = zxPolOverrideDeny ↔ (p.collection.entry c).2 = false := by
  rw [queryBasicPolicyOverride_eq hc]
  cases (p.collection.entry c).2 <;> decide

/-- The calls after which a locked condition `c` is known to be unchanged:
absolute ones, ones without a `ZX_POL_NEW_ANY` entry, and all calls when `c`
is not a new-object condition. -/
def LockSafe (c mode : ℕ) (policyInput : List ZxPolicyBasicV2) : Prop :=
  mode = zxJobPolAbsolute ∨ c ∉ kNewObjectPolicies ∨
    ∀ input ∈ policyInput, input.condition ≠ zxPolNewAny

/-- The invariant of `AddBasicPolicy`'s loop for a condition locked at `e`:
its entry is unchanged, and no `ZX_POL_NEW_ANY` entry has been merged that
the pass after the loop would apply to it. -/
def KeepsLocked (c : ℕ) (e : ℕ × Bool) (st : AddBasicPolicyState) : Prop :=
  st.updatedCollection.entry c = e ∧ (st.hasNewAny = true → c ∉ kNewObjectPolicies)

theorem keepsLocked_addBasicPolicyStep {e : ℕ × Bool} {input : ZxPolicyBasicV2}
    {st st' : AddBasicPolicyState} (hc : IsCondition c) (he : e.2 = false)
    (hsafe : LockSafe c mode policyInput) (hinput : input ∈ policyInput)
    (hst : KeepsLocked c e st) (h : addBasicPolicyStep mode st input = .ok st') :
    KeepsLocked c e st' := by
  obtain ⟨hentry, hnew⟩ := hst
  have hkeep : ∀ (bits : JobPolicyCollection), bits.entry c = e → ∀ cond, cond ∈ kNewObjectPolicies →
      ∀ bits', addPartial mode cond input.action zxPolOverrideAllow bits = .ok bits' →
        bits'.entry c = e := fun bits hb _ _ bits' h' ↦
    (JobPolicyCollection.entry_addPartial_of_locked hc (hb ▸ he) h').trans hb
  unfold addBasicPolicyStep at h
  split_ifs at h with hany
  · obtain ⟨bits, hfold, hst'⟩ := bind_eq_ok.mp h
    cases pure_eq_ok.mp hst'
    refine ⟨foldlM_invariant (fun bits ↦ bits.entry c = e) hkeep hentry hfold, fun _ hmem ↦ ?_⟩
    rcases hsafe with habs | hnot | hnone
    · subst habs
      exact foldlM_ne_ok_of_mem (fun bits ↦ bits.entry c = e) hkeep hmem
        (fun b hb b' ↦ JobPolicyCollection.addPartial_absolute_locked (hb ▸ he)) hentry bits hfold
    · exact hnot hmem
    · exact hnone input hinput hany
  · obtain ⟨bits, hbits, hst'⟩ := bind_eq_ok.mp h
    cases pure_eq_ok.mp hst'
    exact ⟨(JobPolicyCollection.entry_addPartial_of_locked hc (hentry ▸ he) hbits).trans hentry,
      hnew⟩

theorem entry_addBasicPolicyCollection_of_locked {collection collection' : JobPolicyCollection}
    (hc : IsCondition c) (hlock : (collection.entry c).2 = false)
    (hsafe : LockSafe c mode policyInput)
    (h : addBasicPolicyCollection mode policyInput collection = .ok collection') :
    collection'.entry c = collection.entry c := by
  unfold addBasicPolicyCollection at h
  split_ifs at h with hlen
  obtain ⟨st, hfold, hfinal⟩ := bind_eq_ok.mp h
  have hinit : KeepsLocked c (collection.entry c) ⟨collection, false, 0⟩ :=
    ⟨rfl, fun h ↦ absurd h Bool.false_ne_true⟩
  have hst : KeepsLocked c (collection.entry c) st :=
    foldlM_invariant (KeepsLocked c (collection.entry c))
      (fun _ hb _ hinput _ hstep ↦ keepsLocked_addBasicPolicyStep hc hlock hsafe hinput hb hstep)
      hinit hfold
  split_ifs at hfinal with hnew hvalid
  · rw [← pure_eq_ok.mp hfinal, JobPolicyCollection.entry_setNewObjectOverrides hc,
      if_neg (hst.2 hnew), hst.1]
  · rw [← pure_eq_ok.mp hfinal, hst.1]

theorem entry_addBasicPolicy_of_locked (hc : IsCondition c) (hlock : (p.collection.entry c).2 = false)
    (hsafe : LockSafe c mode policyInput) :
    (p.addBasicPolicy mode policyInput).2.collection.entry c = p.collection.entry c := by
  unfold addBasicPolicy
  split
  · rename_i heq
    exact entry_addBasicPolicyCollection_of_locked hc hlock hsafe heq
  · rfl

/-- Over a whole run of calls covered by `LockSafe`, whatever each returns, a
locked condition keeps its action and stays locked. -/
theorem query_addBasicPolicyRun_of_locked (hc : IsCondition c)
    (hlock : p.queryBasicPolicyOverride c = zxPolOverrideDeny)
    (calls : List (ℕ × List ZxPolicyBasicV2)) (hsafe : ∀ call ∈ calls, LockSafe c call.1 call.2) :
    (p.addBasicPolicyRun calls).queryBasicPolicy c = p.queryBasicPolicy c ∧
      (p.addBasicPolicyRun calls).queryBasicPolicyOverride c = zxPolOverrideDeny := by
  induction calls generalizing p with
  | nil => exact ⟨rfl, hlock⟩
  | cons call calls ih =>
    obtain ⟨mode, policyInput⟩ := call
    have hlock' := (queryBasicPolicyOverride_eq_deny_iff hc).mp hlock
    have hentry := entry_addBasicPolicy_of_locked hc hlock' (hsafe _ List.mem_cons_self)
    have hlock'' : ((p.addBasicPolicy mode policyInput).2.queryBasicPolicyOverride c) =
        zxPolOverrideDeny := by
      rw [queryBasicPolicyOverride_eq_deny_iff hc, hentry, hlock']
    obtain ⟨hquery, hoverride⟩ := ih hlock'' (fun call hcall ↦ hsafe call (List.mem_cons_of_mem _ hcall))
    refine ⟨?_, hoverride⟩
    rw [addBasicPolicyRun, hquery, queryBasicPolicy_eq hc, queryBasicPolicy_eq hc, hentry]

end JobPolicy

/-! ## A relative `ZX_POL_NEW_ANY` entry unlocks a locked condition -/

namespace JobPolicy

variable {p : JobPolicy} {mode c : ℕ}

/-- A job whose parent locked `ZX_POL_NEW_EVENT` to `ZX_POL_ACTION_DENY`. -/
def lockedNewEvent : JobPolicy :=
  (createRootPolicy.addBasicPolicy zxJobPolAbsolute
    [⟨zxPolNewEvent, zxPolActionDeny, zxPolOverrideDeny⟩]).2

/-- The same job after a relative call with
`{ZX_POL_NEW_ANY, ZX_POL_ACTION_ALLOW, ZX_POL_OVERRIDE_ALLOW}`. -/
def unlockedNewEvent : JobPolicy :=
  (lockedNewEvent.addBasicPolicy zxJobPolRelative
    [⟨zxPolNewAny, zxPolActionAllow, zxPolOverrideAllow⟩]).2

/-- From a job where `ZX_POL_NEW_EVENT` is locked to deny, the relative
`ZX_POL_NEW_ANY` call succeeds and unlocks it, after which an absolute call
allows event creation. -/
theorem addBasicPolicy_newAny_unlocks_newEvent :
    lockedNewEvent.queryBasicPolicy zxPolNewEvent = zxPolActionDeny ∧
      lockedNewEvent.queryBasicPolicyOverride zxPolNewEvent = zxPolOverrideDeny ∧
      (lockedNewEvent.addBasicPolicy zxJobPolRelative
        [⟨zxPolNewAny, zxPolActionAllow, zxPolOverrideAllow⟩]).1 = .ok ∧
      unlockedNewEvent.queryBasicPolicyOverride zxPolNewEvent = zxPolOverrideAllow ∧
      (unlockedNewEvent.addBasicPolicy zxJobPolAbsolute
        [⟨zxPolNewEvent, zxPolActionAllow, zxPolOverrideAllow⟩]).1 = .ok ∧
      (unlockedNewEvent.addBasicPolicy zxJobPolAbsolute
        [⟨zxPolNewEvent, zxPolActionAllow, zxPolOverrideAllow⟩]).2.queryBasicPolicy zxPolNewEvent =
        zxPolActionAllow := by
  decide

theorem query_addBasicPolicyRun_of_locked_lockSafeCalls :
    IsCondition zxPolNewEvent ∧ lockedNewEvent.queryBasicPolicyOverride zxPolNewEvent = zxPolOverrideDeny ∧
      (∀ call ∈ [(zxJobPolAbsolute, [⟨zxPolNewAny, zxPolActionAllow, zxPolOverrideAllow⟩]),
          (zxJobPolRelative, [⟨zxPolNewEvent, zxPolActionAllow, zxPolOverrideAllow⟩])],
        LockSafe zxPolNewEvent call.1 call.2) ∧
      (lockedNewEvent.addBasicPolicyRun [(zxJobPolAbsolute, [⟨zxPolNewAny, zxPolActionAllow, zxPolOverrideAllow⟩]),
          (zxJobPolRelative, [⟨zxPolNewEvent, zxPolActionAllow, zxPolOverrideAllow⟩])]).queryBasicPolicy
          zxPolNewEvent = lockedNewEvent.queryBasicPolicy zxPolNewEvent ∧
      (lockedNewEvent.addBasicPolicyRun [(zxJobPolAbsolute, [⟨zxPolNewAny, zxPolActionAllow, zxPolOverrideAllow⟩]),
          (zxJobPolRelative, [⟨zxPolNewEvent, zxPolActionAllow, zxPolOverrideAllow⟩])]).queryBasicPolicyOverride
          zxPolNewEvent = zxPolOverrideDeny := by
  have hc : IsCondition zxPolNewEvent := by decide
  have hlock : lockedNewEvent.queryBasicPolicyOverride zxPolNewEvent = zxPolOverrideDeny := by decide
  have hsafe : ∀ call ∈ [(zxJobPolAbsolute, [(⟨zxPolNewAny, zxPolActionAllow, zxPolOverrideAllow⟩ : ZxPolicyBasicV2)]),
      (zxJobPolRelative, [⟨zxPolNewEvent, zxPolActionAllow, zxPolOverrideAllow⟩])],
      LockSafe zxPolNewEvent call.1 call.2 := by
    unfold LockSafe
    decide
  exact ⟨hc, hlock, hsafe, query_addBasicPolicyRun_of_locked hc hlock _ hsafe⟩

end JobPolicy

end Zircon.Object
