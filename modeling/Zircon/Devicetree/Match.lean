import Mathlib
import Zircon.Lib.ExceptFold
import Zircon.Devicetree.Walk

/-!
# Matching over several walks

`devicetree::Match` (`lib/devicetree/include/lib/devicetree/matcher.h`) drives a
tuple of matchers over at most `max(kMaxScans) + 1` walks.  Each matcher has a
visit state (`MatcherVisitImpl`): its scan state, the node where it pruned its
subtree, and one extra scan of credit once it has asked for path resolution.
The walks end when every matcher is done or one is past its deadline
`kMaxScans + extra_alias_scan_ - 1`.

A matcher is a state machine over its own state `σ`; the internal
`AliasMatcher` takes part in every walk next to the given ones.

`MatcherVisitImpl::Unprune` resets the whole visit state when the walk leaves
the pruned subtree, the alias credit with it.  A matcher that asked for path
resolution in the first walk and prunes in a later one then loses its extra
scan, and `Match` declares it failed one walk early.
-/

namespace Zircon.Devicetree

/-- `devicetree::ScanState`. -/
inductive ScanState where
  | done
  | doneWithSubtree
  | active
  | needsPathResolution
  deriving DecidableEq, Repr

/-- `MatcherVisitImpl`. -/
structure MatcherVisit where
  state : ScanState := .active
  /-- `mark_`: the node whose subtree is pruned. -/
  mark : Option (List ℕ) := none
  extraAliasScan : ℕ := 0
  deriving DecidableEq, Repr

namespace MatcherVisit

def setState (v : MatcherVisit) (state : ScanState) : MatcherVisit :=
  { v with state, extraAliasScan := if state = .needsPathResolution then 1 else v.extraAliasScan }

def prune (v : MatcherVisit) (pos : List ℕ) : MatcherVisit :=
  { v with mark := some pos }

def unprune (v : MatcherVisit) (pos : List ℕ) : MatcherVisit :=
  if v.mark = some pos then {} else v

end MatcherVisit

/-- A matcher: `kMaxScans`, whether it is an `OkNodeMatcher`, and its callbacks
on its own state. -/
structure Matcher (σ : Type) where
  kMaxScans : ℕ
  matchOkNodesOnly : Bool
  onNode : σ → List String → List (String × List UInt8) → σ × ScanState
  onSubtree : σ → List String → σ × ScanState
  onScan : σ → σ × ScanState

/-- A call `Match` makes on a matcher besides the walk's. -/
inductive MatcherCall where
  | onDone
  | onError (message : String)
  deriving DecidableEq, Repr

/-- The `ZX_ASSERT` of the post-order callback: `OnSubtree` asked for path resolution. -/
inductive MatchPanic where
  | onSubtreeNeedsPathResolution
  deriving DecidableEq, Repr

/-- The property value as `PropertyValue::AsString` reads it: a trailing NUL is dropped. -/
def asString (value : List UInt8) : List UInt8 :=
  if value.getLast? = some 0 then value.dropLast else value

/-- `PropertyDecoder::is_status_ok`: no `status`, or a `status` that
`StatusProperty::Create` does not parse, or one that parses as okay. -/
def isStatusOk (props : List (String × List UInt8)) : Bool :=
  match props.lookup "status" with
  | none => true
  | some value =>
    let s := asString value
    s = "okay".toUTF8.toList || s = "ok".toUTF8.toList ||
      !(s = "disabled".toUTF8.toList || s = "fail".toUTF8.toList ||
        "fail-".toUTF8.toList.isPrefixOf s)

/-- `AliasMatcher::OnNode`: active above `/aliases`, done on it, and done with
every other subtree.  Names are compared whole. -/
def aliasOnNode (path : List String) : ScanState :=
  if path = ["", "aliases"] then .done
  else if path <+: ["", "aliases"] then .active
  else .doneWithSubtree

/-- `internal::AliasMatcher`, which has no state. -/
def aliasMatcher : Matcher Unit where
  kMaxScans := 1
  matchOkNodesOnly := false
  onNode _ path _ := ((), aliasOnNode path)
  onSubtree _ _ := ((), .active)
  onScan _ := ((), .done)

/-- The state of `Match` between callbacks: each matcher's own state with its
visit state, the alias matcher's visit state, and the `OnDone` and `OnError`
calls made so far, by matcher index. -/
structure MatchState (σ : Type) where
  entries : List (σ × MatcherVisit)
  aliasVisit : MatcherVisit
  calls : List (ℕ × MatcherCall)
  deriving DecidableEq, Repr

section Callbacks

variable {τ : Type}

/-- The part of `visit_and_prune` for one matcher. -/
def visitOne (m : Matcher τ) (v : NodeVisit) : τ × MatcherVisit → τ × MatcherVisit
  | (s, mv) =>
    if mv.state = .active then
      if m.matchOkNodesOnly ∧ !isStatusOk v.props then
        (s, (mv.setState .doneWithSubtree).prune v.pos)
      else
        let (s, st) := m.onNode s v.path v.props
        let mv := mv.setState st
        (s, if mv.state = .doneWithSubtree then mv.prune v.pos else mv)
    else (s, mv)

/-- The part of `unprune` for one matcher, with its `ZX_ASSERT`. -/
def leaveOne (m : Matcher τ) (v : NodeVisit) :
    τ × MatcherVisit → Except MatchPanic (τ × MatcherVisit)
  | (s, mv) =>
    if mv.state = .active then
      let (s, st) := m.onSubtree s v.path
      let mv := mv.setState (if st = .doneWithSubtree then .active else st)
      if mv.state = .needsPathResolution then .error .onSubtreeNeedsPathResolution
      else .ok (s, mv.unprune v.pos)
    else .ok (s, mv.unprune v.pos)

/-- The part of `on_scan` for one matcher. -/
def scanOne (m : Matcher τ) : τ × MatcherVisit → τ × MatcherVisit
  | (s, mv) =>
    if mv.state ≠ .done ∧ mv.state ≠ .needsPathResolution then
      let (s, st) := m.onScan s
      (s, mv.setState st)
    else (s, mv)

end Callbacks

/-- Whether a visit state keeps the walk going into the subtree. -/
def wantsSubtree (mv : MatcherVisit) : Bool :=
  mv.state = .active || mv.state = .needsPathResolution

namespace MatchState

variable {σ : Type} (ms : List (Matcher σ))

/-- `visit_and_prune`. -/
def visitAndPrune (st : MatchState σ) (v : NodeVisit) : MatchState σ × Bool :=
  let st := { st with entries := List.zipWith (fun m e ↦ visitOne m v e) ms st.entries
                      aliasVisit := (visitOne aliasMatcher v ((), st.aliasVisit)).2 }
  (st, st.entries.any (wantsSubtree ·.2) || wantsSubtree st.aliasVisit)

/-- `unprune`. -/
def leave (st : MatchState σ) (v : NodeVisit) : Except MatchPanic (MatchState σ) := do
  let entries ← (List.zip ms st.entries).mapM fun (m, e) ↦ leaveOne m v e
  let (_, aliasVisit) ← leaveOne aliasMatcher v ((), st.aliasVisit)
  pure { st with entries, aliasVisit }

/-- `on_scan`. -/
def onScan (st : MatchState σ) : MatchState σ :=
  { st with entries := List.zipWith scanOne ms st.entries
            aliasVisit := (scanOne aliasMatcher ((), st.aliasVisit)).2 }

/-- After the first walk, path resolution is asked for again. -/
def clearPathResolution (st : MatchState σ) : MatchState σ :=
  let clear (mv : MatcherVisit) :=
    if mv.state = .needsPathResolution then mv.setState .active else mv
  { st with entries := st.entries.map fun (s, mv) ↦ (s, clear mv), aliasVisit := clear st.aliasVisit }

end MatchState

/-- The result `all_matchers_done` reports. -/
inductive ScanResult where
  | matchersDone
  | matchersPending
  | matchersWithError
  deriving DecidableEq, Repr

/-- The check of one matcher in `all_matchers_done` after walk `currentScan`:
`some true` if it is done, `some false` if it is failed now, with the error. -/
def checkOne {τ : Type} (currentScan : ℕ) (m : Matcher τ) (mv : MatcherVisit) :
    Option Bool × Option MatcherCall :=
  if mv.state ≠ .done then
    if 0 < currentScan ∧ mv.state = .needsPathResolution then
      (some false, some (.onError "Matcher failed to resolved path after first scan."))
    else if currentScan ≥ m.kMaxScans + mv.extraAliasScan - 1 then
      (some false, some (.onError "Matcher failed to reach completion the requested scan number."))
    else (none, none)
  else (some true, none)

/-- `all_matchers_done`, with the `OnError` calls it makes. -/
def allMatchersDone {σ : Type} (ms : List (Matcher σ)) (currentScan : ℕ) (st : MatchState σ) :
    ScanResult × MatchState σ :=
  let checks := (List.zipWith (fun m e ↦ checkOne currentScan m e.2) ms st.entries).zipIdx
  let errors := checks.filterMap fun (c, i) ↦ c.2.map (i, ·)
  let finished := (checks.filter fun (c, _) ↦ c.1 = some true).length
  let res :=
    if finished = ms.length then .matchersDone
    else if errors = [] then .matchersPending
    else .matchersWithError
  (res, { st with calls := st.calls ++ errors })

/-- `on_done`. -/
def onDone {σ : Type} (st : MatchState σ) : MatchState σ :=
  { st with calls := st.calls ++ (st.entries.zipIdx.filterMap fun (e, i) ↦
      if e.2.state = .done then some (i, .onDone) else none) }

/-- `kMaxScanForMatchers`. -/
def kMaxScanForMatchers {σ : Type} (ms : List (Matcher σ)) : ℕ :=
  (ms.map (·.kMaxScans)).foldr max 0 + 1

/-- One walk of `Match`, with `visit_and_prune` and `unprune` as its visitors. -/
def matchWalk {σ : Type} (t : DtTree) (ms : List (Matcher σ)) (st : MatchState σ) :
    Except MatchPanic (MatchState σ) :=
  walk (fun st v ↦ pure (MatchState.visitAndPrune ms st v)) (MatchState.leave ms) t st

/-- The loop of `Match` from walk `i`, with `fuel` walks left: the result, the
final state, and the number of walks made. -/
def matchLoop {σ : Type} (t : DtTree) (ms : List (Matcher σ)) :
    ℕ → ℕ → MatchState σ → Except MatchPanic (Bool × MatchState σ × ℕ)
  | i, 0, st => .ok (true, st, i)
  | i, fuel + 1, st => do
    let st ← matchWalk t ms st
    let (res, st) := allMatchersDone ms i (MatchState.onScan ms st)
    if res ≠ .matchersPending then .ok (res = .matchersDone, onDone st, i + 1)
    else matchLoop t ms (i + 1) fuel (if i = 0 then st.clearPathResolution else st)

/-- `devicetree::Match` on matchers in the states `init`. -/
def matchTree {σ : Type} (t : DtTree) (ms : List (Matcher σ)) (init : List σ) :
    Except MatchPanic (Bool × MatchState σ × ℕ) :=
  matchLoop t ms 0 (kMaxScanForMatchers ms) ⟨init.map (·, {}), {}, []⟩

/-! ### A matcher that loses its alias credit -/

/-- A tree of one node, the root. -/
def rootOnly : DtTree :=
  .node "" [] []

/-- A matcher of two scans whose state counts its `OnNode` calls: it asks for
path resolution on its first, prunes on its second and is done on its third. -/
def prunesAfterAlias : Matcher ℕ where
  kMaxScans := 2
  matchOkNodesOnly := false
  onNode n _ _ :=
    (n + 1, if n = 0 then .needsPathResolution else if n = 1 then .doneWithSubtree else .done)
  onSubtree n _ := (n, .active)
  onScan n := (n, .active)

theorem matchTree_prunesAfterAlias_fails_early :
    0 < prunesAfterAlias.kMaxScans ∧
      (∀ n path, (prunesAfterAlias.onSubtree n path).2 ≠ .needsPathResolution) ∧
      (prunesAfterAlias.onNode 0 [""] []).2 = .needsPathResolution ∧
      (prunesAfterAlias.onNode 2 [""] []).2 = .done ∧
      kMaxScanForMatchers [prunesAfterAlias] = prunesAfterAlias.kMaxScans + 1 ∧
      matchTree rootOnly [prunesAfterAlias] [0] =
        .ok (false, ⟨[(2, {})], { state := .done },
          [(0, .onError "Matcher failed to reach completion the requested scan number.")]⟩, 2) := by
  refine ⟨by decide, fun _ _ ↦ nofun, rfl, rfl, rfl, ?_⟩
  decide

end Zircon.Devicetree
