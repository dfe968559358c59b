import Mathlib

/-!
# Validation of the flat system topology

`Graph::Validate` walks the flat `zbi_topology_node_t` array backwards,
keeping one expected parent index per depth in `parents[]`, and
`Graph::Initialize` then links every node to `&nodes[parent_index]`
(lib/topology/system-topology.cc).

The discriminant type and the two ZBI constants the routine compares against
(`ZBI_TOPOLOGY_ENTITY_PROCESSOR` and `ZBI_TOPOLOGY_NO_PARENT`) come from the
ZBI headers, which are not part of this tree; they are parameters here.

What the check does establish is proved for every array: the `parents[]`
accesses stay in bounds, the last node is a processor, and two adjacent nodes
are related exactly as the walk demands.  It does not establish that parent
indices are in range: the reset on a new processor branch leaves the upper
levels of `parents[]` filled, and the final index-0 check only rejects a
parent at the top when the level above is unset.
-/

namespace Zircon.Topology

/-- `kMaxTopologyDepth`. -/
def kMaxTopologyDepth : ℕ := 20

/-- `zbi_topology_node_t`, with the fields the validation and linking read. -/
structure ZbiTopologyNode (E : Type) where
  discriminant : E
  parentIndex : UInt16
  deriving DecidableEq, Repr

/-- The locals of `Graph::Validate`: `parents[kMaxTopologyDepth]`,
`current_type` and `current_depth`. -/
structure ValidateState (E : Type) where
  parents : List UInt16
  currentType : Option E
  currentDepth : ℕ

variable {E : Type} [DecidableEq E] (processor : E) (noParent : UInt16)

/-- The reset loop `for (int i = current_depth - 1; i >= 0; --i) parents[i] = NO_PARENT`. -/
def clearLevels : List UInt16 → ℕ → List UInt16
  | parents, 0 => parents
  | parents, i + 1 => clearLevels (parents.set i noParent) i

/-- `parents[depth]`. -/
def ValidateState.parentAt (st : ValidateState E) (depth : ℕ) : UInt16 :=
  st.parents.getD depth noParent

/-- The handling of a change of `current_type`: climb one level when the node
is the expected parent, restart from the bottom on a new processor branch,
and reject otherwise. -/
def changeLevel (st : ValidateState E) (currentIndex : ℕ) (node : ZbiTopologyNode E) :
    Option (ValidateState E) :=
  match st.currentType with
  | none => some { st with currentType := some node.discriminant }
  | some t =>
    if t = node.discriminant then some st
    else if currentIndex = (st.parentAt noParent st.currentDepth).toNat then
      if st.currentDepth + 1 = kMaxTopologyDepth then none
      else some { st with currentDepth := st.currentDepth + 1,
                          currentType := some node.discriminant }
    else if node.discriminant = processor then
      some { parents := clearLevels noParent st.parents st.currentDepth,
             currentType := some node.discriminant, currentDepth := 0 }
    else none

/-- "Parents at level do not match": the first node seen at a level records
its parent, every later one must agree. -/
def recordParent (st : ValidateState E) (node : ZbiTopologyNode E) :
    Option (ValidateState E) :=
  if st.parentAt noParent st.currentDepth = noParent then
    some { st with parents := st.parents.set st.currentDepth node.parentIndex }
  else if st.parentAt noParent st.currentDepth ≠ node.parentIndex then none
  else some st

/-- The three closing checks of the loop body: leaves are exactly the
processors, and the top level at index 0 has no parent unless the level above
it is recorded. -/
def checkNode (st : ValidateState E) (currentIndex : ℕ) (node : ZbiTopologyNode E) : Bool :=
  !(st.currentDepth = 0 && node.discriminant ≠ processor) &&
    !(st.currentDepth ≠ 0 && node.discriminant = processor) &&
    !(currentIndex = 0 && st.parentAt noParent st.currentDepth ≠ noParent &&
      (st.currentDepth = kMaxTopologyDepth - 1 ||
        st.parentAt noParent (st.currentDepth + 1) = noParent))

/-- One iteration of the loop of `Graph::Validate`, at `current_index`. -/
def validateNode (st : ValidateState E) (currentIndex : ℕ) (node : ZbiTopologyNode E) :
    Option (ValidateState E) := do
  let st ← changeLevel processor noParent st currentIndex node
  let st ← recordParent noParent st node
  if checkNode processor noParent st currentIndex node then some st else none

/-- The loop of `Graph::Validate` over `current_index = k - 1, …, 0`. -/
def validateFrom (nodes : List (ZbiTopologyNode E)) : ℕ → ValidateState E → Bool
  | 0, _ => true
  | k + 1, st =>
    match nodes[k]? with
    | none => false
    | some node =>
      match validateNode processor noParent st k node with
      | none => false
      | some st' => validateFrom nodes k st'

/-- The state before the first iteration. -/
def initialValidateState : ValidateState E :=
  { parents := List.replicate kMaxTopologyDepth noParent, currentType := none,
    currentDepth := 0 }

/-- `Graph::Validate(nodes, count)`. -/
def validate (nodes : List (ZbiTopologyNode E)) : Bool :=
  validateFrom processor noParent nodes nodes.length (initialValidateState noParent)

/-! ## The loop invariant -/

/-- The array invariant of the loop: `parents[]` keeps its `kMaxTopologyDepth`
entries and `current_depth` indexes one of them. -/
def ValidateState.WellFormed (st : ValidateState E) : Prop :=
  st.parents.length = kMaxTopologyDepth ∧ st.currentDepth < kMaxTopologyDepth

/-- After a node has been visited, the current level has its type and its
parent recorded. -/
def ValidateState.Visited (st : ValidateState E) (node : ZbiTopologyNode E) : Prop :=
  st.currentType = some node.discriminant ∧ st.parentAt noParent st.currentDepth = node.parentIndex

@[simp] theorem length_clearLevels (parents : List UInt16) (i : ℕ) :
    (clearLevels noParent parents i).length = parents.length := by
  induction i generalizing parents with
  | zero => rfl
  | succ i ih => simp [clearLevels, ih]

omit [DecidableEq E] in
theorem wellFormed_initialValidateState :
    (initialValidateState (E := E) noParent).WellFormed := by
  simp [initialValidateState, ValidateState.WellFormed, kMaxTopologyDepth]

theorem changeLevel_wellFormed {st st' : ValidateState E} {i : ℕ} {node : ZbiTopologyNode E}
    (hst : st.WellFormed) (h : changeLevel processor noParent st i node = some st') :
    st'.WellFormed := by
  obtain ⟨hlen, hdepth⟩ := hst
  unfold changeLevel at h
  split at h
  · cases h
    exact ⟨hlen, hdepth⟩
  · split_ifs at h with hsame hparent hmax hproc <;> cases h
    · exact ⟨hlen, hdepth⟩
    · exact ⟨hlen, show st.currentDepth + 1 < kMaxTopologyDepth by omega⟩
    · simp [ValidateState.WellFormed, hlen, kMaxTopologyDepth]

theorem changeLevel_currentType {st st' : ValidateState E} {i : ℕ} {node : ZbiTopologyNode E}
    (h : changeLevel processor noParent st i node = some st') :
    st'.currentType = some node.discriminant := by
  unfold changeLevel at h
  split at h
  · cases h
    rfl
  · split_ifs at h with hsame <;> cases h <;> simp [*]

theorem changeLevel_of_ne {st st' : ValidateState E} {i : ℕ} {node : ZbiTopologyNode E}
    {t : E} (htype : st.currentType = some t) (hne : t ≠ node.discriminant)
    (h : changeLevel processor noParent st i node = some st') :
    i = (st.parentAt noParent st.currentDepth).toNat ∨ node.discriminant = processor := by
  simp only [changeLevel, htype, hne, if_false] at h
  split_ifs at h with hparent hmax hproc
  · exact .inl hparent
  · exact .inr hproc

omit [DecidableEq E] in
theorem recordParent_wellFormed {st st' : ValidateState E} {node : ZbiTopologyNode E}
    (hst : st.WellFormed) (h : recordParent noParent st node = some st') : st'.WellFormed := by
  unfold recordParent at h
  split_ifs at h <;> cases h
  · simpa [ValidateState.WellFormed] using hst
  · exact hst

omit [DecidableEq E] in
theorem recordParent_visited {st st' : ValidateState E} {node : ZbiTopologyNode E}
    (hst : st.WellFormed) (htype : st.currentType = some node.discriminant)
    (h : recordParent noParent st node = some st') : st'.Visited noParent node := by
  obtain ⟨hlen, hdepth⟩ := hst
  unfold recordParent at h
  split_ifs at h with hfree hdiff <;> cases h
  · refine ⟨htype, ?_⟩
    simp [ValidateState.parentAt, List.getD_eq_getElem?_getD, hlen, hdepth]
  · exact ⟨htype, not_not.mp hdiff⟩

omit [DecidableEq E] in
theorem recordParent_eq {st st' : ValidateState E} {node : ZbiTopologyNode E}
    (hset : st.parentAt noParent st.currentDepth ≠ noParent)
    (h : recordParent noParent st node = some st') :
    node.parentIndex = st.parentAt noParent st.currentDepth := by
  unfold recordParent at h
  rw [if_neg hset] at h
  split_ifs at h with hdiff
  exact (not_not.mp hdiff).symm

theorem validateNode_eq_some {st st' : ValidateState E} {i : ℕ} {node : ZbiTopologyNode E}
    (h : validateNode processor noParent st i node = some st') :
    ∃ st₁, changeLevel processor noParent st i node = some st₁ ∧
      recordParent noParent st₁ node = some st' ∧
      checkNode processor noParent st' i node = true := by
  simp only [validateNode, Option.bind_eq_bind, Option.bind_eq_some_iff] at h
  obtain ⟨st₁, h₁, st₂, h₂, h₃⟩ := h
  split_ifs at h₃ with hcheck
  cases h₃
  exact ⟨st₁, h₁, h₂, hcheck⟩

theorem validateNode_wellFormed_visited {st st' : ValidateState E} {i : ℕ}
    {node : ZbiTopologyNode E} (hst : st.WellFormed)
    (h : validateNode processor noParent st i node = some st') :
    st'.WellFormed ∧ st'.Visited noParent node := by
  obtain ⟨st₁, h₁, h₂, -⟩ := validateNode_eq_some processor noParent h
  have hwf₁ := changeLevel_wellFormed processor noParent hst h₁
  exact ⟨recordParent_wellFormed noParent hwf₁ h₂,
    recordParent_visited noParent hwf₁ (changeLevel_currentType processor noParent h₁) h₂⟩

/-- What one iteration demands of a node `node` at index `i` visited right after
`prev`: a sibling of the same type shares a recorded parent, and a change to a
non-processor type happens exactly at the previous node's parent. -/
def AdjacentOk (prev node : ZbiTopologyNode E) (i : ℕ) : Prop :=
  (prev.discriminant = node.discriminant → prev.parentIndex ≠ noParent →
      node.parentIndex = prev.parentIndex) ∧
    (prev.discriminant ≠ node.discriminant → node.discriminant ≠ processor →
      i = prev.parentIndex.toNat)

theorem validateNode_adjacentOk {st st' : ValidateState E} {i : ℕ}
    {prev node : ZbiTopologyNode E} (hprev : st.Visited noParent prev)
    (h : validateNode processor noParent st i node = some st') :
    AdjacentOk processor noParent prev node i := by
  obtain ⟨htype, hparent⟩ := hprev
  obtain ⟨st₁, h₁, h₂, -⟩ := validateNode_eq_some processor noParent h
  constructor
  · intro hsame hset
    have hst₁ : st₁ = st := by
      simpa [changeLevel, htype, hsame] using h₁.symm
    subst hst₁
    rw [recordParent_eq noParent (hparent ▸ hset) h₂, hparent]
  · intro hne hproc
    rcases changeLevel_of_ne processor noParent htype hne h₁ with hi | hp
    · rw [hi, hparent]
    · exact absurd hp hproc

theorem validateNode_initial {st' : ValidateState E} {i : ℕ} {node : ZbiTopologyNode E}
    (h : validateNode processor noParent (initialValidateState noParent) i node = some st') :
    node.discriminant = processor := by
  obtain ⟨st₁, h₁, h₂, hcheck⟩ := validateNode_eq_some processor noParent h
  have hdepth₁ : st₁.currentDepth = 0 := by
    simp only [changeLevel, initialValidateState] at h₁
    cases h₁
    rfl
  have hdepth : st'.currentDepth = 0 := by
    unfold recordParent at h₂
    split_ifs at h₂ <;> cases h₂ <;> exact hdepth₁
  by_contra hne
  simp [checkNode, hdepth, hne] at hcheck

/-! ## Whole runs -/

theorem validateFrom_succ {nodes : List (ZbiTopologyNode E)} {k : ℕ} {st : ValidateState E}
    (h : validateFrom processor noParent nodes (k + 1) st = true) :
    ∃ node st', nodes[k]? = some node ∧ validateNode processor noParent st k node = some st' ∧
      validateFrom processor noParent nodes k st' = true := by
  simp only [validateFrom] at h
  split at h
  · cases h
  · rename_i node hnode
    split at h
    · cases h
    · rename_i st' hst'
      exact ⟨node, st', hnode, hst', h⟩

theorem validateFrom_adjacentOk (nodes : List (ZbiTopologyNode E)) :
    ∀ (k : ℕ) (st : ValidateState E), st.WellFormed →
      (∀ hk : k < nodes.length, st.Visited noParent nodes[k]) →
      validateFrom processor noParent nodes k st = true →
      ∀ i (hi : i + 1 < nodes.length), i < k →
        AdjacentOk processor noParent nodes[i + 1] nodes[i] i := by
  intro k
  induction k with
  | zero => intro st _ _ _ i _ hik; omega
  | succ k ih =>
      intro st hst hvisited h i hi hik
      obtain ⟨node, st', hnode, hstep, hrest⟩ := validateFrom_succ processor noParent h
      have hk : k < nodes.length := (List.getElem?_eq_some_iff.mp hnode).1
      have hnode' : nodes[k] = node := (List.getElem?_eq_some_iff.mp hnode).2
      obtain ⟨hwf', hvis'⟩ := validateNode_wellFormed_visited processor noParent hst hstep
      rcases Nat.lt_succ_iff_lt_or_eq.mp hik with hlt | rfl
      · refine ih st' hwf' (fun _ ↦ ?_) hrest i hi hlt
        rw [hnode']
        exact hvis'
      · rw [hnode']
        exact validateNode_adjacentOk processor noParent (hvisited hi) hstep

theorem validate_adjacentOk {nodes : List (ZbiTopologyNode E)}
    (h : validate processor noParent nodes = true) (i : ℕ) (hi : i + 1 < nodes.length) :
    AdjacentOk processor noParent nodes[i + 1] nodes[i] i :=
  validateFrom_adjacentOk processor noParent nodes nodes.length _
    (wellFormed_initialValidateState noParent) (fun hk ↦ absurd hk (lt_irrefl _)) h i hi
    (by omega)

theorem validate_last_processor {nodes : List (ZbiTopologyNode E)}
    (h : validate processor noParent nodes = true) (hne : nodes ≠ []) :
    (nodes.getLast hne).discriminant = processor := by
  obtain ⟨n, hn⟩ : ∃ n, nodes.length = n + 1 :=
    Nat.exists_eq_succ_of_ne_zero (by simpa using hne)
  unfold validate at h
  rw [hn] at h
  obtain ⟨node, st', hnode, hstep, -⟩ := validateFrom_succ processor noParent h
  have hlast : nodes.getLast hne = node := by
    rw [List.getLast_eq_getElem]
    simpa [hn] using (List.getElem?_eq_some_iff.mp hnode).2
  rw [hlast]
  exact validateNode_initial processor noParent hstep

/-- What `Graph::Validate` guarantees of an array it accepts: each node fits the
one after it, and the last node is a processor. -/
theorem validate_guarantees {nodes : List (ZbiTopologyNode E)} (h : validate processor noParent nodes = true) :
    (∀ i (hi : i + 1 < nodes.length), AdjacentOk processor noParent nodes[i + 1] nodes[i] i) ∧
      ∀ hne : nodes ≠ [], (nodes.getLast hne).discriminant = processor :=
  ⟨validate_adjacentOk processor noParent h, validate_last_processor processor noParent h⟩

/-! ## Linking the graph -/

/-- How `Graph::Initialize` stops: validation rejects the array
(`ZX_ERR_INVALID_ARGS`), or node `index` reaches the
`ZX_DEBUG_ASSERT_MSG(parent_index < count)` that it leaves to validation. -/
inductive InitializeError
  | invalidArgs
  | parentOutOfRange (index : ℕ)
  deriving DecidableEq, Repr

/-- The links `Graph::Initialize` builds: the parent of every node and the
children of every node, in array order. -/
structure Graph where
  parent : List (Option ℕ)
  children : List (List ℕ)
  deriving DecidableEq, Repr

/-- The linking part of one iteration of `Graph::Initialize`:
`node->parent = &nodes[parent_index]` and
`node->parent->children.push_back(node)`. -/
def linkNode (count : ℕ) (g : Graph) (index : ℕ) (node : ZbiTopologyNode E) :
    Except InitializeError Graph :=
  if node.parentIndex = noParent then .ok { g with parent := g.parent ++ [none] }
  else if node.parentIndex.toNat < count then
    .ok { parent := g.parent ++ [some node.parentIndex.toNat],
          children := g.children.modify node.parentIndex.toNat (· ++ [index]) }
  else .error (.parentOutOfRange index)

/-- `Graph::Initialize(graph, flat_nodes, count)`, restricted to the links it
builds. -/
def initializeGraph (nodes : List (ZbiTopologyNode E)) : Except InitializeError Graph :=
  if validate processor noParent nodes then
    nodes.zipIdx.foldlM (fun g entry ↦ linkNode noParent nodes.length g entry.2 entry.1)
      { parent := [], children := List.replicate nodes.length [] }
  else .error .invalidArgs

/-! ## What validation is expected to guarantee -/

/-- Every parent index is absent or names an earlier node of the array. -/
def ParentIndicesBelow (nodes : List (ZbiTopologyNode E)) : Prop :=
  ∀ i (_hi : i < nodes.length),
    nodes[i].parentIndex = noParent ∨ nodes[i].parentIndex.toNat < i

instance (nodes : List (ZbiTopologyNode E)) : Decidable (ParentIndicesBelow noParent nodes) :=
  inferInstanceAs (Decidable (∀ i (_hi : i < nodes.length), _))

/-- Following parent links from node `i` reaches a node with no parent within
`steps` steps, without leaving the array. -/
def reachesRoot (nodes : List (ZbiTopologyNode E)) : ℕ → ℕ → Bool
  | steps, i =>
    match nodes[i]? with
    | none => false
    | some node =>
      if node.parentIndex = noParent then true
      else
        match steps with
        | 0 => false
        | s + 1 => reachesRoot nodes s node.parentIndex.toNat

/-- The ZBI value of `ZBI_TOPOLOGY_ENTITY_PROCESSOR`, used to instantiate the
discriminant parameter on concrete arrays. -/
def zbiTopologyEntityProcessor : ℕ := 1

/-- The ZBI value of `ZBI_TOPOLOGY_ENTITY_CLUSTER`. -/
def zbiTopologyEntityCluster : ℕ := 2

/-- The ZBI value of `ZBI_TOPOLOGY_NO_PARENT`. -/
def zbiTopologyNoParent : UInt16 := 0xFFFF

/-- Two branches: a cluster with one processor at indices 1–2, and a lone
processor at index 0 that names itself as its parent, while the cluster
names the nonexistent node 5. -/
def danglingParents : List (ZbiTopologyNode ℕ) :=
  [⟨zbiTopologyEntityProcessor, 0⟩, ⟨zbiTopologyEntityCluster, 5⟩,
    ⟨zbiTopologyEntityProcessor, 1⟩]

/-- `Graph::Validate` accepts `danglingParents`: node 0 is its own parent, so
the parent chain from it never reaches the top, and node 1 names index 5 of a
three-node array, which `Graph::Initialize` then dereferences. -/
theorem validate_accepts_danglingParents :
    validate zbiTopologyEntityProcessor zbiTopologyNoParent danglingParents = true ∧
      ¬ ParentIndicesBelow zbiTopologyNoParent danglingParents ∧
      reachesRoot zbiTopologyNoParent danglingParents 20 0 = false ∧
      initializeGraph zbiTopologyEntityProcessor zbiTopologyNoParent danglingParents =
        .error (.parentOutOfRange 1) := by
  decide

theorem validate_guarantees_danglingParents :
    validate zbiTopologyEntityProcessor zbiTopologyNoParent danglingParents = true ∧
      (∀ i (hi : i + 1 < danglingParents.length), AdjacentOk zbiTopologyEntityProcessor zbiTopologyNoParent
        danglingParents[i + 1] danglingParents[i] i) ∧
      ∀ hne : danglingParents ≠ [], (danglingParents.getLast hne).discriminant = zbiTopologyEntityProcessor :=
  have h : validate zbiTopologyEntityProcessor zbiTopologyNoParent danglingParents = true := by decide
  ⟨h, validate_guarantees _ _ h⟩

end Zircon.Topology
