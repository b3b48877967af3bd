import VirtualPeople.Cc.Acceptance
import VirtualPeople.Cc.RoutingRuns

/-!
# Variants of a model

Two trees that branch alike and differ at their leaves only, applied to two
events that every branch treats alike.  What the leaves make of such events is
carried through the branches, so that a fact about two leaves becomes a fact
about two models.
-/

namespace VirtualPeople

namespace Cc

variable {X : Externals} {Node ρ ρ' : Type}

/-! ## Events that are treated alike -/

/-- Related events have the same fingerprint, also when it is replaced. -/
structure KeepsFingerprints (related : X.Event → X.Event → Prop) : Prop where
  same : ∀ {event event'}, related event event' →
    event.actingFingerprint = event'.actingFingerprint
  replaced : ∀ {event event'} fingerprint, related event event' →
    related { event with actingFingerprint := some fingerprint }
      { event' with actingFingerprint := some fingerprint }

theorem keepsFingerprints_eq : KeepsFingerprints (X := X) (· = ·) where
  same same := congrArg LabelerEvent.actingFingerprint same
  replaced fingerprint same := by rw [same]

namespace BranchNodeImpl

/-- The conditions, updates and person indexes of the branch do not tell
related events apart. -/
structure Respects (related : X.Event → X.Event → Prop)
    (update : AttributesUpdaterInterface X Node → X.Event → Result X.Event)
    (impl : BranchNodeImpl X Node) : Prop where
  conditions : ∀ matcher ∈ impl.matcher, ∀ filter ∈ matcher.filters,
    ∀ event event', related event event' →
      X.isMatch filter event = X.isMatch filter event'
  updaters : ∀ updater ∈ impl.updaters, ∀ event event', related event event' →
    Lockstep related (update updater event) (update updater event')
  expectation : ∀ multiplicity ∈ impl.multiplicity, ∀ event event',
    related event event' → multiplicity.expectedMultiplicity event =
      multiplicity.expectedMultiplicity event'
  personIndex : ∀ multiplicity ∈ impl.multiplicity, ∀ event event',
    related event event' → ∀ index, related
      (X.setValueToProto .int32 event multiplicity.personIndexField index)
      (X.setValueToProto .int32 event' multiplicity.personIndexField index)

theorem respects_eq
    (update : AttributesUpdaterInterface X Node → X.Event → Result X.Event)
    (impl : BranchNodeImpl X Node) : impl.Respects (· = ·) update where
  conditions _ _ _ _ _ _ same := by rw [same]
  updaters _ _ _ _ same := by
    rw [same]
    exact .refl _
  expectation _ _ _ _ same := by rw [same]
  personIndex _ _ _ _ same _ := by rw [same]

section Walk

variable {related : X.Event → X.Event → Prop}
  {update : AttributesUpdaterInterface X Node → X.Event → Result X.Event}
  {impl : BranchNodeImpl X Node} {event event' : X.Event}

/-- Events that match the same filters match the same one first. -/
theorem findIdx?_isMatch {filters : List X.FieldFilter}
    (same : ∀ filter ∈ filters,
      X.isMatch filter event = X.isMatch filter event') :
    filters.findIdx? (X.isMatch · event) =
      filters.findIdx? (X.isMatch · event') := by
  induction filters with
  | nil => rfl
  | cons filter filters inductionHypothesis =>
    have ⟨head, tail⟩ := List.forall_mem_cons.mp same
    rw [List.findIdx?_cons, List.findIdx?_cons, head,
      inductionHypothesis tail]

/-- Related events select the same index. -/
theorem Respects.selectIndex (respects : impl.Respects related update)
    (fingerprints : KeepsFingerprints related) (events : related event event') :
    impl.selectIndex event = impl.selectIndex event' := by
  unfold BranchNodeImpl.selectIndex
  cases impl.hashing with
  | some hashing => rw [fingerprints.same events]
  | none =>
    cases matcherEq : impl.matcher with
    | none => rfl
    | some matcher =>
      have sameMatch :
          matcher.getFirstMatch event = matcher.getFirstMatch event' := by
        unfold FieldFiltersMatcher.getFirstMatch
        rw [findIdx?_isMatch fun filter member =>
          respects.conditions matcher matcherEq filter member event event'
            events]
      simp only [sameMatch]

/-- Elements read from two lists at one index are a pair of the lists. -/
theorem elementAt_zip {α β : Type} {elements : List α} {elements' : List β}
    (sameLength : elements'.length = elements.length) (index : ℤ) :
    Lockstep (fun element element' =>
        (element, element') ∈ elements.zip elements')
      (elementAt elements index) (elementAt elements' index) := by
  unfold elementAt
  split_ifs
  · exact .errors _ _
  · rcases Nat.lt_or_ge index.toNat elements.length with inside | outside
    · have inside' : index.toNat < elements'.length := by omega
      rw [List.getElem?_eq_getElem inside, List.getElem?_eq_getElem inside']
      refine .ok (List.mem_iff_getElem.mpr ⟨index.toNat, ?_, ?_⟩)
      · rw [List.length_zip]
        omega
      · exact List.getElem_zip
    · rw [List.getElem?_eq_none outside,
        List.getElem?_eq_none (by omega : elements'.length ≤ index.toNat)]
      exact .errors _ _

variable {childNodes' : List Node}

/-- Related events select children at the same position. -/
theorem Respects.selectChild (respects : impl.Respects related update)
    (fingerprints : KeepsFingerprints related)
    (sameLength : childNodes'.length = impl.childNodes.length)
    (events : related event event') :
    Lockstep (fun child child' =>
        (child, child') ∈ impl.childNodes.zip childNodes')
      (impl.selectChild event)
      ({ impl with childNodes := childNodes' }.selectChild event') := by
  have sameIndex : impl.selectIndex event =
      { impl with childNodes := childNodes' }.selectIndex event' :=
    respects.selectIndex fingerprints events
  unfold BranchNodeImpl.selectChild
  rw [← sameIndex]
  refine .bind_eq (.refl _) fun selectedIndex => ?_
  simp only [sameLength]
  split_ifs
  · exact .errors _ _
  · exact elementAt_zip sameLength selectedIndex

/-- Related events are cloned to related ones. -/
theorem Respects.dispatchMultiplicity {multiplicity : MultiplicityImpl X}
    (respects : impl.Respects related update)
    (isMultiplicity : multiplicity ∈ impl.multiplicity)
    (fingerprints : KeepsFingerprints related) (events : related event event') :
    Lockstep (Dispatch.Related related)
      (BranchNodeImpl.dispatchMultiplicity multiplicity event)
      (BranchNodeImpl.dispatchMultiplicity multiplicity event') := by
  have personIndex := respects.personIndex multiplicity isMultiplicity
  have sameCount : multiplicity.computeEventMultiplicity event =
      multiplicity.computeEventMultiplicity event' := by
    unfold MultiplicityImpl.computeEventMultiplicity
    rw [respects.expectation multiplicity isMultiplicity event event' events,
      fingerprints.same events]
  unfold BranchNodeImpl.dispatchMultiplicity
  rw [← sameCount]
  refine .bind_eq (.refl _) fun cloneCount => ?_
  split_ifs
  · exact .ok (.onward (personIndex event event' events 0))
  · refine .ok (.clones ?_)
    rw [List.forall₂_map_left_iff, List.forall₂_map_right_iff,
      List.forall₂_same]
    intro person _
    unfold cloneEvent
    rw [← fingerprints.same events]
    exact personIndex _ _ (fingerprints.replaced _ events) _

/-- Related events are handed on as related ones. -/
theorem Respects.dispatch (respects : impl.Respects related update)
    (fingerprints : KeepsFingerprints related) (events : related event event') :
    Lockstep (Dispatch.Related related) (impl.dispatch update event)
      (impl.dispatch update event') := by
  unfold BranchNodeImpl.dispatch
  split
  · rename_i multiplicity multiplicityEq
    split_ifs
    · exact respects.dispatchMultiplicity multiplicityEq fingerprints events
    · exact .errors _ _
  · refine .bind (.foldlM (List.forall₂_same.mpr ?_) events)
      fun _ _ updated => .ok (.onward updated)
    exact fun updater member event event' =>
      respects.updaters updater member event event'

/-- Events handed on alike are walked alike when the walks match at the pairs of
children and merge matching values to matching values. -/
theorem Respects.walkDispatched {excused : Fault → Prop} {values : ρ → ρ' → Prop}
    {visit : Node → X.Event → Result ρ} {visit' : Node → X.Event → Result ρ'}
    {merge : X.Event → List ρ → ρ} {merge' : X.Event → List ρ' → ρ'}
    (respects : impl.Respects related update)
    (fingerprints : KeepsFingerprints related)
    (sameLength : childNodes'.length = impl.childNodes.length)
    (visits : ∀ pair ∈ impl.childNodes.zip childNodes', ∀ event event',
      related event event' →
        Match excused values (visit pair.1 event) (visit' pair.2 event'))
    (merges : ∀ lists lists', List.Forall₂ values lists lists' →
      values (merge event lists) (merge' event' lists'))
    {dispatched dispatched' : Dispatch X}
    (same : Dispatch.Related related dispatched dispatched') :
    Match excused values (impl.walkDispatched visit merge event dispatched)
      ({ impl with childNodes := childNodes' }.walkDispatched visit' merge'
        event' dispatched') := by
  have childMatch (event event' : X.Event) (events : related event event') :
      Match excused values (impl.walkChild visit event)
        ({ impl with childNodes := childNodes' }.walkChild visit' event') :=
    .bind (Match.excusing
        (respects.selectChild fingerprints sameLength events))
      fun child child' pair => visits (child, child') pair event event' events
  cases same with
  | onward events => exact childMatch _ _ events
  | clones each =>
    exact .bind (.mapM (each.imp childMatch)) fun lists lists' both =>
      .ok (merges lists lists' both)

/-- Walks of related events match when they match at the pairs of children and
merge matching values to matching values. -/
theorem Respects.walk {excused : Fault → Prop} {values : ρ → ρ' → Prop}
    {visit : Node → X.Event → Result ρ} {visit' : Node → X.Event → Result ρ'}
    {merge : X.Event → List ρ → ρ} {merge' : X.Event → List ρ' → ρ'}
    (respects : impl.Respects related update)
    (fingerprints : KeepsFingerprints related)
    (sameLength : childNodes'.length = impl.childNodes.length)
    (visits : ∀ pair ∈ impl.childNodes.zip childNodes', ∀ event event',
      related event event' →
        Match excused values (visit pair.1 event) (visit' pair.2 event'))
    (merges : ∀ lists lists', List.Forall₂ values lists lists' →
      values (merge event lists) (merge' event' lists'))
    (events : related event event') :
    Match excused values (impl.walk update visit merge event)
      ({ impl with childNodes := childNodes' }.walk update visit' merge'
        event') :=
  .bind (Match.excusing (respects.dispatch fingerprints events))
    fun _ _ => respects.walkDispatched fingerprints sameLength visits merges

end Walk

end BranchNodeImpl

/-! ## Built trees -/

namespace ModelNode

/-- Two trees with the same branches, whose leaves are related. -/
inductive Variant (leaves : LeafNode → LeafNode → Prop) :
    ModelNode X → ModelNode X → Prop
  | leafNode {leaf leaf' : LeafNode} (related : leaves leaf leaf') :
      Variant leaves (.leafNode leaf) (.leafNode leaf')
  | branchNode {impl : BranchNodeImpl X (ModelNode X)}
      {childNodes' : List (ModelNode X)}
      (sameLength : childNodes'.length = impl.childNodes.length)
      (children : ∀ pair ∈ impl.childNodes.zip childNodes',
        Variant leaves pair.1 pair.2) :
      Variant leaves (.branchNode impl)
        (.branchNode { impl with childNodes := childNodes' })

theorem Variant.of_forall₂ {leaves : LeafNode → LeafNode → Prop}
    {impl : BranchNodeImpl X (ModelNode X)} {childNodes' : List (ModelNode X)}
    (children : List.Forall₂ (Variant leaves) impl.childNodes childNodes') :
    Variant leaves (.branchNode impl)
      (.branchNode { impl with childNodes := childNodes' }) := by
  have ⟨sameLength, pairs⟩ := List.forall₂_iff_zip.mp children
  exact .branchNode sameLength.symm fun pair member => pairs member

variable {leaves : LeafNode → LeafNode → Prop} {excused : Fault → Prop}
  {related final : X.Event → X.Event → Prop} {node node' : ModelNode X}
  {event event' : X.Event}

/-- What holds of related leaves applied to related events holds of variants
whose branches respect the events, if folding clones back keeps it. -/
theorem Variant.apply_match (variant : Variant leaves node node')
    (respects : node.EveryBranch (BranchNodeImpl.Respects related updateEvent))
    (fingerprints : KeepsFingerprints related)
    (atLeaves : ∀ leaf leaf', leaves leaf leaf' → ∀ event event',
      related event event' →
        Match excused final (applyToCopy leaf.apply event)
          (applyToCopy leaf'.apply event'))
    (clones : ∀ event event' clones clones', related event event' →
      List.Forall₂ final clones clones' →
        final (clones.foldl BranchNodeImpl.foldBack event)
          (clones'.foldl BranchNodeImpl.foldBack event'))
    (events : related event event') :
    Match excused final (applyToCopy node.apply event)
      (applyToCopy node'.apply event') := by
  induction variant generalizing event event' with
  | leafNode sameLeaf =>
    rw [apply_leafNode, apply_leafNode]
    exact atLeaves _ _ sameLeaf event event' events
  | branchNode sameLength _ inductionHypothesis =>
    cases respects with
    | branchNode holds below =>
      rw [applyToCopy_branchNode, applyToCopy_branchNode]
      refine holds.walk fingerprints sameLength ?_
        (fun lists lists' => clones event event' lists lists' events) events
      intro pair member event event' events
      exact inductionHypothesis pair member
        (below pair.1 (List.of_mem_zip member).1) events

theorem everyBranch_respects_eq (node : ModelNode X) :
    node.EveryBranch (BranchNodeImpl.Respects (· = ·) updateEvent) := by
  induction node using ModelNode.induction with
  | leaf leaf => exact .leafNode leaf
  | branch impl children _ =>
    exact .branchNode (BranchNodeImpl.respects_eq _ _) children

/-- Variants whose leaves do the same to every event do the same as well. -/
theorem Variant.apply_lockstep_eq (variant : Variant leaves node node')
    (atLeaves : ∀ leaf leaf', leaves leaf leaf' → ∀ event : X.Event,
      Lockstep (· = ·) (applyToCopy leaf.apply event)
        (applyToCopy leaf'.apply event)) (event : X.Event) :
    Lockstep (· = ·) (applyToCopy node.apply event)
      (applyToCopy node'.apply event) := by
  refine variant.apply_match (everyBranch_respects_eq node)
    keepsFingerprints_eq ?_ ?_ rfl
  · intro leaf leaf' sameLeaf event event' same
    rw [← same]
    exact atLeaves leaf leaf' sameLeaf event
  · intro event event' clones clones' same each
    rw [List.forall₂_eq_eq_eq] at each
    rw [same, each]

end ModelNode

/-! ## Configurations -/

end Cc

variable {X : Externals} {Node : Type}

/-- Two branches that are selected in the same way and hold children of one
kind, inline or by index. -/
def Branch.SameShape (branch branch' : Branch X Node) : Prop :=
  branch.map (fun _ => ()) = branch'.map fun _ => ()

/-- Two configurations with the same branches, which differ below the branches
only where a leaf is replaced by a related one. -/
inductive CompiledNode.Variant
    (leaves : NodeType X (CompiledNode X) → NodeType X (CompiledNode X) → Prop) :
    CompiledNode X → CompiledNode X → Prop
  | leaf {index index' : Option UInt32} {type type' : NodeType X (CompiledNode X)}
      (related : leaves type type') :
      Variant leaves (.mk index type) (.mk index' type')
  | branchNode {index index' : Option UInt32}
      {config : BranchNode X (CompiledNode X)}
      {branches' : List (Branch X (CompiledNode X))}
      (sameShape : List.Forall₂ Branch.SameShape config.branches branches')
      (children : ∀ pair ∈ config.branches.zip branches', ∀ child child',
        pair.1.childNode = .node child → pair.2.childNode = .node child' →
          Variant leaves child child') :
      Variant leaves (.mk index (.branchNode config))
        (.mk index' (.branchNode { config with branches := branches' }))

/-- A variant in some leaves is one in more general leaves. -/
theorem CompiledNode.Variant.mono
    {leaves leaves' : NodeType X (CompiledNode X) →
      NodeType X (CompiledNode X) → Prop} {root root' : CompiledNode X}
    (variant : root.Variant leaves root')
    (implies : ∀ type type', leaves type type' → leaves' type type') :
    root.Variant leaves' root' := by
  induction variant with
  | leaf related => exact .leaf (implies _ _ related)
  | branchNode sameShape _ inductionHypothesis =>
    exact .branchNode sameShape inductionHypothesis

namespace Cc

/-- Inline children that are aligned are appended alike. -/
theorem appendChildNode_aligned {related : ModelNode X → ModelNode X → Prop}
    {branch branch' : Branch X (CompiledNode X)}
    (sameShape : branch.SameShape branch')
    (inline : ∀ child child', branch.childNode = .node child →
      branch'.childNode = .node child' →
        Aligned related (ModelNode.build child).alone
          (ModelNode.build child').alone) :
    Aligned related
      (Step.outcome (appendChildNode (branch.map ModelNode.build) ∅))
      (Step.outcome (appendChildNode (branch'.map ModelNode.build) ∅)) := by
  obtain ⟨childNode, selectBy⟩ := branch
  obtain ⟨childNode', selectBy'⟩ := branch'
  have sameChild := congrArg Branch.childNode sameShape
  cases childNode with
  | nodeIndex index => exact .throw _ _
  | notSet => exact .throw _ _
  | node child =>
    cases childNode' with
    | nodeIndex index => contradiction
    | notSet => contradiction
    | node child' =>
      have aligned := inline child child' rfl rfl
      rwa [Builder.alone_eq, Builder.alone_eq] at aligned

/-- Branch nodes over variants are assembled to variants. -/
theorem BranchNodeImpl.assemble_aligned
    {leaves : LeafNode → LeafNode → Prop} {selections : List (SelectBy X)}
    {randomSeed : String} {action : Action X (Builder X)}
    {childNodes childNodes' : List (ModelNode X)}
    (children : List.Forall₂ (ModelNode.Variant leaves) childNodes childNodes') :
    Aligned (fun impl impl' =>
        ModelNode.Variant leaves (.branchNode impl) (.branchNode impl'))
      (assemble selections randomSeed action childNodes)
      (assemble selections randomSeed action childNodes') := by
  intro impl impl' assembled assembled'
  obtain ⟨selection, parts, rfl, seedEq⟩ := assemble_eq_ok_iff.mp assembled
  obtain ⟨selection', parts', rfl, seedEq'⟩ := assemble_eq_ok_iff.mp assembled'
  have sameImpl : impl' = { impl with childNodes := impl'.childNodes } := by
    obtain ⟨hashingEq, matcherEq⟩ :=
      Prod.mk.inj (Except.ok.inj (selection.symm.trans selection'))
    obtain ⟨updatersEq, multiplicityEq⟩ :=
      Prod.mk.inj (Except.ok.inj (parts.symm.trans parts'))
    rw [hashingEq, matcherEq, updatersEq, multiplicityEq, seedEq, ← seedEq']
  rw [sameImpl]
  exact .of_forall₂ children

/-- The index of a node plays no part in building it alone. -/
theorem alone_build_index (index index' : Option UInt32)
    (type : NodeType X (CompiledNode X)) :
    (ModelNode.build (.mk index type)).alone =
      (ModelNode.build (.mk index' type)).alone := by
  rw [ModelNode.build_mk, ModelNode.build_mk]

/-- Branches whose children are built to related nodes are built to related
nodes when they are assembled from related children to related branches. -/
theorem ModelNode.aligned_build_branchNode
    {related : ModelNode X → ModelNode X → Prop} {index index' : Option UInt32}
    {config config' : BranchNode X (CompiledNode X)}
    (sameShape : List.Forall₂ Branch.SameShape config.branches config'.branches)
    (children : ∀ pair ∈ config.branches.zip config'.branches,
      ∀ child child', pair.1.childNode = .node child →
        pair.2.childNode = .node child' →
          Aligned related (build child).alone (build child').alone)
    (assembles : ∀ selections childNodes childNodes',
      List.Forall₂ related childNodes childNodes' →
        Aligned (fun impl impl' => related (.branchNode impl) (.branchNode impl'))
          (BranchNodeImpl.assemble selections config.randomSeed
            (config.action.map build) childNodes)
          (BranchNodeImpl.assemble selections config'.randomSeed
            (config'.action.map build) childNodes')) :
    Aligned related (build (.mk index (.branchNode config))).alone
      (build (.mk index' (.branchNode config'))).alone := by
  have ⟨sameLength, shapes⟩ := List.forall₂_iff_zip.mp sameShape
  have childNodes : Aligned (List.Forall₂ related)
      ((config.map build).branches.mapM
        fun branch => Step.outcome (appendChildNode branch ∅))
      ((config'.map build).branches.mapM
        fun branch => Step.outcome (appendChildNode branch ∅)) := by
    refine .mapM (List.forall₂_map_left_iff.mpr
      (List.forall₂_map_right_iff.mpr
        (List.forall₂_iff_zip.mpr ⟨sameLength, ?_⟩)))
    intro branch branch' pair
    exact appendChildNode_aligned (shapes pair) fun child child' =>
      children (branch, branch') pair child child'
  have selectionsEq : (config'.map build).branches.map (·.selectBy) =
      (config.map build).branches.map (·.selectBy) := by
    have selections : List.Forall₂ (· = ·)
        (config.branches.map (·.selectBy)) (config'.branches.map (·.selectBy)) :=
      List.forall₂_map_left_iff.mpr (List.forall₂_map_right_iff.mpr
        (sameShape.imp fun branch branch' same =>
          congrArg Branch.selectBy same))
    rw [List.forall₂_eq_eq_eq] at selections
    simp only [BranchNode.map, List.map_map]
    exact selections.symm
  have branches : Aligned
      (fun impl impl' => related (.branchNode impl) (.branchNode impl'))
      (Step.outcome (BranchNodeImpl.build (config.map build) ∅))
      (Step.outcome (BranchNodeImpl.build (config'.map build) ∅)) := by
    rw [BranchNodeImpl.outcome_build (keeps_children
        fun branch _ child _ => keeps_build child),
      BranchNodeImpl.outcome_build (keeps_children
        fun branch _ child _ => keeps_build child), selectionsEq]
    simp only [BranchNode.map, List.length_map, sameLength]
    split_ifs
    · exact .throw _ _
    · exact childNodes.bind (assembles _)
  rw [alone_build_branchNode, alone_build_branchNode]
  exact branches.bind fun _ _ same => .ok same

/-- Variants of a configuration are built to variants of a tree. -/
theorem ModelNode.build_aligned
    {leaves : NodeType X (CompiledNode X) → NodeType X (CompiledNode X) → Prop}
    {builtLeaves : LeafNode → LeafNode → Prop} {config config' : CompiledNode X}
    (variant : config.Variant leaves config')
    (atLeaves : ∀ index index' type type', leaves type type' →
      Aligned (Variant builtLeaves) (build (.mk index type)).alone
        (build (.mk index' type')).alone) :
    Aligned (Variant builtLeaves) (build config).alone
      (build config').alone := by
  induction variant with
  | leaf related => exact atLeaves _ _ _ _ related
  | branchNode sameShape _ inductionHypothesis =>
    exact aligned_build_branchNode sameShape inductionHypothesis
      fun _ _ _ children => BranchNodeImpl.assemble_aligned children

end Cc

end VirtualPeople
