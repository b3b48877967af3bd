import VirtualPeople.Kotlin.BranchAgreement
import VirtualPeople.Kotlin.LeafAgreement

/-!
# Labelers of both languages

A model that both languages have built labels every input alike, in both
modes, as long as the conversions of the run are in range, the pools of each
population node count no more people than a 32-bit integer holds, and the
fingerprints that the matchers of the model take tell its columns and the events
of the run apart.
-/

namespace VirtualPeople

variable {X : Externals}

/-! ## The population nodes of a model -/

namespace CompiledNode

/-- All the population nodes inside of a node, those in its update trees
included. -/
def populationNodes (node : CompiledNode X) : List PopulationNode :=
  node.fold fun _ type =>
    match type with
    | .branchNode config => config.inlineNodes.flatten
    | .populationNode config => [config]
    | _ => []

/-- The population nodes of a branch node are those right below it and deeper. -/
@[simp] theorem populationNodes_branchNode (index : Option UInt32)
    (config : BranchNode X (CompiledNode X)) :
    populationNodes (.mk index (.branchNode config)) =
      config.inlineNodes.flatMap populationNodes := by
  rw [populationNodes, fold_mk]
  change (config.map populationNodes).inlineNodes.flatten = _
  rw [BranchNode.inlineNodes_map]
  rfl

@[simp] theorem populationNodes_populationNode (index : Option UInt32)
    (config : PopulationNode) :
    populationNodes (X := X) (.mk index (.populationNode config)) =
      [config] := by
  rw [populationNodes, fold_mk]
  rfl

end CompiledNode

/-! ## The masked columns of a model -/

/-- The columns that a matrix finds by their masked fingerprints. -/
structure MaskedColumns (X : Externals) where
  columns : List X.Event
  hashFieldMask : List String

/-- The columns of a matrix with a mask. -/
def AttributesUpdater.maskedColumns {Node : Type} :
    AttributesUpdater X Node → List (MaskedColumns X)
  | .updateMatrix config =>
    config.hashFieldMask.toList.map fun mask => ⟨config.columns, mask⟩
  | .sparseUpdateMatrix config =>
    config.hashFieldMask.toList.map fun mask => ⟨config.attrs, mask⟩
  | _ => []

/-- The masked columns of the updates of an action. -/
def Action.maskedColumns {Node : Type} :
    Action X Node → List (MaskedColumns X)
  | .updates updaters => updaters.flatMap AttributesUpdater.maskedColumns
  | _ => []

/-- The function plays no part in the columns of an action. -/
@[simp] theorem Action.maskedColumns_map {Node Node' : Type} (f : Node → Node')
    (action : Action X Node) :
    (action.map f).maskedColumns = action.maskedColumns := by
  cases action with
  | updates updaters =>
    simp only [Action.map, maskedColumns, List.flatMap_map]
    refine List.flatMap_congr fun updater _ => ?_
    cases updater <;> rfl
  | _ => rfl

namespace CompiledNode

/-- The masked columns of all matrices inside of a node, those in its update
trees included. -/
def maskedColumns (node : CompiledNode X) : List (MaskedColumns X) :=
  node.fold fun _ type =>
    match type with
    | .branchNode config =>
      config.action.maskedColumns ++ config.inlineNodes.flatten
    | _ => []

/-- The masked columns of a branch node are its own and those below it. -/
@[simp] theorem maskedColumns_branchNode (index : Option UInt32)
    (config : BranchNode X (CompiledNode X)) :
    maskedColumns (.mk index (.branchNode config)) =
      config.action.maskedColumns ++
        config.inlineNodes.flatMap maskedColumns := by
  rw [maskedColumns, fold_mk]
  change (config.action.map maskedColumns).maskedColumns ++
    (config.map maskedColumns).inlineNodes.flatten = _
  rw [Action.maskedColumns_map, BranchNode.inlineNodes_map]
  rfl

end CompiledNode

namespace Kotlin

/-! ## Served events -/

/-- The fingerprints that the matchers of the model take of its columns and of
the served events collide only where the masked events are equal. -/
def FingerprintsSeparate (served : X.Event → Prop) (config : CompiledNode X) :
    Prop :=
  ∀ matrix ∈ config.maskedColumns,
    ColumnsSeparate served matrix.columns matrix.hashFieldMask

/-- No update and no clone that the tree makes of a served event leaves the
set. -/
inductive StaysIn (served : X.Event → Prop) : Cc.ModelNode X → Prop
  | leafNode (leaf : Cc.LeafNode) : StaysIn served (.leafNode leaf)
  | branchNode {impl : Cc.BranchNodeImpl X (Cc.ModelNode X)}
      (updates : ∀ updater ∈ impl.updaters,
        (updater.map Cc.ModelNode.apply).update.StaysIn served)
      (clones : ∀ multiplicity ∈ impl.multiplicity,
        BranchNodeImpl.ClonesStayIn served multiplicity)
      (trees : ∀ updater ∈ impl.updaters, ∀ root ∈ updater.treeRoot,
        StaysIn served root)
      (children : ∀ child ∈ impl.childNodes, StaysIn served child) :
      StaysIn served (.branchNode impl)

variable {served : X.Event → Prop}

/-! ## Trees -/

/-- If the tree stays in the served events, the nodes do the same to each of
them, as long as the conversions are in range. -/
def ModelNode.Agrees (served : X.Event → Prop) (node : Cc.ModelNode X)
    (node' : ModelNode X) : Prop :=
  StaysIn served node → Step.AgreeOn served (· = ·) node.apply node'.apply

/-- Whatever the builders of both languages make of the model agrees. -/
def BuildsAgree (served : X.Event → Prop) (config : CompiledNode X) : Prop :=
  Aligned (ModelNode.Agrees served) (Cc.ModelNode.build config).alone
    (ModelNode.build config).alone

/-- If its update tree stays in the served events, the updater does the same to
each of them. -/
def SameUpdater (served : X.Event → Prop)
    (updater : Cc.AttributesUpdaterInterface X (Cc.ModelNode X))
    (updater' : AttributesUpdaterInterface X) : Prop :=
  (∀ root ∈ updater.treeRoot, StaysIn served root) →
    Step.AgreeOn served (· = ·) (updater.map Cc.ModelNode.apply).update
      updater'.update

/-- An update that agrees on the served events. -/
theorem SameUpdater.change {update update' : X.Event → Result X.Event}
    (agree : ∀ event, served event →
      Lockstep (· = ·) (update event) (update' event)) :
    Step.AgreeOn served (· = ·) (Step.change update) (Step.change update') :=
  .change fun event isServed => (agree event isServed).excusing

/-- Both languages build updates that do the same. -/
theorem AttributesUpdaterInterface.build_aligned
    {updater : AttributesUpdater X (CompiledNode X)}
    (separate : ∀ matrix ∈ updater.maskedColumns,
      ColumnsSeparate served matrix.columns matrix.hashFieldMask)
    (tree : ∀ root ∈ updater.treeRoot, BuildsAgree served root) :
    Aligned (SameUpdater served)
      (Cc.AttributesUpdaterInterface.build (updater.map Cc.ModelNode.build))
      (build (updater.map ModelNode.build)) := by
  cases updater with
  | updateMatrix config =>
    have columns : ∀ mask ∈ config.hashFieldMask,
        ColumnsSeparate served config.columns mask := fun mask member =>
      separate ⟨config.columns, mask⟩
        (List.mem_map_of_mem (Option.mem_toList.mpr member))
    exact (UpdateMatrixImpl.build_aligned columns).bind
      fun _ _ lockstep => .ok fun _ => SameUpdater.change lockstep
  | sparseUpdateMatrix config =>
    have columns : ∀ mask ∈ config.hashFieldMask,
        ColumnsSeparate served config.attrs mask := fun mask member =>
      separate ⟨config.attrs, mask⟩
        (List.mem_map_of_mem (Option.mem_toList.mpr member))
    exact (SparseUpdateMatrixImpl.build_aligned columns).bind
      fun _ _ lockstep => .ok fun _ => SameUpdater.change lockstep
  | conditionalMerge config =>
    exact (ConditionalMergeImpl.build_aligned config).bind fun _ _ lockstep =>
      .ok fun _ => SameUpdater.change fun event _ => lockstep event
  | conditionalAssignment config =>
    exact (ConditionalAssignmentImpl.build_aligned config).bind
      fun _ _ lockstep =>
        .ok fun _ => SameUpdater.change fun event _ => lockstep event
  | geometricShredder config =>
    exact (GeometricShredderImpl.build_aligned config).bind fun _ _ same =>
      .ok fun _ => .change fun event _ =>
        GeometricShredderImpl.update_agree same event
  | updateTree root =>
    exact (tree root rfl).bind fun node _ agrees =>
      .ok fun stays => agrees (stays node rfl)
  | notSet => exact .throw _ _

namespace BranchNodeImpl

variable {config : BranchNode X (CompiledNode X)}

theorem buildChildNode_aligned {branch : Branch X (CompiledNode X)}
    (inline : ∀ child, branch.childNode = .node child →
      BuildsAgree served child) :
    Aligned (ModelNode.Agrees served)
      (Step.outcome (Cc.appendChildNode (branch.map Cc.ModelNode.build) ∅))
      (Step.outcome (buildChildNode (branch.map ModelNode.build) ∅)) := by
  obtain ⟨childNode, selectBy⟩ := branch
  cases childNode with
  | nodeIndex index =>
    change Aligned _ (Step.outcome
      (Cc.appendChildNode ⟨.nodeIndex index, selectBy⟩ ∅)) _
    rw [Cc.appendChildNode_nodeIndex_empty]
    exact .throw _ _
  | node child =>
    have agree := inline child rfl
    unfold BuildsAgree at agree
    rwa [Cc.Builder.alone_eq, Builder.alone_eq] at agree
  | notSet => exact .throw _ _

/-- What an action holds. -/
def SameAction (served : X.Event → Prop)
    (parts : List (Cc.AttributesUpdaterInterface X (Cc.ModelNode X)) ×
      Option (Cc.MultiplicityImpl X))
    (parts' : List (AttributesUpdaterInterface X) ×
      Option (MultiplicityImpl X)) : Prop :=
  List.Forall₂ (SameUpdater served) parts.1 parts'.1 ∧
    Option.Rel MultiplicityImpl.SameMultiplicity parts.2 parts'.2

/-- Both languages build actions that do the same. -/
theorem buildAction_aligned {action : Action X (CompiledNode X)}
    (separate : ∀ matrix ∈ action.maskedColumns,
      ColumnsSeparate served matrix.columns matrix.hashFieldMask)
    (trees : ∀ root ∈ action.trees, BuildsAgree served root) :
    Aligned (SameAction served) (Cc.buildAction (action.map Cc.ModelNode.build))
      (do
        let updaters ← buildUpdaters (action.map ModelNode.build)
        let multiplicity ← buildMultiplicity (action.map ModelNode.build)
        return (updaters, multiplicity)) := by
  cases action with
  | updates updates =>
    have updaters : Aligned (List.Forall₂ (SameUpdater served))
        ((updates.map (AttributesUpdater.map Cc.ModelNode.build)).mapM
          Cc.AttributesUpdaterInterface.build)
        ((updates.map (AttributesUpdater.map ModelNode.build)).mapM
          AttributesUpdaterInterface.build) := by
      refine .mapM (List.forall₂_map_left_iff.mpr
        (List.forall₂_map_right_iff.mpr
          (List.forall₂_same.mpr fun updater member => ?_)))
      exact AttributesUpdaterInterface.build_aligned
        (fun matrix inUpdater => separate matrix
          (List.mem_flatMap.mpr ⟨updater, member, inUpdater⟩))
        fun root isRoot => trees root
          (List.mem_filterMap.mpr ⟨updater, member, isRoot⟩)
    exact updaters.bind fun _ _ same => .ok ⟨same, .none⟩
  | multiplicity config =>
    have multiplicities : Aligned MultiplicityImpl.SameMultiplicity
        (Cc.MultiplicityImpl.build (X := X) config)
        (MultiplicityImpl.build config) :=
      fun _ _ => MultiplicityImpl.build_related
    change Aligned _ _ (pure [] >>= fun updaters =>
      (MultiplicityImpl.build config >>= fun multiplicity =>
        pure (some multiplicity)) >>= fun multiplicity =>
          pure (updaters, multiplicity))
    rw [pure_bind, bind_assoc]
    exact multiplicities.bind fun _ _ same => .ok ⟨.nil, .some same⟩
  | notSet => exact .ok ⟨.nil, .none⟩

/-- The branch of C++, with what each node does in its place, and that of
Kotlin are the same, if the one of C++ stays in the served events. -/
def Same (served : X.Event → Prop)
    (impl : Cc.BranchNodeImpl X (Cc.ModelNode X)) (impl' : BranchNodeImpl X) :
    Prop :=
  StaysIn served (.branchNode impl) →
    SameBranch served (impl.map Cc.ModelNode.apply) impl'

/-- A branch of parts that are the same is the same. -/
theorem same_of_parts {impl : Cc.BranchNodeImpl X (Cc.ModelNode X)}
    {impl' : BranchNodeImpl X}
    (children : List.Forall₂ (ModelNode.Agrees served) impl.childNodes
      impl'.childNodes)
    (selection : SameSelection (impl.hashing, impl.matcher)
      (impl'.hashing, impl'.matcher))
    (randomSeed : impl'.randomSeed = impl.randomSeed)
    (action : SameAction served (impl.updaters, impl.multiplicity)
      (impl'.updaters, impl'.multiplicity)) : Same served impl impl' := by
  intro stays
  cases stays with
  | branchNode updates clones trees childrenStay =>
    exact {
      childNodes := List.forall₂_map_left_iff.mpr
        ((List.forall₂_and_left _ _ |>.mpr ⟨childrenStay, children⟩).imp
          fun _ _ agrees => agrees.2 agrees.1)
      selection := selection
      randomSeed := randomSeed
      updaters := List.forall₂_map_left_iff.mpr
        ((List.forall₂_and_left _ _ |>.mpr ⟨trees, action.1⟩).imp
          fun _ _ same => same.2 same.1)
      updatesStay := List.forall_mem_map.mpr updates
      multiplicity := action.2
      clonesStay := clones }

/-- Both languages assemble nodes that do the same. -/
theorem assemble_aligned
    (separate : ∀ matrix ∈ config.action.maskedColumns,
      ColumnsSeparate served matrix.columns matrix.hashFieldMask)
    (trees : ∀ root ∈ config.action.trees, BuildsAgree served root)
    {childNodes : List (Cc.ModelNode X)} {childNodes' : List (ModelNode X)}
    (children : List.Forall₂ (ModelNode.Agrees served) childNodes
      childNodes') :
    Aligned (Same served)
      (Cc.BranchNodeImpl.assemble
        ((config.map Cc.ModelNode.build).branches.map (·.selectBy))
        config.randomSeed (config.action.map Cc.ModelNode.build) childNodes)
      (assemble (config.map ModelNode.build) childNodes') := by
  have selectionsEq : (config.map Cc.ModelNode.build).branches.map
      (·.selectBy) = (config.map ModelNode.build).branches.map
        (·.selectBy) := by
    simp only [BranchNode.map, List.map_map]
    rfl
  have actions := buildAction_aligned separate trees
  unfold Cc.BranchNodeImpl.assemble assemble
  rw [selectionsEq]
  refine (buildSelection_lockstep _).aligned.bind fun selection selection'
    sameSelection => ?_
  obtain ⟨hashing, matcher⟩ := selection
  obtain ⟨hashing', matcher'⟩ := selection'
  have assembled : Aligned (Same served)
      (Cc.buildAction (config.action.map Cc.ModelNode.build) >>=
        fun parts => pure ⟨childNodes, hashing, config.randomSeed, matcher,
          parts.1, parts.2⟩)
      ((do
          let updaters ← buildUpdaters (config.action.map ModelNode.build)
          let multiplicity ←
            buildMultiplicity (config.action.map ModelNode.build)
          return (updaters, multiplicity)) >>=
        fun parts => pure ⟨childNodes', hashing', config.randomSeed, matcher',
          parts.1, parts.2⟩) :=
    actions.bind fun _ _ same =>
      .ok (same_of_parts children sameSelection rfl same)
  simp only [bind_assoc, pure_bind] at assembled
  exact assembled

/-- Both languages build branch nodes that do the same. -/
theorem build_aligned
    (separate : ∀ matrix ∈ config.action.maskedColumns,
      ColumnsSeparate served matrix.columns matrix.hashFieldMask)
    (below : ∀ child ∈ config.inlineNodes, BuildsAgree served child) :
    Aligned (Same served)
      (Step.outcome
        (Cc.BranchNodeImpl.build (config.map Cc.ModelNode.build) ∅))
      (Step.outcome (build (config.map ModelNode.build) ∅)) := by
  rw [Cc.BranchNodeImpl.outcome_build (Cc.keeps_children
      fun branch _ child _ => Cc.keeps_build child),
    outcome_build (keeps_children
      fun branch _ child _ => ModelNode.keeps_build child)]
  split_ifs
  · exact .throw _ _
  · exact .throw _ _
  · exact fun _ _ _ same => nomatch same
  have children : Aligned (List.Forall₂ (ModelNode.Agrees served))
      ((config.map Cc.ModelNode.build).branches.mapM
        fun branch => Step.outcome (Cc.appendChildNode branch ∅))
      ((config.map ModelNode.build).branches.mapM
        fun branch => Step.outcome (buildChildNode branch ∅)) :=
    .mapM (List.forall₂_map_left_iff.mpr (List.forall₂_map_right_iff.mpr
      (List.forall₂_same.mpr fun branch member => buildChildNode_aligned
        (forall_branches below branch member))))
  exact children.bind fun _ _ same =>
    assemble_aligned separate (forall_trees below) same

end BranchNodeImpl

namespace ModelNode

theorem agrees_branchNode {impl : Cc.BranchNodeImpl X (Cc.ModelNode X)}
    {impl' : BranchNodeImpl X}
    (same : BranchNodeImpl.Same served impl impl') :
    Agrees served (.branchNode impl) ⟨impl'.apply⟩ := by
  intro stays
  rw [Cc.ModelNode.apply_branchNode]
  exact (same stays).apply_agree

theorem agrees_leafNode {leaf : Cc.LeafNode} {apply : Step X.Event Unit}
    (agree : Step.Agree (· = ·) leaf.apply apply) :
    Agrees served (.leafNode leaf) ⟨apply⟩ := by
  intro _
  rw [Cc.ModelNode.apply_leafNode]
  exact agree.on served

/-- Induction over the model: a node agrees when the nodes below it do. -/
theorem buildsAgree {config : CompiledNode X}
    (separate : FingerprintsSeparate served config)
    (noWrap : ∀ population ∈ config.populationNodes,
      exactPopulation population.pools < 2 ^ 64) :
    BuildsAgree served config := by
  induction config using CompiledNode.induction with
  | step index type below =>
    unfold BuildsAgree
    cases type with
    | branchNode config =>
      unfold FingerprintsSeparate at separate
      rw [CompiledNode.maskedColumns_branchNode, List.forall_mem_append]
        at separate
      have children : ∀ child ∈ config.inlineNodes,
          BuildsAgree served child := by
        intro child member
        refine below child member (fun matrix inChild => separate.2 matrix
          (List.mem_flatMap.mpr ⟨child, member, inChild⟩))
          fun population inChild => noWrap population ?_
        rw [CompiledNode.populationNodes_branchNode]
        exact List.mem_flatMap.mpr ⟨child, member, inChild⟩
      rw [Cc.alone_build_branchNode, alone_build_branchNode]
      exact (BranchNodeImpl.build_aligned separate.1 children).bind
        fun _ _ same => .ok (agrees_branchNode same)
    | stopNode => exact .ok (agrees_leafNode fun event => .ok rfl event)
    | populationNode config =>
      have sizes : exactPopulation config.pools < 2 ^ 64 := by
        refine noWrap config ?_
        rw [CompiledNode.populationNodes_populationNode]
        exact List.mem_singleton_self config
      rw [Cc.alone_build_populationNode, alone_build_populationNode]
      intro node node' built built'
      obtain ⟨impl, implBuilt, nodeEq⟩ := bind_eq_ok_iff.mp built
      obtain ⟨impl', implBuilt', nodeEq'⟩ := bind_eq_ok_iff.mp built'
      rw [← Except.ok.inj nodeEq, ← Except.ok.inj nodeEq']
      exact agrees_leafNode
        (PopulationNodeImpl.apply_agree implBuilt implBuilt' sizes)
    | rankedPopulationNode config =>
      rw [Cc.alone_build_rankedPopulationNode,
        alone_build_rankedPopulationNode]
      intro node node' built built'
      obtain ⟨impl, implBuilt, nodeEq⟩ := bind_eq_ok_iff.mp built
      obtain ⟨impl', implBuilt', nodeEq'⟩ := bind_eq_ok_iff.mp built'
      rw [← Except.ok.inj nodeEq, ← Except.ok.inj nodeEq']
      exact agrees_leafNode (RankedPopulationNodeImpl.apply_agree
        (RankedPopulationNodeImpl.build_related implBuilt implBuilt'))
    | notSet => exact .throw _ _

end ModelNode

/-! ## Labeling -/

namespace Labeler

@[simp] theorem toUInt64_hashFingerprint64Long (input : String) :
    (hashFingerprint64Long X input).toUInt64 = X.fingerprint input :=
  UInt64.toUInt64_toInt64 _

theorem setUserInfoFingerprint_eq :
    setUserInfoFingerprint X = Cc.Labeler.setUserInfoFingerprint X := by
  funext userInfo
  obtain ⟨userId, userIdFingerprint⟩ := userInfo
  cases userId with
  | none => rfl
  | some userId =>
    exact congrArg (fun fingerprint => UserInfo.mk (some userId)
      (some fingerprint)) (toUInt64_hashFingerprint64Long userId)

theorem setProfileFingerprints_eq :
    setProfileFingerprints X = Cc.Labeler.setProfileFingerprints X := by
  funext profileInfo
  unfold setProfileFingerprints Cc.Labeler.setProfileFingerprints
  rw [setUserInfoFingerprint_eq]

/-- Both languages set the same fingerprints. -/
@[simp] theorem setFingerprints_eq (event : X.Event) :
    setFingerprints event = Cc.Labeler.setFingerprints event := by
  unfold setFingerprints Cc.Labeler.setFingerprints eventIdFingerprint
    Cc.Labeler.eventIdFingerprint
  cases found : (event.labelerInput.getD X.emptyInput).eventId with
  | none => simp only [found, setProfileFingerprints_eq, Option.map_none]
  | some eventId =>
    simp only [found, setProfileFingerprints_eq, Option.map_some,
      toUInt64_hashFingerprint64Long]

@[simp] theorem prepareEvent_eq (input : X.Input) (mode : LabelingMode) :
    prepareEvent input mode = Cc.Labeler.prepareEvent input mode := by
  unfold prepareEvent Cc.Labeler.prepareEvent
  rw [setFingerprints_eq]
  cases mode <;> rfl

/-- Labelers whose roots agree label a served event alike. -/
theorem label_agree {labeler : Cc.Labeler X} {labeler' : Labeler X}
    (agrees : ModelNode.Agrees served labeler.root labeler'.rootNode)
    (stays : StaysIn served labeler.root) {input : X.Input}
    {mode : LabelingMode}
    (isServed : served (Cc.Labeler.prepareEvent input mode)) :
    Agree (· = ·) (labeler.label input mode) (labeler'.label input mode) := by
  unfold Cc.Labeler.label label
  rw [prepareEvent_eq]
  exact (applyToCopy_agree (agrees stays) isServed).bind_eq fun event => .refl _

/-- On a model that both languages accept, whose population nodes count at most
`2 ^ 31 - 1` people each, the labelers of both languages succeed for the same
inputs, and then give the same people and the same pool assignments, unless a
conversion of the run is out of range.  The fingerprints of the model only need
to tell its columns apart from the events of the run: a set with the prepared
event that updates and clones do not leave. -/
theorem label_agrees {root : CompiledNode X} {labeler : Cc.Labeler X}
    {labeler' : Labeler X} (built : Cc.Labeler.build root = .ok labeler)
    (built' : build root = .ok labeler')
    (separate : FingerprintsSeparate served root)
    (stays : StaysIn served labeler.root)
    (sizes : ∀ config ∈ root.populationNodes,
      exactPopulation config.pools ≤ 2 ^ 31 - 1)
    (input : X.Input) (mode : LabelingMode)
    (isServed : served (Cc.Labeler.prepareEvent input mode))
    (inRange : labeler.label input mode ≠ .error .conversion) :
    ((∃ output, labeler.label input mode = .ok output) ↔
        ∃ output, labeler'.label input mode = .ok output) ∧
      ∀ output output', labeler.label input mode = .ok output →
        labeler'.label input mode = .ok output' →
          output'.people = output.people ∧
            output'.poolAssignments = output.poolAssignments := by
  obtain ⟨node, nodeBuilt, labelerEq⟩ := bind_eq_ok_iff.mp built
  obtain ⟨node', nodeBuilt', labelerEq'⟩ := bind_eq_ok_iff.mp built'
  obtain rfl := Except.ok.inj labelerEq
  obtain rfl := Except.ok.inj labelerEq'
  have agrees : ModelNode.Agrees served node node' :=
    ModelNode.buildsAgree separate
      (fun config member => lt_of_le_of_lt (sizes config member) (by decide))
      node node' nodeBuilt nodeBuilt'
  have outputs := (@label_agree X served ⟨node⟩ ⟨node'⟩ agrees stays input mode
    isServed).eq_ok_iff
    fun fault failed isConversion => inRange (isConversion ▸ failed)
  refine ⟨exists_congr outputs, fun output output' found found' => ?_⟩
  have same := Except.ok.inj (((outputs output).mp found).symm.trans found')
  rw [same]
  exact ⟨rfl, rfl⟩

/-- A tree stays in the set of all events. -/
theorem staysIn_all (isServed : ∀ event, served event) (node : Cc.ModelNode X) :
    StaysIn served node := by
  induction node using Cc.ModelNode.induction with
  | leaf leaf => exact .leafNode leaf
  | branch impl children trees =>
    exact .branchNode (fun _ _ _ _ final _ _ => isServed final)
      (fun _ _ => ⟨fun _ _ => isServed _, fun _ _ _ _ _ _ => isServed _⟩) trees
      children

theorem columnsSeparate_flagged (columns : List Externals.flagged.Event)
    (hashFieldMask : List String) :
    ColumnsSeparate (fun _ => True) columns hashFieldMask := by
  have flags : ∀ first second : Bool,
      Externals.flagged.fingerprint (toString first) =
        Externals.flagged.fingerprint (toString second) → first = second := by
    decide +kernel
  have masked {first second : Externals.flagged.Event}
      (same : first.others = second.others) :
      Externals.flagged.mergeMask hashFieldMask first =
        Externals.flagged.mergeMask hashFieldMask second :=
    congrArg (LabelerEvent.mk none none none [] [] none none) same
  exact ⟨fun column _ event _ same => masked (flags _ _ same),
    fun column _ event _ same => masked (flags _ _ same)⟩

/-- A leaf of four people, two of which are ranked. -/
def rankedLeaf (index : Option UInt32) : CompiledNode .flagged :=
  .mk index (.rankedPopulationNode ⟨[⟨7, 4⟩], "ranked", 2, .disjoint⟩)

/-- A leaf of fifteen people in two pools. -/
def populationLeaf (index : Option UInt32) : CompiledNode .flagged :=
  .mk index (.populationNode ⟨[⟨100, 10⟩, ⟨200, 5⟩], "people"⟩)

/-- Two persons, who are given labels by a matrix, and of which the first one
is from the one leaf and the second one from the other. -/
def twoPersons (first other : ChildNode (CompiledNode .flagged)) :
    CompiledNode .flagged :=
  let labeled (label : String) : Externals.flagged.Event :=
    { Externals.flagged.emptyEvent with label := some label }
  let flag (others : Bool) : Externals.flagged.Event :=
    { Externals.flagged.emptyEvent with others := others }
  let leaves : CompiledNode .flagged := .mk none (.branchNode {
    branches :=
      [⟨first, .condition (some false)⟩, ⟨other, .condition none⟩]
    randomSeed := "leaves"
    action := .updates [.updateMatrix {
      columns := [flag false, flag true]
      rows := [labeled "first", labeled "other"]
      probabilities := [1.0, 0.0, 0.0, 1.0]
      hashFieldMask := some ["is_other"]
      passThroughNonMatches := false
      randomSeed := "rows" }] })
  .mk none (.branchNode {
    branches := [⟨.node leaves, .chance 1.0⟩]
    randomSeed := "root"
    action := .multiplicity ⟨.expectedMultiplicity 2.0, some "person_index",
      some 2.0, some true, some "clones"⟩ })

/-- The tree of two persons with inline leaves. -/
def twoPersonsTree : CompiledNode .flagged :=
  twoPersons (.node (rankedLeaf none)) (.node (populationLeaf none))

/-- An event with a rank in the pool of the ranked leaf. -/
def twoPersonsInput : Externals.flagged.Input :=
  ⟨some ⟨some "event", none⟩, none, 0, [⟨7, 1⟩], false, ()⟩

/-- Both languages label two persons of one event. -/
theorem label_agrees_twoPersons :
    ∃ labeler labeler', Cc.Labeler.build twoPersonsTree = .ok labeler ∧
      build twoPersonsTree = .ok labeler' ∧
      ∃ output, labeler'.label twoPersonsInput .full = .ok output ∧
        output.people =
          [⟨some 8, some "first"⟩, ⟨some 103, some "other"⟩] ∧
        output.poolAssignments = [] := by
  have run : (Cc.Labeler.build twoPersonsTree >>= fun labeler =>
      labeler.label twoPersonsInput .full >>= fun output =>
        return (output.people, output.poolAssignments)) =
      .ok ([⟨some 8, some "first"⟩, ⟨some 103, some "other"⟩], []) := by
    decide +kernel
  have isBuilt : (build twoPersonsTree >>= fun _ => return ()) = .ok () := by
    decide +kernel
  obtain ⟨labeler, built, labeled⟩ := bind_eq_ok_iff.mp run
  obtain ⟨output, found, outputEq⟩ := bind_eq_ok_iff.mp labeled
  obtain ⟨peopleEq, assignmentsEq⟩ := Prod.mk.inj (Except.ok.inj outputEq)
  obtain ⟨labeler', built', -⟩ := bind_eq_ok_iff.mp isBuilt
  have sizes : ∀ config ∈ twoPersonsTree.populationNodes,
      exactPopulation config.pools ≤ 2 ^ 31 - 1 :=
    List.forall_mem_singleton.mpr (by decide)
  obtain ⟨succeeds, same⟩ := label_agrees built built'
    (fun matrix _ => columnsSeparate_flagged matrix.columns _)
    (staysIn_all (fun _ => trivial) _) sizes twoPersonsInput .full trivial
    (by rw [found]; nofun)
  obtain ⟨output', found'⟩ := succeeds.mp ⟨output, found⟩
  obtain ⟨peopleEq', assignmentsEq'⟩ := same output output' found found'
  exact ⟨labeler, labeler', built, built', output', found',
    peopleEq'.trans peopleEq, assignmentsEq'.trans assignmentsEq⟩

end Labeler

end Kotlin

end VirtualPeople
