import VirtualPeople.CoupledSteps
import VirtualPeople.Kotlin.LabelerAgreement

/-!
# Models from node lists in two languages

The builders read a list of nodes that refer to each other by index, and keep
the nodes without a parent in a table.  From tables that hold agreeing nodes
under the same indexes both come to agreeing nodes and tables, so that the
labelers that they build from one list agree.
-/

namespace VirtualPeople.Kotlin

variable {X : Externals} {served : X.Event → Prop}

/-- Tables of agreeing nodes. -/
abbrev RefsAgree (served : X.Event → Prop) (nodeRefs : Cc.NodeRefs X)
    (nodeRefs' : NodeRefs X) : Prop :=
  SameKeys (ModelNode.Agrees served) nodeRefs nodeRefs'

/-- From agreeing tables the builders of both languages come to agreeing
nodes and tables. -/
def BuildersCouple (served : X.Event → Prop) (config : CompiledNode X) : Prop :=
  Step.Couples (RefsAgree served) (ModelNode.Agrees served)
    (Cc.ModelNode.build config) (ModelNode.build config)

/-- Both languages look the same node up. -/
theorem lookup_couples (index : UInt32) :
    Step.Couples (RefsAgree served) (ModelNode.Agrees served)
      (do
        let nodeRefs ← get
        match nodeRefs.lookup index with
        | some node =>
          set (nodeRefs.erase index)
          return node
        | none => throw (invalidArgument
          "The ModelNode object of the child node index is not provided."))
      (do
        let nodeRefs ← get
        match nodeRefs.lookup index with
        | some node =>
          set (nodeRefs.erase index)
          return node
        | none => throw (.illegalState ("The ModelNode object of the child node " ++
          "index " ++ toString index ++ " is not provided."))) := by
  refine Step.Couples.get.bind fun nodeRefs nodeRefs' same => ?_
  have found := same.lookup index
  generalize nodeRefs.lookup index = node at found
  generalize nodeRefs'.lookup index = node' at found
  cases found with
  | none => exact .throw _ _
  | some agrees =>
    exact (Step.Couples.set (same.erase index)).bind fun _ _ _ => .pure agrees

namespace BranchNodeImpl

theorem buildChildNode_couples {branch : Branch X (CompiledNode X)}
    (inline : ∀ child, branch.childNode = .node child →
      BuildersCouple served child) :
    Step.Couples (RefsAgree served) (ModelNode.Agrees served)
      (Cc.appendChildNode (branch.map Cc.ModelNode.build))
      (buildChildNode (branch.map ModelNode.build)) := by
  obtain ⟨childNode, selectBy⟩ := branch
  cases childNode with
  | nodeIndex index => exact lookup_couples index
  | node child => exact inline child rfl
  | notSet => exact .throw _ _

/-- Both languages build a branch node of a list alike. -/
theorem build_couples {config : BranchNode X (CompiledNode X)}
    (separate : ∀ matrix ∈ config.action.maskedColumns,
      ColumnsSeparate served matrix.columns matrix.hashFieldMask)
    (trees : ∀ root ∈ config.action.trees, BuildsAgree served root)
    (below : ∀ child ∈ config.inlineNodes, BuildersCouple served child) :
    Step.Couples (RefsAgree served) (Same served)
      (Cc.BranchNodeImpl.build (config.map Cc.ModelNode.build))
      (build (config.map ModelNode.build)) := by
  unfold Cc.BranchNodeImpl.build build
  split_ifs
  · exact .throw _ _
  · exact .throw _ _
  · exact .throw_right _ _
  have children : Step.Couples (RefsAgree served)
      (List.Forall₂ (ModelNode.Agrees served))
      ((config.map Cc.ModelNode.build).branches.mapM Cc.appendChildNode)
      ((config.map ModelNode.build).branches.mapM buildChildNode) :=
    .mapM (List.forall₂_map_left_iff.mpr (List.forall₂_map_right_iff.mpr
      (List.forall₂_same.mpr fun branch member => buildChildNode_couples
        (forall_branches below branch member))))
  exact children.bind fun _ _ same => .lift (assemble_aligned separate trees same)

end BranchNodeImpl

/-- Population nodes whose pools do not wrap in 64 bits. -/
def NoWrap (config : CompiledNode X) : Prop :=
  ∀ population ∈ config.populationNodes,
    exactPopulation population.pools < 2 ^ 64

theorem NoWrap.child {index : Option UInt32}
    {config : BranchNode X (CompiledNode X)}
    (noWrap : NoWrap (.mk index (.branchNode config))) {child : CompiledNode X}
    (member : child ∈ config.inlineNodes) : NoWrap child := by
  intro population inChild
  refine noWrap population ?_
  rw [CompiledNode.populationNodes_branchNode]
  exact List.mem_flatMap.mpr ⟨child, member, inChild⟩

theorem FingerprintsSeparate.child {index : Option UInt32}
    {config : BranchNode X (CompiledNode X)}
    (separate : FingerprintsSeparate served (.mk index (.branchNode config)))
    {child : CompiledNode X} (member : child ∈ config.inlineNodes) :
    FingerprintsSeparate served child := by
  intro matrix inChild
  refine separate matrix ?_
  rw [CompiledNode.maskedColumns_branchNode]
  exact List.mem_append_right _ (List.mem_flatMap.mpr ⟨child, member, inChild⟩)

namespace ModelNode

/-- Both languages build a node of a list alike. -/
theorem build_couples {config : CompiledNode X}
    (separate : FingerprintsSeparate served config) (noWrap : NoWrap config) :
    BuildersCouple served config := by
  induction config using CompiledNode.induction with
  | step index type below =>
    -- Without references a leaf is built as it is alone.
    have alone := buildsAgree separate noWrap
    unfold BuildersCouple
    unfold BuildsAgree at alone
    cases type with
    | branchNode config =>
      have trees : ∀ root ∈ config.action.trees, BuildsAgree served root :=
        forall_trees fun child member =>
          buildsAgree (separate.child member) (noWrap.child member)
      have action : ∀ matrix ∈ config.action.maskedColumns,
          ColumnsSeparate served matrix.columns matrix.hashFieldMask := by
        intro matrix inAction
        refine separate matrix ?_
        rw [CompiledNode.maskedColumns_branchNode]
        exact List.mem_append_left _ inAction
      rw [Cc.ModelNode.build_mk, build_mk]
      exact (BranchNodeImpl.build_couples action trees fun child member =>
        below child member (separate.child member) (noWrap.child member)).bind
          fun _ _ same => .pure (agrees_branchNode same)
    | stopNode => exact .pure (agrees_leafNode fun event => .ok rfl event)
    | populationNode config =>
      rw [Cc.alone_build_populationNode, alone_build_populationNode] at alone
      rw [Cc.ModelNode.build_mk, build_mk]
      have lifted := @Step.Couples.lift _ _ _ _ (RefsAgree served) _ _ _ alone
      rwa [← Step.lift_bind, ← Step.lift_bind] at lifted
    | rankedPopulationNode config =>
      rw [Cc.alone_build_rankedPopulationNode,
        alone_build_rankedPopulationNode] at alone
      rw [Cc.ModelNode.build_mk, build_mk]
      have lifted := @Step.Couples.lift _ _ _ _ (RefsAgree served) _ _ _ alone
      rwa [← Step.lift_bind, ← Step.lift_bind] at lifted
    | notSet => exact .throw _ _

end ModelNode

namespace Labeler

/-- The Kotlin builder looks for the index before it builds the node. -/
theorem addNode_couples {nodeConfig : CompiledNode X}
    (separate : FingerprintsSeparate served nodeConfig)
    (noWrap : NoWrap nodeConfig) {root : Option (Cc.ModelNode X)}
    {root' : Option (ModelNode X)}
    (roots : Option.Rel (ModelNode.Agrees served) root root') :
    Step.Couples (RefsAgree served) (Option.Rel (ModelNode.Agrees served))
      (Cc.Labeler.addNode root nodeConfig) (addNode root' nodeConfig) := by
  have built := ModelNode.build_couples separate noWrap
  unfold Cc.Labeler.addNode addNode
  cases roots with
  | some agrees => exact .throw _ _
  | none =>
    cases nodeConfig.index with
    | none => exact built.bind fun _ _ agrees => .pure (.some agrees)
    | some index =>
      intro state state' coupled value value' final final' run run'
      obtain ⟨node, middle, nodeRun, rest⟩ := Step.run_bind_eq_ok_iff.mp run
      obtain ⟨_, _, getRun, rest⟩ := Step.run_bind_eq_ok_iff.mp rest
      obtain ⟨_, _, getRun', rest'⟩ := Step.run_bind_eq_ok_iff.mp run'
      cases getRun
      cases getRun'
      split_ifs at rest
      · cases rest
      split_ifs at rest'
      · cases rest'
      obtain ⟨node', middle', nodeRun', rest'⟩ :=
        Step.run_bind_eq_ok_iff.mp rest'
      obtain ⟨agrees, between⟩ := built state state' coupled node node' middle
        middle' nodeRun nodeRun'
      cases rest
      cases rest'
      exact ⟨.none, between.insert index agrees⟩

theorem takeRoot_couples {root : Option (Cc.ModelNode X)}
    {root' : Option (ModelNode X)}
    (roots : Option.Rel (ModelNode.Agrees served) root root') :
    Step.Couples (RefsAgree served) (ModelNode.Agrees served)
      (Cc.Labeler.takeRoot root) (takeRoot root') := by
  unfold Cc.Labeler.takeRoot takeRoot
  cases roots with
  | some agrees => exact .pure agrees
  | none =>
    refine Step.Couples.get.bind fun nodeRefs nodeRefs' same => ?_
    have erased := same.erase
    unfold RefsAgree SameKeys at same
    generalize nodeRefs.entries = entries at same ⊢
    generalize nodeRefs'.entries = entries' at same ⊢
    cases same with
    | nil => exact .throw _ _
    | @cons entry entry' rest rest' head tail =>
      obtain ⟨index, node⟩ := entry
      obtain ⟨index', node'⟩ := entry'
      obtain ⟨rfl, agrees⟩ := head
      cases rest' with
      | nil =>
        exact (Step.Couples.set (erased index)).bind fun _ _ _ => .pure agrees
      | cons => exact .throw_right _ _

/-- Both languages build the list alike. -/
theorem buildNodes_couples {nodes : List (CompiledNode X)}
    (separate : ∀ node ∈ nodes, FingerprintsSeparate served node)
    (noWrap : ∀ node ∈ nodes, NoWrap node) :
    Step.Couples (RefsAgree served) (ModelNode.Agrees served)
      (Cc.Labeler.buildNodes nodes) (buildNodes nodes) := by
  unfold Cc.Labeler.buildNodes buildNodes
  refine (Step.Couples.foldlM (fun node member _ _ roots =>
    addNode_couples (separate node member) (noWrap node member) roots)
      .none).bind
      fun found found' roots => ?_
  refine (takeRoot_couples roots).bind fun root root' agrees => ?_
  refine Step.Couples.get.bind fun nodeRefs nodeRefs' same => ?_
  rw [same.isEmpty_eq]
  split_ifs
  · exact .pure agrees
  · exact .throw _ _

/-- On a list of nodes that both languages accept, whose population nodes count
at most `2 ^ 31 - 1` people each, the labelers of both languages succeed for the
same inputs, and then give the same people and the same pool assignments, unless
a conversion of the run is out of range.  The fingerprints that the matchers of
the nodes take tell their columns and the events of the run apart. -/
theorem label_of_lists_agrees {nodes : List (CompiledNode X)}
    {labeler : Cc.Labeler X} {labeler' : Labeler X}
    (built : Cc.Labeler.buildFromList nodes = .ok labeler)
    (built' : buildFromList nodes = .ok labeler')
    (separate : ∀ node ∈ nodes, FingerprintsSeparate served node)
    (stays : StaysIn served labeler.root)
    (sizes : ∀ node ∈ nodes, ∀ config ∈ node.populationNodes,
      exactPopulation config.pools ≤ 2 ^ 31 - 1)
    (input : X.Input) (mode : LabelingMode)
    (isServed : served (Cc.Labeler.prepareEvent input mode))
    (inRange : labeler.label input mode ≠ .error .conversion) :
    ((∃ output, labeler.label input mode = .ok output) ↔
        ∃ output, labeler'.label input mode = .ok output) ∧
      ∀ output output', labeler.label input mode = .ok output →
        labeler'.label input mode = .ok output' →
          output'.people = output.people ∧
            output'.poolAssignments = output.poolAssignments := by
  have noWrap : ∀ node ∈ nodes, NoWrap node := fun node member config inNode =>
    lt_of_le_of_lt (sizes node member config inNode) (by decide)
  obtain ⟨root, rootBuilt, labelerEq⟩ := bind_eq_ok_iff.mp built
  obtain ⟨root', rootBuilt', labelerEq'⟩ := bind_eq_ok_iff.mp built'
  obtain rfl := Except.ok.inj labelerEq
  obtain rfl := Except.ok.inj labelerEq'
  rw [Cc.Builder.alone_eq] at rootBuilt
  rw [Builder.alone_eq] at rootBuilt'
  have agrees : ModelNode.Agrees served root root' :=
    (buildNodes_couples separate noWrap).outcome .empty root root' rootBuilt
      rootBuilt'
  have outputs := (@label_agree X served ⟨root⟩ ⟨root'⟩ agrees stays input mode
    isServed).eq_ok_iff
    fun fault failed isConversion => inRange (isConversion ▸ failed)
  refine ⟨exists_congr outputs, fun output output' found found' => ?_⟩
  have same := Except.ok.inj (((outputs output).mp found).symm.trans found')
  rw [same]
  exact ⟨rfl, rfl⟩

/-- The two leaves, and the tree of two persons that refers to them. -/
def twoPersonsNodes : List (CompiledNode .flagged) :=
  [rankedLeaf (some 1), populationLeaf (some 2),
    twoPersons (.nodeIndex 1) (.nodeIndex 2)]

/-- Both languages label two persons by a model from a list of nodes. -/
theorem label_of_lists_agrees_twoPersons :
    ∃ labeler labeler', Cc.Labeler.buildFromList twoPersonsNodes = .ok labeler ∧
      buildFromList twoPersonsNodes = .ok labeler' ∧
      ∃ output, labeler'.label twoPersonsInput .full = .ok output ∧
        output.people =
          [⟨some 8, some "first"⟩, ⟨some 103, some "other"⟩] ∧
        output.poolAssignments = [] := by
  have run : (Cc.Labeler.buildFromList twoPersonsNodes >>= fun labeler =>
      labeler.label twoPersonsInput .full >>= fun output =>
        return (output.people, output.poolAssignments)) =
      .ok ([⟨some 8, some "first"⟩, ⟨some 103, some "other"⟩], []) := by
    decide +kernel
  have isBuilt : (buildFromList twoPersonsNodes >>= fun _ => return ()) =
      .ok () := by
    decide +kernel
  obtain ⟨labeler, built, labeled⟩ := bind_eq_ok_iff.mp run
  obtain ⟨output, found, outputEq⟩ := bind_eq_ok_iff.mp labeled
  obtain ⟨peopleEq, assignmentsEq⟩ := Prod.mk.inj (Except.ok.inj outputEq)
  obtain ⟨labeler', built', -⟩ := bind_eq_ok_iff.mp isBuilt
  have sizes : ∀ node ∈ twoPersonsNodes, ∀ config ∈ node.populationNodes,
      exactPopulation config.pools ≤ 2 ^ 31 - 1 := by
    have leaf : exactPopulation [⟨100, 10⟩, ⟨200, 5⟩] ≤ 2 ^ 31 - 1 := by decide
    exact List.forall_mem_cons.mpr ⟨nofun, List.forall_mem_cons.mpr
      ⟨List.forall_mem_singleton.mpr leaf, List.forall_mem_singleton.mpr nofun⟩⟩
  obtain ⟨succeeds, same⟩ := label_of_lists_agrees built built'
    (fun _ _ matrix _ => columnsSeparate_flagged matrix.columns _)
    (staysIn_all (fun _ => trivial) _) sizes twoPersonsInput .full trivial
    (by rw [found]; nofun)
  obtain ⟨output', found'⟩ := succeeds.mp ⟨output, found⟩
  obtain ⟨peopleEq', assignmentsEq'⟩ := same output output' found found'
  exact ⟨labeler, labeler', built, built', output', found',
    peopleEq'.trans peopleEq, assignmentsEq'.trans assignmentsEq⟩

end Labeler

end VirtualPeople.Kotlin
