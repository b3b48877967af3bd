import VirtualPeople.Cc.HiddenFields

/-!
# Updates that nothing sees

An update that writes only what the rest of the model does not read may be left
out.  One run makes the update and the other does not, so that their events
differ from there on, but they stay related by a relation that the rest of the
model respects, and related events are labeled alike.
-/

namespace VirtualPeople

/-! ## Lists with elements left out -/

/-- The second list is the first one without some of its elements of the
kind. -/
inductive Thinned {α : Type} (kind : α → Prop) : List α → List α → Prop
  | nil : Thinned kind [] []
  | keep {elements elements' : List α} (element : α)
      (rest : Thinned kind elements elements') :
      Thinned kind (element :: elements) (element :: elements')
  | drop {element : α} {elements elements' : List α} (isKind : kind element)
      (rest : Thinned kind elements elements') :
      Thinned kind (element :: elements) elements'

namespace Thinned

variable {α β σ : Type} {kind : α → Prop} {kind' : β → Prop}

/-- Lists with elements left out are mapped to such lists. -/
theorem mapM_aligned {f : α → Result β}
    (kinds : ∀ element, kind element → ∀ value, f element = .ok value →
      kind' value) {elements elements' : List α}
    (thinned : Thinned kind elements elements') :
    Aligned (Thinned kind') (elements.mapM f) (elements'.mapM f) := by
  induction thinned with
  | nil => exact .ok .nil
  | keep element _ inductionHypothesis =>
    rw [List.mapM_cons, List.mapM_cons]
    exact .bind_same fun value =>
      inductionHypothesis.bind fun _ _ rest => .ok (.keep value rest)
  | drop isKind _ inductionHypothesis =>
    rw [List.mapM_cons]
    intro values values' mapped mapped'
    obtain ⟨value, found, mapped⟩ := bind_eq_ok_iff.mp mapped
    obtain ⟨rest, restEq, same⟩ := bind_eq_ok_iff.mp mapped
    rw [← Except.ok.inj same]
    exact .drop (kinds _ isKind value found)
      (inductionHypothesis rest values' restEq mapped')

/-- Two loops stay related when the kept rounds keep them so and each round that
is left out succeeds and changes nothing that the relation sees. -/
theorem foldlM_lockstep {related : σ → σ → Prop} {body : σ → α → Result σ}
    {elements elements' : List α} (thinned : Thinned kind elements elements')
    (dropped : ∀ element, kind element → ∀ state state',
      related state state' →
        ∃ next, body state element = .ok next ∧ related next state')
    (kept : ∀ element ∈ elements', ∀ state state', related state state' →
      Lockstep related (body state element) (body state' element))
    {state state' : σ} (states : related state state') :
    Lockstep related (elements.foldlM body state)
      (elements'.foldlM body state') := by
  induction thinned generalizing state state' with
  | nil => exact .ok states
  | keep element _ inductionHypothesis =>
    have ⟨head, tail⟩ := List.forall_mem_cons.mp kept
    rw [List.foldlM_cons, List.foldlM_cons]
    exact (head state state' states).bind fun _ _ next =>
      inductionHypothesis tail next
  | drop isKind _ inductionHypothesis =>
    obtain ⟨next, found, nextRelated⟩ := dropped _ isKind state state' states
    rw [List.foldlM_cons, found]
    exact inductionHypothesis kept nextRelated

end Thinned

/-! ## Leaner models -/

section Configurations

variable {X : Externals}
  (unseen : AttributesUpdater X (CompiledNode X) → Prop)

/-- Some updates are left out of an action. -/
inductive Action.Leaner :
    Action X (CompiledNode X) → Action X (CompiledNode X) → Prop
  | same (action : Action X (CompiledNode X)) : Leaner action action
  | updates {updates updates' : List (AttributesUpdater X (CompiledNode X))}
      (thinned : Thinned unseen updates updates') :
      Leaner (.updates updates) (.updates updates')

/-- Some updates are left out of the inline branches of a model. -/
inductive CompiledNode.Leaner : CompiledNode X → CompiledNode X → Prop
  | same (config : CompiledNode X) : Leaner config config
  | branchNode {index index' : Option UInt32}
      {config config' : BranchNode X (CompiledNode X)}
      (sameSeed : config'.randomSeed = config.randomSeed)
      (sameShape :
        List.Forall₂ Branch.SameShape config.branches config'.branches)
      (children : ∀ pair ∈ config.branches.zip config'.branches,
        ∀ child child', pair.1.childNode = .node child →
          pair.2.childNode = .node child' → Leaner child child')
      (action : Action.Leaner unseen config.action config'.action) :
      Leaner (.mk index (.branchNode config)) (.mk index' (.branchNode config'))

end Configurations

namespace Cc

variable {X : Externals} {related : X.Event → X.Event → Prop}
  {event event' : X.Event}

section Related

variable (related)

/-- The updater succeeds on every event, and the relation does not see what it
changes. -/
def AttributesUpdaterInterface.Unseen
    (updater : AttributesUpdaterInterface X (ModelNode X)) : Prop :=
  ∀ event event', related event event' →
    ∃ updated, ModelNode.updateEvent updater event = .ok updated ∧
      related updated event'

/-- What the update is built to is unseen. -/
def UnseenUpdate (config : AttributesUpdater X (CompiledNode X)) : Prop :=
  ∀ updater, AttributesUpdaterInterface.build (config.map ModelNode.build) =
    .ok updater → updater.Unseen related

/-- A built tree without some of its unseen updaters. -/
inductive ModelNode.Leaner : ModelNode X → ModelNode X → Prop
  | leafNode (leaf : LeafNode) : Leaner (.leafNode leaf) (.leafNode leaf)
  | branchNode {impl : BranchNodeImpl X (ModelNode X)}
      {childNodes' : List (ModelNode X)}
      {updaters' : List (AttributesUpdaterInterface X (ModelNode X))}
      (sameLength : childNodes'.length = impl.childNodes.length)
      (children : ∀ pair ∈ impl.childNodes.zip childNodes',
        Leaner pair.1 pair.2)
      (updaters : updaters' = impl.updaters ∨ impl.multiplicity = none ∧
        Thinned (AttributesUpdaterInterface.Unseen related) impl.updaters
          updaters') :
      Leaner (.branchNode impl) (.branchNode
        { impl with childNodes := childNodes', updaters := updaters' })

end Related

namespace ModelNode

theorem Leaner.of_forall₂ {impl : BranchNodeImpl X (ModelNode X)}
    {childNodes' : List (ModelNode X)}
    {updaters' : List (AttributesUpdaterInterface X (ModelNode X))}
    (children : List.Forall₂ (Leaner related) impl.childNodes childNodes')
    (updaters : updaters' = impl.updaters ∨ impl.multiplicity = none ∧
      Thinned (AttributesUpdaterInterface.Unseen related) impl.updaters
        updaters') :
    Leaner related (.branchNode impl) (.branchNode
      { impl with childNodes := childNodes', updaters := updaters' }) := by
  have ⟨sameLength, pairs⟩ := List.forall₂_iff_zip.mp children
  exact .branchNode sameLength.symm (fun pair member => pairs member) updaters

theorem Leaner.refl (node : ModelNode X) : Leaner related node node := by
  induction node using ModelNode.induction with
  | leaf leaf => exact .leafNode leaf
  | branch impl children _ =>
    exact .of_forall₂ (List.forall₂_same.mpr children) (.inl rfl)

end ModelNode

/-! ## Runs with and without the updates -/

namespace Congruent

variable (congruent : Congruent related)
include congruent

/-- The branch of a tree that respects the relation respects it as well. -/
theorem respects_branchNode {impl : BranchNodeImpl X (ModelNode X)}
    (respects : (ModelNode.branchNode impl).Respects related) :
    impl.Respects related ModelNode.updateEvent := by
  cases respects with
  | branchNode conditions expectation personIndex updaters trees _ =>
    exact {
      conditions := conditions
      updaters := fun updater member event event' events =>
        congruent.updateEvent (updaters updater member)
          (fun root isRoot event event' =>
            congruent.apply_lockstep (trees updater member root isRoot)) events
      expectation := expectation
      personIndex := fun multiplicity isMultiplicity event event' events index =>
        personIndex multiplicity isMultiplicity index event event' events }

/-- Branches with and without the updates hand on related events. -/
theorem dispatch_leaner {impl : BranchNodeImpl X (ModelNode X)}
    {updaters' : List (AttributesUpdaterInterface X (ModelNode X))}
    (respects : { impl with updaters := updaters' }.Respects related
      ModelNode.updateEvent)
    (updaters : updaters' = impl.updaters ∨ impl.multiplicity = none ∧
      Thinned (AttributesUpdaterInterface.Unseen related) impl.updaters
        updaters')
    (events : related event event') :
    Lockstep (Dispatch.Related related)
      (impl.dispatch ModelNode.updateEvent event)
      ({ impl with updaters := updaters' }.dispatch ModelNode.updateEvent
        event') := by
  rcases updaters with same | ⟨noMultiplicity, thinned⟩
  · rw [same] at respects ⊢
    exact respects.dispatch congruent.keepsFingerprints events
  · unfold BranchNodeImpl.dispatch
    rw [noMultiplicity]
    refine .bind (thinned.foldlM_lockstep (fun updater unseen => unseen) ?_
      events) fun _ _ updated => .ok (.onward updated)
    exact fun updater member event event' =>
      respects.updaters updater member event event'

/-- With the updates and without them, related events are labeled alike. -/
theorem apply_leaner {node node' : ModelNode X}
    (leaner : node.Leaner related node') (respects : node'.Respects related)
    (events : related event event') :
    Lockstep related (applyToCopy node.apply event)
      (applyToCopy node'.apply event') := by
  induction leaner generalizing event event' with
  | leafNode leaf =>
    rw [ModelNode.apply_leafNode]
    exact congruent.leaf_lockstep leaf events
  | @branchNode impl childNodes' updaters' sameLength _ updaters
      inductionHypothesis =>
    have branch := congruent.respects_branchNode respects
    have atBranch : { impl with updaters := updaters' }.Respects related
        ModelNode.updateEvent :=
      ⟨branch.conditions, branch.updaters, branch.expectation,
        branch.personIndex⟩
    rw [ModelNode.applyToCopy_branchNode, ModelNode.applyToCopy_branchNode]
    refine .bind (congruent.dispatch_leaner atBranch updaters events)
      fun dispatched dispatched' same =>
        atBranch.walkDispatched congruent.keepsFingerprints sameLength ?_
          (fun clones clones' each => congruent.foldl_foldBack each events) same
    intro pair member event event' events
    cases respects with
    | branchNode _ _ _ _ _ children =>
      exact inductionHypothesis pair member
        (children pair.2 (List.of_mem_zip member).2) events

end Congruent

/-! ## Building leaner models -/

/-- An action without its unseen updates is built without them. -/
theorem buildAction_leaner {action action' : Action X (CompiledNode X)}
    (leaner : Action.Leaner (UnseenUpdate related) action action') :
    Aligned (fun parts parts' => parts'.2 = parts.2 ∧
        (parts'.1 = parts.1 ∨ parts.2 = none ∧
          Thinned (AttributesUpdaterInterface.Unseen related) parts.1 parts'.1))
      (buildAction (action.map ModelNode.build))
      (buildAction (action'.map ModelNode.build)) := by
  cases leaner with
  | same action =>
    intro parts parts' built built'
    rw [Except.ok.inj (built.symm.trans built')]
    exact ⟨rfl, .inl rfl⟩
  | updates thinned =>
    have updaters : Aligned
        (Thinned (AttributesUpdaterInterface.Unseen related)) _ _ :=
      thinned.mapM_aligned fun update unseen => unseen
    simp only [Action.map, buildAction, List.mapM_map]
    exact updaters.bind fun _ _ thinned => .ok ⟨rfl, .inr ⟨rfl, thinned⟩⟩

/-- A branch node without unseen updates is assembled to a leaner one. -/
theorem BranchNodeImpl.assemble_leaner {selections : List (SelectBy X)}
    {randomSeed : String} {action action' : Action X (CompiledNode X)}
    (leaner : Action.Leaner (UnseenUpdate related) action action')
    {childNodes childNodes' : List (ModelNode X)}
    (children :
      List.Forall₂ (ModelNode.Leaner related) childNodes childNodes') :
    Aligned (fun impl impl' =>
        ModelNode.Leaner related (.branchNode impl) (.branchNode impl'))
      (assemble selections randomSeed (action.map ModelNode.build) childNodes)
      (assemble selections randomSeed (action'.map ModelNode.build)
        childNodes') := by
  intro impl impl' assembled assembled'
  obtain ⟨selection, parts, rfl, seedEq⟩ := assemble_eq_ok_iff.mp assembled
  obtain ⟨selection', parts', rfl, seedEq'⟩ := assemble_eq_ok_iff.mp assembled'
  obtain ⟨hashingEq, matcherEq⟩ :=
    Prod.mk.inj (Except.ok.inj (selection.symm.trans selection'))
  obtain ⟨multiplicityEq, updaters⟩ :
      impl'.multiplicity = impl.multiplicity ∧ _ :=
    buildAction_leaner leaner _ _ parts parts'
  have sameImpl : impl' = { impl with
      childNodes := impl'.childNodes
      updaters := impl'.updaters } := by
    rw [hashingEq, matcherEq, ← multiplicityEq, seedEq, ← seedEq']
  rw [sameImpl]
  exact .of_forall₂ children updaters

/-- Leaner configurations are built to leaner trees. -/
theorem ModelNode.build_leaner {config config' : CompiledNode X}
    (leaner : config.Leaner (UnseenUpdate related) config') :
    Aligned (Leaner related) (build config).alone (build config').alone := by
  induction leaner with
  | same config =>
    intro node node' built built'
    rw [Except.ok.inj (built.symm.trans built')]
    exact .refl node'
  | branchNode sameSeed sameShape _ action inductionHypothesis =>
    refine aligned_build_branchNode sameShape inductionHypothesis ?_
    intro selections childNodes childNodes' children
    rw [sameSeed]
    exact BranchNodeImpl.assemble_leaner action children

/-! ## Labelers -/

/-- A model may do without the updates that the rest of it does not see: every
input is labeled with the same people and pools, or is not labeled by either. -/
theorem Labeler.label_of_unseenUpdates (congruent : Congruent related)
    {root root' : CompiledNode X} {labeler labeler' : Labeler X}
    (leaner : root.Leaner (UnseenUpdate related) root')
    (built : build root = .ok labeler) (built' : build root' = .ok labeler')
    (respects : labeler'.root.Respects related) (input : X.Input)
    (mode : LabelingMode)
    (start : related (prepareEvent input mode) (prepareEvent input mode)) :
    ((∃ output, labeler.label input mode = .ok output) ↔
        ∃ output, labeler'.label input mode = .ok output) ∧
      ∀ output output', labeler.label input mode = .ok output →
        labeler'.label input mode = .ok output' →
          output'.people = output.people ∧
            output'.poolAssignments = output.poolAssignments := by
  obtain ⟨node, nodeBuilt, labelerEq⟩ := bind_eq_ok_iff.mp built
  obtain ⟨node', nodeBuilt', labelerEq'⟩ := bind_eq_ok_iff.mp built'
  obtain rfl := Except.ok.inj labelerEq
  obtain rfl := Except.ok.inj labelerEq'
  have leanerBuilt := ModelNode.build_leaner leaner node node' nodeBuilt
    nodeBuilt'
  have labeled : Lockstep (fun output output' =>
        output'.people = output.people ∧
          output'.poolAssignments = output.poolAssignments)
      (label ⟨node⟩ input mode) (label ⟨node'⟩ input mode) := by
    refine (congruent.apply_leaner leanerBuilt respects start).bind
      fun final final' sameFinal => .ok ?_
    have fields := congruent.reads final final' sameFinal
    exact ⟨(congrArg LeafFields.virtualPersonActivities fields).symm,
      (congrArg LeafFields.poolAssignments fields).symm⟩
  exact ⟨labeled.succeeds_iff, fun output output' found found' =>
    labeled.aligned output output' found found'⟩

/-- External functions whose merge only asks for a trace. -/
def tracingExternals : Externals :=
  { Externals.constant with
    mergeEvent := fun event _ => { event with
      labelerInput := event.labelerInput.map fun labelerInput =>
        { labelerInput with enableDebugTrace := true } } }

/-- An update that asks for a trace. -/
def traceUpdate :
    AttributesUpdater tracingExternals (CompiledNode tracingExternals) :=
  .conditionalMerge ⟨[⟨some (), some tracingExternals.emptyEvent⟩], false⟩

/-- A branch to a pool of one person after some updates. -/
def updatedPerson
    (updates : List (AttributesUpdater tracingExternals
      (CompiledNode tracingExternals))) : CompiledNode tracingExternals :=
  .mk none (.branchNode ⟨[⟨.node (.mk none (.rankedPopulationNode
    ⟨[⟨7, 1⟩], "seed", 0, .fullPool⟩)), .condition ()⟩], "seed",
      .updates updates⟩)

/-- The ids that are hidden do not show the trace that the merge asks for. -/
theorem hideIds_mergeEvent (event update : tracingExternals.Event) :
    hideIds (tracingExternals.mergeEvent event update) = hideIds event := by
  obtain ⟨labelerInput, _, _, _, _, _, _, _⟩ := event
  cases labelerInput <;> rfl

/-- Asking for a trace is not seen by the fingerprints. -/
theorem unseenUpdate_traceUpdate : UnseenUpdate SameFingerprints traceUpdate := by
  intro updater built event event' same
  rw [← Except.ok.inj built]
  exact ⟨_, rfl, (hideIds_mergeEvent event _).trans same⟩

/-- An update that asks for a trace is left out. -/
theorem Labeler.label_of_unseenUpdates_traceUpdate :
    ∃ labeler labeler' output,
      build (updatedPerson [traceUpdate]) = .ok labeler ∧
      build (updatedPerson []) = .ok labeler' ∧
      labeler.label tracingExternals.emptyInput .poolIdentity = .ok output ∧
      output.people = [] ∧ output.poolAssignments = [⟨7, 1, 0⟩] := by
  obtain ⟨labeler', built'⟩ : ∃ labeler', build (updatedPerson []) =
    .ok labeler' := ⟨_, rfl⟩
  have respects : labeler'.root.Respects SameFingerprints := by
    rw [← Except.ok.inj built']
    refine .branchNode ?_ (by simp) (by simp) (by simp) (by simp)
      (List.forall_mem_cons.mpr ⟨.leafNode _, by simp⟩)
    intro matcher isMatcher
    rw [← Option.some.inj isMatcher]
    exact List.forall_mem_cons.mpr ⟨fun _ _ _ => rfl, by simp⟩
  have leaner : (updatedPerson [traceUpdate]).Leaner
      (UnseenUpdate SameFingerprints) (updatedPerson []) := by
    refine .branchNode rfl (.cons rfl .nil) ?_
      (.updates (.drop unseenUpdate_traceUpdate .nil))
    intro pair member child child' isChild isChild'
    rw [List.mem_singleton.mp member] at isChild isChild'
    rw [← ChildNode.node.inj isChild, ← ChildNode.node.inj isChild']
    exact .same _
  have labeled' : labeler'.label tracingExternals.emptyInput .poolIdentity =
      .ok ⟨[], [⟨7, 1, 0⟩], none⟩ := by
    rw [← Except.ok.inj built']
    rfl
  obtain ⟨succeeds, outputs⟩ := label_of_unseenUpdates
    congruent_sameFingerprints leaner rfl built' respects
    tracingExternals.emptyInput .poolIdentity rfl
  obtain ⟨output, labeled⟩ := succeeds.mpr ⟨_, labeled'⟩
  obtain ⟨peopleEq, assignmentsEq⟩ := outputs output _ labeled labeled'
  exact ⟨_, labeler', output, rfl, built', labeled, peopleEq.symm,
    assignmentsEq.symm⟩

end Cc

end VirtualPeople
