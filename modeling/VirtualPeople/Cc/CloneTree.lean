import VirtualPeople.Cc.Labeler
import VirtualPeople.Cc.RoutingRuns

/-!
# The meaning of a model tree

What a tree says about an event, without an event that is changed in place: a
leaf gives its outputs, a branch passes the updated event on to one child, and
a branch with multiplicity collects what a child gives for each person.  The
application of the tree computes this meaning, as long as nothing but the
leaves touches the outputs.
-/

namespace VirtualPeople.Cc

variable {X : Externals} {Node : Type}

/-! ## Outputs -/

/-- What a leaf adds to an event. -/
inductive Output (X : Externals)
  | person (activity : X.Activity)
  | pool (assignment : PoolAssignment)

namespace Output

/-- The added person, if it is one. -/
def person? : Output X → Option X.Activity
  | .person activity => some activity
  | .pool _ => none

/-- The announced pool, if it is one. -/
def pool? : Output X → Option PoolAssignment
  | .person _ => none
  | .pool assignment => some assignment

end Output

/-- What a leaf appends to an event. -/
def LeafNode.outputs (leaf : LeafNode) (event : X.Event) :
    Result (List (Output X)) :=
  if event.poolIdentityMode.getD false then
    return leaf.announced.map .pool
  else do
    let people ← leaf.people event
    return people.map .person

/-! ## Meanings -/

/-- The event of a person: for the multiplicity, the number of persons, the
event and the index of the person. -/
abbrev PersonEvent (X : Externals) :=
  MultiplicityImpl X → Int32 → X.Event → ℕ → X.Event

/-- Each person has a clone of the event. -/
def clonedPerson : PersonEvent X := fun multiplicity _ event personIndex =>
  BranchNodeImpl.cloneEvent multiplicity event personIndex

/-- Each person has a clone of the event, but the only one has the event with
its index. -/
def givenPerson : PersonEvent X := fun multiplicity count event personIndex =>
  if count = 1 then
    X.setValueToProto .int32 event multiplicity.personIndexField 0
  else BranchNodeImpl.cloneEvent multiplicity event personIndex

section Meaning

variable (person : PersonEvent X)

namespace BranchNodeImpl

/-- The meaning of a branch from what its updaters do and its children mean. -/
def meaning
    (update : AttributesUpdaterInterface X Node → X.Event → Result X.Event)
    (childMeaning : Node → X.Event → Result (List (Output X)))
    (impl : BranchNodeImpl X Node) (event : X.Event) :
    Result (List (Output X)) :=
  match impl.multiplicity with
  | some multiplicity =>
    if impl.updaters.isEmpty then do
      let count ← multiplicity.computeEventMultiplicity event
      let persons := (List.range count.toInt.toNat).map
        (person multiplicity count event)
      let outputs ← persons.mapM (impl.walkChild childMeaning)
      return outputs.flatten
    else
      throw (internal "BranchNode cannot have both updaters and multiplicity.")
  | none => do
    let updated ← impl.updaters.foldlM
      (fun event updater => update updater event) event
    impl.walkChild childMeaning updated

end BranchNodeImpl

/-- A node as its behaviour and its meaning. -/
structure MeantNode (X : Externals) where
  behaviour : Behaviour X
  meaning : X.Event → Result (List (Output X))

namespace ModelNode

/-- The tree, with the outputs that it means for an event. -/
def meant (node : ModelNode X) : MeantNode X :=
  node.fold
    (fun impl => {
      behaviour := (impl.map MeantNode.behaviour).apply
      meaning := impl.meaning person
        (fun updater => applyToCopy (updater.map MeantNode.behaviour).update)
        MeantNode.meaning })
    fun leaf => {
      behaviour := leaf.apply
      meaning := leaf.outputs }

/-- The outputs that a node gives for an event. -/
def meaning (node : ModelNode X) : X.Event → Result (List (Output X)) :=
  (node.meant person).meaning

/-- The tree with its meaning behaves as the tree does. -/
@[simp] theorem behaviour_meant (node : ModelNode X) :
    (node.meant person).behaviour = node.apply := by
  induction node using ModelNode.induction with
  | leaf leaf => rw [meant, fold_leafNode, apply_leafNode]
  | branch impl children trees =>
    rw [meant, fold_branchNode, apply_branchNode]
    change ((impl.map (meant person)).map MeantNode.behaviour).apply = _
    rw [BranchNodeImpl.map_map, BranchNodeImpl.map_congr children trees]

@[simp] theorem meaning_leafNode (leaf : LeafNode) (event : X.Event) :
    meaning person (.leafNode leaf) event = leaf.outputs event := by
  rw [meaning, meant, fold_leafNode]

/-- The meaning of a branch node in terms of its children. -/
theorem meaning_branchNode (impl : BranchNodeImpl X (ModelNode X))
    (event : X.Event) :
    meaning person (.branchNode impl) event =
      impl.meaning person updateEvent (meaning person) event := by
  rw [meaning, meant, fold_branchNode]
  change (impl.map (meant person)).meaning person _ _ event = _
  have updaterEq (updater : AttributesUpdaterInterface X (ModelNode X)) :
      (updater.map (meant person)).map MeantNode.behaviour =
        updater.map apply := by
    cases updater with
    | updateTree root =>
      exact congrArg AttributesUpdaterInterface.updateTree
        (behaviour_meant person root)
    | _ => rfl
  have childEq := funext (BranchNodeImpl.walkChild_map (meant person)
    MeantNode.meaning impl)
  unfold BranchNodeImpl.meaning
  rw [childEq]
  simp only [BranchNodeImpl.map, List.isEmpty_map, List.foldlM_map, updaterEq]
  rfl

end ModelNode

end Meaning

/-! ## Trees whose updates keep a field -/

section Keeps

variable {α : Type} (field : X.Event → α)

/-- The update leaves the field as it is. -/
def KeepsField (update : X.Event → Result X.Event) : Prop :=
  ∀ event updated, update event = .ok updated → field updated = field event

/-- Setting the person index leaves the field as it is. -/
def MultiplicityImpl.KeepsField (multiplicity : MultiplicityImpl X) : Prop :=
  ∀ event index,
    field (X.setValueToProto .int32 event multiplicity.personIndexField index) =
      field event

/-- The updaters and multiplicities of the tree leave the field as it is; its
update trees have no multiplicity and end only in stop nodes.  The tree itself
may be an update tree. -/
inductive ModelNode.KeepsField : Bool → ModelNode X → Prop
  | leafNode {isUpdate : Bool} {leaf : LeafNode}
      (stops : isUpdate = true → leaf = .stopNode) :
      KeepsField isUpdate (.leafNode leaf)
  | branchNode {isUpdate : Bool} {impl : BranchNodeImpl X (ModelNode X)}
      (single : isUpdate = true → impl.multiplicity = none)
      (multiplicity : ∀ multiplicity ∈ impl.multiplicity,
        multiplicity.KeepsField field)
      (updaters : ∀ updater ∈ impl.updaters, updater.treeRoot = none →
        Cc.KeepsField field (updateEvent updater))
      (trees : ∀ updater ∈ impl.updaters, ∀ root ∈ updater.treeRoot,
        KeepsField true root)
      (children : ∀ child ∈ impl.childNodes, KeepsField isUpdate child) :
      KeepsField isUpdate (.branchNode impl)

variable {field}

/-- Updates that keep a field one by one keep it together. -/
theorem KeepsField.foldlM {updates : List (X.Event → Result X.Event)}
    (keeps : ∀ update ∈ updates, KeepsField field update) :
    KeepsField field fun event =>
      updates.foldlM (fun event update => update event) event := by
  induction updates with
  | nil =>
    intro event updated same
    rw [Except.ok.inj same]
  | cons update updates inductionHypothesis =>
    have ⟨head, tail⟩ := List.forall_mem_cons.mp keeps
    intro event updated run
    obtain ⟨middle, first, rest⟩ := bind_eq_ok_iff.mp run
    exact (inductionHypothesis tail middle updated rest).trans
      (head event middle first)

namespace ModelNode

/-- The updaters of a branch keep the field when its update trees do. -/
theorem keepsField_updateEvent {impl : BranchNodeImpl X (ModelNode X)}
    (updaters : ∀ updater ∈ impl.updaters, updater.treeRoot = none →
      Cc.KeepsField field (updateEvent updater))
    (trees : ∀ updater ∈ impl.updaters, ∀ root ∈ updater.treeRoot,
      Cc.KeepsField field (applyToCopy root.apply)) :
    Cc.KeepsField field fun event => impl.updaters.foldlM
      (fun event updater => updateEvent updater event) event := by
  have each : ∀ update ∈ impl.updaters.map updateEvent,
      Cc.KeepsField field update := by
    intro update member
    obtain ⟨updater, inUpdaters, rfl⟩ := List.mem_map.mp member
    cases updater with
    | updateTree root => exact trees _ inUpdaters root rfl
    | _ => exact updaters _ inUpdaters rfl
  have folded := Cc.KeepsField.foldlM each
  simpa only [List.foldlM_map] using folded

/-- An update tree keeps the field. -/
theorem KeepsField.update {isUpdate : Bool} {node : ModelNode X}
    (keeps : node.KeepsField field isUpdate) (update : isUpdate = true) :
    Cc.KeepsField field (applyToCopy node.apply) := by
  induction keeps with
  | leafNode stops =>
    intro event updated run
    rw [stops update, apply_leafNode] at run
    rw [← Except.ok.inj run]
  | branchNode single _ updaters _ _ treesHypothesis childrenHypothesis =>
    intro event updated run
    rw [applyToCopy_branchNode] at run
    unfold BranchNodeImpl.walk BranchNodeImpl.dispatch at run
    rw [single update] at run
    simp only [bind_assoc, bind_eq_ok_iff] at run
    obtain ⟨middle, updatersRun, _, same, childRun⟩ := run
    rw [← Except.ok.inj same] at childRun
    obtain ⟨child, selected, applied⟩ := bind_eq_ok_iff.mp childRun
    have updatersKeep := keepsField_updateEvent updaters
      fun updater member root isRoot =>
        treesHypothesis updater member root isRoot rfl
    exact (childrenHypothesis child (BranchNodeImpl.mem_of_selectChild selected)
      update middle updated applied).trans
        (updatersKeep event middle updatersRun)

end ModelNode

end Keeps

/-! ## The application computes the meaning -/

/-- What the leaves have added to an event. -/
def addedOutputs (event : X.Event) : List X.Activity × List PoolAssignment :=
  (event.virtualPersonActivities, event.poolAssignments)

/-- The event holds the people and the pools among the outputs, in order. -/
structure HoldsOutputs (final : X.Event) (outputs : List (Output X)) :
    Prop where
  people : final.virtualPersonActivities = outputs.filterMap Output.person?
  pools : final.poolAssignments = outputs.filterMap Output.pool?

namespace HoldsOutputs

/-- An event with people and no pools holds the people as outputs. -/
theorem of_people {event : X.Event} (noPools : event.poolAssignments = [])
    (people : List X.Activity) :
    HoldsOutputs { event with virtualPersonActivities := people }
      (people.map .person) where
  people := by simp [List.filterMap_map, Function.comp_def, Output.person?]
  pools := by simp [List.filterMap_map, Function.comp_def, Output.pool?, noPools]

/-- An event with pools and no people holds the pools as outputs. -/
theorem of_pools {event : X.Event}
    (noPeople : event.virtualPersonActivities = [])
    (pools : List PoolAssignment) :
    HoldsOutputs { event with poolAssignments := pools }
      (pools.map .pool) where
  people := by
    simp [List.filterMap_map, Function.comp_def, Output.person?, noPeople]
  pools := by simp [List.filterMap_map, Function.comp_def, Output.pool?]

/-- Clones that hold outputs hold their concatenation. -/
theorem flatten {clones : List X.Event} {outputs : List (List (Output X))}
    (each : List.Forall₂ HoldsOutputs clones outputs) :
    clones.flatMap LabelerEvent.virtualPersonActivities =
        outputs.flatten.filterMap Output.person? ∧
      clones.flatMap LabelerEvent.poolAssignments =
        outputs.flatten.filterMap Output.pool? := by
  induction each with
  | nil => exact ⟨rfl, rfl⟩
  | cons head _ inductionHypothesis =>
    simp only [List.flatMap_cons, List.flatten_cons, List.filterMap_append,
      head.people, head.pools, inductionHypothesis, and_self]

/-- The clones of an event without outputs hold theirs one after another. -/
theorem foldl {event : X.Event} {clones : List X.Event}
    {outputs : List (List (Output X))} (empty : addedOutputs event = ([], []))
    (each : List.Forall₂ HoldsOutputs clones outputs) :
    HoldsOutputs (clones.foldl BranchNodeImpl.foldBack event)
      outputs.flatten := by
  obtain ⟨noPeople, noPools⟩ := Prod.mk.inj empty
  rw [BranchNodeImpl.foldl_foldBack, noPeople, noPools]
  exact ⟨(flatten each).1, (flatten each).2⟩

end HoldsOutputs

/-- A leaf adds its outputs to an event without any. -/
theorem LeafNode.apply_lockstep (leaf : LeafNode) {event : X.Event}
    (empty : addedOutputs event = ([], [])) :
    Lockstep HoldsOutputs (applyToCopy leaf.apply event)
      (leaf.outputs event) := by
  obtain ⟨noPeople, noPools⟩ := Prod.mk.inj empty
  unfold outputs
  by_cases identity : event.poolIdentityMode.getD false = true
  · rw [applyToCopy_of_ok (leaf.apply_of_poolIdentity identity),
      if_pos identity, noPools]
    exact .ok (.of_pools noPeople leaf.announced)
  · have full : event.poolIdentityMode.getD false = false := by simpa using identity
    rw [if_neg identity]
    cases run : leaf.apply event with
    | error fault final =>
      rw [applyToCopy_of_error run,
        LeafNode.people_of_apply_error full noPeople run]
      exact .errors _ _
    | ok value final =>
      obtain ⟨people, created, rfl⟩ := (leaf.apply_of_full full noPeople).mp run
      rw [applyToCopy_of_ok run, created]
      exact .ok (.of_people noPools people)

namespace BranchNodeImpl

variable {impl : BranchNodeImpl X (ModelNode X)}

/-- The event of each person has no outputs. -/
theorem addedOutputs_givenPerson {multiplicity : MultiplicityImpl X}
    (keeps : multiplicity.KeepsField addedOutputs) {event : X.Event}
    (empty : addedOutputs event = ([], [])) (count : Int32) (personIndex : ℕ) :
    addedOutputs (givenPerson multiplicity count event personIndex) =
      ([], []) := by
  unfold givenPerson cloneEvent
  split_ifs
  · exact (keeps event 0).trans empty
  · exact (keeps _ _).trans empty

/-- The child that is walked to holds what it means. -/
theorem walkChild_lockstep {event : X.Event}
    (children : ∀ child ∈ impl.childNodes,
      Lockstep HoldsOutputs (applyToCopy child.apply event)
        (child.meaning givenPerson event)) :
    Lockstep HoldsOutputs
      (impl.walkChild (fun child => applyToCopy child.apply) event)
      (impl.walkChild (ModelNode.meaning givenPerson) event) := by
  unfold walkChild
  cases selected : impl.selectChild event with
  | error fault => exact .errors _ _
  | ok child => exact children child (mem_of_selectChild selected)

/-- Of a single person no clone is made; the others have clones. -/
theorem applyMultiplicity_lockstep {multiplicity : MultiplicityImpl X}
    (keeps : multiplicity.KeepsField addedOutputs)
    (children : ∀ child ∈ impl.childNodes, ∀ event,
      addedOutputs event = ([], []) →
        Lockstep HoldsOutputs (applyToCopy child.apply event)
          (child.meaning givenPerson event))
    {event : X.Event} (empty : addedOutputs event = ([], [])) :
    Lockstep HoldsOutputs
      (dispatchMultiplicity multiplicity event >>=
        impl.walkDispatched (fun child => applyToCopy child.apply)
          (List.foldl foldBack) event)
      (multiplicity.computeEventMultiplicity event >>= fun count =>
        ((List.range count.toInt.toNat).map
          (givenPerson multiplicity count event)).mapM
            (impl.walkChild (ModelNode.meaning givenPerson)) >>= fun outputs =>
              pure outputs.flatten) := by
  have personLockstep (count : Int32) (personIndex : ℕ) :=
    walkChild_lockstep fun child member => children child member
      (givenPerson multiplicity count event personIndex)
      (addedOutputs_givenPerson keeps empty count personIndex)
  unfold dispatchMultiplicity
  rw [bind_assoc]
  refine .bind_eq (.refl _) fun count => ?_
  by_cases single : count = 1
  · subst single
    have persons : (List.range (1 : Int32).toInt.toNat).map
        (givenPerson multiplicity 1 event) =
          [givenPerson multiplicity 1 event 0] := rfl
    rw [if_pos rfl, persons, List.mapM_cons, List.mapM_nil]
    simp only [pure_bind, bind_assoc, List.flatten_cons, List.flatten_nil,
      List.append_nil, bind_pure]
    exact personLockstep 1 0
  · have cloned : givenPerson multiplicity count event =
        cloneEvent multiplicity event := funext fun _ => if_neg single
    rw [if_neg single, cloned]
    simp only [pure_bind, walkDispatched]
    refine .bind (.mapM ?_) fun finals outputs each =>
      .ok (HoldsOutputs.foldl empty each)
    rw [List.forall₂_same]
    intro clone member
    obtain ⟨personIndex, -, rfl⟩ := List.mem_map.mp member
    rw [← cloned]
    exact personLockstep count personIndex

end BranchNodeImpl

/-- Applied to an event without outputs, a tree fails exactly when its meaning
is an error, and otherwise leaves the outputs of the meaning. -/
theorem ModelNode.apply_lockstep {isUpdate : Bool} {node : ModelNode X}
    (keeps : node.KeepsField addedOutputs isUpdate) {event : X.Event}
    (empty : addedOutputs event = ([], [])) :
    Lockstep HoldsOutputs (applyToCopy node.apply event)
      (node.meaning givenPerson event) := by
  induction keeps generalizing event with
  | leafNode _ =>
    rw [apply_leafNode, meaning_leafNode]
    exact LeafNode.apply_lockstep _ empty
  | @branchNode _ impl _ multiplicityKeeps updaters trees _ _
      childrenHypothesis =>
    rw [applyToCopy_branchNode, meaning_branchNode]
    unfold BranchNodeImpl.walk BranchNodeImpl.dispatch BranchNodeImpl.meaning
    cases multiplicityEq : impl.multiplicity with
    | some multiplicity =>
      simp only
      split_ifs
      · exact BranchNodeImpl.applyMultiplicity_lockstep
          (multiplicityKeeps multiplicity multiplicityEq)
          (fun child member event => childrenHypothesis child member) empty
      · exact .errors _ _
    | none =>
      simp only [bind_assoc, pure_bind]
      cases run : impl.updaters.foldlM
          (fun event updater => updateEvent updater event) event with
      | error fault => exact .errors _ _
      | ok updated =>
        have kept := keepsField_updateEvent updaters
          (fun updater member root isRoot =>
            (trees updater member root isRoot).update rfl) event updated run
        exact BranchNodeImpl.walkChild_lockstep fun child member =>
          childrenHypothesis child member (kept.trans empty)

/-! ## One kind of output -/

/-- The output announces a pool. -/
def Output.isPool : Output X → Bool
  | .person _ => false
  | .pool _ => true

/-- A leaf announces pools or assigns people, as the mode says. -/
theorem LeafNode.isPool_of_outputs {leaf : LeafNode} {event : X.Event}
    {outputs : List (Output X)} (given : leaf.outputs event = .ok outputs) :
    ∀ output ∈ outputs,
      output.isPool = event.poolIdentityMode.getD false := by
  unfold LeafNode.outputs at given
  split_ifs at given with identity
  · rw [← Except.ok.inj given, identity]
    intro output member
    obtain ⟨assignment, -, rfl⟩ := List.mem_map.mp member
    rfl
  · obtain ⟨people, -, given⟩ := bind_eq_ok_iff.mp given
    rw [← Except.ok.inj given]
    intro output member
    obtain ⟨activity, -, rfl⟩ := List.mem_map.mp member
    exact (Bool.eq_false_of_not_eq_true identity).symm

/-- While no update changes the mode, all outputs are of the kind of the mode
of the event. -/
theorem ModelNode.isPool_of_meaning {isUpdate : Bool} {node : ModelNode X}
    (keeps : node.KeepsField LabelerEvent.poolIdentityMode isUpdate)
    {event : X.Event} {outputs : List (Output X)}
    (given : node.meaning givenPerson event = .ok outputs) :
    ∀ output ∈ outputs,
      output.isPool = event.poolIdentityMode.getD false := by
  induction keeps generalizing event outputs with
  | leafNode _ =>
    rw [meaning_leafNode] at given
    exact LeafNode.isPool_of_outputs given
  | @branchNode _ impl _ multiplicityKeeps updaters trees _ _
      childrenHypothesis =>
    have ofChild {event : X.Event} {outputs : List (Output X)}
        (given : impl.walkChild (meaning givenPerson) event = .ok outputs) :
        ∀ output ∈ outputs,
          output.isPool = event.poolIdentityMode.getD false := by
      obtain ⟨child, selected, given⟩ := bind_eq_ok_iff.mp given
      exact childrenHypothesis child
        (BranchNodeImpl.mem_of_selectChild selected) given
    rw [meaning_branchNode] at given
    unfold BranchNodeImpl.meaning at given
    cases multiplicityEq : impl.multiplicity with
    | some multiplicity =>
      rw [multiplicityEq] at given
      simp only at given
      split_ifs at given
      · obtain ⟨count, -, given⟩ := bind_eq_ok_iff.mp given
        obtain ⟨lists, mapped, given⟩ := bind_eq_ok_iff.mp given
        rw [← Except.ok.inj given]
        intro output member
        obtain ⟨list, inLists, inList⟩ := List.mem_flatten.mp member
        obtain ⟨person, inPersons, fromPerson⟩ :=
          exists_mem_of_mem_mapM mapped inLists
        obtain ⟨personIndex, -, rfl⟩ := List.mem_map.mp inPersons
        rw [ofChild fromPerson output inList]
        have kept := multiplicityKeeps multiplicity multiplicityEq
        congr 1
        unfold givenPerson BranchNodeImpl.cloneEvent
        split_ifs
        · exact kept event 0
        · exact kept _ _
    | none =>
      rw [multiplicityEq] at given
      obtain ⟨updated, run, given⟩ := bind_eq_ok_iff.mp given
      have kept := keepsField_updateEvent updaters
        (fun updater member root isRoot =>
          (trees updater member root isRoot).update rfl) event updated run
      rw [← kept]
      exact ofChild given

/-- People and pools of one kind, listed one after the other, are all of the
outputs. -/
theorem Output.listed_eq {outputs : List (Output X)} {isPool : Bool}
    (kind : ∀ output ∈ outputs, output.isPool = isPool) :
    (outputs.filterMap Output.person?).map .person ++
      (outputs.filterMap Output.pool?).map .pool = outputs := by
  induction outputs with
  | nil => rfl
  | cons output outputs inductionHypothesis =>
    have ⟨head, tail⟩ := List.forall_mem_cons.mp kind
    have rest := inductionHypothesis tail
    cases output with
    | person activity =>
      exact congrArg (List.cons (Output.person activity)) rest
    | pool assignment =>
      have noPeople : outputs.filterMap Output.person? = [] := by
        rw [List.filterMap_eq_nil_iff]
        intro other member
        have sameKind := (tail other member).trans head.symm
        cases other with
        | person activity => contradiction
        | pool assignment => rfl
      rw [noPeople] at rest
      rw [List.filterMap_cons_none rfl, noPeople]
      exact congrArg (List.cons (Output.pool assignment)) rest

/-- Labeling succeeds exactly when the meaning of the root is not an error, and
gives the people and the pools in it, each in order; without updates of the
mode these are the meaning, one after the other. -/
theorem Labeler.label_meaning (labeler : Labeler X)
    (keeps : labeler.root.KeepsField addedOutputs false) (input : X.Input)
    (mode : LabelingMode) :
    ((∃ output, labeler.label input mode = .ok output) ↔
      ∃ outputs, labeler.root.meaning givenPerson (prepareEvent input mode) =
        .ok outputs) ∧
    ∀ output outputs, labeler.label input mode = .ok output →
      labeler.root.meaning givenPerson (prepareEvent input mode) = .ok outputs →
        output.people = outputs.filterMap Output.person? ∧
        output.poolAssignments = outputs.filterMap Output.pool? ∧
        (labeler.root.KeepsField LabelerEvent.poolIdentityMode false →
          output.people.map .person ++ output.poolAssignments.map .pool =
            outputs) := by
  have empty : addedOutputs (prepareEvent input mode) = ([], []) := by
    cases mode <;> rfl
  have lockstep := ModelNode.apply_lockstep keeps empty
  have kind (keepsMode : labeler.root.KeepsField
      LabelerEvent.poolIdentityMode false) {outputs : List (Output X)} :=
    @ModelNode.isPool_of_meaning X false _ keepsMode (prepareEvent input mode)
      outputs
  unfold label
  generalize labeler.root.meaning givenPerson (prepareEvent input mode) =
    given at lockstep kind ⊢
  generalize applyToCopy labeler.root.apply (prepareEvent input mode) =
    applied at lockstep ⊢
  cases lockstep with
  | excuse isExcused => exact isExcused.elim
  | errors fault fault' =>
    refine ⟨iff_of_false ?_ ?_, ?_⟩
    · rintro ⟨output, impossible⟩
      contradiction
    · rintro ⟨outputs, impossible⟩
      contradiction
    · intro output outputs impossible
      contradiction
  | @ok final outputs holds =>
    refine ⟨iff_of_true ⟨_, rfl⟩ ⟨_, rfl⟩, ?_⟩
    intro output outputs' labeled same
    obtain rfl := Except.ok.inj same
    rw [← Except.ok.inj labeled]
    refine ⟨holds.people, holds.pools, fun keepsMode => ?_⟩
    simp only [holds.people, holds.pools]
    exact Output.listed_eq (kind keepsMode rfl)

/-! ## Where clones make a difference -/

/-- Filters on three fields of an event. -/
inductive PersonFilter
  | isTrue
  | hasActingFingerprint
  | isFirstPerson

/-- External functions for events that hold a person index. -/
def personExternals : Externals :=
  { Externals.constant with
    EventFields := Option Int32
    FieldFilterProto := PersonFilter
    FieldFilter := PersonFilter
    emptyEventFields := none
    mergeEvent := fun event update =>
      { event with
        poolIdentityMode := update.poolIdentityMode <|> event.poolIdentityMode }
    mergeMask := fun _ event => event
    serializePartialAsString := fun _ => ByteArray.empty
    printToString := fun _ => ""
    newFieldFilter := fun filter => .ok filter
    newFieldFilterFromEvent := fun _ => .ok .isTrue
    isMatch := fun filter event =>
      match filter with
      | .isTrue => true
      | .hasActingFingerprint => event.actingFingerprint.isSome
      | .isFirstPerson => event.others = some 0
    getValueFromProto := fun type event _ =>
      match type with
      | .int32 => event.others
      | _ => none
    setValueToProto := fun type event _ =>
      match type with
      | .int32 => fun value => { event with others := some value }
      | _ => fun _ => event }

/-- A ranked pool of one person. -/
def onePersonPool : CompiledNode personExternals :=
  .mk none (.rankedPopulationNode ⟨[⟨7, 1⟩], "seed", 1, .disjoint⟩)

/-- A branch with the given number of persons and conditions. -/
def personsBranch (count : Float)
    (branches : List (PersonFilter × CompiledNode personExternals)) :
    CompiledNode personExternals :=
  .mk none (.branchNode ⟨branches.map fun branch =>
      ⟨.node branch.2, .condition branch.1⟩, "seed",
    .multiplicity ⟨.expectedMultiplicity count, some "person_index", some 2.0,
      some true, some "seed"⟩⟩)

/-- A single person, with a pool if the fingerprint of its event is set. -/
def onePersonTree : CompiledNode personExternals :=
  personsBranch 1.0 [(.hasActingFingerprint, onePersonPool),
    (.isTrue, .mk none .stopNode)]

/-- Two persons, of which the first one is switched to pool identity mode. -/
def switchedPersonTree : CompiledNode personExternals :=
  personsBranch 2.0 [(.isTrue, .mk none (.branchNode
    ⟨[⟨.node onePersonPool, .condition .isTrue⟩], "seed",
      .updates [.conditionalMerge ⟨[⟨some .isFirstPerson,
        some { personExternals.emptyEvent with
          poolIdentityMode := some true }⟩], true⟩]⟩))]

/-- An input without an event id, and with a rank in the pool. -/
def rankedInput : personExternals.Input :=
  ⟨none, none, 0, [⟨7, 0⟩], false, ()⟩

theorem addedOutputs_of_conditionalMerge
    {updater : ConditionalMergeImpl personExternals}
    {event updated : personExternals.Event}
    (run : updater.update event = .ok updated) :
    addedOutputs updated = addedOutputs event := by
  unfold ConditionalMergeImpl.update at run
  simp only at run
  split_ifs at run
  · rw [Except.ok.inj run]
  · obtain ⟨update, -, merged⟩ := bind_eq_ok_iff.mp run
    rw [← Except.ok.inj merged]
    rfl

/-- The event of a single person may have no fingerprint where a clone has the
fingerprint zero, and an update of the mode may put pools before people. -/
theorem Labeler.label_not_cloned :
    (∀ (filter : PersonFilter) (event : personExternals.Event) people pools,
      personExternals.isMatch filter { event with
        virtualPersonActivities := people, poolAssignments := pools } =
          personExternals.isMatch filter event) ∧
    (∃ labeler output outputs, build onePersonTree = .ok labeler ∧
      labeler.root.KeepsField addedOutputs false ∧
      labeler.label rankedInput .poolIdentity = .ok output ∧
      labeler.root.meaning clonedPerson
        (prepareEvent rankedInput .poolIdentity) = .ok outputs ∧
      output.people.map .person ++ output.poolAssignments.map .pool ≠
        outputs) ∧
    ∃ labeler output outputs, build switchedPersonTree = .ok labeler ∧
      labeler.root.KeepsField addedOutputs false ∧
      labeler.label rankedInput .full = .ok output ∧
      labeler.root.meaning clonedPerson (prepareEvent rankedInput .full) =
        .ok outputs ∧
      output.people.map .person ++ output.poolAssignments.map .pool ≠
        outputs := by
  refine ⟨fun filter event people pools => ?_,
    ⟨_, _, _, rfl, ?_, rfl, rfl, nofun⟩, _, _, _, rfl, ?_, rfl, rfl, nofun⟩
  · cases filter <;> rfl
  · exact .branchNode nofun (fun _ _ _ _ => rfl) nofun nofun
      (List.forall_mem_cons.mpr ⟨.leafNode nofun,
        List.forall_mem_cons.mpr ⟨.leafNode nofun, nofun⟩⟩)
  · refine .branchNode nofun (fun _ _ _ _ => rfl) nofun nofun
      (List.forall_mem_cons.mpr ⟨.branchNode nofun nofun ?_ ?_
        (List.forall_mem_cons.mpr ⟨.leafNode nofun, nofun⟩), nofun⟩)
    · refine List.forall_mem_cons.mpr ⟨fun _ event updated run => ?_, nofun⟩
      unfold ModelNode.updateEvent at run
      simp only [AttributesUpdaterInterface.map,
        AttributesUpdaterInterface.update, applyToCopy_change] at run
      exact addedOutputs_of_conditionalMerge run
    · refine List.forall_mem_cons.mpr ⟨?_, by simp⟩
      simp [AttributesUpdaterInterface.treeRoot]

instance : DecidableEq personExternals.Label :=
  inferInstanceAs (DecidableEq Unit)

/-- Two persons, the first one from a ranked pool and the other one from a pool
of ten people. -/
def leafPerPersonTree : CompiledNode personExternals :=
  personsBranch 2.0 [(.isFirstPerson, onePersonPool),
    (.isTrue, .mk none (.populationNode ⟨[⟨100, 10⟩], "people"⟩))]

/-- The meaning of the tree of two persons is the list of both. -/
theorem Labeler.label_meaning_leafPerPerson :
    ∃ labeler, build leafPerPersonTree = .ok labeler ∧
      labeler.label rankedInput .full =
        .ok ⟨[⟨some 7, none⟩, ⟨some 100, none⟩], [], none⟩ ∧
      labeler.root.meaning givenPerson (prepareEvent rankedInput .full) =
        .ok [.person ⟨some 7, none⟩, .person ⟨some 100, none⟩] := by
  obtain ⟨labeler, built, labeled, keeps⟩ :
      ∃ labeler, build leafPerPersonTree = .ok labeler ∧
        labeler.label rankedInput .full =
          .ok ⟨[⟨some 7, none⟩, ⟨some 100, none⟩], [], none⟩ ∧
        ∀ {Field : Type} (field : personExternals.Event → Field),
          (∀ event index, field (personExternals.setValueToProto .int32 event
            () index) = field event) → labeler.root.KeepsField field false := by
    refine ⟨_, rfl, by decide +kernel, fun field kept => ?_⟩
    exact .branchNode nofun (fun _ _ => kept) nofun nofun
      (List.forall_mem_cons.mpr ⟨.leafNode nofun,
        List.forall_mem_cons.mpr ⟨.leafNode nofun, nofun⟩⟩)
  obtain ⟨succeeds, same⟩ := label_meaning labeler
    (keeps addedOutputs fun _ _ => rfl) rankedInput .full
  obtain ⟨outputs, meant⟩ := succeeds.mp ⟨_, labeled⟩
  obtain ⟨-, -, listed⟩ := same _ outputs labeled meant
  rw [← listed (keeps LabelerEvent.poolIdentityMode fun _ _ => rfl)] at meant
  exact ⟨labeler, built, labeled, meant⟩

end VirtualPeople.Cc
