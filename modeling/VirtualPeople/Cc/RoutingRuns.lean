import VirtualPeople.Cc.Routing

/-!
# Runs along routes

When every branch of a tree is neutral, two events that are alike take the same
route, and the application of the tree to an event does what the leaves on the
route of the event do: it announces their pools or creates their people, and
where it fails one of them has failed.
-/

namespace VirtualPeople.Cc

variable {X : Externals}

namespace ModelNode

/-- Every branch on the way to a leaf has the property. -/
inductive EveryBranch (P : BranchNodeImpl X (ModelNode X) → Prop) :
    ModelNode X → Prop
  | leafNode (leaf : LeafNode) : EveryBranch P (.leafNode leaf)
  | branchNode {impl : BranchNodeImpl X (ModelNode X)} (holds : P impl)
      (children : ∀ child ∈ impl.childNodes, EveryBranch P child) :
      EveryBranch P (.branchNode impl)

theorem EveryBranch.mono {P Q : BranchNodeImpl X (ModelNode X) → Prop}
    {node : ModelNode X} (every : node.EveryBranch P)
    (implies : ∀ impl, P impl → Q impl) : node.EveryBranch Q := by
  induction every with
  | leafNode leaf => exact .leafNode leaf
  | branchNode holds _ inductionHypothesis =>
    exact .branchNode (implies _ holds) inductionHypothesis

/-- Every branch of the tree is neutral to the control fields. -/
abbrev NeutralRoutes (node : ModelNode X) : Prop :=
  node.EveryBranch (BranchNodeImpl.Neutral updateEvent)

end ModelNode

variable {control control' : ControlFields X} {event event' : X.Event}
  {node : ModelNode X}

/-! ## Alike events take the same route -/

/-- Two visits of one leaf by events that are alike. -/
structure SameVisit (control control' : ControlFields X)
    (visit visit' : Visit X) : Prop where
  leaf : visit.leaf = visit'.leaf
  events : Alike control control' visit.event visit'.event

namespace ModelNode

/-- Events that are alike take the same route. -/
theorem route_lockstep (neutral : node.NeutralRoutes)
    (unlabeled : control.Unlabeled) (unlabeled' : control'.Unlabeled)
    (alike : Alike control control' event event') :
    Lockstep (List.Forall₂ (SameVisit control control')) (node.route event)
      (node.route event') := by
  induction neutral generalizing event event' with
  | leafNode leaf =>
    rw [route_leafNode, route_leafNode]
    exact .ok (.cons ⟨rfl, alike⟩ .nil)
  | branchNode holds _ inductionHypothesis =>
    rw [route_branchNode, route_branchNode]
    exact BranchNodeImpl.walk_match holds unlabeled unlabeled'
      (fun child member _ _ => inductionHypothesis child member)
      (fun _ _ each => List.rel_flatten each) alike

/-- The events on a route keep the control fields. -/
theorem controlFields_of_route (neutral : node.NeutralRoutes)
    (unlabeled : control.Unlabeled) (same : controlFields event = control)
    {visits : List (Visit X)} (routed : node.route event = .ok visits)
    {visit : Visit X} (member : visit ∈ visits) :
    controlFields visit.event = control := by
  have lockstep :=
    route_lockstep neutral unlabeled unlabeled ⟨rfl, same, same⟩
  rw [routed] at lockstep
  cases lockstep with
  | ok each => exact (List.forall₂_same.mp each visit member).events.first

end ModelNode

/-! ## What the leaves of a route add -/

namespace BranchNodeImpl

/-- Folding clones back appends what they were given. -/
theorem foldl_foldBack (event : X.Event) (clones : List X.Event) :
    clones.foldl foldBack event = { event with
      virtualPersonActivities := event.virtualPersonActivities ++
        clones.flatMap LabelerEvent.virtualPersonActivities
      poolAssignments := event.poolAssignments ++
        clones.flatMap LabelerEvent.poolAssignments } := by
  induction clones generalizing event with
  | nil => simp
  | cons clone clones inductionHypothesis =>
    rw [List.foldl_cons, inductionHypothesis]
    simp [foldBack]

end BranchNodeImpl

namespace Alike

/-- Nothing has been added to events that are alike, if it has not by their
control fields. -/
theorem unlabeled_eq (alike : Alike control control' event event')
    (unlabeled : control.Unlabeled) :
    event.virtualPersonActivities = [] ∧ event.poolAssignments = [] := by
  have same := alike.first
  exact ⟨(congrArg ControlFields.virtualPersonActivities same).trans
    unlabeled.activities,
    (congrArg ControlFields.poolAssignments same).trans unlabeled.assignments⟩

theorem refl (event : X.Event) :
    Alike (controlFields event) (controlFields event) event event :=
  ⟨rfl, rfl, rfl⟩

/-- Nothing but the control fields can differ. -/
theorem eq (alike : Alike control control event event') : event = event' := by
  have content := alike.content
  have sameControl := alike.first.trans alike.second.symm
  obtain ⟨labelerInput, fingerprint, mode, activities, assignments, quantumLabels,
    label, others⟩ := event
  obtain ⟨labelerInput', fingerprint', mode', activities', assignments',
    quantumLabels', label', others'⟩ := event'
  simp only [eraseControl, LabelerEvent.mk.injEq] at content
  simp only [controlFields, ControlFields.mk.injEq] at sameControl
  obtain ⟨inputs, rfl, -, -, -, rfl, rfl, rfl⟩ := content
  obtain ⟨rfl, ranks, rfl, rfl⟩ := sameControl
  cases labelerInput <;> cases labelerInput' <;>
    simp only [Option.map_some, Option.map_none, Option.some.injEq,
      reduceCtorEq] at inputs
  · rfl
  · rename_i input input'
    obtain ⟨eventId, profileInfo, timestamp, assigned, debug, others⟩ := input
    obtain ⟨eventId', profileInfo', timestamp', assigned', debug', others'⟩ :=
      input'
    simp only [LabelerInput.mk.injEq] at inputs
    obtain ⟨rfl, rfl, rfl, -, rfl, rfl⟩ := inputs
    rw [show assigned = assigned' from ranks]

end Alike

/-- What the application of a leaf has to do with its visit, the application of
a tree has to do with the route, if clones that are folded back keep it. -/
theorem ModelNode.apply_match {excused : Fault → Prop}
    {related : X.Event → List (Visit X) → Prop} (neutral : node.NeutralRoutes)
    (unlabeled : control.Unlabeled)
    (leaves : ∀ (leaf : LeafNode) {event : X.Event},
      controlFields event = control → event.virtualPersonActivities = [] →
      event.poolAssignments = [] →
        Match excused related (applyToCopy leaf.apply event)
          (.ok [⟨leaf, event⟩]))
    (clones : ∀ {event : X.Event} {clones : List X.Event}
      {visits : List (List (Visit X))}, event.virtualPersonActivities = [] →
      event.poolAssignments = [] → List.Forall₂ related clones visits →
        related (clones.foldl BranchNodeImpl.foldBack event) visits.flatten)
    (same : controlFields event = control) :
    Match excused related (applyToCopy node.apply event) (node.route event) := by
  induction neutral generalizing event with
  | leafNode leaf =>
    obtain ⟨noActivities, noAssignments⟩ :=
      Alike.unlabeled_eq ⟨rfl, same, same⟩ unlabeled
    rw [apply_leafNode, route_leafNode]
    exact leaves leaf same noActivities noAssignments
  | branchNode holds _ inductionHypothesis =>
    obtain ⟨noActivities, noAssignments⟩ :=
      Alike.unlabeled_eq ⟨rfl, same, same⟩ unlabeled
    rw [applyToCopy_branchNode, route_branchNode]
    refine BranchNodeImpl.walk_match holds unlabeled unlabeled ?_
      (fun _ _ => clones noActivities noAssignments) ⟨rfl, same, same⟩
    intro child member event event' alike
    rw [← alike.eq]
    exact inductionHypothesis child member alike.first

/-- The people that the leaf creates for the event. -/
def Visit.people (visit : Visit X) : Result (List X.Activity) :=
  visit.leaf.people visit.event

/-- The event holds the people that the visited leaves create, in order. -/
def HoldsPeople (final : X.Event) (visits : List (Visit X)) : Prop :=
  final.poolAssignments = [] ∧ ∃ people,
    List.Forall₂ (fun visit people => Visit.people visit = .ok people) visits
      people ∧
    final.virtualPersonActivities = people.flatten

/-- The event holds the pools that the visited leaves announce, in order. -/
def HoldsAssignments (final : X.Event) (visits : List (Visit X)) : Prop :=
  final.virtualPersonActivities = [] ∧
    final.poolAssignments = visits.flatMap fun visit => visit.leaf.announced

/-! ## Full labeling -/

/-- The clones of a branch hold together what each of them holds. -/
theorem HoldsPeople.foldl {clones : List X.Event}
    {visits : List (List (Visit X))}
    (each : List.Forall₂ HoldsPeople clones visits)
    (activities : event.virtualPersonActivities = [])
    (assignments : event.poolAssignments = []) :
    HoldsPeople (clones.foldl BranchNodeImpl.foldBack event)
      visits.flatten := by
  rw [BranchNodeImpl.foldl_foldBack, activities, assignments]
  unfold HoldsPeople
  simp only [List.nil_append]
  induction each with
  | nil => exact ⟨rfl, [], .nil, rfl⟩
  | cons head _ inductionHypothesis =>
    obtain ⟨noAssignments, people, created, activitiesEq⟩ := head
    obtain ⟨noMore, morePeople, moreCreated, moreEq⟩ := inductionHypothesis
    refine ⟨?_, people ++ morePeople, List.rel_append created moreCreated, ?_⟩
    · rw [List.flatMap_cons, noAssignments, noMore, List.append_nil]
    · rw [List.flatMap_cons, activitiesEq, moreEq, List.flatten_append]

namespace ModelNode

/-- When full labeling succeeds, the route exists and its leaves have created
the people. -/
theorem apply_of_full (neutral : node.NeutralRoutes)
    (unlabeled : control.Unlabeled)
    (full : control.poolIdentityMode.getD false = false)
    (same : controlFields event = control) :
    Match (fun _ => True) HoldsPeople (applyToCopy node.apply event)
      (node.route event) := by
  refine apply_match neutral unlabeled ?_
    (fun noActivities noAssignments each =>
      HoldsPeople.foldl each noActivities noAssignments) same
  intro leaf event same noActivities noAssignments
  have mode : event.poolIdentityMode = control.poolIdentityMode :=
    congrArg ControlFields.poolIdentityMode same
  cases run : leaf.apply event with
  | error fault final =>
    rw [applyToCopy_of_error run]
    exact .excuse trivial _
  | ok value final =>
    obtain ⟨people, created, rfl⟩ :=
      (leaf.apply_of_full (mode ▸ full) noActivities).mp run
    rw [applyToCopy_of_ok run]
    exact .ok ⟨noAssignments, [people], .cons created .nil,
      (List.append_nil people).symm⟩

end ModelNode

/-- A branch whose children fail only at their leaves does so as well. -/
theorem BranchNodeImpl.exists_of_walk_error
    {impl : BranchNodeImpl X (ModelNode X)}
    (neutral : impl.Neutral ModelNode.updateEvent)
    (unlabeled : control.Unlabeled) (same : controlFields event = control)
    (children : ∀ child ∈ impl.childNodes, ∀ {event : X.Event},
      controlFields event = control → ∀ {fault : Fault},
        applyToCopy child.apply event = .error fault →
          ∀ {visits : List (Visit X)}, child.route event = .ok visits →
            ∃ visit ∈ visits, visit.people = .error fault)
    {fault : Fault}
    (failed : impl.walk ModelNode.updateEvent
      (fun child => applyToCopy child.apply) (List.foldl foldBack) event =
        .error fault)
    {visits : List (Visit X)}
    (routed : impl.walk ModelNode.updateEvent ModelNode.route
      (fun _ visits => visits.flatten) event = .ok visits) :
    ∃ visit ∈ visits, visit.people = .error fault := by
  have childError {event : X.Event} (same : controlFields event = control)
      {fault : Fault}
      (failed : impl.walkChild (fun child => applyToCopy child.apply) event =
        .error fault)
      {visits : List (Visit X)}
      (routed : impl.walkChild ModelNode.route event = .ok visits) :
      ∃ visit ∈ visits, visit.people = .error fault := by
    obtain ⟨child, selected, childRouted⟩ := bind_eq_ok_iff.mp routed
    unfold walkChild at failed
    rw [selected] at failed
    exact children child (mem_of_selectChild selected) same failed childRouted
  obtain ⟨dispatched, dispatchedEq, rest⟩ := bind_eq_ok_iff.mp routed
  have dispatchedAlike := dispatch_lockstep neutral unlabeled unlabeled
    ⟨rfl, same, same⟩
  rw [walk, dispatchedEq] at failed
  change impl.walkDispatched _ _ event dispatched = _ at failed
  rw [dispatchedEq] at dispatchedAlike
  cases dispatchedAlike with
  | ok values =>
    cases values with
    | onward events => exact childError events.first failed rest
    | clones each =>
      obtain ⟨lists, listsEq, flattened⟩ := bind_eq_ok_iff.mp rest
      rcases bind_eq_error_iff.mp failed with cloneFailed | ⟨_, -, impossible⟩
      · obtain ⟨clone, member, cloneError⟩ :=
          exists_of_mapM_eq_error cloneFailed
        obtain ⟨list, listMember, listEq⟩ :=
          exists_mem_of_mapM_eq_ok listsEq member
        obtain ⟨visit, visitMember, visitError⟩ := childError
          (List.forall₂_same.mp each clone member).first cloneError listEq
        rw [← Except.ok.inj flattened]
        exact ⟨visit, List.mem_flatten.mpr ⟨list, listMember, visitMember⟩,
          visitError⟩
      · contradiction

/-- Where full labeling fails although the route exists, one of its leaves has
failed. -/
theorem ModelNode.exists_of_apply_error (neutral : node.NeutralRoutes)
    (unlabeled : control.Unlabeled)
    (full : control.poolIdentityMode.getD false = false)
    (same : controlFields event = control) {fault : Fault}
    (failed : applyToCopy node.apply event = .error fault)
    {visits : List (Visit X)} (routed : node.route event = .ok visits) :
    ∃ visit ∈ visits, visit.people = .error fault := by
  induction neutral generalizing event fault visits with
  | leafNode leaf =>
    have alike : Alike control control event event := ⟨rfl, same, same⟩
    rw [apply_leafNode] at failed
    rw [route_leafNode] at routed
    refine ⟨⟨leaf, event⟩, ?_, ?_⟩
    · rw [← Except.ok.inj routed]
      exact List.mem_singleton_self _
    · have mode : event.poolIdentityMode = control.poolIdentityMode :=
        congrArg ControlFields.poolIdentityMode same
      obtain ⟨final, run⟩ := exists_of_applyToCopy_error failed
      exact LeafNode.people_of_apply_error (mode ▸ full)
        (alike.unlabeled_eq unlabeled).1 run
  | branchNode holds _ inductionHypothesis =>
    rw [applyToCopy_branchNode] at failed
    rw [route_branchNode] at routed
    exact BranchNodeImpl.exists_of_walk_error holds unlabeled same
      inductionHypothesis failed routed

/-! ## Pool identity labeling -/

/-- Clones that hold their assignments hold them together. -/
theorem HoldsAssignments.foldl {clones : List X.Event}
    {visits : List (List (Visit X))}
    (each : List.Forall₂ HoldsAssignments clones visits)
    (activities : event.virtualPersonActivities = [])
    (assignments : event.poolAssignments = []) :
    HoldsAssignments (clones.foldl BranchNodeImpl.foldBack event)
      visits.flatten := by
  rw [BranchNodeImpl.foldl_foldBack, activities, assignments]
  unfold HoldsAssignments
  simp only [List.nil_append]
  induction each with
  | nil => exact ⟨rfl, rfl⟩
  | cons head _ inductionHypothesis =>
    obtain ⟨noActivities, announced⟩ := head
    obtain ⟨noMore, moreAnnounced⟩ := inductionHypothesis
    refine ⟨?_, ?_⟩
    · rw [List.flatMap_cons, noActivities, noMore, List.append_nil]
    · rw [List.flatMap_cons, announced, moreAnnounced, List.flatten_cons,
        List.flatMap_append]

namespace ModelNode

/-- Pool identity labeling succeeds exactly when the route exists, and then its
leaves have announced their pools. -/
theorem apply_of_poolIdentity (neutral : node.NeutralRoutes)
    (unlabeled : control.Unlabeled)
    (identity : control.poolIdentityMode.getD false = true)
    (same : controlFields event = control) :
    Lockstep HoldsAssignments (applyToCopy node.apply event)
      (node.route event) := by
  refine apply_match neutral unlabeled ?_
    (fun noActivities noAssignments each =>
      HoldsAssignments.foldl each noActivities noAssignments) same
  intro leaf event same noActivities noAssignments
  have mode : event.poolIdentityMode = control.poolIdentityMode :=
    congrArg ControlFields.poolIdentityMode same
  rw [applyToCopy_of_ok (leaf.apply_of_poolIdentity (mode ▸ identity)),
    noAssignments]
  exact .ok ⟨noActivities, (List.append_nil _).symm⟩

end ModelNode

end VirtualPeople.Cc
