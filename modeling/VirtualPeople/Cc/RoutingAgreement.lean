import VirtualPeople.Cc.Labeler
import VirtualPeople.Cc.RoutingRuns

/-!
# Agreement of the two passes

The first pass labels an input in pool identity mode, and the second one labels
the same input with rank assignments in full mode.  In a neutral tree both take
the same route, so that the pools the first pass announces are, in order, those
of the ranked leaves that create people in the second one.
-/

namespace VirtualPeople.Cc

variable {X : Externals}

/-! ## Neutral trees -/

/-- The conditions, updaters and multiplicities of the tree are neutral, its
leaves are allowed ones, and its update trees end only in stop nodes. -/
inductive ModelNode.Neutral : (LeafNode → Prop) → ModelNode X → Prop
  | leafNode {allowed : LeafNode → Prop} {leaf : LeafNode}
      (isAllowed : allowed leaf) : Neutral allowed (.leafNode leaf)
  | branchNode {allowed : LeafNode → Prop}
      {impl : BranchNodeImpl X (ModelNode X)}
      (conditions : ∀ matcher ∈ impl.matcher, matcher.Neutral)
      (multiplicity : ∀ multiplicity ∈ impl.multiplicity, multiplicity.Neutral)
      (updaters : ∀ updater ∈ impl.updaters, updater.treeRoot = none →
        NeutralUpdate (updateEvent updater))
      (trees : ∀ updater ∈ impl.updaters, ∀ root ∈ updater.treeRoot,
        Neutral (· = .stopNode) root)
      (children : ∀ child ∈ impl.childNodes, Neutral allowed child) :
      Neutral allowed (.branchNode impl)

/-- A clone that no leaf has touched adds nothing to the event. -/
theorem BranchNodeImpl.foldBack_unlabeled {control : ControlFields X}
    (unlabeled : control.Unlabeled) (event : X.Event) {clone : X.Event}
    (same : controlFields clone = control) : foldBack event clone = event := by
  have activities : clone.virtualPersonActivities = [] :=
    (congrArg ControlFields.virtualPersonActivities same).trans
      unlabeled.activities
  have assignments : clone.poolAssignments = [] :=
    (congrArg ControlFields.poolAssignments same).trans unlabeled.assignments
  rw [foldBack, activities, assignments, List.append_nil, List.append_nil]

/-- Folding back clones that are alike leaves events alike. -/
theorem Alike.foldl_foldBack {control control' : ControlFields X}
    (unlabeled : control.Unlabeled) (unlabeled' : control'.Unlabeled)
    {event event' : X.Event} (alike : Alike control control' event event')
    {clones clones' : List X.Event}
    (each : List.Forall₂ (Alike control control') clones clones') :
    Alike control control' (clones.foldl BranchNodeImpl.foldBack event)
      (clones'.foldl BranchNodeImpl.foldBack event') := by
  induction each with
  | nil => exact alike
  | cons head _ inductionHypothesis =>
    rwa [List.foldl_cons, List.foldl_cons,
      BranchNodeImpl.foldBack_unlabeled unlabeled event head.first,
      BranchNodeImpl.foldBack_unlabeled unlabeled' event' head.second]

namespace ModelNode

/-- An updater of a branch is neutral when the update trees are. -/
theorem neutralUpdate_updateEvent
    {impl : BranchNodeImpl X (ModelNode X)}
    (updaters : ∀ updater ∈ impl.updaters, updater.treeRoot = none →
      NeutralUpdate (updateEvent updater))
    (trees : ∀ updater ∈ impl.updaters, ∀ root ∈ updater.treeRoot,
      NeutralUpdate (applyToCopy root.apply)) :
    ∀ updater ∈ impl.updaters, NeutralUpdate (updateEvent updater) := by
  intro updater member
  cases updater with
  | updateTree root => exact trees _ member root rfl
  | _ => exact updaters _ member rfl

/-- A neutral tree that ends only in stop nodes is a neutral update. -/
theorem Neutral.neutralUpdate {allowed : LeafNode → Prop} {node : ModelNode X}
    (neutral : node.Neutral allowed)
    (stops : ∀ leaf, allowed leaf → leaf = .stopNode) :
    NeutralUpdate (applyToCopy node.apply) := by
  induction neutral with
  | leafNode isAllowed =>
    intro control control' _ _ event event' alike
    rw [stops _ isAllowed, apply_leafNode]
    exact .ok alike
  | branchNode conditions multiplicity updaters trees children treesHypothesis
      childrenHypothesis =>
    intro control control' unlabeled unlabeled' event event' alike
    rw [applyToCopy_branchNode, applyToCopy_branchNode]
    exact BranchNodeImpl.walk_match
      ⟨conditions, neutralUpdate_updateEvent updaters fun updater member root tree =>
        treesHypothesis updater member root tree fun _ stop => stop,
        multiplicity⟩
      unlabeled unlabeled'
      (fun child member => childrenHypothesis child member stops control control'
        unlabeled unlabeled')
      (fun _ _ => alike.foldl_foldBack unlabeled unlabeled') alike

/-- A neutral tree has neutral routes. -/
theorem Neutral.neutralRoutes {allowed : LeafNode → Prop} {node : ModelNode X}
    (neutral : node.Neutral allowed) : node.NeutralRoutes := by
  induction neutral with
  | leafNode isAllowed => exact .leafNode _
  | branchNode conditions multiplicity updaters trees _ _ childrenHypothesis =>
    exact .branchNode
      ⟨conditions, neutralUpdate_updateEvent updaters fun updater member root tree =>
        (trees updater member root tree).neutralUpdate fun _ stop => stop,
        multiplicity⟩ childrenHypothesis

end ModelNode

/-! ## The error for a missing rank -/

section NoneMatch

open RankedPopulationNodeImpl

/-- The fault is not the one for rank assignments without the pool. -/
def Harmless (fault : Fault) : Prop :=
  ∀ poolOffset, fault ≠ noneMatch poolOffset

theorem harmless_invalidArgument {message : String}
    (differs : message.toList.head? ≠ some 'R') :
    Harmless (invalidArgument message) := by
  intro poolOffset same
  have messageEq : message = "RankAssignment provided but none match " ++
      "pool_offset=" ++ toString poolOffset ++ "." := by
    simpa [noneMatch, invalidArgument] using same
  apply differs
  rw [messageEq, String.toList_append, String.toList_append]
  rfl

theorem harmless_outOfBounds : Harmless .outOfBounds := by
  intro poolOffset same
  contradiction

theorem harmless_divergence : Harmless .divergence := by
  intro poolOffset same
  contradiction

theorem faultsIn_elementAt {α : Type} (elements : List α) (index : ℤ) :
    FaultsIn Harmless (elementAt elements index) := by
  unfold elementAt
  split_ifs
  · exact .error harmless_outOfBounds
  · split
    · exact .ok _
    · exact .error harmless_outOfBounds

theorem faultsIn_build (distribution : List DistributionChoice) :
    FaultsIn Harmless (DistributedConsistentHashing.build distribution) := by
  unfold DistributedConsistentHashing.build
  split_ifs
  · exact .error (harmless_invalidArgument (by decide))
  · refine .bind (.foldlM (fun sum choice => ?_) _ _) fun sum => ?_
    · split_ifs
      · exact .error (harmless_invalidArgument (by decide))
      · exact .ok _
    · split_ifs
      · exact .error (harmless_invalidArgument (by decide))
      · exact .ok _

theorem faultsIn_writtenLabel (event : X.Event) (virtualPersonId : UInt64) :
    FaultsIn Harmless (writtenLabel X event virtualPersonId) := by
  refine .bind (.foldlM (fun label quantumLabel => ?_) _ _) fun _ => .ok _
  rw [map_eq_pure_bind]
  refine .bind ?_ fun _ => .ok _
  unfold collapseQuantumLabel
  split_ifs
  · exact .error (harmless_invalidArgument (by decide))
  · exact .error (harmless_invalidArgument (by decide))
  · exact .bind (faultsIn_build _) fun _ =>
      .bind (faultsIn_elementAt _ _) fun _ => .ok _

/-- A ranked leaf that finds a rank for its pool has other faults only. -/
theorem RankedPopulationNodeImpl.faultsIn_virtualPersonId
    {node : RankedPopulationNodeImpl} {event : X.Event} {rank : RankAssignment}
    (lookup : node.lookupRank event = some rank) :
    FaultsIn Harmless (node.virtualPersonId event) := by
  unfold virtualPersonId
  simp only [lookup]
  split_ifs
  · refine .bind ?_ fun _ => .ok _
    unfold feistelPermute
    split_ifs
    · exact .ok _
    · split
      · exact .ok _
      · exact .error harmless_divergence
  · unfold unrankedId
    simp only
    split
    · split_ifs
      · exact .error (harmless_invalidArgument (by decide))
      · exact .ok _
    · exact .ok _
    · exact .error (harmless_invalidArgument (by decide))

/-- Only a ranked leaf without a rank can have the fault. -/
theorem LeafNode.faultsIn_people {leaf : LeafNode} {event : X.Event}
    (ranks : ∀ node, leaf = .rankedPopulationNode node →
      ∃ rank, node.lookupRank event = some rank) :
    FaultsIn Harmless (leaf.people event) := by
  have created {found : Result UInt64} (foundFaults : FaultsIn Harmless found) :
      FaultsIn Harmless (createdPerson event found) :=
    .bind foundFaults fun _ => .bind (faultsIn_writtenLabel _ _) fun _ => .ok _
  cases leaf with
  | stopNode => exact .ok _
  | populationNode node =>
    exact created (.bind (faultsIn_elementAt _ _) fun _ => .ok _)
  | rankedPopulationNode node =>
    obtain ⟨rank, lookup⟩ := ranks node rfl
    exact created (RankedPopulationNodeImpl.faultsIn_virtualPersonId lookup)

end NoneMatch

/-! ## Labeling along a route -/

/-- The control fields of the event that an input is copied into. -/
def startControl (X : Externals) (rankAssignments : List RankAssignment)
    (mode : LabelingMode) : ControlFields X where
  poolIdentityMode :=
    match mode with
    | .full => none
    | .poolIdentity => some true
  rankAssignments := rankAssignments
  virtualPersonActivities := []
  poolAssignments := []

/-- Before labeling, nothing has been added. -/
theorem startControl_unlabeled (rankAssignments : List RankAssignment)
    (mode : LabelingMode) : (startControl X rankAssignments mode).Unlabeled :=
  ⟨rfl, rfl⟩

/-- The input with these rank assignments. -/
def withRanks (input : X.Input) (rankAssignments : List RankAssignment) :
    X.Input :=
  { input with rankAssignments := rankAssignments }

namespace Labeler

/-- Inputs that differ in their ranks are prepared alike, in any modes. -/
theorem alike_prepareEvent (input : X.Input)
    (rankAssignments : List RankAssignment) (mode mode' : LabelingMode) :
    Alike (startControl X input.rankAssignments mode)
      (startControl X rankAssignments mode') (prepareEvent input mode)
      (prepareEvent (withRanks input rankAssignments) mode') := by
  cases mode <;> cases mode' <;> exact ⟨rfl, rfl, rfl⟩

/-- The leaves that labeling an input reaches. -/
def route (labeler : Labeler X) (input : X.Input) (mode : LabelingMode) :
    Result (List (Visit X)) :=
  labeler.root.route (prepareEvent input mode)

/-- The output of a labeling is read off the final event. -/
theorem label_eq_ok_iff {labeler : Labeler X} {input : X.Input}
    {mode : LabelingMode} {output : LabelerOutput X} :
    labeler.label input mode = .ok output ↔ ∃ event,
      applyToCopy labeler.root.apply (prepareEvent input mode) = .ok event ∧
        output = {
          people := event.virtualPersonActivities
          poolAssignments := event.poolAssignments
          serializedDebugTrace := if input.enableDebugTrace then
            some (X.printToString event) else none } := by
  unfold label
  rw [bind_eq_ok_iff]
  exact exists_congr fun event => and_congr_right fun _ =>
    ⟨fun same => (Except.ok.inj same).symm, fun same => congrArg _ same.symm⟩

variable {labeler : Labeler X} {input : X.Input}

/-- The leaves on the route created the people of a full labeling. -/
theorem label_full (neutral : labeler.root.NeutralRoutes)
    {output : LabelerOutput X} (labeled : labeler.label input .full = .ok output) :
    ∃ visits people, labeler.route input .full = .ok visits ∧
      List.Forall₂ (fun visit people => Visit.people visit = .ok people) visits
        people ∧
      output.people = people.flatten := by
  obtain ⟨event, applied, rfl⟩ := label_eq_ok_iff.mp labeled
  have run := ModelNode.apply_of_full neutral
    (startControl_unlabeled input.rankAssignments .full) rfl
    (alike_prepareEvent input input.rankAssignments .full .full).first
  obtain ⟨visits, routed, -, people, created, activitiesEq⟩ :=
    run.ok_of_ok applied
  exact ⟨visits, people, routed, created, activitiesEq⟩

/-- Full labeling succeeds when the leaves on the route create their people. -/
theorem label_of_created (neutral : labeler.root.NeutralRoutes)
    {visits : List (Visit X)} (routed : labeler.route input .full = .ok visits)
    {people : List (List X.Activity)}
    (created : List.Forall₂
      (fun visit people => Visit.people visit = .ok people) visits people) :
    ∃ output, labeler.label input .full = .ok output := by
  cases labeled : labeler.label input .full with
  | ok output => exact ⟨output, rfl⟩
  | error fault =>
    rcases bind_eq_error_iff.mp labeled with applyFailed | ⟨_, -, impossible⟩
    · obtain ⟨visit, member, visitFailed⟩ := ModelNode.exists_of_apply_error
        neutral (startControl_unlabeled input.rankAssignments .full) rfl
        (alike_prepareEvent input input.rankAssignments .full .full).first
        applyFailed routed
      obtain ⟨created, -, createdEq⟩ := exists_mem_of_forall₂ created member
      rw [visitFailed] at createdEq
      contradiction
    · contradiction

/-- Pool identity labeling announces the pools of the leaves on the route. -/
theorem label_poolIdentity (neutral : labeler.root.NeutralRoutes) :
    Lockstep
      (fun output visits => output.people = [] ∧ output.poolAssignments =
        visits.flatMap fun visit => visit.leaf.announced)
      (labeler.label input .poolIdentity)
      (labeler.route input .poolIdentity) := by
  have run := ModelNode.apply_of_poolIdentity neutral
    (startControl_unlabeled input.rankAssignments .poolIdentity) rfl
    (alike_prepareEvent input input.rankAssignments .poolIdentity
      .poolIdentity).first
  unfold label route
  rw [← bind_pure (labeler.root.route _)]
  exact .bind run fun _ _ holds => .ok holds

/-- The two passes take the same route. -/
theorem route_lockstep (neutral : labeler.root.NeutralRoutes) (input : X.Input)
    (rankAssignments : List RankAssignment) :
    Lockstep (List.Forall₂ (SameVisit
        (startControl X input.rankAssignments .poolIdentity)
        (startControl X rankAssignments .full)))
      (labeler.route input .poolIdentity)
      (labeler.route (withRanks input rankAssignments) .full) :=
  ModelNode.route_lockstep neutral (startControl_unlabeled _ _)
    (startControl_unlabeled _ _) (alike_prepareEvent input rankAssignments _ _)

/-- An event is visited with the control fields it started with. -/
theorem controlFields_of_route (neutral : labeler.root.NeutralRoutes)
    {rankAssignments : List RankAssignment} {mode : LabelingMode}
    {visits : List (Visit X)}
    (routed : labeler.route (withRanks input rankAssignments) mode = .ok visits)
    {visit : Visit X} (member : visit ∈ visits) :
    controlFields visit.event = startControl X rankAssignments mode :=
  ModelNode.controlFields_of_route neutral (startControl_unlabeled _ _)
    (alike_prepareEvent input rankAssignments mode mode).second routed member

end Labeler

/-! ## The contract of the two passes -/

/-- The people of the ranked leaves, each with its leaf, given the people of
each visited leaf. -/
def rankedPeople (visits : List (Visit X)) (people : List (List X.Activity)) :
    List (RankedPopulationNodeImpl × X.Activity) :=
  (visits.zip people).flatMap fun (visit, created) =>
    match visit.leaf with
    | .rankedPopulationNode node => created.map (node, ·)
    | _ => []

/-- The assignment announces the pool of the leaf, and the id of the person lies
in it, modulo 2^64. -/
def AnnouncesPerson (assignment : PoolAssignment)
    (entry : RankedPopulationNodeImpl × X.Activity) : Prop :=
  assignment = entry.1.poolAssignment ∧
    ∃ vid, entry.2.virtualPersonId = some vid ∧
      vid - assignment.poolOffset < assignment.poolSize

/-- A ranked leaf announces the pool of the person it creates. -/
theorem RankedPopulationNodeImpl.announcesPerson
    {node : RankedPopulationNodeImpl} {event : X.Event} {vid : UInt64}
    {label : Option X.Label} (found : node.virtualPersonId event = .ok vid) :
    AnnouncesPerson (X := X) node.poolAssignment
      (node, ⟨some vid, label⟩) := by
  have rankedSizeLe := UInt64.le_iff_toNat_le.mpr node.rankedSizeLe
  have below := virtualPersonId_sub_lt found
  refine ⟨rfl, vid, rfl, ?_⟩
  split at below
  · exact below
  · exact below
  · exact UInt64.lt_of_lt_of_le below rankedSizeLe

/-- Visits that are the same announce the same pools. -/
theorem announced_eq {control control' : ControlFields X}
    {visits visits' : List (Visit X)}
    (same : List.Forall₂ (SameVisit control control') visits visits') :
    (visits.flatMap fun visit => visit.leaf.announced) =
      visits'.flatMap fun visit => visit.leaf.announced := by
  induction same with
  | nil => rfl
  | cons head _ inductionHypothesis =>
    rw [List.flatMap_cons, List.flatMap_cons, head.leaf, inductionHypothesis]

/-- The leaves of a route announce their people. -/
theorem announced_people {visits : List (Visit X)}
    {people : List (List X.Activity)}
    (created : List.Forall₂
      (fun visit people => Visit.people visit = .ok people) visits people) :
    List.Forall₂ AnnouncesPerson (visits.flatMap fun visit => visit.leaf.announced)
      (rankedPeople visits people) := by
  induction created with
  | nil => exact .nil
  | @cons visit people visits peoples head _ inductionHypothesis =>
    obtain ⟨leaf, event⟩ := visit
    rw [List.flatMap_cons]
    cases leaf with
    | stopNode => exact inductionHypothesis
    | populationNode node => exact inductionHypothesis
    | rankedPopulationNode node =>
      obtain ⟨vid, label, found, -, rfl⟩ := createdPerson_ok_iff.mp head
      exact .cons (RankedPopulationNodeImpl.announcesPerson found)
        inductionHypothesis

namespace Labeler

/-- The pools of the first pass are those of the ranked people of the second
pass. -/
theorem label_announces {labeler : Labeler X} {input : X.Input}
    (neutral : labeler.root.NeutralRoutes) {identity : LabelerOutput X}
    (labeled : labeler.label input .poolIdentity = .ok identity)
    {rankAssignments : List RankAssignment} {visits : List (Visit X)}
    (routed : labeler.route (withRanks input rankAssignments) .full = .ok visits)
    {people : List (List X.Activity)}
    (created : List.Forall₂
      (fun visit people => Visit.people visit = .ok people) visits people) :
    List.Forall₂ AnnouncesPerson identity.poolAssignments
      (rankedPeople visits people) := by
  obtain ⟨visits', routed', -, announced⟩ :=
    (label_poolIdentity neutral).ok_of_ok labeled
  obtain ⟨_, same, sameVisits⟩ :=
    (route_lockstep neutral input rankAssignments).ok_of_ok routed'
  obtain rfl := Except.ok.inj (same.symm.trans routed)
  rw [announced, announced_eq sameVisits]
  exact announced_people created

/-- A ranked leaf of the second pass finds a rank when there is one for each
announced pool. -/
theorem exists_lookupRank {labeler : Labeler X} {input : X.Input}
    (neutral : labeler.root.NeutralRoutes)
    {rankAssignments : List RankAssignment} {visits : List (Visit X)}
    (routed : labeler.route (withRanks input rankAssignments) .full = .ok visits)
    (covered : ∀ assignment ∈ visits.flatMap fun visit => visit.leaf.announced,
      ∃ rank ∈ rankAssignments, rank.poolOffset = assignment.poolOffset)
    {visit : Visit X} (member : visit ∈ visits)
    {node : RankedPopulationNodeImpl}
    (ranked : visit.leaf = .rankedPopulationNode node) :
    ∃ rank, node.lookupRank visit.event = some rank := by
  have ranksEq :
      RankedPopulationNodeImpl.rankAssignments visit.event = rankAssignments :=
    congrArg ControlFields.rankAssignments
      (controlFields_of_route neutral routed member)
  have announced : node.poolAssignment ∈
      visits.flatMap fun visit => visit.leaf.announced := by
    refine List.mem_flatMap.mpr ⟨visit, member, ?_⟩
    rw [ranked]
    exact List.mem_singleton_self _
  obtain ⟨rank, rankMember, offsetEq⟩ := covered _ announced
  refine Option.isSome_iff_exists.mp (List.find?_isSome.mpr ⟨rank, ?_, ?_⟩)
  · rwa [ranksEq]
  · exact beq_iff_eq.mpr offsetEq

/-- Where full labeling creates people, pool identity labeling announces, in
order, the pools of those from ranked leaves; and rank assignments for all
announced pools are enough for the ranked leaves. -/
theorem routing_agrees (labeler : Labeler X)
    (neutral : labeler.root.Neutral fun _ => True) (input : X.Input)
    (rankAssignments : List RankAssignment) :
    (∀ full, labeler.label (withRanks input rankAssignments) .full = .ok full →
      ∃ identity visits people,
        labeler.label input .poolIdentity = .ok identity ∧
        identity.people = [] ∧
        labeler.route (withRanks input rankAssignments) .full = .ok visits ∧
        List.Forall₂ (fun visit people => Visit.people visit = .ok people)
          visits people ∧
        full.people = people.flatten ∧
        List.Forall₂ AnnouncesPerson identity.poolAssignments
          (rankedPeople visits people)) ∧
    (∀ identity, labeler.label input .poolIdentity = .ok identity →
      (∀ assignment ∈ identity.poolAssignments,
        ∃ rank ∈ rankAssignments, rank.poolOffset = assignment.poolOffset) →
      ∀ poolOffset, labeler.label (withRanks input rankAssignments) .full ≠
        .error (RankedPopulationNodeImpl.noneMatch poolOffset)) := by
  have routes := neutral.neutralRoutes
  have lockstep := route_lockstep routes input rankAssignments
  constructor
  · intro full labeled
    obtain ⟨visits, people, routed, created, peopleEq⟩ :=
      label_full routes labeled
    obtain ⟨visits', routed', -⟩ := lockstep.symm.ok_of_ok routed
    obtain ⟨identity, identityEq, noPeople, -⟩ :=
      (label_poolIdentity routes).symm.ok_of_ok routed'
    exact ⟨identity, visits, people, identityEq, noPeople, routed, created,
      peopleEq, label_announces routes identityEq routed created⟩
  · intro identity labeled covered poolOffset failed
    obtain ⟨visits, routed, -, announced⟩ :=
      (label_poolIdentity routes).ok_of_ok labeled
    obtain ⟨visits', routed', same⟩ := lockstep.ok_of_ok routed
    rcases bind_eq_error_iff.mp failed with applyFailed | ⟨_, -, impossible⟩
    · obtain ⟨visit, member, visitFailed⟩ := ModelNode.exists_of_apply_error
        routes (startControl_unlabeled rankAssignments .full) rfl rfl applyFailed
        routed'
      rw [announced, announced_eq same] at covered
      exact LeafNode.faultsIn_people
        (fun node ranked =>
          exists_lookupRank routes routed' covered member ranked) _
        visitFailed poolOffset rfl
    · contradiction

/-- The contract for two clones, each of which goes to a leaf of its own; without
a rank for the second pool full labeling fails. -/
theorem routing_agrees_twoClones :
    let first : RankedPopulationNodeImpl :=
      ⟨"first", 2, .disjoint, 7, 4, by decide, by decide, by decide⟩
    let other : RankedPopulationNodeImpl :=
      ⟨"other", 5, .disjoint, 100, 10, by decide, by decide, by decide⟩
    let labeler : Labeler .flagged := ⟨.branchNode
      ⟨[.leafNode (.rankedPopulationNode first),
          .leafNode (.rankedPopulationNode other)], none, "leaves",
        some ⟨[some false, none]⟩, [],
        some ⟨.explicitValue 2.0, true, 2.0, (), "clones", rfl⟩⟩⟩
    let input := Externals.flagged.emptyInput
    (∃ identity, labeler.label input .poolIdentity = .ok identity ∧
      identity.people = [] ∧
      List.Forall₂ (AnnouncesPerson (X := .flagged)) identity.poolAssignments
        [(first, ⟨some 7, none⟩), (other, ⟨some 102, none⟩)]) ∧
    (∀ poolOffset,
      labeler.label (withRanks input [⟨7, 1⟩, ⟨100, 2⟩]) .full ≠
        .error (RankedPopulationNodeImpl.noneMatch poolOffset)) ∧
    labeler.label (withRanks input [⟨7, 1⟩]) .full =
      .error (RankedPopulationNodeImpl.noneMatch 100) := by
  intro first other labeler input
  have neutral : labeler.root.Neutral fun _ => True := by
    refine .branchNode ?_ (fun multiplicity _ =>
      neutralNumberFields_flagged.multiplicity multiplicity) ?_ ?_ ?_
    · rintro matcher ⟨⟩ filter _ event
      rfl
    · rintro updater ⟨⟩
    · rintro updater ⟨⟩
    · intro child member
      rcases List.mem_pair.mp member with rfl | rfl <;> exact .leafNode trivial
  have full : labeler.label (withRanks input [⟨7, 1⟩, ⟨100, 2⟩]) .full =
      .ok ⟨[⟨some 7, none⟩, ⟨some 102, none⟩], [], none⟩ := by decide +kernel
  obtain ⟨agrees, covered⟩ :=
    routing_agrees labeler neutral input [⟨7, 1⟩, ⟨100, 2⟩]
  obtain ⟨identity, visits, people, identityEq, noPeople, routed, created,
    peopleEq, announces⟩ := agrees _ full
  have announced : labeler.label input .poolIdentity =
      .ok ⟨[], [⟨7, 4, 2⟩, ⟨100, 10, 5⟩], none⟩ := by decide +kernel
  obtain rfl := Except.ok.inj (announced.symm.trans identityEq)
  refine ⟨⟨_, announced, noPeople, ?_⟩,
    covered _ announced (by decide), by decide +kernel⟩
  obtain ⟨firstEvent, otherEvent, route, firstPerson, otherPerson⟩ :
      ∃ firstEvent otherEvent,
        labeler.route (withRanks input [⟨7, 1⟩, ⟨100, 2⟩]) .full =
          .ok [⟨.rankedPopulationNode first, firstEvent⟩,
            ⟨.rankedPopulationNode other, otherEvent⟩] ∧
        Visit.people ⟨.rankedPopulationNode first, firstEvent⟩ =
          .ok [⟨some 7, none⟩] ∧
        Visit.people ⟨.rankedPopulationNode other, otherEvent⟩ =
          .ok [⟨some 102, none⟩] :=
    ⟨_, _, rfl, by decide +kernel, by decide +kernel⟩
  obtain rfl := Except.ok.inj (route.symm.trans routed)
  have peopleAre := (mapM_eq_ok_iff.mpr created).symm.trans
    (mapM_eq_ok_iff.mpr (.cons firstPerson (.cons otherPerson .nil)))
  rw [Except.ok.inj peopleAre] at announces
  exact announces

end Labeler

end VirtualPeople.Cc
