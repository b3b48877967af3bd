import VirtualPeople.Cc.LeafNode
import VirtualPeople.Cc.Neutral

/-!
# Routing

A branch first decides which events go to its children and then applies a child
to each of them.  `walk` is that scheme for any value at the children: with the
application of the children it is the application of the branch, and with lists
of leaves it is the route of an event, the leaves it reaches in order.
-/

namespace VirtualPeople.Cc

variable {X : Externals} {Node Node' ρ ρ' : Type}

/-! ## Walks -/

/-- The events that a branch hands to its children. -/
inductive Dispatch (X : Externals)
  | onward (event : X.Event)
  | clones (events : List X.Event)

namespace BranchNodeImpl

/-- The event with the first index, or the clones of it. -/
def dispatchMultiplicity (multiplicity : MultiplicityImpl X) (event : X.Event) :
    Result (Dispatch X) := do
  let cloneCount ← multiplicity.computeEventMultiplicity event
  if cloneCount = 1 then
    return .onward
      (X.setValueToProto .int32 event multiplicity.personIndexField 0)
  else
    return .clones ((List.range cloneCount.toInt.toNat).map
      (cloneEvent multiplicity event))

section Walk

variable
  (update : AttributesUpdaterInterface X Node → X.Event → Result X.Event)
  (visit : Node → X.Event → Result ρ) (merge : X.Event → List ρ → ρ)
  (impl : BranchNodeImpl X Node)

/-- What the node hands to its children: an updated event, or clones. -/
def dispatch (event : X.Event) : Result (Dispatch X) :=
  match impl.multiplicity with
  | some multiplicity =>
    if impl.updaters.isEmpty then dispatchMultiplicity multiplicity event
    else
      throw (internal "BranchNode cannot have both updaters and multiplicity.")
  | none => do
    let updated ← impl.updaters.foldlM
      (fun event updater => update updater event) event
    return .onward updated

/-- The child that is selected for the event is visited. -/
def walkChild (event : X.Event) : Result ρ := do
  let child ← impl.selectChild event
  visit child event

/-- The children are visited, and their values merged where there are clones. -/
def walkDispatched (event : X.Event) : Dispatch X → Result ρ
  | .onward next => impl.walkChild visit next
  | .clones clones => do
    let values ← clones.mapM (impl.walkChild visit)
    return merge event values

/-- What a branch makes of the values at its children. -/
def walk (event : X.Event) : Result ρ := do
  let dispatched ← impl.dispatch update event
  impl.walkDispatched visit merge event dispatched

end Walk

/-! ## Walks of a mapped branch -/

/-- Elements may be mapped before or after they are read. -/
theorem elementAt_map {α β : Type} (f : α → β) (elements : List α) (index : ℤ) :
    elementAt (elements.map f) index = f <$> elementAt elements index := by
  unfold elementAt
  split_ifs
  · rfl
  · rw [List.getElem?_map]
    cases elements[index.toNat]? <;> rfl

/-- The child of a mapped node is the mapped child. -/
theorem selectChild_map (f : Node → Node') (impl : BranchNodeImpl X Node)
    (event : X.Event) :
    (impl.map f).selectChild event = f <$> impl.selectChild event := by
  have indexEq : (impl.map f).selectIndex event = impl.selectIndex event := rfl
  have childNodesEq : (impl.map f).childNodes = impl.childNodes.map f := rfl
  unfold selectChild
  rw [indexEq, childNodesEq]
  cases impl.selectIndex event with
  | error fault => rfl
  | ok selectedIndex =>
    simp only [bind, Except.bind, List.length_map, elementAt_map]
    split_ifs <;> rfl

/-- Walking to a mapped child visits it mapped. -/
@[simp] theorem walkChild_map (f : Node → Node') (visit : Node' → X.Event → Result ρ)
    (impl : BranchNodeImpl X Node) (event : X.Event) :
    (impl.map f).walkChild visit event =
      impl.walkChild (fun child => visit (f child)) event := by
  unfold walkChild
  rw [selectChild_map]
  cases impl.selectChild event <;> rfl

/-- A walk of a mapped branch is a walk of the branch. -/
theorem walk_map
    (update : AttributesUpdaterInterface X Node' → X.Event → Result X.Event)
    (visit : Node' → X.Event → Result ρ) (merge : X.Event → List ρ → ρ)
    (f : Node → Node') (impl : BranchNodeImpl X Node) (event : X.Event) :
    (impl.map f).walk update visit merge event =
      impl.walk (fun updater => update (updater.map f))
        (fun child => visit (f child)) merge event := by
  have dispatchEq : (impl.map f).dispatch update event =
      impl.dispatch (fun updater => update (updater.map f)) event := by
    unfold dispatch
    simp only [BranchNodeImpl.map, List.isEmpty_map, List.foldlM_map]
  unfold walk
  rw [dispatchEq]
  congr 1
  funext dispatched
  have childEq := funext (walkChild_map f visit impl)
  cases dispatched with
  | onward next => exact walkChild_map f visit impl next
  | clones clones =>
    unfold walkDispatched
    rw [childEq]

end BranchNodeImpl

/-! ## The application of a branch as a walk -/

@[simp] theorem applyToCopy_change (update : X.Event → Result X.Event) :
    applyToCopy (.change update) = update := by
  funext event
  unfold applyToCopy Step.change
  cases update event <;> rfl

/-- Behaviours in sequence are applied one after the other. -/
theorem applyToCopy_seq (first second : Behaviour X) (event : X.Event) :
    applyToCopy (do first; second) event =
      applyToCopy first event >>= applyToCopy second := by
  unfold applyToCopy
  cases run : first event with
  | ok value middle =>
    cases value
    rw [Step.run_bind_of_ok _ run]
    rfl
  | error fault middle =>
    rw [Step.run_bind_of_error _ run]
    rfl

theorem applyToCopy_read {α : Type} (read : X.Event → Result α)
    (next : X.Event → α → Behaviour X) (event : X.Event) :
    applyToCopy (do
      let event ← get
      let value ← Step.lift (read event)
      next event value) event =
      read event >>= fun value => applyToCopy (next event value) event := by
  unfold applyToCopy
  rw [Step.run_bind_of_ok _ (Step.run_get event)]
  cases read event <;> rfl

theorem applyToCopy_lift_set {α : Type} (result : Result α)
    (next : α → X.Event) (event : X.Event) :
    applyToCopy (do
      let value ← Step.lift result
      set (next value)) event = next <$> result := by
  cases result <;> rfl

/-- Updaters are applied to a copy one after the other. -/
theorem applyToCopy_forM {α : Type} (updaters : List α) (update : α → Behaviour X)
    (event : X.Event) :
    applyToCopy (updaters.forM update) event =
      updaters.foldlM (fun event updater => applyToCopy (update updater) event)
        event := by
  induction updaters generalizing event with
  | nil => rfl
  | cons updater updaters inductionHypothesis =>
    change applyToCopy (do update updater; updaters.forM update) event = _
    rw [applyToCopy_seq, List.foldlM_cons]
    congr 1
    funext updated
    exact inductionHypothesis updated

namespace BranchNodeImpl

variable (impl : BranchNodeImpl X (Behaviour X))

/-- Applying a child walks to it. -/
theorem applyToCopy_applyChild :
    applyToCopy impl.applyChild = impl.walkChild applyToCopy := by
  funext event
  exact applyToCopy_read impl.selectChild (fun _ child => child) event

/-- Applying a multiplicity walks to its clones and folds them back. -/
theorem applyToCopy_applyMultiplicity (multiplicity : MultiplicityImpl X)
    (event : X.Event) :
    applyToCopy (impl.applyMultiplicity multiplicity) event =
      dispatchMultiplicity multiplicity event >>=
        impl.walkDispatched applyToCopy (List.foldl foldBack) event := by
  unfold applyMultiplicity dispatchMultiplicity
  rw [applyToCopy_read, bind_assoc]
  congr 1
  funext cloneCount
  split_ifs
  · rw [applyToCopy_seq, applyToCopy_applyChild]
    rfl
  · rw [applyToCopy_lift_set, applyToCopy_applyChild, map_eq_pure_bind]
    rfl

/-- Applying a branch to an event walks its children with their application. -/
theorem applyToCopy_apply (event : X.Event) :
    applyToCopy impl.apply event =
      impl.walk (fun updater => applyToCopy updater.update) applyToCopy
        (List.foldl foldBack) event := by
  unfold apply walk dispatch
  cases impl.multiplicity with
  | some multiplicity =>
    simp only
    split_ifs
    · exact applyToCopy_applyMultiplicity impl multiplicity event
    · rfl
  | none =>
    simp only
    rw [applyToCopy_seq, applyToCopy_forM, bind_assoc, applyToCopy_applyChild]
    rfl

end BranchNodeImpl

/-! ## Routes -/

/-- A leaf that is reached, and the event it is applied to. -/
structure Visit (X : Externals) where
  leaf : LeafNode
  event : X.Event

/-- A node as its behaviour and the visits an event makes below it. -/
structure RoutedNode (X : Externals) where
  behaviour : Behaviour X
  route : X.Event → Result (List (Visit X))

/-- Maps of branch nodes compose. -/
@[simp] theorem BranchNodeImpl.map_map {Node'' : Type} (g : Node' → Node'')
    (f : Node → Node') (impl : BranchNodeImpl X Node) :
    (impl.map f).map g = impl.map fun child => g (f child) := by
  have updaterEq : ∀ updater : AttributesUpdaterInterface X Node,
      (updater.map f).map g = updater.map fun child => g (f child) := by
    intro updater
    cases updater <;> rfl
  simp [BranchNodeImpl.map, Function.comp_def, updaterEq]

/-- Maps that agree below a branch node map it alike. -/
theorem BranchNodeImpl.map_congr {f g : Node → Node'}
    {impl : BranchNodeImpl X Node}
    (children : ∀ child ∈ impl.childNodes, f child = g child)
    (trees : ∀ updater ∈ impl.updaters, ∀ root ∈ updater.treeRoot,
      f root = g root) :
    impl.map f = impl.map g := by
  have updaterEq : ∀ updater ∈ impl.updaters,
      updater.map f = updater.map g := by
    intro updater member
    cases updater with
    | updateTree root =>
      exact congrArg AttributesUpdaterInterface.updateTree
        (trees _ member root rfl)
    | _ => rfl
  unfold BranchNodeImpl.map
  rw [List.map_congr_left children, List.map_congr_left updaterEq]

namespace ModelNode

/-- The tree, with the visits of leaves that an event makes. -/
def routed (node : ModelNode X) : RoutedNode X :=
  node.fold
    (fun impl => {
      behaviour := (impl.map RoutedNode.behaviour).apply
      route := impl.walk
        (fun updater => applyToCopy (updater.map RoutedNode.behaviour).update)
        RoutedNode.route (fun _ visits => visits.flatten) })
    fun leaf => {
      behaviour := leaf.apply
      route := fun event => return [⟨leaf, event⟩] }

/-- The leaves that an event reaches below a node, in order. -/
def route (node : ModelNode X) : X.Event → Result (List (Visit X)) :=
  node.routed.route

/-- The routed tree behaves as the tree does. -/
@[simp] theorem behaviour_routed (node : ModelNode X) :
    node.routed.behaviour = node.apply := by
  induction node using ModelNode.induction with
  | leaf leaf => rw [routed, fold_leafNode, apply_leafNode]
  | branch impl children trees =>
    rw [routed, fold_branchNode, apply_branchNode]
    change ((impl.map routed).map RoutedNode.behaviour).apply = _
    rw [BranchNodeImpl.map_map, BranchNodeImpl.map_congr children trees]

/-- What an updater of a built branch makes of an event. -/
def updateEvent (updater : AttributesUpdaterInterface X (ModelNode X)) :
    X.Event → Result X.Event :=
  applyToCopy (updater.map apply).update

@[simp] theorem route_leafNode (leaf : LeafNode) (event : X.Event) :
    route (.leafNode leaf) event = .ok [⟨leaf, event⟩] := by
  rw [route, routed, fold_leafNode]
  rfl

/-- The route of a branch node is that of the children it walks to. -/
theorem route_branchNode (impl : BranchNodeImpl X (ModelNode X))
    (event : X.Event) :
    route (.branchNode impl) event =
      impl.walk updateEvent route (fun _ visits => visits.flatten) event := by
  rw [route, routed, fold_branchNode]
  change (impl.map routed).walk _ _ _ event = _
  have updaterEq (updater : AttributesUpdaterInterface X (ModelNode X)) :
      (updater.map routed).map RoutedNode.behaviour = updater.map apply := by
    cases updater with
    | updateTree root =>
      exact congrArg AttributesUpdaterInterface.updateTree
        (behaviour_routed root)
    | _ => rfl
  rw [BranchNodeImpl.walk_map]
  simp only [updaterEq]
  rfl

/-- A branch node is applied by walking to its children. -/
theorem applyToCopy_branchNode (impl : BranchNodeImpl X (ModelNode X))
    (event : X.Event) :
    applyToCopy (apply (.branchNode impl)) event =
      impl.walk updateEvent (fun child => applyToCopy child.apply)
        (List.foldl BranchNodeImpl.foldBack) event := by
  rw [apply_branchNode, BranchNodeImpl.applyToCopy_apply,
    BranchNodeImpl.walk_map]
  rfl

end ModelNode

/-! ## Two walks side by side -/

/-- Two dispatches hand on related events. -/
inductive Dispatch.Related (related : X.Event → X.Event → Prop) :
    Dispatch X → Dispatch X → Prop
  | onward {event event' : X.Event} (events : related event event') :
      Related related (.onward event) (.onward event')
  | clones {events events' : List X.Event}
      (each : List.Forall₂ related events events') :
      Related related (.clones events) (.clones events')

namespace BranchNodeImpl

/-- The branch itself neither reads nor writes the control fields. -/
structure Neutral
    (update : AttributesUpdaterInterface X Node → X.Event → Result X.Event)
    (impl : BranchNodeImpl X Node) : Prop where
  conditions : ∀ matcher ∈ impl.matcher, matcher.Neutral
  updaters : ∀ updater ∈ impl.updaters, NeutralUpdate (update updater)
  multiplicity : ∀ multiplicity ∈ impl.multiplicity, multiplicity.Neutral

theorem mem_of_elementAt {α : Type} {elements : List α} {index : ℤ}
    {element : α} (found : elementAt elements index = .ok element) :
    element ∈ elements := by
  unfold elementAt at found
  split_ifs at found
  split at found
  · rename_i other otherEq
    rw [← Except.ok.inj found]
    exact List.mem_of_getElem? otherEq
  · contradiction

/-- The selected child is one of the children. -/
theorem mem_of_selectChild {impl : BranchNodeImpl X Node} {event : X.Event}
    {child : Node} (selected : impl.selectChild event = .ok child) :
    child ∈ impl.childNodes := by
  obtain ⟨selectedIndex, -, found⟩ := bind_eq_ok_iff.mp selected
  split_ifs at found
  exact mem_of_elementAt found

section Walks

variable
  {update : AttributesUpdaterInterface X Node → X.Event → Result X.Event}
  {impl : BranchNodeImpl X Node} {control control' : ControlFields X}
  {event event' : X.Event}

/-- Events that are alike are cloned alike. -/
theorem dispatchMultiplicity_lockstep {multiplicity : MultiplicityImpl X}
    (neutral : multiplicity.Neutral)
    (alike : Alike control control' event event') :
    Lockstep (Dispatch.Related (Alike control control'))
      (dispatchMultiplicity multiplicity event)
      (dispatchMultiplicity multiplicity event') := by
  unfold dispatchMultiplicity
  rw [← neutral.computeEventMultiplicity.eq alike]
  refine .bind_eq (.refl _) fun cloneCount => ?_
  split_ifs
  · exact .ok (.onward ((neutral.personIndex 0).alike alike))
  · refine .ok (.clones ?_)
    rw [List.forall₂_map_left_iff, List.forall₂_map_right_iff,
      List.forall₂_same]
    exact fun personIndex _ => (neutral.cloneEvent personIndex).alike alike

/-- Events that are alike are handed on alike. -/
theorem dispatch_lockstep (neutral : impl.Neutral update)
    (unlabeled : control.Unlabeled) (unlabeled' : control'.Unlabeled)
    (alike : Alike control control' event event') :
    Lockstep (Dispatch.Related (Alike control control'))
      (impl.dispatch update event) (impl.dispatch update event') := by
  unfold dispatch
  split
  · rename_i multiplicity multiplicityEq
    split_ifs
    · exact dispatchMultiplicity_lockstep
        (neutral.multiplicity multiplicity multiplicityEq) alike
    · exact .errors _ _
  · refine .bind (.foldlM (List.forall₂_same.mpr ?_) alike)
      fun _ _ updated => .ok (.onward updated)
    exact fun updater member => neutral.updaters updater member control control'
      unlabeled unlabeled'

/-- Walks of alike events match when they match at the children and merge
matching values to matching values. -/
theorem walk_match {excused : Fault → Prop} {related : ρ → ρ' → Prop}
    {visit : Node → X.Event → Result ρ} {visit' : Node → X.Event → Result ρ'}
    {merge : X.Event → List ρ → ρ} {merge' : X.Event → List ρ' → ρ'}
    (neutral : impl.Neutral update) (unlabeled : control.Unlabeled)
    (unlabeled' : control'.Unlabeled)
    (visits : ∀ child ∈ impl.childNodes, ∀ event event',
      Alike control control' event event' →
        Match excused related (visit child event) (visit' child event'))
    (merges : ∀ values values', List.Forall₂ related values values' →
      related (merge event values) (merge' event' values'))
    (alike : Alike control control' event event') :
    Match excused related (impl.walk update visit merge event)
      (impl.walk update visit' merge' event') := by
  have childMatch (event event' : X.Event)
      (alike : Alike control control' event event') :
      Match excused related (impl.walkChild visit event)
        (impl.walkChild visit' event') := by
    unfold walkChild
    rw [← (neutralRead_selectChild neutral.conditions).eq alike]
    cases selected : impl.selectChild event with
    | error fault => exact .errors _ _
    | ok child =>
      exact visits child (mem_of_selectChild selected) event event' alike
  unfold walk
  refine .bind (Match.excusing
    (dispatch_lockstep neutral unlabeled unlabeled' alike)) ?_
  intro dispatched dispatched' same
  cases same with
  | onward events => exact childMatch _ _ events
  | clones each =>
    exact .bind (.mapM (each.imp childMatch)) fun values values' both =>
      .ok (merges values values' both)

end Walks

end BranchNodeImpl

end VirtualPeople.Cc
