import VirtualPeople.Cc.ModelBuilder

/-!
# The labeler

A labeler is built from a root node with all the other nodes inline, or from a
list of nodes that refer to earlier ones by index.  To label an input it copies
the input into an event, adds fingerprints, and applies the root.
-/

namespace VirtualPeople

/-- Whether people are assigned, or only the pools to rank them in are
announced. -/
inductive LabelingMode
  | full
  | poolIdentity
  deriving DecidableEq, Repr

/-- The people and pools that the leaves added to the event. -/
structure LabelerOutput (X : Externals) where
  people : List X.Activity
  poolAssignments : List PoolAssignment
  serializedDebugTrace : Option String

instance {X : Externals} [DecidableEq X.Label] : DecidableEq (LabelerOutput X) :=
  fun output output' => decidable_of_iff
    (output.people = output'.people ∧
      output.poolAssignments = output'.poolAssignments ∧
      output.serializedDebugTrace = output'.serializedDebugTrace)
    (by cases output; cases output'; simp)

namespace Cc

/-- A built model. -/
structure Labeler (X : Externals) where
  root : ModelNode X

namespace Labeler

variable {X : Externals}

/-! ## Building -/

/-- `Labeler::Build` of a root, without nodes to refer to. -/
def build (root : CompiledNode X) : Result (Labeler X) := do
  let root ← (ModelNode.build root).alone
  return ⟨root⟩

/-- One round of the loop over the nodes: it returns the root, once found. -/
def addNode (root : Option (ModelNode X)) (nodeConfig : CompiledNode X) :
    Step (NodeRefs X) (Option (ModelNode X)) :=
  match root, nodeConfig.index with
  | some _, _ =>
    throw (invalidArgument "No node is allowed after the root node.")
  | none, some index => do
    let node ← ModelNode.build nodeConfig
    let nodeRefs ← get
    if index ∈ nodeRefs then
      throw (invalidArgument ("Duplicated indexes: " ++ toString index))
    else
      set (nodeRefs.insert index node)
      return none
  | none, none => do
    let node ← ModelNode.build nodeConfig
    return some node

/-- The root, which may be a node that is left over with its index. -/
def takeRoot (root : Option (ModelNode X)) : Builder X :=
  match root with
  | some root => return root
  | none => do
    let nodeRefs ← get
    match nodeRefs.entries with
    | [] => throw (internal "Cannot find root node.")
    | ⟨index, node⟩ :: _ =>
      set (nodeRefs.erase index)
      return node

/-- Every node of the list is added, and nothing but the root may be left over. -/
def buildNodes (nodes : List (CompiledNode X)) : Builder X := do
  let found ← nodes.foldlM addNode none
  let root ← takeRoot found
  let nodeRefs ← get
  if nodeRefs.entries.isEmpty then return root
  else throw (invalidArgument "Some nodes are not in the model tree.")

/-- `Labeler::Build` of a list of nodes. -/
def buildFromList (nodes : List (CompiledNode X)) : Result (Labeler X) := do
  let root ← (buildNodes nodes).alone
  return ⟨root⟩

/-! ## Fingerprints -/

/-- `SetUserInfoFingerprint`. -/
def setUserInfoFingerprint (X : Externals) (userInfo : UserInfo) : UserInfo :=
  match userInfo.userId with
  | some userId =>
    { userInfo with userIdFingerprint := some (X.fingerprint userId) }
  | none => userInfo

/-- The fingerprints of all ids of the profile. -/
def setProfileFingerprints (X : Externals) (profileInfo : ProfileInfo) :
    ProfileInfo :=
  let set (userInfo : Option UserInfo) : Option UserInfo :=
    userInfo.map (setUserInfoFingerprint X)
  { emailUserInfo := set profileInfo.emailUserInfo
    phoneUserInfo := set profileInfo.phoneUserInfo
    loggedInIdUserInfo := set profileInfo.loggedInIdUserInfo
    loggedOutIdUserInfo := set profileInfo.loggedOutIdUserInfo
    proprietaryIdSpace1UserInfo := set profileInfo.proprietaryIdSpace1UserInfo
    proprietaryIdSpace2UserInfo := set profileInfo.proprietaryIdSpace2UserInfo
    proprietaryIdSpace3UserInfo := set profileInfo.proprietaryIdSpace3UserInfo
    proprietaryIdSpace4UserInfo := set profileInfo.proprietaryIdSpace4UserInfo
    proprietaryIdSpace5UserInfo := set profileInfo.proprietaryIdSpace5UserInfo
    proprietaryIdSpace6UserInfo := set profileInfo.proprietaryIdSpace6UserInfo
    proprietaryIdSpace7UserInfo := set profileInfo.proprietaryIdSpace7UserInfo
    proprietaryIdSpace8UserInfo := set profileInfo.proprietaryIdSpace8UserInfo
    proprietaryIdSpace9UserInfo := set profileInfo.proprietaryIdSpace9UserInfo
    proprietaryIdSpace10UserInfo :=
      set profileInfo.proprietaryIdSpace10UserInfo }

/-- The fingerprint of an event id, which is hashed as empty when not set. -/
def eventIdFingerprint (X : Externals) (eventId : EventId) : UInt64 :=
  X.fingerprint (eventId.id.getD "")

/-- `SetFingerprints`: the event acts with the fingerprint of its id, if it has
one. -/
def setFingerprints (event : X.Event) : X.Event :=
  let labelerInput := event.labelerInput.getD X.emptyInput
  let eventId := labelerInput.eventId.map fun eventId =>
    { eventId with idFingerprint := some (eventIdFingerprint X eventId) }
  { event with
    labelerInput := some { labelerInput with
      eventId := eventId
      profileInfo :=
        labelerInput.profileInfo.map (setProfileFingerprints X) }
    actingFingerprint :=
      match labelerInput.eventId with
      | some eventId => some (eventIdFingerprint X eventId)
      | none => event.actingFingerprint }

/-! ## Labeling -/

/-- The event that the root is applied to. -/
def prepareEvent (input : X.Input) (mode : LabelingMode) : X.Event :=
  let event :=
    setFingerprints { X.emptyEvent with labelerInput := some input }
  match mode with
  | .full => event
  | .poolIdentity => { event with poolIdentityMode := some true }

/-- `Labeler::Label`. -/
def label (labeler : Labeler X) (input : X.Input) (mode : LabelingMode) :
    Result (LabelerOutput X) := do
  let event ← applyToCopy labeler.root.apply (prepareEvent input mode)
  return {
    people := event.virtualPersonActivities
    poolAssignments := event.poolAssignments
    serializedDebugTrace :=
      if input.enableDebugTrace then some (X.printToString event) else none }

end Labeler

end Cc

end VirtualPeople
