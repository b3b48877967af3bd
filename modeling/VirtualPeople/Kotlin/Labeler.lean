import VirtualPeople.Cc.Labeler
import VirtualPeople.Kotlin.ModelNode

/-!
# The labeler, in Kotlin

The builders from a root and from a list of nodes, and the labeling of an
input.  Fingerprints are computed as signed numbers and stored in unsigned
fields.
-/

namespace VirtualPeople.Kotlin

variable {X : Externals}

/-- A built model. -/
structure Labeler (X : Externals) where
  rootNode : ModelNode X

namespace Labeler

/-! ## Building -/

/-- `Labeler.build` of a root, without nodes to refer to. -/
def build (root : CompiledNode X) : Result (Labeler X) := do
  let rootNode ← (ModelNode.build root).alone
  return ⟨rootNode⟩

/-- One round of the loop over the nodes: it returns the root, once found. -/
def addNode (root : Option (ModelNode X)) (nodeConfig : CompiledNode X) :
    Step (NodeRefs X) (Option (ModelNode X)) :=
  match root, nodeConfig.index with
  | some _, _ => throw (.illegalState "No node is allowed after the root node.")
  | none, some index => do
    let nodeRefs ← get
    if index ∈ nodeRefs then
      throw (.illegalState ("Duplicated indexes: " ++ toString index))
    else
      let node ← ModelNode.build nodeConfig
      modify fun nodeRefs => nodeRefs.insert index node
      return none
  | none, none => do
    let node ← ModelNode.build nodeConfig
    return some node

/-- The root, which may be the only node that is left over with its index. -/
def takeRoot (root : Option (ModelNode X)) : Builder X :=
  match root with
  | some root => return root
  | none => do
    let nodeRefs ← get
    match nodeRefs.entries with
    | [] => throw (.illegalState "Cannot find root node.")
    | [⟨index, node⟩] =>
      set (nodeRefs.erase index)
      return node
    | _ =>
      throw (.illegalState "Only 1 root node is expected in the node_refs map")

/-- Every node of the list is added, and nothing but the root may be left over. -/
def buildNodes (nodes : List (CompiledNode X)) : Builder X := do
  let found ← nodes.foldlM addNode none
  let root ← takeRoot found
  let nodeRefs ← get
  if nodeRefs.entries.isEmpty then return root
  else throw (.illegalState "Some nodes are not in the model tree.")

/-- `Labeler.build` of a list of nodes. -/
def buildFromList (nodes : List (CompiledNode X)) : Result (Labeler X) := do
  let rootNode ← (buildNodes nodes).alone
  return ⟨rootNode⟩

/-! ## Fingerprints -/

/-- `Hashing.hashFingerprint64Long` -/
def hashFingerprint64Long (X : Externals) (input : String) : Int64 :=
  (X.fingerprint input).toInt64

/-- `setUserInfoFingerprint`. -/
def setUserInfoFingerprint (X : Externals) (userInfo : UserInfo) : UserInfo :=
  match userInfo.userId with
  | some userId => { userInfo with
      userIdFingerprint := some (hashFingerprint64Long X userId).toUInt64 }
  | none => userInfo

/-- The fingerprints of all ids of the profile. -/
def setProfileFingerprints (X : Externals) (profileInfo : ProfileInfo) :
    ProfileInfo :=
  let set (userInfo : Option UserInfo) : Option UserInfo :=
    userInfo.map (setUserInfoFingerprint X)
  { emailUserInfo := set profileInfo.emailUserInfo
    phoneUserInfo := set profileInfo.phoneUserInfo
    loggedInIdUserInfo := set profileInfo.loggedInIdUserInfo
    loggedOutIdUserInfo := set profileInfo.loggedOutIdUserInfo
    proprietaryIdSpace1UserInfo := set profileInfo.proprietaryIdSpace1UserInfo
    proprietaryIdSpace2UserInfo := set profileInfo.proprietaryIdSpace2UserInfo
    proprietaryIdSpace3UserInfo := set profileInfo.proprietaryIdSpace3UserInfo
    proprietaryIdSpace4UserInfo := set profileInfo.proprietaryIdSpace4UserInfo
    proprietaryIdSpace5UserInfo := set profileInfo.proprietaryIdSpace5UserInfo
    proprietaryIdSpace6UserInfo := set profileInfo.proprietaryIdSpace6UserInfo
    proprietaryIdSpace7UserInfo := set profileInfo.proprietaryIdSpace7UserInfo
    proprietaryIdSpace8UserInfo := set profileInfo.proprietaryIdSpace8UserInfo
    proprietaryIdSpace9UserInfo := set profileInfo.proprietaryIdSpace9UserInfo
    proprietaryIdSpace10UserInfo :=
      set profileInfo.proprietaryIdSpace10UserInfo }

/-- The fingerprint of an event id, which is hashed as empty when not set. -/
def eventIdFingerprint (X : Externals) (eventId : EventId) : Int64 :=
  hashFingerprint64Long X (eventId.id.getD "")

/-- `setFingerprints`: the event acts with the fingerprint of its id, if it has
one. -/
def setFingerprints (event : X.Event) : X.Event :=
  let labelerInput := event.labelerInput.getD X.emptyInput
  let eventId := labelerInput.eventId.map fun eventId => { eventId with
    idFingerprint := some (eventIdFingerprint X eventId).toUInt64 }
  { event with
    labelerInput := some { labelerInput with
      eventId := eventId
      profileInfo :=
        labelerInput.profileInfo.map (setProfileFingerprints X) }
    actingFingerprint :=
      match labelerInput.eventId with
      | some eventId => some (eventIdFingerprint X eventId).toUInt64
      | none => event.actingFingerprint }

/-! ## Labeling -/

/-- The event that the root is applied to. -/
def prepareEvent (input : X.Input) (mode : LabelingMode) : X.Event :=
  let event :=
    setFingerprints { X.emptyEvent with labelerInput := some input }
  if mode = .poolIdentity then { event with poolIdentityMode := some true }
  else event

/-- `Labeler.label`. -/
def label (labeler : Labeler X) (input : X.Input) (mode : LabelingMode) :
    Result (LabelerOutput X) := do
  let event ← Cc.applyToCopy labeler.rootNode.apply (prepareEvent input mode)
  return {
    people := event.virtualPersonActivities
    poolAssignments := event.poolAssignments
    serializedDebugTrace :=
      if input.enableDebugTrace then some (X.printToString event) else none }

end Labeler

end VirtualPeople.Kotlin
