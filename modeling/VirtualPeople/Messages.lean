import VirtualPeople.Outcome

/-!
# Messages and external functions

The protocol messages that the labeling code reads and writes, with the fields
the code names.  The remaining fields of a labeler input and of a labeler event
are kept as one opaque value each: filters, field access, masks and merges read
and write them, and these are functions outside of this repository, collected
in `Externals`.
-/

namespace VirtualPeople

/-- An id of a user, and its fingerprint once it is computed. -/
structure UserInfo where
  userId : Option String
  userIdFingerprint : Option UInt64
  deriving DecidableEq

/-- The ids of the user of an event, one for each kind of id. -/
structure ProfileInfo where
  emailUserInfo : Option UserInfo
  phoneUserInfo : Option UserInfo
  loggedInIdUserInfo : Option UserInfo
  loggedOutIdUserInfo : Option UserInfo
  proprietaryIdSpace1UserInfo : Option UserInfo
  proprietaryIdSpace2UserInfo : Option UserInfo
  proprietaryIdSpace3UserInfo : Option UserInfo
  proprietaryIdSpace4UserInfo : Option UserInfo
  proprietaryIdSpace5UserInfo : Option UserInfo
  proprietaryIdSpace6UserInfo : Option UserInfo
  proprietaryIdSpace7UserInfo : Option UserInfo
  proprietaryIdSpace8UserInfo : Option UserInfo
  proprietaryIdSpace9UserInfo : Option UserInfo
  proprietaryIdSpace10UserInfo : Option UserInfo
  deriving DecidableEq

/-- The id of an event, and its fingerprint once it is computed. -/
structure EventId where
  id : Option String
  idFingerprint : Option UInt64
  deriving DecidableEq

/-- The rank that a person of the pool with this offset was given. -/
structure RankAssignment where
  poolOffset : UInt64
  localRank : UInt64
  deriving DecidableEq

/-- The input of a labeling; the fields that no modelled code names are together
in `others`. -/
structure LabelerInput (InputFields : Type) where
  eventId : Option EventId
  profileInfo : Option ProfileInfo
  timestampUsec : Int64
  rankAssignments : List RankAssignment
  enableDebugTrace : Bool
  others : InputFields

/-- The pool that a ranked leaf announces for a person to be ranked in. -/
structure PoolAssignment where
  poolOffset : UInt64
  poolSize : UInt64
  rankedSize : UInt64
  deriving DecidableEq

/-- A person that an event is assigned to, with the label of the person. -/
structure VirtualPersonActivity (Label : Type) where
  virtualPersonId : Option UInt64
  label : Option Label
  deriving DecidableEq

/-- Labels of which one is chosen for a person at random. -/
structure QuantumLabel (Label : Type) where
  labels : List Label
  probabilities : List Float
  seed : String

/-- The event that the nodes of a model change while it is labeled. -/
structure LabelerEvent (InputFields EventFields Label : Type) where
  labelerInput : Option (LabelerInput InputFields)
  actingFingerprint : Option UInt64
  poolIdentityMode : Option Bool
  virtualPersonActivities : List (VirtualPersonActivity Label)
  poolAssignments : List PoolAssignment
  quantumLabels : Option (List (QuantumLabel Label))
  label : Option Label
  others : EventFields

/-- The kinds of values a protocol field can hold, by their C++ type. -/
inductive CppType
  | int32
  | int64
  | uint32
  | uint64
  | double
  | float
  | bool
  | enum
  | string
  | message
  deriving DecidableEq, Repr

/-- The field types of the schema language. -/
inductive FieldType
  | double
  | float
  | int64
  | uint64
  | int32
  | fixed64
  | fixed32
  | bool
  | string
  | group
  | message
  | bytes
  | uint32
  | enum
  | sfixed32
  | sfixed64
  | sint32
  | sint64
  deriving DecidableEq, Repr

/-- The type of a field in C++, `FieldDescriptor::TypeToCppType`. -/
def FieldType.cppType : FieldType → CppType
  | .double => .double
  | .float => .float
  | .int64 | .sfixed64 | .sint64 => .int64
  | .uint64 | .fixed64 => .uint64
  | .int32 | .sfixed32 | .sint32 => .int32
  | .uint32 | .fixed32 => .uint32
  | .bool => .bool
  | .string | .bytes => .string
  | .group | .message => .message
  | .enum => .enum

/-- The values that the field access functions move for each type. -/
abbrev CppType.Value : CppType → Type
  | .int32 => Int32
  | .int64 => Int64
  | .uint32 => UInt32
  | .uint64 => UInt64
  | .double => Float
  | .float => Float32
  | .bool => Bool
  | .enum => Int32
  | .string => String
  | .message => Empty

/-- Everything the labeling code uses from outside of the repository: the
hash, the logarithms, protocol buffer operations, and field filters. -/
structure Externals where
  InputFields : Type
  EventFields : Type
  Label : Type
  FieldFilterProto : Type
  FieldFilter : Type
  FieldPath : Type
  fingerprint64 : ByteArray → UInt64
  log : Float → Float
  logf : Float32 → Float32
  emptyLabel : Label
  mergeLabel : Label → Label → Label
  emptyEventFields : EventFields
  emptyInputFields : InputFields
  /-- `MergeFrom` on events: the first argument is the target. -/
  mergeEvent :
    LabelerEvent InputFields EventFields Label →
      LabelerEvent InputFields EventFields Label →
        LabelerEvent InputFields EventFields Label
  /-- The event that holds only the fields of a mask. -/
  mergeMask :
    List String → LabelerEvent InputFields EventFields Label →
      LabelerEvent InputFields EventFields Label
  serializePartialAsString :
    LabelerEvent InputFields EventFields Label → ByteArray
  printToString : LabelerEvent InputFields EventFields Label → String
  newFieldFilter : FieldFilterProto → Result FieldFilter
  newFieldFilterFromEvent :
    LabelerEvent InputFields EventFields Label → Result FieldFilter
  isMatch :
    FieldFilter → LabelerEvent InputFields EventFields Label → Bool
  getFieldFromProto : String → Result FieldPath
  fieldType : FieldPath → FieldType
  /-- The value of a field, if it is set. -/
  getValueFromProto :
    (type : CppType) → LabelerEvent InputFields EventFields Label →
      FieldPath → Option type.Value
  setValueToProto :
    (type : CppType) → LabelerEvent InputFields EventFields Label →
      FieldPath → type.Value → LabelerEvent InputFields EventFields Label
  formatDouble : Float → String

namespace Externals

variable (X : Externals)

/-- The inputs of labelers over these externals. -/
abbrev Input := LabelerInput X.InputFields

/-- The activities of events over these externals. -/
abbrev Activity := VirtualPersonActivity X.Label

/-- The events of labelers over these externals. -/
abbrev Event := LabelerEvent X.InputFields X.EventFields X.Label

/-- The fingerprint of the bytes of a text. -/
def fingerprint (text : String) : UInt64 :=
  X.fingerprint64 text.toUTF8

/-- A labeler event with no field set. -/
def emptyEvent : X.Event where
  labelerInput := none
  actingFingerprint := none
  poolIdentityMode := none
  virtualPersonActivities := []
  poolAssignments := []
  quantumLabels := none
  label := none
  others := X.emptyEventFields

/-- A labeler input with no field set. -/
def emptyInput : X.Input where
  eventId := none
  profileInfo := none
  timestampUsec := 0
  rankAssignments := []
  enableDebugTrace := false
  others := X.emptyInputFields

/-- External functions that ignore their inputs, for concrete runs. -/
def constant : Externals where
  InputFields := Unit
  EventFields := Unit
  Label := Unit
  FieldFilterProto := Unit
  FieldFilter := Unit
  FieldPath := Unit
  fingerprint64 := fun _ => 0
  log := fun value => value
  logf := fun value => value
  emptyLabel := ()
  mergeLabel := fun _ _ => ()
  emptyEventFields := ()
  emptyInputFields := ()
  mergeEvent := fun event _ => event
  mergeMask := fun _ event => event
  serializePartialAsString := fun _ => ByteArray.empty
  printToString := fun _ => ""
  newFieldFilter := fun _ => .ok ()
  newFieldFilterFromEvent := fun _ => .ok ()
  isMatch := fun _ _ => true
  getFieldFromProto := fun _ => .ok ()
  fieldType := fun _ => .int32
  getValueFromProto := fun _ _ _ => none
  setValueToProto := fun _ event _ _ => event
  formatDouble := fun _ => ""

instance : DecidableEq constant.Label :=
  inferInstanceAs (DecidableEq Unit)

/-- External functions for concrete runs on events with one flag: it tells the
other persons of an event from the first one, masks keep it, conditions ask for
it, and the rows of a matrix set the label. -/
def flagged : Externals where
  InputFields := Unit
  EventFields := Bool
  Label := String
  FieldFilterProto := Option Bool
  FieldFilter := Option Bool
  FieldPath := Unit
  fingerprint64 := fun bytes =>
    bytes.data.toList.foldl (fun hash byte => 31 * hash + byte.toUInt64) 7
  log := fun value => value - 1.0
  logf := fun value => value - 1.0
  emptyLabel := ""
  mergeLabel := fun _ label => label
  emptyEventFields := false
  emptyInputFields := ()
  mergeEvent := fun event row => { event with label := row.label }
  mergeMask := fun _ event =>
    ⟨none, none, none, [], [], none, none, event.others⟩
  serializePartialAsString := fun event => (toString event.others).toUTF8
  printToString := fun event => toString event.others
  newFieldFilter := fun filter => .ok filter
  newFieldFilterFromEvent := fun event => .ok (some event.others)
  isMatch := fun filter event =>
    filter = none ∨ filter = some event.others
  getFieldFromProto := fun _ => .ok ()
  fieldType := fun _ => .int32
  getValueFromProto := fun _ _ _ => none
  setValueToProto := fun type event _ =>
    match type with
    | .int32 => fun value => { event with others := value ≠ 0 }
    | _ => fun _ => event
  formatDouble := fun _ => ""

instance : DecidableEq flagged.Label :=
  inferInstanceAs (DecidableEq String)

end Externals

end VirtualPeople
