import VirtualPeople.Binary64.Arithmetic
import VirtualPeople.Cc.PopulationNodeHelper

/-!
# Multiplicity

How many clones of an event a branch with multiplicity makes, and the
fingerprint of each clone.  The count is a 32-bit integer next to a floating
point expectation, so that a run can fault on a conversion here.
-/

namespace VirtualPeople.Cc

open Binary64

/-! ## Conversions -/

/-- The integer part of a double, when it lies in `[lower, upper)`. -/
def integralPart (value : Float) (lower upper : ℤ) : Result ℤ :=
  match truncate value with
  | some integer =>
    if lower ≤ integer ∧ integer < upper then pure integer
    else throw .conversion
  | none => throw .conversion

/-- `static_cast<int>` of a double. -/
def castToInt32 (value : Float) : Result Int32 := do
  let integer ← integralPart value (-2 ^ 31) (2 ^ 31)
  return Int32.ofInt integer

/-- `static_cast<uint64_t>` of a double. -/
def castToUInt64 (value : Float) : Result UInt64 := do
  let integer ← integralPart value 0 (2 ^ 64)
  return UInt64.ofNat integer.toNat

variable (X : Externals)

/-! ## The expected multiplicity -/

/-- The integral part of the expectation, or one more with the probability of
the fractional part. -/
def computeBimodalInteger (expectation : Float) (seed : UInt64) :
    Result Int32 := do
  let integralPart ← castToInt32 (floor expectation)
  let fractionalPart := expectation - ofInt integralPart.toInt
  let threshold ← castToUInt64 (fractionalPart * uint64Max.toFloat)
  if seed < threshold then return integralPart + 1
  else return integralPart

/-- `ExtractDoubleValue`: the value of the field, as a double. -/
def extractDoubleValue (type : CppType) (toDouble : type.Value → Float)
    (event : X.Event) (source : X.FieldPath) : Result Float :=
  match X.getValueFromProto type event source with
  | some value => return toDouble value
  | none => throw (invalidArgument "The multiplicity field is not set.")

/-- `GetExtractMultiplicityFunction`: the types that an expectation is read
from. -/
def getExtractMultiplicityFunction :
    CppType → Result (X.Event → X.FieldPath → Result Float)
  | .int32 => return extractDoubleValue X .int32 fun value => ofInt value.toInt
  | .int64 => return extractDoubleValue X .int64 fun value => ofInt value.toInt
  | .uint32 => return extractDoubleValue X .uint32 fun value => value.toFloat
  | .uint64 => return extractDoubleValue X .uint64 fun value => value.toFloat
  | .float => return extractDoubleValue X .float ofFloat32
  | .double => return extractDoubleValue X .double id
  | _ => throw (invalidArgument "Unsupported field type for multiplicity.")

/-- `IsIntegerFieldType`. -/
def isIntegerFieldType : CppType → Bool
  | .int32 | .int64 | .uint32 | .uint64 => true
  | _ => false

/-- A field with the function that reads fields of its type. -/
structure MultiplicityFromField where
  fieldDescriptor : X.FieldPath
  getValueFunction : X.Event → X.FieldPath → Result Float
  extracts :
    getExtractMultiplicityFunction X (X.fieldType fieldDescriptor).cppType =
      .ok getValueFunction

/-- The expected multiplicity itself, or the field that holds it. -/
inductive MultiplicityExtractor
  | explicitValue (value : Float)
  | fromField (field : MultiplicityFromField X)

/-- A built multiplicity, whose index field is of an integer type. -/
structure MultiplicityImpl where
  multiplicityExtractor : MultiplicityExtractor X
  capAtMax : Bool
  maxValue : Float
  personIndexField : X.FieldPath
  randomSeed : String
  personIndexIsInteger :
    isIntegerFieldType (X.fieldType personIndexField).cppType

namespace MultiplicityImpl

variable {X}

/-- The expectation that the configuration states. -/
def buildExtractor (config : Multiplicity) :
    Result (MultiplicityExtractor X) :=
  match config.multiplicityRef with
  | .expectedMultiplicity value => return .explicitValue value
  | .expectedMultiplicityField field => do
    let fieldDescriptor ← X.getFieldFromProto field
    match extracts : getExtractMultiplicityFunction X
        (X.fieldType fieldDescriptor).cppType with
    | .ok getValueFunction =>
      return .fromField ⟨fieldDescriptor, getValueFunction, extracts⟩
    | .error fault => throw fault
  | .notSet =>
    throw (invalidArgument "Multiplicity must set multiplicity_ref.")

/-- The field that clones are numbered in. -/
def buildPersonIndexField (config : Multiplicity) :
    Result { path : X.FieldPath //
      isIntegerFieldType (X.fieldType path).cppType } :=
  match config.personIndexField with
  | none => throw (invalidArgument "Multiplicity must set person_index_field.")
  | some field => do
    let personIndexField ← X.getFieldFromProto field
    if isInteger : isIntegerFieldType (X.fieldType personIndexField).cppType then
      return ⟨personIndexField, isInteger⟩
    else throw (invalidArgument "Invalid type for person_index_field.")

/-- `MultiplicityImpl::Build`. -/
def build (config : Multiplicity) : Result (MultiplicityImpl X) := do
  let multiplicityExtractor ← buildExtractor config
  let personIndexField ← buildPersonIndexField config
  match config.maxValue, config.capAtMax, config.randomSeed with
  | none, _, _ => throw (invalidArgument "Multiplicity must set max_value.")
  | some _, none, _ =>
    throw (invalidArgument "Multiplicity must set cap_at_max.")
  | some _, some _, none =>
    throw (invalidArgument "Multiplicity must set random_seed.")
  | some maxValue, some capAtMax, some randomSeed =>
    return ⟨multiplicityExtractor, capAtMax, maxValue, personIndexField.val,
      randomSeed, personIndexField.property⟩

variable (multiplicity : MultiplicityImpl X)

/-- The expectation for the event, before it is capped. -/
def expectedMultiplicity (event : X.Event) : Result Float :=
  match multiplicity.multiplicityExtractor with
  | .explicitValue value => return value
  | .fromField field => field.getValueFunction event field.fieldDescriptor

/-- The expectation after the check against the maximum. -/
def capMultiplicity (expectedMultiplicity : Float) : Result Float :=
  if multiplicity.maxValue < expectedMultiplicity then
    if multiplicity.capAtMax then return multiplicity.maxValue
    else
      throw (outOfRange ("Expected multiplicity = " ++
        X.formatDouble expectedMultiplicity ++
        ", which exceeds the specified max value = " ++
        X.formatDouble multiplicity.maxValue))
  else return expectedMultiplicity

/-- `ComputeEventMultiplicity`: the capped expectation, rounded at random. -/
def computeEventMultiplicity (event : X.Event) : Result Int32 := do
  let expected ← multiplicity.expectedMultiplicity event
  let expectedMultiplicity ← multiplicity.capMultiplicity expected
  if expectedMultiplicity < 0.0 then
    throw (outOfRange ("Expected multiplicity = " ++
      X.formatDouble expectedMultiplicity ++ ", but multiplicity must >= 0."))
  else
    computeBimodalInteger expectedMultiplicity
      (X.fingerprint (multiplicity.randomSeed ++
        toString (event.actingFingerprint.getD 0)))

/-- `GetFingerprintForIndex`: the first clone keeps the fingerprint. -/
def getFingerprintForIndex (input : UInt64) (index : ℕ) : UInt64 :=
  if index = 0 then input
  else
    X.fingerprint (multiplicity.randomSeed ++ "-clone-" ++ toString index ++
      "-" ++ toString input)

end MultiplicityImpl

end VirtualPeople.Cc
