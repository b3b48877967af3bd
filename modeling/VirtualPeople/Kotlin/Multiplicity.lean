import VirtualPeople.Cc.Multiplicity
import VirtualPeople.Kotlin.PopulationNodeHelper

/-!
# Multiplicity, in Kotlin

The Kotlin conversions from floating point saturate, so that the count of clones
never fails on one; it is the C++ count whenever the C++ conversions are in
range.  Fields are told apart by their schema type here and by their C++ type
there.
-/

namespace VirtualPeople.Kotlin

open Binary64

/-! ## Conversions -/

/-- The integer part of a double, moved to the nearest bound when it is outside,
and zero for a value that is not a number. -/
def saturate (value : Float) (lower upper : ℤ) : ℤ :=
  match truncate value with
  | some integer => max lower (min upper integer)
  | none =>
    if value.isNaN then 0
    else if value < 0.0 then lower
    else upper

/-- `Double.toInt()` -/
def toInt (value : Float) : Int32 :=
  Int32.ofInt (saturate value (-2 ^ 31) (2 ^ 31 - 1))

/-- `Double.toULong()` -/
def toULong (value : Float) : UInt64 :=
  UInt64.ofNat (saturate value 0 (2 ^ 64 - 1)).toNat

/-- The integer part of C++, when there is one, is the saturated one. -/
theorem integralPart_agree (value : Float) (lower upper : ℤ) :
    Agree (· = ·) (Cc.integralPart value lower upper)
      (.ok (saturate value lower (upper - 1))) := by
  unfold Cc.integralPart saturate
  cases truncate value with
  | none => exact .conversion _
  | some integer =>
    simp only
    split_ifs with inRange
    · refine .ok ?_
      rw [min_eq_right (by omega), max_eq_right inRange.1]
    · exact .conversion _

theorem castToInt32_agree (value : Float) :
    Agree (· = ·) (Cc.castToInt32 value) (.ok (toInt value)) :=
  (integralPart_agree value (-2 ^ 31) (2 ^ 31)).bind_value
    fun _ same => .ok (congrArg Int32.ofInt same)

theorem castToUInt64_agree (value : Float) :
    Agree (· = ·) (Cc.castToUInt64 value) (.ok (toULong value)) :=
  (integralPart_agree value 0 (2 ^ 64)).bind_value
    fun _ same => .ok (congrArg (fun integer => UInt64.ofNat integer.toNat) same)

/-! ## The expected multiplicity -/

/-- The integral part of the expectation, or one more with the probability of
the fractional part. -/
def computeBimodalInteger (expectation : Float) (seed : UInt64) : Int32 :=
  let integralPart := toInt (floor expectation)
  let fractionalPart := expectation - ofInt integralPart.toInt
  let threshold := toULong (fractionalPart * ulongMaxValue.toFloat)
  if seed < threshold then integralPart + 1 else integralPart

/-- The count is the same, unless a conversion is out of range. -/
theorem computeBimodalInteger_agree (expectation : Float) (seed : UInt64) :
    Agree (· = ·) (Cc.computeBimodalInteger expectation seed)
      (.ok (computeBimodalInteger expectation seed)) := by
  unfold Cc.computeBimodalInteger computeBimodalInteger
  refine (castToInt32_agree _).bind_value fun integralPart same => ?_
  rw [same]
  refine (castToUInt64_agree _).bind_value fun threshold same => ?_
  rw [same]
  change Agree _ (if seed < toULong ((expectation -
    ofInt (toInt (floor expectation)).toInt) * ulongMaxValue.toFloat) then _
      else _) _
  split_ifs with above
  · exact .ok (if_pos above).symm
  · exact .ok (if_neg above).symm

variable (X : Externals)

/-- The value of the field, as a double. -/
def extractValue (type : CppType) (toDouble : type.Value → Float)
    (event : X.Event) (source : X.FieldPath) : Result Float :=
  match X.getValueFromProto type event source with
  | some value => return toDouble value
  | none => throw (.illegalState "The multiplicity field is not set.")

/-- `getExtractMultiplicityFunction`: the types that an expectation is read
from. -/
def getExtractMultiplicityFunction :
    FieldType → Result (X.Event → X.FieldPath → Result Float)
  | .int32 => return extractValue X .int32 fun value => ofInt value.toInt
  | .uint32 => return extractValue X .uint32 fun value => value.toFloat
  | .int64 => return extractValue X .int64 fun value => ofInt value.toInt
  | .uint64 => return extractValue X .uint64 fun value => value.toFloat
  | .float => return extractValue X .float ofFloat32
  | .double => return extractValue X .double id
  | _ => throw (.illegalState "Unsupported field type for multiplicity: ")

/-- `isIntegerFieldType`. -/
def isIntegerFieldType : FieldType → Bool
  | .int32 | .uint32 | .int64 | .uint64 => true
  | _ => false

/-- A field to read the expectation from, and how it is read. -/
structure MultiplicityFromField where
  fieldDescriptors : X.FieldPath
  getValueFunction : X.Event → X.FieldPath → Result Float

/-- The types that a multiplicity extractor may have. -/
inductive MultiplicityExtractor
  | double (value : Float)
  | fromField (field : MultiplicityFromField X)

/-- A built multiplicity. -/
structure MultiplicityImpl where
  multiplicityExtractor : MultiplicityExtractor X
  capAtMax : Bool
  maxValue : Float
  personIndexField : X.FieldPath
  randomSeed : String

namespace MultiplicityImpl

variable {X}

/-- The expectation that the configuration states. -/
def buildExtractor (config : Multiplicity) :
    Result (MultiplicityExtractor X) :=
  match config.multiplicityRef with
  | .expectedMultiplicity value => return .double value
  | .expectedMultiplicityField field => do
    let fieldDescriptors ← X.getFieldFromProto field
    let getValueFunction ←
      getExtractMultiplicityFunction X (X.fieldType fieldDescriptors)
    return .fromField ⟨fieldDescriptors, getValueFunction⟩
  | .notSet => throw (.illegalState "Multiplicity must set multiplicity_ref. ")

/-- `MultiplicityImpl.build`. -/
def build (config : Multiplicity) : Result (MultiplicityImpl X) :=
  match config.personIndexField, config.maxValue, config.capAtMax,
    config.randomSeed with
  | none, _, _, _ =>
    throw (.illegalState "Multiplicity must set person_index_field. ")
  | some _, none, _, _ =>
    throw (.illegalState "Multiplicity must set max_value. ")
  | some _, some _, none, _ =>
    throw (.illegalState "Multiplicity must set cap_at_max. ")
  | some _, some _, some _, none =>
    throw (.illegalState "Multiplicity must set random_seed. ")
  | some field, some maxValue, some capAtMax, some randomSeed => do
    let multiplicityExtractor ← buildExtractor config
    let personIndexField ← X.getFieldFromProto field
    if isIntegerFieldType (X.fieldType personIndexField) then
      return ⟨multiplicityExtractor, capAtMax, maxValue, personIndexField,
        randomSeed⟩
    else throw (.illegalState "Invalid type for person_index_field. ")

variable (multiplicity : MultiplicityImpl X)

/-- The expectation for the event, before it is capped. -/
def expectedMultiplicity (event : X.Event) : Result Float :=
  match multiplicity.multiplicityExtractor with
  | .double value => return value
  | .fromField field => field.getValueFunction event field.fieldDescriptors

/-- The expectation after the check against the maximum. -/
def capMultiplicity (expectedMultiplicity : Float) : Result Float :=
  if expectedMultiplicity > multiplicity.maxValue then
    if multiplicity.capAtMax then return multiplicity.maxValue
    else
      throw (.illegalState ("Expected multiplicity = " ++
        X.formatDouble expectedMultiplicity ++ "," ++
        ", which exceeds the specified max value = " ++
        X.formatDouble multiplicity.maxValue))
  else return expectedMultiplicity

/-- `computeEventMultiplicity`: the capped expectation, rounded at random. -/
def computeEventMultiplicity (event : X.Event) : Result Int32 := do
  let expected ← multiplicity.expectedMultiplicity event
  let expectedMultiplicity ← multiplicity.capMultiplicity expected
  if expectedMultiplicity < 0.0 then
    throw (.illegalState ("Expected multiplicity = " ++
      X.formatDouble expectedMultiplicity ++ ", but multiplicity must >= 0."))
  else
    let eventSeed := X.fingerprint (multiplicity.randomSeed ++
      toString (event.actingFingerprint.getD 0).toInt64.toUInt64)
    return computeBimodalInteger expectedMultiplicity eventSeed

/-- `getFingerprintForIndex`: the first clone keeps the fingerprint. -/
def getFingerprintForIndex (input : UInt64) (index : ℕ) : UInt64 :=
  if index = 0 then input
  else
    X.fingerprint (multiplicity.randomSeed ++ "-clone-" ++ toString index ++
      "-" ++ toString input)

end MultiplicityImpl

/-! ## Agreement -/

variable {X}

theorem extractValue_lockstep (type : CppType) (toDouble : type.Value → Float)
    (event : X.Event) (source : X.FieldPath) :
    Lockstep (· = ·) (Cc.extractDoubleValue X type toDouble event source)
      (extractValue X type toDouble event source) := by
  unfold Cc.extractDoubleValue extractValue
  cases X.getValueFromProto type event source with
  | none => exact .errors _ _
  | some value => exact .refl _

/-- Where Kotlin reads a field of some type, C++ reads the same value. -/
theorem getExtractMultiplicityFunction_related {type : FieldType}
    {extract extract' : X.Event → X.FieldPath → Result Float}
    (found : Cc.getExtractMultiplicityFunction X type.cppType = .ok extract)
    (found' : getExtractMultiplicityFunction X type = .ok extract')
    (event : X.Event) (source : X.FieldPath) :
    Lockstep (· = ·) (extract event source) (extract' event source) := by
  cases type
  case int32 | uint32 | int64 | uint64 | float | double =>
    rw [← Except.ok.inj found, ← Except.ok.inj found']
    exact extractValue_lockstep _ _ event source
  all_goals contradiction

/-- The extractors give every event the same expectation. -/
def SameExtractor (extractor : Cc.MultiplicityExtractor X)
    (extractor' : MultiplicityExtractor X) : Prop :=
  match extractor, extractor' with
  | .explicitValue value, .double value' => value = value'
  | .fromField field, .fromField field' => ∀ event, Lockstep (· = ·)
      (field.getValueFunction event field.fieldDescriptor)
      (field'.getValueFunction event field'.fieldDescriptors)
  | _, _ => False

namespace MultiplicityImpl

/-- The two languages have built the same multiplicity. -/
structure SameMultiplicity (multiplicity : Cc.MultiplicityImpl X)
    (multiplicity' : MultiplicityImpl X) : Prop where
  extractors : SameExtractor multiplicity.multiplicityExtractor
    multiplicity'.multiplicityExtractor
  capAtMax : multiplicity'.capAtMax = multiplicity.capAtMax
  maxValue : multiplicity'.maxValue = multiplicity.maxValue
  personIndexField :
    multiplicity'.personIndexField = multiplicity.personIndexField
  randomSeed : multiplicity'.randomSeed = multiplicity.randomSeed

theorem buildExtractor_related {config : Multiplicity}
    {extractor : Cc.MultiplicityExtractor X}
    {extractor' : MultiplicityExtractor X}
    (built : Cc.MultiplicityImpl.buildExtractor config = .ok extractor)
    (built' : buildExtractor config = .ok extractor') :
    SameExtractor extractor extractor' := by
  unfold Cc.MultiplicityImpl.buildExtractor at built
  unfold buildExtractor at built'
  cases ref : config.multiplicityRef with
  | expectedMultiplicity value =>
    rw [ref] at built built'
    rw [← Except.ok.inj built, ← Except.ok.inj built']
    rfl
  | expectedMultiplicityField field =>
    rw [ref] at built built'
    obtain ⟨path, pathEq, rest⟩ := bind_eq_ok_iff.mp built
    obtain ⟨path', pathEq', rest'⟩ := bind_eq_ok_iff.mp built'
    have samePath := Except.ok.inj (pathEq.symm.trans pathEq')
    subst samePath
    split at rest
    · rename_i extract extracts
      obtain ⟨extract', extracts', extractorEq'⟩ := bind_eq_ok_iff.mp rest'
      rw [← Except.ok.inj rest, ← Except.ok.inj extractorEq']
      exact fun event =>
        getExtractMultiplicityFunction_related extracts extracts' event path
    · contradiction
  | notSet =>
    rw [ref] at built
    contradiction

/-- Both languages build the same multiplicity. -/
theorem build_related {config : Multiplicity}
    {multiplicity : Cc.MultiplicityImpl X} {multiplicity' : MultiplicityImpl X}
    (built : Cc.MultiplicityImpl.build config = .ok multiplicity)
    (built' : build config = .ok multiplicity') :
    SameMultiplicity multiplicity multiplicity' := by
  unfold Cc.MultiplicityImpl.build Cc.MultiplicityImpl.buildPersonIndexField
    at built
  unfold build at built'
  obtain ⟨extractor, extractorEq, rest⟩ := bind_eq_ok_iff.mp built
  obtain ⟨field, fieldEq, rest⟩ := bind_eq_ok_iff.mp rest
  split at built' <;> try contradiction
  rename_i name maxValue capAtMax randomSeed nameEq maxEq capEq seedEq
  rw [nameEq] at fieldEq
  rw [maxEq, capEq, seedEq] at rest
  obtain ⟨path, pathEq, fieldEq⟩ := bind_eq_ok_iff.mp fieldEq
  obtain ⟨extractor', extractorEq', rest'⟩ := bind_eq_ok_iff.mp built'
  obtain ⟨path', pathEq', rest'⟩ := bind_eq_ok_iff.mp rest'
  have samePath := Except.ok.inj (pathEq.symm.trans pathEq')
  subst samePath
  split_ifs at fieldEq rest'
  rw [← Except.ok.inj rest, ← Except.ok.inj rest', ← Except.ok.inj fieldEq]
  exact ⟨buildExtractor_related extractorEq extractorEq', rfl, rfl, rfl, rfl⟩

variable {multiplicity : Cc.MultiplicityImpl X}
  {multiplicity' : MultiplicityImpl X}

/-- Both languages count the same clones, unless a conversion is out of range. -/
theorem computeEventMultiplicity_agree
    (same : SameMultiplicity multiplicity multiplicity') (event : X.Event) :
    Agree (· = ·) (multiplicity.computeEventMultiplicity event)
      (multiplicity'.computeEventMultiplicity event) := by
  have expectations : Lockstep (· = ·)
      (multiplicity.expectedMultiplicity event)
      (multiplicity'.expectedMultiplicity event) := by
    have extractors := same.extractors
    unfold Cc.MultiplicityImpl.expectedMultiplicity expectedMultiplicity
    match multiplicity.multiplicityExtractor,
      multiplicity'.multiplicityExtractor, extractors with
    | .explicitValue _, .double _, sameValue => exact .ok sameValue
    | .fromField _, .fromField _, sameField => exact sameField event
  refine expectations.excusing.bind_eq fun expected => ?_
  have capped : Lockstep (· = ·) (multiplicity.capMultiplicity expected)
      (multiplicity'.capMultiplicity expected) := by
    unfold Cc.MultiplicityImpl.capMultiplicity capMultiplicity
    rw [same.maxValue, same.capAtMax]
    split_ifs
    · exact .refl _
    · exact .errors _ _
    · exact .refl _
  refine capped.excusing.bind_eq fun value => ?_
  rw [same.randomSeed, UInt64.toUInt64_toInt64]
  split_ifs
  · exact .errors _ _
  · exact computeBimodalInteger_agree value _

theorem getFingerprintForIndex_eq
    (same : SameMultiplicity multiplicity multiplicity') (input : UInt64)
    (index : ℕ) :
    multiplicity'.getFingerprintForIndex input index =
      multiplicity.getFingerprintForIndex input index := by
  unfold getFingerprintForIndex
  rw [same.randomSeed]
  rfl

end MultiplicityImpl

end VirtualPeople.Kotlin
