import VirtualPeople.Cc.ColumnMatchers
import VirtualPeople.Cc.Multiplicity

/-!
# Attributes updaters

The updaters that do not hold a model tree.  Each of them is built from its
configuration and then maps an event to the updated event; one that fails
leaves the event alone.
-/

namespace VirtualPeople.Cc

open Binary64

variable (X : Externals)

/-! ## Selecting a row -/

/-- The column and the row that a matrix selects for an event. -/
structure MatrixIndexes where
  columnIndex : ℤ
  rowIndex : ℤ

/-- The matchers of a matrix, of which the builders set one. -/
structure MatrixMatchers where
  hashMatcher : Option HashFieldMaskMatcher
  filtersMatcher : Option (FieldFiltersMatcher X)

namespace MatrixMatchers

variable {X}

/-- `BuildEventsMatcher` or `BuildFieldFiltersMatcher`, whichever the mask asks
for. -/
def build (columns : List X.Event) (hashFieldMask : Option (List String)) :
    Result (MatrixMatchers X) :=
  match hashFieldMask with
  | some hashFieldMask => do
    let hashMatcher ← HashFieldMaskMatcher.build X columns hashFieldMask
    return ⟨some hashMatcher, none⟩
  | none => do
    let filters ← columns.mapM X.newFieldFilterFromEvent
    return ⟨none, some ⟨filters⟩⟩

/-- The position of the first column that matches the event. -/
def columnIndex (matchers : MatrixMatchers X) (event : X.Event) : Result ℤ :=
  match matchers.hashMatcher, matchers.filtersMatcher with
  | some hashMatcher, _ => return hashMatcher.getMatch X event
  | none, some filtersMatcher => return filtersMatcher.getFirstMatch event
  | none, none => throw (internal "No column matcher is set.")

end MatrixMatchers

/-- `SelectFromMatrix`: the column of the event, and a row of the column by
hash. -/
def selectFromMatrix (matchers : MatrixMatchers X)
    (rowHashings : List DistributedConsistentHashing) (randomSeed : String)
    (event : X.Event) : Result MatrixIndexes := do
  let columnIndex ← matchers.columnIndex event
  if columnIndex = kNoMatchingIndex then
    return ⟨kNoMatchingIndex, kNoMatchingIndex⟩
  else if columnIndex < 0 ∨ rowHashings.length ≤ columnIndex then
    throw (internal "The returned index is out of range.")
  else
    let rowHashing ← elementAt rowHashings columnIndex
    return ⟨columnIndex, rowHashing.hash X
      (randomSeed ++ toString (event.actingFingerprint.getD 0))⟩

/-- The event after the merge of the row. -/
def mergeRow (rows : List X.Event) (rowIndex : ℤ) (event : X.Event) :
    Result X.Event :=
  if rowIndex < 0 ∨ rows.length ≤ rowIndex then
    throw (internal "The returned row index is out of range.")
  else do
    let row ← elementAt rows rowIndex
    return X.mergeEvent event row

/-! ## Update matrices -/

/-- A built matrix that is read row by row. -/
structure UpdateMatrixImpl where
  matchers : MatrixMatchers X
  rowHashings : List DistributedConsistentHashing
  randomSeed : String
  rows : List X.Event
  passThroughNonMatches : Bool

namespace UpdateMatrixImpl

variable {X}

/-- The distribution of a column, read from the probabilities row by row.  The
32-bit position of a probability that is not there is out of bounds too. -/
def columnDistribution (config : UpdateMatrix X) (columnIndex : ℕ) :
    Result (List DistributionChoice) :=
  (List.range config.rows.length).mapM fun rowIndex => do
    let probability ← elementAt config.probabilities
      ((rowIndex * config.columns.length + columnIndex : ℕ) : ℤ)
    return ⟨rowIndex, ofFloat32 probability⟩

/-- `UpdateMatrixImpl::Build`; the count check is made in 32 bits. -/
def build (config : UpdateMatrix X) : Result (UpdateMatrixImpl X) :=
  let rowCount := Int32.ofNat config.rows.length
  let columnCount := Int32.ofNat config.columns.length
  if config.rows.length = 0 then
    throw (invalidArgument "No row exists in UpdateMatrix: ")
  else if config.columns.length = 0 then
    throw (invalidArgument "No column exists in UpdateMatrix: ")
  else if rowCount * columnCount ≠ Int32.ofNat config.probabilities.length then
    throw (invalidArgument "Probabilities count must equal to row * column: ")
  else do
    let matchers ← MatrixMatchers.build config.columns config.hashFieldMask
    let rowHashings ← (List.range config.columns.length).mapM
      fun columnIndex => do
        let distribution ← columnDistribution config columnIndex
        DistributedConsistentHashing.build distribution
    return ⟨matchers, rowHashings, config.randomSeed, config.rows,
      config.passThroughNonMatches⟩

/-- `UpdateMatrixImpl::Update`. -/
def update (updater : UpdateMatrixImpl X) (event : X.Event) :
    Result X.Event := do
  let indexes ← selectFromMatrix X updater.matchers updater.rowHashings
    updater.randomSeed event
  if indexes.columnIndex = kNoMatchingIndex then
    if updater.passThroughNonMatches then return event
    else throw (invalidArgument "No column matching for event: ")
  else mergeRow X updater.rows indexes.rowIndex event

end UpdateMatrixImpl

/-! ## Sparse update matrices -/

/-- A built matrix with rows of its own for every column. -/
structure SparseUpdateMatrixImpl where
  matchers : MatrixMatchers X
  rowHashings : List DistributedConsistentHashing
  randomSeed : String
  rows : List (List X.Event)
  passThroughNonMatches : Bool

namespace SparseUpdateMatrixImpl

variable {X}

/-- The checks that the builder makes of each column. -/
def checkColumn (column : SparseUpdateMatrixColumn X) : Result Unit :=
  if column.columnAttrs.isNone then
    throw (invalidArgument
      "No column_attrs in the column in SparseUpdateMatrix: ")
  else if column.rows.length = 0 then
    throw (invalidArgument
      "No row exists in the column in SparseUpdateMatrix: ")
  else if column.rows.length ≠ column.probabilities.length then
    throw (invalidArgument ("Rows and probabilities are not aligned in the " ++
      "column in SparseUpdateMatrix: "))
  else return

/-- The distribution of the rows of a column. -/
def buildRowsHashing (column : SparseUpdateMatrixColumn X) :
    Result DistributedConsistentHashing :=
  DistributedConsistentHashing.build
    (enumerateChoices (column.probabilities.map ofFloat32))

/-- `SparseUpdateMatrixImpl::Build`. -/
def build (config : SparseUpdateMatrix X) :
    Result (SparseUpdateMatrixImpl X) :=
  if config.columns.length = 0 then
    throw (invalidArgument "No column exists in SparseUpdateMatrix: ")
  else do
    config.columns.forM checkColumn
    let matchers ← MatrixMatchers.build
      (config.columns.map (·.columnAttrs.getD X.emptyEvent))
      config.hashFieldMask
    let rowHashings ← config.columns.mapM buildRowsHashing
    return ⟨matchers, rowHashings, config.randomSeed,
      config.columns.map (·.rows), config.passThroughNonMatches⟩

/-- `SparseUpdateMatrixImpl::Update`. -/
def update (updater : SparseUpdateMatrixImpl X) (event : X.Event) :
    Result X.Event := do
  let indexes ← selectFromMatrix X updater.matchers updater.rowHashings
    updater.randomSeed event
  if indexes.columnIndex = kNoMatchingIndex then
    if updater.passThroughNonMatches then return event
    else throw (invalidArgument "No column matching for event: ")
  else if indexes.columnIndex < 0 ∨
      updater.rows.length ≤ indexes.columnIndex then
    throw (internal "The returned column index is out of range.")
  else
    let rows ← elementAt updater.rows indexes.columnIndex
    mergeRow X rows indexes.rowIndex event

end SparseUpdateMatrixImpl

/-! ## Conditional merges -/

/-- Built conditions, with an update for each of them. -/
structure ConditionalMergeImpl where
  matcher : FieldFiltersMatcher X
  updates : List X.Event
  passThroughNonMatches : Bool

namespace ConditionalMergeImpl

variable {X}

/-- A node with its filter built. -/
def buildNode (node : ConditionalMergeNode X) :
    Result (X.FieldFilter × X.Event) :=
  match node.condition, node.update with
  | none, _ =>
    throw (invalidArgument "No condition in the node in ConditionalMerge: ")
  | some _, none =>
    throw (invalidArgument "No update in the node in ConditionalMerge: ")
  | some condition, some update => do
    let filter ← X.newFieldFilter condition
    return (filter, update)

/-- `ConditionalMergeImpl::Build`. -/
def build (config : ConditionalMerge X) : Result (ConditionalMergeImpl X) :=
  if config.nodes.length = 0 then
    throw (invalidArgument "No nodes in ConditionalMerge: ")
  else do
    let nodes ← config.nodes.mapM buildNode
    return ⟨⟨nodes.map Prod.fst⟩, nodes.map Prod.snd,
      config.passThroughNonMatches⟩

/-- `ConditionalMergeImpl::Update`. -/
def update (updater : ConditionalMergeImpl X) (event : X.Event) :
    Result X.Event :=
  let index := updater.matcher.getFirstMatch event
  if index = kNoMatchingIndex then
    if updater.passThroughNonMatches then return event
    else throw (invalidArgument "No node matching for event: ")
  else if index < 0 ∨ updater.updates.length ≤ index then
    throw (internal "The returned index is out of range.")
  else do
    let update ← elementAt updater.updates index
    return X.mergeEvent event update

end ConditionalMergeImpl

/-! ## Conditional assignments -/

/-- `Assign`: the target takes the value of the source if that is set. -/
def assign (type : CppType) (event : X.Event) (source target : X.FieldPath) :
    X.Event :=
  match X.getValueFromProto type event source with
  | some value => X.setValueToProto type event target value
  | none => event

/-- `GetAssignmentFunction`: the types that can be assigned. -/
def getAssignmentFunction :
    CppType → Result (X.Event → X.FieldPath → X.FieldPath → X.Event)
  | .int32 => return assign X .int32
  | .int64 => return assign X .int64
  | .uint32 => return assign X .uint32
  | .uint64 => return assign X .uint64
  | .bool => return assign X .bool
  | .enum => return assign X .enum
  | .string => return assign X .string
  | _ => throw
    (invalidArgument "Unsupported field type for ConditionalAssignment.")

/-- A source and a target, with the function for their type. -/
structure FieldAssignment where
  source : X.FieldPath
  target : X.FieldPath
  assign : X.Event → X.FieldPath → X.FieldPath → X.Event

/-- A built condition and the assignments that it guards. -/
structure ConditionalAssignmentImpl where
  condition : X.FieldFilter
  assignments : List (FieldAssignment X)

namespace ConditionalAssignmentImpl

variable {X}

/-- The assignment of two fields of one type. -/
def buildAssignment (config : Assignment) : Result (FieldAssignment X) :=
  match config.sourceField, config.targetField with
  | none, _ =>
    throw (invalidArgument ("All assignments must have source_field set in " ++
      "ConditionalAssignment: "))
  | some _, none =>
    throw (invalidArgument ("All assignments must have target_field set in " ++
      "ConditionalAssignment: "))
  | some sourceField, some targetField => do
    let source ← X.getFieldFromProto sourceField
    let target ← X.getFieldFromProto targetField
    if (X.fieldType source).cppType ≠ (X.fieldType target).cppType then
      throw (invalidArgument ("All assignments must have source_field and " ++
        "target_field being the same type in ConditionalAssignment: "))
    else
      let assign ← getAssignmentFunction X (X.fieldType source).cppType
      return ⟨source, target, assign⟩

/-- `ConditionalAssignmentImpl::Build`. -/
def build (config : ConditionalAssignment X) :
    Result (ConditionalAssignmentImpl X) :=
  match config.condition with
  | none =>
    throw (invalidArgument "Condition is not set in ConditionalAssignment: ")
  | some condition =>
    if config.assignments.length = 0 then
      throw (invalidArgument "No assignments in ConditionalAssignment: ")
    else do
      let condition ← X.newFieldFilter condition
      let assignments ← config.assignments.mapM buildAssignment
      return ⟨condition, assignments⟩

/-- The assignments are made in order, so that a later one can read what an
earlier one has written. -/
def update (updater : ConditionalAssignmentImpl X) (event : X.Event) :
    Result X.Event :=
  if X.isMatch updater.condition event then
    return updater.assignments.foldl
      (fun event assignment =>
        assignment.assign event assignment.source assignment.target)
      event
  else return event

end ConditionalAssignmentImpl

/-! ## Geometric shredders -/

/-- A built shredder, with both of its fields found. -/
structure GeometricShredderImpl where
  psi : Float32
  randomnessField : X.FieldPath
  targetField : X.FieldPath
  randomSeed : String

namespace GeometricShredderImpl

variable {X}

/-- `GeometricShredderImpl::Build`. -/
def build (config : GeometricShredder) : Result (GeometricShredderImpl X) :=
  if config.psi < 0.0 ∨ 1.0 < config.psi then
    throw (invalidArgument "Psi is not in [0, 1] in GeometricShredder: ")
  else do
    let randomnessField ← X.getFieldFromProto config.randomnessField
    if (X.fieldType randomnessField).cppType ≠ .uint64 then
      throw (invalidArgument
        "randomness_field type is not uint64 in GeometricShredder: ")
    else
      let targetField ← X.getFieldFromProto config.targetField
      if (X.fieldType targetField).cppType ≠ .uint64 then
        throw (invalidArgument
          "target_field type is not uint64 in GeometricShredder: ")
      else
        return ⟨config.psi, randomnessField, targetField, config.randomSeed⟩

variable (updater : GeometricShredderImpl X)

/-- `ShredHash`: zero when the value is not shredded, otherwise the number of
its part. -/
def shredHash (event : X.Event) : Result UInt64 :=
  if updater.psi == 0.0 then return 0
  else
    match X.getValueFromProto .uint64 event updater.randomnessField with
    | none => throw
      (invalidArgument "The randomness field is not set in the event.")
    | some randomnessValue =>
      -- Certain shredding unless the value is 0.
      if updater.psi == 1.0 then return randomnessValue
      else
        castToUInt64 (floor (expHash X (toString randomnessValue) /
          ofFloat32 (-X.logf updater.psi)))

/-- `GeometricShredderImpl::Update`. -/
def update (event : X.Event) : Result X.Event := do
  let shredHash ← updater.shredHash event
  if shredHash = 0 then return event
  else
    match X.getValueFromProto .uint64 event updater.targetField with
    | none =>
      throw (invalidArgument "The target field is not set in the event.")
    | some targetValue =>
      let shred := X.fingerprint (toString targetValue ++ "-shred-" ++
        toString shredHash ++ "-" ++ updater.randomSeed)
      return X.setValueToProto .uint64 event updater.targetField shred

end GeometricShredderImpl

end VirtualPeople.Cc
