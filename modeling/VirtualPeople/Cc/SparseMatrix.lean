import VirtualPeople.Cc.InternalFaults
import VirtualPeople.Cc.TrailingZeros
import VirtualPeople.MatrixIndex

/-!
# Update matrices and sparse update matrices

A sparse update matrix holds the rows of a matrix column by column, and may
leave out trailing rows of probability zero.  Both are accepted together, and
they update an event alike unless a left out row has the negative zero for a
probability and outranks the kept ones.
-/

namespace VirtualPeople.Cc

open Binary64
open MatrixIndex (HasIntCounts passesSizeCheck_iff_of_lt)
open DistributedConsistentHashing (search TakesLeftOut search_append_of_taken
  search_append_of_not_taken hash_of_build)

variable {X : Externals}

/-! ## Representations of a matrix -/

/-- The column has the attributes, the first rows and their probabilities, and
the probabilities `leftOut` of the other rows compare equal to zero. -/
structure RepresentsColumn (config : UpdateMatrix X) (columnIndex : ℕ)
    (column : SparseUpdateMatrixColumn X) (leftOut : List Float32) :
    Prop where
  attrs : column.columnAttrs = config.columns[columnIndex]?
  rows : column.rows <+: config.rows
  aligned : column.rows.length + leftOut.length = config.rows.length
  probabilities : RowMajor.HoldsColumn config.probabilities
    config.columns.length columnIndex (column.probabilities ++ leftOut)
  zeros : ∀ probability ∈ leftOut, probability == 0.0

/-- Every column is represented, and the other fields are the same. -/
structure RepresentsMatrix (config : UpdateMatrix X)
    (sparse : SparseUpdateMatrix X) : Prop where
  columnCount : sparse.columns.length = config.columns.length
  columns : ∀ columnIndex column,
    sparse.columns[columnIndex]? = some column →
      ∃ leftOut, RepresentsColumn config columnIndex column leftOut
  hashFieldMask : sparse.hashFieldMask = config.hashFieldMask
  passThroughNonMatches :
    sparse.passThroughNonMatches = config.passThroughNonMatches
  randomSeed : sparse.randomSeed = config.randomSeed

/-- A column of the matrix has the probability of each of its rows. -/
theorem UpdateMatrix.isColumn_iff {config : UpdateMatrix X} {columnIndex : ℕ}
    {probabilities : List Float32} :
    config.IsColumn columnIndex probabilities ↔
      probabilities.length = config.rows.length ∧
        ∀ rowIndex < config.rows.length,
          config.probabilities[rowIndex * config.columns.length +
            columnIndex]? = probabilities[rowIndex]? := by
  unfold UpdateMatrix.IsColumn
  rw [List.forall₂_iff_get]
  simp only [List.length_range, List.get_eq_getElem, List.getElem_range]
  constructor
  · rintro ⟨sameLength, entries⟩
    refine ⟨sameLength.symm, fun rowIndex inside => ?_⟩
    have inside' : rowIndex < probabilities.length := by omega
    rw [entries rowIndex inside inside', List.getElem?_eq_getElem inside']
  · rintro ⟨sameLength, entries⟩
    refine ⟨sameLength.symm, fun rowIndex inside inside' => ?_⟩
    rw [entries rowIndex inside, List.getElem?_eq_getElem inside']

/-- A probability that equals zero is a zero of some sign. -/
theorem zero_of_beq {probability : Float32}
    (zero : (probability == 0.0) = true) :
    ∃ sign, (ofFloat32 probability).toModel.unpack = .zero sign := by
  change (probability.toModel.unpack.compare
    (0.0 : Float32).toModel.unpack == some .eq) = true at zero
  rw [show (0.0 : Float32).toModel.unpack = .zero .positive from rfl] at zero
  unfold ofFloat32
  cases unpacked : probability.toModel.unpack with
  | zero sign => exact ⟨sign, unpack_pack_zero sign⟩
  | notANumber => simp [unpacked, Float.Model.UnpackedFloat.compare] at zero
  | infinity sign =>
    cases sign <;>
      simp [unpacked, Float.Model.UnpackedFloat.compare] at zero
  | finite sign =>
    cases sign <;>
      simp [unpacked, Float.Model.UnpackedFloat.compare] at zero

namespace RepresentsColumn

variable {config : UpdateMatrix X} {columnIndex : ℕ}
  {column : SparseUpdateMatrixColumn X} {leftOut : List Float32}
  (represents : RepresentsColumn config columnIndex column leftOut)
include represents

/-- The probabilities that are left out are zeros. -/
theorem areZeros :
    DistributedConsistentHashing.AreZeros (leftOut.map ofFloat32) := by
  intro probability member
  obtain ⟨single, singleMem, rfl⟩ := List.mem_map.mp member
  exact zero_of_beq (represents.zeros single singleMem)

/-- One list of probabilities is left out of a column. -/
theorem leftOut_unique {leftOut' : List Float32}
    (represents' : RepresentsColumn config columnIndex column leftOut') :
    leftOut = leftOut' :=
  List.append_cancel_left
    (represents.probabilities.unique represents'.probabilities)

/-- The left out probabilities do not matter for the sum. -/
theorem normalizable_iff :
    Normalizable ((column.probabilities ++ leftOut).map ofFloat32) ↔
      Normalizable (column.probabilities.map ofFloat32) := by
  rw [List.map_append]
  exact DistributedConsistentHashing.normalizable_append_iff
    represents.areZeros

/-- A column of the matrix is the sparse one followed by what is left out. -/
theorem isColumn_iff
    (aligned : column.rows.length = column.probabilities.length)
    {probabilities : List Float32} :
    config.IsColumn columnIndex probabilities ↔
      probabilities = column.probabilities ++ leftOut := by
  have wholeLength :
      (column.probabilities ++ leftOut).length = config.rows.length := by
    rw [List.length_append, ← aligned, represents.aligned]
  rw [UpdateMatrix.isColumn_iff]
  constructor
  · rintro ⟨sameLength, entries⟩
    refine List.ext_getElem? fun rowIndex => ?_
    by_cases inside : rowIndex < config.rows.length
    · rw [← entries rowIndex inside, represents.probabilities]
    · rw [List.getElem?_eq_none (by omega), List.getElem?_eq_none (by omega)]
  · rintro rfl
    exact ⟨wholeLength, fun rowIndex _ => represents.probabilities rowIndex⟩

end RepresentsColumn

namespace RepresentsMatrix

variable {config : UpdateMatrix X} {sparse : SparseUpdateMatrix X}
  (represents : RepresentsMatrix config sparse)
include represents

/-- Every column of the matrix has a sparse one. -/
theorem exists_column {columnIndex : ℕ}
    (columnMem : columnIndex < config.columns.length) :
    ∃ column leftOut, sparse.columns[columnIndex]? = some column ∧
      RepresentsColumn config columnIndex column leftOut := by
  have inside : columnIndex < sparse.columns.length := by
    rwa [represents.columnCount]
  have columnAt := List.getElem?_eq_getElem inside
  obtain ⟨leftOut, representsColumn⟩ := represents.columns _ _ columnAt
  exact ⟨_, leftOut, columnAt, representsColumn⟩

/-- A matrix without columns has no sparse ones. -/
theorem columns_eq_nil_iff : sparse.columns = [] ↔ config.columns = [] := by
  rw [← List.length_eq_zero_iff, represents.columnCount,
    List.length_eq_zero_iff]

/-- The sparse columns have the attributes of the columns. -/
theorem attrs_eq : sparse.attrs = config.columns := by
  unfold SparseUpdateMatrix.attrs
  refine List.ext_getElem ?_ fun columnIndex inside inside' => ?_
  · rw [List.length_map, represents.columnCount]
  · obtain ⟨column, leftOut, columnAt, representsColumn⟩ :=
      represents.exists_column inside'
    have attrs := representsColumn.attrs
    rw [List.getElem?_eq_getElem inside'] at attrs
    rw [List.getElem_map, (List.getElem?_eq_some_iff.mp columnAt).2, attrs]
    rfl

variable (counts : HasIntCounts config)
  (small : config.rows.length * config.columns.length < 2 ^ 31)
include counts small

/-- A sparse column passes when the matrix does. -/
theorem column_passes {columnIndex : ℕ} {column : SparseUpdateMatrixColumn X}
    (columnAt : sparse.columns[columnIndex]? = some column)
    (passes : config.Passes) : column.Passes := by
  obtain ⟨nonempty, -, sizeCheck, -, columnsPass⟩ := passes
  have size := (passesSizeCheck_iff_of_lt counts small).mp sizeCheck
  obtain ⟨leftOut, representsColumn⟩ := represents.columns _ _ columnAt
  have columnMem : columnIndex < config.columns.length := by
    rw [← represents.columnCount]
    exact (List.getElem?_eq_some_iff.mp columnAt).1
  have wholeLength := representsColumn.probabilities.length_eq columnMem size
  have aligned : column.rows.length = column.probabilities.length := by
    have := representsColumn.aligned
    rw [List.length_append] at wholeLength
    omega
  obtain ⟨probabilities, isColumn, normalizable⟩ :=
    columnsPass columnIndex columnMem
  rw [(representsColumn.isColumn_iff aligned).mp isColumn,
    representsColumn.normalizable_iff] at normalizable
  refine ⟨?_, ?_, aligned, normalizable⟩
  · rw [representsColumn.attrs, List.getElem?_eq_getElem columnMem]
    rfl
  · rintro noRows
    rw [noRows] at aligned
    rw [List.length_eq_zero_iff.mp aligned.symm] at normalizable
    exact normalizable.1 rfl

/-- The matrix passes when its sparse columns do. -/
theorem passes_of_columns (nonempty : config.columns ≠ [])
    (columnsPass : ColumnsPass X config.columns config.hashFieldMask)
    (passes : ∀ column ∈ sparse.columns, column.Passes) :
    config.Passes := by
  have columnsPos := List.length_pos_iff.mpr nonempty
  have columnPasses : ∀ columnIndex < config.columns.length,
      ∃ probabilities, config.IsColumn columnIndex probabilities ∧
        Normalizable (probabilities.map ofFloat32) ∧
        RowMajor.HoldsColumn config.probabilities config.columns.length
          columnIndex probabilities := by
    intro columnIndex columnMem
    obtain ⟨column, leftOut, columnAt, representsColumn⟩ :=
      represents.exists_column columnMem
    obtain ⟨-, -, aligned, normalizable⟩ :=
      passes column (List.mem_of_getElem? columnAt)
    exact ⟨_, (representsColumn.isColumn_iff aligned).mpr rfl,
      representsColumn.normalizable_iff.mpr normalizable,
      representsColumn.probabilities⟩
  have rowsPos : 0 < config.rows.length := by
    obtain ⟨column, leftOut, columnAt, representsColumn⟩ :=
      represents.exists_column columnsPos
    have columnRows :=
      (passes column (List.mem_of_getElem? columnAt)).2.1
    exact (List.length_pos_iff.mpr columnRows).trans_le
      representsColumn.rows.length_le
  refine ⟨List.length_pos_iff.mp rowsPos, nonempty, ?_, columnsPass, ?_⟩
  · refine (passesSizeCheck_iff_of_lt counts small).mpr
      (RowMajor.length_eq_of_columns rowsPos columnsPos ?_)
    intro columnIndex columnMem
    obtain ⟨probabilities, isColumn, -, holds⟩ :=
      columnPasses columnIndex columnMem
    exact ⟨probabilities, holds, (UpdateMatrix.isColumn_iff.mp isColumn).1⟩
  · intro columnIndex columnMem
    obtain ⟨probabilities, isColumn, normalizable, -⟩ :=
      columnPasses columnIndex columnMem
    exact ⟨probabilities, isColumn, normalizable⟩

/-- Both matrices are accepted together. -/
theorem succeeds_build_iff : Succeeds (UpdateMatrixImpl.build config) ↔
    Succeeds (SparseUpdateMatrixImpl.build sparse) := by
  rw [UpdateMatrixImpl.succeeds_build_iff,
    SparseUpdateMatrixImpl.succeeds_build_iff, represents.attrs_eq,
    represents.hashFieldMask]
  refine and_congr_left fun _ => ?_
  unfold SparseUpdateMatrix.Passes
  rw [represents.attrs_eq, represents.hashFieldMask, ne_eq,
    represents.columns_eq_nil_iff]
  constructor
  · intro passes
    refine ⟨passes.2.1, fun column member => ?_, passes.2.2.2.1⟩
    obtain ⟨columnIndex, columnAt⟩ := List.mem_iff_getElem?.mp member
    exact represents.column_passes counts small columnAt passes
  · rintro ⟨nonempty, passes, columnsPass⟩
    exact represents.passes_of_columns counts small nonempty columnsPass passes

end RepresentsMatrix

/-! ## Updates by both matrices -/

/-- The distribution of a column has the probabilities of its rows. -/
theorem UpdateMatrixImpl.columnDistribution_eq {config : UpdateMatrix X}
    {columnIndex : ℕ} {probabilities : List Float32}
    (isColumn : config.IsColumn columnIndex probabilities) :
    columnDistribution config columnIndex =
      .ok (enumerateChoices (probabilities.map ofFloat32)) := by
  unfold UpdateMatrix.IsColumn at isColumn
  unfold columnDistribution enumerateChoices
  rw [mapM_eq_ok_iff, List.forall₂_iff_get]
  rw [List.forall₂_iff_get] at isColumn
  obtain ⟨sameLength, entries⟩ := isColumn
  refine ⟨by simpa using sameLength, fun rowIndex inside inside' => ?_⟩
  have entry := entries rowIndex inside (by simpa using inside')
  rw [elementAt_eq_ok_iff.mpr entry]
  simp [bind, Except.bind, pure, Except.pure]

/-- A row of a prefix is merged as a row of the whole list. -/
theorem mergeRow_of_prefix {rows allRows : List X.Event}
    (isPrefix : rows <+: allRows) {rowIndex : ℤ}
    (isPosition : IsPosition rows.length rowIndex) (event : X.Event) :
    mergeRow X rows rowIndex event = mergeRow X allRows rowIndex event := by
  have ⟨nonneg, lt⟩ := isPosition
  obtain ⟨rest, rfl⟩ := isPrefix
  obtain ⟨row, rowAt, found⟩ := isPosition.elementAt_eq
  have allFound : elementAt (rows ++ rest) rowIndex = .ok row := by
    rw [← Int.toNat_of_nonneg nonneg, elementAt_eq_ok_iff,
      List.getElem?_append_left (by omega), rowAt]
  unfold mergeRow
  rw [if_neg (by omega), List.length_append, if_neg (by omega), found, allFound]

/-- The event goes to a column of which a left out row is taken for it:
`picked` is the choice of that row, and `kept` the one without the left out
rows. -/
def PicksLeftOut (config : UpdateMatrix X) (sparse : SparseUpdateMatrix X)
    (event : X.Event) (picked kept : DistributionChoice) : Prop :=
  ∃ columnIndex column leftOut,
    columnOf config.columns config.hashFieldMask event = some columnIndex ∧
    sparse.columns[columnIndex]? = some column ∧
    RepresentsColumn config columnIndex column leftOut ∧
    TakesLeftOut X (column.probabilities.map ofFloat32)
      (leftOut.map ofFloat32) (rowSeed config.randomSeed event) picked ∧
    kept = (search X
      (enumerateChoices (column.probabilities.map ofFloat32))
      (rowSeed config.randomSeed event)
      (enumerateChoices (column.probabilities.map ofFloat32))).1

namespace RepresentsMatrix

variable {config : UpdateMatrix X} {sparse : SparseUpdateMatrix X}
  (represents : RepresentsMatrix config sparse)
  {dense : UpdateMatrixImpl X} {updater : SparseUpdateMatrixImpl X}
  (denseBuilt : UpdateMatrixImpl.build config = .ok dense)
  (built : SparseUpdateMatrixImpl.build sparse = .ok updater)
  {event : X.Event}
include represents denseBuilt built

/-- Without a column for the event, both matrices do the same. -/
theorem update_eq_of_none
    (noColumn :
      columnOf config.columns config.hashFieldMask event = none) :
    dense.update event = updater.update event := by
  have sparseNoColumn :
      columnOf sparse.attrs sparse.hashFieldMask event = none := by
    rwa [represents.attrs_eq, represents.hashFieldMask]
  rw [UpdateMatrixImpl.update_of_none denseBuilt noColumn,
    SparseUpdateMatrixImpl.update_of_none built sparseNoColumn,
    represents.passThroughNonMatches]

/-- Both updates merge rows of the same matrix, the one found among all rows and
the other one among the kept rows. -/
theorem update_of_some {columnIndex : ℕ}
    {column : SparseUpdateMatrixColumn X} {leftOut : List Float32}
    (found :
      columnOf config.columns config.hashFieldMask event = some columnIndex)
    (columnAt : sparse.columns[columnIndex]? = some column)
    (representsColumn :
      RepresentsColumn config columnIndex column leftOut) :
    let kept := column.probabilities.map ofFloat32
    let all := kept ++ leftOut.map ofFloat32
    let randomSeed := rowSeed config.randomSeed event
    Normalizable kept ∧
      dense.update event = mergeRow X config.rows
        (search X (enumerateChoices all) randomSeed
          (enumerateChoices all)).1.choiceId event ∧
      updater.update event = mergeRow X config.rows
        (search X (enumerateChoices kept) randomSeed
          (enumerateChoices kept)).1.choiceId event := by
  intro kept all randomSeed
  have accepted := (SparseUpdateMatrixImpl.succeeds_build_iff sparse).mp
    ⟨updater, built⟩
  obtain ⟨-, -, aligned, normalizable⟩ :=
    accepted.1.2.1 column (List.mem_of_getElem? columnAt)
  refine ⟨normalizable, ?_, ?_⟩
  · obtain ⟨_, rowHashing, distributionEq, hashingBuilt, updateEq⟩ :=
      UpdateMatrixImpl.update_of_some denseBuilt found
    have isColumn := (representsColumn.isColumn_iff aligned).mpr rfl
    rw [UpdateMatrixImpl.columnDistribution_eq isColumn,
      List.map_append] at distributionEq
    rw [← Except.ok.inj distributionEq] at hashingBuilt
    rw [updateEq, hash_of_build hashingBuilt]
  · have sparseFound : columnOf sparse.attrs sparse.hashFieldMask event =
        some columnIndex := by
      rwa [represents.attrs_eq, represents.hashFieldMask]
    obtain ⟨column', rowHashing, columnAt', hashingBuilt, updateEq⟩ :=
      SparseUpdateMatrixImpl.update_of_some built sparseFound
    rw [columnAt, Option.some_inj] at columnAt'
    subst columnAt'
    have isPosition := SparseUpdateMatrixImpl.isPosition_of_buildRowsHashing
      aligned hashingBuilt (rowSeed sparse.randomSeed event)
    rw [updateEq, mergeRow_of_prefix representsColumn.rows isPosition,
      hash_of_build hashingBuilt,
      represents.randomSeed]

variable (log : LogNonpositive X)
include log

/-- Both matrices do the same when the rows they merge do. -/
theorem update_eq_iff : dense.update event = updater.update event ↔
    ∀ picked kept, PicksLeftOut config sparse event picked kept →
      mergeRow X config.rows picked.choiceId event =
        mergeRow X config.rows kept.choiceId event := by
  cases found : columnOf config.columns config.hashFieldMask event with
  | none =>
    refine iff_of_true (represents.update_eq_of_none denseBuilt built found) ?_
    rintro picked kept ⟨columnIndex, column, leftOut, found', -⟩
    rw [found] at found'
    contradiction
  | some columnIndex =>
    have columnMem : columnIndex < config.columns.length :=
      (List.findIdx?_eq_some_iff_getElem.mp found).1
    obtain ⟨column, leftOut, columnAt, representsColumn⟩ :=
      represents.exists_column columnMem
    obtain ⟨normalizable, denseUpdate, sparseUpdate⟩ :=
      represents.update_of_some denseBuilt built found columnAt representsColumn
    rw [denseUpdate, sparseUpdate]
    have zeros := representsColumn.areZeros
    constructor
    · rintro same picked kept ⟨columnIndex', column', leftOut', found',
        columnAt', represents', taken, rfl⟩
      rw [found, Option.some_inj] at found'
      subst found'
      rw [columnAt, Option.some_inj] at columnAt'
      subst columnAt'
      rw [represents'.leftOut_unique representsColumn] at taken
      rwa [search_append_of_taken zeros normalizable log taken] at same
    · intro alike
      by_cases taken :
        ∃ picked, TakesLeftOut X (column.probabilities.map ofFloat32)
          (leftOut.map ofFloat32) (rowSeed config.randomSeed event) picked
      · obtain ⟨picked, taken⟩ := taken
        rw [search_append_of_taken zeros normalizable log taken]
        exact alike picked _ ⟨columnIndex, column, leftOut, found, columnAt,
          representsColumn, taken, rfl⟩
      · push Not at taken
        rw [search_append_of_not_taken zeros normalizable log taken]

end RepresentsMatrix

/-- Both matrices are accepted together, and then an event is updated alike
unless a left out row is taken for it that merges differently. -/
theorem matrices_agree_iff (log : LogNonpositive X) {config : UpdateMatrix X}
    {sparse : SparseUpdateMatrix X} (counts : HasIntCounts config)
    (small : config.rows.length * config.columns.length < 2 ^ 31)
    (represents : RepresentsMatrix config sparse) :
    (Succeeds (UpdateMatrixImpl.build config) ↔
        Succeeds (SparseUpdateMatrixImpl.build sparse)) ∧
      ∀ dense updater, UpdateMatrixImpl.build config = .ok dense →
        SparseUpdateMatrixImpl.build sparse = .ok updater →
        ∀ event, dense.update event = updater.update event ↔
          ∀ picked kept, PicksLeftOut config sparse event picked kept →
            mergeRow X config.rows picked.choiceId event =
              mergeRow X config.rows kept.choiceId event := by
  refine ⟨represents.succeeds_build_iff counts small, ?_⟩
  intro dense updater denseBuilt built event
  exact represents.update_eq_iff denseBuilt built log

/-! ## Countries -/

/-- Externals for events that hold a country code. -/
def countryExternals (fingerprint : UInt64) : Externals :=
  { DistributedConsistentHashing.evenExternals fingerprint with
    EventFields := Option String
    FieldFilter := Option String
    emptyEventFields := none
    mergeEvent := fun event row =>
      { event with others := row.others.or event.others }
    mergeMask := fun _ event => event
    serializePartialAsString := fun _ => ByteArray.empty
    printToString := fun _ => ""
    newFieldFilter := fun _ => .ok none
    newFieldFilterFromEvent := fun column => .ok column.others
    isMatch := fun filter event => filter = event.others
    getValueFromProto := fun _ _ _ => none
    setValueToProto := fun _ event _ _ => event }

/-- An event with a country code. -/
def countryEvent (code : String) : (countryExternals (2 ^ 63)).Event :=
  { (countryExternals (2 ^ 63)).emptyEvent with others := some code }

/-- One column with two rows, the first one certain. -/
def countryMatrix (probability : Float32) :
    UpdateMatrix (countryExternals (2 ^ 63)) where
  columns := [countryEvent "COUNTRY_1"]
  rows := [countryEvent "UPDATED_COUNTRY_1", countryEvent "UPDATED_COUNTRY_2"]
  probabilities := [1.0, probability]
  hashFieldMask := none
  passThroughNonMatches := false
  randomSeed := "TestSeed"

/-- The same column without the second row. -/
def sparseCountryMatrix : SparseUpdateMatrix (countryExternals (2 ^ 63)) where
  columns := [⟨some (countryEvent "COUNTRY_1"),
    [countryEvent "UPDATED_COUNTRY_1"], [1.0]⟩]
  hashFieldMask := none
  passThroughNonMatches := false
  randomSeed := "TestSeed"

theorem representsColumn_country {probability : Float32}
    (zero : (probability == 0.0) = true) :
    RepresentsColumn (countryMatrix probability) 0
      ⟨some (countryEvent "COUNTRY_1"), [countryEvent "UPDATED_COUNTRY_1"],
        [1.0]⟩ [probability] where
  attrs := rfl
  rows := ⟨[countryEvent "UPDATED_COUNTRY_2"], rfl⟩
  aligned := rfl
  probabilities rowIndex := by
    change _[rowIndex * 1 + 0]? = _
    rw [Nat.mul_one, Nat.add_zero]
    rfl
  zeros := List.forall_mem_singleton.mpr zero

theorem representsMatrix_country {probability : Float32}
    (zero : (probability == 0.0) = true) :
    RepresentsMatrix (countryMatrix probability) sparseCountryMatrix where
  columnCount := rfl
  columns columnIndex column columnAt := by
    obtain ⟨inside, rfl⟩ := List.getElem?_eq_some_iff.mp columnAt
    obtain rfl : columnIndex = 0 := Nat.lt_one_iff.mp inside
    exact ⟨_, representsColumn_country zero⟩
  hashFieldMask := rfl
  passThroughNonMatches := rfl
  randomSeed := rfl

set_option maxRecDepth 4096 in
theorem matrices_agree_iff_country :
    ∃ dense updater,
      UpdateMatrixImpl.build (countryMatrix 0.0) = .ok dense ∧
      SparseUpdateMatrixImpl.build sparseCountryMatrix = .ok updater ∧
      dense.update (countryEvent "COUNTRY_1") =
        updater.update (countryEvent "COUNTRY_1") := by
  have log : LogNonpositive (countryExternals (2 ^ 63)) :=
    DistributedConsistentHashing.logNonpositive_evenExternals (2 ^ 63)
  have counts : HasIntCounts (countryMatrix 0.0) :=
    ⟨by decide, by decide, by decide⟩
  have represents : RepresentsMatrix (countryMatrix 0.0) sparseCountryMatrix :=
    representsMatrix_country (by decide)
  obtain ⟨-, updates⟩ :=
    matrices_agree_iff log counts (by decide) represents
  refine ⟨_, _, rfl, rfl, (updates _ _ rfl rfl _).mpr ?_⟩
  rintro picked kept ⟨columnIndex, column, leftOut, found, columnAt,
    representsColumn, ⟨-, -, before, after, split, -, outranks, -⟩, -⟩
  obtain rfl : 0 = columnIndex := Option.some.inj found
  obtain rfl := Option.some.inj columnAt
  obtain rfl := (representsColumn_country (by decide)).leftOut_unique
    representsColumn
  have member : picked ∈ before ++ picked :: after := by simp
  rw [← split] at member
  obtain rfl := List.mem_singleton.mp member
  have positive : (ofFloat32 0.0).toModel.unpack = .zero .positive := rfl
  rw [IsNegativeZero, positive] at outranks
  injection outranks with signs
  contradiction

set_option maxRecDepth 4096 in
/-- With a negative zero the row that the sparse matrix leaves out is merged. -/
theorem matrices_disagree :
    RepresentsMatrix (countryMatrix (-0.0)) sparseCountryMatrix ∧
      HasIntCounts (countryMatrix (-0.0)) ∧
      (countryMatrix (-0.0)).rows.length * (countryMatrix (-0.0)).columns.length
        < 2 ^ 31 ∧
      ∃ dense updater,
        UpdateMatrixImpl.build (countryMatrix (-0.0)) = .ok dense ∧
        SparseUpdateMatrixImpl.build sparseCountryMatrix = .ok updater ∧
        dense.update (countryEvent "COUNTRY_1") =
          .ok (countryEvent "UPDATED_COUNTRY_2") ∧
        updater.update (countryEvent "COUNTRY_1") =
          .ok (countryEvent "UPDATED_COUNTRY_1") ∧
        countryEvent "UPDATED_COUNTRY_2" ≠
          countryEvent "UPDATED_COUNTRY_1" := by
  refine ⟨representsMatrix_country (by decide),
    ⟨by decide, by decide, by decide⟩, by decide, _, _, rfl, rfl, rfl, rfl,
    fun same => ?_⟩
  have sameCode : "UPDATED_COUNTRY_2" = "UPDATED_COUNTRY_1" :=
    Option.some.inj (congrArg LabelerEvent.others same)
  exact absurd sameCode (by decide)

end VirtualPeople.Cc
