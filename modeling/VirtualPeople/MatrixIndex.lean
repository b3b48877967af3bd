import VirtualPeople.Kotlin.AttributesUpdater
import VirtualPeople.RowMajor

/-!
# Positions in the probabilities of an update matrix

Both languages compute the number of probabilities and the position of each one
with 32-bit products.  The size check says that the product of the counts, as a
32-bit number, is the number of probabilities, and the positions are inside of
the probabilities exactly when that product has not wrapped.
-/

namespace VirtualPeople.MatrixIndex

variable {X : Externals} (config : UpdateMatrix X)

/-- `row_index * column_count + column_index` -/
def position (rowIndex columnCount columnIndex : Int32) : Int32 :=
  rowIndex * columnCount + columnIndex

/-- The counts are those of repeated fields. -/
structure HasIntCounts : Prop where
  rows : config.rows.length < 2 ^ 31
  columns : config.columns.length < 2 ^ 31
  probabilities : config.probabilities.length < 2 ^ 31

/-- The check of both builds, with their 32-bit product. -/
def PassesSizeCheck : Prop :=
  Int32.ofNat config.rows.length * Int32.ofNat config.columns.length =
    Int32.ofNat config.probabilities.length

/-- The position that the build loops compute. -/
def loopPosition (rowIndex columnIndex : ℕ) : ℤ :=
  (position (Int32.ofNat rowIndex) (Int32.ofNat config.columns.length)
    (Int32.ofNat columnIndex)).toInt

/-- Every position of the build loops is one of a probability. -/
def ReadsInBounds : Prop :=
  ∀ rowIndex < config.rows.length, ∀ columnIndex < config.columns.length,
    0 ≤ loopPosition config rowIndex columnIndex ∧
      loopPosition config rowIndex columnIndex < config.probabilities.length

/-! ## Wrapping -/

variable {config} {rowIndex columnIndex : ℕ}

/-- A number below `2 ^ 31` is its own 32-bit representative. -/
theorem bmod_of_lt {n : ℕ} (small : n < 2 ^ 31) :
    (n : ℤ).bmod (2 ^ 32) = n := by
  apply Int.bmod_eq_of_le <;> omega

/-- A number from `2 ^ 31` on is represented by a negative one. -/
theorem bmod_of_le {n : ℕ} (large : 2 ^ 31 ≤ n) (below : n < 2 ^ 32) :
    (n : ℤ).bmod (2 ^ 32) = n - 2 ^ 32 := by
  rw [Int.bmod_def]
  split_ifs <;> omega

/-- The position of the loop is the exact one, narrowed to 32 bits. -/
theorem loopPosition_eq (counts : HasIntCounts config)
    (rowMem : rowIndex < config.rows.length)
    (columnMem : columnIndex < config.columns.length) :
    loopPosition config rowIndex columnIndex =
      ((rowIndex * config.columns.length + columnIndex : ℕ) : ℤ).bmod
        (2 ^ 32) := by
  rw [loopPosition, position, Int32.toInt_add, Int32.toInt_mul,
    Int32.toInt_ofNat_of_lt (rowMem.trans counts.rows),
    Int32.toInt_ofNat_of_lt counts.columns,
    Int32.toInt_ofNat_of_lt (columnMem.trans counts.columns),
    Int.bmod_add_bmod, Nat.cast_add, Nat.cast_mul]

/-- The size check compares the count with the narrowed product. -/
theorem passesSizeCheck_iff (counts : HasIntCounts config) :
    PassesSizeCheck config ↔
      ((config.rows.length * config.columns.length : ℕ) : ℤ).bmod (2 ^ 32) =
        config.probabilities.length := by
  rw [PassesSizeCheck, ← Int32.toInt_inj, Int32.toInt_mul,
    Int32.toInt_ofNat_of_lt counts.rows, Int32.toInt_ofNat_of_lt counts.columns,
    Int32.toInt_ofNat_of_lt counts.probabilities, Nat.cast_mul]

/-- For small tables the check compares the count with the product. -/
theorem passesSizeCheck_iff_of_lt (counts : HasIntCounts config)
    (small : config.rows.length * config.columns.length < 2 ^ 31) :
    PassesSizeCheck config ↔
      config.probabilities.length =
        config.rows.length * config.columns.length := by
  rw [passesSizeCheck_iff counts, bmod_of_lt small]
  omega

/-- Without wrapping the probabilities are the cells of the matrix. -/
theorem readsInBounds_of_le (counts : HasIntCounts config)
    (passes : PassesSizeCheck config)
    (small : config.rows.length * config.columns.length < 2 ^ 31) :
    ReadsInBounds config := by
  rw [passesSizeCheck_iff_of_lt counts small] at passes
  intro rowIndex rowMem columnIndex columnMem
  have inside := RowMajor.position_lt rowMem columnMem
  rw [loopPosition_eq counts rowMem columnMem, bmod_of_lt (inside.trans small)]
  omega

/-- With wrapping the loops come to the position `2 ^ 31`, which is negative. -/
theorem lt_of_readsInBounds (counts : HasIntCounts config)
    (passes : PassesSizeCheck config) (inBounds : ReadsInBounds config) :
    config.rows.length * config.columns.length < 2 ^ 31 := by
  by_contra! large
  have different : config.rows.length * config.columns.length ≠ 2 ^ 31 := by
    intro same
    rw [passesSizeCheck_iff counts, same] at passes
    have := bmod_of_le le_rfl (by decide : 2 ^ 31 < 2 ^ 32)
    omega
  have columnsPositive : 0 < config.columns.length := by
    by_contra! none
    rw [Nat.le_zero.mp none] at large
    omega
  have rowMem : 2 ^ 31 / config.columns.length < config.rows.length := by
    rw [Nat.div_lt_iff_lt_mul columnsPositive]
    omega
  have columnMem : 2 ^ 31 % config.columns.length < config.columns.length :=
    Nat.mod_lt _ columnsPositive
  have reached := (inBounds _ rowMem _ columnMem).1
  rw [loopPosition_eq counts rowMem columnMem, Nat.div_add_mod',
    bmod_of_le le_rfl (by decide)] at reached
  omega

/-- Once the size check has passed, every position of the loops is one of a
probability exactly when the product of the counts is a 32-bit number. -/
theorem readsInBounds_iff (config : UpdateMatrix X)
    (counts : HasIntCounts config) (passes : PassesSizeCheck config) :
    ReadsInBounds config ↔
      config.rows.length * config.columns.length < 2 ^ 31 :=
  ⟨lt_of_readsInBounds counts passes, readsInBounds_of_le counts passes⟩

/-- A matrix of any shape without events in it. -/
def emptyMatrix (rowCount columnCount : ℕ) (probabilities : List Float32) :
    UpdateMatrix .constant where
  columns := List.replicate columnCount Externals.constant.emptyEvent
  rows := List.replicate rowCount Externals.constant.emptyEvent
  probabilities := probabilities
  hashFieldMask := none
  passThroughNonMatches := false
  randomSeed := ""

theorem readsInBounds_iff_small :
    ReadsInBounds (emptyMatrix 2 1 [1.0, 0.0]) :=
  (readsInBounds_iff (emptyMatrix 2 1 [1.0, 0.0])
    ⟨by decide, by decide, by decide⟩ (by unfold PassesSizeCheck; decide)).mpr
      (by decide)

theorem length_emptyMatrix (rowCount columnCount : ℕ)
    (probabilities : List Float32) :
    (emptyMatrix rowCount columnCount probabilities).rows.length = rowCount ∧
      (emptyMatrix rowCount columnCount probabilities).columns.length =
        columnCount :=
  ⟨List.length_replicate, List.length_replicate⟩

/-- `65536 * 65536` wraps to zero, so that a matrix of this shape may do without
probabilities. -/
theorem not_readsInBounds :
    HasIntCounts (emptyMatrix 65536 65536 []) ∧
      PassesSizeCheck (emptyMatrix 65536 65536 []) ∧
      ¬ReadsInBounds (emptyMatrix 65536 65536 []) := by
  have ⟨rowsEq, columnsEq⟩ := length_emptyMatrix 65536 65536 []
  refine ⟨⟨?_, ?_, by decide⟩, ?_, fun inBounds => ?_⟩
  · rw [rowsEq]
    decide
  · rw [columnsEq]
    decide
  · rw [PassesSizeCheck, rowsEq, columnsEq]
    decide
  · have ⟨nonneg, below⟩ := inBounds 0 (by rw [rowsEq]; decide) 0
      (by rw [columnsEq]; decide)
    exact absurd (nonneg.trans_lt below) (by decide)

/-! ## The loops with 32-bit positions -/

open Cc (elementAt elementAt_of_outside DistributionChoice)
open Binary64 (ofFloat32)

/-- A read that succeeds is inside of the probabilities. -/
theorem inside_of_succeeds {rowIndex' : ℕ} {choice : DistributionChoice}
    (read : (do
      let probability ← elementAt config.probabilities (rowIndex' : ℤ)
      return ⟨rowIndex, ofFloat32 probability⟩ : Result DistributionChoice) =
        .ok choice) : rowIndex' < config.probabilities.length := by
  by_contra! outside
  rw [elementAt_of_outside (.inr (by omega))] at read
  contradiction

/-- The first position that wraps is past the end before it does, so that the
loop fails there with either kind of position. -/
theorem columnDistribution_eq (counts : HasIntCounts config)
    (columnMem : columnIndex < config.columns.length) :
    Cc.UpdateMatrixImpl.columnDistribution config columnIndex =
      (List.range config.rows.length).mapM fun rowIndex => do
        let probability ← elementAt config.probabilities
          (loopPosition config rowIndex columnIndex)
        return ⟨rowIndex, ofFloat32 probability⟩ := by
  refine mapM_range_congr fun rowIndex rowMem earlierRead => ?_
  rw [loopPosition_eq counts rowMem columnMem]
  by_cases small : rowIndex * config.columns.length + columnIndex < 2 ^ 31
  · rw [bmod_of_lt small]
  · have := counts.columns
    have := counts.probabilities
    obtain ⟨previous, rfl⟩ : ∃ previous, rowIndex = previous + 1 := by
      refine Nat.exists_eq_add_one.mpr (Nat.pos_of_ne_zero ?_)
      rintro rfl
      omega
    obtain ⟨choice, read⟩ := earlierRead previous (by omega)
    have inside := inside_of_succeeds read
    rw [Nat.succ_mul] at small ⊢
    rw [bmod_of_le (by omega) (by omega),
      elementAt_of_outside (.inr (by omega)),
      elementAt_of_outside (.inl (by omega))]

/-- Both languages read a column with the same loop. -/
theorem kotlin_columnDistribution :
    @Kotlin.UpdateMatrixImpl.columnDistribution X =
      Cc.UpdateMatrixImpl.columnDistribution :=
  rfl

end VirtualPeople.MatrixIndex
