import Mathlib.Data.List.Basic
import Mathlib.Data.Nat.Basic
import Mathlib.Order.Basic

/-!
# Tables in row-major order

A table is a list of its rows, one after the other.  The entries of a column
are as many positions apart as there are columns, and a table has the size of
its shape exactly when its columns have the length of the shape.
-/

namespace RowMajor

variable {Entry : Type*} {table column column' : List Entry}
  {rowCount columnCount rowIndex columnIndex : ℕ}

/-- A position inside of the table is below its size. -/
theorem position_lt (rowLt : rowIndex < rowCount)
    (columnLt : columnIndex < columnCount) :
    rowIndex * columnCount + columnIndex < rowCount * columnCount :=
  calc
    rowIndex * columnCount + columnIndex
    _ < (rowIndex + 1) * columnCount := by
      rw [Nat.succ_mul]
      omega
    _ ≤ rowCount * columnCount := Nat.mul_le_mul_right _ rowLt

/-- A position is below the size of the table when its row is. -/
theorem position_lt_iff (columnLt : columnIndex < columnCount) :
    rowIndex * columnCount + columnIndex < rowCount * columnCount ↔
      rowIndex < rowCount := by
  constructor
  · intro inside
    exact Nat.lt_of_mul_lt_mul_right (Nat.lt_of_add_right_lt inside)
  · intro rowLt
    exact position_lt rowLt columnLt

/-- The column holds the entries of the table at its positions, and ends where
the table does. -/
def HoldsColumn (table : List Entry) (columnCount columnIndex : ℕ)
    (column : List Entry) : Prop :=
  ∀ rowIndex,
    table[rowIndex * columnCount + columnIndex]? = column[rowIndex]?

namespace HoldsColumn

variable (holds : HoldsColumn table columnCount columnIndex column)
include holds

/-- A table holds one column at an index. -/
theorem unique (holds' : HoldsColumn table columnCount columnIndex column') :
    column = column' := by
  ext1 rowIndex
  rw [← holds rowIndex, holds' rowIndex]

/-- The column has a row when the table has its position. -/
theorem lt_length_iff : rowIndex < column.length ↔
    rowIndex * columnCount + columnIndex < table.length := by
  rw [← not_le, ← not_le, ← List.getElem?_eq_none_iff, ← holds rowIndex,
    List.getElem?_eq_none_iff]

/-- A column of a full table has all of its rows. -/
theorem length_eq (columnLt : columnIndex < columnCount)
    (size : table.length = rowCount * columnCount) :
    column.length = rowCount := by
  refine eq_of_forall_lt_iff fun rowIndex => ?_
  rw [holds.lt_length_iff, size, position_lt_iff columnLt]

end HoldsColumn

/-- Columns of one length make up a table of that many rows. -/
theorem length_eq_of_columns (rowPos : 0 < rowCount)
    (columnPos : 0 < columnCount)
    (columns : ∀ columnIndex < columnCount, ∃ column : List Entry,
      HoldsColumn table columnCount columnIndex column ∧
        column.length = rowCount) :
    table.length = rowCount * columnCount := by
  obtain ⟨first, firstHolds, firstLength⟩ := columns 0 columnPos
  obtain ⟨last, lastHolds, lastLength⟩ :=
    columns (columnCount - 1) (by omega)
  have above : ¬rowCount * columnCount + 0 < table.length := by
    rw [← firstHolds.lt_length_iff]
    omega
  have below : (rowCount - 1) * columnCount + (columnCount - 1) <
      table.length := by
    rw [← lastHolds.lt_length_iff]
    omega
  obtain ⟨previous, rfl⟩ := Nat.exists_eq_add_one.mpr rowPos
  rw [Nat.succ_mul] at above ⊢
  rw [Nat.add_sub_cancel] at below
  omega

end RowMajor
