import Columnar.DataType

/-!
# Refusals of a column

Why a column refuses an operation. **A refused operation changes nothing**, and the check comes
before the first write in each of them; so a refusal can be handed to whoever asked, with the column
as it was.

The cases are those that depend on the caller: a type, a source or a value that is stored in another
way, a row that does not exist, and a text that does not fit. The last one names what the text would
take, what is in use and what the budget is. Positions that the column itself keeps are never the
reason; if one of those is wrong, the operation is abandoned with a trap.
-/

namespace Columnar

/-- Why a column refuses an operation. -/
inductive ColumnError
  /-- Values of the declared type are not stored in such a column. -/
  | wrongType (column : Storage) (declared : DataType)
  /-- The value to be written is stored in another way. -/
  | wrongElement (column element : Storage)
  /-- The column to be copied from is stored in another way. -/
  | wrongSource (column source : Storage)
  /-- There is no such row. -/
  | indexOutOfRange (index size : Nat)
  /-- The text does not fit into what is left of the byte budget. -/
  | overBudget (required used budget : Nat)
  deriving DecidableEq, Repr

/-- The text of a refusal. -/
def ColumnError.message : ColumnError → String
  | wrongType column declared =>
    s!"Invalid logical type `{declared.name}({declared.storage.qualifiedName})` passed to " ++
      s!"creating a new array `{column.columnName}` that has `{column.qualifiedName}`"
  | wrongElement column element =>
    s!"Can not write element of `{element.qualifiedName}` into `ArrayImpl::{column.name}`"
  | wrongSource column source =>
    s!"Can not copy element of `ArrayImpl::{source.name}` into `ArrayImpl::{column.name}`"
  | indexOutOfRange index size =>
    s!"Index `{index}` is out of range, the array only has `{size}` elements"
  | overBudget required used budget =>
    s!"Writing `{required}` bytes exceeds the byte budget of the array. " ++
      s!"Used: `{used}`, budget: `{budget}`"

end Columnar
