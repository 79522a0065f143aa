import Columnar.Bitmap
import Columnar.Column.Error

/-!
# Columns of fixed width

Values of one size in an array, with a bitmap that says which of them are present. Behind a missing
value stands the default of the type, so the array of values is determined by the list of optional
values that the column holds. That is a matter of what operations write, not of the type: `push` and
`put` write the default where they write nothing else.

The column is the same for integers of both sizes and for doubles, with the values as a parameter.
Nothing is known of them but the default.

`put` overwrites a row without a look at whether it exists, and `get` reads with a check on both
arrays. Whoever overwrites has asked for the row before, in the module on columns of any storage.
-/

namespace Columnar

/-- A column whose values take the same room each. -/
structure FixedColumn (α : Type) where
  values : Array α
  validity : Bitmap
  deriving DecidableEq, Repr

namespace FixedColumn

variable {α : Type}

/-- The number of rows. -/
def size (c : FixedColumn α) : Nat := c.values.size

/-- The column without rows. -/
def empty : FixedColumn α := ⟨#[], .empty⟩

/-- Read a row. -/
def get (c : FixedColumn α) (index : Nat) : Checked (Option α) := do
  if ← c.validity.get index then
    return some (← Checked.entry c.values index)
  else
    return none

/-- The rows in order. -/
def toList (c : FixedColumn α) : List (Option α) :=
  List.zipWith (fun value present ↦ if present then some value else none)
    c.values.toList c.validity.toList

variable [Inhabited α]

/-- A column of `n` missing values. -/
def nulls (n : Nat) : FixedColumn α := ⟨Array.replicate n default, .replicate n false⟩

/-- A column of values that are all present. -/
def ofValues (values : List α) : FixedColumn α :=
  ⟨values.toArray, .replicate values.length true⟩

/-- Append a row. -/
def push (c : FixedColumn α) (value : Option α) : FixedColumn α :=
  ⟨c.values.push (value.getD default), c.validity.push value.isSome⟩

/-- The column of a list of optional values. -/
def ofList (values : List (Option α)) : FixedColumn α := values.foldl push empty

/-- Overwrite a row that exists. -/
def put (c : FixedColumn α) (index : Nat) (value : Option α) : FixedColumn α :=
  ⟨c.values.setIfInBounds index (value.getD default), c.validity.put index value.isSome⟩

end FixedColumn

end Columnar
