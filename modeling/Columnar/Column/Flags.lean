import Columnar.Bitmap
import Columnar.Column.Error

/-!
# Columns of flags

Two bitmaps of one size: the flags, and which of them are present. Behind a missing flag stands
`false`, so the words of the first bitmap are determined by the list of optional flags and two
columns of one list are equal word by word.

Flags have a column of their own since they are packed. Its operations are those of columns of fixed
width with a bitmap in place of the array, and their lemmas go by the same names.
-/

namespace Columnar

/-- A column of optional flags. -/
structure FlagColumn where
  values : Bitmap
  validity : Bitmap
  deriving DecidableEq, Repr

namespace FlagColumn

/-- The number of rows. -/
def size (c : FlagColumn) : Nat := c.values.size

/-- The column without rows. -/
def empty : FlagColumn := ⟨.empty, .empty⟩

/-- A column of `n` missing flags. -/
def nulls (n : Nat) : FlagColumn := ⟨.replicate n false, .replicate n false⟩

/-- Read a row. -/
def get (c : FlagColumn) (index : Nat) : Checked (Option Bool) := do
  if ← c.validity.get index then
    return some (← c.values.get index)
  else
    return none

/-- The rows in order. -/
def toList (c : FlagColumn) : List (Option Bool) :=
  List.zipWith (fun value present ↦ if present then some value else none)
    c.values.toList c.validity.toList

/-- Append a row. -/
def push (c : FlagColumn) (value : Option Bool) : FlagColumn :=
  ⟨c.values.push (value.getD false), c.validity.push value.isSome⟩

/-- The column of a list of optional flags. -/
def ofList (values : List (Option Bool)) : FlagColumn := values.foldl push empty

/-- Overwrite a row that exists. -/
def put (c : FlagColumn) (index : Nat) (value : Option Bool) : FlagColumn :=
  ⟨c.values.put index (value.getD false), c.validity.put index value.isSome⟩

end FlagColumn

end Columnar
