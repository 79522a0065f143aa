import Columnar.Column.Basic

/-!
# Blocks

A block is a list of columns with the number of leading rows that are published. A block that is
written into starts from `ofTypes`: its columns are full of missing values and its length is zero.
Whoever fills a row publishes it with `setLength`. A block without columns only carries a length.

The capacity of a block goes by its first column, and nothing in the type makes the columns equally
long. **Blocks made by `ofColumns` and `ofTypes` have columns of one size**; the laws about blocks
ask for this where they need it, since a caller may put a block together from other columns.

A block without columns has a capacity as well, which is its length. It can be read as a number of
rows without values, and is passed on as such, but its length can only be lowered. A block put
together from no columns has the length zero, and so can never publish a row.
-/

namespace Columnar

/-- Columns with a number of published rows. -/
structure Block where
  columns : List Column
  length : Nat
  deriving Inhabited

/-- Why a block refuses an operation. -/
inductive BlockError
  /-- The columns have different sizes. -/
  | unequalSizes (sizes : List Nat)
  /-- More rows were to be published than there are. -/
  | beyondCapacity (length capacity : Nat)
  deriving DecidableEq, Repr

/-- The text of a refusal. -/
def BlockError.message : BlockError → String
  | unequalSizes sizes =>
    "Arrays have different length. Lengths: [" ++
      ", ".intercalate (sizes.map fun size ↦ toString size) ++ "]"
  | beyondCapacity length capacity =>
    s!"Length `{length}` exceeds the capacity `{capacity}` of the data block"

namespace Block

/-- The block of columns of one size, all of whose rows are published. -/
def ofColumns (columns : List Column) : Except BlockError Block :=
  match columns with
  | [] => .ok ⟨[], 0⟩
  | first :: rest =>
    if rest.all fun c ↦ c.size == first.size then .ok ⟨columns, first.size⟩
    else .error (.unequalSizes (columns.map Column.size))

/-- A length without columns. -/
def lengthOnly (length : Nat) : Block := ⟨[], length⟩

/-- Columns of `capacity` missing values, none published. -/
def ofTypes (types : List DataType) (capacity : Nat) : Block :=
  ⟨types.map (Column.nulls · capacity), 0⟩

variable (b : Block)

/-- Whether no row is published. -/
def isEmpty : Bool := b.length == 0

/-- The number of rows that can be published, which goes by the first column. -/
def capacity : Nat :=
  match b.columns with
  | [] => b.length
  | first :: _ => first.size

/-- The number of columns. -/
def width : Nat := b.columns.length

/-- The declared types of the columns. -/
def types : List DataType := b.columns.map Column.dataType

/-- A column by its position. -/
def column (index : Nat) : Checked Column := Checked.elem b.columns index

/-- Read a row of a column. -/
def cell (column row : Nat) : Checked (Option Scalar) := do
  (← b.column column).get row

/-- Publish the first `length` rows. -/
def setLength (length : Nat) : Except BlockError Block :=
  if length ≤ b.capacity then .ok { b with length := length }
  else .error (.beyondCapacity length b.capacity)

end Block

end Columnar
