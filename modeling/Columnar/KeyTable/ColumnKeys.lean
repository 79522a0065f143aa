import Columnar.KeyTable.Config
import Columnar.KeyTable.KeyOps

/-!
# Keys read from columns

The operations on keys for a table whose keys are read from columns of the input. The columns of a
segment are in the order of the key columns; which columns of the input they come from is said by
two lists, one for rows that are stored and one for rows that are only looked up.

## Equality

Two keys are equal if they are equal column by column, and nothing after the first column that
differs is read. Whether two missing values are equal depends on the use: they are for grouping, and
never match for a join. **A key with a missing value can be stored under either rule.** For a join
it is then equal to no key, itself included, and is given a new slot each time.

The hash of a key is computed from its values alone, in their order. Which digest is used is left to
the caller; one of the library's own is the default, and the laws about tables hold for any.

## Copying

A key is copied column by column, up to the first refusal. The values of the columns before it stay
where they were written, and text stays counted against the budget of its column. Writing a key out
is the same copy in the other direction. An output that is too narrow is refused before anything is
written; one without a row left is not refused, and the answer says that it is full.

The type of a column of the input is checked when the keys are described and not again for every
row. A column of another storage is refused by the column that it is copied into, before it is read.
-/

namespace Columnar

/-- How missing values in keys compare. -/
inductive NullEquality
  | equal
  | never
  deriving DecidableEq, Repr

/-- Why columns can not serve as keys. -/
inductive KeyLayoutError
  | countMismatch (indexes keyColumns : Nat)
  | indexOutOfRange (index columns : Nat)
  | typeMismatch (name : String) (index : Nat) (expected found : DataType)
  deriving DecidableEq, Repr

/-- The text of the reason. -/
def KeyLayoutError.message : KeyLayoutError → String
  | countMismatch indexes keyColumns =>
    s!"Number of key indexes `{indexes}` does not equal to the number of key columns " ++
      s!"`{keyColumns}`"
  | indexOutOfRange index columns =>
    s!"Key index `{index}` is out of range, the input only has `{columns}` columns"
  | typeMismatch name index expected found =>
    s!"Key column `{name}` has type `{expected.sqlName}`, however the input column " ++
      s!"`{index}` has type `{found.sqlName}`"

/-- Why a key could not be stored or written out. -/
inductive KeyError
  | narrowOutput (required found : Nat)
  | column (cause : ColumnError)
  | block (cause : BlockError)
  deriving DecidableEq, Repr

/-- The text of the reason. -/
def KeyError.message : KeyError → String
  | narrowOutput required found =>
    s!"Output has `{found}` columns, it can not hold `{required}` key columns"
  | column cause => cause.message
  | block cause => cause.message

/-- Which columns hold the keys, in the order of the key columns. -/
structure ColumnKeys where
  /-- The columns of the rows that are stored. -/
  build : List Nat
  /-- The columns of the rows that are looked up. -/
  probe : List Nat
  nulls : NullEquality
  /-- What the hash of a key is computed from. -/
  digest : List (Option Scalar) → UInt64

namespace ColumnKeys

/-- The first thing that keeps columns from serving as keys. -/
def checkColumns : List Nat → List DataType → List KeyColumn → Except KeyLayoutError Unit
  | index :: indexes, types, key :: keys =>
    match types[index]? with
    | none => .error (.indexOutOfRange index types.length)
    | some found =>
      if found = key.dataType then checkColumns indexes types keys
      else .error (.typeMismatch key.name index key.dataType found)
  | _, _, _ => .ok ()

/-- Check that there is one column of the right type for every key column. -/
def check (indexes : List Nat) (types : List DataType) (keys : List KeyColumn) :
    Except KeyLayoutError Unit :=
  if indexes.length = keys.length then checkColumns indexes types keys
  else .error (.countMismatch indexes.length keys.length)

/-- Keys read from the same columns of all rows. -/
def ofColumns (indexes : List Nat) (types : List DataType) (keys : List KeyColumn)
    (nulls : NullEquality) (digest : List (Option Scalar) → UInt64 := Scalar.digest) :
    Except KeyLayoutError ColumnKeys := do
  check indexes types keys
  return ⟨indexes, indexes, nulls, digest⟩

/-- Read the keys of rows to be looked up from other columns. -/
def withProbe (k : ColumnKeys) (indexes : List Nat) (types : List DataType)
    (keys : List KeyColumn) : Except KeyLayoutError ColumnKeys := do
  check indexes types keys
  return { k with probe := indexes }

/-- The key in a row. -/
def keyAt (indexes : List Nat) (input : Block) (row : Nat) : Checked (List (Option Scalar)) :=
  indexes.mapM fun index ↦ input.cell index row

/-- The hash of the key in a row. -/
def hashAt (k : ColumnKeys) (indexes : List Nat) (input : Block) (row : Nat) : Checked UInt32 := do
  return foldHash (k.digest (← keyAt indexes input row))

/-- Whether two values of a key column are equal. -/
def NullEquality.agree (nulls : NullEquality) : Option Scalar → Option Scalar → Bool
  | some a, some b => a == b
  | none, none => nulls == .equal
  | _, _ => false

/-- Whether the key in a row is the key in a slot. Nothing after the first column that differs is
read. -/
def agreeAt (nulls : NullEquality) (input : Block) (row slot : Nat) :
    List Nat → List Column → Checked Bool
  | index :: indexes, stored :: columns => do
    let here ← input.cell index row
    let there ← stored.get slot
    if NullEquality.agree nulls here there then agreeAt nulls input row slot indexes columns
    else return false
  | _, _ => return true

/-- Copy a row of source columns into a row of columns, from the first column on and up to the first
refusal. A source that does not exist only matters once its turn comes. -/
def copyRow (row : Nat) (sourceRow : Nat) :
    List Column → List (Checked Column) → Checked (List Column × Except ColumnError Unit)
  | target :: targets, source :: sources => do
    match ← target.fetch (← source) sourceRow with
    | .error refusal => return (target :: targets, .error refusal)
    | .ok value =>
      match target.overwrite row value with
      | (target, .error refusal) => return (target :: targets, .error refusal)
      | (target, .ok ()) => do
        let (targets, result) ← copyRow row sourceRow targets sources
        return (target :: targets, result)
  | targets, _ => return (targets, .ok ())

/-- Store the key in a row of an input into a slot. -/
def store (indexes : List Nat) (input : Block) (row : Nat) (keys : Block) (slot : Nat) :
    Checked (Block × Except KeyError Unit) := do
  let (columns, result) ← copyRow slot row keys.columns (indexes.map input.column)
  return ({ keys with columns := columns }, result.mapError .column)

/-- Write the key in a slot into a row of an output and publish the row. The output is full if it
has no such row. -/
def emit (keys : Block) (slot : Nat) (output : Block) (row : Nat) :
    Checked (Block × Except KeyError Bool) := do
  if output.width < keys.width then
    return (output, .error (.narrowOutput keys.width output.width))
  else if output.capacity ≤ row then
    return (output, .ok false)
  else
    let (columns, result) ← copyRow row slot output.columns (keys.columns.map .ok)
    let output := { output with columns := columns }
    match result with
    | .error refusal => return (output, .error (.column refusal))
    | .ok () =>
      if row < output.length then return (output, .ok true)
      else match output.setLength (row + 1) with
        | .error refusal => return (output, .error (.block refusal))
        | .ok output => return (output, .ok true)

/-- The operations of a key table on these keys. -/
def ops (k : ColumnKeys) : KeyOps KeyError where
  hash := k.hashAt k.build
  agrees input row keys slot := agreeAt k.nulls input row slot k.build keys.columns
  probeHash := k.hashAt k.probe
  probeAgrees probe row keys slot := agreeAt k.nulls probe row slot k.probe keys.columns
  store := store k.build
  emit := emit

end ColumnKeys

end Columnar
