import Columnar.Column.Fixed
import Columnar.Column.Flags
import Columnar.Column.Text
import Columnar.Scalar

/-!
# Columns

A column is a list of optional values of one storage. Rows are appended with `push` and overwritten
with `set`; whoever owns a range of rows starts from `nulls` and overwrites them one by one.

There are five storages and three kinds of columns behind them. This module hides which is which: an
operation looks at the storage of the column and of the value, refuses what does not belong
together, and hands the rest on. The order of the checks is the same everywhere. First the storage
is compared, then the row is looked for, and last there has to be room (`refusal?`), so a value that
is wrong in two ways is always refused for the same one.

Copying a row is reading it in a source of the same storage and overwriting with what was read. It
may be abandoned where the source has no such row; **overwriting by itself never is**.

The declared type is read off the storage, and a byte limit is only heeded by columns of text.
-/

namespace Columnar

/-- A column of any storage. -/
inductive Column
  | boolean (column : FlagColumn)
  | int32 (column : FixedColumn Int32)
  | int64 (column : FixedColumn Int64)
  | double (column : FixedColumn Double)
  | text (column : TextColumn)

namespace Column

/-- How the values are stored. -/
def storage : Column → Storage
  | boolean _ => .boolean
  | int32 _ => .int32
  | int64 _ => .int64
  | double _ => .double
  | text _ => .text

/-- The declared type. -/
def dataType (c : Column) : DataType := c.storage.dataType

/-- A column of `n` missing values. -/
def nulls (t : DataType) (n : Nat) : Column :=
  match t with
  | .boolean => boolean (.nulls n)
  | .integer => int32 (.nulls n)
  | .bigInt => int64 (.nulls n)
  | .double => double (.nulls n)
  | .varchar => text (.nulls n)

/-- A column without rows. -/
def empty (t : DataType) : Column := nulls t 0

/-- The number of rows. -/
def size : Column → Nat
  | boolean c => c.size
  | int32 c => c.size
  | int64 c => c.size
  | double c => c.size
  | text c => c.size

/-- Whether there are no rows. -/
def isEmpty (c : Column) : Bool := c.size == 0

/-- Which rows are present. -/
def validity : Column → Bitmap
  | boolean c => c.validity
  | int32 c => c.validity
  | int64 c => c.validity
  | double c => c.validity
  | text c => c.validity

/-- Read a row. -/
def get (c : Column) (index : Nat) : Checked (Option Scalar) :=
  match c with
  | boolean c => return (← c.get index).map .boolean
  | int32 c => return (← c.get index).map .int32
  | int64 c => return (← c.get index).map .int64
  | double c => return (← c.get index).map .double
  | text c => return (← c.get index).map .text

/-- The rows in order. -/
def toList : Column → List (Option Scalar)
  | boolean c => c.toList.map (Option.map .boolean)
  | int32 c => c.toList.map (Option.map .int32)
  | int64 c => c.toList.map (Option.map .int64)
  | double c => c.toList.map (Option.map .double)
  | text c => c.toList.map (Option.map .text)

/-- Read all rows in order. -/
def rows (c : Column) : Checked (List (Option Scalar)) := (List.range c.size).mapM c.get

/-- Append a row. -/
def push (c : Column) (value : Option Scalar) : Except ColumnError Column :=
  match c, value with
  | boolean c, none => .ok (boolean (c.push none))
  | boolean c, some (.boolean v) => .ok (boolean (c.push (some v)))
  | int32 c, none => .ok (int32 (c.push none))
  | int32 c, some (.int32 v) => .ok (int32 (c.push (some v)))
  | int64 c, none => .ok (int64 (c.push none))
  | int64 c, some (.int64 v) => .ok (int64 (c.push (some v)))
  | double c, none => .ok (double (c.push none))
  | double c, some (.double v) => .ok (double (c.push (some v)))
  | text c, none => (c.push none).map text
  | text c, some (.text v) => (c.push (some v)).map text
  | c, some v => .error (.wrongElement c.storage v.storage)

/-- Why a text does not fit into the byte budget, if so. Nothing else needs room. -/
def overflow? : Column → Option Scalar → Option ColumnError
  | text c, some (.text v) => c.overflow? (some v)
  | _, _ => none

/-- Why a row can not be overwritten with a value, if so. The storage of the value counts first,
then the row, then the room. -/
def refusal? (c : Column) (index : Nat) (value : Option Scalar) : Option ColumnError :=
  match value.filter fun v ↦ v.storage != c.storage with
  | some v => some (.wrongElement c.storage v.storage)
  | none => if index < c.size then c.overflow? value else some (.indexOutOfRange index c.size)

/-- Overwrite a row that exists with a value of the same storage, for which there is room. -/
def put (c : Column) (index : Nat) (value : Option Scalar) : Column :=
  match c, value with
  | boolean c, none => boolean (c.put index none)
  | boolean c, some (.boolean v) => boolean (c.put index (some v))
  | int32 c, none => int32 (c.put index none)
  | int32 c, some (.int32 v) => int32 (c.put index (some v))
  | int64 c, none => int64 (c.put index none)
  | int64 c, some (.int64 v) => int64 (c.put index (some v))
  | double c, none => double (c.put index none)
  | double c, some (.double v) => double (c.put index (some v))
  | text c, none => text (c.put index none)
  | text c, some (.text v) => text (c.put index (some v))
  | c, some _ => c

/-- Overwrite a row unless that is refused. A refusing column stays as it is. -/
def overwrite (c : Column) (index : Nat) (value : Option Scalar) :
    Column × Except ColumnError Unit :=
  match c.refusal? index value with
  | some refusal => (c, .error refusal)
  | none => (c.put index value, .ok ())

/-- Overwrite a row. -/
def set (c : Column) (index : Nat) (value : Option Scalar) : Except ColumnError Column :=
  match c.overwrite index value with
  | (_, .error refusal) => .error refusal
  | (c, .ok ()) => .ok c

/-- Read a row of a source to copy it into this column. A source of another storage is refused
before it is read. -/
def fetch (c : Column) (source : Column) (index : Nat) :
    Checked (Except ColumnError (Option Scalar)) :=
  if c.storage = source.storage then do
    return .ok (← source.get index)
  else return .error (.wrongSource c.storage source.storage)

/-- Overwrite a row with a row of another column. -/
def setFrom (c : Column) (index : Nat) (source : Column) (sourceIndex : Nat) :
    Checked (Except ColumnError Column) := do
  match ← c.fetch source sourceIndex with
  | .error refusal => return .error refusal
  | .ok value => return c.set index value

/-- Remove every row. -/
def clear : Column → Column
  | boolean _ => boolean .empty
  | int32 _ => int32 .empty
  | int64 _ => int64 .empty
  | double _ => double .empty
  | text c => text c.clear

/-- Set or lift the byte budget of a column of text. Other columns have none. -/
def setByteLimit (c : Column) (limit : Option Nat) : Column :=
  match c with
  | text c => text (c.setByteLimit limit)
  | c => c

/-- The column of a list of optional values, whose byte budget is that of the spans. -/
def ofList (t : DataType) (values : List (Option Scalar)) : Except ColumnError Column :=
  values.foldlM push (empty t)

/-- A column of `n` missing values for an asked storage, which has to be that of the type. -/
def nullsAs (s : Storage) (t : DataType) (n : Nat) : Except ColumnError Column :=
  if t.storage = s then .ok (nulls t n) else .error (.wrongType s t)

/-- The column declared with a type, which has to be stored as the column is. -/
def declare (c : Column) (t : DataType) : Except ColumnError Column :=
  if t.storage = c.storage then .ok c else .error (.wrongType c.storage t)

end Column

end Columnar
