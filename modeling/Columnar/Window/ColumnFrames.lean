import Columnar.Window.Aggregate
import Columnar.Window.Engine

/-!
# Frames read from columns

The operations on rows for a window whose partitions and order are given by columns of the input.

Two rows are in the same partition if they have equal values in the partition columns, and peers if
they have equal values in the order columns too. Missing values are equal to each other, and without
order columns all rows of a partition are peers. The order of the values themselves is never asked
for: **that the input is sorted is up to the caller**, and the engine sees no more of it than which
neighbours are equal.

A frame reaches from the start of the partition to the last peer of the current row. Since the next
frame of the partition contains this one, the aggregation is a list of tallies that goes on from
frame to frame and starts over with the partition.

Rows are taken in tally by tally, up to the first one that overflows. The tallies before it have
taken the row in; the engine forgets the partition then, and the next partition resets them all.
Values are written in the same way, so the output is left as far as it was written.
-/

namespace Columnar

/-- Why frames could not be described, or an aggregate not be computed or written. -/
inductive FrameError
  | columnOutOfRange (column columns : Nat)
  | notInteger (aggregate : Aggregate) (column : Nat) (found : DataType)
  | sumOverflow (column : Nat)
  | narrowOutput (required found : Nat)
  | output (cause : ColumnError)
  deriving DecidableEq, Repr

/-- The text of the reason, without its cause. -/
def FrameError.message : FrameError → String
  | columnOutOfRange column columns =>
    s!"Column `{column}` is out of range, the input only has `{columns}` columns"
  | notInteger aggregate column found =>
    s!"`{aggregate.render}` only accepts integer column, column `{column}` has type " ++
      s!"`{found.sqlName}`"
  | sumOverflow column => s!"Sum of column `{column}` overflows `i64`"
  | narrowOutput required found =>
    s!"Output has `{found}` columns, it can not hold `{required}` aggregations"
  | output _ => "Failed to write the aggregation result into output"

/-- Which columns make partitions and order, and what is computed over the frames. -/
structure ColumnFrames where
  partitionColumns : List Nat
  orderColumns : List Nat
  aggregates : List Aggregate
  deriving DecidableEq, Repr

namespace ColumnFrames

/-- Check that a column exists. -/
def checkColumn (types : List DataType) (column : Nat) : Except FrameError Unit :=
  if column < types.length then .ok () else .error (.columnOutOfRange column types.length)

/-- Check that an aggregate can be computed. -/
def checkAggregate (types : List DataType) (aggregate : Aggregate) : Except FrameError Unit :=
  match aggregate.column? with
  | none => .ok ()
  | some column =>
    match types[column]? with
    | none => .error (.columnOutOfRange column types.length)
    | some found =>
      if aggregate.needsInteger && !found.isInteger then
        .error (.notInteger aggregate column found)
      else .ok ()

/-- Describe the frames of inputs of some types. -/
def ofColumns (partitionColumns orderColumns : List Nat) (aggregates : List Aggregate)
    (types : List DataType) : Except FrameError ColumnFrames := do
  (partitionColumns ++ orderColumns).forM (checkColumn types)
  aggregates.forM (checkAggregate types)
  return ⟨partitionColumns, orderColumns, aggregates⟩

variable (f : ColumnFrames)

/-- The types of the aggregates. -/
def aggregateTypes : List DataType := f.aggregates.map Aggregate.dataType

/-- The tallies of no rows. -/
def start : List Tally := f.aggregates.map Tally.start

/-- Whether two rows have equal values in some columns. Nothing after the first difference is
read. -/
def sameValues (a : Block) (aRow : Nat) (b : Block) (bRow : Nat) : List Nat → Checked Bool
  | [] => return true
  | column :: columns => do
    let here ← a.cell column aRow
    let there ← b.cell column bRow
    if here == there then sameValues a aRow b bRow columns else return false

/-- Take a row into the tallies, from the first one on and up to the first that overflows. -/
def addRow (input : Block) (row : Nat) :
    List Tally → Checked (List Tally × Except FrameError Unit)
  | [] => return ([], .ok ())
  | tally :: tallies => do
    match ← tally.add input row with
    | .error column => return (tally :: tallies, .error (.sumOverflow column))
    | .ok tally => do
      let (tallies, result) ← addRow input row tallies
      return (tally :: tallies, result)

/-- Write values into a row of columns, from the first one on and up to the first refusal. -/
def writeRow (row : Nat) :
    List Column → List (Option Scalar) → List Column × Except ColumnError Unit
  | column :: columns, value :: values =>
    match column.overwrite row value with
    | (column, .error refusal) => (column :: columns, .error refusal)
    | (column, .ok ()) =>
      let (columns, result) := writeRow row columns values
      (column :: columns, result)
  | columns, _ => (columns, .ok ())

/-- Write the tallies into a row of an output. -/
def writeTallies (tallies : List Tally) (output : Block) (row : Nat) :
    Block × Except FrameError Unit :=
  if output.width < tallies.length then
    (output, .error (.narrowOutput tallies.length output.width))
  else
    let (columns, result) := writeRow row output.columns (tallies.map Tally.value)
    ({ output with columns := columns }, result.mapError .output)

/-- The operations of a window engine on these frames. -/
def ops : FrameOps (List Tally) FrameError where
  samePartition a aRow b bRow := sameValues a aRow b bRow f.partitionColumns
  peers a aRow b bRow := do
    if ← sameValues a aRow b bRow f.partitionColumns then
      sameValues a aRow b bRow f.orderColumns
    else return false
  aggregate tallies input row := addRow input row tallies
  write tallies output row :=
    let (output, result) := writeTallies tallies output row
    return (tallies, output, result)
  reset _ := (f.start, true)

end ColumnFrames

end Columnar
