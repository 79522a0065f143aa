import Columnar.Block.Basic

/-!
# Aggregates

What a window computes over a frame, as a tally that takes in one row after the other.

## Sums

Sums are exact: one that leaves the range of its type is an error at the row where it does, and the
tally is then as it was before the row. **It is the running sum that must stay in range**, in the
order in which the rows come. A frame whose sum is in range is refused all the same if the sum of
some of its first rows is not; which rows come first among peers is decided by the input.

An average is a sum and a count, and refused where the sum is. Its value is computed at the end, as
the quotient of two doubles, so that no rounding happens row by row.

## Missing values

They are left out by every aggregate of a column. The sum, the least, the greatest and the average
of no values at all are missing; the number of them is zero. The count of rows reads no column.

The columns of all aggregates but counts hold integers of either width. That they do is checked when
the frames are described.
-/

namespace Columnar

/-- An aggregate over a frame. -/
inductive Aggregate
  /-- The number of rows. -/
  | countStar
  /-- The number of values that are present. -/
  | count (column : Nat)
  | sum (column : Nat)
  | min (column : Nat)
  | max (column : Nat)
  | avg (column : Nat)
  deriving DecidableEq, Repr

namespace Aggregate

/-- The type of the values. -/
def dataType : Aggregate → DataType
  | avg _ => .double
  | _ => .bigInt

/-- The column that is read. -/
def column? : Aggregate → Option Nat
  | countStar => none
  | count column | sum column | min column | max column | avg column => some column

/-- Whether the column has to hold integers. -/
def needsInteger : Aggregate → Bool
  | countStar | count _ => false
  | sum _ | min _ | max _ | avg _ => true

/-- An aggregate as it is shown to a programmer. -/
def render : Aggregate → String
  | countStar => "CountStar"
  | count column => renderOf "Count" column
  | sum column => renderOf "Sum" column
  | min column => renderOf "Min" column
  | max column => renderOf "Max" column
  | avg column => renderOf "Avg" column
where
  /-- An aggregate of a column. -/
  renderOf (name : String) (column : Nat) : String :=
    name ++ " \x7b column: " ++ toString column ++ " \x7d"

end Aggregate

/-- The sum of two integers, if it is in range. -/
def addInRange? (a b : Int64) : Option Int64 :=
  let total := a.toInt + b.toInt
  if Int64.minValue.toInt ≤ total ∧ total ≤ Int64.maxValue.toInt then some (.ofInt total) else none

/-- An aggregate of the rows taken in so far. -/
inductive Tally
  | countStar (rows : Nat)
  | count (column rows : Nat)
  | sum (column : Nat) (total : Option Int64)
  | min (column : Nat) (least : Option Int64)
  | max (column : Nat) (greatest : Option Int64)
  | avg (column : Nat) (total : Int64) (rows : Nat)
  deriving DecidableEq, Repr

namespace Tally

/-- The tally of no rows. -/
def start : Aggregate → Tally
  | .countStar => countStar 0
  | .count column => count column 0
  | .sum column => sum column none
  | .min column => min column none
  | .max column => max column none
  | .avg column => avg column 0 0

/-- The integer in a row of a column. -/
def integerAt (input : Block) (column row : Nat) : Checked (Option Int64) := do
  return (← input.cell column row).bind Scalar.toInt64?

/-- Take in a row. The error is the column whose sum left the range; the tally is then as before. -/
def add (input : Block) (row : Nat) : Tally → Checked (Except Nat Tally)
  | countStar rows => return .ok (countStar (rows + 1))
  | count column rows => do
    return .ok (count column (if (← input.cell column row).isSome then rows + 1 else rows))
  | sum column total => do
    match ← integerAt input column row, total with
    | none, _ => return .ok (sum column total)
    | some value, none => return .ok (sum column (some value))
    | some value, some total =>
      match addInRange? total value with
      | some total => return .ok (sum column (some total))
      | none => return .error column
  | min column least => do
    match ← integerAt input column row with
    | none => return .ok (min column least)
    | some value => return .ok (min column (some (least.elim value (Min.min · value))))
  | max column greatest => do
    match ← integerAt input column row with
    | none => return .ok (max column greatest)
    | some value => return .ok (max column (some (greatest.elim value (Max.max · value))))
  | avg column total rows => do
    match ← integerAt input column row with
    | none => return .ok (avg column total rows)
    | some value =>
      match addInRange? total value with
      | some total => return .ok (avg column total (rows + 1))
      | none => return .error column

/-- The aggregate of the rows taken in. -/
def value : Tally → Option Scalar
  | countStar rows => some (.int64 (.ofNat rows))
  | count _ rows => some (.int64 (.ofNat rows))
  | sum _ total => total.map .int64
  | min _ least => least.map .int64
  | max _ greatest => greatest.map .int64
  | avg _ total rows =>
    if 0 < rows then some (.double ((Double.ofInt64 total).div (.ofNat rows))) else none

end Tally

end Columnar
