import Columnar.DataType
import Columnar.Number.Double

/-!
# Scalars

A single value of a column. A missing value is the absence of a scalar, so the values of a column
are `Option Scalar` and no scalar stands for nothing.

Values of different storage are never equal: the integer `1` of 32 bits is not that of 64, though
both widen to the same integer. Doubles are equal by their bits, so the two zeros differ and a
pattern that is no number equals itself. **This makes equality agree with `digest`**, which is
computed of the bits; were doubles equal as numbers, two equal keys could have different hashes.
Where numbers are to be compared as numbers, as for the state of a partition, that is said.

Keys are lists of such values, and their digest mixes in which of them are missing.
-/

namespace Columnar

/-- A value of a column. -/
inductive Scalar
  | boolean (value : Bool)
  | int32 (value : Int32)
  | int64 (value : Int64)
  | double (value : Double)
  | text (value : String)
  deriving DecidableEq, Repr

namespace Scalar

/-- How the value is stored. -/
def storage : Scalar → Storage
  | boolean _ => .boolean
  | int32 _ => .int32
  | int64 _ => .int64
  | double _ => .double
  | text _ => .text

/-- The value of an integer, widened. -/
def toInt64? : Scalar → Option Int64
  | int32 value => some value.toInt64
  | int64 value => some value
  | _ => none

/-- The value of a number, as a double. -/
def toDouble? : Scalar → Option Double
  | int32 value => some (.ofInt64 value.toInt64)
  | int64 value => some (.ofInt64 value)
  | double value => some value
  | _ => none

/-- The text of a value. -/
def write : Scalar → String
  | boolean value => if value then "true" else "false"
  | int32 value => toString value.toInt
  | int64 value => toString value.toInt
  | double value => value.write
  | text value => value

/-- Mix a word into a digest. For a given digest this is one to one in the word, and every bit of
the word reaches both halves of the result. -/
def mix (digest word : UInt64) : UInt64 :=
  let start : UInt64 := (digest ^^^ word) + (0x9e3779b97f4a7c15 : UInt64)
  let spread : UInt64 := (start ^^^ (start >>> 30)) * (0xbf58476d1ce4e5b9 : UInt64)
  let folded : UInt64 := (spread ^^^ (spread >>> 27)) * (0x94d049bb133111eb : UInt64)
  folded ^^^ (folded >>> 31)

/-- Mix a value, or its absence, into a digest. -/
def feed (digest : UInt64) : Option Scalar → UInt64
  | none => mix digest 0
  | some (boolean value) => mix (mix digest 1) (if value then 1 else 0)
  | some (int32 value) => mix (mix digest 2) value.toUInt32.toUInt64
  | some (int64 value) => mix (mix digest 3) value.toUInt64
  | some (double value) => mix (mix digest 4) value.bits
  | some (text value) =>
    value.toUTF8.foldl (fun d byte ↦ mix d byte.toUInt64) (mix (mix digest 5)
      value.utf8ByteSize.toUInt64)

/-- A digest of a list of values. -/
def digest (key : List (Option Scalar)) : UInt64 := key.foldl feed 0x243f6a8885a308d3

end Scalar

end Columnar
