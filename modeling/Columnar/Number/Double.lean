import Columnar.Decimal.Style

/-!
# Doubles

A double is its bit pattern, so that two of them are equal exactly if no operation can tell them
apart: `0.0` differs from `-0.0`, and a pattern that is no number equals itself. That is equality as
values of a column and of a key. Equality as numbers is `sameNumber`.

Every operation that rounds computes the exact result first and then takes the nearest double. So a
quotient is rounded once. The ratio of two counts is the quotient of the doubles nearest to them,
**which for large counts is not the double nearest to their quotient**.

What is here is what the library computes with doubles, and no more: reading decimals, turning
integers into doubles, and dividing. Sums of doubles do not occur.
-/

namespace Columnar

/-- A floating-point number of 64 bits, by its bit pattern. -/
structure Double where
  bits : UInt64
  deriving DecidableEq, Repr, Inhabited

namespace Double

/-- Positive zero. -/
def zero : Double := ⟨0⟩

/-- A pattern that is no number. -/
def nan : Double := ⟨0x7ff8000000000000⟩

/-- The exact number of a double. -/
def read (d : Double) : Reading := BinaryFormat.double.read d.bits.toNat

/-- The double of a sign and of the pattern of a magnitude. -/
def signed (negative : Bool) (magnitude : Nat) : Double :=
  ⟨(if negative then (0x8000000000000000 : UInt64) else 0) ||| magnitude.toUInt64⟩

/-- Infinity with a sign. -/
def infinity (negative : Bool) : Double := signed negative 0x7ff0000000000000

/-- The double nearest to a quotient, a half going to the even neighbour. -/
def ofQuotient (negative : Bool) (num den : Nat) : Double :=
  signed negative (BinaryFormat.double.nearest num den)

/-- The double nearest to a decimal. -/
def ofDecimal (negative : Bool) (d : Decimal) : Double :=
  ofQuotient negative (d.digits * Nat.pow 10 d.exponent.toNat) (Nat.pow 10 (-d.exponent).toNat)

/-- The double nearest to a count. -/
def ofNat (n : Nat) : Double := ofQuotient false n 1

/-- The double nearest to an integer. -/
def ofInt64 (i : Int64) : Double := ofQuotient (decide (i < 0)) i.toInt.natAbs 1

/-- The quotient. A number divided by zero is infinite, and zero or infinity divided by itself is no
number. -/
def div (a b : Double) : Double :=
  match a.read, b.read with
  | .finite na sa ea, .finite nb sb eb =>
    if sb ≠ 0 then
      ofQuotient (na != nb) (sa <<< (ea - eb).toNat) (sb <<< (eb - ea).toNat)
    else if sa = 0 then nan
    else infinity (na != nb)
  | .infinite na, .finite nb _ _ => infinity (na != nb)
  | .finite na _ _, .infinite nb => signed (na != nb) 0
  | _, _ => nan

/-- The quotient of two counts. -/
def ratio (a b : Nat) : Double := (ofNat a).div (ofNat b)

/-- Equality as numbers: the two zeros are equal, and what is no number equals nothing. -/
def sameNumber (a b : Double) : Bool :=
  match a.read, b.read with
  | .nan, _ => false
  | _, .nan => false
  | .finite _ 0 _, .finite _ 0 _ => true
  | _, _ => a == b

/-- The text of a double shows enough digits to read it back. -/
def write (d : Double) : String := DecimalStyle.scientific.write .double d.bits.toNat

end Double

end Columnar
