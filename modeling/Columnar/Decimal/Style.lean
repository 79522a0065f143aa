import Columnar.Decimal.Shortest

/-!
# Writing numbers

A `DecimalStyle` says how the shortest decimal of a number becomes a text: which numbers are written
positionally and whether a whole number keeps a fraction. There are two of them. Values of columns
are written in the `scientific` one, where a number can be told from an integer and very large and
very small numbers have an exponent; the load factor of a table is written in the `plain` one, which
has neither.

The digits come from the search for the shortest decimal and are not changed here. Writing only sets
the point, fills up with zeros, or splits off an exponent, so **what is written reads back as the
same number** if the digits do. The signs of zero and of the infinities are kept; a pattern that is
no number is written without its sign.
-/

namespace Columnar

/-- Decisions on the text of a number. The point of a number is the position of its decimal point
counted from the first significant digit: `0.25` has point `0` and `25.0` has point `2`. -/
structure DecimalStyle where
  /-- Numbers with a point below are written with an exponent. -/
  leastPoint : Option Int
  /-- Numbers with a point above are written with an exponent. -/
  greatestPoint : Option Int
  /-- A whole number written positionally ends in `.0`. -/
  wholeFraction : Bool
  deriving DecidableEq, Repr

namespace DecimalStyle

/-- Every significant digit is shown. Outside `0.0001` to `10 ^ 16` an exponent is written, and a
whole number is still seen to be a real one. -/
def scientific : DecimalStyle := ⟨some (-3), some 16, true⟩

/-- Never an exponent, and a whole number looks like an integer. -/
def plain : DecimalStyle := ⟨none, none, false⟩

variable (style : DecimalStyle)

/-- Whether a number with this point is written without an exponent. -/
def positional (point : Int) : Bool :=
  style.leastPoint.all (decide <| · ≤ point) && style.greatestPoint.all (decide <| point ≤ ·)

/-- The digits with a decimal point set at `point`. -/
def writePositional (digits : List Char) (point : Int) : List Char :=
  let whole := digits.take point.toNat
  let zeros := List.replicate (point.toNat - digits.length) '0'
  let fraction := List.replicate (-point).toNat '0' ++ digits.drop point.toNat
  (if whole.isEmpty then ['0'] else whole) ++ zeros ++
    if fraction.isEmpty then if style.wholeFraction then ['.', '0'] else []
    else '.' :: fraction

/-- The digits with the point after the first one and an exponent. -/
def writeExponent (digits : List Char) (point : Int) : List Char :=
  digits.take 1 ++ (if digits.length ≤ 1 then [] else '.' :: digits.drop 1) ++
    'e' :: (toString (point - 1)).toList

/-- The text of a decimal. -/
def writeDecimal (d : Decimal) : List Char :=
  let digits := Nat.toDigits 10 d.digits
  let point := digits.length + d.exponent
  if style.positional point then style.writePositional digits point else writeExponent digits point

/-- The text of a number of a binary format. -/
def write (f : BinaryFormat) (bits : Nat) : String :=
  match f.read bits with
  | .nan => "NaN"
  | .infinite negative => if negative then "-inf" else "inf"
  | .finite negative significand scale =>
    let magnitude := if significand = 0 then ⟨0, 0⟩ else (f.rounding significand scale).shortest
    String.ofList ((if negative then ['-'] else []) ++ style.writeDecimal magnitude)

end DecimalStyle

end Columnar
