import Columnar.Number.Format

/-!
# Shortest decimals

The decimal with the fewest digits that a binary format reads back as a given number; of several the
nearest one, and of two equally near ones the larger. It is how numbers of a format are written in
texts for people: a load factor in the message that refuses it, a double in a column that is shown.

## The interval of a number

A number `m * 2 ^ q` is the reading of every real strictly between its two midpoints with the
neighbouring numbers, and of the midpoints themselves iff `m` is even, since ties are read as the
even neighbour. The lower gap is half of the upper one just above a power of two, which is why
everything is counted in **quarters of the upper gap**: the number and both midpoints are then
natural numbers, and no step of the search rounds.

## The search

It goes down through the powers of ten. On the grid of multiples of one power only the two points
around the number can be the nearest ones of their kind, and the first grid with one of them inside
has the fewest digits. The number of grids is bounded by a count that is not reached in the formats
of this library, and the search ends by recursion on it.

No law about tables or windows reads these digits: a text only has to be the same for the same
number.
-/

namespace Columnar

/-- The number `digits * 10 ^ exponent`. -/
structure Decimal where
  digits : Nat
  exponent : Int
  deriving DecidableEq, Repr

/-- A positive number `significand * 2 ^ scale` of a binary format together with the width of the
gap to its lower neighbour, which is half of the upper gap just above a power of two. -/
structure Rounding where
  significand : Nat
  scale : Int
  halfGapBelow : Bool
  deriving DecidableEq, Repr

namespace Rounding

variable (r : Rounding)

/-- The number, and below the two ends of its interval, in quarters of the upper gap. -/
def quarters : Nat := 4 * r.significand

/-- The lower end of the interval. -/
def lower : Nat := r.quarters - if r.halfGapBelow then 1 else 2

/-- The upper end of the interval. -/
def upper : Nat := r.quarters + 2

/-- What a quarter is multiplied by to count in steps of `10 ^ g` over `divisor`. -/
def factor (g : Int) : Nat := Nat.pow 10 (-g).toNat <<< (r.scale - 2).toNat

/-- The common denominator that goes with `factor`. -/
def divisor (g : Int) : Nat := Nat.pow 10 g.toNat <<< (2 - r.scale).toNat

/-- Whether `n * 10 ^ g` reads back as the number. -/
def Holds (g : Int) (n : Nat) : Prop :=
  let low := r.lower * r.factor g
  let high := r.upper * r.factor g
  let point := n * r.divisor g
  if r.significand % 2 = 0 then low ≤ point ∧ point ≤ high else low < point ∧ point < high

instance (g : Int) (n : Nat) : Decidable (r.Holds g n) := by
  unfold Holds; infer_instance

/-- The point of the grid of multiples of `10 ^ g` that reads back as the number and is nearest to
it. -/
def gridPoint? (g : Int) : Option Nat :=
  let value := r.quarters * r.factor g
  let below := value / r.divisor g
  if r.Holds g below then
    if r.Holds g (below + 1) ∧ (2 * below + 1) * r.divisor g ≤ 2 * value then some (below + 1)
    else some below
  else if r.Holds g (below + 1) then some (below + 1)
  else none

/-- Search the grids downward from `10 ^ g`. -/
def search : Nat → Int → Decimal
  | 0, g => ⟨r.quarters * r.factor g / r.divisor g, g⟩
  | fuel + 1, g =>
    match r.gridPoint? g with
    | some n => ⟨n, g⟩
    | none => search fuel (g - 1)

/-- A power of ten above the number. -/
def topExponent : Int := (r.significand.log2 + r.scale + 1) * 30103 / 100000 + 1

/-- The shortest decimal. Twenty-four grids reach well below the seventeen digits that always
suffice in the formats of this library. -/
def shortest : Decimal := r.search 24 r.topExponent

end Rounding

/-- The rounding interval of a positive number of a format. -/
def BinaryFormat.rounding (f : BinaryFormat) (significand : Nat) (scale : Int) : Rounding where
  significand := significand
  scale := scale
  halfGapBelow := significand == 1 <<< f.fractionBits && decide (f.leastScale < scale)

end Columnar
