/-!
# Binary interchange formats

A bit pattern of a binary floating-point format read as an exact number, and the pattern nearest to
an exact number. All of it is arithmetic on natural numbers, so nothing here depends on how a
machine computes with floats.

## Reading

A pattern is a sign, an exponent and a fraction. `BinaryFormat.read` gives the number as a
significand and a power of two, which is exact for every finite pattern; those below the smallest
exponent have no leading one, and those of the top exponent are infinite or no number.

## Rounding

`nearest` goes the other way, from a quotient of natural numbers to the nearest pattern, a half
going to the even neighbour. It scales the quotient so that it has as many bits as a significand,
rounds once, and puts the result together. **Patterns are in the order of the numbers**, so a
rounding that carries into the exponent needs no case of its own, and all that lies beyond the
largest number is infinite.
-/

namespace Columnar

/-- The widths of the two variable fields of a binary floating-point format. -/
structure BinaryFormat where
  exponentBits : Nat
  fractionBits : Nat
  deriving DecidableEq, Repr

/-- What a bit pattern stands for. A finite pattern is `significand * 2 ^ scale`. -/
inductive Reading
  | nan
  | infinite (negative : Bool)
  | finite (negative : Bool) (significand : Nat) (scale : Int)
  deriving DecidableEq, Repr

namespace BinaryFormat

/-- The format of 64 bits. -/
def double : BinaryFormat := ⟨11, 52⟩

/-- The format of 32 bits. -/
def single : BinaryFormat := ⟨8, 23⟩

variable (f : BinaryFormat)

/-- The exponent field of infinities and of patterns that are no number. -/
def topExponent : Nat := (1 <<< f.exponentBits) - 1

/-- The scale of the numbers next to zero. -/
def leastScale : Int := 2 - (1 <<< (f.exponentBits - 1) : Nat) - f.fractionBits

/-- The exact number of a bit pattern. -/
def read (bits : Nat) : Reading :=
  let fraction := bits % (1 <<< f.fractionBits)
  let exponent := (bits >>> f.fractionBits) % (1 <<< f.exponentBits)
  let negative := bits.testBit (f.fractionBits + f.exponentBits)
  if exponent = f.topExponent then
    if fraction = 0 then .infinite negative else .nan
  else if exponent = 0 then
    .finite negative fraction f.leastScale
  else
    .finite negative ((1 <<< f.fractionBits) + fraction) (f.leastScale + (exponent - 1 : Nat))

/-- A quotient rounded to the nearest natural number, a half to the even one. -/
def nearestEven (num den : Nat) : Nat :=
  let quotient := num / den
  let rest := 2 * (num % den)
  if den < rest ∨ rest = den ∧ quotient % 2 = 1 then quotient + 1 else quotient

/-- The exponent of the greatest power of two that a positive quotient reaches. -/
def log2Quotient (num den : Nat) : Int :=
  let estimate : Int := num.log2 - den.log2
  if den <<< estimate.toNat ≤ num <<< (-estimate).toNat then estimate else estimate - 1

/-- The pattern, without its sign, of the number nearest to a quotient. Patterns are in the order of
the numbers, so a rounding that carries into the exponent needs no case of its own, and all that
lies beyond the largest number is infinite. -/
def nearest (num den : Nat) : Nat :=
  if num = 0 then 0 else
    let scale := max (log2Quotient num den - f.fractionBits) f.leastScale
    let significand := nearestEven (num <<< (-scale).toNat) (den <<< scale.toNat)
    min (((scale - f.leastScale).toNat <<< f.fractionBits) + significand)
      (f.topExponent <<< f.fractionBits)

end BinaryFormat

end Columnar
