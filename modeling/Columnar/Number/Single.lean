import Columnar.Number.Double

/-!
# Singles

Floating-point numbers of 32 bits, which occur in one place: the load factor of a key table. What is
needed of them is rounding a double to one, telling whether it is a positive number, and the least
natural number that is not below its product with a count.

The product is exact (`ceilMul`). The threshold of a table may not depend on how a machine rounds,
since whether the buckets are doubled at one entry or at the next can be seen in the metrics. What
is no positive number counts as zero, which a configuration that passed its check never has.

Rounding keeps the sign and the upper part of the payload of a pattern that is no number, and makes
it quiet; such a load factor is refused with its text, which names no payload.
-/

namespace Columnar

/-- A floating-point number of 32 bits, by its bit pattern. -/
structure Single where
  bits : UInt32
  deriving DecidableEq, Repr, Inhabited

namespace Single

/-- The exact number of a single. -/
def read (s : Single) : Reading := BinaryFormat.single.read s.bits.toNat

/-- The single nearest to a double, a half going to the even neighbour. A pattern that is no number
keeps its sign and the upper part of its payload and becomes quiet. -/
def ofDouble (d : Double) : Single :=
  let sign := (d.bits >>> 63).toUInt32 <<< 31
  match BinaryFormat.double.read d.bits.toNat with
  | .nan => ⟨sign ||| (0x7fc00000 : UInt32) ||| ((d.bits >>> 29).toUInt32 &&& (0x3fffff : UInt32))⟩
  | .infinite _ => ⟨sign ||| (0x7f800000 : UInt32)⟩
  | .finite _ significand scale =>
    ⟨sign ||| (BinaryFormat.single.nearest (significand <<< scale.toNat)
      (1 <<< (-scale).toNat)).toUInt32⟩

/-- Three quarters. -/
def threeQuarters : Single := ⟨0x3f400000⟩

/-- Whether a single is a number above zero, infinity left out. -/
def isPositive (s : Single) : Bool :=
  match s.read with
  | .finite negative significand _ => !negative && significand != 0
  | _ => false

/-- The least natural number that is not below `n` times the single. What is no positive number
counts as zero. -/
def ceilMul (s : Single) (n : Nat) : Nat :=
  match s.read with
  | .finite false significand scale =>
    let den := 1 <<< (-scale).toNat
    (((n * significand) <<< scale.toNat) + (den - 1)) / den
  | _ => 0

/-- The text of a single is never given an exponent. -/
def write (s : Single) : String := DecimalStyle.plain.write .single s.bits.toNat

end Single

end Columnar
