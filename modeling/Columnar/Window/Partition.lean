import Columnar.Number.Double

/-!
# Partitions

The partition that is being processed, row by row. A frame starts at the first row of every peer
group, and its rows share the ranks found there.

The numbers are those of the current row: how many rows are known to follow, itself included, how
many of them are its peers, and the place of the row in the partition. How long the partition is may
be learnt bit by bit. **Learning of rows changes no number of a row that was processed**, and none
of the current frame either; a ratio whose denominator is the length of the partition is right once
the length is final, which is why a window that writes such ratios is not ready before.

`percentRank` and `cumeDist` are quotients in double precision, computed when their frame starts.
The first row of a partition of one row has percent rank zero, as there is nothing to divide by.

Two partitions are compared by `sameState`, their ratios as numbers and not by their bits: the two
zeros are the same state, and a ratio that is no number is in no state, not even its own. A ratio is
no number only in the frame of a partition without rows.
-/

namespace Columnar

/-- A partition in progress, at its current row. -/
structure Partition where
  /-- The number of rows known so far. -/
  length : Nat
  /-- The known rows from the current one on. -/
  remaining : Nat
  /-- The rows of the current frame from the current one on. -/
  peers : Nat
  /-- Whether no more rows can follow. -/
  isFinal : Bool
  rowNumber : Nat
  rank : Nat
  denseRank : Nat
  percentRank : Double
  cumeDist : Double
  deriving Repr

namespace Partition

/-- A partition of `length` rows, before its first frame. -/
def start (length : Nat) (isFinal : Bool) : Partition where
  length := length
  remaining := length
  peers := 0
  isFinal := isFinal
  rowNumber := 1
  rank := 0
  denseRank := 0
  percentRank := .zero
  cumeDist := .zero

variable (p : Partition)

/-- Start a frame of `peers` rows at the current row. -/
def newFrame (peers : Nat) : Partition :=
  { p with
    peers := peers
    rank := p.rowNumber
    denseRank := p.denseRank + 1
    percentRank := if 1 < p.length then .ratio (p.rowNumber - 1) (p.length - 1) else .zero
    cumeDist := .ratio (p.rowNumber + peers - 1) p.length }

/-- Go on to the next row. -/
def advance : Partition :=
  { p with
    remaining := p.remaining - 1
    peers := p.peers - 1
    rowNumber := p.rowNumber + 1 }

/-- Learn of more rows. -/
def extend (additional : Nat) (isFinal : Bool) : Partition :=
  { p with
    length := p.length + additional
    remaining := p.remaining + additional
    isFinal := isFinal }

/-- Whether every known row was processed. -/
def isDone : Bool := p.remaining == 0

/-- Whether every row of the current frame was processed. -/
def isFrameDone : Bool := p.peers == 0

/-- Whether two partitions are in the same state, their ratios compared as numbers. -/
def sameState (a b : Partition) : Bool :=
  a.length == b.length && a.remaining == b.remaining && a.peers == b.peers &&
    a.isFinal == b.isFinal && a.rowNumber == b.rowNumber && a.rank == b.rank &&
    a.denseRank == b.denseRank && a.percentRank.sameNumber b.percentRank &&
    a.cumeDist.sameNumber b.cumeDist

end Partition

end Columnar
