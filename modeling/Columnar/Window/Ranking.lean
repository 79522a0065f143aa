import Columnar.Scalar
import Columnar.Window.Partition

/-!
# Ranking functions

What a window writes about the place of a row in its partition. All five are read off the partition
at its current row; none of them looks at the rows.

The row number goes up from row to row. The two ranks are those of the first peer, with gaps and
without. The two ratios relate the peers to the whole partition, so their value depends on rows that
may come long after the peer group: a window that writes one of them is ready for a row only when
the end of its partition is seen.

Rankings are never missing. Counts are written as integers of 64 bits and ratios as doubles,
whatever the types of the columns of the input are.
-/

namespace Columnar

/-- A ranking function. -/
inductive Ranking
  | rowNumber
  | rank
  | denseRank
  | percentRank
  | cumeDist
  deriving DecidableEq, Repr

namespace Ranking

/-- The type of the values. -/
def dataType : Ranking → DataType
  | rowNumber | rank | denseRank => .bigInt
  | percentRank | cumeDist => .double

/-- Whether the value of a row depends on rows behind its peer group. -/
def needsWholePartition : Ranking → Bool
  | percentRank | cumeDist => true
  | rowNumber | rank | denseRank => false

/-- The value at the current row of a partition. -/
def value (p : Partition) : Ranking → Scalar
  | rowNumber => .int64 (.ofNat p.rowNumber)
  | rank => .int64 (.ofNat p.rank)
  | denseRank => .int64 (.ofNat p.denseRank)
  | percentRank => .double p.percentRank
  | cumeDist => .double p.cumeDist

/-- The name in a query. -/
def sqlName : Ranking → String
  | rowNumber => "ROW_NUMBER"
  | rank => "RANK"
  | denseRank => "DENSE_RANK"
  | percentRank => "PERCENT_RANK"
  | cumeDist => "CUME_DIST"

end Ranking

end Columnar
