import Columnar.DataType
import Columnar.Number.Single

/-!
# Configuration of a key table

How many buckets a table starts with, when it doubles them and where it stops, and how its keys are
stored.

A table is only built from a configuration without a fault, so `fault?` is where the arithmetic of
the rest of the library comes from. Numbers of buckets and of slots in a segment are powers of two,
and **their bounds are part of what a sound configuration is**: with at most `largestSegment` slots
in a segment an index divides into two numbers of bits without loss, and with at most `mostBuckets`
buckets doubling them stays within a word. The faults are looked for in a fixed order, and the first
one found is the one reported.

## Buckets and thresholds

The number of buckets asked for need not be a power of two. It is rounded up to one, and never above
the largest number of buckets, which is one itself.

The load factor is a number in single precision, positive and finite, and the threshold is its exact
product with the number of buckets, rounded up. With a large factor there may be no word for it.
Then no number of entries reaches the threshold, exactly as for a table that can not double its
buckets any more, and `never` stands for both.
-/

namespace Columnar

/-- A key column of a table. -/
structure KeyColumn where
  name : String
  dataType : DataType
  deriving DecidableEq, Repr

/-- The configuration of a key table. -/
structure TableConfig where
  /-- The number of buckets asked for, which is rounded up to a power of two. -/
  initialCapacity : Nat := 1 <<< 16
  /-- The buckets are doubled when there are as many entries as this share of them. -/
  loadFactor : Single := .threeQuarters
  /-- The buckets are not doubled beyond this number. -/
  maxCapacity : Nat := 1 <<< 30
  /-- The number of keys stored together. -/
  segmentCapacity : Nat := 1 <<< 16
  /-- The share of one key in the byte budget of a segment's text columns. -/
  textBytesPerSlot : Nat := 50
  keyColumns : List KeyColumn
  deriving DecidableEq, Repr

/-- What is wrong with a configuration. -/
inductive ConfigError
  | loadFactor (value : Single)
  | zeroInitialCapacity
  | initialAboveMaximum (initial maximum : Nat)
  | maxCapacity (capacity : Nat)
  | segmentCapacity (capacity : Nat)
  | noKeyColumns
  deriving DecidableEq, Repr

namespace TableConfig

/-- The most buckets a table can have. -/
def mostBuckets : Nat := 1 <<< 30

/-- The most keys that can be stored together. -/
def largestSegment : Nat := 1 <<< 24

/-- A threshold that no number of entries reaches. -/
def never : Nat := UInt64.size - 1

/-- Whether a number is a power of two. -/
def isPowerOfTwo (n : Nat) : Bool := n == 1 <<< n.log2

/-- The least power of two that is not below `n`. -/
def ceilPowerOfTwo (n : Nat) : Nat := if n ≤ 1 then 1 else 1 <<< ((n - 1).log2 + 1)

variable (config : TableConfig)

/-- The types of the key columns. -/
def keyTypes : List DataType := config.keyColumns.map KeyColumn.dataType

/-- The first thing that is wrong with a configuration. -/
def fault? : Option ConfigError :=
  if !config.loadFactor.isPositive then some (.loadFactor config.loadFactor)
  else if !(isPowerOfTwo config.maxCapacity && config.maxCapacity ≤ mostBuckets) then
    some (.maxCapacity config.maxCapacity)
  else if config.initialCapacity = 0 then some .zeroInitialCapacity
  else if config.maxCapacity < config.initialCapacity then
    some (.initialAboveMaximum config.initialCapacity config.maxCapacity)
  else if !(isPowerOfTwo config.segmentCapacity && config.segmentCapacity ≤ largestSegment) then
    some (.segmentCapacity config.segmentCapacity)
  else if config.keyColumns.isEmpty then some .noKeyColumns
  else none

/-- The number of buckets that a table starts with. -/
def initialBuckets : Nat := min (ceilPowerOfTwo config.initialCapacity) config.maxCapacity

/-- The number of entries at which `buckets` buckets are doubled. -/
def threshold (buckets : Nat) : Nat := min (config.loadFactor.ceilMul buckets) never

end TableConfig

/-- The text of a fault. -/
def ConfigError.message : ConfigError → String
  | loadFactor value => s!"Load factor `{value.write}` should be a positive number"
  | zeroInitialCapacity => "Initial capacity should be greater than 0"
  | initialAboveMaximum initial maximum =>
    s!"Initial capacity `{initial}` exceeds the maximum capacity `{maximum}`"
  | maxCapacity capacity =>
    s!"Maximum capacity `{capacity}` should be a power of two in range " ++
      s!"[1, {TableConfig.mostBuckets}]"
  | segmentCapacity capacity =>
    s!"Segment capacity `{capacity}` should be a power of two in range " ++
      s!"[1, {TableConfig.largestSegment}]"
  | noKeyColumns => "Hash table should have at least one key column"

end Columnar
