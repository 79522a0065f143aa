import Columnar.KeyTable.Basic
import Columnar.Text.Plain

/-!
# Events of key tables

What a key table reports while it works, for those who watch it.

**Everything a table reports about an operation can be seen from the tables before and after it**:
that there is one segment more, that the number of buckets is another one, that the threshold is
gone though the buckets are the same. So the operations need not keep a record, and the laws about
them need not carry one; `putEvents` compares the counts of the two tables. The order of the events
of one put is the order in which the table does these things.

The description of a chain reads the links and hashes of the table as they are. It is meant for
tables that are looked at because something is wrong, and so may end in a trap where the links do.
-/

namespace Columnar

/-- What a key table reports. -/
inductive TableEvent
  | created (buckets threshold segmentCapacity : Nat)
  | segmentAllocated (segment freeIndex : Nat)
  | ceilingReached (buckets entries : Nat)
  | resized (buckets threshold entries : Nat)
  deriving DecidableEq, Repr

namespace TableEvent

/-- The level of an event. -/
def level (_ : TableEvent) : Level := .debug

/-- The text of an event. -/
def message : TableEvent → String
  | created buckets threshold segmentCapacity =>
    s!"Create ChainedHashTable with `{buckets}` buckets, threshold: `{threshold}`, " ++
      s!"segment capacity: `{segmentCapacity}`"
  | segmentAllocated segment freeIndex =>
    s!"ChainedHashTable allocates segment `{segment}`, free index: `{freeIndex}`"
  | ceilingReached buckets entries =>
    s!"ChainedHashTable reaches the maximum capacity `{buckets}` with `{entries}` entries, " ++
      "chains will grow without resize"
  | resized buckets threshold entries =>
    s!"ChainedHashTable resizes to `{buckets}` buckets, threshold: `{threshold}`, " ++
      s!"entries: `{entries}`"

end TableEvent

/-- The counts of a table that its events are about. -/
structure TableShape where
  segments : Nat
  buckets : Nat
  threshold : Nat
  freeIndex : Nat
  entries : Nat
  deriving DecidableEq, Repr

/-- What is reported about a put, by the table before and after it. A segment is allocated before
the buckets are doubled, and an entry added after. -/
def TableShape.putEvents (before after : TableShape) : List TableEvent :=
  (if before.segments < after.segments then
    [.segmentAllocated before.segments before.freeIndex] else []) ++
  if before.buckets < after.buckets then
    [.resized after.buckets after.threshold before.entries]
  else if before.threshold ≠ after.threshold then
    [.ceilingReached before.buckets before.entries]
  else []

namespace KeyTable

variable {ε : Type} (t : KeyTable ε)

/-- What is reported about the creation of a table. -/
def createdEvent : TableEvent :=
  .created t.buckets.size t.threshold t.config.segmentCapacity

/-- What of a table its events depend on. -/
def shape : TableShape where
  segments := t.segments.size
  buckets := t.buckets.size
  threshold := t.threshold
  freeIndex := t.freeIndex
  entries := t.entries

/-- The chain of a bucket with the hashes of its keys. -/
def describeChain (bucket : Nat) : Checked String := do
  let slots ← (← t.chain bucket).mapM fun index ↦ do
    let hash ← t.hashAt index
    return s!"{index}(hash: 0x" ++ Text.hex 8 hash.toNat ++ ")"
  return s!"Chain of bucket `{bucket}`: [" ++ " -> ".intercalate slots ++ "]"

/-- The outcome of a put with what is reported about it. -/
@[noinline]
def reported (before : TableShape)
    (outcome : Checked (KeyTable ε × Except (TableError ε) PutStatus)) :
    Checked (KeyTable ε × Except (TableError ε) PutStatus × List TableEvent) := do
  let (t, result) ← outcome
  return (t, result, before.putEvents t.shape)

/-- Put the key in a row of an input into the table, and report. -/
def putReported (input : Block) (row : Nat) :
    Checked (KeyTable ε × Except (TableError ε) PutStatus × List TableEvent) :=
  reported t.shape (t.put input row)

/-- Put the keys in rows of an input one after the other, going on after refusals, and report. -/
def putRows (input : Block) : List Nat → KeyTable ε →
    Checked (KeyTable ε × List (Except (TableError ε) PutStatus) × List TableEvent)
  | [], t => return (t, [], [])
  | row :: rows, t => do
    let (t, result, here) ← t.putReported input row
    let (t, results, later) ← putRows input rows t
    return (t, result :: results, here ++ later)

end KeyTable

end Columnar
