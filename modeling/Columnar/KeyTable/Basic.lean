import Columnar.KeyTable.Config
import Columnar.KeyTable.Segment

/-!
# Key tables

A key table gives every distinct key an index. The index is that of the slot that holds the key, and
stays the same until the table is cleared.

## Chains

Keys are found through chains: every bucket starts a chain of slots, and a key is on the chain that
the low bits of its hash select. A new key is linked behind the last slot of its chain, so that **a
chain lists its slots in the order in which their keys were put**. The search for a key that is not
there visits all of its chain, hence knows the last slot when the key is to be linked.

When the table has too many entries for its buckets it doubles them and links the slots anew, in
their order and with the last slot of every bucket kept beside the table. The keys stay where they
are, and the hash of a key is read from its slot and never computed again.

## Slots

Slots are handed out in order, and no slot twice. If storing a key fails, its slot is spent: it
stays vacant and on no chain, and the table can be used as before. The buckets are doubled before
the key is stored, so a put that fails may have doubled them all the same.

Keys can be written out in the order of their slots, in as many portions as the outputs need. The
position of the next slot to be written out is part of the table; puts in between are seen by the
portions that follow.

## Termination

A chain is followed for as many steps as indexes were handed out. A longer one has a cycle, and
following it ends in a trap and not in a result: that this never happens is a law about all the
tables that can be built (`Proofs.KeyTable.Sound`), and nothing in the definitions assumes it.
-/

namespace Columnar

/-- Why a key table refuses an operation. The cause is what the operations on keys reported. -/
inductive TableError (ε : Type)
  | invalidConfig (fault : ConfigError)
  | insertFailed (index : Nat) (cause : ε)
  | indexesExhausted (limit : Nat)
  | outputFailed (index : Nat) (cause : ε)
  deriving DecidableEq, Repr

/-- The text of a refusal, without its cause. -/
def TableError.message {ε : Type} : TableError ε → String
  | invalidConfig _ => "Invalid configuration of the hash table"
  | insertFailed index _ => s!"Failed to copy the key into slot `{index}`"
  | indexesExhausted limit => s!"Hash table can not hold more than `{limit}` slots"
  | outputFailed index _ => s!"Failed to write the key in slot `{index}` into the output"

/-- What became of a key that was put into a table. -/
inductive PutStatus
  /-- The key is new and was given the slot. -/
  | inserted (index : Nat)
  /-- The key was in the slot already. -/
  | present (index : Nat)
  deriving DecidableEq, Repr

/-- What a table has done since it was created. -/
structure TableMetrics where
  puts : Nat := 0
  /-- The slots that were visited on chains by puts. -/
  probes : Nat := 0
  resizes : Nat := 0
  deriving DecidableEq, Repr

/-- A table of distinct keys. -/
structure KeyTable (ε : Type) where
  config : TableConfig
  ops : KeyOps ε
  /-- Where the chain of each bucket starts. -/
  buckets : Array Link
  segments : Array Segment
  /-- The next index to be handed out. -/
  freeIndex : Nat
  entries : Nat
  /-- The buckets are doubled before an entry is added to so many. -/
  threshold : Nat
  /-- The next index to be written out. -/
  outputCursor : Nat
  /-- The number of keys written out. -/
  outputCount : Nat
  metrics : TableMetrics

namespace KeyTable

variable {ε : Type}

/-- A new segment of a table with this configuration. -/
def newSegment (config : TableConfig) : Segment :=
  .ofTypes config.keyTypes config.segmentCapacity config.textBytesPerSlot

/-- The table without keys. -/
def fresh (config : TableConfig) (ops : KeyOps ε) (metrics : TableMetrics) : KeyTable ε where
  config := config
  ops := ops
  buckets := Array.replicate config.initialBuckets .nil
  segments := #[newSegment config]
  freeIndex := 0
  entries := 0
  threshold := config.threshold config.initialBuckets
  outputCursor := 0
  outputCount := 0
  metrics := metrics

/-- Create a table. -/
def create (config : TableConfig) (ops : KeyOps ε) : Except (TableError ε) (KeyTable ε) :=
  match config.fault? with
  | some fault => .error (.invalidConfig fault)
  | none => .ok (fresh config ops {})

variable (t : KeyTable ε)

/-- The number of keys. -/
def size : Nat := t.entries

/-- Whether there are no keys. -/
def isEmpty : Bool := t.entries == 0

/-- How indexes are divided. -/
def layout : IndexLayout := .ofCapacity t.config.segmentCapacity

/-- The bucket of a hash. The number of buckets is a power of two. -/
def bucketOf (hash : UInt32) : Nat := hash.toNat &&& (t.buckets.size - 1)

/-! ### Slots and chains -/

/-- The segment of an index. -/
def segmentOf (index : Nat) : Checked Segment :=
  Checked.entry t.segments (t.layout.split index).segment

/-- The link of a slot. -/
def linkAt (index : Nat) : Checked Link := do
  (← t.segmentOf index).link (t.layout.split index).offset

/-- The hash of the key in a slot. -/
def hashAt (index : Nat) : Checked UInt32 := do
  (← t.segmentOf index).hashAt (t.layout.split index).offset

/-- Change the segment of an index, with a result. The change is told the place of the slot. -/
def changeSegment {α : Type} (index : Nat) (change : Nat → Segment → Checked (Segment × α)) :
    Checked (KeyTable ε × α) := do
  let address := t.layout.split index
  let (segments, result) ← Checked.change t.segments address.segment (change address.offset)
  return ({ t with segments := segments }, result)

/-- Point a slot to another one. -/
def setLink (index : Nat) (link : Link) : Checked (KeyTable ε) := do
  let (t, ()) ← t.changeSegment index fun offset segment ↦ do
    return (← segment.setLink offset link, ())
  return t

/-- The slots that a link leads to, if it does so in at most `fuel` steps. -/
def follow : Nat → Link → Checked (List Nat)
  | _, .nil => .ok []
  | _, .vacant => .error .position
  | 0, .next _ => .error .cycle
  | fuel + 1, .next index => do
    let rest ← follow fuel (← t.linkAt index)
    return index :: rest

/-- The slots on the chain of a bucket. There are no more of them than indexes handed out. -/
def chain (bucket : Nat) : Checked (List Nat) := do
  t.follow t.freeIndex (← Checked.entry t.buckets bucket)

/-! ### Finding keys -/

/-- The first of some slots that has the hash and passes the test, and the number of slots that were
visited. -/
def search (hash : UInt32) (test : Block → Nat → Checked Bool) :
    List Nat → Checked (Option Nat × Nat)
  | [] => return (none, 0)
  | index :: rest => do
    let segment ← t.segmentOf index
    let offset := (t.layout.split index).offset
    let sameHash := (← segment.hashAt offset) == hash
    if ← if sameHash then test segment.keys offset else pure false then
      return (some index, 1)
    else
      let (found, visited) ← search hash test rest
      return (found, visited + 1)

/-- Find a key by its hash and a test. -/
def find (hash : UInt32) (test : Block → Nat → Checked Bool) : Checked (Option Nat × Nat) := do
  t.search hash test (← t.chain (t.bucketOf hash))

/-- The index of the key in a row of an input. -/
def index? (input : Block) (row : Nat) : Checked (Option Nat) := do
  let hash ← t.ops.hash input row
  return (← t.find hash (t.ops.agrees input row)).1

/-- The index of the key in a row of the second layout. -/
def probeIndex? (probe : Block) (row : Nat) : Checked (Option Nat) := do
  let hash ← t.ops.probeHash probe row
  return (← t.find hash (t.ops.probeAgrees probe row)).1

/-! ### Growing -/

/-- The slots that hold keys, in the order of their indexes, with the hashes of the keys. -/
def occupied : List (Nat × UInt32) :=
  t.segments.toList.zipIdx.flatMap fun (segment, number) ↦
    segment.occupied.map fun (offset, hash) ↦ (t.layout.join number offset, hash)

/-- Link a slot behind the last slot of a bucket. A bucket without slots starts at it. -/
def linkBehind (tail? : Option Nat) (bucket index : Nat) : Checked (KeyTable ε) :=
  match tail? with
  | none => return { t with buckets := t.buckets.setIfInBounds bucket (.next index) }
  | some tail => t.setLink tail (.next index)

/-- Link slots anew, in their order. A slot ends its chain until the next one of its bucket is
linked behind it; the last slot of every bucket so far is kept beside the table. -/
def relinkFrom : List (Nat × UInt32) → Array (Option Nat) → KeyTable ε → Checked (KeyTable ε)
  | [], _, t => return t
  | (index, hash) :: slots, tails, t => do
    let bucket := t.bucketOf hash
    let t ← t.setLink index .nil
    let t ← t.linkBehind (← Checked.entry tails bucket) bucket index
    relinkFrom slots (tails.setIfInBounds bucket (some index)) t

/-- Put slots on the chains of their hashes, in their order. The buckets have none yet. -/
def relink (slots : List (Nat × UInt32)) : Checked (KeyTable ε) :=
  relinkFrom slots (Array.replicate t.buckets.size none) t

/-- Double the buckets and link the slots anew. At the largest number of buckets the table stays as
it is and never tries again. -/
def grow : Checked (KeyTable ε) :=
  if t.config.maxCapacity ≤ t.buckets.size then
    return { t with threshold := TableConfig.never }
  else
    let buckets := 2 * t.buckets.size
    let t := { t with
      buckets := Array.replicate buckets .nil
      threshold := t.config.threshold buckets
      metrics.resizes := t.metrics.resizes + 1 }
    t.relink t.occupied

/-- Double the buckets if there are too many entries for them. The last slot on the chain of a hash,
which is known before, is another one then. -/
def growIfFull (hash : UInt32) (tail? : Option Nat) : Checked (KeyTable ε × Option Nat) := do
  if t.threshold ≤ t.entries then
    let t ← t.grow
    return (t, (← t.chain (t.bucketOf hash)).getLast?)
  else
    return (t, tail?)

/-- Hand out the next index, with a new segment if it begins one. -/
def allocate : Except (TableError ε) (KeyTable ε × Nat) :=
  if t.freeIndex ≤ IndexLayout.maxIndex then
    let index := t.freeIndex
    let segments :=
      if (t.layout.split index).segment = t.segments.size then
        t.segments.push (newSegment t.config)
      else t.segments
    .ok ({ t with segments := segments, freeIndex := index + 1 }, index)
  else .error (.indexesExhausted (IndexLayout.maxIndex + 1))

/-! ### Adding keys -/

/-- Store the key in a row of an input into a new slot and link the slot behind the last one on the
chain of its hash. -/
def insert (index : Nat) (hash : UInt32) (tail? : Option Nat) (input : Block) (row : Nat) :
    Checked (KeyTable ε × Except (TableError ε) PutStatus) := do
  let ops := t.ops
  let (t, result) ← t.changeSegment index fun offset segment ↦
    segment.insert ops input row offset hash
  match result with
  | .error cause => return (t, .error (.insertFailed index cause))
  | .ok () => do
    let t ← t.linkBehind tail? (t.bucketOf hash) index
    return ({ t with entries := t.entries + 1 }, .ok (.inserted index))

/-- Put the key in a row of an input into the table unless it is there. If the key can not be stored
its slot is spent, and the table can be used as before. -/
def put (input : Block) (row : Nat) :
    Checked (KeyTable ε × Except (TableError ε) PutStatus) := do
  let hash ← t.ops.hash input row
  let slots ← t.chain (t.bucketOf hash)
  let (found, visited) ← t.search hash (t.ops.agrees input row) slots
  let t := { t with
    metrics.puts := t.metrics.puts + 1
    metrics.probes := t.metrics.probes + visited }
  match found with
  | some index => return (t, .ok (.present index))
  | none =>
    match t.allocate with
    | .error refusal => return (t, .error refusal)
    | .ok (t, index) => do
      -- the search has visited all slots on the chain, the last one included
      let (t, tail?) ← t.growIfFull hash slots.getLast?
      t.insert index hash tail? input row

/-! ### Writing keys out -/

/-- Write the keys of the next `count` indexes out, from a row of the output on. -/
def outputNext : Nat → KeyTable ε → Block → Nat →
    Checked (KeyTable ε × Block × Except (TableError ε) Bool)
  | 0, t, output, _ => return (t, output, .ok true)
  | count + 1, t, output, row => do
    let index := t.outputCursor
    let segment ← t.segmentOf index
    let offset := (t.layout.split index).offset
    if ← segment.isOccupied offset then
      let (output, result) ← t.ops.emit segment.keys offset output row
      match result with
      | .error cause => return (t, output, .error (.outputFailed index cause))
      | .ok false => return (t, output, .ok false)
      | .ok true =>
        outputNext count
          { t with outputCursor := index + 1, outputCount := t.outputCount + 1 } output (row + 1)
    else
      outputNext count { t with outputCursor := index + 1 } output row

/-- Write the keys that were not yet written out behind the rows of an output. The answer is `false`
if the output is full; the next call goes on with the key that did not fit. -/
def outputAll (output : Block) : Checked (KeyTable ε × Block × Except (TableError ε) Bool) :=
  outputNext (t.freeIndex - t.outputCursor) t output output.length

/-- Write the keys out from the first one again. -/
def resetOutput : KeyTable ε := { t with outputCursor := 0, outputCount := 0 }

/-- Remove every key and the segments that held them, and start over with as few buckets as a new
table. Only the metrics remain. -/
def clear : KeyTable ε :=
  resetOutput { t with
    buckets := Array.replicate t.config.initialBuckets .nil
    segments := #[newSegment t.config]
    freeIndex := 0
    entries := 0
    threshold := t.config.threshold t.config.initialBuckets }

end KeyTable

end Columnar
