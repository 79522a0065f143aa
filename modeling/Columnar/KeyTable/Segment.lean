import Columnar.KeyTable.KeyOps
import Columnar.KeyTable.Slot

/-!
# Segments

A segment stores a fixed number of keys in columns, and beside each key its hash and the link of its
slot. A slot is written once. It is vacant until then, and stays so if storing its key fails.

## Which slots hold keys

There is no bitmap of occupied slots: **a slot holds a key iff its link is not vacant**, for a key
that was stored ends a chain until the next one of its bucket comes. A key that is refused in one of
its columns has been copied into the columns before, and nothing takes these copies back. They are
behind a vacant link and are never read as part of a key, though text copied there stays counted
against the budget of its column.

The record of the last written slot bounds the reading of `occupied`. It is the largest offset that
was written rather than the number of keys, since there may be vacant slots in between.

## Text columns

The byte budget belongs to a column of a segment as a whole. A segment of `n` slots is given `n`
times the share of one key for every text column, so one long text may use what short ones leave.
-/

namespace Columnar

/-- A fixed number of slots for keys. -/
structure Segment where
  keys : Block
  links : Array Link
  hashes : Array UInt32
  /-- The last slot that was written. -/
  maxOccupied : Option Nat
  deriving Inhabited

namespace Segment

/-- A segment of vacant slots. The text columns of its keys share out a byte budget. -/
def ofTypes (types : List DataType) (capacity textBytesPerSlot : Nat) : Segment where
  keys :=
    let block := Block.ofTypes types capacity
    { block with columns := block.columns.map fun column ↦
        column.setByteLimit (some (capacity * textBytesPerSlot)) }
  links := Array.replicate capacity .vacant
  hashes := Array.replicate capacity 0
  maxOccupied := none

variable (s : Segment)

/-- The number of slots. -/
def capacity : Nat := s.links.size

/-- The link of a slot. -/
def link (offset : Nat) : Checked Link := Checked.entry s.links offset

/-- Whether a slot was written. -/
def isOccupied (offset : Nat) : Checked Bool := do
  return (← s.link offset) != .vacant

/-- The hash of the key in a slot. -/
def hashAt (offset : Nat) : Checked UInt32 := Checked.entry s.hashes offset

/-- Point a slot to the next one of its chain. -/
def setLink (offset : Nat) (link : Link) : Checked Segment :=
  if offset < s.links.size then .ok { s with links := s.links.setIfInBounds offset link }
  else .error .position

/-- The slots that were written, in order, with the hashes of their keys. -/
def occupied : List (Nat × UInt32) :=
  match s.maxOccupied with
  | none => []
  | some last =>
    (List.range (last + 1)).filterMap fun offset ↦
      match s.links[offset]?, s.hashes[offset]? with
      | some link, some hash => if link = .vacant then none else some (offset, hash)
      | _, _ => none

/-- Write the key in a row of an input into a vacant slot, which becomes the end of a chain. -/
def insert {ε : Type} (ops : KeyOps ε) (input : Block) (row offset : Nat) (hash : UInt32) :
    Checked (Segment × Except ε Unit) := do
  let (keys, result) ← ops.store input row s.keys offset
  let s := { s with keys := keys }
  match result with
  | .error cause => return (s, .error cause)
  | .ok () =>
    if offset < s.links.size ∧ offset < s.hashes.size then
      return ({ s with
        links := s.links.setIfInBounds offset .nil
        hashes := s.hashes.setIfInBounds offset hash
        maxOccupied := some (s.maxOccupied.elim offset (max · offset)) }, .ok ())
    else throw .position

end Segment

end Columnar
