import Columnar.Block.Basic

/-!
# Operations on keys

A key table knows nothing about keys but what these operations tell it: the hash of the key in a row
of an input, whether it is the key in a slot, how to store it there, and how to write it out.

The operations come as a structure of functions rather than as a class, since one type of table is
used with many of them and their errors differ. **Nothing is assumed about them here.** A hash may
be the same for all keys, a comparison may abandon the operation, storing may fail for some keys
only. Laws about tables that need more of the operations say so: that equality is one and agrees
with the hashes, that storing a key leaves the other slots as they were.

Storing and writing out may fail half way; the block is then left as far as it was written, and the
result says so beside it.

Rows of a second layout can be looked up as well, which is what a join does with the rows of its
other side. Unless told otherwise they are read as rows of the first. They are only looked up, so
there is no second way to store a key.
-/

namespace Columnar

/-- Fold a digest to the hash of a key. The high half is mixed into the low bits, which select the
bucket. -/
def foldHash (digest : UInt64) : UInt32 := ((digest >>> 32) ^^^ digest).toUInt32

/-- The operations of a key table on keys, with errors `ε`. Storing and writing out may fail half
way; the block is then left as far as it was written. -/
structure KeyOps (ε : Type) where
  /-- The hash of the key in a row of an input. -/
  hash : (input : Block) → (row : Nat) → Checked UInt32
  /-- Whether the key in a row of an input is the key in a slot. -/
  agrees : (input : Block) → (row : Nat) → (keys : Block) → (slot : Nat) → Checked Bool
  /-- The hash of the key in a row to be looked up. -/
  probeHash : (probe : Block) → (row : Nat) → Checked UInt32 := hash
  /-- Whether the key in a row to be looked up is the key in a slot. -/
  probeAgrees : (probe : Block) → (row : Nat) → (keys : Block) → (slot : Nat) → Checked Bool :=
    agrees
  /-- Store the key in a row of an input into a slot. -/
  store : (input : Block) → (row : Nat) → (keys : Block) → (slot : Nat) →
    Checked (Block × Except ε Unit)
  /-- Write the key in a slot into a row of an output, unless the output is full. -/
  emit : (keys : Block) → (slot : Nat) → (output : Block) → (row : Nat) →
    Checked (Block × Except ε Bool)

end Columnar
