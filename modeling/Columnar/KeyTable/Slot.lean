/-!
# Slots

A slot of a key table is addressed by a 32-bit index: the high bits count segments, the low bits
count slots within a segment.

## Indexes and words

An index is at most `maxIndex`. The two words above are not used for slots; a slot links to the next
slot of its chain by a word, and the two stand for the end of a chain and for a slot that was never
written. **A link is not a word here but says which of the three it is**, so that no slot can be
mistaken for an end. That the index of a slot is neither of the two words, so that links could be
kept as words and read back, is a law about layouts and not part of the type.

## Splitting and joining

Joining an address drops the bits that do not fit into 32, as a shift of machine words does. So
`join` has a result for any two numbers, and whether it is one that `split` leads back from depends
on the address. The functions are not restricted to addresses for which this holds; the laws about
them say for which it does.

A segment with a single slot has no low bits. The shift is zero then and so is the mask, and every
index is the number of a segment.
-/

namespace Columnar

/-- A slot by its segment and its place in it. -/
structure SlotAddress where
  segment : Nat
  offset : Nat
  deriving DecidableEq, Repr

/-- How an index is divided. -/
structure IndexLayout where
  /-- The number of low bits. -/
  shift : Nat
  /-- Ones in the low bits. -/
  mask : Nat
  deriving DecidableEq, Repr

namespace IndexLayout

/-- Indexes are below this number. -/
def wordSize : Nat := UInt32.size

/-- The word for the end of a chain. -/
def nilWord : Nat := wordSize - 1

/-- The word for a slot that was never written. -/
def vacantWord : Nat := wordSize - 2

/-- The largest index of a slot. -/
def maxIndex : Nat := wordSize - 3

/-- The layout for segments of `capacity` slots, a power of two. -/
def ofCapacity (capacity : Nat) : IndexLayout := ⟨capacity.log2, (capacity - 1) % wordSize⟩

variable (layout : IndexLayout)

/-- The number of slots in a segment. -/
def capacity : Nat := 1 <<< layout.shift

/-- The address of an index. -/
def split (index : Nat) : SlotAddress := ⟨index >>> layout.shift, index &&& layout.mask⟩

/-- The index of an address. Bits that do not fit into 32 are lost. -/
def join (segment offset : Nat) : Nat :=
  (segment % wordSize) <<< layout.shift % wordSize ||| offset % wordSize

end IndexLayout

/-- What a slot, or the head of a chain, points to. -/
inductive Link
  /-- Nothing was ever written here. -/
  | vacant
  /-- The chain ends here. -/
  | nil
  /-- The chain goes on at a slot. -/
  | next (index : Nat)
  deriving DecidableEq, Repr, Inhabited

namespace Link

/-- The link of a word. -/
def ofWord (word : Nat) : Link :=
  if word = IndexLayout.nilWord then nil
  else if word = IndexLayout.vacantWord then vacant
  else next word

/-- The word of a link. -/
def word : Link → Nat
  | vacant => IndexLayout.vacantWord
  | nil => IndexLayout.nilWord
  | next index => index

end Link

end Columnar
