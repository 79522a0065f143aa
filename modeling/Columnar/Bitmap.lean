import Columnar.Trap

/-!
# Bitmaps

A list of bits packed into words of 64, the first bit in the lowest place. The places of the last
word beyond the size hold zeros; counting and equality go by whole words and rely on that.

Equality is that of the words and the size. It is equality of the lists only because of the zeros,
which is a matter of what operations there are and not of the type: nothing keeps a bitmap from
being made with ones behind its last bit, but no operation makes one. The lemmas on bitmaps as lists
have this as their invariant.

Reading and overwriting are abandoned where there is no bit, with a text that names the place and
the size. `put` overwrites without the check, for columns that have looked for the row before.
-/

namespace Columnar

/-- A packed list of bits. -/
structure Bitmap where
  words : Array UInt64
  size : Nat
  deriving DecidableEq, Repr

namespace Bitmap

/-- The number of bits in a word. -/
def wordBits : Nat := 64

/-- How many words hold `n` bits. -/
def wordCount (n : Nat) : Nat := (n + (wordBits - 1)) / wordBits

/-- The word with a one in the place of bit `index` alone. -/
def mask (index : Nat) : UInt64 := 1 <<< (index % wordBits).toUInt64

/-- A word with one of its bits replaced. -/
def putBit (index : Nat) (value : Bool) (word : UInt64) : UInt64 :=
  if value then word ||| mask index else word &&& ~~~mask index

/-- How many ones a word has. -/
def ones (word : UInt64) : Nat := (List.range wordBits).countP word.toNat.testBit

/-- The bitmap without bits. -/
def empty : Bitmap := ⟨#[], 0⟩

/-- `n` equal bits. -/
def replicate (n : Nat) (value : Bool) : Bitmap where
  words :=
    let words := Array.replicate (wordCount n) (if value then 0xffffffffffffffff else 0)
    if n % wordBits = 0 then words else words.modify (n / wordBits) (· &&& (mask n - 1))
  size := n

variable (b : Bitmap)

/-- Whether there are no bits. -/
def isEmpty : Bool := b.size == 0

/-- The bit in a place of the words, and zero where there is no word. -/
def bit (index : Nat) : Bool :=
  (b.words.getD (index / wordBits) 0).toNat.testBit (index % wordBits)

/-- The bits in order. -/
def toList : List Bool := (List.range b.size).map b.bit

/-- Read a bit. -/
def get (index : Nat) : Checked Bool :=
  if index < b.size then
    if index / wordBits < b.words.size then .ok (b.bit index) else .error .position
  else .error (.bit index b.size)

/-- Write into a place of the words; nothing happens where there is no word. -/
def put (index : Nat) (value : Bool) : Bitmap :=
  { b with words := b.words.modify (index / wordBits) (putBit index value) }

/-- Overwrite a bit. -/
def set (index : Nat) (value : Bool) : Checked Bitmap :=
  if index < b.size then
    if index / wordBits < b.words.size then .ok (b.put index value) else .error .position
  else .error (.bit index b.size)

/-- Append a bit. -/
def push (value : Bool) : Bitmap :=
  let words := if b.size % wordBits = 0 then b.words.push 0 else b.words
  (⟨words, b.size + 1⟩ : Bitmap).put b.size value

/-- The bitmap of a list. -/
def ofList (bits : List Bool) : Bitmap := bits.foldl push empty

/-- How many bits are true. -/
def countTrue : Nat := b.words.foldl (fun count word ↦ count + ones word) 0

/-- How many bits are false. -/
def countFalse : Nat := b.size - b.countTrue

/-- Whether every bit is true. -/
def allTrue : Bool := b.countFalse == 0

end Bitmap

end Columnar
