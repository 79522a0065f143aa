import Columnar.Bitmap
import Columnar.Column.Error

/-!
# Columns of text

Every text is a span of one buffer of bytes. Writing a row appends the bytes of the text and points
the row to them; the bytes of the text that stood there before stay in the buffer until the column
is cleared. The buffer is bounded: by what a span can address, and by a byte budget if one is set.

## What the bound is about

Bytes in use are those of the buffer, and so of all texts that were written, **those included that
no row points to any more**. Overwriting a row over and over uses a budget up. A budget may be set
below what is in use; then every text is refused, the empty one too.

A missing text takes no bytes and is never refused. Its span is the empty one at the start of the
buffer.

## Reading

Reading a span checks that it lies in the buffer and that the bytes there are a text. Both hold of
every column that was written to by these operations, and are proved of it; the checks are here
because the type does not say so.
-/

namespace Columnar

/-- A stretch of the buffer. -/
structure Span where
  offset : UInt32
  size : UInt32
  deriving DecidableEq, Repr, Inhabited

/-- A column of optional texts. -/
structure TextColumn where
  bytes : ByteArray
  spans : Array Span
  validity : Bitmap
  byteLimit : Option Nat

namespace TextColumn

/-- The most bytes that spans can address. -/
def maxBytes : Nat := UInt32.size - 1

/-- The span of a missing text. -/
def noSpan : Span := ⟨0, 0⟩

/-- The number of rows. -/
def size (c : TextColumn) : Nat := c.spans.size

/-- The number of bytes in the buffer. -/
def usedBytes (c : TextColumn) : Nat := c.bytes.size

/-- How many bytes the buffer may hold. -/
def budget (c : TextColumn) : Nat :=
  match c.byteLimit with
  | none => maxBytes
  | some limit => min limit maxBytes

/-- The column without rows and without a byte budget. -/
def empty : TextColumn := ⟨.empty, #[], .empty, none⟩

/-- A column of `n` missing texts. -/
def nulls (n : Nat) : TextColumn := ⟨.empty, Array.replicate n noSpan, .replicate n false, none⟩

/-- Set the byte budget, or lift it. The bytes in use may exceed the new budget; then every text is
refused, the empty one too. -/
def setByteLimit (c : TextColumn) (limit : Option Nat) : TextColumn := { c with byteLimit := limit }

/-- The text of a span. -/
def textAt (c : TextColumn) (span : Span) : Checked String :=
  let first := span.offset.toNat
  let last := first + span.size.toNat
  if last ≤ c.bytes.size then
    match String.fromUTF8? (c.bytes.extract first last) with
    | some s => .ok s
    | none => .error .text
  else .error .position

/-- Read a row. -/
def get (c : TextColumn) (index : Nat) : Checked (Option String) := do
  if ← c.validity.get index then
    return some (← c.textAt (← Checked.entry c.spans index))
  else
    return none

/-- The rows in order. -/
def toList (c : TextColumn) : List (Option String) :=
  List.zipWith (fun span present ↦ if present then (c.textAt span).toOption else none)
    c.spans.toList c.validity.toList

/-- Why a text does not fit into the buffer, if so. -/
def overflow? (c : TextColumn) : Option String → Option ColumnError
  | none => none
  | some text =>
    let size := text.utf8ByteSize
    if c.usedBytes + size ≤ c.budget then none
    else some (.overBudget size c.usedBytes c.budget)

/-- The span that a text gets when its bytes are appended to the buffer. -/
def nextSpan (c : TextColumn) : Option String → Span
  | none => noSpan
  | some text => ⟨c.usedBytes.toUInt32, text.utf8ByteSize.toUInt32⟩

/-- A buffer with the bytes of a text behind it. -/
def appendText (bytes : ByteArray) : Option String → ByteArray
  | none => bytes
  | some text => bytes ++ text.toUTF8

/-- Append a row. -/
def push (c : TextColumn) (value : Option String) : Except ColumnError TextColumn :=
  match c.overflow? value with
  | some refusal => .error refusal
  | none =>
    let span := c.nextSpan value
    .ok { c with
      bytes := appendText c.bytes value
      spans := c.spans.push span
      validity := c.validity.push value.isSome }

/-- The column of a list of optional texts. -/
def ofList (values : List (Option String)) : Except ColumnError TextColumn :=
  values.foldlM push empty

/-- Overwrite a row that exists with a text that fits. -/
def put (c : TextColumn) (index : Nat) (value : Option String) : TextColumn :=
  let span := c.nextSpan value
  { c with
    bytes := appendText c.bytes value
    spans := c.spans.setIfInBounds index span
    validity := c.validity.put index value.isSome }

/-- Remove every row and every byte. The byte budget stays. -/
def clear (c : TextColumn) : TextColumn := { empty with byteLimit := c.byteLimit }

end TextColumn

end Columnar
