import Columnar.Column.Basic
import Columnar.Text.Plain

/-!
# Showing columns

The text in which a column or a bitmap is shown to a programmer: its name, its size and every
element in brackets.

Texts are shown between double quotes on one line. The quote and the backslash are escaped by a
backslash, four controls have short names, and every character that is not plain is written by its
code. So two texts that differ are shown differently, also where they would be drawn alike. A single
quote needs no escape between double ones and has none.

Values of other storages are written as they are in a block, and a missing value by its name. The
storage of the values is named twice, once for the column and once for the array in it.
-/

namespace Columnar

/-! ### Quoted texts -/

namespace Text

/-- A code point in lower-case hexadecimal digits between braces. -/
def writeCode (c : Char) : List Char :=
  ['\\', 'u', '\x7b'] ++ Nat.toDigits 16 c.toNat ++ ['\x7d']

/-- One character as it stands between the quotes. -/
def writeChar (c : Char) : List Char :=
  match c with
  | '\x00' => ['\\', '0']
  | '\t' => ['\\', 't']
  | '\n' => ['\\', 'n']
  | '\r' => ['\\', 'r']
  | '"' => ['\\', '"']
  | '\\' => ['\\', '\\']
  | c => if isPlain c then [c] else writeCode c

/-- A text in quotes. -/
def quote (s : String) : String :=
  String.ofList ('"' :: s.toList.flatMap writeChar ++ ['"'])

end Text

/-! ### Bitmaps, values and columns -/

/-- A named record of two fields. -/
def renderSized (name : String) (size : Nat) (field : String) (items : List String) : String :=
  name ++ " \x7b len: " ++ toString size ++ ", " ++ field ++ ": [" ++ ", ".intercalate items ++
    "] \x7d"

/-- A bitmap with its bits as digits. -/
def Bitmap.render (b : Bitmap) : String :=
  renderSized "Bitmap" b.size "bits" (b.toList.map fun bit ↦ if bit then "1" else "0")

/-- An optional value. -/
def Scalar.renderOption : Option Scalar → String
  | none => "None"
  | some (.text value) => "Some(" ++ Text.quote value ++ ")"
  | some value => "Some(" ++ value.write ++ ")"

/-- A column with its rows. -/
def Column.render (c : Column) : Checked String := do
  let items := (← c.rows).map Scalar.renderOption
  return c.storage.name ++ "(" ++ renderSized c.storage.columnName c.size "data" items ++ ")"

end Columnar
