/-!
# Data types

The types a column can be declared with, and how the values of each are stored. The two are in
one-to-one correspondence today, which is why a column needs no record of its declared type: it is
read off the storage. They are two types all the same, since messages speak of both and a later type
may share its storage with another.

The names here are those of messages and of queries. A type has a short name, by which a block is
headed when it is drawn, and a name in the language of queries; a storage has a name of its own, one
that is qualified, and one for the column that stores values so.
-/

namespace Columnar

/-- How the values of a column are stored. -/
inductive Storage
  | boolean
  | int32
  | int64
  | double
  | text
  deriving DecidableEq, Repr

/-- The declared type of a column. -/
inductive DataType
  | boolean
  | integer
  | bigInt
  | double
  | varchar
  deriving DecidableEq, Repr

namespace Storage

/-- The short name of a storage. -/
def name : Storage → String
  | boolean => "Boolean"
  | int32 => "Int32"
  | int64 => "Int64"
  | double => "Float64"
  | text => "String"

/-- The name by which messages speak of a storage. -/
def qualifiedName (s : Storage) : String := "PhysicalType::" ++ s.name

/-- The name by which messages speak of a column with this storage. -/
def columnName (s : Storage) : String := s.name ++ "Array"

/-- The data type whose values are stored this way. -/
def dataType : Storage → DataType
  | boolean => .boolean
  | int32 => .integer
  | int64 => .bigInt
  | double => .double
  | text => .varchar

end Storage

namespace DataType

/-- How values of the type are stored. -/
def storage : DataType → Storage
  | boolean => .boolean
  | integer => .int32
  | bigInt => .int64
  | double => .double
  | varchar => .text

/-- The name that heads a column. -/
def name : DataType → String
  | boolean => "Boolean"
  | integer => "Integer"
  | bigInt => "BigInt"
  | double => "Double"
  | varchar => "VarChar"

/-- The name in a query. -/
def sqlName : DataType → String
  | boolean => "BOOLEAN"
  | integer => "INTEGER"
  | bigInt => "BIGINT"
  | double => "DOUBLE"
  | varchar => "VARCHAR"

/-- Whether values of the type differ in the bytes they take. -/
def isVariableWidth (t : DataType) : Bool := t.storage == .text

/-- Whether values of the type are integers. -/
def isInteger (t : DataType) : Bool := t == .integer || t == .bigInt

/-- The names of several types in brackets. -/
def listNames (ts : List DataType) : String :=
  "[" ++ ", ".intercalate (ts.map name) ++ "]"

end DataType

@[simp] theorem Storage.storage_dataType (s : Storage) : s.dataType.storage = s := by
  cases s <;> rfl

end Columnar
