import Columnar.Block.Basic
import Columnar.Proofs.Columns

/-!
# Rows of blocks

A block read row by row. Nothing is said here about how the values of a row are stored; the rows of
a block are lists of values, and what tables and windows do with blocks is said of these lists.

A block is `Regular` if its columns have the types and the size that they should have, with no more
rows published than there are. This can be decided. It is `WellFormed` if moreover all that belongs
to its rows is there, that is a validity bit, and a value or the bytes of a text where one is
present. **Rows of a well-formed block can be read** (`WellFormed.exists_row`), and a value that is
read from a block is the one in the row that is read (`cell_eq`).

`HasRow` asks for the same of a single row, and does not ask for it to be published. Keys are stored
into blocks none of whose rows is, and are read from there.
-/

namespace Columnar

/-- The values of a row. -/
abbrev Row := List (Option Scalar)

namespace Block

/-- Read a row. -/
def row (b : Block) (index : Nat) : Checked Row := b.columns.mapM (·.get index)

/-- Read the published rows. -/
def rows (b : Block) : Checked (List Row) := (List.range b.length).mapM b.row

/-- A block of some types whose columns have one size, with no more rows published than there
are. -/
structure Regular (types : List DataType) (b : Block) : Prop where
  types_eq : b.types = types
  size_eq : ∀ column ∈ b.columns, column.size = b.capacity
  length_le : b.length ≤ b.capacity

instance (types : List DataType) (b : Block) : Decidable (b.Regular types) :=
  decidable_of_iff (b.types = types ∧ (∀ column ∈ b.columns, column.size = b.capacity) ∧
      b.length ≤ b.capacity)
    ⟨fun h ↦ ⟨h.1, h.2.1, h.2.2⟩, fun h ↦ ⟨h.types_eq, h.size_eq, h.length_le⟩⟩

/-- A block of some types with all that belongs to its rows. -/
structure WellFormed (types : List DataType) (b : Block) : Prop extends Regular types b where
  aligned : ∀ c ∈ b.columns, c.Aligned

/-- The columns of a new block are as they should be. -/
theorem aligned_ofTypes (types : List DataType) (capacity : Nat) :
    ∀ c ∈ (ofTypes types capacity).columns, c.Aligned := by
  intro c hc
  obtain ⟨type, -, rfl⟩ := List.mem_map.1 hc
  exact Column.aligned_nulls type capacity

variable {b : Block}

theorem length_row {index : Nat} {x : Row} (h : b.row index = .ok x) : x.length = b.width :=
  Checked.length_of_mapM_eq_ok h

/-- A row that lies inside all columns, with all that belongs to it. -/
def HasRow (b : Block) (index : Nat) : Prop := ∀ c ∈ b.columns, c.Aligned ∧ index < c.size

/-- A row that lies inside all columns can be read. -/
theorem HasRow.exists_row {index : Nat} (h : b.HasRow index) : ∃ x, b.row index = .ok x :=
  Checked.exists_mapM_eq_ok fun c hc ↦ (h c hc).1.exists_get (h c hc).2

/-- The published rows of a well-formed block lie inside its columns. -/
theorem WellFormed.hasRow {types : List DataType} (h : b.WellFormed types) {index : Nat}
    (hindex : index < b.length) : b.HasRow index := by
  refine fun c hc ↦ ⟨h.aligned c hc, ?_⟩
  rw [h.size_eq c hc]
  exact Nat.lt_of_lt_of_le hindex h.length_le

/-- The published rows of a well-formed block can be read. -/
theorem WellFormed.exists_row {types : List DataType} (h : b.WellFormed types) {index : Nat}
    (hindex : index < b.length) : ∃ x, b.row index = .ok x ∧ x.length = types.length := by
  obtain ⟨x, hx⟩ := (h.hasRow hindex).exists_row
  refine ⟨x, hx, (length_row hx).trans ?_⟩
  rw [width, ← h.types_eq, Block.types, List.length_map]

/-- Reading a value reads it in the row. -/
theorem cell_eq {index : Nat} {x : Row} (h : b.row index = .ok x) {column : Nat}
    (hcolumn : column < x.length) : b.cell column index = .ok x[column] := by
  have hlt : column < b.columns.length := Nat.lt_of_lt_of_eq hcolumn (length_row h)
  obtain ⟨value, hvalue, hget⟩ :=
    Checked.getElem?_of_mapM_eq_ok h (List.getElem?_eq_getElem hlt)
  rw [List.getElem?_eq_getElem hcolumn, Option.some.injEq] at hvalue
  rw [cell, Block.column, Checked.elem, List.getElem?_eq_getElem hlt, hvalue]
  exact hget

end Block

end Columnar
