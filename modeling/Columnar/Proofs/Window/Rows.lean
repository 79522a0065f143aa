import Columnar.Proofs.Rows
import Columnar.Proofs.Window.Groups
import Columnar.Window.ColumnFrames
import Columnar.Window.Engine

/-!
# Rows

What a window does to its input depends on the rows alone and not on the blocks they come in. This
module is where blocks end and a stream begins: a list of rows, each the list of its values, and
positions in it.

## From references to positions

A window refers to rows by a block and a number. References show a stretch of a stream if reading
them gives the rows of the stream in order (`Shows`). Then comparing them compares the keys of the
stream's positions, and **counting leading matches counts positions** (`Shows.countWhile`), so that
from here on no result mentions where a block ends.

## Keys

Two rows are in one partition if they have the same partition key, and peers if they have the same
peer key. The peer key is the partition key together with the values in the order columns, so peers
are in one partition by definition, and a cut of partitions is a cut of peers (`Cut.peers`).

A stream is `Sorted` if the rows of a partition are next to each other, and so are peers. That is
all that sorting an input is for: no order of values is asked for anywhere, and which direction a
column is sorted in, or where missing values go, makes no difference.
-/

namespace Columnar

namespace Block

/-- The published rows of a block. -/
def refs (b : Block) : List (Block × Nat) := (List.range b.length).map (b, ·)

theorem length_refs (b : Block) : b.refs.length = b.length := by
  rw [refs, List.length_map, List.length_range]

end Block

/-- The rows of blocks, in order. -/
def rowsOf (blocks : List Block) : Checked (List Row) := do
  return (← blocks.mapM Block.rows).flatten

/-- The rows of blocks are the rows of each, in order. -/
theorem rowsOf_eq_ok_iff {blocks : List Block} {rows : List Row} :
    rowsOf blocks = .ok rows ↔
      ∃ parts, List.Forall₂ (fun b xs ↦ b.rows = .ok xs) blocks parts ∧ rows = parts.flatten := by
  constructor
  · intro h
    obtain ⟨parts, hparts, h⟩ := exists_of_bind_eq_ok h
    exact ⟨parts, Checked.mapM_eq_ok_iff.1 hparts, (Except.ok.inj h).symm⟩
  · rintro ⟨parts, hparts, rfl⟩
    rw [rowsOf, Checked.mapM_eq_ok_iff.2 hparts]
    rfl

theorem rowsOf_singleton {b : Block} {xs : List Row} (h : b.rows = .ok xs) : rowsOf [b] = .ok xs :=
  rowsOf_eq_ok_iff.2 ⟨[xs], .cons h .nil, List.flatten_singleton.symm⟩

theorem rowsOf_append {blocks blocks' : List Block} {xs ys : List Row} (h : rowsOf blocks = .ok xs)
    (h' : rowsOf blocks' = .ok ys) : rowsOf (blocks ++ blocks') = .ok (xs ++ ys) := by
  obtain ⟨parts, hparts, rfl⟩ := rowsOf_eq_ok_iff.1 h
  obtain ⟨parts', hparts', rfl⟩ := rowsOf_eq_ok_iff.1 h'
  exact rowsOf_eq_ok_iff.2 ⟨parts ++ parts', List.rel_append hparts hparts',
    List.flatten_append.symm⟩

/-- The rows of blocks are those of the first one and those of the others. -/
theorem exists_of_rowsOf_cons {b : Block} {blocks : List Block} {rows : List Row}
    (h : rowsOf (b :: blocks) = .ok rows) :
    ∃ xs ys, b.rows = .ok xs ∧ rowsOf blocks = .ok ys ∧ rows = xs ++ ys := by
  obtain ⟨parts, _ | ⟨hread, hrest⟩, rfl⟩ := rowsOf_eq_ok_iff.1 h
  exact ⟨_, _, hread, rowsOf_eq_ok_iff.2 ⟨_, hrest, rfl⟩, List.flatten_cons⟩

/-- A row of blocks is read from one of them. -/
theorem exists_row_of_mem_rowsOf {blocks : List Block} {rows : List Row}
    (h : rowsOf blocks = .ok rows) {x : Row} (hx : x ∈ rows) :
    ∃ b ∈ blocks, ∃ index, b.row index = .ok x := by
  induction blocks generalizing rows with
  | nil =>
    obtain rfl : [] = rows := Except.ok.inj h
    cases hx
  | cons b blocks ih =>
    obtain ⟨xs, ys, hread, hrest, rfl⟩ := exists_of_rowsOf_cons h
    rcases List.mem_append.1 hx with hx | hx
    · obtain ⟨j, hj, rfl⟩ := List.getElem_of_mem hx
      have hall := Checked.mapM_eq_ok_iff.1 hread
      exact ⟨b, List.mem_cons_self, _, hall.get (hall.length_eq ▸ hj) hj⟩
    · obtain ⟨b', hb', index, hrow⟩ := ih hrest hx
      exact ⟨b', List.mem_cons_of_mem _ hb', index, hrow⟩

/-- A row of one of the blocks has a position among the rows of all. -/
theorem exists_position_of_mem {blocks : List Block} {rows : List Row}
    (h : rowsOf blocks = .ok rows) {b : Block} (hb : b ∈ blocks) {index : Nat}
    (hindex : index < b.length) :
    ∃ (j : Nat) (x : Row), rows[j]? = some x ∧ b.row index = .ok x := by
  induction blocks generalizing rows with
  | nil => cases hb
  | cons first blocks ih =>
    obtain ⟨xs, ys, hread, hrest, rfl⟩ := exists_of_rowsOf_cons h
    rcases List.mem_cons.1 hb with rfl | hb
    · obtain ⟨x, hx, hrow⟩ :=
        Checked.getElem?_of_mapM_eq_ok hread (List.getElem?_range hindex)
      refine ⟨index, x, ?_, hrow⟩
      rwa [List.getElem?_append_left (List.getElem?_eq_some_iff.1 hx).1]
    · obtain ⟨j, x, hx, hrow⟩ := ih hrest hb
      refine ⟨xs.length + j, x, ?_, hrow⟩
      rwa [List.getElem?_append_right (Nat.le_add_right _ _), Nat.add_sub_cancel_left]

/-! ### Stretches of a stream -/

/-- References that read the rows of a stream from a position on. -/
def Shows (rows : List Row) (start : Nat) (refs : List (Block × Nat)) : Prop :=
  ∀ (j : Nat) (ref : Block × Nat), refs[j]? = some ref →
    ∃ x, rows[start + j]? = some x ∧ ref.1.row ref.2 = .ok x

namespace Shows

variable {rows : List Row} {start : Nat} {refs refs' : List (Block × Nat)}

theorem head {ref : Block × Nat} (h : Shows rows start (ref :: refs)) :
    ∃ x, rows[start]? = some x ∧ ref.1.row ref.2 = .ok x :=
  h 0 ref rfl

theorem tail {ref : Block × Nat} (h : Shows rows start (ref :: refs)) :
    Shows rows (start + 1) refs := fun j ref' hj ↦ by
  obtain ⟨x, hx, hrow⟩ := h (j + 1) ref' hj
  exact ⟨x, by rwa [Nat.add_right_comm], hrow⟩

theorem drop (h : Shows rows start refs) (count : Nat) :
    Shows rows (start + count) (refs.drop count) := fun j ref hj ↦ by
  rw [List.getElem?_drop] at hj
  obtain ⟨x, hx, hrow⟩ := h (count + j) ref hj
  exact ⟨x, by rwa [Nat.add_assoc], hrow⟩

theorem take (h : Shows rows start refs) (count : Nat) : Shows rows start (refs.take count) :=
  fun j ref hj ↦ h j ref (by
    rw [List.getElem?_take] at hj
    split_ifs at hj
    exact hj)

theorem append (h : Shows rows start refs) (h' : Shows rows (start + refs.length) refs') :
    Shows rows start (refs ++ refs') := fun j ref hj ↦ by
  rcases Nat.lt_or_ge j refs.length with hlt | hge
  · exact h j ref (by rwa [List.getElem?_append_left hlt] at hj)
  · rw [List.getElem?_append_right hge] at hj
    obtain ⟨x, hx, hrow⟩ := h' _ ref hj
    exact ⟨x, by rwa [Nat.add_assoc, Nat.add_sub_cancel' hge] at hx, hrow⟩

/-- Counting leading matches counts the positions whose key is the one looked for. -/
theorem countWhile {κ : Type} [DecidableEq κ] {key : Nat → κ} {k : κ}
    {test : Block × Nat → Checked Bool} (h : Shows rows start refs)
    (htest : ∀ position x ref, rows[position]? = some x → ref.1.row ref.2 = .ok x →
      test ref = .ok (decide (key position = k))) :
    ∃ count, Checked.countWhile test refs = .ok count ∧ count ≤ refs.length ∧
      (∀ i, start ≤ i → i < start + count → key i = k) ∧
      (count < refs.length → key (start + count) ≠ k) := by
  induction refs generalizing start with
  | nil =>
    exact ⟨0, rfl, Nat.le_refl 0, fun i hle hlt ↦ absurd hlt (Nat.not_lt_of_le hle),
      fun hlt ↦ absurd hlt (Nat.lt_irrefl 0)⟩
  | cons ref refs ih =>
    obtain ⟨x, hx, hrow⟩ := h.head
    have hhere := htest start x ref hx hrow
    by_cases hkey : key start = k
    · -- the first row matches, and the count goes on behind it
      obtain ⟨count, hcount, hle, hsame, hend⟩ := ih h.tail
      refine ⟨count + 1, ?_, Nat.succ_le_succ hle, fun i hi hi' ↦ ?_, fun hlt ↦ ?_⟩
      · rw [Checked.countWhile, hhere, decide_eq_true hkey]
        simp only [Checked.ok_bind, if_true, hcount, Checked.pure_eq_ok]
      · rcases Nat.lt_or_eq_of_le hi with hi | rfl
        · exact hsame i hi (by omega)
        · exact hkey
      · have := hend (Nat.lt_of_succ_lt_succ hlt)
        rwa [Nat.add_right_comm] at this
    · refine ⟨0, ?_, Nat.zero_le _, fun i hi hi' ↦ absurd hi' (Nat.not_lt_of_le hi), fun _ ↦ hkey⟩
      rw [Checked.countWhile, hhere, decide_eq_false hkey]
      rfl

end Shows

/-! ### Waiting rows -/

/-- The rows of a queue are those of its blocks. -/
theorem rowsFrom_zero (blocks : List Block) : rowsFrom blocks 0 = blocks.flatMap Block.refs := by
  cases blocks with
  | nil => rfl
  | cons head rest =>
    rw [rowsFrom, List.flatMap_cons, Block.refs, List.range_eq_range']
    rfl

/-- The rows of a queue from a row of its head on. -/
theorem rowsFrom_cons {head : Block} {rest : List Block} {row : Nat} (h : row ≤ head.length) :
    rowsFrom (head :: rest) row = (rowsFrom (head :: rest) 0).drop row := by
  have hdrop : (List.range' row (head.length - row)).map (head, ·) =
      ((List.range' 0 head.length).map (head, ·)).drop row := by
    rw [← List.map_drop, List.drop_range', Nat.zero_add, Nat.mul_one]
  rw [rowsFrom, rowsFrom, hdrop, Nat.sub_zero, List.drop_append_of_le_length (by simpa using h)]

/-- The first row that waits is the one the others are behind. -/
theorem rowsFrom_succ {head : Block} {rest : List Block} {row : Nat} (h : row < head.length) :
    rowsFrom (head :: rest) row = (head, row) :: rowsFrom (head :: rest) (row + 1) := by
  rw [rowsFrom, rowsFrom, Nat.sub_add_eq, ← List.cons_append, ← List.map_cons, ← List.range'_succ,
    Nat.sub_add_cancel (Nat.sub_pos_of_lt h)]

/-- What is left of the queue after its head. -/
theorem rowsFrom_length (head : Block) (rest : List Block) :
    rowsFrom (head :: rest) head.length = rowsFrom rest 0 := by
  rw [rowsFrom_zero, rowsFrom, Nat.sub_self]
  rfl

/-- A row that waits is a row of one of the blocks. -/
theorem exists_of_mem_rowsFrom {blocks : List Block} {row : Nat} {ref : Block × Nat}
    (h : ref ∈ rowsFrom blocks row) : ref.1 ∈ blocks ∧ ref.2 < ref.1.length := by
  cases blocks with
  | nil => cases h
  | cons head rest =>
    rcases List.mem_append.1 h with h | h
    · obtain ⟨i, hi, rfl⟩ := List.mem_map.1 h
      have hlt := List.mem_range'_1.1 hi
      exact ⟨List.mem_cons_self, show i < head.length by omega⟩
    · obtain ⟨b, hb, h⟩ := List.mem_flatMap.1 h
      obtain ⟨i, hi, rfl⟩ := List.mem_map.1 h
      exact ⟨List.mem_cons_of_mem _ hb, List.mem_range.1 hi⟩

/-- The rows that a block adds to a stream. -/
theorem shows_refs {before xs after : List Row} {b : Block} (h : b.rows = .ok xs) :
    Shows (before ++ xs ++ after) before.length b.refs := fun j ref hj ↦ by
  rw [Block.refs, List.getElem?_map, Option.map_eq_some_iff] at hj
  obtain ⟨i, hi, rfl⟩ := hj
  obtain ⟨x, hx, hrow⟩ := Checked.getElem?_of_mapM_eq_ok h hi
  obtain rfl : j = i := by
    rw [List.getElem?_eq_some_iff] at hi
    obtain ⟨hlt, rfl⟩ := hi
    rw [List.getElem_range]
  refine ⟨x, ?_, hrow⟩
  rw [List.append_assoc, List.getElem?_append_right (Nat.le_add_right _ _), Nat.add_sub_cancel_left,
    List.getElem?_append_left (List.getElem?_eq_some_iff.1 hx).1, hx]

/-! ### Keys -/

/-- The values of a row in some columns. -/
def Row.key (columns : List Nat) (x : Row) : List (Option (Option Scalar)) :=
  columns.map fun column ↦ x[column]?

namespace ColumnFrames

variable (f : ColumnFrames) (rows : List Row)

/-- The partition of the row in a position of a stream. -/
def partitionKey (position : Nat) : Option (List (Option (Option Scalar))) :=
  rows[position]?.map (Row.key f.partitionColumns)

/-- The peer group of the row in a position of a stream. -/
def peerKey (position : Nat) :
    Option (List (Option (Option Scalar)) × List (Option (Option Scalar))) :=
  rows[position]?.map fun x ↦ (x.key f.partitionColumns, x.key f.orderColumns)

/-- A stream in which the rows of a partition are next to each other, and so are peers. -/
structure Sorted : Prop where
  partitions : Contiguous (f.partitionKey rows) rows.length
  peers : Contiguous (f.peerKey rows) rows.length

instance : Decidable (f.Sorted rows) :=
  decidable_of_iff (Contiguous (f.partitionKey rows) rows.length ∧
      Contiguous (f.peerKey rows) rows.length)
    ⟨fun h ↦ ⟨h.1, h.2⟩, fun h ↦ ⟨h.partitions, h.peers⟩⟩

/-- Frames that can be read from inputs of some types. -/
structure Fits (types : List DataType) : Prop where
  partitionColumns : ∀ column ∈ f.partitionColumns, column < types.length
  orderColumns : ∀ column ∈ f.orderColumns, column < types.length
  aggregates : ∀ aggregate ∈ f.aggregates, ∀ column, aggregate.column? = some column →
    column < types.length

variable {f rows}

/-- Peers are in one partition. -/
theorem partitionKey_eq {i k : Nat} (h : f.peerKey rows i = f.peerKey rows k) :
    f.partitionKey rows i = f.partitionKey rows k := by
  have hmap := congrArg (Option.map Prod.fst) h
  simpa [peerKey, partitionKey, Option.map_map, Function.comp_def] using hmap

theorem Cut.peers {place : Nat} (h : Cut (f.partitionKey rows) rows.length place) :
    Cut (f.peerKey rows) rows.length place :=
  h.mono fun _ _ _ ↦ partitionKey_eq

/-- Comparing the values of two rows in some columns. -/
theorem sameValues_eq {a b : Block} {i j : Nat} {x y : Row} (hx : a.row i = .ok x)
    (hy : b.row j = .ok y) {columns : List Nat}
    (hcolumns : ∀ column ∈ columns, column < x.length ∧ column < y.length) :
    sameValues a i b j columns = .ok (decide (x.key columns = y.key columns)) := by
  induction columns with
  | nil => rfl
  | cons column columns ih =>
    obtain ⟨hcx, hcy⟩ := hcolumns column List.mem_cons_self
    have hrest := ih fun c hc ↦ hcolumns c (List.mem_cons_of_mem _ hc)
    rw [sameValues]
    simp only [Block.cell_eq hx hcx, Block.cell_eq hy hcy, Checked.ok_bind]
    have hkey : x.key (column :: columns) = y.key (column :: columns) ↔
        x[column] = y[column] ∧ x.key columns = y.key columns := by
      simp [Row.key, hcx, hcy]
    by_cases heq : x[column] = y[column]
    · simp only [heq, beq_self_eq_true, if_true, hrest]
      simp [hkey, heq]
    · simp [hkey, heq]

/-- Comparing two rows tells whether they are peers. -/
theorem peers_eq_decide {a b : Block} {i j : Nat} {x y : Row} (hx : a.row i = .ok x)
    (hy : b.row j = .ok y)
    (hpartition : ∀ column ∈ f.partitionColumns, column < x.length ∧ column < y.length)
    (horder : ∀ column ∈ f.orderColumns, column < x.length ∧ column < y.length) :
    f.ops.peers a i b j = .ok (decide (x.key f.partitionColumns = y.key f.partitionColumns ∧
      x.key f.orderColumns = y.key f.orderColumns)) := by
  simp only [ops, sameValues_eq hx hy hpartition, sameValues_eq hx hy horder, Checked.ok_bind]
  by_cases heq : x.key f.partitionColumns = y.key f.partitionColumns
  · simp [heq]
  · simp [heq]

/-- A sorted stream of rows of some types, and frames that can be read from it. -/
structure Stream (f : ColumnFrames) (types : List DataType) (rows : List Row) : Prop where
  fits : f.Fits types
  length_row : ∀ x ∈ rows, x.length = types.length
  sorted : f.Sorted rows

namespace Stream

variable {types : List DataType} {a b : Block} {i j p q : Nat} {x y : Row}

/-- Rows are in one partition if their positions are. -/
theorem samePartition_eq (h : f.Stream types rows) (hx : a.row i = .ok x) (hp : rows[p]? = some x)
    (hy : b.row j = .ok y) (hq : rows[q]? = some y) : f.ops.samePartition a i b j =
      .ok (decide (f.partitionKey rows q = f.partitionKey rows p)) := by
  have hlx := h.length_row x (List.mem_of_getElem? hp)
  have hly := h.length_row y (List.mem_of_getElem? hq)
  have hsame := sameValues_eq hx hy fun column hcolumn ↦
    ⟨hlx ▸ h.fits.partitionColumns column hcolumn, hly ▸ h.fits.partitionColumns column hcolumn⟩
  refine hsame.trans ?_
  simp only [partitionKey, hp, hq, Option.map_some, Option.some.injEq, eq_comm]

/-- Rows are peers if their positions are. -/
theorem peers_eq (h : f.Stream types rows) (hx : a.row i = .ok x) (hp : rows[p]? = some x)
    (hy : b.row j = .ok y) (hq : rows[q]? = some y) : f.ops.peers a i b j =
      .ok (decide (f.peerKey rows q = f.peerKey rows p)) := by
  have hlx := h.length_row x (List.mem_of_getElem? hp)
  have hly := h.length_row y (List.mem_of_getElem? hq)
  refine (peers_eq_decide hx hy
    (fun column hcolumn ↦ ⟨hlx ▸ h.fits.partitionColumns column hcolumn,
      hly ▸ h.fits.partitionColumns column hcolumn⟩)
    fun column hcolumn ↦ ⟨hlx ▸ h.fits.orderColumns column hcolumn,
      hly ▸ h.fits.orderColumns column hcolumn⟩).trans ?_
  simp only [peerKey, hp, hq, Option.map_some, Option.some.injEq, Prod.mk.injEq, eq_comm]

variable {refs : List (Block × Nat)} {start : Nat}

/-- Counting the rows of a partition counts positions. -/
theorem countWhile_samePartition (h : f.Stream types rows) (hshows : Shows rows start refs)
    (hx : a.row i = .ok x) (hp : rows[p]? = some x) : ∃ count,
      Checked.countWhile (fun (block, row) ↦ f.ops.samePartition a i block row) refs = .ok count ∧
      count ≤ refs.length ∧
      (∀ j, start ≤ j → j < start + count → f.partitionKey rows j = f.partitionKey rows p) ∧
      (count < refs.length → f.partitionKey rows (start + count) ≠ f.partitionKey rows p) :=
  hshows.countWhile fun _ _ _ hy hrow ↦ h.samePartition_eq hx hp hrow hy

/-- Counting peers counts positions. -/
theorem countWhile_peers (h : f.Stream types rows) (hshows : Shows rows start refs)
    (hx : a.row i = .ok x) (hp : rows[p]? = some x) : ∃ count,
      Checked.countWhile (fun (block, row) ↦ f.ops.peers a i block row) refs = .ok count ∧
      count ≤ refs.length ∧
      (∀ j, start ≤ j → j < start + count → f.peerKey rows j = f.peerKey rows p) ∧
      (count < refs.length → f.peerKey rows (start + count) ≠ f.peerKey rows p) :=
  hshows.countWhile fun _ _ _ hy hrow ↦ h.peers_eq hx hp hrow hy

end Stream

end ColumnFrames

end Columnar
