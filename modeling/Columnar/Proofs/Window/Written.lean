import Columnar.Proofs.Columns
import Columnar.Proofs.Window.Tallies

/-!
# Written rows

Aggregates and rankings are written into fresh columns of numbers, row by row. A value of the type
of its column is never refused there, so writing a row is putting each of its values into its column
(`Column.putAll`): the row then reads as what was written, and all other rows as before.

That no value is refused rests on three facts. Columns of numbers have no budget
(`Numeric.refusal?_eq_none`). The values have the types that the configuration announces: those of
tallies are the types of their aggregates (`Tally.typed_value`), and those of rankings likewise. And
the columns are as long as the head (`Sheet`), so there is a row for every row.

So the two refusals of an engine that are about writing **do not occur for frames that are read from
columns**, though the engine has to provide for them, as other operations may refuse.

Putting the columns together is the one step that can fail, and only where there is no column at
all: a block that is made of no columns has no room for any row (`WindowEngine.assemble_eq`).
-/

namespace Columnar

namespace Column

/-- A column of 64-bit integers or of doubles, with one validity bit to every value. -/
def Numeric : Column → Prop
  | int64 c => c.Aligned
  | double c => c.Aligned
  | _ => False

variable {c : Column} {index : Nat} {value : Option Scalar}

theorem numeric_nulls {t : DataType} (h : t = .bigInt ∨ t = .double) (n : Nat) :
    (nulls t n).Numeric := by
  rcases h with rfl | rfl
  · exact FixedColumn.aligned_nulls n
  · exact FixedColumn.aligned_nulls n

theorem numeric_iff : c.Numeric ↔ c.Aligned ∧ (c.storage = .int64 ∨ c.storage = .double) := by
  cases c <;> simp [Numeric, Aligned, storage]

/-- A column of numbers refuses nothing of its storage. -/
theorem Numeric.refusal?_eq_none (hc : c.Numeric) (hindex : index < c.size)
    (hvalue : c.Suits value) : c.refusal? index value = none := by
  refine refusal?_eq_none_iff.2 ⟨hvalue, hindex, overflow?_eq_none (fun htext ↦ ?_) value⟩
  rcases (numeric_iff.1 hc).2 with h | h <;> cases h.symm.trans htext

theorem Numeric.overwrite_eq (hc : c.Numeric) (hindex : index < c.size) (hvalue : c.Suits value) :
    c.overwrite index value = (c.put index value, .ok ()) := by
  rw [overwrite, hc.refusal?_eq_none hindex hvalue]

theorem Numeric.put (hc : c.Numeric) (hindex : index < c.size) (hvalue : c.Suits value) :
    (c.put index value).Numeric := by
  obtain ⟨haligned, hstorage⟩ := numeric_iff.1 hc
  exact numeric_iff.2 ⟨haligned.put (hc.refusal?_eq_none hindex hvalue),
    by rwa [storage_put]⟩

/-- A row that was put reads as what was put, and the other rows as before. -/
theorem Numeric.get_put (hc : c.Numeric) (hindex : index < c.size) (hvalue : c.Suits value)
    (other : Nat) :
    (c.put index value).get other = if other = index then .ok value else c.get other :=
  (numeric_iff.1 hc).1.get_put (hc.refusal?_eq_none hindex hvalue) other

/-! ### Rows of columns -/

/-- Put the values of a row into columns. -/
def putAll (row : Nat) (columns : List Column) (values : Row) : List Column :=
  List.zipWith (fun c value ↦ c.put row value) columns values

/-- A value of a type, or none. -/
def TypedValue (value : Option Scalar) (t : DataType) : Prop :=
  ∀ v, value = some v → v.storage.dataType = t

/-- Columns of numbers, of these types and of one size. -/
def Sheet (types : List DataType) (capacity : Nat) (columns : List Column) : Prop :=
  List.Forall₂ (fun c t ↦ c.dataType = t ∧ c.Numeric ∧ c.size = capacity) columns types

variable {types : List DataType} {capacity row : Nat} {columns : List Column} {values : Row}

theorem sheet_nulls (h : ∀ t ∈ types, t = .bigInt ∨ t = .double) (capacity : Nat) :
    Sheet types capacity (types.map (nulls · capacity)) := by
  induction types with
  | nil => exact .nil
  | cons t types ih =>
    exact .cons ⟨dataType_nulls t capacity, numeric_nulls (h t List.mem_cons_self) capacity,
      size_nulls t capacity⟩ (ih fun t ht ↦ h t (List.mem_cons_of_mem _ ht))

theorem Sheet.size_eq (h : Sheet types capacity columns) : ∀ c ∈ columns, c.size = capacity := by
  induction h with
  | nil => simp
  | cons hc _ ih =>
    intro c hmem
    rcases List.mem_cons.1 hmem with rfl | hmem
    · exact hc.2.2
    · exact ih c hmem

/-- A value of the type of a column has its storage. -/
theorem TypedValue.suits {c : Column} {value : Option Scalar} {t : DataType}
    (h : TypedValue value t) (hc : c.dataType = t) : c.Suits value := by
  intro v hv
  have hdata : v.storage.dataType = c.storage.dataType := (h v hv).trans hc.symm
  rw [← Storage.storage_dataType v.storage, hdata, Storage.storage_dataType]

/-- Writing a row keeps columns as they should be. -/
theorem Sheet.putAll (h : Sheet types capacity columns) (hrow : row < capacity)
    (hvalues : List.Forall₂ TypedValue values types) :
    Sheet types capacity (putAll row columns values) := by
  induction h generalizing values with
  | nil => exact .nil
  | cons hc _ ih =>
    cases hvalues with
    | cons hvalue hvalues =>
      refine .cons ⟨(dataType_put _ _ _).trans hc.1, ?_, (size_put _ _ _).trans hc.2.2⟩ (ih hvalues)
      exact hc.2.1.put (hc.2.2 ▸ hrow) (hvalue.suits hc.1)

/-- The row that was written reads as what was written. -/
theorem Sheet.mapM_get_putAll (h : Sheet types capacity columns) (hrow : row < capacity)
    (hvalues : List.Forall₂ TypedValue values types) :
    (Column.putAll row columns values).mapM (·.get row) = .ok values := by
  rw [Checked.mapM_eq_ok_iff]
  induction h generalizing values with
  | nil =>
    cases hvalues
    exact .nil
  | cons hc _ ih =>
    cases hvalues with
    | cons hvalue hvalues =>
      refine .cons ?_ (ih hvalues)
      rw [hc.2.1.get_put (hc.2.2 ▸ hrow) (hvalue.suits hc.1), if_pos rfl]

/-- The other rows read as before. -/
theorem Sheet.mapM_get_putAll_of_ne (h : Sheet types capacity columns) (hrow : row < capacity)
    (hvalues : List.Forall₂ TypedValue values types) {other : Nat} (hne : other ≠ row) :
    (Column.putAll row columns values).mapM (·.get other) = columns.mapM (·.get other) := by
  induction h generalizing values with
  | nil => rfl
  | cons hc _ ih =>
    cases hvalues with
    | cons hvalue hvalues =>
      have hget := hc.2.1.get_put (hc.2.2 ▸ hrow) (hvalue.suits hc.1) other
      rw [if_neg hne] at hget
      rw [Column.putAll, List.zipWith_cons_cons, List.mapM_cons, List.mapM_cons, hget,
        ← Column.putAll, ih hvalues]

end Column

/-! ### The two writers -/

/-- Tallies are written without a refusal. -/
theorem ColumnFrames.writeRow_eq {types : List DataType} {capacity row : Nat}
    {columns : List Column} {values : Row} (h : Column.Sheet types capacity columns)
    (hrow : row < capacity) (hvalues : List.Forall₂ Column.TypedValue values types) :
    writeRow row columns values = (Column.putAll row columns values, .ok ()) := by
  induction h generalizing values with
  | nil =>
    cases hvalues
    rfl
  | cons hc _ ih =>
    cases hvalues with
    | cons hvalue hvalues =>
      rw [writeRow, hc.2.1.overwrite_eq (hc.2.2 ▸ hrow) (hvalue.suits hc.1)]
      simp only [ih hvalues]
      rfl

/-- The values of the rankings at a row of a partition. -/
def Partition.rankings (p : Partition) (rankings : List Ranking) : Row :=
  rankings.map fun ranking ↦ some (ranking.value p)

theorem Partition.typed_rankings (p : Partition) (rankings : List Ranking) :
    List.Forall₂ Column.TypedValue (p.rankings rankings) (rankings.map Ranking.dataType) := by
  induction rankings with
  | nil => exact .nil
  | cons ranking rankings ih =>
    refine .cons (fun v hv ↦ ?_) ih
    obtain rfl := Option.some.inj hv
    cases ranking <;> rfl

/-- Rankings are written without a refusal. -/
theorem WindowEngine.writeRankings_eq {ε : Type} (p : Partition) {capacity row : Nat}
    (hrow : row < capacity) (rankings : List Ranking) {columns : List Column}
    (h : Column.Sheet (rankings.map Ranking.dataType) capacity columns) :
    (writeRankings p row rankings columns : Except (WindowError ε) (List Column)) =
      .ok (Column.putAll row columns (p.rankings rankings)) := by
  induction rankings generalizing columns with
  | nil =>
    cases h
    rfl
  | cons ranking rankings ih =>
    cases h with
    | @cons c _ columns _ hc hrest =>
      have hvalue : Column.TypedValue (some (ranking.value p)) ranking.dataType := fun v hv ↦ by
        obtain rfl := Option.some.inj hv
        cases ranking <;> rfl
      rw [writeRankings, Column.set,
        hc.2.1.overwrite_eq (hc.2.2 ▸ hrow) (hvalue.suits hc.1)]
      simp only [ih hrest]
      rfl

theorem Aggregate.dataType_eq (a : Aggregate) : a.dataType = .bigInt ∨ a.dataType = .double := by
  cases a with
  | avg => exact .inr rfl
  | _ => exact .inl rfl

theorem Ranking.dataType_eq (ranking : Ranking) :
    ranking.dataType = .bigInt ∨ ranking.dataType = .double := by
  cases ranking with
  | percentRank | cumeDist => exact .inr rfl
  | _ => exact .inl rfl

theorem Tally.typed_value (t : Tally) : Column.TypedValue t.value t.aggregate.dataType := by
  intro v hv
  cases t with
  | countStar | count =>
    obtain rfl := Option.some.inj hv
    rfl
  | sum | min | max =>
    obtain ⟨total, -, rfl⟩ := Option.map_eq_some_iff.1 hv
    rfl
  | avg =>
    rw [Tally.value] at hv
    split_ifs at hv
    obtain rfl := Option.some.inj hv
    rfl

namespace ColumnFrames

variable {f : ColumnFrames} {tallies : List Tally}

theorem typed_values (h : tallies.map Tally.aggregate = f.aggregates) :
    List.Forall₂ Column.TypedValue (tallies.map Tally.value) f.aggregateTypes := by
  rw [aggregateTypes, ← h, List.map_map]
  induction tallies generalizing f with
  | nil => exact .nil
  | cons t tallies ih => exact .cons t.typed_value (ih (f := { f with aggregates := _ }) rfl)

/-- Writing the tallies of a frame puts their values into a row. -/
theorem write_eq (h : tallies.map Tally.aggregate = f.aggregates) {output : Block}
    {capacity row : Nat} (hsheet : Column.Sheet f.aggregateTypes capacity output.columns)
    (hrow : row < capacity) :
    f.ops.write tallies output row = .ok (tallies, { output with
      columns := Column.putAll row output.columns (tallies.map Tally.value) }, .ok ()) := by
  have hwidth : ¬output.width < tallies.length := by
    have hlength := hsheet.length_eq
    rw [aggregateTypes, ← h, List.length_map, List.length_map] at hlength
    exact hlength ▸ Nat.lt_irrefl _
  simp only [ops, writeTallies, if_neg hwidth, writeRow_eq hsheet hrow (typed_values h)]
  rfl

end ColumnFrames

/-! ### Putting a block together -/

theorem Block.ofColumns_eq_ok {columns : List Column} {capacity : Nat} (hne : columns ≠ [])
    (hsize : ∀ c ∈ columns, c.size = capacity) :
    Block.ofColumns columns = .ok ⟨columns, capacity⟩ := by
  cases columns with
  | nil => exact absurd rfl hne
  | cons first rest =>
    have hfirst := hsize first List.mem_cons_self
    have hall : rest.all (fun c ↦ c.size == first.size) = true :=
      List.all_eq_true.2 fun c hc ↦ beq_iff_eq.2
        ((hsize c (List.mem_cons_of_mem _ hc)).trans hfirst.symm)
    rw [Block.ofColumns, hall, if_pos rfl, hfirst]

/-- A head and new columns of its size make a block, if there is a column at all. -/
theorem WindowEngine.assemble_eq {ε : Type} {types : List DataType} {head aggregates : Block}
    {rankings : List Column} (hhead : head.Regular types)
    (haggregates : ∀ c ∈ aggregates.columns, c.size = head.capacity)
    (hrankings : ∀ c ∈ rankings, c.size = head.capacity)
    (hne : head.columns ++ aggregates.columns ++ rankings ≠ []) :
    (assemble head aggregates rankings : Except (WindowError ε) Block) =
      .ok ⟨head.columns ++ aggregates.columns ++ rankings, head.length⟩ := by
  have hsize : ∀ c ∈ head.columns ++ aggregates.columns ++ rankings, c.size = head.capacity := by
    intro c hc
    rcases List.mem_append.1 hc with hc | hc
    · rcases List.mem_append.1 hc with hc | hc
      · exact hhead.size_eq c hc
      · exact haggregates c hc
    · exact hrankings c hc
  have hcapacity : (⟨head.columns ++ aggregates.columns ++ rankings, head.capacity⟩ :
      Block).capacity = head.capacity := by
    cases hcolumns : head.columns ++ aggregates.columns ++ rankings with
    | nil => exact absurd hcolumns hne
    | cons first rest => exact hsize first (hcolumns ▸ List.mem_cons_self)
  rw [assemble, Block.ofColumns_eq_ok hne hsize]
  simp only [Block.setLength, hcapacity, if_pos hhead.length_le]
  rfl

end Columnar
