import Columnar.Proofs.Columns
import Columnar.Proofs.Window.Schedules

/-!
# Aggregates of frames

What the aggregates in an output row are, in terms of the rows of the frame (`Aggregate.IsOver`):
counts of rows and of values, and of the integers in a column their exact sum, the least and the
greatest of them, and the quotient of the sum by their number. None of this mentions tallies or the
order in which rows are taken in, so it can be read as what a query asks for.

## From tallies to frames

A tally says as much of the rows that it took in (`Tally.IsOf`). Taking in a row keeps it so
(`Tally.IsOf.addRow`, by cases over the aggregates), hence so for all rows of a stretch
(`tally_isOf`). That a sum which is in range is exact is where the check in the code is needed.

The frame of a row is the stretch from the start of its partition to its last peer. **So nothing
else enters its aggregates** (`aggregates_of_session`): not the rows of the partition behind the
peers, though they may be in the same block, and not the rows of other partitions. Peers have the
same frame, hence the same aggregates.

That the columns of sums hold integers is not assumed of the rows. It follows from the types for
which the frames were described.
-/

namespace Columnar

/-! ### Values of aggregates -/

/-- The values that are present in a column of some rows. -/
def presentIn (frame : List Row) (column : Nat) : List Scalar :=
  frame.filterMap fun x ↦ x[column]?.join

/-- The values that are present in a column of some rows are all integers, and these if widened. -/
def Integers (frame : List Row) (column : Nat) (values : List Int64) : Prop :=
  (presentIn frame column).map Scalar.toInt64? = values.map some

/-- A value of an integer type can be widened. -/
theorem Scalar.exists_toInt64? {v : Scalar} (h : v.storage.dataType.isInteger = true) :
    ∃ i, v.toInt64? = some i := by
  cases v with
  | int32 v => exact ⟨v.toInt64, rfl⟩
  | int64 v => exact ⟨v, rfl⟩
  | boolean | double | text => cases h

/-- The sum of integers, not bounded by any range. -/
def exactSum (values : List Int64) : Int :=
  values.foldr (fun value total ↦ value.toInt + total) 0

/-- A sum of integers that is in range, if there are any. -/
def IsSum (values : List Int64) : Option Int64 → Prop
  | none => values = []
  | some total => values ≠ [] ∧ total.toInt = exactSum values

/-- The integer that comes before all others, if there are any. -/
def IsExtreme (before : Int → Int → Prop) (values : List Int64) : Option Int64 → Prop
  | none => values = []
  | some extreme => extreme ∈ values ∧ ∀ value ∈ values, before extreme.toInt value.toInt

/-- The value of an aggregate over the rows of a frame. -/
def Aggregate.IsOver (frame : List Row) (value : Option Scalar) : Aggregate → Prop
  | countStar => value = some (.int64 (.ofNat frame.length))
  | count column => value = some (.int64 (.ofNat (presentIn frame column).length))
  | sum column => ∃ values total, Integers frame column values ∧ IsSum values total ∧
    value = total.map .int64
  | min column => ∃ values least, Integers frame column values ∧ IsExtreme (· ≤ ·) values least ∧
    value = least.map .int64
  | max column => ∃ values greatest, Integers frame column values ∧
    IsExtreme (· ≥ ·) values greatest ∧ value = greatest.map .int64
  | avg column => ∃ values, ∃ total : Int64, Integers frame column values ∧
    total.toInt = exactSum values ∧ value = if values = [] then none
      else some (.double ((Double.ofInt64 total).div (.ofNat values.length)))

/-- An aggregate that needs integers finds none but these in a row. -/
def Aggregate.Reads (x : Row) (a : Aggregate) : Prop :=
  a.needsInteger = true → ∀ column, a.column? = some column → ∀ v, x[column]?.join = some v →
    ∃ i, v.toInt64? = some i

variable {frame : List Row} {x : Row} {column : Nat} {values : List Int64} {i : Int64}

theorem presentIn_concat (frame : List Row) (x : Row) (column : Nat) :
    presentIn (frame ++ [x]) column = presentIn frame column ++ x[column]?.join.toList := by
  rw [presentIn, List.filterMap_append, List.filterMap_cons]
  cases x[column]?.join <;> rfl

/-- A row adds its integer, if it has one. -/
theorem Integers.concat (h : Integers frame column values)
    (hx : ∀ v, x[column]?.join = some v → ∃ i, v.toInt64? = some i) :
    (x[column]?.join.bind Scalar.toInt64? = none ∧ Integers (frame ++ [x]) column values) ∨
      ∃ i, x[column]?.join.bind Scalar.toInt64? = some i ∧
        Integers (frame ++ [x]) column (values ++ [i]) := by
  rw [Integers] at h
  simp only [Integers, presentIn_concat, List.map_append, h]
  cases hvalue : x[column]?.join with
  | none => exact .inl ⟨rfl, List.append_nil _⟩
  | some v =>
    obtain ⟨i, hi⟩ := hx v hvalue
    exact .inr ⟨i, hi, by rw [Option.toList_some, List.map_singleton, hi, List.map_singleton]⟩

theorem exactSum_concat (values : List Int64) (i : Int64) :
    exactSum (values ++ [i]) = exactSum values + i.toInt := by
  induction values with
  | nil => exact Int.add_comm _ _
  | cons value values ih => exact (congrArg (value.toInt + ·) ih).trans (Int.add_assoc _ _ _).symm

/-- A sum that is in range is exact. -/
theorem toInt_of_addInRange? {a b total : Int64} (h : addInRange? a b = some total) :
    total.toInt = a.toInt + b.toInt := by
  rw [addInRange?] at h
  split_ifs at h with hrange
  obtain rfl := Option.some.inj h
  rw [Int64.toInt_minValue, Int64.toInt_maxValue] at hrange
  exact Int64.toInt_ofInt_of_le hrange.1 (by omega)

/-- One more integer comes before all others, or the one that came before them still does. -/
theorem IsExtreme.concat {before : Int → Int → Prop} {extreme : Option Int64}
    (h : IsExtreme before values extreme) (hrefl : ∀ a, before a a)
    (htrans : ∀ a b c, before a b → before b c → before a c) {choose : Int64 → Int64 → Int64}
    (hchoose : ∀ a b, (choose a b = a ∧ before a.toInt b.toInt) ∨
      (choose a b = b ∧ before b.toInt a.toInt)) (i : Int64) :
    IsExtreme before (values ++ [i]) (some (extreme.elim i (choose · i))) := by
  cases extreme with
  | none =>
    obtain rfl : values = [] := h
    refine ⟨List.mem_cons_self, fun value hvalue ↦ ?_⟩
    obtain rfl := List.mem_singleton.1 hvalue
    exact hrefl _
  | some extreme =>
    obtain ⟨hmem, hbefore⟩ := h
    rw [Option.elim_some]
    rcases hchoose extreme i with ⟨heq, hle⟩ | ⟨heq, hle⟩
    · rw [heq]
      refine ⟨List.mem_append_left _ hmem, fun value hvalue ↦ ?_⟩
      rcases List.mem_append.1 hvalue with hvalue | hvalue
      · exact hbefore value hvalue
      · obtain rfl := List.mem_singleton.1 hvalue
        exact hle
    · rw [heq]
      refine ⟨List.mem_append_right _ List.mem_cons_self, fun value hvalue ↦ ?_⟩
      rcases List.mem_append.1 hvalue with hvalue | hvalue
      · exact htrans _ _ _ hle (hbefore value hvalue)
      · obtain rfl := List.mem_singleton.1 hvalue
        exact hrefl _

theorem min_eq (a b : Int64) :
    (min a b = a ∧ a.toInt ≤ b.toInt) ∨ (min a b = b ∧ b.toInt ≤ a.toInt) := by
  by_cases hle : a ≤ b
  · exact .inl ⟨if_pos hle, Int64.le_iff_toInt_le.1 hle⟩
  · refine .inr ⟨if_neg hle, ?_⟩
    rw [Int64.le_iff_toInt_le] at hle
    exact Int.le_of_lt (Int.not_le.1 hle)

theorem max_eq (a b : Int64) :
    (max a b = a ∧ a.toInt ≥ b.toInt) ∨ (max a b = b ∧ b.toInt ≥ a.toInt) := by
  by_cases hle : a ≤ b
  · exact .inr ⟨if_pos hle, Int64.le_iff_toInt_le.1 hle⟩
  · refine .inl ⟨if_neg hle, ?_⟩
    rw [Int64.le_iff_toInt_le] at hle
    exact Int.le_of_lt (Int.not_le.1 hle)

theorem IsExtreme.concat_min {least : Option Int64} (h : IsExtreme (· ≤ ·) values least)
    (i : Int64) : IsExtreme (· ≤ ·) (values ++ [i]) (some (least.elim i (min · i))) :=
  h.concat (fun _ ↦ Int.le_refl _) (fun _ _ _ ↦ Int.le_trans) min_eq i

theorem IsExtreme.concat_max {greatest : Option Int64} (h : IsExtreme (· ≥ ·) values greatest)
    (i : Int64) : IsExtreme (· ≥ ·) (values ++ [i]) (some (greatest.elim i (max · i))) :=
  h.concat (fun _ ↦ Int.le_refl _) (fun _ _ _ hab hbc ↦ Int.le_trans hbc hab) max_eq i

/-! ### Tallies of rows -/

namespace Tally

/-- A tally of the rows of a frame. -/
def IsOf (frame : List Row) : Tally → Prop
  | countStar rows => rows = frame.length
  | count column rows => rows = (presentIn frame column).length
  | sum column total => ∃ values, Integers frame column values ∧ IsSum values total
  | min column least => ∃ values, Integers frame column values ∧ IsExtreme (· ≤ ·) values least
  | max column greatest => ∃ values, Integers frame column values ∧
    IsExtreme (· ≥ ·) values greatest
  | avg column total rows => ∃ values, Integers frame column values ∧
    total.toInt = exactSum values ∧ rows = values.length

theorem isOf_start (a : Aggregate) : (start a).IsOf [] := by
  have hnone (column : Nat) : Integers [] column [] := rfl
  cases a with
  | countStar | count => rfl
  | sum column | min column | max column => exact ⟨[], hnone column, rfl⟩
  | avg column => exact ⟨[], hnone column, rfl, rfl⟩

/-- A tally has the value of its aggregate over the rows. -/
theorem IsOf.isOver {t : Tally} (h : t.IsOf frame) : t.aggregate.IsOver frame t.value := by
  cases t with
  | countStar | count =>
    obtain rfl := h
    rfl
  | sum | min | max =>
    obtain ⟨values, hvalues, hspec⟩ := h
    exact ⟨values, _, hvalues, hspec, rfl⟩
  | avg column total rows =>
    obtain ⟨values, hvalues, htotal, rfl⟩ := h
    refine ⟨values, total, hvalues, htotal, ?_⟩
    cases values <;> rfl

/-- What is tallied of a column takes in the value there. -/
theorem addRow_eq_addValue {t : Tally} (h : t.aggregate.column? = some column) :
    t.addRow x = t.addValue x[column]?.join := by
  rw [addRow, h, Option.bind_some]

/-- A tally that takes in a row is one of the rows with it. -/
theorem IsOf.addRow {t t' : Tally} (h : t.IsOf frame) (hx : t.aggregate.Reads x)
    (hadd : t.addRow x = .ok t') : t'.IsOf (frame ++ [x]) := by
  cases t with
  | countStar rows =>
    obtain rfl := Except.ok.inj hadd
    obtain rfl : rows = frame.length := h
    show frame.length + 1 = (frame ++ [x]).length
    rw [List.length_append, List.length_singleton]
  | count column rows =>
    obtain rfl := Except.ok.inj hadd
    obtain rfl : rows = (presentIn frame column).length := h
    show (if x[column]?.join.isSome then _ else _) = (presentIn (frame ++ [x]) column).length
    rw [presentIn_concat, List.length_append]
    cases x[column]?.join <;> rfl
  | sum column total =>
    obtain ⟨values, hvalues, hsum⟩ := h
    rw [addRow_eq_addValue rfl] at hadd
    rcases hvalues.concat (hx rfl column rfl) with ⟨hnone, hvalues'⟩ | ⟨i, hi, hvalues'⟩
    · simp only [addValue, hnone] at hadd
      obtain rfl := Except.ok.inj hadd
      exact ⟨values, hvalues', hsum⟩
    · cases total with
      | none =>
        simp only [addValue, hi] at hadd
        obtain rfl := Except.ok.inj hadd
        obtain rfl : values = [] := hsum
        exact ⟨[i], hvalues', List.cons_ne_nil _ _, (Int.add_zero _).symm⟩
      | some total =>
        simp only [addValue, hi] at hadd
        cases htotal : addInRange? total i with
        | none =>
          rw [htotal] at hadd
          cases hadd
        | some total' =>
          rw [htotal] at hadd
          obtain rfl := Except.ok.inj hadd
          refine ⟨values ++ [i], hvalues', List.concat_ne_nil i values, ?_⟩
          rw [toInt_of_addInRange? htotal, hsum.2, exactSum_concat]
  | min column least =>
    obtain ⟨values, hvalues, hleast⟩ := h
    rw [addRow_eq_addValue rfl] at hadd
    rcases hvalues.concat (hx rfl column rfl) with ⟨hnone, hvalues'⟩ | ⟨i, hi, hvalues'⟩
    · simp only [addValue, hnone] at hadd
      obtain rfl := Except.ok.inj hadd
      exact ⟨values, hvalues', hleast⟩
    · simp only [addValue, hi] at hadd
      obtain rfl := Except.ok.inj hadd
      exact ⟨values ++ [i], hvalues', IsExtreme.concat_min hleast i⟩
  | max column greatest =>
    obtain ⟨values, hvalues, hgreatest⟩ := h
    rw [addRow_eq_addValue rfl] at hadd
    rcases hvalues.concat (hx rfl column rfl) with ⟨hnone, hvalues'⟩ | ⟨i, hi, hvalues'⟩
    · simp only [addValue, hnone] at hadd
      obtain rfl := Except.ok.inj hadd
      exact ⟨values, hvalues', hgreatest⟩
    · simp only [addValue, hi] at hadd
      obtain rfl := Except.ok.inj hadd
      exact ⟨values ++ [i], hvalues', IsExtreme.concat_max hgreatest i⟩
  | avg column total rows =>
    obtain ⟨values, hvalues, hsum, rfl⟩ := h
    rw [addRow_eq_addValue rfl] at hadd
    rcases hvalues.concat (hx rfl column rfl) with ⟨hnone, hvalues'⟩ | ⟨i, hi, hvalues'⟩
    · simp only [addValue, hnone] at hadd
      obtain rfl := Except.ok.inj hadd
      exact ⟨values, hvalues', hsum, rfl⟩
    · simp only [addValue, hi] at hadd
      cases htotal : addInRange? total i with
      | none =>
        rw [htotal] at hadd
        cases hadd
      | some total' =>
        rw [htotal] at hadd
        obtain rfl := Except.ok.inj hadd
        refine ⟨values ++ [i], hvalues', ?_, ?_⟩
        · rw [toInt_of_addInRange? htotal, hsum, exactSum_concat]
        · rw [List.length_append, List.length_singleton]

end Tally

namespace ColumnFrames

variable {f : ColumnFrames} {rows outs : List Row} {config : WindowConfig} {types : List DataType}
  {partitionColumns orderColumns : List Nat} {aggregates : List Aggregate}
  {calls : List WindowCall} {tallies tallies' : List Tally}

theorem tallyRow_isOf (h : ∀ t ∈ tallies, t.IsOf frame)
    (hx : ∀ a ∈ tallies.map Tally.aggregate, a.Reads x) (hrow : tallyRow tallies x = .ok tallies') :
    ∀ t ∈ tallies', t.IsOf (frame ++ [x]) := by
  induction tallies generalizing tallies' with
  | nil =>
    obtain rfl := Except.ok.inj hrow
    exact nofun
  | cons t tallies ih =>
    rw [tallyRow_cons] at hrow
    obtain ⟨t', ht, hrow⟩ := exists_of_bind_eq_ok hrow
    obtain ⟨rest, hrest, hrow⟩ := exists_of_bind_eq_ok hrow
    obtain rfl := Except.ok.inj hrow
    intro u hu
    rcases List.mem_cons.1 hu with rfl | hu
    · exact (h t List.mem_cons_self).addRow (hx _ List.mem_cons_self) (eq_ok_of_mapError_eq_ok ht)
    · exact ih (fun t ht ↦ h t (List.mem_cons_of_mem _ ht))
        (fun a ha ↦ hx a (List.mem_cons_of_mem _ ha)) hrest u hu

/-- Tallies that take in rows are those of the rows with them. -/
theorem foldlM_isOf {xs : List Row} (h : ∀ t ∈ tallies, t.IsOf frame)
    (hxs : ∀ x ∈ xs, ∀ a ∈ tallies.map Tally.aggregate, a.Reads x)
    (hfold : xs.foldlM tallyRow tallies = .ok tallies') : ∀ t ∈ tallies', t.IsOf (frame ++ xs) := by
  induction xs generalizing frame tallies with
  | nil =>
    obtain rfl := Except.ok.inj hfold
    rwa [List.append_nil]
  | cons x xs ih =>
    rw [List.foldlM_cons] at hfold
    obtain ⟨here, hrow, hfold⟩ := exists_of_bind_eq_ok hfold
    have hnext := ih (tallyRow_isOf h (hxs x List.mem_cons_self) hrow) (fun y hy a ha ↦
      hxs y (List.mem_cons_of_mem _ hy) a (map_aggregate_tallyRow hrow ▸ ha)) hfold
    rwa [List.append_assoc] at hnext

/-- The tallies of a stretch are tallies of its rows. -/
theorem tally_isOf {first last : Nat} (htally : f.tally rows first last = .ok tallies)
    (hreads : ∀ x ∈ rows, ∀ a ∈ f.aggregates, a.Reads x) :
    ∀ t ∈ tallies, t.IsOf ((rows.take last).drop first) := by
  rw [← List.nil_append ((rows.take last).drop first)]
  refine foldlM_isOf (fun t ht ↦ ?_) (fun x hx a ha ↦ ?_) htally
  · obtain ⟨a, -, rfl⟩ := List.mem_map.1 ht
    exact Tally.isOf_start a
  · rw [map_aggregate_start] at ha
    exact hreads x (List.mem_of_mem_take (List.mem_of_mem_drop hx)) a ha

/-- The tallies of a stretch have the values of the aggregates over its rows. -/
theorem forall₂_isOver {first last : Nat} (htally : f.tally rows first last = .ok tallies)
    (hreads : ∀ x ∈ rows, ∀ a ∈ f.aggregates, a.Reads x) :
    List.Forall₂ (fun a value ↦ a.IsOver ((rows.take last).drop first) value) f.aggregates
      (tallies.map Tally.value) := by
  rw [← map_aggregate_tally htally, List.forall₂_map_left_iff, List.forall₂_map_right_iff]
  exact List.forall₂_same.2 fun t ht ↦ (tally_isOf htally hreads t ht).isOver

/-! ### Rows of blocks -/

/-- Aggregates that were checked find integers where they need them. -/
theorem reads_of_mem_rowsOf
    (hf : ofColumns partitionColumns orderColumns aggregates types = .ok f) {blocks : List Block}
    (hregular : ∀ b ∈ blocks, b.Regular types) (h : rowsOf blocks = .ok rows) :
    ∀ x ∈ rows, ∀ a ∈ f.aggregates, a.Reads x := by
  intro x hx a ha hneeds column hcolumn v hv
  rw [ofColumns] at hf
  obtain ⟨u, -, hf⟩ := exists_of_bind_eq_ok hf
  obtain ⟨u', haggregates, hf⟩ := exists_of_bind_eq_ok hf
  obtain rfl := Except.ok.inj hf
  have hcheck := of_forM_eq_ok haggregates a ha
  obtain ⟨b, hb, index, hrow⟩ := exists_row_of_mem_rowsOf h hx
  -- the value is read from a column of the type that was checked
  obtain ⟨hlt, hvalue⟩ := List.getElem?_eq_some_iff.1 (Option.join_eq_some_iff.1 hv)
  have hall := Checked.mapM_eq_ok_iff.1 hrow
  have hlt' : column < b.columns.length := hall.length_eq ▸ hlt
  have hget : b.columns[column].get index = .ok (some v) := hvalue ▸ hall.get hlt' hlt
  have htype : types[column]? = some b.columns[column].dataType := by
    rw [← (hregular b hb).types_eq, Block.types, List.getElem?_map, List.getElem?_eq_getElem hlt']
    rfl
  simp only [checkAggregate, hcolumn, htype, hneeds, Bool.true_and] at hcheck
  split_ifs at hcheck with hinteger
  have hstorage : v.storage = b.columns[column].storage := Column.suits_of_get_eq_ok hget v rfl
  have htyped : b.columns[column].dataType.isInteger = true := by simpa using hinteger
  exact Scalar.exists_toInt64? (hstorage ▸ htyped)

/-! ### Sessions -/

/-- The values of the aggregates in an output row. -/
def aggregatesOf (config : WindowConfig) (out : Row) : Row :=
  (out.drop config.inputTypes.length).take config.aggregateTypes.length

/-- The output row of a position, and the aggregates over its frame. -/
theorem Answers.aggregates_eq (h : f.Answers rows config.rankings outs)
    (hs : f.Stream config.inputTypes rows)
    (haggregates : config.aggregateTypes = f.aggregateTypes) {r first size peer peers : Nat}
    (hr : r < rows.length) (hpartition : GroupAt (f.partitionKey rows) rows.length r first size)
    (hpeers : GroupAt (f.peerKey rows) rows.length r peer peers) :
    ∃ out tallies, outs[r]? = some out ∧ f.tally rows first (peer + peers) = .ok tallies ∧
      aggregatesOf config out = tallies.map Tally.value := by
  have hlt : r < outs.length := h.length_eq.symm ▸ hr
  obtain ⟨x, place, tallies, hx, hplace, htally, hout⟩ :=
    h.emits r _ (List.getElem?_eq_getElem hlt)
  obtain ⟨hfirst, -⟩ := hpartition.unique hr hplace.partition
  obtain ⟨hpeer, hpeers'⟩ := hpeers.unique hr hplace.peers
  rw [hfirst, hpeer, hpeers'] at htally
  refine ⟨outs[r], tallies, List.getElem?_eq_getElem hlt, htally, ?_⟩
  have hwidth := hs.length_row x (List.mem_of_getElem? hx)
  have htallies := congrArg List.length (map_aggregate_tally htally)
  rw [List.length_map] at htallies
  rw [aggregatesOf, hout, haggregates, aggregateTypes, List.length_map, ← htallies, ← hwidth,
    List.append_assoc, List.drop_left]
  exact List.take_left' (List.length_map _)

/-- In a session without a refusal the aggregates in every output row are those over the rows from
the start of the partition of the row to its last peer, wherever blocks end between them. So peers
have the same aggregates, and no row of another partition has a part in them. -/
theorem aggregates_of_session
    (hf : ofColumns partitionColumns orderColumns aggregates config.inputTypes = .ok f)
    (haggregates : config.aggregateTypes = f.aggregateTypes) (hsorted : f.Sorted rows)
    (hfeeds : f.Feeds rows config calls) {run : WindowRun (List Tally) FrameError}
    (hrun : (WindowEngine.start config f.ops f.start).session calls = .ok run)
    (hnone : run.refusal? = none) :
    ∃ outs, f.Completes rows run outs ∧ outs.length = rows.length ∧
      ∀ r < rows.length, (∃ place, f.IsPlace rows r place) ∧
        ∀ first size peer peers, GroupAt (f.partitionKey rows) rows.length r first size →
          GroupAt (f.peerKey rows) rows.length r peer peers → ∃ out, outs[r]? = some out ∧
            List.Forall₂ (fun a value ↦ a.IsOver ((rows.take (peer + peers)).drop first) value)
              f.aggregates (aggregatesOf config out) ∧
            ∀ r' out', outs[r']? = some out' → f.peerKey rows r' = f.peerKey rows r →
              aggregatesOf config out' = aggregatesOf config out := by
  have hs := hfeeds.stream hf hsorted
  have hreads := reads_of_mem_rowsOf hf hfeeds.regular hfeeds.rows_eq
  obtain ⟨run', hrun', ⟨outs, hcompletes, hanswers⟩ | ⟨refusal, hsome, -⟩⟩ :=
    hfeeds.session_eq hs haggregates
  · obtain rfl := Except.ok.inj (hrun.symm.trans hrun')
    refine ⟨outs, hcompletes, hanswers.length_eq, fun r hr ↦ ⟨?_, ?_⟩⟩
    · have hlt : r < outs.length := hanswers.length_eq.symm ▸ hr
      obtain ⟨x, place, tallies, -, hplace, -, -⟩ :=
        hanswers.emits r _ (List.getElem?_eq_getElem hlt)
      exact ⟨place, hplace⟩
    · intro first size peer peers hpartition hpeers
      obtain ⟨out, tallies, hout, htally, hvalues⟩ :=
        hanswers.aggregates_eq hs haggregates hr hpartition hpeers
      refine ⟨out, hout, hvalues ▸ forall₂_isOver htally hreads, fun r' out' hout' hkey ↦ ?_⟩
      -- a peer has the same partition and the same peers, and so the same tallies
      have hr' : r' < rows.length := hanswers.length_eq ▸ (List.getElem?_eq_some_iff.1 hout').1
      obtain ⟨out'', tallies', hout'', htally', hvalues'⟩ :=
        hanswers.aggregates_eq hs haggregates hr'
        (hpartition.congr (partitionKey_eq hkey)) (hpeers.congr hkey)
      obtain rfl := Option.some.inj (hout'.symm.trans hout'')
      obtain rfl := Except.ok.inj (htally.symm.trans htally')
      rw [hvalues, hvalues']
  · obtain rfl := Except.ok.inj (hrun.symm.trans hrun')
    exact absurd (hnone.symm.trans hsome) (Option.some_ne_none _).symm

/-- All aggregates of the second column, over partitions by the first one. -/
def measureFrames : ColumnFrames :=
  ⟨[0], [1], [.countStar, .count 1, .sum 1, .min 1, .max 1, .avg 1]⟩

/-- A window with these aggregates. -/
def measureConfig : WindowConfig :=
  ⟨[.bigInt, .integer], measureFrames.aggregateTypes, [.rowNumber]⟩

/-- A block of two columns. -/
def measureBlock (firsts : List Int64) (seconds : List (Option Int32)) : Block :=
  ⟨[.int64 (.ofValues firsts), .int32 (.ofList seconds)], firsts.length⟩

/-- Four rows in two partitions, with values that are missing. -/
def measureRows : List Row :=
  [(1, some 4), (2, none), (2, none), (2, some 3)].map fun (a, b) ↦
    [some (.int64 a), b.map .int32]

/-- The rows in blocks that end between peers and within a partition. -/
def measureCalls : List WindowCall :=
  [.push (measureBlock [1, 2] [some 4, none]), .push (measureBlock [2] [none]),
    .push (measureBlock [2] [some 3]), .process]

theorem feeds_measureCalls : measureFrames.Feeds measureRows measureConfig measureCalls :=
  ⟨rfl, by decide, nofun, nofun, nofun, fun _ ↦ rfl, trivial⟩

/-- The last row has the aggregates over the three rows of its partition. -/
theorem aggregates_of_session_measures : ∃ run outs out,
    (WindowEngine.start measureConfig measureFrames.ops measureFrames.start).session measureCalls =
      .ok run ∧ measureFrames.Completes measureRows run outs ∧ outs[3]? = some out ∧
      List.Forall₂ (fun a value ↦ a.IsOver (measureRows.drop 1) value) measureFrames.aggregates
        (aggregatesOf measureConfig out) := by
  have hf : ofColumns [0] [1] measureFrames.aggregates measureConfig.inputTypes =
      .ok measureFrames := rfl
  obtain ⟨run, hrun, hnone⟩ : ∃ run,
      (WindowEngine.start measureConfig measureFrames.ops measureFrames.start).session
        measureCalls = .ok run ∧ run.refusal? = none :=
    ⟨_, rfl, rfl⟩
  obtain ⟨outs, hcompletes, -, hframes⟩ :=
    aggregates_of_session hf rfl (by decide) feeds_measureCalls hrun hnone
  obtain ⟨out, hout, hvalues, -⟩ := (hframes 3 (by decide)).2 1 3 3 1 (by decide) (by decide)
  exact ⟨run, outs, out, hrun, hcompletes, hout, hvalues⟩

end ColumnFrames

end Columnar
