import Columnar.Proofs.Window.Rows

/-!
# Tallies of stretches

The aggregation of a frame as a fold over the rows of a stream. Taking a row into a tally reads one
value of it (`Tally.add_eq`), so what is tallied over a stretch depends on its rows alone and not on
the blocks that hold them.

`tally` is the fold from one position to before another, and fails where a sum overflows. Two
properties carry all that windows need of it.

* One more row is one more step (`tally_succ`), so **the tallies of a partition up to a row are the
  start for the next**. A window aggregates the rows of a frame only, and has the aggregates over
  the partition up to there.
* A stretch that overflows does so however it goes on (`tally_eq_error`). A frame that is refused is
  thus refused in whichever larger stretch it is seen.

Which aggregates are tallied never changes, also where one of them overflows: the tallies that are
left then are of no use to anybody, but there are as many of them and they are of the same kinds.
-/

namespace Columnar

namespace Tally

/-- What is tallied. -/
def aggregate : Tally → Aggregate
  | countStar _ => .countStar
  | count column _ => .count column
  | sum column _ => .sum column
  | min column _ => .min column
  | max column _ => .max column
  | avg column _ _ => .avg column

/-- Take in the value of a row. -/
def addValue (value : Option Scalar) : Tally → Except Nat Tally
  | countStar rows => .ok (countStar (rows + 1))
  | count column rows => .ok (count column (if value.isSome then rows + 1 else rows))
  | sum column total =>
    match value.bind Scalar.toInt64?, total with
    | none, _ => .ok (sum column total)
    | some value, none => .ok (sum column (some value))
    | some value, some total =>
      match addInRange? total value with
      | some total => .ok (sum column (some total))
      | none => .error column
  | min column least =>
    match value.bind Scalar.toInt64? with
    | none => .ok (min column least)
    | some value => .ok (min column (some (least.elim value (Min.min · value))))
  | max column greatest =>
    match value.bind Scalar.toInt64? with
    | none => .ok (max column greatest)
    | some value => .ok (max column (some (greatest.elim value (Max.max · value))))
  | avg column total rows =>
    match value.bind Scalar.toInt64? with
    | none => .ok (avg column total rows)
    | some value =>
      match addInRange? total value with
      | some total => .ok (avg column total (rows + 1))
      | none => .error column

/-- Take in a row. -/
def addRow (x : Row) (t : Tally) : Except Nat Tally :=
  t.addValue (t.aggregate.column?.bind (x[·]?)).join

theorem aggregate_start (a : Aggregate) : (start a).aggregate = a := by cases a <;> rfl

/-- Taking in a row of a block takes in its values. -/
theorem add_eq {input : Block} {row : Nat} {x : Row} (hx : input.row row = .ok x) (t : Tally)
    (hcolumn : ∀ column, t.aggregate.column? = some column → column < x.length) :
    t.add input row = .ok (t.addRow x) := by
  have hread (column : Nat) (h : t.aggregate.column? = some column) :
      input.cell column row = .ok (t.aggregate.column?.bind (x[·]?)).join := by
    have hlt := hcolumn column h
    rw [Block.cell_eq hx hlt, h, Option.bind_some, List.getElem?_eq_getElem hlt, Option.join_some]
  rw [addRow]
  generalize (t.aggregate.column?.bind (x[·]?)).join = value at hread ⊢
  cases t with
  | countStar rows => rfl
  | count column rows =>
    rw [add, hread column rfl]
    rfl
  | sum column total =>
    simp only [add, integerAt, hread column rfl, Checked.ok_bind, Checked.pure_eq_ok, addValue]
    cases value.bind Scalar.toInt64? with
    | none => rfl
    | some value =>
      cases total with
      | none => rfl
      | some total =>
        simp only
        cases addInRange? total value <;> rfl
  | min column least =>
    simp only [add, integerAt, hread column rfl, Checked.ok_bind, Checked.pure_eq_ok, addValue]
    cases value.bind Scalar.toInt64? <;> rfl
  | max column greatest =>
    simp only [add, integerAt, hread column rfl, Checked.ok_bind, Checked.pure_eq_ok, addValue]
    cases value.bind Scalar.toInt64? <;> rfl
  | avg column total rows =>
    simp only [add, integerAt, hread column rfl, Checked.ok_bind, Checked.pure_eq_ok, addValue]
    cases value.bind Scalar.toInt64? with
    | none => rfl
    | some value =>
      simp only
      cases addInRange? total value <;> rfl

/-- What is tallied stays the same. -/
theorem aggregate_addValue {value : Option Scalar} {t t' : Tally} (h : t.addValue value = .ok t') :
    t'.aggregate = t.aggregate := by
  unfold addValue at h
  cases t with
  | countStar | count => cases h; rfl
  | sum | min | max | avg =>
    simp only at h
    repeat' split at h
    all_goals cases h <;> rfl

end Tally

/-! ### Rows into tallies -/

namespace ColumnFrames

/-- Take a row into tallies, unless one of them overflows. -/
def tallyRow (tallies : List Tally) (x : Row) : Except FrameError (List Tally) :=
  tallies.mapM fun tally ↦ (tally.addRow x).mapError .sumOverflow

variable (f : ColumnFrames) (rows : List Row)

/-- The tallies of the rows of a stream from one position to before another. -/
def tally (first last : Nat) : Except FrameError (List Tally) :=
  ((rows.take last).drop first).foldlM tallyRow f.start

variable {f rows} {x : Row} {tallies : List Tally}

theorem tallyRow_cons (t : Tally) :
    tallyRow (t :: tallies) x = (do
      let t ← (t.addRow x).mapError FrameError.sumOverflow
      let tallies ← tallyRow tallies x
      return t :: tallies) := by
  rw [tallyRow, List.mapM_cons]
  rfl

theorem map_aggregate_tallyRow {tallies' : List Tally} (h : tallyRow tallies x = .ok tallies') :
    tallies'.map Tally.aggregate = tallies.map Tally.aggregate := by
  induction tallies generalizing tallies' with
  | nil =>
    obtain rfl := Except.ok.inj h
    rfl
  | cons t tallies ih =>
    rw [tallyRow_cons] at h
    obtain ⟨t', ht, h⟩ := exists_of_bind_eq_ok h
    obtain ⟨rest, hrest, h⟩ := exists_of_bind_eq_ok h
    obtain rfl := Except.ok.inj h
    have haggregate := Tally.aggregate_addValue (eq_ok_of_mapError_eq_ok ht)
    rw [List.map_cons, List.map_cons, ih hrest, haggregate]

theorem tallyRow_eq_error {cause : FrameError} (h : tallyRow tallies x = .error cause) :
    ∃ column, cause = .sumOverflow column := by
  induction tallies with
  | nil => cases h
  | cons t tallies ih =>
    rw [tallyRow_cons] at h
    rcases eq_error_of_bind_eq_error h with ht | ⟨t', -, h⟩
    · obtain ⟨column, -, hcause⟩ := exists_of_mapError_eq_error ht
      exact ⟨column, hcause⟩
    · rcases eq_error_of_bind_eq_error h with hrest | ⟨rest, -, h⟩
      · exact ih hrest
      · cases h

/-- Taking a row of a block into tallies takes in its values. -/
theorem addRow_eq {input : Block} {row : Nat} (hx : input.row row = .ok x)
    (hcolumns : ∀ t ∈ tallies, ∀ column, t.aggregate.column? = some column → column < x.length) :
    ∃ left, addRow input row tallies = .ok (match tallyRow tallies x with
      | .ok tallies' => (tallies', .ok ())
      | .error cause => (left, .error cause)) := by
  induction tallies with
  | nil => exact ⟨[], rfl⟩
  | cons t tallies ih =>
    obtain ⟨left, hleft⟩ := ih fun t' ht' ↦ hcolumns t' (List.mem_cons_of_mem _ ht')
    have hadd := Tally.add_eq hx t (hcolumns t List.mem_cons_self)
    rw [addRow, hadd, Checked.ok_bind, tallyRow_cons]
    cases ht : t.addRow x with
    | error column => exact ⟨t :: tallies, rfl⟩
    | ok t' =>
      refine ⟨t' :: left, ?_⟩
      simp only [hleft, Checked.ok_bind]
      cases tallyRow tallies x <;> rfl

/-- Taking a row of a block into tallies leaves tallies of the same aggregates, also where one of
them overflows. -/
theorem addRow_gives {input : Block} {row : Nat} (hx : input.row row = .ok x)
    (hcolumns : ∀ t ∈ tallies, ∀ column, t.aggregate.column? = some column → column < x.length) :
    (addRow input row tallies).Gives fun (left, _) ↦
      left.map Tally.aggregate = tallies.map Tally.aggregate := by
  induction tallies with
  | nil => exact ⟨_, rfl, rfl⟩
  | cons t tallies ih =>
    rw [addRow, Tally.add_eq hx t (hcolumns t List.mem_cons_self), Checked.ok_bind]
    cases ht : t.addRow x with
    | error column => exact ⟨_, rfl, rfl⟩
    | ok t' =>
      refine (ih fun t ht ↦ hcolumns t (List.mem_cons_of_mem _ ht)).bind
        fun ⟨left, result⟩ _ hleft ↦ ⟨_, rfl, ?_⟩
      exact congrArg₂ List.cons (Tally.aggregate_addValue ht) hleft

/-! ### Stretches -/

theorem tally_of_le (f : ColumnFrames) (rows : List Row) {first last : Nat} (h : last ≤ first) :
    f.tally rows first last = .ok f.start := by
  rw [tally, List.drop_eq_nil_of_le (Nat.le_trans (List.length_take_le last rows) h)]
  rfl

/-- One more row. -/
theorem tally_succ {first last : Nat} (hle : first ≤ last) (hx : rows[last]? = some x) :
    f.tally rows first (last + 1) = f.tally rows first last >>= (tallyRow · x) := by
  have hlt := (List.getElem?_eq_some_iff.1 hx).1
  have hlength : first ≤ (rows.take last).length := by rw [List.length_take]; omega
  rw [tally, List.take_add_one, hx, Option.toList_some, List.drop_append_of_le_length hlength,
    List.foldlM_append, tally]
  congr 1
  funext tallies
  rw [List.foldlM_cons]
  exact bind_pure _

/-- A stretch that overflows does so if it goes on. -/
theorem tally_eq_error {first last last' : Nat} {cause : FrameError} (hle : first ≤ last)
    (hle' : last ≤ last') (h : f.tally rows first last = .error cause) :
    f.tally rows first last' = .error cause := by
  induction hle' with
  | refl => exact h
  | @step last' hle' ih =>
    cases hx : rows[last']? with
    | none =>
      have hlength := List.getElem?_eq_none_iff.1 hx
      rw [tally, List.take_of_length_le (Nat.le_succ_of_le hlength)]
      rwa [tally, List.take_of_length_le hlength] at ih
    | some x =>
      rw [tally_succ (Nat.le_trans hle hle') hx, ih]
      rfl

theorem map_aggregate_foldlM {xs : List Row} {tallies tallies' : List Tally}
    (h : xs.foldlM tallyRow tallies = .ok tallies') :
    tallies'.map Tally.aggregate = tallies.map Tally.aggregate := by
  induction xs generalizing tallies with
  | nil =>
    obtain rfl := Except.ok.inj h
    rfl
  | cons x xs ih =>
    rw [List.foldlM_cons] at h
    obtain ⟨here, hx, h⟩ := exists_of_bind_eq_ok h
    exact (ih h).trans (map_aggregate_tallyRow hx)

theorem map_aggregate_start (f : ColumnFrames) : f.start.map Tally.aggregate = f.aggregates := by
  rw [start, List.map_map]
  exact List.map_congr_left (fun a _ ↦ Tally.aggregate_start a) |>.trans (List.map_id _)

/-- The tallies of a stretch are those of the aggregates. -/
theorem map_aggregate_tally {first last : Nat} {tallies : List Tally}
    (h : f.tally rows first last = .ok tallies) : tallies.map Tally.aggregate = f.aggregates :=
  (map_aggregate_foldlM h).trans (map_aggregate_start f)

/-- The only way for a stretch to fail is to overflow. -/
theorem exists_of_tally_eq_error {first last : Nat} {cause : FrameError}
    (h : f.tally rows first last = .error cause) : ∃ column, cause = .sumOverflow column := by
  rw [tally] at h
  generalize f.start = tallies at h
  generalize (rows.take last).drop first = xs at h
  induction xs generalizing tallies with
  | nil => cases h
  | cons x xs ih =>
    rw [List.foldlM_cons] at h
    rcases eq_error_of_bind_eq_error h with hx | ⟨here, -, h⟩
    · exact tallyRow_eq_error hx
    · exact ih here h

/-- Taking the rows of a stretch into the tallies of the stretch before it. -/
theorem Stream.aggregateRows_eq {types : List DataType} (hs : f.Stream types rows)
    {e : WindowEngine (List Tally) FrameError} (hops : e.ops = f.ops) {refs : List (Block × Nat)}
    {first last : Nat} (hshows : Shows rows last refs) (hle : first ≤ last)
    {aggregation : List Tally} (htally : f.tally rows first last = .ok aggregation) :
    ∃ left, e.aggregateRows aggregation refs =
      .ok (match f.tally rows first (last + refs.length) with
        | .ok tallies => (tallies, .ok ())
        | .error cause => (left, .error cause)) := by
  induction refs generalizing last aggregation with
  | nil => exact ⟨[], by rw [List.length_nil, Nat.add_zero, htally]; rfl⟩
  | cons ref refs ih =>
    obtain ⟨x, hx, hrow⟩ := hshows.head
    have hlength := hs.length_row x (List.mem_of_getElem? hx)
    have hcolumns : ∀ t ∈ aggregation, ∀ column, t.aggregate.column? = some column →
        column < x.length := fun t ht column hcolumn ↦ by
      have hmem := List.mem_map_of_mem (f := Tally.aggregate) ht
      rw [map_aggregate_tally htally] at hmem
      exact hlength ▸ hs.fits.aggregates _ hmem column hcolumn
    obtain ⟨left, hleft⟩ := addRow_eq hrow hcolumns
    have hnext := tally_succ (f := f) hle hx
    rw [htally] at hnext
    have hadd : e.ops.aggregate aggregation ref.1 ref.2 = addRow ref.1 ref.2 aggregation := by
      rw [hops]
      rfl
    -- the first row goes to the stretch before, which is one row longer then
    have hlast : last + (refs.length + 1) = last + 1 + refs.length := by omega
    rw [WindowEngine.aggregateRows, hadd, hleft, Checked.ok_bind, List.length_cons, hlast]
    cases htallied : tallyRow aggregation x with
    | error cause =>
      have herror : f.tally rows first (last + 1) = .error cause := hnext.trans htallied
      rw [tally_eq_error (Nat.le_succ_of_le hle) (Nat.le_add_right _ _) herror]
      exact ⟨left, rfl⟩
    | ok tallies =>
      exact ih hshows.tail (Nat.le_succ_of_le hle) (hnext.trans htallied)

end ColumnFrames

end Columnar
