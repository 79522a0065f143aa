import Columnar.KeyTable.ColumnKeys
import Columnar.Proofs.Columns
import Columnar.Proofs.Rows

/-!
# Keys in columns

What comparing, storing and writing out do to keys that are read from columns. The three are loops
over the columns of a key; here each is a relation between rows of values, and no later module goes
through the columns again.

## Copying, up to the first refusal

A key is copied value by value, from the first column on and up to the first refusal (`Copied`). The
cases of `Copied` are the ends of that loop: all columns are done, there are too few of them, a
source is of the wrong kind, or a value is refused. **A refusal undoes nothing.** The columns before
it have been written, which is why `Copied.rewritten` is stated for any outcome: one row is
rewritten and the others are as before. Only if there was no refusal does the row read as the key
(`Copied.mapM_get_eq`).

Storing a key copies it from an input into a segment (`copied_of_store`), and writing it out copies
it from a segment into an output, where the row is published if all of it was copied (`Emission`).

## Comparing

Comparing a key with a row that reads as a key compares the two keys value by value (`agreeAt_eq`).
Values are the same or not, except that missing ones may be set never to match; then a key with one
agrees with nothing (`keysAgree_eq_true_iff`).

The congruences at the end of each section say what is not read: of the sources their other rows,
and of the columns compared the other slots. They are what two tables with different segments are
compared by.
-/

namespace Columnar

/-! ### Columns of one size -/

/-- Columns of these types and of one size, with all that belongs to their rows. -/
def Column.Rectangle (types : List DataType) (size : Nat) (columns : List Column) : Prop :=
  List.Forall₂ (fun c t ↦ c.dataType = t ∧ c.Aligned ∧ c.size = size) columns types

namespace Column.Rectangle

variable {types : List DataType} {size row : Nat} {columns columns' : List Column}

theorem aligned (h : Rectangle types size columns) : ∀ c ∈ columns, c.Aligned := by
  intro c hc
  obtain ⟨i, hi, rfl⟩ := List.getElem_of_mem hc
  exact (h.get hi (h.length_eq ▸ hi)).2.1

theorem size_eq (h : Rectangle types size columns) : ∀ c ∈ columns, c.size = size := by
  intro c hc
  obtain ⟨i, hi, rfl⟩ := List.getElem_of_mem hc
  exact (h.get hi (h.length_eq ▸ hi)).2.2

theorem types_eq (h : Rectangle types size columns) : columns.map Column.dataType = types := by
  rw [← List.forall₂_eq_eq_eq, List.forall₂_map_left_iff]
  exact h.imp fun _ _ hc ↦ hc.1

/-- Every row of such columns can be read. -/
theorem exists_row (h : Rectangle types size columns) (hrow : row < size) :
    ∃ values : Row, columns.mapM (·.get row) = .ok values ∧ values.length = types.length := by
  obtain ⟨values, hvalues⟩ : ∃ values, columns.mapM (·.get row) = .ok values :=
    Checked.exists_mapM_eq_ok fun c hc ↦ (h.aligned c hc).exists_get (h.size_eq c hc ▸ hrow)
  exact ⟨values, hvalues, (Checked.length_of_mapM_eq_ok hvalues).trans h.length_eq⟩

/-- Rewriting a row keeps columns of one size so. -/
theorem rewritten (h : Rectangle types size columns)
    (hrewritten : List.Forall₂ (RewrittenAt row) columns columns') :
    Rectangle types size columns' := by
  induction hrewritten generalizing types with
  | nil => exact h
  | cons hc _ ih =>
    cases h with
    | cons h hrest =>
      refine .cons ⟨?_, hc.aligned, hc.size_eq.trans h.2.2⟩ (ih hrest)
      rw [← h.1, ← storage_eq_iff, hc.storage_eq]

/-- Columns of the same types are stored alike. -/
theorem forall₂_storage (h : Rectangle types size columns) {size' : Nat}
    (h' : Rectangle types size' columns') :
    List.Forall₂ (fun c c' ↦ c.storage = c'.storage) columns columns' := by
  induction h generalizing columns' with
  | nil =>
    cases h'
    exact .nil
  | cons hc _ ih =>
    cases h' with
    | cons hc' hrest' => exact .cons (storage_eq_iff.2 (hc.1.trans hc'.1.symm)) (ih hrest')

/-- Columns that read as the same row, by their types. -/
theorem forall₂_get (h : Rectangle types size columns) {size' row' : Nat}
    (h' : Rectangle types size' columns') {values : Row}
    (hread : columns.mapM (·.get row) = .ok values)
    (hread' : columns'.mapM (·.get row') = .ok values) :
    List.Forall₂ (fun c c' ↦ c.storage = c'.storage ∧ c.get row = c'.get row')
      columns columns' := by
  rw [Checked.mapM_eq_ok_iff] at hread hread'
  induction h generalizing columns' values with
  | nil =>
    cases h'
    exact .nil
  | cons hc _ ih =>
    cases h' with
    | cons hc' hrest' =>
      cases hread with
      | cons hget hread =>
        cases hread' with
        | cons hget' hread' =>
          refine .cons ⟨?_, hget.trans hget'.symm⟩ (ih hrest' hread hread')
          rw [storage_eq_iff, hc.1, hc'.1]

/-- Columns without texts refuse the same values, in rows that exist. -/
theorem forall₂_refusal? (h : Rectangle types size columns) {size' row' : Nat}
    (h' : Rectangle types size' columns') (hfixed : .varchar ∉ types) (hrow : row < size)
    (hrow' : row' < size') :
    List.Forall₂ (fun c c' ↦ c.storage = c'.storage ∧
      ∀ value, c.refusal? row value = c'.refusal? row' value) columns columns' := by
  induction h generalizing columns' with
  | nil =>
    cases h'
    exact .nil
  | @cons c t _ _ hc _ ih =>
    cases h' with
    | @cons c' _ _ _ hc' hrest' =>
      have hstorage : c.storage = c'.storage := by rw [storage_eq_iff, hc.1, hc'.1]
      have htext : c.storage ≠ .text := by
        intro htext
        refine hfixed (List.mem_cons.2 (.inl ?_))
        rw [← hc.1, dataType, htext]
        rfl
      refine .cons ⟨hstorage, fun value ↦ ?_⟩ (ih hrest' fun hmem ↦ hfixed (.tail _ hmem))
      refine refusal?_congr hstorage (hc'.2.2 ▸ hrow') (hc.2.2 ▸ hrow) ?_
      rw [overflow?_eq_none htext, overflow?_eq_none (hstorage ▸ htext)]

end Column.Rectangle

/-- Columns that agree at a row give the same row. -/
theorem Column.mapM_get_congr {row : Nat} {columns columns' : List Column}
    (h : List.Forall₂ (fun c c' ↦ c'.get row = c.get row) columns columns') :
    columns'.mapM (·.get row) = columns.mapM (·.get row) := by
  induction h with
  | nil => rfl
  | cons hc _ ih => rw [List.mapM_cons, List.mapM_cons, hc, ih]

/-- Rewriting a row keeps the other rows. -/
theorem Column.mapM_get_rewritten {row other : Nat} {columns columns' : List Column}
    (h : List.Forall₂ (RewrittenAt row) columns columns') (hne : other ≠ row) :
    columns'.mapM (·.get other) = columns.mapM (·.get other) :=
  mapM_get_congr (h.imp fun _ _ hc ↦ hc.get_eq other hne)

/-- The capacity of a block goes by its first column, which keeps its size. -/
theorem Block.capacity_of_rewritten {b : Block} {row : Nat} {columns : List Column}
    (h : List.Forall₂ (Column.RewrittenAt row) b.columns columns) :
    ({ b with columns := columns } : Block).capacity = b.capacity := by
  rw [capacity, capacity]
  generalize b.columns = old at h
  cases h with
  | nil => rfl
  | cons hc _ => exact hc.size_eq

namespace ColumnKeys

variable {nulls : NullEquality} {input : Block} {row sourceRow slot : Nat} {indexes : List Nat}
  {columns targets targets' : List Column} {sources : List (Checked Column)} {key stored : Row}
  {types : List DataType}
  {result : Except ColumnError Unit}

/-! ### Rows with keys -/

theorem length_of_check {keyColumns : List KeyColumn}
    (h : check indexes types keyColumns = .ok ()) : indexes.length = keyColumns.length := by
  rw [check] at h
  split_ifs at h with hlength
  exact hlength

/-- Columns that can serve as keys exist. -/
theorem lt_of_checkColumns {keyColumns : List KeyColumn}
    (hlength : indexes.length = keyColumns.length)
    (h : checkColumns indexes types keyColumns = .ok ()) :
    ∀ index ∈ indexes, index < types.length := by
  induction indexes generalizing keyColumns with
  | nil => nofun
  | cons index indexes ih =>
    cases keyColumns with
    | nil => cases hlength
    | cons keyColumn keyColumns =>
      rw [checkColumns] at h
      cases htype : types[index]? with
      | none =>
        rw [htype] at h
        cases h
      | some found =>
        rw [htype] at h
        simp only at h
        split_ifs at h
        intro other hother
        rcases List.mem_cons.1 hother with rfl | hother
        · exact (List.getElem?_eq_some_iff.1 htype).1
        · exact ih (Nat.succ.inj hlength) h other hother

/-- The key in a row that lies inside all columns can be read, and has a value for every key
column. -/
theorem exists_keyAt_of_hasRow {keyColumns : List KeyColumn}
    (hcheck : check indexes types keyColumns = .ok ()) (htypes : input.types = types)
    (hrow : input.HasRow row) :
    ∃ key, keyAt indexes input row = .ok key ∧ key.length = keyColumns.length := by
  have hlength := length_of_check hcheck
  rw [check, if_pos hlength] at hcheck
  obtain ⟨x, hx⟩ := hrow.exists_row
  have hwidth : x.length = types.length := by
    rw [Block.length_row hx, ← htypes, Block.types, List.length_map, Block.width]
  obtain ⟨key, hkey⟩ : ∃ key, keyAt indexes input row = .ok key :=
    Checked.exists_mapM_eq_ok fun index hindex ↦
      ⟨_, Block.cell_eq hx (hwidth ▸ lt_of_checkColumns hlength hcheck index hindex)⟩
  exact ⟨key, hkey, (Checked.length_of_mapM_eq_ok hkey).trans hlength⟩

/-- The key in a row of a well-formed block can be read, and has a value for every key column. -/
theorem exists_keyAt {keyColumns : List KeyColumn}
    (hcheck : check indexes types keyColumns = .ok ())
    (hinput : input.WellFormed types) (hrow : row < input.length) :
    ∃ key, keyAt indexes input row = .ok key ∧ key.length = keyColumns.length :=
  exists_keyAt_of_hasRow hcheck hinput.types_eq (hinput.hasRow hrow)

/-! ### Comparing keys -/

/-- Values of a key are equal if they are the same, unless they are missing and never match. -/
theorem agree_eq_true_iff {a b : Option Scalar} :
    NullEquality.agree nulls a b = true ↔ a = b ∧ (nulls = .equal ∨ a ≠ none) := by
  rcases a with _ | a <;> rcases b with _ | b <;> simp [NullEquality.agree]

/-- Whether two keys are equal, value by value. -/
def keysAgree (nulls : NullEquality) (key stored : Row) : Bool :=
  (List.zip key stored).all fun pair ↦ NullEquality.agree nulls pair.1 pair.2

/-- A key is compared with the one in a slot value by value. -/
theorem agreeAt_eq (nulls : NullEquality) (hkey : keyAt indexes input row = .ok key)
    (hstored : columns.mapM (·.get slot) = .ok stored) :
    agreeAt nulls input row slot indexes columns = .ok (keysAgree nulls key stored) := by
  rw [keyAt, Checked.mapM_eq_ok_iff] at hkey
  rw [Checked.mapM_eq_ok_iff] at hstored
  induction hkey generalizing columns stored with
  | nil => rfl
  | @cons _ a _ _ hhere _ ih =>
    cases hstored with
    | nil => rfl
    | @cons _ b _ _ hthere hrest =>
      rw [agreeAt, hhere, hthere, Checked.ok_bind, Checked.ok_bind, ih hrest, keysAgree, keysAgree,
        List.zip_cons_cons, List.all_cons]
      cases NullEquality.agree nulls a b <;> simp

/-- Keys agree just if they are the same, unless there are missing values, which never match. -/
theorem keysAgree_eq_true_iff (hlength : key.length = stored.length) :
    keysAgree nulls key stored = true ↔ key = stored ∧ (nulls = .equal ∨ none ∉ key) := by
  rw [keysAgree]
  induction key generalizing stored with
  | nil =>
    obtain rfl := List.length_eq_zero_iff.1 hlength.symm
    simp
  | cons a key ih =>
    cases stored with
    | nil => cases hlength
    | cons b stored =>
      have hhere : NullEquality.agree nulls a b = true ↔ a = b ∧ (nulls = .equal ∨ a ≠ none) :=
        agree_eq_true_iff
      rw [List.zip_cons_cons, List.all_cons, Bool.and_eq_true, hhere, ih (Nat.succ.inj hlength),
        List.cons.injEq, List.mem_cons, not_or, ne_comm]
      tauto

/-- Comparing a key reads nothing of the columns but the slot. -/
theorem agreeAt_congr {slot' : Nat} {columns' : List Column}
    (h : List.Forall₂ (fun c c' ↦ c.get slot = c'.get slot') columns columns') :
    agreeAt nulls input row slot indexes columns =
      agreeAt nulls input row slot' indexes columns' := by
  induction h generalizing indexes with
  | nil => cases indexes <;> rfl
  | cons hget _ ih =>
    cases indexes with
    | nil => rfl
    | cons index indexes => rw [agreeAt, agreeAt, hget, ih]

/-! ### Copying keys -/

/-- What copying a row of sources into a row of columns leads to. -/
inductive Copied (row sourceRow : Nat) :
    List Column → List (Checked Column) → List Column → Except ColumnError Unit → Prop
  | done (targets : List Column) : Copied row sourceRow targets [] targets (.ok ())
  | narrow (sources : List (Checked Column)) : Copied row sourceRow [] sources [] (.ok ())
  | wrongSource {target source : Column} {targets : List Column}
      {sources : List (Checked Column)} : target.storage ≠ source.storage →
    Copied row sourceRow (target :: targets) (.ok source :: sources) (target :: targets)
      (.error (.wrongSource target.storage source.storage))
  | refused {target source : Column} {targets : List Column} {sources : List (Checked Column)}
      {value : Option Scalar} {refusal : ColumnError} : target.storage = source.storage →
    source.get sourceRow = .ok value → target.refusal? row value = some refusal →
    Copied row sourceRow (target :: targets) (.ok source :: sources) (target :: targets)
      (.error refusal)
  | copied {target source : Column} {targets targets' : List Column}
      {sources : List (Checked Column)} {value : Option Scalar} {result : Except ColumnError Unit} :
    target.storage = source.storage → source.get sourceRow = .ok value →
    target.refusal? row value = none → Copied row sourceRow targets sources targets' result →
    Copied row sourceRow (target :: targets) (.ok source :: sources)
      (target.put row value :: targets') result

theorem copied_of_eq_ok (h : copyRow row sourceRow targets sources = .ok (targets', result)) :
    Copied row sourceRow targets sources targets' result := by
  induction targets generalizing sources targets' result with
  | nil =>
    rw [copyRow] at h
    · obtain ⟨rfl, rfl⟩ := Prod.mk.inj (Except.ok.inj h)
      exact .narrow sources
    · simp
  | cons target targets ih =>
    cases sources with
    | nil =>
      obtain ⟨rfl, rfl⟩ := Prod.mk.inj (Except.ok.inj h)
      exact .done _
    | cons source sources =>
      rw [copyRow] at h
      obtain ⟨column, hcolumn, h⟩ := exists_of_bind_eq_ok h
      obtain ⟨fetched, hfetch, h⟩ := exists_of_bind_eq_ok h
      subst hcolumn
      rw [Column.fetch] at hfetch
      split_ifs at hfetch with hstorage
      · obtain ⟨value, hget, hfetched⟩ := exists_of_bind_eq_ok hfetch
        obtain rfl := Except.ok.inj hfetched
        simp only [Column.overwrite] at h
        cases hrefusal : target.refusal? row value with
        | some refusal =>
          rw [hrefusal] at h
          obtain ⟨rfl, rfl⟩ := Prod.mk.inj (Except.ok.inj h)
          exact .refused hstorage hget hrefusal
        | none =>
          rw [hrefusal] at h
          obtain ⟨⟨rest, result'⟩, hrest, h⟩ := exists_of_bind_eq_ok h
          obtain ⟨rfl, rfl⟩ := Prod.mk.inj (Except.ok.inj h)
          exact .copied hstorage hget hrefusal (ih hrest)
      · obtain rfl := Except.ok.inj hfetch
        obtain ⟨rfl, rfl⟩ := Prod.mk.inj (Except.ok.inj h)
        exact .wrongSource hstorage

/-- Sources that can be read in a row, and the values there. -/
def Reads (sourceRow : Nat) (sources : List (Checked Column)) (values : Row) : Prop :=
  List.Forall₂ (fun source value ↦ ∃ c, source = .ok c ∧ c.get sourceRow = .ok value) sources values

theorem reads_iff :
    Reads row (indexes.map input.column) key ↔ keyAt indexes input row = .ok key := by
  have hcell (index : Nat) (value : Option Scalar) :
      (∃ c, input.column index = .ok c ∧ c.get row = .ok value) ↔
        input.cell index row = .ok value := by
    refine ⟨fun ⟨c, hc, hget⟩ ↦ ?_, exists_of_bind_eq_ok⟩
    rw [Block.cell, hc]
    exact hget
  rw [Reads, List.forall₂_map_left_iff, keyAt, Checked.mapM_eq_ok_iff]
  simp only [hcell]

theorem reads_of_mapM_get (h : columns.mapM (·.get slot) = .ok key) :
    Reads slot (columns.map .ok) key :=
  List.forall₂_map_left_iff.2 ((Checked.mapM_eq_ok_iff.1 h).imp fun c _ hget ↦ ⟨c, rfl, hget⟩)

/-- A row that can be read is copied, or refused. -/
theorem exists_copyRow (h : Reads sourceRow sources key) (row : Nat) (targets : List Column) :
    ∃ targets' result, copyRow row sourceRow targets sources = .ok (targets', result) := by
  induction h generalizing targets with
  | nil => cases targets <;> exact ⟨_, _, rfl⟩
  | cons hsource _ ih =>
    obtain ⟨c, rfl, hget⟩ := hsource
    cases targets with
    | nil => exact ⟨_, _, rfl⟩
    | cons target targets =>
      obtain ⟨targets', result, hrest⟩ := ih targets
      simp only [copyRow, Checked.ok_bind, Column.fetch, Column.overwrite]
      by_cases hstorage : target.storage = c.storage
      · simp only [if_pos hstorage, hget, Checked.ok_bind, Checked.pure_eq_ok]
        cases target.refusal? row _ with
        | some refusal => exact ⟨_, _, rfl⟩
        | none => exact ⟨target.put row _ :: targets', result, by rw [hrest]; rfl⟩
      · rw [if_neg hstorage]
        exact ⟨_, _, rfl⟩

namespace Copied

/-- Copying rewrites one row. -/
theorem rewritten (h : Copied row sourceRow targets sources targets' result)
    (haligned : ∀ c ∈ targets, c.Aligned) :
    List.Forall₂ (Column.RewrittenAt row) targets targets' := by
  have hsame {targets : List Column} (haligned : ∀ c ∈ targets, c.Aligned) :
      List.Forall₂ (Column.RewrittenAt row) targets targets :=
    List.forall₂_same.2 fun c hc ↦ (haligned c hc).rewrittenAt row
  induction h with
  | done | narrow | wrongSource | refused => exact hsame haligned
  | copied _ _ hrefusal _ ih =>
    refine .cons ((haligned _ List.mem_cons_self).rewrittenAt_put hrefusal) (ih fun c hc ↦ ?_)
    exact haligned c (List.mem_cons_of_mem _ hc)

/-- A row that was copied reads as its source. -/
theorem mapM_get_eq (h : Copied row sourceRow targets sources targets' (.ok ()))
    (haligned : ∀ c ∈ targets, c.Aligned) (hreads : Reads sourceRow sources key)
    (hlength : key.length ≤ targets.length) :
    (targets'.take key.length).mapM (·.get row) = .ok key := by
  generalize hok : (Except.ok () : Except ColumnError Unit) = result at h
  induction h generalizing key with
  | done =>
    cases hreads
    rfl
  | narrow =>
    obtain rfl := List.length_eq_zero_iff.1 (Nat.le_zero.1 hlength)
    rfl
  | wrongSource | refused => cases hok
  | @copied target source _ _ _ value _ _ hget hrefusal _ ih =>
    cases hreads with
    | cons hsource hreads =>
      obtain ⟨c, hc, hvalue⟩ := hsource
      obtain rfl := Except.ok.inj hc
      obtain rfl := Except.ok.inj (hget.symm.trans hvalue)
      have htarget := haligned target List.mem_cons_self
      have hread := htarget.get_put hrefusal row
      rw [if_pos rfl] at hread
      rw [List.length_cons, List.take_succ_cons, List.mapM_cons, hread, Checked.ok_bind,
        ih (fun c hc ↦ haligned c (List.mem_cons_of_mem _ hc)) hreads
          (Nat.le_of_succ_le_succ hlength) hok]
      rfl

/-- A row that was copied was read, from all sources if there is a column for each. -/
theorem exists_reads (h : Copied row sourceRow targets sources targets' (.ok ()))
    (hlength : sources.length ≤ targets.length) : ∃ key, Reads sourceRow sources key := by
  generalize hok : (Except.ok () : Except ColumnError Unit) = result at h
  induction h with
  | done => exact ⟨[], .nil⟩
  | narrow =>
    obtain rfl := List.length_eq_zero_iff.1 (Nat.le_zero.1 hlength)
    exact ⟨[], .nil⟩
  | wrongSource | refused => cases hok
  | @copied _ source _ _ _ value _ _ hget _ _ ih =>
    obtain ⟨key, hkey⟩ := ih (Nat.le_of_succ_le_succ hlength) hok
    exact ⟨value :: key, .cons ⟨source, rfl, hget⟩ hkey⟩

end Copied

/-- Copying reads nothing of the sources but their storage and the row. -/
theorem copyRow_congr_sources {sourceRow' : Nat} {columns' : List Column}
    (h : List.Forall₂ (fun c c' ↦ c.storage = c'.storage ∧ c.get sourceRow = c'.get sourceRow')
      columns columns') (row : Nat) (targets : List Column) :
    copyRow row sourceRow targets (columns.map .ok) =
      copyRow row sourceRow' targets (columns'.map .ok) := by
  induction h generalizing targets with
  | nil => cases targets <;> rfl
  | cons hc _ ih =>
    cases targets with
    | nil => rfl
    | cons target targets =>
      simp only [List.map_cons, copyRow, Checked.ok_bind, Column.fetch, hc.1, hc.2, ih]

/-- Whether copying is refused depends on what each target refuses. -/
theorem copyRow_congr_targets {row' : Nat}
    (h : List.Forall₂ (fun c c' ↦ c.storage = c'.storage ∧
      ∀ value, c.refusal? row value = c'.refusal? row' value) targets targets')
    (sourceRow : Nat) (sources : List (Checked Column)) :
    Prod.snd <$> copyRow row sourceRow targets sources =
      Prod.snd <$> copyRow row' sourceRow targets' sources := by
  induction h generalizing sources with
  | nil => cases sources <;> rfl
  | @cons target target' targets targets' hc _ ih =>
    cases sources with
    | nil => rfl
    | cons source sources =>
      have hrest := ih sources
      simp only [copyRow, Column.fetch, Column.overwrite, ← hc.1, ← hc.2]
      cases source with
      | error trap => rfl
      | ok c =>
        simp only [Checked.ok_bind]
        split_ifs
        · cases c.get sourceRow with
          | error trap => rfl
          | ok value =>
            simp only [Checked.ok_bind, Checked.pure_eq_ok]
            cases target.refusal? row value with
            | some refusal => rfl
            | none =>
              -- the result is that of copying the other values
              revert hrest
              cases copyRow row sourceRow targets sources <;>
                cases copyRow row' sourceRow targets' sources <;> intro hrest
              · exact congrArg Except.error (Except.error.inj hrest)
              · cases hrest
              · cases hrest
              · exact congrArg Except.ok (Except.ok.inj hrest)
        · rfl

/-! ### Storing keys and writing them out -/

variable {keys keys' output : Block}

/-- A key that can be read is stored, or refused. -/
theorem exists_store (hkey : keyAt indexes input row = .ok key) (keys : Block) (slot : Nat) :
    ∃ outcome, store indexes input row keys slot = .ok outcome := by
  obtain ⟨columns, result, hcopy⟩ := exists_copyRow (reads_iff.2 hkey) slot keys.columns
  exact ⟨_, by rw [store, hcopy]; rfl⟩

theorem copied_of_store {result : Except KeyError Unit}
    (h : store indexes input row keys slot = .ok (keys', result)) : ∃ copied,
    Copied slot row keys.columns (indexes.map input.column) keys'.columns copied ∧
      result = copied.mapError .column := by
  obtain ⟨⟨columns, copied⟩, hcopy, h⟩ := exists_of_bind_eq_ok h
  obtain ⟨rfl, rfl⟩ := Prod.mk.inj (Except.ok.inj h)
  exact ⟨copied, copied_of_eq_ok hcopy, rfl⟩

/-- Storing a key rewrites one row. -/
theorem rewritten_of_store {result : Except KeyError Unit}
    (h : store indexes input row keys slot = .ok (keys', result))
    (haligned : ∀ c ∈ keys.columns, c.Aligned) :
    List.Forall₂ (Column.RewrittenAt slot) keys.columns keys'.columns := by
  obtain ⟨copied, hcopied, -⟩ := copied_of_store h
  exact hcopied.rewritten haligned

/-- A key that was stored is read. -/
theorem row_of_store (h : store indexes input row keys slot = .ok (keys', .ok ()))
    (haligned : ∀ c ∈ keys.columns, c.Aligned) (hkey : keyAt indexes input row = .ok key)
    (hlength : key.length = keys.width) : keys'.row slot = .ok key := by
  obtain ⟨copied, hcopied, hresult⟩ := copied_of_store h
  obtain rfl := eq_ok_of_mapError_eq_ok hresult.symm
  have hread := hcopied.mapM_get_eq haligned (reads_iff.2 hkey) (Nat.le_of_eq hlength)
  have hwidth : keys'.columns.length = key.length :=
    ((hcopied.rewritten haligned).length_eq.symm).trans hlength.symm
  rwa [List.take_of_length_le (Nat.le_of_eq hwidth)] at hread

/-- A key that was stored could be read, if there is a column for each of its values. -/
theorem exists_keyAt_of_store (h : store indexes input row keys slot = .ok (keys', .ok ()))
    (hlength : indexes.length = keys.width) : ∃ key, keyAt indexes input row = .ok key := by
  obtain ⟨copied, hcopied, hresult⟩ := copied_of_store h
  obtain rfl := eq_ok_of_mapError_eq_ok hresult.symm
  obtain ⟨key, hkey⟩ := hcopied.exists_reads (by
    rw [List.length_map]
    exact Nat.le_of_eq hlength)
  exact ⟨key, reads_iff.1 hkey⟩

/-- Whether a key is stored or refused depends on what each column refuses. -/
theorem store_congr {slot' : Nat} (h : List.Forall₂ (fun c c' ↦ c.storage = c'.storage ∧
      ∀ value, c.refusal? slot value = c'.refusal? slot' value) keys.columns keys'.columns)
    (indexes : List Nat) (input : Block) (row : Nat) :
    Prod.snd <$> store indexes input row keys slot =
      Prod.snd <$> store indexes input row keys' slot' := by
  have hcopy := copyRow_congr_targets h row (indexes.map input.column)
  rw [store, store]
  revert hcopy
  cases copyRow slot row keys.columns (indexes.map input.column) <;>
    cases copyRow slot' row keys'.columns (indexes.map input.column) <;> intro hcopy
  · exact congrArg Except.error (Except.error.inj hcopy)
  · cases hcopy
  · cases hcopy
  · exact congrArg (fun result ↦ Except.ok (result.mapError KeyError.column)) (Except.ok.inj hcopy)

/-- What writing the key in a slot behind the rows of an output leads to: the output has too few
columns, or no such row; or the key is copied into the row, which is published if all of it was. -/
inductive Emission (keys : Block) (slot : Nat) (output : Block) :
    Block × Except KeyError Bool → Prop
  | narrow : output.width < keys.width →
    Emission keys slot output (output, .error (.narrowOutput keys.width output.width))
  | full : output.capacity ≤ output.length → Emission keys slot output (output, .ok false)
  | refused {columns : List Column} {refusal : ColumnError} :
    Copied output.length slot output.columns (keys.columns.map .ok) columns (.error refusal) →
    Emission keys slot output ({ output with columns := columns }, .error (.column refusal))
  | written {columns : List Column} : keys.width ≤ output.width → output.length < output.capacity →
    Copied output.length slot output.columns (keys.columns.map .ok) columns (.ok ()) →
    Emission keys slot output ({ columns := columns, length := output.length + 1 }, .ok true)

/-- Writing a key that can be read is never abandoned. -/
theorem exists_emit (hkey : keys.row slot = .ok key) (haligned : ∀ c ∈ output.columns, c.Aligned) :
    ∃ outcome, emit keys slot output output.length = .ok outcome ∧
      Emission keys slot output outcome := by
  rw [emit]
  split_ifs with hnarrow hfull
  · exact ⟨_, rfl, .narrow hnarrow⟩
  · exact ⟨_, rfl, .full hfull⟩
  · obtain ⟨columns, result, hcopy⟩ :=
      exists_copyRow (reads_of_mapM_get hkey) output.length output.columns
    have hcopied := copied_of_eq_ok hcopy
    have hcapacity := Block.capacity_of_rewritten (hcopied.rewritten haligned)
    have hroom : output.length + 1 ≤ output.capacity := Nat.lt_of_not_le hfull
    rw [hcopy]
    cases result with
    | error refusal => exact ⟨_, rfl, .refused hcopied⟩
    | ok =>
      have hpublished : ({ output with columns := columns } : Block).setLength (output.length + 1) =
          .ok { columns := columns, length := output.length + 1 } := by
        rw [Block.setLength, hcapacity, if_pos hroom]
      refine ⟨({ columns := columns, length := output.length + 1 }, .ok true), ?_,
        .written (Nat.le_of_not_lt hnarrow) hroom hcopied⟩
      simp only [Checked.ok_bind, Checked.pure_eq_ok, Nat.lt_irrefl, if_false, hpublished]

/-- Writing a key out reads nothing of it but the storage and the row of each column. -/
theorem emit_congr {slot' : Nat}
    (h : List.Forall₂ (fun c c' ↦ c.storage = c'.storage ∧ c.get slot = c'.get slot')
      keys.columns keys'.columns) (output : Block) (row : Nat) :
    emit keys slot output row = emit keys' slot' output row := by
  have hwidth : keys.width = keys'.width := h.length_eq
  rw [emit, emit, hwidth, copyRow_congr_sources h]

end ColumnKeys

end Columnar
