import Columnar.Proofs.KeyTable.Room

/-!
# Keys written beside other columns

Writing a key out goes through the leading columns of an output, one for each value. Whatever comes
behind them is neither read nor written (`Copied.exists_append`), so that an output is described by
the columns that lead and those behind (`exists_emit_beside`).

## From weak to strong

The statements about one key come in three strengths, each with the hypotheses it needs.

* Writing a key that can be read is never abandoned, whatever the row and whatever the output
  (`exists_emit_at`). All that is asked of the output is columns of one size.
* A key that is written is all that changes: the row reads as the key, and every other row and every
  column behind is as before (`Written`).
* It is written into any row that exists, in columns of its types that have room for its texts
  (`emit_of_room`).

**Room is a matter of texts only.** A value of a fixed width fits wherever it has a row, and a text
needs bytes of its column; that is why a row can be full of room and still refuse a key.
-/

namespace Columnar

/-- Columns of the same types are stored alike. -/
theorem Column.forall₂_storage_of_types {columns columns' : List Column}
    (h : columns.map dataType = columns'.map dataType) :
    List.Forall₂ (fun c c' ↦ c.storage = c'.storage) columns columns' := by
  rw [← List.forall₂_eq_eq_eq, List.forall₂_map_left_iff, List.forall₂_map_right_iff] at h
  exact h.imp fun _ _ ↦ storage_eq_iff.2

namespace Block

/-- The capacity of a block goes by the sizes of its columns. -/
theorem capacity_congr {b b' : Block}
    (h : b'.columns.map Column.size = b.columns.map Column.size) (hlength : b'.length = b.length) :
    b'.capacity = b.capacity := by
  rw [capacity, capacity]
  generalize b.columns = columns, b'.columns = columns' at h
  cases columns with
  | nil =>
    obtain rfl := List.map_eq_nil_iff.1 h
    exact hlength
  | cons c columns =>
    rcases columns' with _ | ⟨c', columns'⟩
    · cases h
    · exact (List.cons.inj h).1

/-- A value is read off its column. -/
theorem cell_congr {b b' : Block} {row : Nat}
    (h : List.Forall₂ (fun c c' ↦ c'.get row = c.get row) b.columns b'.columns) (column : Nat) :
    b'.cell column row = b.cell column row := by
  rw [cell, cell, Block.column, Block.column]
  generalize b.columns = columns, b'.columns = columns' at h
  induction h generalizing column with
  | nil => rfl
  | cons hc _ ih =>
    rcases column with _ | column
    · exact hc
    · exact ih column

end Block

namespace ColumnKeys

open Column (Roomy)

variable {row sourceRow slot width length : Nat} {key : Row} {keys output : Block}
  {lead lead' extra targets targets' : List Column} {sources : List (Checked Column)}
  {result : Except ColumnError Unit} {bytes : Nat → Nat}

/-- Copying goes through as many columns as there are sources. -/
theorem Copied.exists_append (h : Copied row sourceRow targets sources targets' result)
    (htargets : targets = lead ++ extra) (hlength : lead.length = sources.length) :
    ∃ lead', targets' = lead' ++ extra ∧ Copied row sourceRow lead sources lead' result := by
  induction h generalizing lead with
  | done =>
    obtain rfl := List.length_eq_zero_iff.1 hlength
    exact ⟨[], htargets, .done []⟩
  | narrow =>
    obtain ⟨rfl, rfl⟩ := List.append_eq_nil_iff.1 htargets.symm
    exact ⟨[], rfl, .narrow _⟩
  | wrongSource hne =>
    rcases lead with _ | ⟨target, lead⟩
    · cases hlength
    · obtain ⟨rfl, rfl⟩ := List.cons.inj htargets
      exact ⟨_ :: lead, rfl, .wrongSource hne⟩
  | refused hstorage hget hrefusal =>
    rcases lead with _ | ⟨target, lead⟩
    · cases hlength
    · obtain ⟨rfl, rfl⟩ := List.cons.inj htargets
      exact ⟨_ :: lead, rfl, .refused hstorage hget hrefusal⟩
  | copied hstorage hget hrefusal _ ih =>
    rcases lead with _ | ⟨target, lead⟩
    · cases hlength
    · obtain ⟨rfl, rfl⟩ := List.cons.inj htargets
      obtain ⟨lead', rfl, hrest⟩ := ih rfl (Nat.succ.inj hlength)
      exact ⟨_ :: lead', rfl, .copied hstorage hget hrefusal hrest⟩

/-- Copying does not change the sizes of columns. -/
theorem Copied.sizes_eq (h : Copied row sourceRow targets sources targets' result) :
    targets'.map Column.size = targets.map Column.size := by
  induction h with
  | done | narrow | wrongSource | refused => rfl
  | copied _ _ _ _ ih => rw [List.map_cons, List.map_cons, Column.size_put, ih]

/-- Writing a key that can be read into a row that exists copies it into the leading columns, and
publishes the row if all of it was copied. -/
theorem exists_emit_beside (hkey : keys.row slot = .ok key) (hwidth : lead.length = keys.width)
    (hrow : row < (⟨lead ++ extra, length⟩ : Block).capacity) : ∃ lead' result,
      Copied row slot lead (keys.columns.map .ok) lead' result ∧
      emit keys slot ⟨lead ++ extra, length⟩ row = .ok (match result with
        | .error refusal => (⟨lead' ++ extra, length⟩, .error (.column refusal))
        | .ok () => (⟨lead' ++ extra, max length (row + 1)⟩, .ok true)) := by
  obtain ⟨columns, result, hcopy⟩ := exists_copyRow (reads_of_mapM_get hkey) row (lead ++ extra)
  obtain ⟨lead', rfl, hcopied⟩ := (copied_of_eq_ok hcopy).exists_append rfl
    (hwidth.trans (List.length_map _).symm)
  have hwide : ¬(⟨lead ++ extra, length⟩ : Block).width < keys.width := by
    rw [Block.width, List.length_append, hwidth]
    omega
  refine ⟨lead', result, hcopied, ?_⟩
  rw [emit, if_neg hwide, if_neg (Nat.not_le_of_lt hrow), hcopy, Checked.ok_bind]
  rcases result with refusal | ⟨⟩
  · rfl
  · have hcapacity : (⟨lead' ++ extra, length⟩ : Block).capacity =
        (⟨lead ++ extra, length⟩ : Block).capacity :=
      Block.capacity_congr (by simp only [List.map_append, hcopied.sizes_eq]) rfl
    by_cases hpublished : row < length
    · simp only [if_pos hpublished, Nat.max_eq_left hpublished, Checked.pure_eq_ok]
    · have hroom : row + 1 ≤ (⟨lead' ++ extra, length⟩ : Block).capacity := hcapacity ▸ hrow
      simp only [if_neg hpublished, Block.setLength, if_pos hroom, Checked.pure_eq_ok]
      rw [Nat.max_eq_right (by omega)]

/-- A row that was copied into columns that lead reads as its source. -/
theorem Copied.mapM_get_lead (h : Copied row slot lead (keys.columns.map .ok) lead' (.ok ()))
    (haligned : ∀ c ∈ lead, c.Aligned) (hkey : keys.row slot = .ok key)
    (hwidth : lead.length = keys.width) : lead'.mapM (·.get row) = .ok key := by
  have hlength : key.length = lead.length := (Block.length_row hkey).trans hwidth.symm
  have hlength' : lead'.length = key.length :=
    ((h.rewritten haligned).length_eq.symm).trans hlength.symm
  have hread := h.mapM_get_eq haligned (reads_of_mapM_get hkey) (Nat.le_of_eq hlength)
  rwa [List.take_of_length_le (Nat.le_of_eq hlength')] at hread

/-- An output with a key written into the leading columns of a row, which is published. -/
structure Written (width : Nat) (key : Row) (row : Nat) (output output' : Block) : Prop where
  leading_eq : output'.leading width row = .ok key
  /-- The other rows of these columns are as before. -/
  rewritten : List.Forall₂ (Column.RewrittenAt row) (output.columns.take width)
    (output'.columns.take width)
  /-- So are the other columns. -/
  drop_eq : output'.columns.drop width = output.columns.drop width
  length_eq : output'.length = max output.length (row + 1)

theorem Written.of_lead (hwidth : lead.length = width)
    (hrewritten : List.Forall₂ (Column.RewrittenAt row) lead lead')
    (hread : lead'.mapM (·.get row) = .ok key) :
    Written width key row ⟨lead ++ extra, length⟩ ⟨lead' ++ extra, max length (row + 1)⟩ := by
  have hwidth' : lead'.length = width := hrewritten.length_eq.symm.trans hwidth
  refine ⟨?_, ?_, ?_, rfl⟩
  · rw [Block.leading, List.take_left' hwidth', hread]
  · rw [List.take_left' hwidth, List.take_left' hwidth']
    exact hrewritten
  · rw [List.drop_left' hwidth, List.drop_left' hwidth']

/-- Writing a key that can be read is never abandoned, whatever the row. -/
theorem exists_emit_at (hkey : keys.row slot = .ok key)
    (haligned : ∀ c ∈ output.columns.take keys.width, c.Aligned) (row : Nat) :
    ∃ output' result, emit keys slot output row = .ok (output', result) ∧
      (result = .ok true → Written keys.width key row output output') := by
  by_cases hnarrow : output.width < keys.width
  · exact ⟨_, _, by rw [emit, if_pos hnarrow]; rfl, fun h ↦ by cases h⟩
  by_cases hfull : output.capacity ≤ row
  · exact ⟨_, _, by rw [emit, if_neg hnarrow, if_pos hfull]; rfl, fun h ↦ by cases h⟩
  obtain ⟨columns, length⟩ := output
  have hwidth : (columns.take keys.width).length = keys.width :=
    List.length_take_of_le (Nat.le_of_not_lt hnarrow)
  have hsplit := List.take_append_drop keys.width columns
  generalize columns.take keys.width = lead, columns.drop keys.width = extra at *
  subst hsplit
  obtain ⟨lead', result, hcopied, hemit⟩ :=
    exists_emit_beside hkey hwidth (Nat.lt_of_not_le hfull)
  refine ⟨_, _, hemit, ?_⟩
  rcases result with refusal | ⟨⟩
  · intro h
    cases h
  · intro _
    exact .of_lead hwidth (hcopied.rewritten haligned)
      (hcopied.mapM_get_lead haligned hkey hwidth)

/-- A key is written as a whole into a row that exists, in columns of its types with room for its
texts. -/
theorem emit_of_room (hkey : keys.row slot = .ok key)
    (hstorage :
      List.Forall₂ (fun target source ↦ target.storage = source.storage) lead keys.columns)
    (haligned : ∀ c ∈ lead, c.Aligned) (hsize : ∀ c ∈ lead, row < c.size)
    (hrow : row < (⟨lead ++ extra, length⟩ : Block).capacity)
    (hroom : Roomy lead fun i ↦ textBytes key[i]?.join + bytes i) : ∃ lead',
      emit keys slot ⟨lead ++ extra, length⟩ row =
        .ok (⟨lead' ++ extra, max length (row + 1)⟩, .ok true) ∧
      List.Forall₂ (Column.RewrittenAt row) lead lead' ∧ lead'.mapM (·.get row) = .ok key ∧
      Roomy lead' bytes := by
  obtain ⟨lead', result, hcopied, hemit⟩ := exists_emit_beside hkey hstorage.length_eq hrow
  obtain ⟨rfl, hroom'⟩ :=
    hcopied.of_room (reads_of_mapM_get hkey) (sources_of_storage hstorage) hsize hroom
  exact ⟨lead', hemit, hcopied.rewritten haligned,
    hcopied.mapM_get_lead haligned hkey hstorage.length_eq, hroom'⟩

/-- So it is if the output leads with columns of the types of the key. -/
theorem exists_emit_of_room (hkey : keys.row slot = .ok key) (htypes : keys.types <+: output.types)
    (hrow : row < output.capacity)
    (hlead : ∀ c ∈ output.columns.take keys.width, c.Aligned ∧ row < c.size)
    (hroom : Roomy (output.columns.take keys.width) fun i ↦ textBytes key[i]?.join) :
    ∃ output', emit keys slot output row = .ok (output', .ok true) ∧
      Written keys.width key row output output' := by
  have hstorage : List.Forall₂ (fun target source ↦ target.storage = source.storage)
      (output.columns.take keys.width) keys.columns := by
    refine Column.forall₂_storage_of_types ?_
    have htake := List.prefix_iff_eq_take.1 htypes
    rw [Block.types, List.length_map] at htake
    rw [List.map_take]
    exact htake.symm
  obtain ⟨columns, length⟩ := output
  have hsplit := List.take_append_drop keys.width columns
  generalize columns.take keys.width = lead, columns.drop keys.width = extra at *
  subst hsplit
  have hleft : Roomy lead fun i ↦ textBytes key[i]?.join + 0 := hroom
  obtain ⟨lead', hemit, hwritten, hread, -⟩ := emit_of_room hkey hstorage
    (fun c hc ↦ (hlead c hc).1) (fun c hc ↦ (hlead c hc).2) hrow hleft
  exact ⟨_, hemit, .of_lead hstorage.length_eq hwritten hread⟩

end ColumnKeys

end Columnar
