import Columnar.Proofs.KeyTable.Charges
import Columnar.Proofs.KeyTable.Emitted
import Columnar.Proofs.KeyTable.InRange

/-!
# Destinations with some rows left

What one call of `outputAll` writes into a destination that has rows already, columns behind those
for the keys, and not enough rows for all keys that are left. It writes keys until either run out,
one to a row, and answers whether the rows were enough (`Table.emitSlots_beside`,
`outputAll_of_destination`).

## What a destination is

`Destination` says what is asked of it: columns of one size, the first of which have the types of
the keys, no byte limit in these, and room in the buffers for the texts that are to come. The last
is needed. **A column of texts holds no more bytes than its spans can address**, and a call that
meets this bound fails instead of answering; how far it gets then is said in the module on outputs
with room for the texts of keys.

## What is filled and what is not

`Filled` says what became of the destination, and most of it is about what did not change: every
other row of the columns for the keys, every column behind these, the types and the capacity. `Led`
is the same for the leading columns alone, in the form in which it is proved by induction: a key
that is written before others stays, as it comes into another row (`Led.cons`).

Everything else in the table stays as it is. Its keys and chains are not touched by writing keys
out, and the slots that are left afterwards are those behind the ones that were written
(`Table.remaining_wrote`).
-/

namespace Columnar

namespace Column

variable {c : Column} {types : List DataType} {size bytes : Nat} {lead : List Column}

theorem rectangle_of_types (htypes : lead.map dataType = types)
    (h : ∀ c ∈ lead, c.Aligned ∧ c.size = size) : Rectangle types size lead := by
  rw [Rectangle, ← htypes, List.forall₂_map_right_iff]
  exact List.forall₂_same.2 fun c hc ↦ ⟨rfl, h c hc⟩

/-- Without a byte limit there is room up to what spans can address. -/
theorem hasRoom_of_unlimited (hlimit : c.byteLimit = none)
    (h : c.usedBytes + bytes ≤ TextColumn.maxBytes) : c.HasRoom bytes := by
  cases c with
  | text d =>
    show d.usedBytes + bytes ≤ d.budget
    rw [TextColumn.budget, show d.byteLimit = none from hlimit]
    exact h
  | _ => trivial

theorem forall₂_get_trans {row : Nat} {lead' lead'' : List Column}
    (h : List.Forall₂ (fun c c' ↦ c'.get row = c.get row) lead lead')
    (h' : List.Forall₂ (fun c c' ↦ c'.get row = c.get row) lead' lead'') :
    List.Forall₂ (fun c c' ↦ c'.get row = c.get row) lead lead'' := by
  induction h generalizing lead'' with
  | nil => exact h'
  | cons hc _ ih =>
    rcases h' with _ | ⟨hc', h'⟩
    exact .cons (hc'.trans hc) (ih h')

end Column

/-- The key in a slot is read off its segment. -/
theorem KeyTable.stored_eq {ε : Type} (t : KeyTable ε) (index : Nat) : t.stored index = (do
    (← t.segmentOf index).keys.row (t.layout.split index).offset) := by
  rw [stored, keysAt, keys, Checked.entry, segmentOf, Checked.entry, Array.getElem?_map]
  cases t.segments[(t.layout.split index).segment]? <;> rfl

open Column (Rectangle Roomy)

namespace ColumnKeys

variable {k : ColumnKeys} {config : TableConfig} {t t' : KeyTable KeyError} {output output' : Block}
  {types : List DataType} {size length width : Nat} {lead lead' extra : List Column}
  {keys : List Row} {slots : List Nat}

/-! ### Tables after any history -/

namespace Table

/-- A call leads to a table with keys that are read from columns. -/
theorem next (h : k.Table config t) {call : TableCall} {answer : TableAnswer KeyError}
    (hcall : t.call call = .ok (t', answer)) : k.Table config t' := by
  cases call with
  | put input row =>
    obtain ⟨⟨u, result⟩, hput, heq⟩ := exists_of_bind_eq_ok hcall
    obtain ⟨rfl, -⟩ := Prod.mk.inj (Except.ok.inj heq)
    exact ((h.put input row).of_eq_ok hput).1
  | lookUp input row | probe input row =>
    obtain ⟨found, -, heq⟩ := exists_of_bind_eq_ok hcall
    obtain ⟨rfl, -⟩ := Prod.mk.inj (Except.ok.inj heq)
    exact h
  | outputAll output =>
    rw [KeyTable.call, h.sound.outputAll_eq h.tracking.outputCursor_le] at hcall
    obtain ⟨_, hwrite, heq⟩ := exists_of_bind_eq_ok hcall
    obtain ⟨⟨count, output', result⟩, hemit, hwrite⟩ := exists_of_bind_eq_ok hwrite
    obtain rfl := Except.ok.inj hwrite
    obtain ⟨rfl, -⟩ := Prod.mk.inj (Except.ok.inj heq)
    exact h.wrote (KeyTable.count_le_of_emitSlots hemit)
  | resetOutput =>
    obtain ⟨rfl, -⟩ := Prod.mk.inj (Except.ok.inj hcall)
    exact h.resetOutput
  | clear =>
    obtain ⟨rfl, -⟩ := Prod.mk.inj (Except.ok.inj hcall)
    exact h.clear

/-- So do calls one after the other. -/
theorem after (h : k.Table config t) {calls : List TableCall}
    {answers : List (TableAnswer KeyError)} (hrun : t.run calls = .ok (t', answers)) :
    k.Table config t' := by
  induction calls generalizing t answers with
  | nil =>
    obtain ⟨rfl, -⟩ := Prod.mk.inj (Except.ok.inj hrun)
    exact h
  | cons call calls ih =>
    obtain ⟨⟨u, answer⟩, hcall, hrun⟩ := exists_of_bind_eq_ok hrun
    obtain ⟨⟨v, answers'⟩, hrest, heq⟩ := exists_of_bind_eq_ok hrun
    obtain ⟨rfl, -⟩ := Prod.mk.inj (Except.ok.inj heq)
    exact ih (h.next hcall) hrest

end Table

theorem table_of_reachable (h : KeyTable.Reachable config k.ops t) : k.Table config t := by
  obtain ⟨t₀, calls, answers, hcreate, hrun⟩ := h
  have hsane := (KeyTable.kept_of_create_eq_ok hcreate).sane
  obtain rfl := KeyTable.eq_fresh_of_create_eq_ok hcreate
  exact (table_fresh hsane k {}).after hrun

/-! ### Writing keys beside other columns -/

theorem capacity_beside (hlead : Rectangle types size lead) (htypes : types ≠ []) :
    (⟨lead ++ extra, length⟩ : Block).capacity = size := by
  rcases hlead with _ | ⟨hc, _⟩
  · exact absurd rfl htypes
  · exact hc.2.2

/-- Leading columns that keys were written into, in the rows from `start` on. -/
structure Led (keys : List Row) (start : Nat) (lead lead' : List Column) : Prop where
  row_eq : ∀ i key, keys[i]? = some key → lead'.mapM (·.get (start + i)) = .ok key
  get_eq : ∀ row, (row < start ∨ start + keys.length ≤ row) →
    List.Forall₂ (fun c c' ↦ c'.get row = c.get row) lead lead'

theorem Led.refl (start : Nat) (lead : List Column) : Led [] start lead lead :=
  ⟨nofun, fun _ _ ↦ List.forall₂_same.2 fun _ _ ↦ rfl⟩

/-- A key that is written before others stays, as it comes into another row. -/
theorem Led.cons {key : Row} {start : Nat} {lead'' : List Column}
    (hrewritten : List.Forall₂ (Column.RewrittenAt start) lead lead')
    (hread : lead'.mapM (·.get start) = .ok key) (h : Led keys (start + 1) lead' lead'') :
    Led (key :: keys) start lead lead'' := by
  refine ⟨fun i x hx ↦ ?_, fun row hrow ↦ ?_⟩
  · rcases i with _ | i
    · obtain rfl := Option.some.inj hx
      rw [← hread]
      exact Column.mapM_get_congr (h.get_eq start (.inl (Nat.lt_succ_self start)))
    · have hrest := h.row_eq i x hx
      rwa [Nat.add_assoc, Nat.add_comm 1] at hrest
  · rw [List.length_cons] at hrow
    have hhere := hrewritten.imp fun _ _ hc ↦ hc.get_eq row (show row ≠ start by omega)
    exact Column.forall₂_get_trans hhere (h.get_eq row (by omega))

/-- Writing keys beside other columns goes on as long as there are rows, and says whether these were
enough. -/
theorem Table.emitSlots_beside (h : k.Table config t) (hstored : slots.mapM t.stored = .ok keys)
    (hlead : Rectangle config.keyTypes size lead) (extra : List Column) (hlength : length ≤ size)
    (hroom : Roomy lead (textBytesIn (keys.take (size - length)))) : ∃ lead',
      t.emitSlots slots ⟨lead ++ extra, length⟩ length =
        .ok (min slots.length (size - length),
          ⟨lead' ++ extra, length + min slots.length (size - length)⟩,
          .ok (decide (slots.length ≤ size - length))) ∧
      Rectangle config.keyTypes size lead' ∧ Led (keys.take (size - length)) length lead lead' := by
  have htypes := h.keyTypes_ne_nil
  rw [Checked.mapM_eq_ok_iff] at hstored
  induction hstored generalizing lead length with
  | nil =>
    refine ⟨lead, ?_, hlead, ?_⟩
    · simp [KeyTable.emitSlots]
    · rw [List.take_nil]
      exact .refl length lead
  | @cons index key slots keys hkey _ ih =>
    obtain ⟨block, hblock, hrow⟩ := exists_of_bind_eq_ok hkey
    have hrectangle := h.keyed.rectangle hblock
    rw [h.config_eq] at hrectangle
    have hstorage := hlead.forall₂_storage hrectangle
    have hcapacity : (⟨lead ++ extra, length⟩ : Block).capacity = size :=
      capacity_beside hlead htypes
    have hemitAt : t.emitAt index ⟨lead ++ extra, length⟩ length =
        emit block (t.layout.split index).offset ⟨lead ++ extra, length⟩ length := by
      rw [KeyTable.emitAt, hblock, h.ops_eq]
      rfl
    rcases Nat.eq_or_lt_of_le hlength with rfl | hlt
    · -- there is no row left
      have hwide : block.width ≤ (⟨lead ++ extra, length⟩ : Block).width := by
        rw [Block.width, Block.width, List.length_append, hstorage.length_eq]
        exact Nat.le_add_right _ _
      have hfull := emit_of_full hwide (Nat.le_of_eq hcapacity) (t.layout.split index).offset
      refine ⟨lead, ?_, hlead, ?_⟩
      · rw [KeyTable.emitSlots, hemitAt, hfull]
        simp
      · rw [Nat.sub_self, List.take_zero]
        exact .refl length lead
    · have hsplit : size - length = size - (length + 1) + 1 := by omega
      rw [hsplit, List.take_succ_cons] at hroom ⊢
      have hexists : length < (⟨lead ++ extra, length⟩ : Block).capacity := hcapacity.symm ▸ hlt
      obtain ⟨lead', hemit, hrewritten, hread, hroom'⟩ := emit_of_room hrow hstorage hlead.aligned
        (fun c hc ↦ hlead.size_eq c hc ▸ hlt) hexists hroom
      have hnext : length + 1 ≤ size := hlt
      rw [Nat.max_eq_right (show length ≤ length + 1 from Nat.le_succ length)] at hemit
      obtain ⟨lead'', hrest, hlead'', hled⟩ := ih (hlead.rewritten hrewritten) hnext hroom'
      refine ⟨lead'', ?_, hlead'', hled.cons hrewritten hread⟩
      have hlengths : length + 1 + min slots.length (size - (length + 1)) =
          length + (min slots.length (size - (length + 1)) + 1) := by omega
      rw [KeyTable.emitSlots, hemitAt, hemit, Checked.ok_bind]
      simp only [hrest, hlengths, Checked.ok_bind, Checked.pure_eq_ok, List.length_cons,
        Nat.add_min_add_right, Nat.add_le_add_iff_right]

/-! ### One call -/

/-- A destination of `size` rows for keys of some types, whose texts take so many bytes. It may have
columns behind those for the keys. -/
structure Destination (types : List DataType) (size : Nat) (bytes : Nat → Nat) (output : Block) :
    Prop where
  aligned : ∀ c ∈ output.columns, c.Aligned
  size_eq : ∀ c ∈ output.columns, c.size = size
  length_le : output.length ≤ size
  types_prefix : types <+: output.types
  unlimited : ∀ i c, (output.columns.take types.length)[i]? = some c →
    c.byteLimit = none ∧ c.usedBytes + bytes i ≤ TextColumn.maxBytes

/-- A block with keys written behind its rows, into the leading columns, and nothing else
changed. -/
structure Filled (width : Nat) (keys : List Row) (output output' : Block) : Prop where
  length_eq : output'.length = output.length + keys.length
  leading_eq : ∀ i key, keys[i]? = some key →
    output'.leading width (output.length + i) = .ok key
  cell_eq : ∀ column row, (row < output.length ∨ output.length + keys.length ≤ row) →
    output'.cell column row = output.cell column row
  drop_eq : output'.columns.drop width = output.columns.drop width
  capacity_eq : output'.capacity = output.capacity
  types_eq : output'.types = output.types

theorem Led.filled (h : Led keys length lead lead') (hwidth : lead.length = width)
    (hlead : Rectangle types size lead) (hlead' : Rectangle types size lead')
    (htypes : types ≠ []) :
    Filled width keys ⟨lead ++ extra, length⟩ ⟨lead' ++ extra, length + keys.length⟩ := by
  have hwidth' : lead'.length = width :=
    (hlead'.length_eq.trans hlead.length_eq.symm).trans hwidth
  refine ⟨rfl, fun i key hkey ↦ ?_, fun column row hrow ↦ ?_, ?_, ?_, ?_⟩
  · rw [Block.leading, List.take_left' hwidth']
    exact h.row_eq i key hkey
  · exact Block.cell_congr (List.rel_append (h.get_eq row hrow)
      (List.forall₂_same.2 fun _ _ ↦ rfl)) column
  · rw [List.drop_left' hwidth, List.drop_left' hwidth']
  · rw [capacity_beside hlead htypes, capacity_beside hlead' htypes]
  · rw [Block.types, Block.types, List.map_append, List.map_append, hlead.types_eq, hlead'.types_eq]

namespace Destination

variable {bytes : Nat → Nat}

theorem length_lead (h : Destination types size bytes output) :
    (output.columns.take types.length).length = types.length := by
  have hle := h.types_prefix.length_le
  rw [Block.types, List.length_map] at hle
  exact List.length_take_of_le hle

/-- The columns of a destination that are written into. -/
theorem rectangle (h : Destination types size bytes output) :
    Rectangle types size (output.columns.take types.length) := by
  refine Column.rectangle_of_types ?_ fun c hc ↦ ?_
  · rw [List.map_take]
    exact (List.prefix_iff_eq_take.1 h.types_prefix).symm
  · have hmem := List.mem_of_mem_take hc
    exact ⟨h.aligned c hmem, h.size_eq c hmem⟩

theorem roomy (h : Destination types size bytes output) :
    Roomy (output.columns.take types.length) bytes := fun i c hc ↦ by
  obtain ⟨hlimit, hbytes⟩ := h.unlimited i c hc
  exact Column.hasRoom_of_unlimited hlimit hbytes

end Destination

/-- What is left after some keys were written out. -/
theorem Table.remaining_wrote (h : k.Table config t) {count : Nat}
    (hcount : count ≤ t.remaining.length) : (t.wrote count).remaining = t.remaining.drop count := by
  rw [(h.wrote hcount).tracking.remaining_eq, h.tracking.remaining_eq, List.drop_drop]
  rfl

/-- One call, after any history. The slots that are left are those that hold keys from the cursor
on, in order. As many of their keys as the destination has rows left are written behind its rows,
one to a row, and the answer says whether these were all. Of the table nothing changes but what
counts the keys written out, and of the destination nothing but these rows of the leading
columns. -/
theorem outputAll_of_destination (h : KeyTable.Reachable config k.ops t) (size : Nat)
    (output : Block) :
    t.remaining.Pairwise (· < ·) ∧
    (∀ index, index ∈ t.remaining ↔ t.outputCursor ≤ index ∧ t.Occupied index) ∧
    ∃ keys, (t.remaining.take (size - output.length)).mapM t.stored = .ok keys ∧
      keys.length = min t.remaining.length (size - output.length) ∧
      (Destination config.keyTypes size (textBytesIn keys) output → ∃ t' output',
        t.outputAll output =
          .ok (t', output', .ok (decide (t.remaining.length ≤ size - output.length))) ∧
        t' = { t with
          outputCursor := t'.outputCursor
          outputCount := t.outputCount + keys.length } ∧
        t'.remaining = t.remaining.drop keys.length ∧
        Filled config.keyTypes.length keys output output') := by
  have ht := table_of_reachable h
  have hslots (index : Nat) (hindex : index ∈ t.remaining) : t.hash? index ≠ none :=
    (KeyTable.mem_slotsFrom.1 hindex).2.2
  obtain ⟨all, hall, -⟩ := ht.exists_keys hslots
  have hkeys : (t.remaining.take (size - output.length)).mapM t.stored =
      .ok (all.take (size - output.length)) :=
    Checked.mapM_eq_ok_iff.2 (List.forall₂_take _ (Checked.mapM_eq_ok_iff.1 hall))
  have hlength : (all.take (size - output.length)).length =
      min t.remaining.length (size - output.length) := by
    rw [List.length_take, Checked.length_of_mapM_eq_ok hall, Nat.min_comm]
  refine ⟨KeyTable.pairwise_slotsFrom t _, fun index ↦ ?_, _, hkeys, hlength, fun houtput ↦ ?_⟩
  · rw [ht.sound.toSegmented.occupied_iff, ← KeyTable.hash?_ne_none_iff, KeyTable.remaining,
      KeyTable.mem_slotsFrom]
    constructor
    · rintro ⟨hle, -, hkey⟩
      exact ⟨hle, hkey⟩
    · rintro ⟨hle, hkey⟩
      exact ⟨hle, KeyTable.lt_freeIndex_of_hash? ht.sound hkey, hkey⟩
  · have htypes := ht.keyTypes_ne_nil
    have hwidth := houtput.length_lead
    have hlead := houtput.rectangle
    have hroom := houtput.roomy
    have hsize := houtput.length_le
    -- the destination by the columns that lead and those behind
    obtain ⟨columns, length⟩ := output
    have hsplit := List.take_append_drop config.keyTypes.length columns
    simp only at *
    generalize columns.take config.keyTypes.length = lead,
      columns.drop config.keyTypes.length = extra at *
    subst hsplit
    obtain ⟨lead', hemit, hlead', hled⟩ := ht.emitSlots_beside hall hlead extra hsize hroom
    have hcount : min t.remaining.length (size - length) ≤ t.remaining.length :=
      Nat.min_le_left _ _
    refine ⟨t.wrote (min t.remaining.length (size - length)), _, ?_, ?_, ?_,
      hled.filled hwidth hlead hlead' htypes⟩
    · rw [ht.sound.outputAll_eq ht.tracking.outputCursor_le, hemit, hlength]
      rfl
    · rw [hlength]
      rfl
    · rw [hlength]
      exact ht.remaining_wrote hcount

/-- A destination with one row and another column, which has two rows left. -/
def begun : Block := ⟨[.int32 (.ofList [some 1, none, none]), .nulls .varchar 3], 1⟩

/-- Of four keys the destination takes two, and keeps its row. -/
theorem outputAll_of_destination_begun : ∃ t answers t' output',
    (KeyTable.fresh KeyTable.cramped identified.ops {}).run ((List.range 6).map (.put repeated ·)) =
        .ok (t, answers) ∧
      t.outputAll begun = .ok (t', output', .ok false) ∧ t'.remaining = [2, 3] ∧
      output'.length = 3 ∧ output'.leading 1 1 = .ok [some (.int32 5)] ∧
      output'.leading 1 2 = .ok [none] ∧ output'.cell 0 0 = .ok (some (.int32 1)) := by
  obtain ⟨t, answers, hrun, hremaining, hstored⟩ : ∃ t answers,
      (KeyTable.fresh KeyTable.cramped identified.ops {}).run
          ((List.range 6).map (.put repeated ·)) = .ok (t, answers) ∧
        t.remaining = [0, 1, 2, 3] ∧ [0, 1].mapM t.stored = .ok [[some (.int32 5)], [none]] := by
    refine ⟨_, _, rfl, rfl, ?_⟩
    rw [funext (KeyTable.stored_eq _)]
    rfl
  have hreachable : KeyTable.Reachable KeyTable.cramped identified.ops t :=
    ⟨_, _, _, KeyTable.create_eq_ok KeyTable.fault?_cramped identified.ops, hrun⟩
  obtain ⟨-, -, keys, hkeys, -, hwrites⟩ := outputAll_of_destination hreachable 3 begun
  rw [hremaining] at hkeys
  obtain rfl := Except.ok.inj (hstored.symm.trans hkeys)
  have hbegun : Destination KeyTable.cramped.keyTypes 3
      (textBytesIn [[some (.int32 5)], [none]]) begun := by
    refine ⟨fun c hc ↦ ?_, by decide, by decide, ⟨[.varchar], rfl⟩, fun i c hc ↦ ?_⟩
    · rcases List.mem_pair.1 hc with rfl | rfl
      · exact FixedColumn.aligned_ofList _
      · exact Column.aligned_nulls _ _
    · obtain ⟨hi, rfl⟩ := List.getElem?_eq_some_iff.1 hc
      obtain rfl : i = 0 := Nat.lt_one_iff.1 hi
      exact ⟨rfl, Nat.zero_le TextColumn.maxBytes⟩
  obtain ⟨t', output', houtput, -, hleft, hfilled⟩ := hwrites hbegun
  rw [hremaining] at houtput hleft
  exact ⟨t, answers, t', output', hrun, houtput, hleft, hfilled.length_eq,
    hfilled.leading_eq 0 _ rfl, hfilled.leading_eq 1 _ rfl,
    hfilled.cell_eq 0 0 (.inl Nat.one_pos)⟩

end ColumnKeys

end Columnar
