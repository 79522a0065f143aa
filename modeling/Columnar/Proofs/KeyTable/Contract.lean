import Columnar.Proofs.KeyTable.Charges
import Columnar.Proofs.KeyTable.Emitted
import Columnar.Proofs.KeyTable.Joining

/-!
# The contract of operations on keys

Hashing, comparing, storing and writing out go through the columns of a key each on its own. They
agree nonetheless on what the key is: after the key of a row was stored into a slot, the slot agrees
with just the rows of either layout that have the same values, these have the same hash, and writing
the slot out gives the values back (`contract_of_store`).

## What the key is

The key is a row of values, one for each key column, and `SameKey` is equality of such rows with the
proviso for missing values. Every operation is shown to be a function of that row. So the contract
holds for any digest: two rows with the same values have the same hash **because the hash is
computed of the values**, and nothing is assumed about values that differ.

## What the key is not

`Indifferent` lists what plays no part, be it other columns, the number of rows or what stands
behind a missing value. It is stated from both sides: rows that read alike are hashed, compared and
stored alike, and slots that read alike, of any columns of the same types, are compared and written
out alike. The capacity of those columns is not mentioned, so it may be any.

The contract is about one slot at a time. Other slots keep what they have, since storing a key
rewrites one row; that a table finds a key by these operations is proved elsewhere, from the same
lemmas.
-/

namespace Columnar

/-- What rewriting a row of a column keeps is the same of all columns a row of which is
rewritten. -/
theorem Column.map_eq_of_rewritten {α : Type} {f : Column → α} {row : Nat}
    (hf : ∀ c c', RewrittenAt row c c' → f c' = f c) {columns columns' : List Column}
    (h : List.Forall₂ (RewrittenAt row) columns columns') : columns'.map f = columns.map f := by
  induction h with
  | nil => rfl
  | cons hc _ ih => rw [List.map_cons, List.map_cons, ih, hf _ _ hc]

theorem Block.types_of_rewritten {b b' : Block} {row : Nat}
    (h : List.Forall₂ (Column.RewrittenAt row) b.columns b'.columns) : b'.types = b.types :=
  Column.map_eq_of_rewritten (fun _ _ hc ↦ Column.storage_eq_iff.1 hc.storage_eq) h

namespace ColumnKeys

variable {k : ColumnKeys} {keyColumns : List KeyColumn} {types probeTypes : List DataType}
  {nulls : NullEquality} {a b keys keys' : Block} {ra rb slot : Nat} {indexes indexes' : List Nat}
  {key key' : Row} {columns columns' : List Column}

/-! ### Rows with the same key -/

/-- Rows with the same values in the columns of their keys, none of which is missing where missing
values never match. -/
def SameKey (nulls : NullEquality) (indexes : List Nat) (a : Block) (ra : Nat) (indexes' : List Nat)
    (b : Block) (rb : Nat) : Prop :=
  List.Forall₂ (fun index index' ↦ ∃ value, a.cell index ra = .ok value ∧
    b.cell index' rb = .ok value ∧ (nulls = .equal ∨ value ≠ none)) indexes indexes'

theorem sameKey_iff (ha : keyAt indexes a ra = .ok key) (hb : keyAt indexes' b rb = .ok key') :
    SameKey nulls indexes a ra indexes' b rb ↔ key' = key ∧ (nulls = .equal ∨ none ∉ key') := by
  rw [keyAt, Checked.mapM_eq_ok_iff] at ha hb
  rw [SameKey]
  induction ha generalizing indexes' key' with
  | nil =>
    rcases hb with _ | ⟨hvalue, hb⟩
    · simp
    · simp
  | @cons index value indexes key hvalue ha ih =>
    rcases hb with _ | @⟨index', value', indexes', key', hvalue', hb⟩
    · simp
    · have hhere : (∃ v, a.cell index ra = .ok v ∧ b.cell index' rb = .ok v ∧
          (nulls = .equal ∨ v ≠ none)) ↔ value' = value ∧ (nulls = .equal ∨ value' ≠ none) := by
        simp only [hvalue, hvalue', Except.ok.injEq]
        constructor
        · rintro ⟨v, rfl, rfl, hmatches⟩
          exact ⟨rfl, hmatches⟩
        · rintro ⟨rfl, hmatches⟩
          exact ⟨_, rfl, rfl, hmatches⟩
      rw [List.forall₂_cons, hhere, ih hb, List.cons.injEq, List.mem_cons, not_or, ne_comm]
      tauto

/-- A row of a layout that was checked agrees with a slot just if the slot holds its key. -/
theorem agreeAt_of_row (hkey : keyAt k.build a ra = .ok key) (hslot : keys.row slot = .ok key)
    (hlength : key.length = keyColumns.length) (hcheck : check indexes types keyColumns = .ok ())
    (hb : b.types = types) (hrow : b.HasRow rb) : ∃ same,
      agreeAt k.nulls b rb slot indexes keys.columns = .ok same ∧
        (same = true ↔ SameKey k.nulls k.build a ra indexes b rb) ∧
        (same = true → ∃ hash, k.hashAt k.build a ra = .ok hash ∧
          k.hashAt indexes b rb = .ok hash) := by
  obtain ⟨key', hkey', hlength'⟩ := exists_keyAt_of_hasRow hcheck hb hrow
  have hagree : keysAgree k.nulls key' key = true ↔
      key' = key ∧ (k.nulls = .equal ∨ none ∉ key') :=
    keysAgree_eq_true_iff (hlength'.trans hlength.symm)
  refine ⟨_, agreeAt_eq k.nulls hkey' hslot, ?_, fun hsame ↦ ?_⟩
  · rw [hagree, sameKey_iff hkey hkey']
  · obtain ⟨rfl, -⟩ := hagree.1 hsame
    refine ⟨foldHash (k.digest key'), ?_, ?_⟩
    · rw [hashAt, hkey]
      rfl
    · rw [hashAt, hkey']
      rfl

/-! ### What does not matter -/

/-- Rows whose key columns read alike are compared alike. -/
theorem agreeAt_congr_rows (h : ∀ index ∈ indexes, b.cell index rb = a.cell index ra)
    (columns : List Column) :
    agreeAt nulls b rb slot indexes columns = agreeAt nulls a ra slot indexes columns := by
  induction indexes generalizing columns with
  | nil => rfl
  | cons index indexes ih =>
    rcases columns with _ | ⟨c, columns⟩
    · rfl
    · have hrest := ih fun other hother ↦ h other (List.mem_cons_of_mem _ hother)
      simp only [agreeAt, h index List.mem_cons_self, hrest]

theorem hashAt_congr_rows (h : ∀ index ∈ indexes, b.cell index rb = a.cell index ra) :
    k.hashAt indexes b rb = k.hashAt indexes a ra := by
  rw [hashAt, hashAt, keyAt, keyAt, Checked.mapM_congr h]

/-- Columns of blocks with the same types, whose rows can be read, are stored alike. -/
theorem exists_columns (htypes : b.types = a.types) {index : Nat} {value : Option Scalar}
    (ha : a.cell index ra = .ok value) (hb : b.cell index rb = .ok value) : ∃ c c',
      a.column index = .ok c ∧ b.column index = .ok c' ∧ c'.storage = c.storage ∧
        c.get ra = .ok value ∧ c'.get rb = .ok value := by
  obtain ⟨c, hc, hget⟩ := exists_of_bind_eq_ok ha
  obtain ⟨c', hc', hget'⟩ := exists_of_bind_eq_ok hb
  refine ⟨c, c', hc, hc', Column.storage_eq_iff.2 ?_, hget, hget'⟩
  have htype : a.types[index]? = some c.dataType := by
    rw [Block.column, Checked.elem] at hc
    rw [Block.types, List.getElem?_map]
    cases hcolumn : a.columns[index]? with
    | none => simp [hcolumn] at hc
    | some column =>
      rw [hcolumn] at hc
      rw [Option.map_some, Except.ok.inj hc]
  exact dataType_of_column htypes htype hc'

/-- Rows whose key columns read alike are stored alike. -/
theorem store_congr_rows (htypes : b.types = a.types) (ha : keyAt indexes a ra = .ok key)
    (hb : keyAt indexes b rb = .ok key) (keys : Block) (slot : Nat) :
    store indexes b rb keys slot = store indexes a ra keys slot := by
  have hcopy (targets : List Column) : copyRow slot rb targets (indexes.map b.column) =
      copyRow slot ra targets (indexes.map a.column) := by
    rw [keyAt, Checked.mapM_eq_ok_iff] at ha hb
    induction ha generalizing targets with
    | nil => rcases targets with _ | ⟨target, targets⟩ <;> rfl
    | cons hvalue _ ih =>
      obtain ⟨hvalue', hb⟩ := List.forall₂_cons.1 hb
      obtain ⟨c, c', hc, hc', hstorage, hget, hget'⟩ := exists_columns htypes hvalue hvalue'
      rcases targets with _ | ⟨target, targets⟩
      · rfl
      · simp only [List.map_cons, copyRow, hc, hc', Checked.ok_bind, Column.fetch, hstorage, hget,
          hget', ih hb]
  rw [store, store, hcopy]

/-- Columns that are stored alike and read as the same row. -/
theorem forall₂_get_of_row (hstorage : List.Forall₂ (fun c c' ↦ c.storage = c'.storage)
      columns columns') {slot' : Nat} (h : columns.mapM (·.get slot) = .ok key)
    (h' : columns'.mapM (·.get slot') = .ok key) :
    List.Forall₂ (fun c c' ↦ c.storage = c'.storage ∧ c.get slot = c'.get slot')
      columns columns' := by
  rw [Checked.mapM_eq_ok_iff] at h h'
  induction hstorage generalizing key with
  | nil => exact .nil
  | cons hc _ ih =>
    rcases h with _ | ⟨hget, h⟩
    obtain ⟨hget', h'⟩ := List.forall₂_cons.1 h'
    exact .cons ⟨hc, hget.trans hget'.symm⟩ (ih h h')

/-! ### The contract -/

/-- What holds after the key of a row was stored into a slot. -/
structure Contract (k : ColumnKeys) (types probeTypes : List DataType) (a : Block) (ra : Nat)
    (key : Row) (keys : Block) (slot : Nat) (keys' : Block) : Prop where
  /-- The slot agrees with just the rows that have the same key, and these have the same hash. -/
  agrees : ∀ b rb, b.types = types → b.HasRow rb → ∃ same,
    k.ops.agrees b rb keys' slot = .ok same ∧
      (same = true ↔ SameKey k.nulls k.build a ra k.build b rb) ∧
      (same = true → ∃ hash, k.ops.hash a ra = .ok hash ∧ k.ops.hash b rb = .ok hash)
  /-- So it does with rows of the second layout. -/
  probeAgrees : ∀ p rp, p.types = probeTypes → p.HasRow rp → ∃ same,
    k.ops.probeAgrees p rp keys' slot = .ok same ∧
      (same = true ↔ SameKey k.nulls k.build a ra k.probe p rp) ∧
      (same = true → ∃ hash, k.ops.hash a ra = .ok hash ∧ k.ops.probeHash p rp = .ok hash)
  /-- The other slots are as before. -/
  cell_eq : ∀ column other, other ≠ slot → keys'.cell column other = keys.cell column other
  length_eq : keys'.length = keys.length
  types_eq : keys'.types = keys.types
  sizes_eq : keys'.columns.map Column.size = keys.columns.map Column.size
  /-- A row that the slot is written out to leads with the key. -/
  emits : ∀ output row, (∀ c ∈ output.columns.take keys.width, c.Aligned) → ∃ output' result,
    k.ops.emit keys' slot output row = .ok (output', result) ∧
      (result = .ok true → Written keys.width key row output output')
  /-- The slot is written out if the row exists in columns of its types, with room for its texts. -/
  emits_of_room : ∀ output row, keys.types <+: output.types → row < output.capacity →
    (∀ c ∈ output.columns.take keys.width, c.Aligned ∧ row < c.size) →
    (Column.Roomy (output.columns.take keys.width) fun i ↦ textBytes key[i]?.join) →
    ∃ output', k.ops.emit keys' slot output row = .ok (output', .ok true) ∧
      Written keys.width key row output output'

/-- What the operations do not look at: of the rows, anything but the values in the columns of their
keys; and of the columns that keys are stored in, anything but the values in the slot. -/
structure Indifferent (k : ColumnKeys) (types : List DataType) (key : Row) (keys : Block)
    (slot : Nat) (keys' : Block) : Prop where
  rows : ∀ b rb b' rb', (∀ index ∈ k.build, b'.cell index rb' = b.cell index rb) →
    k.ops.hash b' rb' = k.ops.hash b rb ∧
      k.ops.agrees b' rb' keys' slot = k.ops.agrees b rb keys' slot
  probeRows : ∀ p rp p' rp', (∀ index ∈ k.probe, p'.cell index rp' = p.cell index rp) →
    k.ops.probeHash p' rp' = k.ops.probeHash p rp ∧
      k.ops.probeAgrees p' rp' keys' slot = k.ops.probeAgrees p rp keys' slot
  /-- A row that reads alike is stored alike. -/
  stores : ∀ a' ra', a'.types = types → keyAt k.build a' ra' = .ok key →
    k.ops.store a' ra' keys slot = .ok (keys', .ok ())
  /-- A slot that reads alike, of any columns of the same types, is compared and written out
  alike. -/
  slots : ∀ others slot', others.types = keys.types → others.row slot' = .ok key →
    (∀ b rb, k.ops.agrees b rb others slot' = k.ops.agrees b rb keys' slot) ∧
      (∀ p rp, k.ops.probeAgrees p rp others slot' = k.ops.probeAgrees p rp keys' slot) ∧
      ∀ output row, k.ops.emit others slot' output row = k.ops.emit keys' slot output row

theorem contract_of_row (hbuild : check k.build types keyColumns = .ok ())
    (hprobe : check k.probe probeTypes keyColumns = .ok ()) (hkey : keyAt k.build a ra = .ok key)
    (hlength : key.length = keyColumns.length) (hslot : keys'.row slot = .ok key)
    (hrewritten : List.Forall₂ (Column.RewrittenAt slot) keys.columns keys'.columns)
    (hkeys : keys'.length = keys.length) :
    Contract k types probeTypes a ra key keys slot keys' := by
  have htypes := Block.types_of_rewritten hrewritten
  have hwidth : keys'.width = keys.width := hrewritten.length_eq.symm
  refine ⟨fun b rb hb hrow ↦ agreeAt_of_row hkey hslot hlength hbuild hb hrow,
    fun p rp hp hrow ↦ agreeAt_of_row hkey hslot hlength hprobe hp hrow,
    fun column other hne ↦ ?_, hkeys, htypes, ?_, ?_, ?_⟩
  · exact Block.cell_congr (hrewritten.imp fun _ _ hc ↦ hc.get_eq other hne) column
  · exact Column.map_eq_of_rewritten (fun _ _ hc ↦ hc.size_eq) hrewritten
  · rw [← hwidth]
    exact fun output row houtput ↦ exists_emit_at hslot houtput row
  · rw [← hwidth, ← htypes]
    exact fun output row hprefix hrow hlead hroom ↦
      exists_emit_of_room hslot hprefix hrow hlead hroom

theorem indifferent_of_row (ha : a.types = types) (hkey : keyAt k.build a ra = .ok key)
    (hslot : keys'.row slot = .ok key) (htypes : keys'.types = keys.types)
    (hstore : k.ops.store a ra keys slot = .ok (keys', .ok ())) :
    Indifferent k types key keys slot keys' where
  rows _ _ _ _ hsame := ⟨hashAt_congr_rows hsame, agreeAt_congr_rows hsame _⟩
  probeRows _ _ _ _ hsame := ⟨hashAt_congr_rows hsame, agreeAt_congr_rows hsame _⟩
  stores _ _ ha' hkey' := (store_congr_rows (ha'.trans ha.symm) hkey hkey' keys slot).trans hstore
  slots others slot' hothers hrow := by
    have hget := forall₂_get_of_row
      (Column.forall₂_storage_of_types (hothers.trans htypes.symm)) hrow hslot
    exact ⟨fun b rb ↦ agreeAt_congr (hget.imp fun _ _ ↦ And.right),
      fun p rp ↦ agreeAt_congr (hget.imp fun _ _ ↦ And.right),
      fun output row ↦ emit_congr hget output row⟩

/-- The operations on keys agree on what the key of a row is, once it was stored into a slot. -/
theorem contract_of_store (hbuild : check k.build types keyColumns = .ok ())
    (hprobe : check k.probe probeTypes keyColumns = .ok ()) (ha : a.types = types)
    (hkeys : keys.types = keyColumns.map KeyColumn.dataType)
    (haligned : ∀ c ∈ keys.columns, c.Aligned)
    (hstore : k.ops.store a ra keys slot = .ok (keys', .ok ())) :
    ∃ key, keyAt k.build a ra = .ok key ∧ Contract k types probeTypes a ra key keys slot keys' ∧
      Indifferent k types key keys slot keys' := by
  have hwidth : keyColumns.length = keys.width := by
    have hlength := congrArg List.length hkeys
    rw [Block.types, List.length_map, List.length_map] at hlength
    exact hlength.symm
  have hindexes := length_of_check hbuild
  obtain ⟨key, hkey⟩ := exists_keyAt_of_store hstore (hindexes.trans hwidth)
  have hlength : key.length = keyColumns.length :=
    (Checked.length_of_mapM_eq_ok hkey).trans hindexes
  have hrewritten := rewritten_of_store hstore haligned
  have hslot := row_of_store hstore haligned hkey (hlength.trans hwidth)
  have hrows : keys'.length = keys.length := by
    obtain ⟨⟨columns, result⟩, -, h⟩ := exists_of_bind_eq_ok hstore
    obtain ⟨rfl, -⟩ := Prod.mk.inj (Except.ok.inj h)
    rfl
  exact ⟨key, hkey, contract_of_row hbuild hprobe hkey hlength hslot hrewritten hrows,
    indifferent_of_row ha hkey hslot (Block.types_of_rewritten hrewritten) hstore⟩

/-- The key of a row is stored into the second of two slots, where a row of the second layout
matches it. -/
theorem contract_of_store_repeated : ∃ keys',
    joining.ops.store repeated 0 (.ofTypes [.integer] 2) 1 = .ok (keys', .ok ()) ∧
      keys'.row 0 = .ok [none] ∧ joining.ops.probeAgrees probed 2 keys' 1 = .ok true ∧
      ∃ hash, joining.ops.hash repeated 0 = .ok hash ∧
        joining.ops.probeHash probed 2 = .ok hash := by
  obtain ⟨keys', hstore, hother⟩ : ∃ keys',
      joining.ops.store repeated 0 (.ofTypes [.integer] 2) 1 = .ok (keys', .ok ()) ∧
        keys'.row 0 = .ok [none] :=
    ⟨_, rfl, rfl⟩
  have hbuild : check joining.build [.integer] KeyTable.cramped.keyColumns = .ok () := rfl
  have hprobe : check joining.probe [.varchar, .integer] KeyTable.cramped.keyColumns = .ok () := rfl
  obtain ⟨key, -, hcontract, -⟩ := contract_of_store hbuild hprobe wellFormed_repeated.types_eq rfl
    (Block.aligned_ofTypes [.integer] 2) hstore
  have hrow : probed.HasRow 2 := wellFormed_probed.hasRow (by decide)
  obtain ⟨same, hsame, hiff, hhash⟩ := hcontract.probeAgrees probed 2 rfl hrow
  have hkey : SameKey joining.nulls joining.build repeated 0 joining.probe probed 2 :=
    .cons ⟨some (.int32 5), rfl, rfl, .inr (Option.some_ne_none _)⟩ .nil
  have htrue := hiff.2 hkey
  exact ⟨keys', hstore, hother, htrue ▸ hsame, hhash htrue⟩

end ColumnKeys

end Columnar
