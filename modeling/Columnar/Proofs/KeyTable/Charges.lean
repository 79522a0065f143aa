import Columnar.Proofs.KeyTable.Room
import Columnar.Proofs.KeyTable.Stable

/-!
# Bytes of keys

What storing a key costs. Copying the key into the columns of a segment goes on up to the first
column that has no room left for its text, and every column before takes the bytes of its value
(`Copied.settled`). So a put of a row that can be read finds the key, stores it as a whole, or is
refused by that column (`Table.put_settles`).

## Budgets and charges

Every text column of a segment has a budget, which is the same in every segment and never changes
(`Table.budgeted_run`). What a column has used is the size of its buffer. A value that is written
takes its bytes whether or not the key is stored in the end: `Charged` says which columns took
theirs, and **a refused key leaves the columns before the refusal charged**. Nothing here says where
the bytes of a column come from; that is the subject of the module on what refused keys leave.

## The next slot

The columns that matter to a put are those beside the next slot, in a segment that may not be there
yet. `heldBytes` is what such a column holds, which is nothing in a new segment, and `nextKeys` has
its budget (`Budgeted.nextKeys`). With these two the outcome of a put is decided by the row and the
table before it, with no mention of a segment that is allocated on the way.

`induct_run` is the induction that this module and others use: what puts and clearing keep, and what
does not depend on the keys written out so far, holds after any calls.
-/

namespace Columnar

namespace Column

variable {c c' : Column} {row : Nat} {value : Option Scalar}

/-- The bytes in the buffer of a column of texts. Other columns have none. -/
def usedBytes : Column → Nat
  | text d => d.usedBytes
  | _ => 0

/-- The byte budget that was set for a column, if any. -/
def byteLimit : Column → Option Nat
  | text d => d.byteLimit
  | _ => none

/-- A value that is written takes its bytes. -/
theorem usedBytes_put (h : c.Suits value) :
    (c.put row value).usedBytes = c.usedBytes + textBytes value := by
  cases h.typed with
  | boolean d v => cases v <;> rfl
  | int32 d v => cases v <;> rfl
  | int64 d v => cases v <;> rfl
  | double d v => cases v <;> rfl
  | text d v =>
    cases v with
    | none => rfl
    | some s => exact ByteArray.size_append

theorem byteLimit_put (c : Column) (row : Nat) (value : Option Scalar) :
    (c.put row value).byteLimit = c.byteLimit := by
  cases c <;> rcases value with _ | v <;> try cases v
  all_goals rfl

theorem usedBytes_setByteLimit (c : Column) (limit : Option Nat) :
    (c.setByteLimit limit).usedBytes = c.usedBytes := by
  cases c <;> rfl

theorem usedBytes_nulls (type : DataType) (n : Nat) : (nulls type n).usedBytes = 0 := by
  cases type <;> rfl

/-- A value is refused for want of room just if it is a text that exceeds what is left. -/
theorem overflow?_eq_some_iff {refusal : ColumnError} :
    c.overflow? value = some refusal ↔ ∃ d s, c = text d ∧ value = some (.text s) ∧
      d.budget < d.usedBytes + s.utf8ByteSize ∧
      refusal = .overBudget s.utf8ByteSize d.usedBytes d.budget := by
  constructor
  · intro h
    cases c with
    | text d =>
      cases value with
      | none => cases h
      | some v =>
        cases v with
        | text s =>
          simp only [overflow?, TextColumn.overflow?] at h
          split_ifs at h with hroom
          exact ⟨d, s, rfl, rfl, Nat.lt_of_not_le hroom, (Option.some.inj h).symm⟩
        | _ => cases h
    | _ => cases h
  · rintro ⟨d, s, rfl, rfl, hroom, rfl⟩
    simp only [overflow?, TextColumn.overflow?, if_neg (Nat.not_le_of_lt hroom)]

/-- Why a value of a row does not fit into its column, if so. -/
def overflowAt (columns : List Column) (values : Row) (i : Nat) : Option ColumnError := do
  (← columns[i]?).overflow? (← values[i]?)

/-- Columns the first of which took the bytes of some values. -/
inductive Charged : List Column → Row → List Column → Prop
  | rest (columns : List Column) : Charged columns [] columns
  | taken {c c' : Column} {value : Option Scalar} {columns columns' : List Column} {values : Row} :
    c'.usedBytes = c.usedBytes + textBytes value → Charged columns values columns' →
    Charged (c :: columns) (value :: values) (c' :: columns')

/-- What a column took, which is nothing behind the last of the values. -/
theorem Charged.usedBytes_eq {columns columns' : List Column} {values : Row}
    (h : Charged columns values columns') {i : Nat} (hc : columns[i]? = some c)
    (hc' : columns'[i]? = some c') : c'.usedBytes = c.usedBytes + textBytes values[i]?.join := by
  induction h generalizing i with
  | rest =>
    obtain rfl := Option.some.inj (hc.symm.trans hc')
    rfl
  | taken hused _ ih =>
    cases i with
    | zero =>
      obtain rfl := Option.some.inj hc
      obtain rfl := Option.some.inj hc'
      exact hused
    | succ i => exact ih hc hc'

end Column

open Column (Charged overflowAt)

namespace TableConfig

/-- How many bytes each text column of a segment may hold. -/
def textBudget (config : TableConfig) : Nat :=
  min (config.segmentCapacity * config.textBytesPerSlot) TextColumn.maxBytes

/-- The byte budget that is set for a column of a segment. -/
def byteLimitOf (config : TableConfig) : DataType → Option Nat
  | .varchar => some (config.segmentCapacity * config.textBytesPerSlot)
  | _ => none

end TableConfig

namespace KeyTable

variable {ε : Type} {t t' : KeyTable ε}

/-- The bytes that a key column holds in the segment of the next slot, which are none if the segment
is not there yet. -/
def heldBytes (t : KeyTable ε) (column : Nat) : Nat :=
  (t.segments[(t.layout.split t.freeIndex).segment]?.bind (·.keys.columns[column]?)).elim 0
    Column.usedBytes

/-- The columns of all segments have the byte budgets that are set for them. -/
def Budgeted (t : KeyTable ε) : Prop :=
  ∀ keys ∈ t.keys, keys.columns.map Column.byteLimit = t.config.keyTypes.map t.config.byteLimitOf

theorem columns_newSegment (config : TableConfig) :
    (newSegment config).keys.columns = config.keyTypes.map fun type ↦
      (Column.nulls type config.segmentCapacity).setByteLimit
        (some (config.segmentCapacity * config.textBytesPerSlot)) := by
  simp only [newSegment, Segment.ofTypes, Block.ofTypes, List.map_map]
  rfl

theorem usedBytes_newSegment {config : TableConfig} {c : Column}
    (hc : c ∈ (newSegment config).keys.columns) : c.usedBytes = 0 := by
  rw [columns_newSegment] at hc
  obtain ⟨type, -, rfl⟩ := List.mem_map.1 hc
  rw [Column.usedBytes_setByteLimit, Column.usedBytes_nulls]

theorem byteLimits_newSegment (config : TableConfig) :
    (newSegment config).keys.columns.map Column.byteLimit =
      config.keyTypes.map config.byteLimitOf := by
  rw [columns_newSegment, List.map_map]
  refine List.map_congr_left fun type _ ↦ ?_
  cases type <;> rfl

/-- What the columns beside the next slot hold. -/
theorem heldBytes_eq {column : Nat} {c : Column} (hc : t.nextKeys.columns[column]? = some c) :
    t.heldBytes column = c.usedBytes := by
  rw [nextKeys] at hc
  rw [heldBytes]
  cases hsegment : t.segments[(t.layout.split t.freeIndex).segment]? with
  | none =>
    rw [hsegment] at hc
    exact (usedBytes_newSegment (List.mem_of_getElem? hc)).symm
  | some segment =>
    rw [hsegment, Option.getD_some] at hc
    rw [Option.bind_some, hc]
    rfl

theorem budgeted_fresh (config : TableConfig) (ops : KeyOps ε) (metrics : TableMetrics) :
    (fresh config ops metrics).Budgeted := fun keys hkeys ↦ by
  obtain rfl : keys = (newSegment config).keys := by simpa [keys_fresh] using hkeys
  exact byteLimits_newSegment config

theorem Budgeted.nextKeys (h : t.Budgeted) :
    t.nextKeys.columns.map Column.byteLimit = t.config.keyTypes.map t.config.byteLimitOf := by
  rw [nextKeys_eq]
  cases hkeys : t.keys[(t.layout.split t.freeIndex).segment]? with
  | none => exact byteLimits_newSegment t.config
  | some keys => exact h keys (Array.mem_of_getElem? hkeys)

/-- The keys of the segments after a slot was used up. -/
theorem Used.getElem?_keys {keys : Block} {hash : Option UInt32} (h : t.Used keys hash t')
    (number : Nat) : t'.keys[number]? =
      if (t.layout.split t.freeIndex).segment = number then some keys else t.keys[number]? := by
  rw [h.keys_eq, Array.getElem?_modify]
  split_ifs with hnumber
  · rw [← hnumber, Array.getElem?_eq_getElem h.lt_size_keys]
    rfl
  · rw [keys_extended_eq]
    split_ifs with hnew
    · rw [Array.getElem?_push, if_neg fun heq ↦ hnumber (hnew.trans heq.symm)]
    · rfl

/-- Storing a key keeps the budgets. -/
theorem Budgeted.used (h : t.Budgeted) {keys : Block} {hash : Option UInt32}
    (hused : t.Used keys hash t')
    (hlimits : keys.columns.map Column.byteLimit = t.nextKeys.columns.map Column.byteLimit) :
    t'.Budgeted := by
  intro keys' hkeys'
  obtain ⟨number, hnumber⟩ := Array.mem_iff_getElem?.1 hkeys'
  rw [hused.getElem?_keys] at hnumber
  rw [hused.config_eq]
  split_ifs at hnumber
  · obtain rfl := Option.some.inj hnumber
    exact hlimits.trans h.nextKeys
  · exact h keys' (Array.mem_of_getElem? hnumber)

end KeyTable

namespace ColumnKeys

variable {k : ColumnKeys} {config : TableConfig} {t t' : KeyTable KeyError} {input : Block}
  {row sourceRow slot : Nat} {key : Row} {types : List DataType} {indexes : List Nat}
  {targets targets' : List Column} {sources : List (Checked Column)}
  {result : Except ColumnError Unit}

/-! ### Copying a key -/

/-- What copying a key comes to that the columns can store: all of them have room for their values,
or the first one that has none refuses, after those before it took theirs. -/
inductive Settled (targets : List Column) (key : Row) (targets' : List Column) :
    Except ColumnError Unit → Prop
  | taken : (∀ i, overflowAt targets key i = none) → Charged targets key targets' →
    Settled targets key targets' (.ok ())
  | refused {column : Nat} {refusal : ColumnError} :
    overflowAt targets key column = some refusal → (∀ i < column, overflowAt targets key i = none) →
    Charged targets (key.take column) targets' → Settled targets key targets' (.error refusal)

/-- A value for which there is room comes before the others. -/
theorem Settled.cons {c c' : Column} {value : Option Scalar}
    (h : Settled targets key targets' result) (hroom : c.overflow? value = none)
    (hused : c'.usedBytes = c.usedBytes + textBytes value) :
    Settled (c :: targets) (value :: key) (c' :: targets') result := by
  cases h with
  | taken hfits hcharged =>
    refine .taken (fun i ↦ ?_) (.taken hused hcharged)
    cases i with
    | zero => exact hroom
    | succ i => exact hfits i
  | @refused column refusal hrefusal hfits hcharged =>
    have hrefusal : overflowAt (c :: targets) (value :: key) (column + 1) = some refusal := hrefusal
    refine .refused hrefusal (fun i hi ↦ ?_) (.taken hused hcharged)
    cases i with
    | zero => exact hroom
    | succ i => exact hfits i (Nat.lt_of_succ_lt_succ hi)

theorem Copied.settled (h : Copied row sourceRow targets sources targets' result)
    (hreads : Reads sourceRow sources key)
    (hstorage : List.Forall₂ (fun target source ↦ ∀ c, source = .ok c → target.storage = c.storage)
      targets sources)
    (hrow : ∀ c ∈ targets, row < c.size) : Settled targets key targets' result := by
  induction h generalizing key with
  | done =>
    cases hstorage
    cases hreads
    exact .taken (fun _ ↦ rfl) (.rest _)
  | narrow =>
    cases hstorage
    cases hreads
    exact .taken (fun _ ↦ rfl) (.rest _)
  | wrongSource hne =>
    cases hstorage with
    | cons heq => exact absurd (heq _ rfl) hne
  | @refused target source targets sources value refusal heq hget hrefusal =>
    cases hreads with
    | @cons _ _ _ values hsource =>
      obtain ⟨c, hc, hvalue⟩ := hsource
      obtain rfl := Except.ok.inj hc
      obtain rfl := Except.ok.inj (hget.symm.trans hvalue)
      -- the storage and the row are right, so it is for want of room
      have hsuits : target.Suits value := fun v hv ↦
        (Column.suits_of_get_eq_ok hget v hv).trans heq.symm
      have hnone : value.filter (fun v ↦ v.storage != target.storage) = none := by
        rcases value with _ | v
        · rfl
        · simpa using hsuits v rfl
      rw [Column.refusal?, hnone] at hrefusal
      simp only [if_pos (hrow target List.mem_cons_self)] at hrefusal
      have hoverflow : overflowAt (target :: targets) (value :: values) 0 = some refusal :=
        hrefusal
      exact .refused hoverflow (fun i hi ↦ absurd hi (Nat.not_lt_zero i)) (.rest _)
  | @copied target source _ _ _ value _ heq hget hrefusal _ ih =>
    cases hreads with
    | cons hsource hreads =>
      obtain ⟨c, hc, hvalue⟩ := hsource
      obtain rfl := Except.ok.inj hc
      obtain rfl := Except.ok.inj (hget.symm.trans hvalue)
      obtain ⟨hsuits, -, hroom⟩ := Column.refusal?_eq_none_iff.1 hrefusal
      cases hstorage with
      | cons _ hstorage =>
        have hrest := ih hreads hstorage fun c hc ↦ hrow c (List.mem_cons_of_mem _ hc)
        exact hrest.cons hroom (Column.usedBytes_put hsuits)

/-- Copying does not change byte budgets. -/
theorem Copied.byteLimits_eq (h : Copied row sourceRow targets sources targets' result) :
    targets'.map Column.byteLimit = targets.map Column.byteLimit := by
  induction h with
  | done | narrow | wrongSource | refused => rfl
  | copied _ _ _ _ ih => rw [List.map_cons, List.map_cons, Column.byteLimit_put, ih]

/-! ### Keys of well-formed blocks -/

/-- The columns that serve as keys have the types of the key columns. -/
theorem forall₂_types_of_check (h : check indexes types config.keyColumns = .ok ()) :
    List.Forall₂ (fun index type ↦ types[index]? = some type) indexes config.keyTypes := by
  have hlength := length_of_check h
  rw [check, if_pos hlength] at h
  rw [TableConfig.keyTypes]
  generalize config.keyColumns = keyColumns at h hlength
  induction indexes generalizing keyColumns with
  | nil =>
    obtain rfl := List.length_eq_zero_iff.1 hlength.symm
    exact .nil
  | cons index indexes ih =>
    cases keyColumns with
    | nil => cases hlength
    | cons keyColumn keyColumns =>
      rw [checkColumns] at h
      cases htype : types[index]? with
      | none =>
        rw [htype] at h
        cases h
      | some found =>
        rw [htype] at h
        simp only at h
        split_ifs at h with hfound
        exact .cons (hfound ▸ htype) (ih _ h (Nat.succ.inj hlength))

/-- A column of a block has its type. -/
theorem dataType_of_column (htypes : input.types = types) {index : Nat} {type : DataType}
    (htype : types[index]? = some type) {c : Column} (hc : input.column index = .ok c) :
    c.dataType = type := by
  rw [Block.column, Checked.elem] at hc
  cases hcolumn : input.columns[index]? with
  | none => simp [hcolumn] at hc
  | some column =>
    rw [hcolumn] at hc
    obtain rfl := Except.ok.inj hc
    rw [← htypes, Block.types, List.getElem?_map, hcolumn] at htype
    exact Option.some.inj htype

namespace Table

/-- Storing a key that can be read fills the columns as far as there is room. -/
theorem store_settled (h : k.Table config t)
    (hbuild : check k.build types config.keyColumns = .ok ()) (htypes : input.types = types)
    (hkey : keyAt k.build input row = .ok key) {keys : Block} {result : Except KeyError Unit}
    (hstore : t.ops.store input row t.nextKeys (t.layout.split t.freeIndex).offset =
      .ok (keys, result)) : ∃ copied, result = copied.mapError .column ∧
        Settled t.nextKeys.columns key keys.columns copied := by
  rw [h.ops_eq] at hstore
  obtain ⟨copied, hcopied, hresult⟩ := copied_of_store hstore
  have hnext := h.keyed.nextKeys
  rw [h.config_eq] at hnext
  refine ⟨copied, hresult, hcopied.settled (reads_iff.2 hkey) ?_ fun c hc ↦ ?_⟩
  · have hindexes := forall₂_types_of_check hbuild
    generalize t.nextKeys.columns = columns at hnext
    generalize config.keyTypes = keyTypes at hnext hindexes
    generalize k.build = indexes at hindexes
    induction hnext generalizing indexes with
    | nil =>
      cases hindexes
      exact .nil
    | cons hc _ ih =>
      cases hindexes with
      | cons htype hrest =>
        refine .cons (fun source hsource ↦ ?_) (ih _ hrest)
        exact Column.storage_eq_iff.2 (hc.1.trans (dataType_of_column htypes htype hsource).symm)
  · rw [hnext.size_eq c hc, ← h.config_eq]
    exact h.sound.toSegmented.offset_lt t.freeIndex

end Table

/-! ### Puts -/

/-- What putting a key leads to that the columns can store. -/
inductive Settles (k : ColumnKeys) (t : KeyTable KeyError) (key : Row) :
    KeyTable KeyError → Except (TableError KeyError) PutStatus → Prop
  | present {index visited : Nat} : IsLeast? (k.HasKey t key) (some index) →
    Settles k t key (t.counted visited) (.ok (.present index))
  | exhausted {visited : Nat} : IsLeast? (k.HasKey t key) none →
    IndexLayout.maxIndex < t.freeIndex →
    Settles k t key (t.counted visited) (.error (.indexesExhausted (IndexLayout.maxIndex + 1)))
  | inserted {t' : KeyTable KeyError} {keys : Block} : IsLeast? (k.HasKey t key) none →
    List.Forall₂ (Column.RewrittenAt (t.layout.split t.freeIndex).offset) t.nextKeys.columns
      keys.columns →
    Settled t.nextKeys.columns key keys.columns (.ok ()) →
    t.Used keys (some (foldHash (k.digest key))) t' → t'.stored t.freeIndex = .ok key →
    Settles k t key t' (.ok (.inserted t.freeIndex))
  | refused {t' : KeyTable KeyError} {keys : Block} {refusal : ColumnError} :
    IsLeast? (k.HasKey t key) none →
    List.Forall₂ (Column.RewrittenAt (t.layout.split t.freeIndex).offset) t.nextKeys.columns
      keys.columns →
    Settled t.nextKeys.columns key keys.columns (.error refusal) → t.Used keys none t' →
    Settles k t key t' (.error (.insertFailed t.freeIndex (.column refusal)))

namespace Table

/-- A put of a row whose key can be read finds the key, or stores it as far as there is room. -/
theorem put_settles_of_keyAt (h : k.Table config t)
    (hbuild : check k.build types config.keyColumns = .ok ()) (htypes : input.types = types)
    (hkey : keyAt k.build input row = .ok key) : ∃ t' result,
      t.put input row = .ok (t', result) ∧ k.Table config t' ∧ k.Settles t key t' result := by
  obtain ⟨⟨t', result⟩, hput, ht', key', hkey', heffect⟩ :=
    (h.put input row).exists_eq_ok fun trap htrap ↦ nomatch hkey.symm.trans htrap
  obtain rfl := Except.ok.inj (hkey.symm.trans hkey')
  refine ⟨t', result, hput, ht', ?_⟩
  have hmatches (index : Nat) : t.Matches (foldHash (k.digest key)) (t.ops.agrees input row) index ↔
      k.HasKey t key index := by
    rw [h.ops_eq]
    exact h.matches_iff hkey
  cases heffect with
  | present hleast => exact .present (hleast.congr hmatches)
  | new hleast hattempt =>
    have hnone := hleast.congr hmatches
    cases hattempt with
    | exhausted hlt => exact .exhausted hnone hlt
    | spent _ hstore hused =>
      obtain ⟨copied, hresult, hsettled⟩ := h.store_settled hbuild htypes hkey hstore
      cases copied with
      | ok => cases hresult
      | error refusal =>
        obtain rfl := Except.error.inj hresult
        exact .refused hnone (h.rewritten hstore) hsettled hused.of_counted
    | stored _ hstored hused =>
      obtain ⟨copied, hresult, hsettled⟩ := h.store_settled hbuild htypes hkey hstored
      obtain rfl := eq_ok_of_mapError_eq_ok hresult.symm
      have hused := hused.of_counted
      have hnext := h.keyed.nextKeys
      rw [h.config_eq] at hnext
      have hstore : store k.build input row t.nextKeys (t.layout.split t.freeIndex).offset = _ :=
        h.ops_eq ▸ hstored
      refine .inserted hnone (h.rewritten hstored) hsettled hused ?_
      rw [hused.stored_freeIndex]
      exact row_of_store hstore hnext.aligned hkey
        ((length_key_of_check hbuild hkey).trans hnext.length_eq.symm)

/-- So does a put of a row of a well-formed block. -/
theorem put_settles (h : k.Table config t)
    (hbuild : check k.build types config.keyColumns = .ok ()) (hinput : input.WellFormed types)
    (hrow : row < input.length) : ∃ key t' result, keyAt k.build input row = .ok key ∧
      t.put input row = .ok (t', result) ∧ k.Table config t' ∧ k.Settles t key t' result := by
  obtain ⟨key, hkey, -⟩ := exists_keyAt hbuild hinput hrow
  obtain ⟨t', result, hsettles⟩ := h.put_settles_of_keyAt hbuild hinput.types_eq hkey
  exact ⟨key, t', result, hkey, hsettles⟩

/-! ### Histories -/

/-- What puts and clearing a table keep, and what does not depend on the keys written out so far,
holds after any calls. -/
theorem induct_run (P : KeyTable KeyError → Prop) {calls : List TableCall}
    (hwidth : k.build.length = config.keyTypes.length)
    (hput : ∀ {t t' input row result}, .put input row ∈ calls → k.Table config t → P t →
      t.put input row = .ok (t', result) → P t')
    (hwrote : ∀ {t} (cursor count : Nat), P t →
      P { t with outputCursor := cursor, outputCount := count })
    (hclear : ∀ {t}, k.Table config t → P t → P t.clear) (h : k.Table config t) (hP : P t)
    {answers : List (TableAnswer KeyError)} (hrun : t.run calls = .ok (t', answers)) : P t' := by
  induction calls generalizing t answers with
  | nil =>
    obtain ⟨rfl, -⟩ := Prod.mk.inj (Except.ok.inj hrun)
    exact hP
  | cons call calls ih =>
    obtain ⟨⟨u, answer⟩, hcall, hrun⟩ := exists_of_bind_eq_ok hrun
    obtain ⟨⟨v, answers'⟩, hrest, heq⟩ := exists_of_bind_eq_ok hrun
    obtain ⟨rfl, -⟩ := Prod.mk.inj (Except.ok.inj heq)
    refine ih (fun hmem ↦ hput (List.mem_cons_of_mem _ hmem)) (h.of_call hwidth hcall).1 ?_ hrest
    cases call with
    | put input row =>
      obtain ⟨⟨w, result⟩, hputs, heq⟩ := exists_of_bind_eq_ok hcall
      obtain ⟨rfl, -⟩ := Prod.mk.inj (Except.ok.inj heq)
      exact hput List.mem_cons_self h hP hputs
    | lookUp input row | probe input row =>
      obtain ⟨found, -, heq⟩ := exists_of_bind_eq_ok hcall
      obtain ⟨rfl, -⟩ := Prod.mk.inj (Except.ok.inj heq)
      exact hP
    | outputAll output =>
      rw [KeyTable.call, h.sound.outputAll_eq h.tracking.outputCursor_le] at hcall
      obtain ⟨_, hwrite, heq⟩ := exists_of_bind_eq_ok hcall
      obtain ⟨⟨count, output', result⟩, -, hwrite⟩ := exists_of_bind_eq_ok hwrite
      obtain rfl := Except.ok.inj hwrite
      obtain ⟨rfl, -⟩ := Prod.mk.inj (Except.ok.inj heq)
      exact hwrote _ _ hP
    | resetOutput =>
      obtain ⟨rfl, -⟩ := Prod.mk.inj (Except.ok.inj hcall)
      exact hwrote _ _ hP
    | clear =>
      obtain ⟨rfl, -⟩ := Prod.mk.inj (Except.ok.inj hcall)
      exact hclear h hP

/-- Puts keep the budgets. -/
theorem budgeted_put (h : k.Table config t) (hbudgets : t.Budgeted)
    {result : Except (TableError KeyError) PutStatus} (hput : t.put input row = .ok (t', result)) :
    t'.Budgeted := by
  have hstored {keys : Block} {hash : Option UInt32} {stored : Except KeyError Unit}
      (hstore : t.ops.store input row t.nextKeys (t.layout.split t.freeIndex).offset =
        .ok (keys, stored)) (hused : t.Used keys hash t') : t'.Budgeted := by
    rw [h.ops_eq] at hstore
    obtain ⟨_, hcopied, -⟩ := copied_of_store hstore
    exact hbudgets.used hused hcopied.byteLimits_eq
  obtain ⟨-, key, -, heffect⟩ := (h.put input row).of_eq_ok hput
  cases heffect with
  | present => exact hbudgets
  | new _ hattempt =>
    cases hattempt with
    | exhausted => exact hbudgets
    | spent _ hstore hused => exact hstored hstore hused.of_counted
    | stored _ hstore hused => exact hstored hstore hused.of_counted

/-- After any calls the columns have the budgets that are set for them. -/
theorem budgeted_run (h : k.Table config t) (hwidth : k.build.length = config.keyTypes.length)
    (hbudgets : t.Budgeted) {calls : List TableCall} {answers : List (TableAnswer KeyError)}
    (hrun : t.run calls = .ok (t', answers)) : t'.Budgeted :=
  induct_run KeyTable.Budgeted hwidth (fun _ ht hbudgets hput ↦ ht.budgeted_put hbudgets hput)
    (fun _ _ hbudgets ↦ hbudgets) (fun _ _ ↦ KeyTable.budgeted_fresh _ _ _) h hbudgets hrun

/-- The text columns beside the next slot are those of the type for texts. -/
theorem keyType_nextKeys (h : k.Table config t) {column : Nat} {d : TextColumn}
    (hd : t.nextKeys.columns[column]? = some (.text d)) :
    config.keyTypes[column]? = some .varchar := by
  have hnext := h.keyed.nextKeys
  rw [h.config_eq] at hnext
  obtain ⟨hlt, hget⟩ := List.getElem?_eq_some_iff.1 hd
  have hlt' : column < config.keyTypes.length := hnext.length_eq ▸ hlt
  have htype : t.nextKeys.columns[column].dataType = config.keyTypes[column] :=
    (hnext.get hlt hlt').1
  rw [List.getElem?_eq_getElem hlt', ← htype, hget]
  rfl

/-- What a text column beside the next slot holds and may hold. -/
theorem bytes_nextKeys (h : k.Table config t) (hbudgets : t.Budgeted) {column : Nat}
    {d : TextColumn} (hd : t.nextKeys.columns[column]? = some (.text d)) :
    t.heldBytes column = d.usedBytes ∧ d.budget = config.textBudget := by
  have hlimits := hbudgets.nextKeys
  rw [h.config_eq] at hlimits
  refine ⟨KeyTable.heldBytes_eq hd, ?_⟩
  have hlimit := congrArg (·[column]?) hlimits
  simp only [List.getElem?_map, hd, h.keyType_nextKeys hd, Option.map_some] at hlimit
  rw [TextColumn.budget, show d.byteLimit = _ from Option.some.inj hlimit]
  rfl

end Table

/-! ### Names -/

/-- Two columns of texts, with the rows of `names`. -/
def firstNames : TextColumn := ((TextColumn.nulls 2).put 0 (some "ab")).put 1 (some "abc")

/-- The second column of the rows of `names`. -/
def lastNames : TextColumn := ((TextColumn.nulls 2).put 0 (some "c")).put 1 (some "defgh")

/-- Two rows of two texts. -/
def names : Block := ⟨[.text firstNames, .text lastNames], 2⟩

/-- A configuration for keys of two texts, with four bytes for each column of a segment. -/
def tight : TableConfig where
  initialCapacity := 1
  maxCapacity := 2
  segmentCapacity := 2
  textBytesPerSlot := 2
  keyColumns := [⟨"first", .varchar⟩, ⟨"last", .varchar⟩]

theorem fault?_tight : tight.fault? = none := rfl

/-- Keys of two texts, with hashes by the length of the first one. -/
def named : ColumnKeys := ⟨[0, 1], [0, 1], .equal, fun key ↦ (textBytes key.head?.join).toUInt64⟩

theorem wellFormed_names : names.WellFormed [.varchar, .varchar] where
  types_eq := rfl
  size_eq := by decide
  length_le := by decide
  aligned := by
    have hnulls := TextColumn.aligned_nulls 2
    intro c hc
    rcases List.mem_cons.1 hc with rfl | hc
    · exact (hnulls.put (by decide) rfl).put (by decide) rfl
    · obtain rfl := List.mem_singleton.1 hc
      exact (hnulls.put (by decide) rfl).put (by decide) rfl

end ColumnKeys

end Columnar
