import Columnar.Proofs.KeyTable.Portions

/-!
# Outputs with room for the texts of keys

How much of a table a new output takes. An output with the types of the keys and with rows for all
of them takes the keys one after the other, until the texts in one of its columns come to more
bytes than spans can address. So the rows that it has in the end are the longest run of first keys
whose texts fit, and it has all keys just if the texts of all of them do.

## What each statement rests on

* What an output needs is said by the bytes of the texts in each column (`Roomy`). Writing a value
  takes its bytes and leaves the rest, and this in both directions (`hasRoom_put_iff`): so a key is
  taken just if there is room for it, and what there is room for behind it is what there was room
  for before, with the key (`Emission.settled`).
* `Table.emitSlots_settled` adds this up over the keys. The only way to fail is a refusal for want
  of bytes, since the output has rows for all keys.
* `Table.outputAll_settled` is about an output without rows and without a byte limit, in which the
  room is `TextColumn.maxBytes` for every column of texts.

The bytes are counted in columns of texts alone (`Fits`): a value of another type takes none.
-/

namespace Columnar

/-- The bytes that a value takes in a column of texts. -/
def textBytes : Option Scalar → Nat
  | some (.text text) => text.utf8ByteSize
  | _ => 0

/-- The bytes that the values in a column take together. -/
def textBytesIn (rows : List Row) (column : Nat) : Nat :=
  rows.foldr (fun row bytes ↦ textBytes row[column]?.join + bytes) 0

namespace Column

variable {c : Column} {row : Nat} {value : Option Scalar} {bytes : Nat}

/-- A column of texts has so many bytes left. -/
def HasRoom (c : Column) (bytes : Nat) : Prop :=
  match c with
  | text d => d.usedBytes + bytes ≤ d.budget
  | _ => True

/-- A value that there is room for is taken. -/
theorem HasRoom.refusal?_eq_none (h : c.HasRoom (textBytes value + bytes)) (hsuits : c.Suits value)
    (hrow : row < c.size) : c.refusal? row value = none := by
  refine refusal?_eq_none_iff.2 ⟨hsuits, hrow, ?_⟩
  cases hsuits.typed with
  | boolean | int32 | int64 | double => rfl
  | text d v =>
    rw [overflow?_text]
    cases v with
    | none => rfl
    | some s =>
      have hroom : d.usedBytes + (s.utf8ByteSize + bytes) ≤ d.budget := h
      rw [TextColumn.overflow?, if_pos (by omega)]

/-- There is room for more behind a value just if there was room for both. -/
theorem hasRoom_put_iff (hsuits : c.Suits value) :
    (c.put row value).HasRoom bytes ↔ c.HasRoom (textBytes value + bytes) := by
  cases hsuits.typed with
  | boolean d v => exact put_boolean d row v ▸ Iff.rfl
  | int32 d v => exact put_int32 d row v ▸ Iff.rfl
  | int64 d v => exact put_int64 d row v ▸ Iff.rfl
  | double d v => exact put_double d row v ▸ Iff.rfl
  | text d v =>
    rw [put_text]
    cases v with
    | none =>
      show d.usedBytes + bytes ≤ d.budget ↔ d.usedBytes + (0 + bytes) ≤ d.budget
      rw [Nat.zero_add]
    | some s =>
      have hused : (d.put row (some s)).usedBytes = d.usedBytes + s.utf8ByteSize :=
        ByteArray.size_append
      show (d.put row (some s)).usedBytes + bytes ≤ d.budget ↔
        d.usedBytes + (s.utf8ByteSize + bytes) ≤ d.budget
      rw [hused, Nat.add_assoc]

/-- There is room for a value that is taken, unless there is none at all. -/
theorem hasRoom_of_refusal?_eq_none (h : c.HasRoom 0) (hnone : c.refusal? row value = none) :
    c.HasRoom (textBytes value) := by
  obtain ⟨hsuits, -, hroom⟩ := refusal?_eq_none_iff.1 hnone
  cases hsuits.typed with
  | boolean | int32 | int64 | double => trivial
  | text d v =>
    rw [overflow?_text] at hroom
    cases v with
    | none => exact h
    | some s =>
      rw [TextColumn.overflow?] at hroom
      by_contra hfull
      have hfull : ¬d.usedBytes + s.utf8ByteSize ≤ d.budget := hfull
      rw [if_neg hfull] at hroom
      cases hroom

/-- Without values a column has as much room as spans can address. -/
theorem hasRoom_nulls_iff {type : DataType} {n : Nat} :
    (nulls type n).HasRoom bytes ↔ (type = .varchar → bytes ≤ TextColumn.maxBytes) := by
  cases type with
  | varchar =>
    show 0 + bytes ≤ TextColumn.maxBytes ↔ _
    rw [Nat.zero_add]
    exact ⟨fun h _ ↦ h, fun h ↦ h rfl⟩
  | _ => exact ⟨nofun, fun _ ↦ trivial⟩

/-- Columns each of which has so many bytes left. -/
def Roomy (columns : List Column) (bytes : Nat → Nat) : Prop :=
  ∀ (i : Nat) (c : Column), columns[i]? = some c → c.HasRoom (bytes i)

end Column

/-- The texts in every column of texts come to no more bytes than spans can address. -/
def Fits (types : List DataType) (rows : List Row) : Prop :=
  ∀ column, types[column]? = some .varchar → textBytesIn rows column ≤ TextColumn.maxBytes

/-- Room in a new block is room in its columns of texts. -/
theorem roomy_ofTypes_iff {types : List DataType} {capacity : Nat} {rows : List Row} :
    Column.Roomy (Block.ofTypes types capacity).columns (textBytesIn rows) ↔ Fits types rows := by
  constructor
  · intro h column htype
    have hcolumn : (Block.ofTypes types capacity).columns[column]? =
        some (.nulls .varchar capacity) := by
      rw [Block.ofTypes, List.getElem?_map, htype, Option.map_some]
    exact Column.hasRoom_nulls_iff.1 (h column _ hcolumn) rfl
  · intro h i c hi
    rw [Block.ofTypes, List.getElem?_map] at hi
    obtain ⟨type, htype, rfl⟩ := Option.map_eq_some_iff.1 hi
    refine Column.hasRoom_nulls_iff.2 fun hvarchar ↦ h i ?_
    rw [htype, hvarchar]

open Column (Rectangle Roomy)

namespace ColumnKeys

variable {k : ColumnKeys} {config : TableConfig} {t : KeyTable KeyError} {keys output : Block}
  {row sourceRow slot size size' : Nat} {key : Row} {targets targets' : List Column}
  {sources : List (Checked Column)} {result : Except ColumnError Unit} {types : List DataType}
  {bytes : Nat → Nat}

/-- A row that there is room for is copied as a whole. -/
theorem Copied.of_room (h : Copied row sourceRow targets sources targets' result)
    (hreads : Reads sourceRow sources key)
    (hstorage : List.Forall₂ (fun target source ↦ ∀ c, source = .ok c → target.storage = c.storage)
      targets sources)
    (hrow : ∀ c ∈ targets, row < c.size)
    (hroom : Roomy targets fun i ↦ textBytes key[i]?.join + bytes i) :
    result = .ok () ∧ Roomy targets' bytes := by
  induction h generalizing key bytes with
  | done =>
    cases hstorage
    exact ⟨rfl, fun i c hi ↦ by simp at hi⟩
  | narrow => exact ⟨rfl, fun i c hi ↦ by simp at hi⟩
  | wrongSource hne =>
    cases hstorage with
    | cons heq => exact absurd (heq _ rfl) hne
  | @refused target source targets sources value refusal heq hget hrefusal =>
    cases hreads with
    | cons hsource hreads =>
      obtain ⟨c, hc, hvalue⟩ := hsource
      obtain rfl := Except.ok.inj hc
      obtain rfl := Except.ok.inj (hget.symm.trans hvalue)
      have hsuits : target.Suits value := fun v hv ↦
        (Column.suits_of_get_eq_ok hget v hv).trans heq.symm
      have htaken := (hroom 0 target rfl).refusal?_eq_none hsuits (hrow target List.mem_cons_self)
      cases htaken.symm.trans hrefusal
  | @copied target source targets targets' sources value result heq hget hrefusal _ ih =>
    cases hreads with
    | cons hsource hreads =>
      obtain ⟨c, hc, hvalue⟩ := hsource
      obtain rfl := Except.ok.inj hc
      obtain rfl := Except.ok.inj (hget.symm.trans hvalue)
      have hsuits : target.Suits value := fun v hv ↦
        (Column.suits_of_get_eq_ok hget v hv).trans heq.symm
      cases hstorage with
      | cons _ hstorage =>
        obtain ⟨hok, hrest⟩ := ih hreads hstorage (fun c hc ↦ hrow c (List.mem_cons_of_mem _ hc))
          fun i c hi ↦ hroom (i + 1) c hi
        refine ⟨hok, fun i c hi ↦ ?_⟩
        cases i with
        | zero =>
          obtain rfl := Option.some.inj hi
          exact (Column.hasRoom_put_iff hsuits).2 (hroom 0 target rfl)
        | succ i => exact hrest i c hi

/-- There was room for a row that was copied as a whole, and for what there is room for behind it.
-/
theorem Copied.roomy (h : Copied row sourceRow targets sources targets' result)
    (hok : result = .ok ()) (hreads : Reads sourceRow sources key)
    (hstorage : List.Forall₂ (fun target source ↦ ∀ c, source = .ok c → target.storage = c.storage)
      targets sources)
    (hroom : Roomy targets fun _ ↦ 0) :
    (Roomy targets fun i ↦ textBytes key[i]?.join) ∧
      ∀ bytes, Roomy targets' bytes → Roomy targets fun i ↦ textBytes key[i]?.join + bytes i := by
  induction h generalizing key with
  | done | narrow =>
    cases hstorage
    exact ⟨fun i c hi ↦ by simp at hi, fun _ _ i c hi ↦ by simp at hi⟩
  | wrongSource | refused => cases hok
  | @copied target source targets targets' sources value result heq hget hrefusal _ ih =>
    rcases hreads with _ | ⟨⟨c, hc, hvalue⟩, hreads⟩
    obtain rfl := Except.ok.inj hc
    obtain rfl := Except.ok.inj (hget.symm.trans hvalue)
    rcases hstorage with _ | ⟨_, hstorage⟩
    obtain ⟨hsuits, -, -⟩ := Column.refusal?_eq_none_iff.1 hrefusal
    have hhere := Column.hasRoom_of_refusal?_eq_none (hroom 0 target rfl) hrefusal
    obtain ⟨hfirst, hbehind⟩ := ih hok hreads hstorage fun i c hi ↦ hroom (i + 1) c hi
    constructor
    · rintro (_ | i) c hi
      · obtain rfl := Option.some.inj hi
        exact hhere
      · exact hfirst i c hi
    · rintro bytes hleft (_ | i) c hi
      · obtain rfl := Option.some.inj hi
        exact (Column.hasRoom_put_iff hsuits).1 (hleft 0 _ rfl)
      · exact hbehind (fun i ↦ bytes (i + 1)) (fun j d hj ↦ hleft (j + 1) d hj) i c hi

/-- The capacity of a block with columns is their size. -/
theorem capacity_of_rectangle {b : Block} (h : Rectangle types size b.columns)
    (htypes : types ≠ []) : b.capacity = size := by
  rw [Block.capacity]
  generalize b.columns = columns at h
  cases h with
  | nil => exact absurd rfl htypes
  | cons hc _ => exact hc.2.2

/-- Columns that are stored alike, one of which is the source of the other. -/
theorem sources_of_storage {columns : List Column}
    (h : List.Forall₂ (fun target source ↦ target.storage = source.storage) targets columns) :
    List.Forall₂ (fun target source ↦ ∀ c, source = .ok c → target.storage = c.storage)
      targets (columns.map (.ok : Column → Checked Column)) :=
  List.forall₂_map_right_iff.2 (h.imp fun _ _ heq _ hc ↦ Except.ok.inj hc ▸ heq)

/-- The columns of keys are stored as those of an output with the same types. -/
theorem storage_of_rectangle (hkeys : Rectangle types size' keys.columns)
    (houtput : Rectangle types size output.columns) :
    List.Forall₂ (fun target source ↦ ∀ c, source = .ok c → target.storage = c.storage)
      output.columns (keys.columns.map (.ok : Column → Checked Column)) :=
  sources_of_storage (houtput.forall₂_storage hkeys)

/-- Writing a key into a row that exists: it is written if there is room for it, and what there is
room for behind it is what there was room for with it; or it is refused, since there is none. -/
theorem Emission.settled {outcome : Block × Except KeyError Bool}
    (h : Emission keys slot output outcome) (hkeys : Rectangle types size' keys.columns)
    (houtput : Rectangle types size output.columns) (htypes : types ≠ [])
    (hkey : keys.row slot = .ok key) (hlength : output.length < size)
    (hroom : Roomy output.columns fun _ ↦ 0) :
    (∃ columns, outcome = (⟨columns, output.length + 1⟩, .ok true) ∧
      Rectangle types size columns ∧ (Roomy columns fun _ ↦ 0) ∧
      ∀ bytes, Roomy columns bytes ↔
        Roomy output.columns fun i ↦ textBytes key[i]?.join + bytes i) ∨
    (∃ output' refusal, outcome = (output', .error (.column refusal))) ∧
      ¬Roomy output.columns fun i ↦ textBytes key[i]?.join := by
  have hreads := reads_of_mapM_get hkey
  have hstorage := storage_of_rectangle hkeys houtput
  have hrow (c : Column) (hc : c ∈ output.columns) : output.length < c.size :=
    houtput.size_eq c hc ▸ hlength
  cases h with
  | narrow hnarrow =>
    have hwidth : output.width = keys.width := houtput.length_eq.trans hkeys.length_eq.symm
    exact absurd hnarrow (hwidth ▸ Nat.lt_irrefl _)
  | full hfull =>
    rw [capacity_of_rectangle houtput htypes] at hfull
    exact absurd hfull (Nat.not_le_of_lt hlength)
  | refused hrefused =>
    refine .inr ⟨⟨_, _, rfl⟩, fun hfits ↦ ?_⟩
    have hfits : Roomy output.columns fun i ↦ textBytes key[i]?.join + 0 := hfits
    cases (hrefused.of_room hreads hstorage hrow hfits).1
  | @written columns _ _ hwritten =>
    have hiff (bytes : Nat → Nat) : Roomy columns bytes ↔
        Roomy output.columns fun i ↦ textBytes key[i]?.join + bytes i :=
      ⟨(hwritten.roomy rfl hreads hstorage hroom).2 bytes,
        fun hfits ↦ (hwritten.of_room hreads hstorage hrow hfits).2⟩
    have hfits : Roomy output.columns fun i ↦ textBytes key[i]?.join + 0 :=
      (hwritten.roomy rfl hreads hstorage hroom).1
    exact .inl ⟨columns, rfl, houtput.rewritten (hwritten.rewritten houtput.aligned),
      (hiff _).2 hfits, hiff⟩

namespace Table

/-- Keys are written one after the other as long as there is room for their texts. -/
theorem emitSlots_settled (h : k.Table config t) {slots : List Nat} {stored : List Row}
    (hstored : slots.mapM t.stored = .ok stored)
    (houtput : Rectangle config.keyTypes size output.columns)
    (hlength : output.length + stored.length ≤ size) (hroom : Roomy output.columns fun _ ↦ 0) :
    ∃ count output' result,
      t.emitSlots slots output output.length = .ok (count, output', result) ∧
        Roomy output.columns (textBytesIn (stored.take count)) ∧
        (result = .ok true ∧ count = stored.length ∨
          (∃ index refusal, result = .error (.outputFailed index (.column refusal))) ∧
            count < stored.length ∧
            ¬Roomy output.columns (textBytesIn (stored.take (count + 1)))) := by
  have htypes := h.keyTypes_ne_nil
  rw [Checked.mapM_eq_ok_iff] at hstored
  induction hstored generalizing output with
  | nil => exact ⟨0, output, .ok true, rfl, hroom, .inl ⟨rfl, rfl⟩⟩
  | @cons index key slots keys hkey _ ih =>
    rw [List.length_cons] at hlength
    obtain ⟨block, outcome, hblock, hrow, houtcome, hemission⟩ := h.emitAt hkey houtput.aligned
    have hrectangle := h.keyed.rectangle hblock
    rw [h.config_eq] at hrectangle
    rcases hemission.settled hrectangle houtput htypes hrow (by omega) hroom with
      ⟨columns, rfl, houtput', hroom', hiff⟩ | ⟨⟨output', refusal, rfl⟩, hfull⟩
    · have hwritten : Rectangle config.keyTypes size
          { columns := columns, length := output.length + 1 : Block }.columns := houtput'
      have hlength' : output.length + 1 + keys.length ≤ size := by omega
      obtain ⟨count, output', result, hrest, hfits, hends⟩ := ih hwritten hlength' hroom'
      refine ⟨count + 1, output', result, ?_, (hiff _).1 hfits, ?_⟩
      · rw [KeyTable.emitSlots, houtcome, Checked.ok_bind]
        simp only [hrest]
        rfl
      · rcases hends with ⟨hresult, hcount⟩ | ⟨hresult, hcount, hfull⟩
        · exact .inl ⟨hresult, congrArg (· + 1) hcount⟩
        · exact .inr ⟨hresult, Nat.succ_lt_succ hcount, fun hroom ↦ hfull ((hiff _).2 hroom)⟩
    · refine ⟨0, output', .error (.outputFailed index (.column refusal)), ?_, hroom,
        .inr ⟨⟨index, refusal, rfl⟩, Nat.succ_pos _, hfull⟩⟩
      rw [KeyTable.emitSlots, houtcome, Checked.ok_bind]
      rfl

/-- A new output is given rows that read as the first of the keys. -/
theorem outputAll_ofTypes (h : k.Table config t) {stored : List Row}
    (hstored : t.slots.mapM t.stored = .ok stored) (hcount : t.outputCount = 0) (capacity : Nat) :
    ∃ count output result,
      t.outputAll (.ofTypes config.keyTypes capacity) = .ok (t.wrote count, output, result) ∧
        output.rows = .ok (stored.take count) ∧ output.length = (stored.take count).length := by
  have hwritten : t.writtenKeys = .ok [] := by
    rw [KeyTable.writtenKeys, hcount]
    rfl
  obtain ⟨count, output, result, keys, houtput, -, happended, hkeys, -⟩ :=
    h.outputAll hwritten (Block.aligned_ofTypes config.keyTypes capacity)
  have htake : stored.take count = keys := by
    have hfirst : (t.slots.take (t.outputCount + count)).mapM t.stored = .ok keys := hkeys
    rw [hcount, Nat.zero_add] at hfirst
    have hsecond := Checked.mapM_eq_ok_iff.2
      (List.forall₂_take count (Checked.mapM_eq_ok_iff.1 hstored))
    exact Except.ok.inj (hsecond.symm.trans hfirst)
  refine ⟨count, output, result, houtput, ?_, ?_⟩
  · -- no column is behind those for the keys
    have hwidth : output.columns.length = config.keyTypes.length :=
      happended.width_eq.trans (List.length_map _)
    have hleading : output.leading config.keyTypes.length = output.row := by
      funext index
      rw [Block.leading, ← hwidth, List.take_length, Block.row]
    have hall := happended.leadingFrom_eq
    rw [Block.leadingFrom, hleading] at hall
    rw [htake, Block.rows, List.range_eq_range']
    exact hall
  · rw [htake]
    exact happended.length_eq.trans (Nat.zero_add _)

/-- A table whose keys were not written out yet is written to a new output with rows for all of them
up to the first key whose texts do not fit behind those of the others, and so as a whole if there is
none. -/
theorem outputAll_settled (h : k.Table config t) {stored : List Row}
    (hstored : t.slots.mapM t.stored = .ok stored) (hcount : t.outputCount = 0) {capacity : Nat}
    (hcapacity : t.size ≤ capacity) : ∃ t' output result,
      t.outputAll (.ofTypes config.keyTypes capacity) = .ok (t', output, result) ∧
        output.rows = .ok (stored.take output.length) ∧
        Fits config.keyTypes (stored.take output.length) ∧
        (result = .ok true ∧ output.length = stored.length ∨
          (∃ index refusal, result = .error (.outputFailed index (.column refusal))) ∧
            output.length < stored.length ∧
            ¬Fits config.keyTypes (stored.take (output.length + 1))) := by
  obtain ⟨count, output, result, houtput, hrows, hlength⟩ :=
    h.outputAll_ofTypes hstored hcount capacity
  -- how many rows there are says the room in the output
  have hall : stored.length = t.size :=
    (Checked.length_of_mapM_eq_ok hstored).trans h.sound.length_slots
  have hnulls : Rectangle config.keyTypes capacity
      (Block.ofTypes config.keyTypes capacity).columns :=
    List.forall₂_map_left_iff.2 (List.forall₂_same.2 fun type _ ↦
      ⟨Column.dataType_nulls _ _, Column.aligned_nulls _ _, Column.size_nulls _ _⟩)
  have hnone : Fits config.keyTypes [] := fun _ _ ↦ Nat.zero_le _
  have hroom : Roomy (Block.ofTypes config.keyTypes capacity).columns fun _ ↦ 0 :=
    roomy_ofTypes_iff.2 hnone
  obtain ⟨count', output', result', hemit, hfits, hends⟩ := h.emitSlots_settled hstored hnulls (by
    rw [hall]
    exact (Nat.zero_add _).symm ▸ hcapacity) hroom
  have hremaining : t.remaining = t.slots := by
    rw [h.tracking.remaining_eq, hcount, List.drop_zero]
  -- both are about one call
  have hsame := houtput
  rw [h.sound.outputAll_eq h.tracking.outputCursor_le, hremaining, hemit, Checked.ok_bind] at hsame
  obtain ⟨hwrote, hrest⟩ := Prod.mk.inj (Except.ok.inj hsame)
  obtain ⟨rfl, rfl⟩ := Prod.mk.inj hrest
  obtain rfl : count' = count := Nat.add_left_cancel (congrArg KeyTable.outputCount hwrote)
  have hle : count' ≤ stored.length := by
    rcases hends with ⟨-, heq⟩ | ⟨-, hlt, -⟩
    · exact Nat.le_of_eq heq
    · exact Nat.le_of_lt hlt
  obtain rfl : output'.length = count' := by
    rw [hlength, List.length_take_of_le hle]
  refine ⟨t.wrote output'.length, output', result', houtput, hrows, roomy_ofTypes_iff.1 hfits, ?_⟩
  rcases hends with hdone | ⟨hresult, hlt, hfull⟩
  · exact .inl hdone
  · exact .inr ⟨hresult, hlt, fun hfits ↦ hfull (roomy_ofTypes_iff.2 hfits)⟩

end Table

end ColumnKeys

end Columnar
