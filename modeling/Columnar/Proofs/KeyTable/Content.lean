import Columnar.Proofs.KeyTable.Keys
import Columnar.Proofs.KeyTable.Output

/-!
# The keys in a table

What the slots of a table hold whose keys are read from columns. All segments have columns of the
key types and of the size of a segment (`Keyed`), so the key in a slot can be read (`stored`).
Together with soundness and the configuration this is `Table`, the invariant that laws about keys
start from.

## Keys stay

A key stays in its slot, whatever is stored beside it (`Used.stored_eq`). The columns of a segment
are written for every key, but in one row only; that a refused key may have written some of its row
does no harm, because the row is that of a slot without a key.

## A slot has a key, or holds one

`HasKey` is about comparing and `stored` about reading: a slot has a key if the key stored there
agrees with it under its hash. The two come to the same unless the key never matches (`hasKey_iff`).
Lookups are described by the first (`Table.index?`), for both layouts, and what is written out by
the second (`Table.emitAt`).

## Traps

Putting and looking up keys is abandoned **only at rows that can not be read**: a hash is computed
of values, a slot that is tested can be read, and so can the columns that a key is stored in. The
lemmas with `exists` in their names assume a row that can be read, and leave no trap.
-/

namespace Columnar.KeyTable

variable {ε : Type} {t t' : KeyTable ε}

/-- The segments have columns of the key types, all of the size of a segment. -/
def Keyed (t : KeyTable ε) : Prop :=
  ∀ keys ∈ t.keys, Column.Rectangle t.config.keyTypes t.config.segmentCapacity keys.columns

/-- Read the key in a slot. -/
def stored (t : KeyTable ε) (index : Nat) : Checked Row := do
  (← t.keysAt index).row (t.layout.split index).offset

/-! ### Segments -/

theorem rectangle_ofTypes (types : List DataType) (capacity bytes : Nat) :
    Column.Rectangle types capacity (Segment.ofTypes types capacity bytes).keys.columns := by
  simp only [Segment.ofTypes, Block.ofTypes, List.map_map]
  refine List.forall₂_map_left_iff.2 (List.forall₂_same.2 fun type _ ↦ ⟨?_, ?_, ?_⟩)
  · exact (congrArg Storage.dataType (Column.storage_setByteLimit _ _)).trans
      (Column.dataType_nulls _ _)
  · exact (Column.aligned_nulls _ _).setByteLimit _
  · exact (Column.size_setByteLimit _ _).trans (Column.size_nulls _ _)

theorem rectangle_newSegment (config : TableConfig) :
    Column.Rectangle config.keyTypes config.segmentCapacity (newSegment config).keys.columns :=
  rectangle_ofTypes config.keyTypes config.segmentCapacity config.textBytesPerSlot

theorem keyed_fresh (config : TableConfig) (ops : KeyOps ε) (metrics : TableMetrics) :
    (fresh config ops metrics).Keyed := fun keys hkeys ↦ by
  obtain rfl : keys = (newSegment config).keys := by simpa [keys_fresh] using hkeys
  exact rectangle_newSegment config

theorem Keyed.nextKeys (h : t.Keyed) :
    Column.Rectangle t.config.keyTypes t.config.segmentCapacity t.nextKeys.columns := by
  rw [nextKeys_eq]
  cases hkeys : t.keys[(t.layout.split t.freeIndex).segment]? with
  | none => exact rectangle_newSegment t.config
  | some keys => exact h keys (Array.mem_of_getElem? hkeys)

theorem Keyed.extended (h : t.Keyed) : t.extended.Keyed := fun keys hkeys ↦ by
  rw [keys_extended_eq] at hkeys
  split_ifs at hkeys
  · rcases Array.mem_push.1 hkeys with hkeys | rfl
    · exact h keys hkeys
    · exact rectangle_newSegment t.config
  · exact h keys hkeys

theorem Segmented.offset_lt (h : t.Segmented) (index : Nat) :
    (t.layout.split index).offset < t.config.segmentCapacity := by
  rw [h.split_eq]
  exact Nat.mod_lt _ h.sane.segmentCapacity_pos

theorem Keyed.rectangle (h : t.Keyed) {index : Nat} {keys : Block}
    (hkeys : t.keysAt index = .ok keys) :
    Column.Rectangle t.config.keyTypes t.config.segmentCapacity keys.columns := by
  rw [keysAt, Checked.entry] at hkeys
  cases hentry : t.keys[(t.layout.split index).segment]? with
  | none => simp [hentry] at hkeys
  | some keys' =>
    rw [hentry] at hkeys
    obtain rfl := Except.ok.inj hkeys
    exact h keys' (Array.mem_of_getElem? hentry)

/-- The key in a slot can be read. -/
theorem Keyed.exists_stored (h : t.Keyed) (ht : t.Segmented) {index : Nat}
    (hindex : t.hash? index ≠ none) :
    ∃ key, t.stored index = .ok key ∧ key.length = t.config.keyTypes.length := by
  obtain ⟨keys, hkeys⟩ := exists_keysAt hindex
  obtain ⟨key, hkey, hlength⟩ := (h.rectangle hkeys).exists_row (ht.offset_lt index)
  exact ⟨key, by rw [stored, hkeys, Checked.ok_bind]; exact hkey, hlength⟩

/-! ### A slot that is used up -/

namespace Used

variable {keys : Block} {hash : Option UInt32} {index : Nat}

/-- Storing a key keeps the columns of the segments as they should be. -/
theorem keyed (hused : t.Used keys hash t') (h : t.Keyed)
    (hrewritten : List.Forall₂ (Column.RewrittenAt (t.layout.split t.freeIndex).offset)
      t.nextKeys.columns keys.columns) : t'.Keyed := by
  intro keys' hkeys'
  rw [hused.config_eq]
  rw [hused.keys_eq] at hkeys'
  obtain ⟨k, hk⟩ := Array.mem_iff_getElem?.1 hkeys'
  rw [Array.getElem?_modify] at hk
  split_ifs at hk
  · obtain ⟨-, -, rfl⟩ := Option.map_eq_some_iff.1 hk
    exact h.nextKeys.rewritten hrewritten
  · exact h.extended keys' (Array.mem_of_getElem? hk)

/-- The columns of a slot read as before, whatever is stored beside it. -/
theorem forall₂_get (hused : t.Used keys hash t') (ht : t.Sound)
    (hrewritten : List.Forall₂ (Column.RewrittenAt (t.layout.split t.freeIndex).offset)
      t.nextKeys.columns keys.columns) (hindex : t.hash? index ≠ none) :
    ∃ before after, t.keysAt index = .ok before ∧ t'.keysAt index = .ok after ∧
      List.Forall₂ (fun c c' ↦ c'.get (t.layout.split index).offset =
        c.get (t.layout.split index).offset) before.columns after.columns := by
  by_cases hsegment : (t.layout.split index).segment = (t.layout.split t.freeIndex).segment
  · -- beside the slot that is used up, it is another row
    have hne : (t.layout.split index).offset ≠ (t.layout.split t.freeIndex).offset := by
      intro hoffset
      have hsplit : t.layout.split index = t.layout.split t.freeIndex := by
        cases h : t.layout.split index
        cases h' : t.layout.split t.freeIndex
        simp_all
      exact hindex (ht.toSegmented.split_inj hsplit ▸ ht.hash?_beyond _ (Nat.le_refl _))
    exact ⟨t.nextKeys, keys, keysAt_eq_nextKeys hsegment hindex,
      hused.keysAt_of_segment_eq hsegment, hrewritten.imp fun _ _ hc ↦ hc.get_eq _ hne⟩
  · obtain ⟨before, hbefore⟩ := exists_keysAt hindex
    exact ⟨before, before, hbefore, (hused.keysAt_of_segment_ne hsegment hindex).trans hbefore,
      List.forall₂_same.2 fun _ _ ↦ rfl⟩

/-- A key stays in its slot. -/
theorem stored_eq (hused : t.Used keys hash t') (ht : t.Sound)
    (hrewritten : List.Forall₂ (Column.RewrittenAt (t.layout.split t.freeIndex).offset)
      t.nextKeys.columns keys.columns) (hindex : t.hash? index ≠ none) :
    t'.stored index = t.stored index := by
  obtain ⟨before, after, hbefore, hafter, hget⟩ := hused.forall₂_get ht hrewritten hindex
  rw [stored, stored, hused.layout_eq, hbefore, hafter]
  exact Column.mapM_get_congr hget

/-- The slot that is used up holds what was written. -/
theorem stored_freeIndex (hused : t.Used keys hash t') :
    t'.stored t.freeIndex = keys.row (t.layout.split t.freeIndex).offset := by
  rw [stored, hused.layout_eq, hused.keysAt_of_segment_eq rfl, Checked.ok_bind]

end Used

end Columnar.KeyTable

namespace Columnar.ColumnKeys

variable {k : ColumnKeys} {config : TableConfig} {t t' : KeyTable KeyError} {input : Block}
  {row : Nat} {key : Row}

/-- A sound table with a configuration whose keys are read from columns and kept in columns. -/
structure Table (k : ColumnKeys) (config : TableConfig) (t : KeyTable KeyError) : Prop where
  sound : t.Sound
  tracking : t.Tracking
  keyed : t.Keyed
  config_eq : t.config = config
  ops_eq : t.ops = k.ops

theorem table_fresh (h : config.Sane) (k : ColumnKeys) (metrics : TableMetrics) :
    k.Table config (.fresh config k.ops metrics) :=
  ⟨KeyTable.sound_fresh h k.ops metrics, .fresh config k.ops metrics,
    KeyTable.keyed_fresh config k.ops metrics, rfl, rfl⟩

theorem keyAt_of_hashAt_eq_error {indexes : List Nat} {trap : Trap}
    (h : k.hashAt indexes input row = .error trap) : keyAt indexes input row = .error trap := by
  rcases eq_error_of_bind_eq_error h with h | ⟨_, -, h⟩
  · exact h
  · cases h

/-- A slot holds a key that agrees with this one, under its hash. -/
def HasKey (k : ColumnKeys) (t : KeyTable KeyError) (key : Row) (index : Nat) : Prop :=
  t.hash? index = some (foldHash (k.digest key)) ∧
    ∃ stored, t.stored index = .ok stored ∧ keysAgree k.nulls key stored = true

namespace Table

theorem keyTypes_ne_nil (h : k.Table config t) : config.keyTypes ≠ [] := by
  have hcolumns := h.sound.sane.keyColumns
  rw [h.config_eq] at hcolumns
  exact fun hnil ↦ hcolumns (List.map_eq_nil_iff.1 hnil)

theorem exists_stored (h : k.Table config t) {index : Nat} (hindex : t.hash? index ≠ none) :
    ∃ key, t.stored index = .ok key ∧ key.length = config.keyTypes.length :=
  h.config_eq ▸ h.keyed.exists_stored h.sound.toSegmented hindex

/-- A slot has a key just if it holds it under its hash, unless the key never matches. -/
theorem hasKey_iff (h : k.Table config t) (hlength : key.length = config.keyTypes.length)
    {index : Nat} : k.HasKey t key index ↔ t.hash? index = some (foldHash (k.digest key)) ∧
      t.stored index = .ok key ∧ (k.nulls = .equal ∨ none ∉ key) := by
  refine and_congr_right fun hhash ↦ ?_
  obtain ⟨stored, hstored, hwidth⟩ := h.exists_stored (hhash ▸ Option.some_ne_none _)
  have hagree : keysAgree k.nulls key stored = true ↔ key = stored ∧ _ :=
    keysAgree_eq_true_iff (hlength.trans hwidth.symm)
  constructor
  · rintro ⟨stored', hstored', hkey⟩
    obtain rfl := Except.ok.inj (hstored.symm.trans hstored')
    obtain ⟨rfl, hmatches⟩ := hagree.1 hkey
    exact ⟨hstored, hmatches⟩
  · rintro ⟨hkey, hmatches⟩
    obtain rfl := Except.ok.inj (hstored.symm.trans hkey)
    exact ⟨stored, hkey, hagree.2 ⟨rfl, hmatches⟩⟩

/-- Testing the key in a slot compares it. -/
theorem test_eq (h : k.Table config t) {indexes : List Nat}
    (hkey : keyAt indexes input row = .ok key) {index : Nat} {segment : Segment}
    (hindex : t.hash? index ≠ none) (hsegment : t.segmentOf index = .ok segment) :
    ∃ stored, t.stored index = .ok stored ∧
      agreeAt k.nulls input row (t.layout.split index).offset indexes segment.keys.columns =
        .ok (keysAgree k.nulls key stored) := by
  obtain ⟨stored, hstored, -⟩ := h.exists_stored hindex
  refine ⟨stored, hstored, agreeAt_eq k.nulls hkey ?_⟩
  rwa [KeyTable.stored, KeyTable.keysAt_eq_ok_iff.2 ⟨segment, hsegment, rfl⟩] at hstored

theorem matches_iff (h : k.Table config t) {indexes : List Nat}
    (hkey : keyAt indexes input row = .ok key) {index : Nat} :
    t.Matches (foldHash (k.digest key))
      (fun keys slot ↦ agreeAt k.nulls input row slot indexes keys.columns) index ↔
        k.HasKey t key index := by
  rw [KeyTable.Matches, KeyTable.holds_iff]
  refine and_congr_right fun hhash ↦ ?_
  have hindex : t.hash? index ≠ none := hhash ▸ Option.some_ne_none _
  constructor
  · rintro ⟨segment, hsegment, htest⟩
    obtain ⟨stored, hstored, heq⟩ := h.test_eq hkey hindex hsegment
    exact ⟨stored, hstored, Except.ok.inj (heq.symm.trans htest)⟩
  · rintro ⟨stored, hstored, hagree⟩
    obtain ⟨_, hholds⟩ := KeyTable.hash?_ne_none_iff.1 hindex
    obtain ⟨segment, hsegment, -⟩ := hholds.exists_segment
    obtain ⟨stored', hstored', heq⟩ := h.test_eq hkey hindex hsegment
    obtain rfl := Except.ok.inj (hstored.symm.trans hstored')
    exact ⟨segment, hsegment, hagree ▸ heq⟩

/-- Looking a key up is abandoned only if it can not be read. -/
theorem keyAt_of_lookUpRaises (h : k.Table config t) {indexes : List Nat} {trap : Trap}
    (hraises : t.LookUpRaises (k.hashAt indexes input row)
      (fun keys slot ↦ agreeAt k.nulls input row slot indexes keys.columns) trap) :
    keyAt indexes input row = .error trap := by
  rcases hraises with hhash | ⟨hash, hhash, index, segment, hholds, hsegment, htest⟩
  · exact keyAt_of_hashAt_eq_error hhash
  · obtain ⟨key, hkey, -⟩ := exists_of_bind_eq_ok hhash
    have hindex : t.hash? index ≠ none := KeyTable.hash?_ne_none_iff.2 ⟨hash, hholds⟩
    obtain ⟨stored, -, heq⟩ := h.test_eq hkey hindex hsegment
    cases heq.symm.trans htest

/-- Looking up the key in a row finds the first slot that has it. -/
theorem index? (h : k.Table config t) (input : Block) (row : Nat) :
    (t.index? input row).Sat (fun trap ↦ keyAt k.build input row = .error trap) fun found ↦
      ∃ key, keyAt k.build input row = .ok key ∧ IsLeast? (k.HasKey t key) found := by
  have hsat := h.sound.index? input row
  rw [h.ops_eq] at hsat
  refine hsat.mono (fun trap htrap ↦ h.keyAt_of_lookUpRaises htrap) ?_
  rintro found ⟨hash, hhash, hfound⟩
  obtain ⟨key, hkey, heq⟩ := exists_of_bind_eq_ok hhash
  obtain rfl := Except.ok.inj heq
  exact ⟨key, hkey, hfound.congr fun index ↦ h.matches_iff hkey⟩

/-- Looking up the key in a row of the second layout finds the first slot that has it. -/
theorem probeIndex? (h : k.Table config t) (probe : Block) (row : Nat) :
    (t.probeIndex? probe row).Sat (fun trap ↦ keyAt k.probe probe row = .error trap) fun found ↦
      ∃ key, keyAt k.probe probe row = .ok key ∧ IsLeast? (k.HasKey t key) found := by
  have hsat := h.sound.probeIndex? probe row
  rw [h.ops_eq] at hsat
  refine hsat.mono (fun trap htrap ↦ h.keyAt_of_lookUpRaises htrap) ?_
  rintro found ⟨hash, hhash, hfound⟩
  obtain ⟨key, hkey, heq⟩ := exists_of_bind_eq_ok hhash
  obtain rfl := Except.ok.inj heq
  exact ⟨key, hkey, hfound.congr fun index ↦ h.matches_iff hkey⟩

/-- A row whose key can be read finds the first slot that has it. -/
theorem exists_index? (h : k.Table config t) (hkey : keyAt k.build input row = .ok key) :
    ∃ found, t.index? input row = .ok found ∧ IsLeast? (k.HasKey t key) found := by
  obtain ⟨found, hfound, key', hkey', hleast⟩ :=
    (h.index? input row).exists_eq_ok fun trap htrap ↦ nomatch hkey.symm.trans htrap
  obtain rfl := Except.ok.inj (hkey.symm.trans hkey')
  exact ⟨found, hfound, hleast⟩

/-- A row of the second layout whose key can be read finds the first slot that has it. -/
theorem exists_probeIndex? (h : k.Table config t) (hkey : keyAt k.probe input row = .ok key) :
    ∃ found, t.probeIndex? input row = .ok found ∧ IsLeast? (k.HasKey t key) found := by
  obtain ⟨found, hfound, key', hkey', hleast⟩ :=
    (h.probeIndex? input row).exists_eq_ok fun trap htrap ↦ nomatch hkey.symm.trans htrap
  obtain rfl := Except.ok.inj (hkey.symm.trans hkey')
  exact ⟨found, hfound, hleast⟩

theorem index?_eq (h : k.Table config t) (hkey : keyAt k.build input row = .ok key)
    {found : Option Nat} (hleast : IsLeast? (k.HasKey t key) found) :
    t.index? input row = .ok found := by
  obtain ⟨found', hfound, hleast'⟩ := h.exists_index? hkey
  rw [hfound, hleast'.unique hleast]

theorem probeIndex?_eq (h : k.Table config t) (hkey : keyAt k.probe input row = .ok key)
    {found : Option Nat} (hleast : IsLeast? (k.HasKey t key) found) :
    t.probeIndex? input row = .ok found := by
  obtain ⟨found', hfound, hleast'⟩ := h.exists_probeIndex? hkey
  rw [hfound, hleast'.unique hleast]

theorem counted (h : k.Table config t) (visited : Nat) : k.Table config (t.counted visited) :=
  ⟨h.sound.congr rfl rfl rfl rfl rfl, h.tracking.counted visited, h.keyed, h.config_eq, h.ops_eq⟩

/-- Storing a key rewrites a row of the keys beside it. -/
theorem rewritten (h : k.Table config t) {keys : Block} {result : Except KeyError Unit}
    (hstore : t.ops.store input row t.nextKeys (t.layout.split t.freeIndex).offset =
      .ok (keys, result)) :
    List.Forall₂ (Column.RewrittenAt (t.layout.split t.freeIndex).offset) t.nextKeys.columns
      keys.columns := by
  rw [h.ops_eq] at hstore
  exact rewritten_of_store hstore h.keyed.nextKeys.aligned

/-- A table with a slot used up by a key that is read from columns. -/
theorem used (h : k.Table config t) {keys : Block} {hash : Option UInt32}
    {result : Except KeyError Unit}
    (hstore : t.ops.store input row t.nextKeys (t.layout.split t.freeIndex).offset =
      .ok (keys, result)) (hused : t.Used keys hash t') : k.Table config t' :=
  ⟨hused.sound, h.tracking.used hused, hused.keyed h.keyed (h.rewritten hstore),
    hused.config_eq.trans h.config_eq, hused.ops_eq.trans h.ops_eq⟩

/-- Putting the key in a row is abandoned only if it can not be read. -/
theorem put (h : k.Table config t) (input : Block) (row : Nat) :
    (t.put input row).Sat (fun trap ↦ keyAt k.build input row = .error trap) fun outcome ↦
      k.Table config outcome.1 ∧ ∃ key, keyAt k.build input row = .ok key ∧
        KeyTable.PutEffect t (foldHash (k.digest key)) input row outcome := by
  refine (h.sound.put input row).mono (fun trap htrap ↦ ?_) fun outcome ⟨hash, hhash, hput⟩ ↦ ?_
  · rw [KeyTable.PutRaises, h.ops_eq] at htrap
    rcases htrap with hlookUp | ⟨⟨hash, hhash, -⟩, hstore⟩
    · exact h.keyAt_of_lookUpRaises hlookUp
    · -- a key that has a hash can be read, and so is not abandoned when it is stored
      obtain ⟨key, hkey, -⟩ := exists_of_bind_eq_ok hhash
      obtain ⟨outcome, houtcome⟩ :=
        exists_store hkey t.nextKeys (t.layout.split t.freeIndex).offset
      cases hstore.symm.trans houtcome
  · rw [h.ops_eq] at hhash
    obtain ⟨key, hkey, heq⟩ := exists_of_bind_eq_ok hhash
    obtain rfl := Except.ok.inj heq
    have heffect := hput.effect h.sound
    refine ⟨?_, key, hkey, heffect⟩
    cases heffect with
    | present => exact h.counted _
    | new _ hattempt =>
      cases hattempt with
      | exhausted => exact h.counted _
      | spent _ hstore hused => exact (h.counted _).used hstore hused
      | stored _ hstore hused => exact (h.counted _).used hstore hused

theorem wrote (h : k.Table config t) {count : Nat} (hcount : count ≤ t.remaining.length) :
    k.Table config (t.wrote count) :=
  ⟨h.sound.congr rfl rfl rfl rfl rfl, h.tracking.wrote hcount, h.keyed, h.config_eq, h.ops_eq⟩

theorem resetOutput (h : k.Table config t) : k.Table config t.resetOutput :=
  ⟨h.sound.congr rfl rfl rfl rfl rfl, .resetOutput t, h.keyed, h.config_eq, h.ops_eq⟩

theorem clear (h : k.Table config t) : k.Table config t.clear := by
  rw [KeyTable.clear_eq, h.config_eq, h.ops_eq]
  exact table_fresh (h.config_eq ▸ h.sound.sane) k t.metrics

/-- The key in a slot is written out, unless the output is full or refuses it. -/
theorem emitAt (h : k.Table config t) {index : Nat} (hstored : t.stored index = .ok key)
    {output : Block} (haligned : ∀ c ∈ output.columns, c.Aligned) :
    ∃ keys outcome, t.keysAt index = .ok keys ∧
      keys.row (t.layout.split index).offset = .ok key ∧
      t.emitAt index output output.length = .ok outcome ∧
      Emission keys (t.layout.split index).offset output outcome := by
  obtain ⟨keys, hkeys, hrow⟩ := exists_of_bind_eq_ok hstored
  obtain ⟨outcome, houtcome, hemission⟩ := exists_emit hrow haligned
  exact ⟨keys, outcome, hkeys, hrow, by rw [KeyTable.emitAt, hkeys, h.ops_eq]; exact houtcome,
    hemission⟩

end Table

/-! ### A sample -/

/-- The keys of the rows of one column of integers, by their own hashes. -/
def identified : ColumnKeys := ⟨[0], [0], .equal, Scalar.digest⟩

/-- Rows of one column of integers, with values that come twice. -/
def repeated : Block := ⟨[.int32 (.ofList [some 5, none, some 7, some 5, none, some 9])], 6⟩

end Columnar.ColumnKeys
