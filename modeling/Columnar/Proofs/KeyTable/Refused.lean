import Columnar.Proofs.KeyTable.Charges

/-!
# Puts that are refused

When a key can not be stored, and what is left of the attempt. A put is refused just if the key is
not there and one of its texts exceeds what is left of the budget of its column, and the first such
column is the cause (`refusal_of_put`).

## What shows of a refused put

All that shows is that its slot is spent (`SpentNext`). Every lookup gives what it gave, though the
buckets may have been doubled and some columns of the slot written, for lookups test the slots that
hold keys and read nothing else (`tested_eq`, `lookUp_eq`). The keys in the table and the order in
which they are written out are the same.

Whatever is called then passes the slot over (`PassesOver`): it stays vacant and on no chain, no
answer names it, and it is not among those that are written out, until the table is cleared. This
rests on the two facts that a slot of an answer holds a key or is the next one (`slot?_of_call`),
and that slots are never handed out twice.

## The cause

`Overfull` compares a text with what is left of the budget of its column in the segment of the next
slot. **What is left may be less than the keys there account for**, as bytes of refused keys count
as well. The statement is about what is left, and so needs no word on how it came about.
-/

namespace Columnar

/-- The slot that an answer names, if any. -/
def TableAnswer.slot? {ε : Type} : TableAnswer ε → Option Nat
  | put (.ok status) => some status.index
  | put (.error (.insertFailed index _)) => some index
  | found index? => index?
  | written _ (.error (.outputFailed index _)) => some index
  | _ => none

namespace KeyTable

variable {ε : Type} {t t' : KeyTable ε} {index : Nat}

/-- A slot that was handed out and holds no key is vacant. -/
theorem Sound.linkAt_of_spent (h : t.Sound) (hindex : index < t.freeIndex)
    (hspent : t.hash? index = none) : t.linkAt index = .ok .vacant := by
  obtain ⟨hash, hslot⟩ := h.exists_slot?_of_spent hindex hspent
  exact linkAt_eq hslot

/-- A slot that holds no key is on no chain. -/
theorem Sound.not_mem_chain (h : t.Sound) (hspent : t.hash? index = none) {bucket : Nat}
    {slots : List Nat} (hchain : t.chain bucket = .ok slots) : index ∉ slots := by
  intro hmem
  rcases Nat.lt_or_ge bucket t.buckets.size with hbucket | hbucket
  · obtain rfl := Except.ok.inj ((h.chain_eq hbucket).symm.trans hchain)
    obtain ⟨-, hash, hhash, -⟩ := mem_bucketSlots.1 hmem
    cases hspent.symm.trans hhash
  · simp [chain, Checked.entry, Array.getElem?_eq_none hbucket] at hchain

/-- A table one more slot of which is spent, and which otherwise looks as before. -/
structure SpentNext (t t' : KeyTable ε) : Prop where
  linkAt_eq : t'.linkAt t.freeIndex = .ok .vacant
  not_mem_chain : ∀ bucket slots, t'.chain bucket = .ok slots → t.freeIndex ∉ slots
  freeIndex_eq : t'.freeIndex = t.freeIndex + 1
  size_eq : t'.size = t.size
  occupied_iff : ∀ index, t'.Occupied index ↔ t.Occupied index
  hashAt_eq : ∀ index, t.Occupied index → t'.hashAt index = t.hashAt index
  stored_eq : ∀ index, t.Occupied index → t'.stored index = t.stored index
  index?_eq : ∀ input row, t'.index? input row = t.index? input row
  probeIndex?_eq : ∀ probe row, t'.probeIndex? probe row = t.probeIndex? probe row

/-- A slot that every call passes over until the table is cleared: it stays vacant and on no chain,
no answer names it, and it is not among those that are written out. -/
def PassesOver (t : KeyTable ε) (index : Nat) : Prop :=
  ∀ {calls t' answers}, t.run calls = .ok (t', answers) → .clear ∉ calls →
    t'.linkAt index = .ok .vacant ∧
      (∀ bucket slots, t'.chain bucket = .ok slots → index ∉ slots) ∧
      (∀ answer ∈ answers, answer.slot? ≠ some index) ∧ index ∉ t'.remaining ∧
      ∀ output, t'.outputAll output = (do
        let (count, output, result) ← t'.emitSlots t'.remaining output output.length
        return (t'.wrote count, output, result))

end KeyTable

namespace ColumnKeys

variable {k : ColumnKeys} {config : TableConfig} {t t' : KeyTable KeyError} {input : Block}
  {row : Nat} {key : Row} {types : List DataType}

open Column (overflowAt)

/-- A text of a key exceeds what is left of the budget of its column. -/
def Overfull (config : TableConfig) (t : KeyTable KeyError) (key : Row) (column : Nat) : Prop :=
  config.keyTypes[column]? = some .varchar ∧ ∃ text, key[column]? = some (some (.text text)) ∧
    config.textBudget < t.heldBytes column + text.utf8ByteSize

namespace Table

/-- A key does not fit into a column just if its text exceeds what is left of the budget. -/
theorem overflowAt_eq_some_iff (h : k.Table config t) (hbudgets : t.Budgeted) {column : Nat}
    {refusal : ColumnError} : overflowAt t.nextKeys.columns key column = some refusal ↔
      config.keyTypes[column]? = some .varchar ∧ ∃ text, key[column]? = some (some (.text text)) ∧
        config.textBudget < t.heldBytes column + text.utf8ByteSize ∧
        refusal = .overBudget text.utf8ByteSize (t.heldBytes column) config.textBudget := by
  constructor
  · intro hoverflow
    obtain ⟨c, hc, hoverflow⟩ := Option.bind_eq_some_iff.1 hoverflow
    obtain ⟨value, hvalue, hoverflow⟩ := Option.bind_eq_some_iff.1 hoverflow
    obtain ⟨d, text, rfl, rfl, hroom, rfl⟩ := Column.overflow?_eq_some_iff.1 hoverflow
    obtain ⟨hheld, hbudget⟩ := h.bytes_nextKeys hbudgets hc
    rw [hheld, ← hbudget]
    exact ⟨h.keyType_nextKeys hc, text, hvalue, hroom, rfl⟩
  · rintro ⟨htype, text, hvalue, hroom, rfl⟩
    have hnext := h.keyed.nextKeys
    rw [h.config_eq] at hnext
    obtain ⟨hlt, hget⟩ := List.getElem?_eq_some_iff.1 htype
    have hlt' : column < t.nextKeys.columns.length := hnext.length_eq ▸ hlt
    have hcolumn : t.nextKeys.columns[column].dataType = .varchar :=
      (hnext.get hlt' hlt).1.trans hget
    have hc : t.nextKeys.columns[column]? = some t.nextKeys.columns[column] :=
      List.getElem?_eq_getElem hlt'
    rw [overflowAt, hc, hvalue]
    cases htext : t.nextKeys.columns[column] with
    | text d =>
      rw [htext] at hc
      obtain ⟨hheld, hbudget⟩ := h.bytes_nextKeys hbudgets hc
      rw [hheld, ← hbudget] at hroom ⊢
      exact Column.overflow?_eq_some_iff.2 ⟨d, text, rfl, rfl, hroom, rfl⟩
    | boolean d | int32 d | int64 d | double d =>
      rw [htext] at hcolumn
      cases hcolumn

/-- A key does not fit into a column just if the column is overfull. -/
theorem overflowAt_eq_none_iff (h : k.Table config t) (hbudgets : t.Budgeted) {column : Nat} :
    overflowAt t.nextKeys.columns key column = none ↔ ¬Overfull config t key column := by
  rw [Option.eq_none_iff_forall_ne_some]
  constructor
  · rintro hnone ⟨htype, text, hvalue, hroom⟩
    exact hnone _ ((h.overflowAt_eq_some_iff hbudgets).2 ⟨htype, text, hvalue, hroom, rfl⟩)
  · intro hfits refusal hoverflow
    obtain ⟨htype, text, hvalue, hroom, -⟩ := (h.overflowAt_eq_some_iff hbudgets).1 hoverflow
    exact hfits ⟨htype, text, hvalue, hroom⟩

/-! ### What a refused put leaves -/

/-- Testing the key in another slot gives what it gave before a slot was spent. -/
theorem tested_eq (h : k.Table config t) {keys : Block} (hused : t.Used keys none t')
    (hrewritten : List.Forall₂ (Column.RewrittenAt (t.layout.split t.freeIndex).offset)
      t.nextKeys.columns keys.columns) {index : Nat} (hindex : t.hash? index ≠ none)
    (indexes : List Nat) (input : Block) (row : Nat) :
    t'.tested (fun keys slot ↦ agreeAt k.nulls input row slot indexes keys.columns) index =
      t.tested (fun keys slot ↦ agreeAt k.nulls input row slot indexes keys.columns) index := by
  obtain ⟨before, after, hbefore, hafter, hget⟩ := hused.forall₂_get h.sound hrewritten hindex
  rw [KeyTable.tested, KeyTable.tested, hbefore, hafter, hused.layout_eq]
  exact (agreeAt_congr (hget.imp fun _ _ hc ↦ hc.symm)).symm

/-- Looking up gives what it gave before a slot was spent. -/
theorem lookUp_eq (h : k.Table config t) {keys : Block} (hused : t.Used keys none t')
    (hrewritten : List.Forall₂ (Column.RewrittenAt (t.layout.split t.freeIndex).offset)
      t.nextKeys.columns keys.columns) (hash : Checked UInt32) (indexes : List Nat) (input : Block)
    (row : Nat) :
    (do
      let hash ← hash
      return (← t'.find hash
        fun keys slot ↦ agreeAt k.nulls input row slot indexes keys.columns).1 :
          Checked (Option Nat)) = (do
      let hash ← hash
      return (← t.find hash
        fun keys slot ↦ agreeAt k.nulls input row slot indexes keys.columns).1) := by
  refine h.sound.lookUp_congr hused.sound hash (fun hash ↦ ?_) fun index hindex ↦
    h.tested_eq hused hrewritten hindex indexes input row
  -- the slot that is spent is not tested
  rw [KeyTable.candidates, KeyTable.candidates, hused.freeIndex_eq, List.range_succ,
    List.filter_append, List.filter_cons_of_neg (by simp [hused.hash?_eq]), List.filter_nil,
    List.append_nil]
  refine List.filter_congr fun index hindex ↦ ?_
  rw [hused.hash?_eq, if_neg (Nat.ne_of_gt (List.mem_range.1 hindex))]

/-- All that shows of a refused put is that its slot is spent. -/
theorem spentNext (h : k.Table config t) {keys : Block} (hused : t.Used keys none t')
    (hrewritten : List.Forall₂ (Column.RewrittenAt (t.layout.split t.freeIndex).offset)
      t.nextKeys.columns keys.columns) : t.SpentNext t' := by
  have hspent : t'.hash? t.freeIndex = none := by rw [hused.hash?_eq, if_pos rfl]
  have hlt : t.freeIndex < t'.freeIndex := hused.freeIndex_eq ▸ Nat.lt_succ_self _
  have hhash (index : Nat) : t'.hash? index = t.hash? index := by
    rw [hused.hash?_eq]
    split_ifs with heq
    · exact (h.sound.hash?_beyond index (Nat.le_of_eq heq)).symm
    · rfl
  have hoccupied (index : Nat) : t'.Occupied index ↔ t.Occupied index := by
    rw [hused.sound.toSegmented.occupied_iff, h.sound.toSegmented.occupied_iff]
    simp only [KeyTable.holds_iff, hhash]
  refine ⟨hused.sound.linkAt_of_spent hlt hspent,
    fun bucket slots hchain ↦ hused.sound.not_mem_chain hspent hchain, hused.freeIndex_eq,
    hused.entries_eq, hoccupied, fun index hindex ↦ ?_, fun index hindex ↦ ?_, fun input row ↦ ?_,
    fun probe row ↦ ?_⟩
  · obtain ⟨hash, hholds⟩ := h.sound.toSegmented.occupied_iff.1 hindex
    have hholds' := KeyTable.holds_iff.2 ((hhash index).trans (KeyTable.holds_iff.1 hholds))
    obtain ⟨-, -, -, hread⟩ := hholds
    obtain ⟨-, -, -, hread'⟩ := hholds'
    exact hread'.trans hread.symm
  · obtain ⟨hash, hholds⟩ := h.sound.toSegmented.occupied_iff.1 hindex
    exact hused.stored_eq h.sound hrewritten (KeyTable.hash?_ne_none_iff.2 ⟨hash, hholds⟩)
  · rw [KeyTable.index?, KeyTable.index?, hused.ops_eq, h.ops_eq]
    exact h.lookUp_eq hused hrewritten _ k.build input row
  · rw [KeyTable.probeIndex?, KeyTable.probeIndex?, hused.ops_eq, h.ops_eq]
    exact h.lookUp_eq hused hrewritten _ k.probe probe row

/-! ### What is called then -/

/-- A slot that an answer names holds a key, or is the next one. -/
theorem slot?_of_call (h : k.Table config t) {call : TableCall} {answer : TableAnswer KeyError}
    (hcall : t.call call = .ok (t', answer)) {index : Nat} (hslot : answer.slot? = some index) :
    t.hash? index ≠ none ∨ index = t.freeIndex := by
  have hkey {key : Row} {found : Option Nat} (hfound : found = some index)
      (hleast : IsLeast? (k.HasKey t key) found) : t.hash? index ≠ none := by
    subst hfound
    exact hleast.1.1 ▸ Option.some_ne_none _
  cases call with
  | put input row =>
    obtain ⟨⟨u, result⟩, hput, heq⟩ := exists_of_bind_eq_ok hcall
    obtain ⟨rfl, rfl⟩ := Prod.mk.inj (Except.ok.inj heq)
    obtain ⟨-, key, hkeyAt, heffect⟩ := (h.put input row).of_eq_ok hput
    cases heffect with
    | @present found _ hleast =>
      have hleast : IsLeast? (k.HasKey t key) (some found) := by
        rw [h.ops_eq] at hleast
        exact hleast.congr fun index ↦ h.matches_iff hkeyAt
      exact .inl (hkey hslot hleast)
    | new _ hattempt =>
      cases hattempt with
      | exhausted => cases hslot
      | spent | stored => exact .inr (Option.some.inj hslot).symm
  | lookUp input row =>
    obtain ⟨found, hfound, heq⟩ := exists_of_bind_eq_ok hcall
    obtain ⟨rfl, rfl⟩ := Prod.mk.inj (Except.ok.inj heq)
    obtain ⟨key, -, hleast⟩ := (h.index? input row).of_eq_ok hfound
    exact .inl (hkey hslot hleast)
  | probe probe row =>
    obtain ⟨found, hfound, heq⟩ := exists_of_bind_eq_ok hcall
    obtain ⟨rfl, rfl⟩ := Prod.mk.inj (Except.ok.inj heq)
    obtain ⟨key, -, hleast⟩ := (h.probeIndex? probe row).of_eq_ok hfound
    exact .inl (hkey hslot hleast)
  | outputAll output =>
    rw [KeyTable.call, h.sound.outputAll_eq h.tracking.outputCursor_le] at hcall
    obtain ⟨_, hwrite, heq⟩ := exists_of_bind_eq_ok hcall
    obtain ⟨⟨count, output', result⟩, hemit, hwrite⟩ := exists_of_bind_eq_ok hwrite
    obtain rfl := Except.ok.inj hwrite
    obtain ⟨-, rfl⟩ := Prod.mk.inj (Except.ok.inj heq)
    rcases result with refusal | fits
    · obtain ⟨other, cause, hother, rfl⟩ := KeyTable.emitSlots_spec hemit
      obtain rfl := Option.some.inj hslot
      exact .inl (KeyTable.mem_slotsFrom.1 (List.mem_of_getElem? hother)).2.2
    · cases hslot
  | resetOutput | clear =>
    obtain ⟨-, rfl⟩ := Prod.mk.inj (Except.ok.inj hcall)
    cases hslot

/-- No answer names a slot that is spent until the table is cleared. -/
theorem slot?_ne_of_run (h : k.Table config t) (hwidth : k.build.length = config.keyTypes.length)
    {index : Nat} (hindex : index < t.freeIndex) (hspent : t.hash? index = none)
    {calls : List TableCall} {answers : List (TableAnswer KeyError)}
    (hrun : t.run calls = .ok (t', answers)) (hclear : .clear ∉ calls) :
    ∀ answer ∈ answers, answer.slot? ≠ some index := by
  induction calls generalizing t answers with
  | nil =>
    obtain ⟨-, rfl⟩ := Prod.mk.inj (Except.ok.inj hrun)
    nofun
  | cons call calls ih =>
    obtain ⟨⟨u, answer⟩, hcall, hrun⟩ := exists_of_bind_eq_ok hrun
    obtain ⟨⟨v, answers'⟩, hrest, heq⟩ := exists_of_bind_eq_ok hrun
    obtain ⟨rfl, rfl⟩ := Prod.mk.inj (Except.ok.inj heq)
    obtain ⟨hu, hextends, -⟩ := h.of_call hwidth hcall
    have hextends := hextends fun heq ↦ hclear (heq ▸ List.mem_cons_self)
    intro other hother
    rcases List.mem_cons.1 hother with rfl | hother
    · intro hslot
      rcases h.slot?_of_call hcall hslot with hkey | rfl
      · exact hkey hspent
      · exact Nat.lt_irrefl _ hindex
    · exact ih hu (Nat.lt_of_lt_of_le hindex hextends.freeIndex_le)
        ((hextends.hash?_eq index hindex).trans hspent) hrest
        (fun hmem ↦ hclear (List.mem_cons_of_mem _ hmem)) other hother

/-- A slot that is spent is passed over. -/
theorem passesOver (h : k.Table config t) (hwidth : k.build.length = config.keyTypes.length)
    {index : Nat} (hindex : index < t.freeIndex) (hspent : t.hash? index = none) :
    t.PassesOver index := by
  intro calls t' answers hrun hclear
  obtain ⟨ht', hbehind⟩ := h.of_run hwidth hrun
  obtain ⟨hextends, -⟩ := hbehind hclear
  have hspent' := (hextends.hash?_eq index hindex).trans hspent
  have hindex' := Nat.lt_of_lt_of_le hindex hextends.freeIndex_le
  exact ⟨ht'.sound.linkAt_of_spent hindex' hspent',
    fun bucket slots hchain ↦ ht'.sound.not_mem_chain hspent' hchain,
    h.slot?_ne_of_run hwidth hindex hspent hrun hclear,
    fun hmem ↦ (KeyTable.mem_slotsFrom.1 hmem).2.2 hspent',
    fun output ↦ ht'.sound.outputAll_eq ht'.tracking.outputCursor_le output⟩

end Table

/-- A put of a row of a well-formed block is refused just if the key is not found and a text of it
exceeds what is left of the budget of its column. The first such column is the cause, and nothing
shows of the put then or later but a spent slot. -/
theorem refusal_of_put {t₀ : KeyTable KeyError} {calls : List TableCall}
    {answers : List (TableAnswer KeyError)} (h : KeyTable.create config k.ops = .ok t₀)
    (hbuild : check k.build types config.keyColumns = .ok ())
    (hrun : t₀.run calls = .ok (t, answers)) (hindex : t.freeIndex ≤ IndexLayout.maxIndex)
    (hinput : input.WellFormed types) (hrow : row < input.length) :
    ∃ key t' result, keyAt k.build input row = .ok key ∧ t.put input row = .ok (t', result) ∧
      ((∃ index cause, result = .error (.insertFailed index cause)) ↔
        t.index? input row = .ok none ∧ ∃ column, Overfull config t key column) ∧
      ∀ index cause, result = .error (.insertFailed index cause) →
        (∃ column text, IsLeast? (Overfull config t key) (some column) ∧
          key[column]? = some (some (.text text)) ∧ cause = .column
            (.overBudget text.utf8ByteSize (t.heldBytes column) config.textBudget)) ∧
        index = t.freeIndex ∧ t.SpentNext t' ∧ t'.PassesOver index := by
  have hwidth := width_of_check hbuild
  have hsane := (KeyTable.kept_of_create_eq_ok h).sane
  obtain rfl := KeyTable.eq_fresh_of_create_eq_ok h
  have hfresh := table_fresh hsane k {}
  obtain ⟨ht, -⟩ := hfresh.of_run hwidth hrun
  have hbudgets := hfresh.budgeted_run hwidth (KeyTable.budgeted_fresh _ _ _) hrun
  obtain ⟨key, t', result, hkey, hput, ht', hsettles⟩ := ht.put_settles hbuild hinput hrow
  refine ⟨key, t', result, hkey, hput, ?_⟩
  cases hsettles with
  | present hleast =>
    have hfound := ht.index?_eq hkey hleast
    refine ⟨⟨nofun, fun hnone ↦ ?_⟩, nofun⟩
    cases hfound.symm.trans hnone.1
  | exhausted _ hlt => exact absurd hindex (Nat.not_le_of_lt hlt)
  | inserted _ _ hsettled =>
    cases hsettled with
    | taken hfits =>
      refine ⟨⟨nofun, fun ⟨_, column, hoverfull⟩ ↦ ?_⟩, nofun⟩
      exact absurd hoverfull ((ht.overflowAt_eq_none_iff hbudgets).1 (hfits column))
  | refused hnone hrewritten hsettled hused =>
    cases hsettled with
    | @refused column refusal hoverflow hfits =>
      obtain ⟨htype, text, hvalue, hroom, hrefusal⟩ :=
        (ht.overflowAt_eq_some_iff hbudgets).1 hoverflow
      have hoverfull : Overfull config t key column := ⟨htype, text, hvalue, hroom⟩
      refine ⟨⟨fun _ ↦ ⟨ht.index?_eq hkey hnone, column, hoverfull⟩, fun _ ↦ ⟨_, _, rfl⟩⟩, ?_⟩
      rintro index cause heq
      obtain ⟨rfl, rfl⟩ := TableError.insertFailed.inj (Except.error.inj heq)
      refine ⟨⟨column, text, ⟨hoverfull, fun other hother ↦ ?_⟩, hvalue,
        congrArg KeyError.column hrefusal⟩, rfl, ht.spentNext hused hrewritten, ?_⟩
      · by_contra hlt
        exact (ht.overflowAt_eq_none_iff hbudgets).1 (hfits other (Nat.lt_of_not_le hlt)) hother
      · refine ht'.passesOver hwidth (hused.freeIndex_eq ▸ Nat.lt_succ_self _) ?_
        rw [hused.hash?_eq, if_pos rfl]

/-- The second key does not fit behind the first one, and its put doubles the buckets before it is
refused. -/
theorem refusal_of_put_names : ∃ t t',
    (KeyTable.fresh tight named.ops {}).run [.put names 0] = .ok (t, [.put (.ok (.inserted 0))]) ∧
      t.put names 1 = .ok (t', .error (.insertFailed 1 (.column (.overBudget 3 2 4)))) ∧
      t.buckets.size = 1 ∧ t'.buckets.size = 2 ∧ t.SpentNext t' ∧ t'.PassesOver 1 := by
  obtain ⟨t, t', hrun, hput, hbuckets, hbuckets', hindex⟩ : ∃ t t',
      (KeyTable.fresh tight named.ops {}).run [.put names 0] = .ok (t, [.put (.ok (.inserted 0))]) ∧
        t.put names 1 = .ok (t', .error (.insertFailed 1 (.column (.overBudget 3 2 4)))) ∧
        t.buckets.size = 1 ∧ t'.buckets.size = 2 ∧ t.freeIndex = 1 :=
    ⟨_, _, rfl, rfl, rfl, rfl, rfl⟩
  have hcreate := KeyTable.create_eq_ok fault?_tight named.ops
  have hbuild : check named.build [.varchar, .varchar] tight.keyColumns = .ok () := rfl
  have hle : t.freeIndex ≤ IndexLayout.maxIndex := by
    rw [hindex]
    decide
  have hrow : 1 < names.length := by decide
  obtain ⟨key, u, result, -, hput', -, hrefused⟩ :=
    refusal_of_put hcreate hbuild hrun hle wellFormed_names hrow
  obtain ⟨rfl, rfl⟩ := Prod.mk.inj (Except.ok.inj (hput.symm.trans hput'))
  obtain ⟨-, -, hspent, hpasses⟩ := hrefused _ _ rfl
  exact ⟨t, t', hrun, hput, hbuckets, hbuckets', hspent, hpasses⟩

end ColumnKeys

end Columnar
