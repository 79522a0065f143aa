import Columnar.Proofs.KeyTable.Charges
import Mathlib.Data.List.Basic
import Mathlib.Logic.Function.Basic

/-!
# Bytes that refused keys leave

Where the bytes in the text columns of a segment come from. Every slot that was handed out has a row
of values that were written for it: its key, or what of a key was copied before a column refused the
rest (`Ledger`). So the bytes of a column are those of the keys in the segment and those that
refused keys left there (`usedBytes_of_run`).

## Torn rows

`Torn` is what of a key was copied before a text column refused. It ends before that column, so
nothing is left in the last text column (`Torn.textBytes_eq_zero`), and nothing at all in a table
with one. With two of them bytes are left in the first one: **the budget of a segment pays for keys
that it does not hold**, and a later key may be refused for them (`not_accounted_names`).

In that example one key of two texts is refused for its second text; its first one stays charged,
and the next key, which would fit into an empty segment, is refused in its first column.

## What the ledger rests on

The ledger is kept by every call (`ledger_run`): a put that is stored adds its key, a put that is
refused adds a torn row, and clearing closes the books. Nothing is ever taken back from a buffer, so
the bytes of a column are a sum over the slots of its segment and not only bounded by one.
-/

namespace Columnar

theorem textBytesIn_append (rows rows' : List Row) (column : Nat) :
    textBytesIn (rows ++ rows') column = textBytesIn rows column + textBytesIn rows' column := by
  induction rows with
  | nil => exact (Nat.zero_add _).symm
  | cons row rows ih =>
    show textBytes row[column]?.join + textBytesIn (rows ++ rows') column =
      textBytes row[column]?.join + textBytesIn rows column + textBytesIn rows' column
    rw [ih, Nat.add_assoc]

/-- The bytes of rows are those of two kinds of rows. -/
theorem textBytesIn_partition {α : Type} (rows : α → Row) (p : α → Bool) (xs : List α)
    (column : Nat) : textBytesIn (xs.map rows) column =
      textBytesIn ((xs.filter p).map rows) column +
        textBytesIn ((xs.filter fun x ↦ !p x).map rows) column := by
  induction xs with
  | nil => rfl
  | cons x xs ih =>
    have hcons (xs : List α) : textBytesIn ((x :: xs).map rows) column =
        textBytes (rows x)[column]?.join + textBytesIn (xs.map rows) column := rfl
    rw [hcons, ih]
    cases hp : p x with
    | true =>
      rw [List.filter_cons_of_pos hp, List.filter_cons_of_neg (by simp [hp]), hcons, Nat.add_assoc]
    | false =>
      rw [List.filter_cons_of_neg (by simp [hp]), List.filter_cons_of_pos (by simp [hp]), hcons,
        Nat.add_left_comm]

theorem textBytesIn_eq_zero {rows : List Row} {column : Nat}
    (h : ∀ row ∈ rows, textBytes row[column]?.join = 0) : textBytesIn rows column = 0 := by
  induction rows with
  | nil => rfl
  | cons row rows ih =>
    show textBytes row[column]?.join + textBytesIn rows column = 0
    rw [h row List.mem_cons_self, ih fun row hrow ↦ h row (List.mem_cons_of_mem _ hrow)]

open Column (Charged overflowAt)

namespace KeyTable

variable {ε : Type} {t t' : KeyTable ε} {number index : Nat}

/-- The slots of a segment that were handed out. -/
def handedOut (t : KeyTable ε) (number : Nat) : List Nat :=
  (List.range t.freeIndex).filter fun index ↦ (t.layout.split index).segment = number

/-- The slots of a segment that hold keys. -/
def occupiedIn (t : KeyTable ε) (number : Nat) : List Nat :=
  (t.handedOut number).filter fun index ↦ (t.hash? index).isSome

/-- The slots of a segment that are spent. -/
def spentIn (t : KeyTable ε) (number : Nat) : List Nat :=
  (t.handedOut number).filter fun index ↦ !(t.hash? index).isSome

theorem mem_handedOut : index ∈ t.handedOut number ↔
    index < t.freeIndex ∧ (t.layout.split index).segment = number := by
  rw [handedOut, List.mem_filter, List.mem_range, decide_eq_true_iff]

theorem mem_occupiedIn : index ∈ t.occupiedIn number ↔
    index ∈ t.handedOut number ∧ t.hash? index ≠ none := by
  rw [occupiedIn, List.mem_filter, Option.isSome_iff_ne_none]

theorem mem_spentIn : index ∈ t.spentIn number ↔
    index ∈ t.handedOut number ∧ t.hash? index = none := by
  rw [spentIn, List.mem_filter, Bool.not_eq_true', Option.isSome_eq_false_iff,
    Option.isNone_iff_eq_none]

/-- The slots of the segments after a slot was used up. -/
theorem Used.handedOut_eq {keys : Block} {hash : Option UInt32} (h : t.Used keys hash t')
    (number : Nat) : t'.handedOut number =
      if (t.layout.split t.freeIndex).segment = number then t.handedOut number ++ [t.freeIndex]
      else t.handedOut number := by
  rw [handedOut, h.freeIndex_eq, h.layout_eq, List.range_succ, List.filter_append,
    List.filter_singleton, ← handedOut]
  split_ifs with hnumber <;> simp [hnumber]

/-- Where there is no segment there are no slots. -/
theorem Sound.handedOut_eq_nil (h : t.Sound) (hnumber : t.keys[number]? = none) :
    t.handedOut number = [] := by
  refine List.eq_nil_iff_forall_not_mem.2 fun index hindex ↦ ?_
  obtain ⟨hlt, hsegment⟩ := mem_handedOut.1 hindex
  obtain ⟨slot, hslot⟩ := Option.isSome_iff_exists.1 (h.isSome_slot? hlt)
  obtain ⟨segment, hthere, -⟩ := slot?_eq_some_iff.1 hslot
  rw [hsegment] at hthere
  rw [keys, Array.getElem?_map, hthere] at hnumber
  cases hnumber

/-- What was written for the slots of a table: the keys that they hold, or for spent slots rows that
were torn off. The bytes of every column of a segment are those that were written for its slots. -/
structure Ledger (torn : Row → Prop) (t : KeyTable ε) (written : Nat → Row) : Prop where
  stored_eq : ∀ index, t.hash? index ≠ none → t.stored index = .ok (written index)
  torn : ∀ index < t.freeIndex, t.hash? index = none → torn (written index)
  usedBytes_eq : ∀ number keys, t.keys[number]? = some keys → ∀ column c,
    keys.columns[column]? = some c →
      c.usedBytes = textBytesIn ((t.handedOut number).map written) column

variable {torn : Row → Prop} {written : Nat → Row}

theorem ledger_fresh (torn : Row → Prop) (config : TableConfig) (ops : KeyOps ε)
    (metrics : TableMetrics) (written : Nat → Row) :
    Ledger torn (fresh config ops metrics) written where
  stored_eq index hindex := absurd (hash?_fresh config ops metrics index) hindex
  torn index hindex := absurd hindex (Nat.not_lt_zero index)
  usedBytes_eq number keys hkeys column c hc := by
    obtain rfl : keys = (newSegment config).keys := by
      simpa [keys_fresh] using Array.mem_of_getElem? hkeys
    exact usedBytes_newSegment (List.mem_of_getElem? hc)

/-- The bytes beside the next slot are those that were written for the slots there. -/
theorem Ledger.nextKeys (h : Ledger torn t written) (ht : t.Sound) {column : Nat} {c : Column}
    (hc : t.nextKeys.columns[column]? = some c) : c.usedBytes =
      textBytesIn ((t.handedOut (t.layout.split t.freeIndex).segment).map written) column := by
  rw [nextKeys_eq] at hc
  cases hkeys : t.keys[(t.layout.split t.freeIndex).segment]? with
  | none =>
    rw [hkeys] at hc
    rw [ht.handedOut_eq_nil hkeys, usedBytes_newSegment (List.mem_of_getElem? hc)]
    rfl
  | some keys =>
    rw [hkeys] at hc
    exact h.usedBytes_eq _ keys hkeys column c hc

/-- A slot that is used up has the values that were written for it. -/
theorem Ledger.used (h : Ledger torn t written) (ht : t.Sound) {keys : Block}
    {hash : Option UInt32} (hused : t.Used keys hash t') (hrewritten : List.Forall₂
      (Column.RewrittenAt (t.layout.split t.freeIndex).offset) t.nextKeys.columns keys.columns)
    {values : Row} (hcharged : Charged t.nextKeys.columns values keys.columns)
    (hstored : hash ≠ none → t'.stored t.freeIndex = .ok values)
    (htorn : hash = none → torn values) :
    Ledger torn t' (Function.update written t.freeIndex values) where
  stored_eq index hindex := by
    rw [hused.hash?_eq] at hindex
    split_ifs at hindex with hnew
    · subst hnew
      rw [Function.update_self]
      exact hstored hindex
    · rw [Function.update_of_ne (Ne.symm hnew), hused.stored_eq ht hrewritten hindex]
      exact h.stored_eq index hindex
  torn index hlt hindex := by
    rw [hused.hash?_eq] at hindex
    split_ifs at hindex with hnew
    · subst hnew
      rw [Function.update_self]
      exact htorn hindex
    · rw [Function.update_of_ne (Ne.symm hnew)]
      rw [hused.freeIndex_eq] at hlt
      exact h.torn index (Nat.lt_of_le_of_ne (Nat.le_of_lt_succ hlt) (Ne.symm hnew)) hindex
  usedBytes_eq number block hblock column c hc := by
    -- the slots that there were keep what was written for them
    have hbefore : (t.handedOut number).map (Function.update written t.freeIndex values) =
        (t.handedOut number).map written :=
      List.map_congr_left fun index hindex ↦
        Function.update_of_ne (Nat.ne_of_lt (mem_handedOut.1 hindex).1) _ _
    rw [hused.getElem?_keys] at hblock
    rw [hused.handedOut_eq]
    split_ifs at hblock ⊢ with hnumber
    · obtain rfl := Option.some.inj hblock
      subst hnumber
      have hlt : column < t.nextKeys.columns.length :=
        hrewritten.length_eq ▸ (List.getElem?_eq_some_iff.1 hc).1
      have hcolumn := List.getElem?_eq_getElem hlt
      rw [hcharged.usedBytes_eq hcolumn hc, h.nextKeys ht hcolumn, List.map_append, hbefore,
        textBytesIn_append, List.map_singleton, Function.update_self]
      rfl
    · rw [hbefore]
      exact h.usedBytes_eq number block hblock column c hc

/-- The keys in the slots of a segment can be read. -/
theorem Ledger.mapM_stored (h : Ledger torn t written) (number : Nat) :
    (t.occupiedIn number).mapM t.stored = .ok ((t.occupiedIn number).map written) := by
  rw [Checked.mapM_eq_ok_iff, List.forall₂_map_right_iff]
  exact List.forall₂_same.2 fun index hindex ↦ h.stored_eq index (mem_occupiedIn.1 hindex).2

/-- The bytes of a column are those of the keys that the segment holds. -/
def Accounted (t : KeyTable ε) (number column : Nat) : Prop :=
  ∀ keys d, t.keys[number]? = some keys → keys.columns[column]? = some (.text d) →
    ∃ stored, (t.occupiedIn number).mapM t.stored = .ok stored ∧
      d.usedBytes = textBytesIn stored column

end KeyTable

namespace ColumnKeys

variable {k : ColumnKeys} {config : TableConfig} {t t' : KeyTable KeyError} {input : Block}
  {row : Nat} {types : List DataType} {calls : List TableCall}

/-- What of the key of a put was copied before a text column refused the rest. -/
def Torn (k : ColumnKeys) (config : TableConfig) (calls : List TableCall) (values : Row) : Prop :=
  ∃ input row key column, .put input row ∈ calls ∧ keyAt k.build input row = .ok key ∧
    config.keyTypes[column]? = some .varchar ∧ values = key.take column

/-- What was copied ends before the last text column. -/
theorem Torn.textBytes_eq_zero {values : Row} (h : k.Torn config calls values) {column : Nat}
    (hlast : ∀ i, column < i → config.keyTypes[i]? ≠ some .varchar) :
    textBytes values[column]?.join = 0 := by
  obtain ⟨input, row, key, refusing, -, -, htype, rfl⟩ := h
  have hle : refusing ≤ column := Nat.le_of_not_lt fun hlt ↦ hlast refusing hlt htype
  rw [List.getElem?_take_eq_none hle]
  rfl

namespace Table

/-- A put adds the values that it writes to the ledger. -/
theorem ledger_put (h : k.Table config t) (hbuild : check k.build types config.keyColumns = .ok ())
    (hinput : input.WellFormed types) (hrow : row < input.length) (hcall : .put input row ∈ calls)
    {written : Nat → Row} (hledger : KeyTable.Ledger (k.Torn config calls) t written)
    {result : Except (TableError KeyError) PutStatus} (hput : t.put input row = .ok (t', result)) :
    ∃ written', KeyTable.Ledger (k.Torn config calls) t' written' := by
  obtain ⟨key, u, outcome, hkey, hput', -, hsettles⟩ := h.put_settles hbuild hinput hrow
  obtain ⟨rfl, rfl⟩ := Prod.mk.inj (Except.ok.inj (hput.symm.trans hput'))
  cases hsettles with
  | present | exhausted =>
    exact ⟨written, hledger.stored_eq, hledger.torn, hledger.usedBytes_eq⟩
  | inserted _ hrewritten hsettled hused hstored =>
    cases hsettled with
    | taken _ hcharged =>
      exact ⟨_, hledger.used h.sound hused hrewritten hcharged (fun _ ↦ hstored) nofun⟩
  | refused _ hrewritten hsettled hused =>
    cases hsettled with
    | @refused column _ hoverflow _ hcharged =>
      obtain ⟨c, hc, hoverflow⟩ := Option.bind_eq_some_iff.1 hoverflow
      obtain ⟨value, -, hoverflow⟩ := Option.bind_eq_some_iff.1 hoverflow
      obtain ⟨d, -, rfl, -⟩ := Column.overflow?_eq_some_iff.1 hoverflow
      have htorn : k.Torn config calls (key.take column) :=
        ⟨input, row, key, column, hcall, hkey, h.keyType_nextKeys hc, rfl⟩
      exact ⟨_, hledger.used h.sound hused hrewritten hcharged (absurd rfl) fun _ ↦ htorn⟩

/-- After puts of rows of well-formed blocks and any other calls there is a ledger. -/
theorem ledger_run (h : k.Table config t) (hbuild : check k.build types config.keyColumns = .ok ())
    (hcalls : ∀ input row, .put input row ∈ calls → input.WellFormed types ∧ row < input.length)
    {written : Nat → Row} (hledger : KeyTable.Ledger (k.Torn config calls) t written)
    {answers : List (TableAnswer KeyError)} (hrun : t.run calls = .ok (t', answers)) :
    ∃ written', KeyTable.Ledger (k.Torn config calls) t' written' := by
  refine induct_run (fun t ↦ ∃ written, KeyTable.Ledger (k.Torn config calls) t written)
    (width_of_check hbuild) (fun hcall ht ⟨_, hledger⟩ hput ↦ ?_) (fun _ _ ⟨written, hledger⟩ ↦ ?_)
    (fun _ _ ↦ ?_) h ⟨written, hledger⟩ hrun
  · obtain ⟨hinput, hrow⟩ := hcalls _ _ hcall
    exact ht.ledger_put hbuild hinput hrow hcall hledger hput
  · exact ⟨written, hledger.stored_eq, hledger.torn, hledger.usedBytes_eq⟩
  · exact ⟨fun _ ↦ [], KeyTable.ledger_fresh _ _ _ _ _⟩

end Table

/-- After puts of rows of well-formed blocks and any other calls, the bytes of a text column of a
segment are those of the keys that the segment holds and those of spent slots, where a key left what
was copied of it before another text column refused the rest. So nothing is left in the last one. -/
theorem usedBytes_of_run {t₀ : KeyTable KeyError} {answers : List (TableAnswer KeyError)}
    (h : KeyTable.create config k.ops = .ok t₀)
    (hbuild : check k.build types config.keyColumns = .ok ())
    (hcalls : ∀ input row, .put input row ∈ calls → input.WellFormed types ∧ row < input.length)
    (hrun : t₀.run calls = .ok (t, answers)) {number column : Nat} {keys : Block} {d : TextColumn}
    (hkeys : t.keys[number]? = some keys) (hd : keys.columns[column]? = some (.text d)) :
    ∃ stored written, (t.occupiedIn number).mapM t.stored = .ok stored ∧
      (∀ index ∈ t.spentIn number, k.Torn config calls (written index)) ∧
      d.usedBytes = textBytesIn stored column +
        textBytesIn ((t.spentIn number).map written) column ∧
      ((∀ i, column < i → config.keyTypes[i]? ≠ some .varchar) → t.Accounted number column) := by
  have hsane := (KeyTable.kept_of_create_eq_ok h).sane
  obtain rfl := KeyTable.eq_fresh_of_create_eq_ok h
  obtain ⟨written, hledger⟩ := (table_fresh hsane k {}).ledger_run hbuild hcalls
    (KeyTable.ledger_fresh _ config k.ops {} fun _ ↦ []) hrun
  have htorn : ∀ index ∈ t.spentIn number, k.Torn config calls (written index) := by
    intro index hindex
    obtain ⟨hslot, hspent⟩ := KeyTable.mem_spentIn.1 hindex
    exact hledger.torn index (KeyTable.mem_handedOut.1 hslot).1 hspent
  have hbytes (d : TextColumn) (hd : keys.columns[column]? = some (.text d)) : d.usedBytes =
      textBytesIn ((t.occupiedIn number).map written) column +
        textBytesIn ((t.spentIn number).map written) column :=
    (hledger.usedBytes_eq number keys hkeys column _ hd).trans
      (textBytesIn_partition written (fun index ↦ (t.hash? index).isSome) _ column)
  refine ⟨_, written, hledger.mapM_stored number, htorn, hbytes d hd, 
    fun hlast keys' d' hkeys' hd' ↦ ?_⟩
  obtain rfl := Option.some.inj (hkeys.symm.trans hkeys')
  have hnothing : textBytesIn ((t.spentIn number).map written) column = 0 := by
    refine textBytesIn_eq_zero fun values hvalues ↦ ?_
    obtain ⟨index, hindex, rfl⟩ := List.mem_map.1 hvalues
    exact (htorn index hindex).textBytes_eq_zero hlast
  exact ⟨_, hledger.mapM_stored number, by rw [hbytes d' hd', hnothing, Nat.add_zero]⟩

/-- A column that holds bytes is one of texts. -/
theorem exists_text_of_usedBytes {t : KeyTable KeyError} {number column bytes : Nat}
    (h : (t.segments[number]?.bind (·.keys.columns[column]?)).map Column.usedBytes =
      some (bytes + 1)) :
    ∃ keys d, t.keys[number]? = some keys ∧ keys.columns[column]? = some (.text d) ∧
      d.usedBytes = bytes + 1 := by
  obtain ⟨c, hc, hused⟩ := Option.map_eq_some_iff.1 h
  obtain ⟨segment, hsegment, hcolumn⟩ := Option.bind_eq_some_iff.1 hc
  have hkeys : t.keys[number]? = some segment.keys := by
    rw [KeyTable.keys, Array.getElem?_map, hsegment]
    rfl
  cases c with
  | text d => exact ⟨segment.keys, d, hkeys, hcolumn, hused⟩
  | _ => cases hused

/-- The first text of a key whose second one is refused leaves its bytes. -/
theorem usedBytes_of_run_names : ∃ t keys d answers, ∃ written : Nat → Row,
    (KeyTable.fresh tight named.ops {}).run [.put names 1] = .ok (t, answers) ∧
      t.keys[0]? = some keys ∧ keys.columns[0]? = some (.text d) ∧ t.spentIn 0 = [0] ∧
      named.Torn tight [.put names 1] (written 0) ∧ textBytesIn [written 0] 0 = 3 := by
  obtain ⟨t, answers, hrun, hcolumn, hoccupied, hspent⟩ : ∃ t answers,
      (KeyTable.fresh tight named.ops {}).run [.put names 1] = .ok (t, answers) ∧
        (t.segments[0]?.bind (·.keys.columns[0]?)).map Column.usedBytes = some 3 ∧
        t.occupiedIn 0 = [] ∧ t.spentIn 0 = [0] :=
    ⟨_, _, rfl, rfl, rfl, rfl⟩
  obtain ⟨keys, d, hkeys, hd, hused⟩ := exists_text_of_usedBytes hcolumn
  have hcreate := KeyTable.create_eq_ok fault?_tight named.ops
  have hbuild : check named.build [.varchar, .varchar] tight.keyColumns = .ok () := rfl
  have hcalls (input : Block) (row : Nat) (hcall : .put input row ∈ [TableCall.put names 1]) :
      input.WellFormed [.varchar, .varchar] ∧ row < input.length := by
    obtain ⟨rfl, rfl⟩ := TableCall.put.inj (List.mem_singleton.1 hcall)
    exact ⟨wellFormed_names, by decide⟩
  obtain ⟨stored, written, hstored, htorn, hbytes, -⟩ :=
    usedBytes_of_run hcreate hbuild hcalls hrun hkeys hd
  rw [hoccupied] at hstored
  obtain rfl := Except.ok.inj hstored
  rw [hspent] at htorn
  rw [hspent, hused] at hbytes
  refine ⟨t, keys, d, answers, written, hrun, hkeys, hd, hspent, htorn 0 List.mem_cons_self, ?_⟩
  exact (hbytes.trans (Nat.zero_add _)).symm

/-- The bytes of a column are not always those of its keys: the table holds no key, but the first
text of a refused one took three of four bytes, and a key that fits into an empty table is
refused. -/
theorem not_accounted_names : ∃ t t' u,
    (KeyTable.fresh tight named.ops {}).run [.put names 1] =
        .ok (t, [.put (.error (.insertFailed 0 (.column (.overBudget 5 0 4))))]) ∧
      t.size = 0 ∧ ¬t.Accounted 0 0 ∧
      t.put names 0 = .ok (t', .error (.insertFailed 1 (.column (.overBudget 2 3 4)))) ∧
      (KeyTable.fresh tight named.ops {}).put names 0 = .ok (u, .ok (.inserted 0)) := by
  obtain ⟨t, t', u, hrun, hput, hput', hsize, hcolumn, hoccupied⟩ : ∃ t t' u,
      (KeyTable.fresh tight named.ops {}).run [.put names 1] =
          .ok (t, [.put (.error (.insertFailed 0 (.column (.overBudget 5 0 4))))]) ∧
        t.put names 0 = .ok (t', .error (.insertFailed 1 (.column (.overBudget 2 3 4)))) ∧
        (KeyTable.fresh tight named.ops {}).put names 0 = .ok (u, .ok (.inserted 0)) ∧
        t.size = 0 ∧ (t.segments[0]?.bind (·.keys.columns[0]?)).map Column.usedBytes = some 3 ∧
        t.occupiedIn 0 = [] :=
    ⟨_, _, _, rfl, rfl, rfl, rfl, rfl, rfl⟩
  obtain ⟨keys, d, hkeys, hd, hused⟩ := exists_text_of_usedBytes hcolumn
  refine ⟨t, t', u, hrun, hsize, fun haccounted ↦ ?_, hput, hput'⟩
  obtain ⟨stored, hstored, hbytes⟩ := haccounted keys d hkeys hd
  rw [hoccupied] at hstored
  obtain rfl := Except.ok.inj hstored
  cases hused.symm.trans hbytes

end ColumnKeys

end Columnar
