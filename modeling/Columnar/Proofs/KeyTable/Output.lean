import Columnar.Proofs.KeyTable.Effects

/-!
# Writing keys out in portions

Writing keys out goes through the slots that hold keys and were not written out yet, and stops at
the first that does not fit or fails. The table walks indexes and skips those without keys;
`outputAll` is here a recursion on the list of the slots that are left (`Sound.outputAll_eq`), and
what holds of it is proved by induction on that list.

## The cursor and the list

`Tracking` ties the two together: the slots that are left are those behind the ones that were
written out. It holds of a new table and is kept by whatever is called between two portions.

* A key that is stored between calls is left to be written out, since its slot is the last
  (`Tracking.used`).
* Keys that are written out are no longer left (`Tracking.wrote`). A call that fails half way leaves
  the slot at which it stopped, **so its key is written again by the next call**.
* Telling the table to start again leaves all slots, without a look at what was written.

`emitSlots_spec` says how far a call goes by what it answers: through all slots, or up to the one
that did not fit or failed. It needs nothing about keys read from columns, and holds of any
operations.
-/

namespace Columnar.KeyTable

variable {ε : Type} {t t' : KeyTable ε}

/-- The slots from `start` on that hold keys, in order. -/
def slotsFrom (t : KeyTable ε) (start : Nat) : List Nat :=
  (List.range' start (t.freeIndex - start)).filter fun index ↦ (t.hash? index).isSome

/-- The slots that hold keys, in order. -/
def slots (t : KeyTable ε) : List Nat := t.slotsFrom 0

/-- The slots whose keys were not written out yet. -/
def remaining (t : KeyTable ε) : List Nat := t.slotsFrom t.outputCursor

/-- Write the key in a slot into a row of an output. -/
def emitAt (t : KeyTable ε) (index : Nat) (output : Block) (row : Nat) :
    Checked (Block × Except ε Bool) := do
  t.ops.emit (← t.keysAt index) (t.layout.split index).offset output row

/-- Write the keys in some slots out, and count those that were written. -/
def emitSlots (t : KeyTable ε) :
    List Nat → Block → Nat → Checked (Nat × Block × Except (TableError ε) Bool)
  | [], output, _ => return (0, output, .ok true)
  | index :: slots, output, row => do
    let (output, result) ← t.emitAt index output row
    match result with
    | .error cause => return (0, output, .error (.outputFailed index cause))
    | .ok false => return (0, output, .ok false)
    | .ok true => do
      let (count, output, result) ← t.emitSlots slots output (row + 1)
      return (count + 1, output, result)

/-- The table after `count` more keys were written out. -/
def wrote (t : KeyTable ε) (count : Nat) : KeyTable ε :=
  { t with
    outputCursor := (t.remaining.drop count).headD t.freeIndex
    outputCount := t.outputCount + count }

/-! ### The slots that are left -/

theorem mem_slotsFrom {start index : Nat} :
    index ∈ t.slotsFrom start ↔ start ≤ index ∧ index < t.freeIndex ∧ t.hash? index ≠ none := by
  rw [slotsFrom, List.mem_filter, List.mem_range'_1, Option.isSome_iff_ne_none]
  constructor
  · rintro ⟨⟨hle, hlt⟩, hkey⟩
    exact ⟨hle, by omega, hkey⟩
  · rintro ⟨hle, hlt, hkey⟩
    exact ⟨⟨hle, by omega⟩, hkey⟩

theorem slotsFrom_of_ge {start : Nat} (h : t.freeIndex ≤ start) : t.slotsFrom start = [] := by
  rw [slotsFrom, Nat.sub_eq_zero_of_le h]
  rfl

theorem slotsFrom_of_lt {start : Nat} (h : start < t.freeIndex) :
    t.slotsFrom start =
      if t.hash? start = none then t.slotsFrom (start + 1)
      else start :: t.slotsFrom (start + 1) := by
  have hcount : t.freeIndex - start = t.freeIndex - (start + 1) + 1 := by omega
  rw [slotsFrom, hcount, List.range'_succ, slotsFrom]
  cases hhash : t.hash? start <;> simp [hhash]

theorem pairwise_slotsFrom (t : KeyTable ε) (start : Nat) : (t.slotsFrom start).Pairwise (· < ·) :=
  List.Pairwise.filter _ List.pairwise_lt_range'

/-- The slots that hold keys are the occupied ones. -/
theorem Sound.mem_slots (h : t.Sound) {index : Nat} : index ∈ t.slots ↔ t.hash? index ≠ none := by
  rw [slots, mem_slotsFrom]
  exact ⟨fun hindex ↦ hindex.2.2, fun hkey ↦ ⟨Nat.zero_le _, lt_freeIndex_of_hash? h hkey, hkey⟩⟩

theorem Sound.length_slots (h : t.Sound) : t.slots.length = t.entries := by
  rw [h.entries_eq, List.countP_eq_length_filter, List.range_eq_range']
  rfl

/-- What is left from a slot on, if the slots before it are passed over. -/
theorem slotsFrom_of_mem {start index : Nat} {before after : List Nat}
    (h : t.slotsFrom start = before ++ index :: after) : t.slotsFrom index = index :: after := by
  obtain ⟨hle, hlt, -⟩ := mem_slotsFrom.1 (h ▸ List.mem_append_right _ List.mem_cons_self)
  obtain ⟨count, rfl⟩ := Nat.exists_eq_add_of_le hle
  have hcount : t.freeIndex - start = count + (t.freeIndex - (start + count)) := by omega
  have hfilter : (t.slotsFrom start).filter (start + count ≤ ·) = t.slotsFrom (start + count) := by
    rw [slotsFrom, hcount, ← List.range'_append_1,
      List.filter_append, List.filter_append, slotsFrom,
      List.filter_eq_nil_iff.2, List.nil_append, List.filter_eq_self]
    · intro i hi
      exact decide_eq_true (List.mem_range'_1.1 (List.mem_of_mem_filter hi)).1
    · intro i hi
      have := (List.mem_range'_1.1 (List.mem_of_mem_filter hi)).2
      simp only [decide_eq_true_eq, Nat.not_le]
      omega
  -- the slots ascend, so those from the slot on are the slot and those behind it
  have hpairwise := pairwise_slotsFrom t start
  rw [h, List.pairwise_append, List.pairwise_cons] at hpairwise
  rw [← hfilter, h, List.filter_append, List.filter_eq_nil_iff.2, List.nil_append,
    List.filter_eq_self]
  · intro i hi
    rcases List.mem_cons.1 hi with rfl | hi
    · exact decide_eq_true (Nat.le_refl _)
    · exact decide_eq_true (Nat.le_of_lt (hpairwise.2.1.1 i hi))
  · intro i hi
    have := hpairwise.2.2 i hi _ List.mem_cons_self
    simpa using this

/-- After a slot was used up there is one more that holds a key, or none. -/
theorem Used.slotsFrom_eq {keys : Block} {hash : Option UInt32} (h : t.Used keys hash t')
    {start : Nat} (hstart : start ≤ t.freeIndex) :
    t'.slotsFrom start = t.slotsFrom start ++ if hash.isSome then [t.freeIndex] else [] := by
  obtain ⟨count, hcount⟩ := Nat.exists_eq_add_of_le hstart
  have hbefore : (List.range' start count).filter (fun index ↦ (t'.hash? index).isSome) =
      (List.range' start count).filter fun index ↦ (t.hash? index).isSome := by
    refine List.filter_congr fun index hindex ↦ ?_
    have hlt := (List.mem_range'_1.1 hindex).2
    rw [h.hash?_eq, if_neg (by omega)]
  have hlast : t'.hash? (start + count) = hash := by rw [h.hash?_eq, if_pos hcount]
  rw [slotsFrom, slotsFrom, h.freeIndex_eq, hcount, Nat.add_sub_cancel_left, Nat.add_assoc,
    Nat.add_sub_cancel_left, List.range'_1_concat, List.filter_append, hbefore,
    List.filter_singleton, hlast, cond_eq_ite]

theorem Used.slots_eq {keys : Block} {hash : Option UInt32} (h : t.Used keys hash t') :
    t'.slots = t.slots ++ if hash.isSome then [t.freeIndex] else [] :=
  h.slotsFrom_eq (Nat.zero_le _)

/-! ### One call -/

theorem emitSlots_congr {slots : List Nat}
    (h : ∀ index ∈ slots, ∀ output row, t'.emitAt index output row = t.emitAt index output row)
    (output : Block) (row : Nat) :
    t'.emitSlots slots output row = t.emitSlots slots output row := by
  induction slots generalizing output row with
  | nil => rfl
  | cons index slots ih =>
    have hrest := ih fun i hi ↦ h i (List.mem_cons_of_mem _ hi)
    simp only [emitSlots, h index List.mem_cons_self, hrest]

theorem wrote_zero (h : t.remaining.headD t.freeIndex = t.outputCursor) : t.wrote 0 = t := by
  rw [wrote, List.drop_zero, h]
  rfl

/-- Writing out the next indexes writes out the slots among them that hold keys. -/
theorem Sound.outputNext_eq (h : t.Sound) (count : Nat)
    (hcount : t.outputCursor + count = t.freeIndex) (output : Block) (row : Nat) :
    KeyTable.outputNext count t output row = (do
      let (written, output, result) ← t.emitSlots t.remaining output row
      return (t.wrote written, output, result)) := by
  induction count generalizing t output row with
  | zero =>
    have hnil : t.remaining = [] := slotsFrom_of_ge (Nat.le_of_eq hcount.symm)
    have hwrote : t.wrote 0 = t := wrote_zero (by rw [hnil]; exact hcount.symm)
    rw [hnil]
    simp only [emitSlots, Checked.pure_eq_ok, Checked.ok_bind, hwrote]
    rfl
  | succ count ih =>
    have hlt : t.outputCursor < t.freeIndex := by omega
    have hslots := slotsFrom_of_lt hlt
    have hbehind : t.outputCursor + 1 + count = t.freeIndex := by omega
    -- with the cursor behind the slot, the slots behind it are left
    have hnext (written : Nat) (output : Block) (row : Nat) :
        KeyTable.outputNext count
          { t with outputCursor := t.outputCursor + 1, outputCount := written } output row = (do
            let (more, output, result) ←
              t.emitSlots (t.slotsFrom (t.outputCursor + 1)) output row
            return ({ t with
              outputCursor := ((t.slotsFrom (t.outputCursor + 1)).drop more).headD t.freeIndex
              outputCount := written + more }, output, result)) := by
      have hsame : ({ t with
          outputCursor := t.outputCursor + 1
          outputCount := written } : KeyTable ε).emitSlots
          (t.slotsFrom (t.outputCursor + 1)) output row =
            t.emitSlots (t.slotsFrom (t.outputCursor + 1)) output row := by
        refine emitSlots_congr ?_ output row
        intro _ _ _ _
        rfl
      rw [ih (t := { t with outputCursor := t.outputCursor + 1, outputCount := written })
        (h.congr rfl rfl rfl rfl rfl) hbehind, ← hsame]
      rfl
    by_cases hkey : t.hash? t.outputCursor = none
    · rw [if_pos hkey] at hslots
      rw [h.outputNext_of_spent hlt hkey, hnext t.outputCount, ← hslots]
      rfl
    · rw [if_neg hkey] at hslots
      obtain ⟨keys, hkeys⟩ := exists_keysAt hkey
      obtain ⟨segment, hsegment, rfl⟩ := keysAt_eq_ok_iff.1 hkeys
      have hwrote : t.wrote 0 = t := wrote_zero (by rw [remaining, hslots]; rfl)
      have hemit : t.emitAt t.outputCursor output row =
          t.ops.emit segment.keys (t.layout.split t.outputCursor).offset output row := by
        rw [emitAt, hkeys, Checked.ok_bind]
      rw [outputNext_of_key hkey hsegment, remaining, hslots, emitSlots, hemit]
      cases t.ops.emit segment.keys (t.layout.split t.outputCursor).offset output row with
      | error trap => rfl
      | ok emitted =>
        obtain ⟨output', _ | _ | _⟩ := emitted
        · simp only [Checked.ok_bind, Checked.pure_eq_ok, hwrote]
        · simp only [Checked.ok_bind, Checked.pure_eq_ok, hwrote]
        · simp only [Checked.ok_bind, hnext]
          cases t.emitSlots (t.slotsFrom (t.outputCursor + 1)) output' (row + 1) with
          | error trap => rfl
          | ok rest =>
            obtain ⟨more, output'', result⟩ := rest
            simp only [Checked.ok_bind, Checked.pure_eq_ok, wrote, remaining, hslots,
              List.drop_succ_cons, Nat.add_right_comm _ 1, Nat.add_assoc]

/-- A call writes out the slots that are left. -/
theorem Sound.outputAll_eq (h : t.Sound) (hcursor : t.outputCursor ≤ t.freeIndex) (output : Block) :
    t.outputAll output = (do
      let (written, output, result) ← t.emitSlots t.remaining output output.length
      return (t.wrote written, output, result)) :=
  h.outputNext_eq _ (Nat.add_sub_cancel' hcursor) output output.length

theorem outputCursor_wrote_le (t : KeyTable ε) (count : Nat) :
    (t.wrote count).outputCursor ≤ t.freeIndex := by
  show (t.remaining.drop count).headD t.freeIndex ≤ t.freeIndex
  cases hrest : t.remaining.drop count with
  | nil => exact Nat.le_refl _
  | cons index after =>
    have hmem : index ∈ t.remaining := List.mem_of_mem_drop (hrest ▸ List.mem_cons_self)
    exact Nat.le_of_lt (mem_slotsFrom.1 hmem).2.1

/-- The slots that are left are those behind the ones that were written out. -/
structure Tracking (t : KeyTable ε) : Prop where
  outputCursor_le : t.outputCursor ≤ t.freeIndex
  outputCount_le : t.outputCount ≤ t.slots.length
  remaining_eq : t.remaining = t.slots.drop t.outputCount

namespace Tracking

theorem fresh (config : TableConfig) (ops : KeyOps ε) (metrics : TableMetrics) :
    (KeyTable.fresh config ops metrics).Tracking :=
  ⟨Nat.le_refl 0, Nat.zero_le _, rfl⟩

theorem resetOutput (t : KeyTable ε) : t.resetOutput.Tracking :=
  ⟨Nat.zero_le _, Nat.zero_le _, rfl⟩

theorem counted (h : t.Tracking) (visited : Nat) : (t.counted visited).Tracking :=
  ⟨h.outputCursor_le, h.outputCount_le, h.remaining_eq⟩

/-- A key that is stored between calls is left to be written out. -/
theorem used {keys : Block} {hash : Option UInt32} (h : t.Tracking) (hused : t.Used keys hash t') :
    t'.Tracking := by
  have hslots := hused.slots_eq
  refine ⟨?_, ?_, ?_⟩
  · rw [hused.outputCursor_eq, hused.freeIndex_eq]
    exact Nat.le_succ_of_le h.outputCursor_le
  · rw [hused.outputCount_eq, hslots, List.length_append]
    exact Nat.le_add_right_of_le h.outputCount_le
  · rw [remaining, hused.outputCursor_eq, hused.slotsFrom_eq h.outputCursor_le,
      hused.outputCount_eq,
      hslots, List.drop_append_of_le_length h.outputCount_le]
    exact congrArg (· ++ _) h.remaining_eq

/-- Keys that are written out are no longer left. -/
theorem wrote (h : t.Tracking) {count : Nat} (hcount : count ≤ t.remaining.length) :
    (t.wrote count).Tracking := by
  have hslots : (t.wrote count).slots = t.slots := rfl
  have hlength : t.remaining.length = t.slots.length - t.outputCount := by
    rw [h.remaining_eq, List.length_drop]
  have hdrop : (t.wrote count).remaining = t.remaining.drop count := by
    cases hrest : t.remaining.drop count with
    | nil =>
      have hcursor : (t.wrote count).outputCursor = t.freeIndex := by
        rw [KeyTable.wrote, hrest]
        rfl
      exact slotsFrom_of_ge (Nat.le_of_eq hcursor.symm)
    | cons index after =>
      have hcursor : (t.wrote count).outputCursor = index := by
        rw [KeyTable.wrote, hrest]
        rfl
      have hsplit : t.slotsFrom t.outputCursor = t.remaining.take count ++ index :: after := by
        rw [← hrest, List.take_append_drop]
        rfl
      rw [remaining, hcursor]
      exact slotsFrom_of_mem hsplit
  refine ⟨outputCursor_wrote_le t count, ?_, ?_⟩
  · rw [hslots]
    show t.outputCount + count ≤ t.slots.length
    have := h.outputCount_le
    omega
  · rw [hdrop, hslots, h.remaining_eq, List.drop_drop]
    rfl

end Tracking

/-- What writing the keys in some slots out gives says how many of them were written: all of them,
or those before the one that did not fit or failed. -/
theorem emitSlots_spec {slots : List Nat} {output output' : Block} {row count : Nat}
    {result : Except (TableError ε) Bool}
    (h : t.emitSlots slots output row = .ok (count, output', result)) :
    match result with
    | .ok true => count = slots.length
    | .ok false => count < slots.length
    | .error refusal => ∃ index cause, slots[count]? = some index ∧
        refusal = .outputFailed index cause := by
  induction slots generalizing output output' row count result with
  | nil =>
    obtain ⟨rfl, hrest⟩ := Prod.mk.inj (Except.ok.inj h)
    obtain ⟨-, rfl⟩ := Prod.mk.inj hrest
    rfl
  | cons index slots ih =>
    obtain ⟨⟨emitted, outcome⟩, -, h⟩ := exists_of_bind_eq_ok h
    rcases outcome with cause | _ | _
    · obtain ⟨rfl, hrest⟩ := Prod.mk.inj (Except.ok.inj h)
      obtain ⟨-, rfl⟩ := Prod.mk.inj hrest
      exact ⟨index, cause, rfl, rfl⟩
    · obtain ⟨rfl, hrest⟩ := Prod.mk.inj (Except.ok.inj h)
      obtain ⟨-, rfl⟩ := Prod.mk.inj hrest
      exact Nat.succ_pos _
    · obtain ⟨⟨more, output'', result'⟩, hmore, h⟩ := exists_of_bind_eq_ok h
      obtain ⟨rfl, hrest⟩ := Prod.mk.inj (Except.ok.inj h)
      obtain ⟨-, rfl⟩ := Prod.mk.inj hrest
      have hspec := ih hmore
      rcases result' with refusal | _ | _
      · exact hspec
      · exact Nat.succ_lt_succ hspec
      · exact congrArg (· + 1) hspec

/-- No more keys are written out than there are slots. -/
theorem count_le_of_emitSlots {slots : List Nat} {output output' : Block} {row count : Nat}
    {result : Except (TableError ε) Bool}
    (h : t.emitSlots slots output row = .ok (count, output', result)) : count ≤ slots.length := by
  have hspec := emitSlots_spec h
  rcases result with refusal | _ | _
  · obtain ⟨index, -, hindex, -⟩ := hspec
    exact Nat.le_of_lt (List.getElem?_eq_some_iff.1 hindex).1
  · exact Nat.le_of_lt hspec
  · exact Nat.le_of_eq hspec

end Columnar.KeyTable
