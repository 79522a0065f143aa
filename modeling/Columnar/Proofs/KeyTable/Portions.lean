import Columnar.Proofs.KeyTable.Content
import Columnar.Proofs.KeyTable.Reachable

/-!
# Keys written out in portions

Whatever the outputs can take, and whatever is put between the calls, the rows that `outputAll`
appends from call to call are the keys of the occupied slots in order (`portions_of_run`).

## Published rows

One call appends the keys of the next slots (`Appended`), also if it fails half way through a row: a
row that is not published is no row, and its key is written again. So **what an output holds is read
up to its length**, and the columns of the row behind it may have anything in them. An output may
lead with the columns of the keys and go on with others, of which nothing is said here.

## What was appended, read off the table

The table counts the keys that were written out, so what was appended so far is the list of the
first so many keys (`writtenKeys`). Nothing has to be remembered about the outputs:

* a put leaves the list alone, since it stores behind all slots (`writtenKeys_put`);
* a call adds to the list what it appends, and says by its answer where it stopped (`StopsAt`);
* resetting and clearing empty it.

`portions_of_run` adds this up over a run. Its outputs only have to have columns of one size in
themselves (`Writable`), and a row that can not be read is the only reason for a run to be abandoned
(`Unreadable`).
-/

namespace Columnar

namespace Block

/-- Read the leading values of a row. -/
def leading (b : Block) (width index : Nat) : Checked Row :=
  (b.columns.take width).mapM (·.get index)

/-- Read the leading values of the published rows from a row on. -/
def leadingFrom (b : Block) (width start : Nat) : Checked (List Row) :=
  (List.range' start (b.length - start)).mapM (b.leading width)

end Block

/-- The keys that were written out. -/
def KeyTable.writtenKeys {ε : Type} (t : KeyTable ε) : Checked (List Row) :=
  (t.slots.take t.outputCount).mapM t.stored

namespace ColumnKeys

variable {k : ColumnKeys} {config : TableConfig} {t t' : KeyTable KeyError} {width : Nat}
  {output output' output'' : Block} {key : Row} {keys keys' : List Row}

/-! ### One call -/

/-- An output with rows appended that lead with these keys. -/
structure Appended (width : Nat) (keys : List Row) (output output' : Block) : Prop where
  aligned : ∀ c ∈ output'.columns, c.Aligned
  length_eq : output'.length = output.length + keys.length
  width_eq : output'.width = output.width
  capacity_eq : output'.capacity = output.capacity
  leading_eq : ∀ index < output.length, output'.leading width index = output.leading width index
  leadingFrom_eq : output'.leadingFrom width output.length = .ok keys

namespace Appended

/-- A row that is not published is not appended. -/
theorem of_rewritten {columns : List Column}
    (h : List.Forall₂ (Column.RewrittenAt output.length) output.columns columns) :
    Appended width [] output { output with columns := columns } where
  aligned := by
    intro c hc
    obtain ⟨i, hi, rfl⟩ := List.getElem_of_mem hc
    exact (h.get (h.length_eq ▸ hi) hi).aligned
  length_eq := rfl
  width_eq := h.length_eq.symm
  capacity_eq := Block.capacity_of_rewritten h
  leading_eq index hindex :=
    Column.mapM_get_rewritten (List.forall₂_take width h) (Nat.ne_of_lt hindex)
  leadingFrom_eq := by
    rw [Block.leadingFrom, Nat.sub_self]
    rfl

/-- A row that is written and published is appended. -/
theorem of_written {columns : List Column} (hroom : output.length < output.capacity)
    (h : List.Forall₂ (Column.RewrittenAt output.length) output.columns columns)
    (hread : (columns.take width).mapM (·.get output.length) = .ok key) :
    Appended width [key] output { columns := columns, length := output.length + 1 } where
  aligned := by
    have hsame : Appended width [] output { output with columns := columns } := of_rewritten h
    exact hsame.aligned
  length_eq := rfl
  width_eq := h.length_eq.symm
  capacity_eq := by
    -- there is room only in a column
    simp only [Block.capacity] at hroom ⊢
    generalize output.columns = old at h hroom
    cases h with
    | nil => exact absurd hroom (Nat.lt_irrefl _)
    | cons hc _ => exact hc.size_eq
  leading_eq := (of_rewritten h).leading_eq
  leadingFrom_eq := by
    rw [Block.leadingFrom, Nat.add_sub_cancel_left]
    exact Checked.mapM_eq_ok_iff.2 (.cons hread .nil)

/-- Rows that are appended behind others. -/
theorem trans (h : Appended width keys output output')
    (h' : Appended width keys' output' output'') :
    Appended width (keys ++ keys') output output'' where
  aligned := h'.aligned
  length_eq := by
    rw [h'.length_eq, h.length_eq, List.length_append, Nat.add_assoc]
  width_eq := h'.width_eq.trans h.width_eq
  capacity_eq := h'.capacity_eq.trans h.capacity_eq
  leading_eq index hindex := by
    rw [h'.leading_eq index (h.length_eq ▸ Nat.lt_add_right _ hindex), h.leading_eq index hindex]
  leadingFrom_eq := by
    have hbefore := h.leadingFrom_eq
    have hbehind := h'.leadingFrom_eq
    rw [Block.leadingFrom, h.length_eq, Nat.add_sub_cancel_left] at hbefore
    rw [Block.leadingFrom, h'.length_eq, Nat.add_sub_cancel_left, h.length_eq] at hbehind
    rw [Block.leadingFrom, h'.length_eq, h.length_eq, Nat.add_assoc, Nat.add_sub_cancel_left,
      ← List.range'_append_1]
    refine Checked.mapM_append_eq_ok ?_ hbehind
    rw [← hbefore]
    refine Checked.mapM_congr fun index hindex ↦ h'.leading_eq index ?_
    rw [h.length_eq]
    exact (List.mem_range'_1.1 hindex).2

end Appended

/-- Writing the keys in some slots out appends those of the first of them. -/
theorem Table.emitSlots (h : k.Table config t) {slots : List Nat}
    (hstored : slots.mapM t.stored = .ok keys) (hwidth : ∀ key ∈ keys, key.length = width)
    (haligned : ∀ c ∈ output.columns, c.Aligned) : ∃ count output' result,
      t.emitSlots slots output output.length = .ok (count, output', result) ∧
        Appended width (keys.take count) output output' ∧
        (result = .ok false → output'.capacity ≤ output'.length) := by
  rw [Checked.mapM_eq_ok_iff] at hstored
  induction hstored generalizing output with
  | nil =>
    have hsame : Appended width [] output output :=
      .of_rewritten (List.forall₂_same.2 fun c hc ↦ (haligned c hc).rewrittenAt _)
    exact ⟨0, output, .ok true, rfl, hsame, fun hresult ↦ by cases hresult⟩
  | @cons index key slots keys hkey _ ih =>
    have hlength : key.length = width := hwidth key List.mem_cons_self
    obtain ⟨block, outcome, -, hrow, houtcome, hemission⟩ := h.emitAt hkey haligned
    have hsame : Appended width [] output output :=
      .of_rewritten (List.forall₂_same.2 fun c hc ↦ (haligned c hc).rewrittenAt _)
    cases hemission with
    | narrow =>
      refine ⟨0, output, .error (.outputFailed index (.narrowOutput block.width output.width)), ?_,
        hsame, fun hresult ↦ by cases hresult⟩
      rw [KeyTable.emitSlots, houtcome]
      rfl
    | full hfull =>
      refine ⟨0, output, .ok false, ?_, hsame, fun _ ↦ hfull⟩
      rw [KeyTable.emitSlots, houtcome]
      rfl
    | @refused columns refusal hcopied =>
      refine ⟨0, { output with columns := columns }, .error (.outputFailed index (.column refusal)),
        ?_, .of_rewritten (hcopied.rewritten haligned), fun hresult ↦ by cases hresult⟩
      rw [KeyTable.emitSlots, houtcome]
      rfl
    | @written columns hwide hroom hcopied =>
      have hread := hcopied.mapM_get_eq haligned (reads_of_mapM_get hrow)
        (Block.length_row hrow ▸ hwide)
      rw [hlength] at hread
      have hhere := Appended.of_written hroom (hcopied.rewritten haligned) hread
      obtain ⟨count, output', result, hrest, happended, hfull⟩ :=
        ih (fun key hmem ↦ hwidth key (List.mem_cons_of_mem _ hmem)) hhere.aligned
      refine ⟨count + 1, output', result, ?_, hhere.trans happended, hfull⟩
      rw [KeyTable.emitSlots, houtcome, Checked.ok_bind]
      simp only [hrest]
      rfl

/-- The slot whose key a call did not write out, if it left any. -/
def StopsAt (t : KeyTable KeyError) (output : Block) : Except (TableError KeyError) Bool → Prop
  | .ok true => t.outputCount = t.size
  | .ok false => output.capacity ≤ output.length ∧ ∃ index, t.slots[t.outputCount]? = some index
  | .error refusal => ∃ index cause, refusal = .outputFailed index cause ∧
      t.slots[t.outputCount]? = some index

namespace Table

theorem exists_keys (h : k.Table config t) {slots : List Nat}
    (hslots : ∀ index ∈ slots, t.hash? index ≠ none) : ∃ keys, slots.mapM t.stored = .ok keys ∧
      ∀ key ∈ keys, key.length = config.keyTypes.length := by
  obtain ⟨keys, hkeys⟩ := Checked.exists_mapM_eq_ok fun index hindex ↦
    (h.exists_stored (hslots index hindex)).imp fun _ ↦ And.left
  refine ⟨keys, hkeys, fun key hkey ↦ ?_⟩
  obtain ⟨i, hi, rfl⟩ := List.getElem_of_mem hkey
  have hall := Checked.mapM_eq_ok_iff.1 hkeys
  have hi' : i < slots.length := hall.length_eq ▸ hi
  obtain ⟨stored, hstored, hlength⟩ := h.exists_stored (hslots _ (List.getElem_mem hi'))
  obtain rfl := Except.ok.inj (hstored.symm.trans (hall.get hi' hi))
  exact hlength

/-- A call appends the keys that follow those that were written out. -/
theorem outputAll (h : k.Table config t) (hkeys : t.writtenKeys = .ok keys)
    (haligned : ∀ c ∈ output.columns, c.Aligned) : ∃ count output' result keys',
      t.outputAll output = .ok (t.wrote count, output', result) ∧ k.Table config (t.wrote count) ∧
        Appended config.keyTypes.length keys' output output' ∧
        (t.wrote count).writtenKeys = .ok (keys ++ keys') ∧
        StopsAt (t.wrote count) output' result := by
  have hremaining (index : Nat) (hindex : index ∈ t.remaining) : t.hash? index ≠ none :=
    (KeyTable.mem_slotsFrom.1 hindex).2.2
  obtain ⟨left, hleft, hwidth⟩ := h.exists_keys hremaining
  obtain ⟨count, output', result, hemit, happended, hfull⟩ := h.emitSlots hleft hwidth haligned
  have hspec := KeyTable.emitSlots_spec hemit
  have hslots : t.slots.drop t.outputCount = t.remaining := h.tracking.remaining_eq.symm
  have hcount : count ≤ t.remaining.length := KeyTable.count_le_of_emitSlots hemit
  refine ⟨count, output', result, left.take count, ?_, h.wrote hcount, happended, ?_, ?_⟩
  · rw [h.sound.outputAll_eq h.tracking.outputCursor_le, hemit]
    rfl
  · have htake : t.slots.take (t.outputCount + count) =
        t.slots.take t.outputCount ++ t.remaining.take count := by
      rw [List.take_add, hslots]
    show (t.slots.take (t.outputCount + count)).mapM t.stored = _
    rw [htake]
    exact Checked.mapM_append_eq_ok hkeys
      (Checked.mapM_eq_ok_iff.2 (List.forall₂_take count (Checked.mapM_eq_ok_iff.1 hleft)))
  · have hnext : t.slots[t.outputCount + count]? = t.remaining[count]? := by
      rw [← hslots, List.getElem?_drop]
    have hsize : t.outputCount + t.remaining.length = t.size := by
      have hle := h.tracking.outputCount_le
      rw [← hslots, List.length_drop, Nat.add_sub_cancel' hle]
      exact h.sound.length_slots
    rcases result with refusal | _ | _
    · obtain ⟨index, cause, hindex, hrefusal⟩ := hspec
      exact ⟨index, cause, hrefusal, hnext.trans hindex⟩
    · exact ⟨hfull rfl, _, hnext.trans (List.getElem?_eq_getElem hspec)⟩
    · exact (congrArg (t.outputCount + ·) hspec).trans hsize

/-- The keys that were written out stay so, whatever is put between the calls. -/
theorem writtenKeys_put (h : k.Table config t) {hash : UInt32} {input : Block} {row : Nat}
    {outcome : KeyTable KeyError × Except (TableError KeyError) PutStatus}
    (heffect : KeyTable.PutEffect t hash input row outcome) :
    outcome.1.writtenKeys = t.writtenKeys := by
  -- a slot that is used up comes behind those that hold keys
  have hused {visited : Nat} {keys : Block} {used : Option UInt32} {t' : KeyTable KeyError}
      {result : Except KeyError Unit}
      (hstore : t.ops.store input row t.nextKeys (t.layout.split t.freeIndex).offset =
        .ok (keys, result)) (hused : (t.counted visited).Used keys used t') :
      t'.writtenKeys = t.writtenKeys := by
    have hused := hused.of_counted
    rw [KeyTable.writtenKeys, hused.slots_eq, hused.outputCount_eq,
      List.take_append_of_le_length h.tracking.outputCount_le]
    refine Checked.mapM_congr fun index hindex ↦ ?_
    have hkey := (KeyTable.mem_slotsFrom.1 (List.mem_of_mem_take hindex)).2.2
    exact hused.stored_eq h.sound (h.rewritten hstore) hkey
  cases heffect with
  | present => rfl
  | new _ hattempt =>
    cases hattempt with
    | exhausted => rfl
    | spent _ hstore hspent => exact hused hstore hspent
    | stored _ hstore hstored => exact hused hstore hstored

end Table

/-! ### Histories -/

/-- What was appended after a call that was answered, if `keys` were appended before it since the
output was reset. -/
def appendedBy {ε : Type} (width : Nat) (keys : List Row) :
    TableCall × TableAnswer ε → Checked (List Row)
  | (.outputAll output, .written output' _) =>
    return keys ++ (← output'.leadingFrom width output.length)
  | (.resetOutput, _) => return []
  | (.clear, _) => return []
  | _ => return keys

/-- A trap of a call with a row that can not be read. -/
def Unreadable (k : ColumnKeys) (trap : Trap) : TableCall → Prop
  | .put input row => keyAt k.build input row = .error trap
  | .lookUp input row => keyAt k.build input row = .error trap
  | .probe probe row => keyAt k.probe probe row = .error trap
  | _ => False

/-- Outputs whose columns are as they should be. -/
def Writable : TableCall → Prop
  | .outputAll output => ∀ c ∈ output.columns, c.Aligned
  | _ => True

namespace Table

/-- A call appends to the keys that were written out, and a table is reset or cleared as a whole. -/
theorem call (h : k.Table config t) (hkeys : t.writtenKeys = .ok keys) (call : TableCall)
    (hcall : Writable call) :
    (t.call call).Sat (k.Unreadable · call) fun (t', answer) ↦ k.Table config t' ∧
      ∃ keys', t'.writtenKeys = .ok keys' ∧
        appendedBy config.keyTypes.length keys (call, answer) = .ok keys' := by
  cases call with
  | put input row =>
    refine (h.put input row).bind fun (t', result) _ ⟨ht', key, _, heffect⟩ ↦ ?_
    exact ⟨ht', keys, (h.writtenKeys_put heffect).trans hkeys, rfl⟩
  | lookUp input row => exact (h.index? input row).bind fun _ _ _ ↦ ⟨h, keys, hkeys, rfl⟩
  | probe probe row => exact (h.probeIndex? probe row).bind fun _ _ _ ↦ ⟨h, keys, hkeys, rfl⟩
  | outputAll output =>
    obtain ⟨count, output', result, keys', houtput, ht', happended, hwritten, -⟩ :=
      h.outputAll hkeys hcall
    rw [KeyTable.call, houtput]
    refine ⟨ht', keys ++ keys', hwritten, ?_⟩
    rw [appendedBy, happended.leadingFrom_eq]
    rfl
  | resetOutput => exact ⟨h.resetOutput, [], rfl, rfl⟩
  | clear => exact ⟨h.clear, [], rfl, rfl⟩

/-- Calls append to the keys that were written out. -/
theorem run (h : k.Table config t) (hkeys : t.writtenKeys = .ok keys) (calls : List TableCall)
    (hcalls : ∀ call ∈ calls, Writable call) :
    (t.run calls).Sat (fun trap ↦ ∃ call ∈ calls, k.Unreadable trap call) fun (t', answers) ↦
      k.Table config t' ∧ ∃ keys', t'.writtenKeys = .ok keys' ∧
        (calls.zip answers).foldlM (appendedBy config.keyTypes.length) keys = .ok keys' := by
  induction calls generalizing t keys with
  | nil => exact ⟨h, keys, hkeys, rfl⟩
  | cons call calls ih =>
    have hhere := h.call hkeys call (hcalls call List.mem_cons_self)
    refine (hhere.mono (fun trap htrap ↦ ⟨call, List.mem_cons_self, htrap⟩) fun _ ↦ id).bind ?_
    rintro ⟨t', answer⟩ - ⟨ht', keys', hkeys', happended⟩
    have hrest := ih ht' hkeys' fun call hcall ↦ hcalls call (List.mem_cons_of_mem _ hcall)
    refine (hrest.mono (fun trap ⟨call, hcall, htrap⟩ ↦
      ⟨call, List.mem_cons_of_mem _ hcall, htrap⟩) fun _ ↦ id).bind ?_
    rintro ⟨t'', answers⟩ - ⟨ht'', keys'', hkeys'', happended'⟩
    refine ⟨ht'', keys'', hkeys'', ?_⟩
    rw [List.zip_cons_cons, List.foldlM_cons, happended]
    exact happended'

end Table

/-- The keys of the rows of one column, which all have the hash zero. -/
def numbered : ColumnKeys := ⟨[0], [0], .equal, fun _ ↦ 0⟩

/-- Keys written out to an output of one row, to one that refuses them, and to one of three rows,
with a key put in between. -/
def portionCalls : List TableCall :=
  [.put repeated 0, .put repeated 1, .outputAll (.ofTypes [.integer] 1), .put repeated 2,
    .outputAll (.ofTypes [.varchar] 3), .outputAll (.ofTypes [.integer] 3)]

theorem writable_portionCalls : ∀ call ∈ portionCalls, Writable call := by
  have hempty (types : List DataType) (capacity : Nat) :
      Writable (.outputAll (.ofTypes types capacity)) := Block.aligned_ofTypes types capacity
  intro call hcall
  simp only [portionCalls, List.mem_cons, List.not_mem_nil, or_false] at hcall
  rcases hcall with rfl | rfl | rfl | rfl | rfl | rfl
  · trivial
  · trivial
  · exact hempty _ _
  · trivial
  · exact hempty _ _
  · exact hempty _ _

/-- The rows that a table appends to outputs, since it was created, cleared or told to start again,
are the keys of the occupied slots in order, as many as it counts; and each call appends those that
come next, up to the one that does not fit or fails. A history is cut short only by a row that can
not be read. -/
theorem portions_of_run {t₀ : KeyTable KeyError} (h : KeyTable.create config k.ops = .ok t₀)
    {calls : List TableCall} (hcalls : ∀ call ∈ calls, Writable call) :
    (t₀.run calls).Sat (fun trap ↦ ∃ call ∈ calls, k.Unreadable trap call) fun (t, answers) ↦
      t.slots.Pairwise (· < ·) ∧ (∀ index, index ∈ t.slots ↔ t.Occupied index) ∧
        t.slots.length = t.size ∧ t.outputCount ≤ t.size ∧
        (∃ keys, (t.slots.take t.outputCount).mapM t.stored = .ok keys ∧
          (calls.zip answers).foldlM (appendedBy config.keyTypes.length) [] = .ok keys) ∧
        ∀ output, Writable (.outputAll output) → ∃ t' output' result,
          t.outputAll output = .ok (t', output', result) ∧ t'.slots = t.slots ∧
            StopsAt t' output' result := by
  have hkept := KeyTable.kept_of_create_eq_ok h
  obtain rfl := KeyTable.eq_fresh_of_create_eq_ok h
  have htable : k.Table config (.fresh config k.ops {}) := table_fresh hkept.sane k {}
  have hempty : (KeyTable.fresh config k.ops {}).writtenKeys = .ok [] := rfl
  refine (htable.run hempty calls hcalls).mono (fun _ ↦ id) ?_
  rintro ⟨t, answers⟩ ⟨ht, keys, hkeys, happended⟩
  refine ⟨KeyTable.pairwise_slotsFrom t 0, fun index ↦ ?_, ht.sound.length_slots,
    Nat.le_trans ht.tracking.outputCount_le (Nat.le_of_eq ht.sound.length_slots),
    ⟨keys, hkeys, happended⟩, ?_⟩
  · rw [ht.sound.mem_slots, KeyTable.hash?_ne_none_iff, ht.sound.toSegmented.occupied_iff]
  · intro output houtput
    obtain ⟨count, output', result, -, hcall, -, -, -, hstops⟩ := ht.outputAll hkeys houtput
    exact ⟨t.wrote count, output', result, hcall, rfl, hstops⟩

/-- A table that appended all its keys, with an output that refused them in between. -/
theorem portions_of_run_numbered : ∃ t answers,
    (KeyTable.fresh KeyTable.cramped numbered.ops {}).run portionCalls = .ok (t, answers) ∧
      (portionCalls.zip answers).foldlM (appendedBy 1) [] =
        .ok [[some (.int32 5)], [none], [some (.int32 7)]] ∧
      t.slots.mapM t.stored = .ok [[some (.int32 5)], [none], [some (.int32 7)]] := by
  obtain ⟨t, answers, hrun, hcount, hslots, happended⟩ : ∃ t answers,
      (KeyTable.fresh KeyTable.cramped numbered.ops {}).run portionCalls = .ok (t, answers) ∧
        t.outputCount = 3 ∧ t.slots = [0, 1, 2] ∧
        (portionCalls.zip answers).foldlM (appendedBy 1) [] =
          .ok [[some (.int32 5)], [none], [some (.int32 7)]] :=
    ⟨_, _, rfl, rfl, rfl, rfl⟩
  have hcreate := KeyTable.create_eq_ok KeyTable.fault?_cramped numbered.ops
  have hsat := portions_of_run hcreate writable_portionCalls
  obtain ⟨-, -, -, -, ⟨keys, hkeys, heq⟩, -⟩ := Checked.Sat.of_eq_ok hsat hrun
  obtain rfl := Except.ok.inj (happended.symm.trans heq)
  rw [hcount, hslots] at hkeys
  exact ⟨t, answers, hrun, happended, hslots ▸ hkeys⟩

end ColumnKeys

end Columnar
