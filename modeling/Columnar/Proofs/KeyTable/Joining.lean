import Columnar.Proofs.KeyTable.Logs

/-!
# Looking rows up for a join

If missing values never match, a row that is looked up in the second layout finds the first slot
that a row with the same key was stored in, and nothing if it has a missing value (`joins_of_run`).

## A table in step with a log

A table holds just the keys that puts in a log inserted, each in its own slot (`Joining`). Those
with missing values are there as well, with a slot for each put, but no lookup ever finds them: a
put of such a key does not find it either and takes another slot. So **the number of slots is not
that of different keys**, and the log has to be asked which slots a key was given.

The slots that have a key are those that the log gives for it (`Joining.hasKey_iff`). For a key
without missing values there is one at most, since a second put would have found the first. Among
the slots that a table compares, the first is the first in the log (`isLeast?_insertedIndex?`),
because indexes are given in ascending order.

## What is said of a run

`Joins` is about what a caller sees: what rows of the second layout find, that an index given for a
key with missing values was given to no other put and is found by no lookup, before or after, and
that rows of the two layouts with one key find the same. The lookups between the puts are part of
the run, and their answers part of the statement.
-/

namespace Columnar

namespace PutLog

variable {log : PutLog} {key : Row} {index : Nat}

/-- The index of the first put in a log that inserted a key. -/
def insertedIndex? (log : PutLog) (key : Row) : Option Nat :=
  log.findSome? fun
    | (other, .ok (.inserted index)) => if other = key then some index else none
    | _ => none

theorem mem_newIndexes : index ∈ newIndexes log ↔ ∃ key, (key, .ok (.inserted index)) ∈ log := by
  rw [newIndexes, List.mem_filterMap]
  constructor
  · rintro ⟨⟨key, _ | _ | _⟩, hput, heq⟩
    · cases heq
    · obtain rfl := Option.some.inj heq
      exact ⟨key, hput⟩
    · cases heq
  · rintro ⟨key, hput⟩
    exact ⟨_, hput, rfl⟩

theorem insertedIndex?_cons_inserted (other : Row) (first : Nat) (log : PutLog) (key : Row) :
    insertedIndex? ((other, .ok (.inserted first)) :: log) key =
      if other = key then some first else insertedIndex? log key := by
  rw [insertedIndex?, List.findSome?_cons]
  by_cases hkey : other = key
  · simp only [if_pos hkey]
  · simp only [if_neg hkey]
    rfl

/-- If puts gave ascending indexes, the first one that a key was given is the least. -/
theorem isLeast?_insertedIndex? (h : (newIndexes log).Pairwise (· < ·)) (key : Row) :
    IsLeast? (fun index ↦ (key, .ok (.inserted index)) ∈ log) (insertedIndex? log key) := by
  induction log with
  | nil => exact fun _ ↦ List.not_mem_nil
  | cons put log ih =>
    -- a put that gave this key no new index is passed over
    have hpassed (h : (newIndexes log).Pairwise (· < ·))
        (hput : ∀ index, (key, .ok (.inserted index)) ≠ put) :
        IsLeast? (fun index ↦ (key, .ok (.inserted index)) ∈ put :: log)
          (insertedIndex? log key) :=
      (ih h).congr fun index ↦ by rw [List.mem_cons, or_iff_right (hput index)]
    obtain ⟨other, _ | first | _⟩ := put
    · exact hpassed h nofun
    · obtain ⟨hlater, hpairwise⟩ := List.pairwise_cons.1 h
      rw [insertedIndex?_cons_inserted]
      split_ifs with hkey
      · refine ⟨hkey ▸ List.mem_cons_self, fun index hindex ↦ ?_⟩
        rcases List.mem_cons.1 hindex with heq | hindex
        · cases heq
          exact Nat.le_refl _
        · exact Nat.le_of_lt (hlater index (mem_newIndexes.2 ⟨key, hindex⟩))
      · exact hpassed hpairwise fun index heq ↦ hkey (Prod.mk.inj heq).1.symm
    · exact hpassed h nofun

end PutLog

namespace ColumnKeys

variable {k : ColumnKeys} {config : TableConfig} {t t' : KeyTable KeyError} {log log' : PutLog}
  {answers : List (TableAnswer KeyError)} {answer : TableAnswer KeyError}
  {types probeTypes : List DataType} {key : Row} {index : Nat}

/-- A table that holds the keys that the puts in a log inserted, and the answers it gave. -/
structure Joining (k : ColumnKeys) (config : TableConfig) (log : PutLog) (t : KeyTable KeyError)
    (answers : List (TableAnswer KeyError)) : Prop extends k.Table config t where
  slots_eq : t.slots = PutLog.newIndexes log
  /-- A slot holds the key that was inserted into it, under its hash. -/
  holds : ∀ {key index}, (key, .ok (.inserted index)) ∈ log →
    t.hash? index = some (foldHash (k.digest key)) ∧ t.stored index = .ok key
  /-- A key that was present had been inserted. -/
  present : ∀ {key index}, (key, .ok (.present index)) ∈ log →
    none ∉ key ∧ (key, .ok (.inserted index)) ∈ log
  /-- A key that was found had been inserted. -/
  found : ∀ {index}, .found (some index) ∈ answers →
    ∃ key, none ∉ key ∧ (key, .ok (.inserted index)) ∈ log

namespace Joining

theorem fresh (h : config.Sane) (k : ColumnKeys) (metrics : TableMetrics) :
    k.Joining config [] (.fresh config k.ops metrics) [] :=
  ⟨table_fresh h k metrics, rfl, nofun, nofun, nofun⟩

theorem pairwise_newIndexes (h : k.Joining config log t answers) :
    (PutLog.newIndexes log).Pairwise (· < ·) :=
  h.slots_eq ▸ KeyTable.pairwise_slotsFrom t 0

/-- A slot has a key just if the key was inserted into it, unless it has missing values. -/
theorem hasKey_iff (h : k.Joining config log t answers) (hnulls : k.nulls = .never)
    (hlength : key.length = config.keyTypes.length) :
    k.HasKey t key index ↔ none ∉ key ∧ (key, .ok (.inserted index)) ∈ log := by
  rw [h.toTable.hasKey_iff hlength, hnulls]
  constructor
  · rintro ⟨hhash, hstored, hmatches⟩
    have hslot : index ∈ t.slots := h.sound.mem_slots.2 (hhash ▸ Option.some_ne_none _)
    rw [h.slots_eq, PutLog.mem_newIndexes] at hslot
    obtain ⟨other, hput⟩ := hslot
    obtain rfl := Except.ok.inj (hstored.symm.trans (h.holds hput).2)
    exact ⟨hmatches.resolve_left nofun, hput⟩
  · rintro ⟨hmatches, hput⟩
    exact ⟨(h.holds hput).1, (h.holds hput).2, .inr hmatches⟩

/-- A lookup finds the slot of the first put that inserted the key. -/
theorem isLeast? (h : k.Joining config log t answers) (hnulls : k.nulls = .never)
    (hlength : key.length = config.keyTypes.length) :
    IsLeast? (k.HasKey t key) (if none ∈ key then none else log.insertedIndex? key) := by
  split_ifs with hmissing
  · exact fun index hkey ↦ ((h.hasKey_iff hnulls hlength).1 hkey).1 hmissing
  · refine (PutLog.isLeast?_insertedIndex? h.pairwise_newIndexes key).congr fun index ↦ ?_
    rw [h.hasKey_iff hnulls hlength, and_iff_right hmissing]

/-- The slots that keys were inserted into stay as they are. -/
theorem holds_of_extends (h : k.Joining config log t answers) (hextends : t.Extends t')
    (hput : (key, .ok (.inserted index)) ∈ log) :
    t'.hash? index = some (foldHash (k.digest key)) ∧ t'.stored index = .ok key := by
  obtain ⟨hhash, hstored⟩ := h.holds hput
  have hkey : t.hash? index ≠ none := hhash ▸ Option.some_ne_none _
  have hindex := KeyTable.lt_freeIndex_of_hash? h.sound hkey
  exact ⟨(hextends.hash?_eq index hindex).trans hhash,
    (hextends.stored_eq index hindex hkey).trans hstored⟩

/-- A put keeps a table in step with the log, if what it gives is so. -/
theorem put (h : k.Joining config log t answers) (ht' : k.Table config t')
    (hextends : t.Extends t') {result : Except (TableError KeyError) PutStatus}
    (hslots : t'.slots = PutLog.newIndexes (log ++ [(key, result)]))
    (hinserted : ∀ index, result = .ok (.inserted index) →
      t'.hash? index = some (foldHash (k.digest key)) ∧ t'.stored index = .ok key)
    (hpresent : ∀ index, result = .ok (.present index) →
      none ∉ key ∧ (key, .ok (.inserted index)) ∈ log) :
    k.Joining config (log ++ [(key, result)]) t' (answers ++ [.put result]) := by
  refine ⟨ht', hslots, fun hmem ↦ ?_, fun hmem ↦ ?_, fun hmem ↦ ?_⟩
  · rcases List.mem_append.1 hmem with hmem | hmem
    · exact h.holds_of_extends hextends hmem
    · obtain ⟨rfl, hresult⟩ := Prod.mk.inj (List.mem_singleton.1 hmem)
      exact hinserted _ hresult.symm
  · rcases List.mem_append.1 hmem with hmem | hmem
    · exact (h.present hmem).imp_right (List.mem_append_left _)
    · obtain ⟨rfl, hresult⟩ := Prod.mk.inj (List.mem_singleton.1 hmem)
      exact (hpresent _ hresult.symm).imp_right (List.mem_append_left _)
  · rcases List.mem_append.1 hmem with hmem | hmem
    · obtain ⟨other, hother, hput⟩ := h.found hmem
      exact ⟨other, hother, List.mem_append_left _ hput⟩
    · cases List.mem_singleton.1 hmem

/-- A put or a lookup keeps a table in step with the log. -/
theorem logged (h : k.Joining config log t answers) (hnulls : k.nulls = .never)
    (hlogged : k.Logged config log t log' t' answer) :
    k.Joining config log' t' (answers ++ [answer]) := by
  cases hlogged with
  | put hlength ht' hextends _ hplaced =>
    cases hplaced with
    | present hleast hslots _ =>
      refine h.put ht' hextends ?_ nofun fun index hindex ↦ ?_
      · rw [hslots, h.slots_eq, PutLog.newIndexes_append]
        exact (List.append_nil _).symm
      · cases hindex
        exact (h.hasKey_iff hnulls hlength).1 hleast.1
    | inserted _ hslots _ hhash hstored =>
      refine h.put ht' hextends ?_ (fun index hindex ↦ ?_) nofun
      · rw [hslots, h.slots_eq, PutLog.newIndexes_append]
        rfl
      · cases hindex
        exact ⟨hhash, hstored⟩
    | failed _ hslots =>
      refine h.put ht' hextends ?_ nofun nofun
      rw [hslots, h.slots_eq, PutLog.newIndexes_append]
      exact (List.append_nil _).symm
  | found hlength hleast =>
    refine ⟨h.toTable, h.slots_eq, h.holds, h.present, fun hmem ↦ ?_⟩
    rcases List.mem_append.1 hmem with hmem | hmem
    · exact h.found hmem
    · cases List.mem_singleton.1 hmem
      exact ⟨_, (h.hasKey_iff hnulls hlength).1 hleast.1⟩

end Joining

/-! ### Lookups -/

/-- What the puts in a log say about lookups, in a table for a join and in the answers it gave. -/
structure Joins (k : ColumnKeys) (probeTypes : List DataType) (log : PutLog)
    (t : KeyTable KeyError) (answers : List (TableAnswer KeyError)) : Prop where
  /-- A row that is looked up finds the first put that inserted its key, and nothing if it has a
  missing value. -/
  probeIndex?_eq : ∀ {probe : Block} {row : Nat}, probe.WellFormed probeTypes →
    row < probe.length → ∃ key, keyAt k.probe probe row = .ok key ∧
      t.probeIndex? probe row = .ok (if none ∈ key then none else log.insertedIndex? key)
  /-- A put of a key with a missing value gives a new index, unlike any other put, and no lookup
  gives that. -/
  unmatched : ∀ {before after : PutLog} {key : Row} {status : PutStatus},
    log = before ++ (key, .ok status) :: after → none ∈ key → ∃ index,
      status = .inserted index ∧
        (∀ other status', (other, .ok status') ∈ before ++ after → status'.index ≠ index) ∧
        .found (some index) ∉ answers ∧
        (∀ input row, t.index? input row ≠ .ok (some index)) ∧
        ∀ probe row, t.probeIndex? probe row ≠ .ok (some index)
  /-- Rows of the two layouts that have one key find the same. -/
  index?_eq : ∀ {input probe : Block} {row row' : Nat} {key : Row},
    keyAt k.build input row = .ok key → keyAt k.probe probe row' = .ok key →
      ∃ found, t.index? input row = .ok found ∧ t.probeIndex? probe row' = .ok found

namespace Joining

/-- A key with missing values is put into a slot of its own, which no key has. -/
theorem unmatched (h : k.Joining config log t answers) (hnulls : k.nulls = .never)
    {before after : PutLog} {status : PutStatus} (hlog : log = before ++ (key, .ok status) :: after)
    (hmissing : none ∈ key) : ∃ index, status = .inserted index ∧
      (∀ other status', (other, .ok status') ∈ before ++ after → status'.index ≠ index) ∧
      .found (some index) ∉ answers ∧
      ∀ other : Row, other.length = config.keyTypes.length → ¬k.HasKey t other index := by
  have hput : (key, .ok status) ∈ log := hlog ▸ List.mem_append_right _ List.mem_cons_self
  cases status with
  | present index => exact absurd hmissing (h.present hput).1
  | inserted index =>
    -- a key that was inserted into this slot is this one, and so matches nothing
    have hunmatched {other : Row} (hmatches : none ∉ other) :
        (other, .ok (.inserted index)) ∉ log := by
      intro hother
      obtain rfl := Except.ok.inj ((h.holds hput).2.symm.trans (h.holds hother).2)
      exact hmatches hmissing
    refine ⟨index, rfl, fun other status' hmem hindex ↦ ?_, fun hmem ↦ ?_,
      fun other hlength hkey ↦ ?_⟩
    · have hother : (other, .ok status') ∈ log := by
        rw [hlog, List.mem_append, List.mem_cons]
        exact (List.mem_append.1 hmem).imp_right .inr
      subst hindex
      cases status' with
      | present => exact hunmatched (h.present hother).1 (h.present hother).2
      | inserted index =>
        -- the indexes of new keys ascend, so none comes twice
        have hnodup : (PutLog.newIndexes log).Nodup := h.pairwise_newIndexes.imp Nat.ne_of_lt
        have hsplit : PutLog.newIndexes log =
            PutLog.newIndexes before ++ index :: PutLog.newIndexes after := by
          rw [hlog, PutLog.newIndexes_append]
          rfl
        rw [hsplit, List.nodup_middle, List.nodup_cons, ← PutLog.newIndexes_append] at hnodup
        exact hnodup.1 (PutLog.mem_newIndexes.2 ⟨other, hmem⟩)
    · obtain ⟨other, hmatches, hother⟩ := h.found hmem
      exact hunmatched hmatches hother
    · obtain ⟨hmatches, hother⟩ := (h.hasKey_iff hnulls hlength).1 hkey
      exact hunmatched hmatches hother

/-- A table that is in step with a log gives what the log says. -/
theorem joins (h : k.Joining config log t answers) (hnulls : k.nulls = .never)
    (hbuild : check k.build types config.keyColumns = .ok ())
    (hprobe : check k.probe probeTypes config.keyColumns = .ok ()) :
    k.Joins probeTypes log t answers := by
  have hlookUp {input : Block} {row : Nat} {key : Row} (hkey : keyAt k.build input row = .ok key) :
      t.index? input row = .ok (if none ∈ key then none else log.insertedIndex? key) :=
    h.toTable.index?_eq hkey (h.isLeast? hnulls (length_key_of_check hbuild hkey))
  have hprobed {probe : Block} {row : Nat} {key : Row} (hkey : keyAt k.probe probe row = .ok key) :
      t.probeIndex? probe row = .ok (if none ∈ key then none else log.insertedIndex? key) :=
    h.toTable.probeIndex?_eq hkey (h.isLeast? hnulls (length_key_of_check hprobe hkey))
  refine ⟨fun hinput hrow ↦ ?_, fun hlog hmissing ↦ ?_, fun hkey hkey' ↦
    ⟨_, hlookUp hkey, hprobed hkey'⟩⟩
  · obtain ⟨key, hkey, -⟩ := exists_keyAt hprobe hinput hrow
    exact ⟨key, hkey, hprobed hkey⟩
  · obtain ⟨index, hstatus, hother, hanswers, hunmatched⟩ := h.unmatched hnulls hlog hmissing
    refine ⟨index, hstatus, hother, hanswers, fun input row hfound ↦ ?_, fun probe row hfound ↦ ?_⟩
    · obtain ⟨other, hkey, hleast⟩ := (h.toTable.index? input row).of_eq_ok hfound
      exact hunmatched other (length_key_of_check hbuild hkey) hleast.1
    · obtain ⟨other, hkey, hleast⟩ := (h.toTable.probeIndex? probe row).of_eq_ok hfound
      exact hunmatched other (length_key_of_check hprobe hkey) hleast.1

end Joining

/-- Keys of one column of integers, which is the second one of the rows that are looked up. -/
def joining : ColumnKeys := ⟨[0], [1], .never, Scalar.digest⟩

/-- Rows to be looked up: a column that has no keys, and a column of keys. -/
def probed : Block :=
  ⟨[.nulls .varchar 4, .int32 (.ofList [some 9, none, some 5, some 1])], 4⟩

theorem wellFormed_probed : probed.WellFormed [.varchar, .integer] where
  types_eq := rfl
  size_eq := by decide
  length_le := by decide
  aligned := by
    intro c hc
    rcases List.mem_pair.1 hc with rfl | rfl
    · exact Column.aligned_nulls _ _
    · exact FixedColumn.aligned_ofList _

/-- Puts of all rows, with lookups of rows of both layouts in between. -/
def joinedCalls : List TableCall :=
  [.put repeated 0, .put repeated 1, .probe probed 1, .lookUp repeated 4] ++
    [2, 3, 4, 5].map (.put repeated ·)

theorem readsRow_joinedCalls :
    ∀ call ∈ joinedCalls, ReadsRow [.integer] [.varchar, .integer] call := by
  have hrow {row : Nat} (hrow : row < 6) : repeated.WellFormed [.integer] ∧ row < repeated.length :=
    ⟨wellFormed_repeated, hrow⟩
  intro call hcall
  simp only [joinedCalls, List.map_cons, List.map_nil, List.cons_append, List.nil_append,
    List.mem_cons, List.not_mem_nil, or_false] at hcall
  rcases hcall with rfl | rfl | rfl | rfl | rfl | rfl | rfl | rfl
  · exact hrow (by decide)
  · exact hrow (by decide)
  · exact ⟨wellFormed_probed, by decide⟩
  all_goals exact hrow (by decide)

/-- After puts of rows of one layout, with lookups in between, a row of the other layout finds the
first put that inserted its key, if it has no missing value. -/
theorem joins_of_run {t₀ : KeyTable KeyError} (h : KeyTable.create config k.ops = .ok t₀)
    (hbuild : check k.build types config.keyColumns = .ok ())
    (hprobe : check k.probe probeTypes config.keyColumns = .ok ()) (hnulls : k.nulls = .never)
    {calls : List TableCall} (hcalls : ∀ call ∈ calls, ReadsRow types probeTypes call) :
    ∃ (t : KeyTable KeyError) (answers : List (TableAnswer KeyError)) (log : PutLog),
      t₀.run calls = .ok (t, answers) ∧ (calls.zip answers).foldlM k.loggedBy [] = .ok log ∧
        k.Joins probeTypes log t answers := by
  have hsane := (KeyTable.kept_of_create_eq_ok h).sane
  obtain rfl := KeyTable.eq_fresh_of_create_eq_ok h
  obtain ⟨t, answers, log, hrun, hlog, hjoining⟩ :=
    run_logged (I := fun log t answers ↦ k.Joining config log t answers) (fun h ↦ h.toTable)
      (fun h hlogged ↦ h.logged hnulls hlogged) hbuild hprobe [] (Joining.fresh hsane k {}) hcalls
  exact ⟨t, answers, log, hrun, hlog, hjoining.joins hnulls hbuild hprobe⟩

/-- Six rows with three keys, of which two are found, and two rows with missing values in slots of
their own. -/
theorem joins_of_run_probed : ∃ t answers log,
    (KeyTable.fresh KeyTable.cramped joining.ops {}).run joinedCalls = .ok (t, answers) ∧
      joining.Joins [.varchar, .integer] log t answers ∧
      (List.range 4).mapM (t.probeIndex? probed) = .ok [some 4, none, some 0, none] ∧
      PutLog.newIndexes log = [0, 1, 2, 3, 4] := by
  obtain ⟨t, answers, log, hrun, hlog, hprobed, hindexes⟩ : ∃ t answers log,
      (KeyTable.fresh KeyTable.cramped joining.ops {}).run joinedCalls = .ok (t, answers) ∧
        (joinedCalls.zip answers).foldlM joining.loggedBy [] = .ok log ∧
        (List.range 4).mapM (t.probeIndex? probed) = .ok [some 4, none, some 0, none] ∧
        PutLog.newIndexes log = [0, 1, 2, 3, 4] :=
    ⟨_, _, _, rfl, rfl, rfl, rfl⟩
  have hcreate := KeyTable.create_eq_ok KeyTable.fault?_cramped joining.ops
  have hbuild : check joining.build [.integer] KeyTable.cramped.keyColumns = .ok () := rfl
  have hprobe : check joining.probe [.varchar, .integer] KeyTable.cramped.keyColumns = .ok () := rfl
  obtain ⟨u, answers', log', hrun', hlog', hjoins⟩ :=
    joins_of_run hcreate hbuild hprobe rfl readsRow_joinedCalls
  obtain ⟨rfl, rfl⟩ := Prod.mk.inj (Except.ok.inj (hrun.symm.trans hrun'))
  obtain rfl := Except.ok.inj (hlog.symm.trans hlog')
  exact ⟨t, answers, log, hrun, hjoins, hprobed, hindexes⟩

end ColumnKeys

end Columnar
