import Columnar.Proofs.KeyTable.Stable

/-!
# Puts in a log

Puts and lookups of rows of well-formed blocks are never abandoned, and every put can be logged with
its key and with what it gave. What one call does to a table and to the log of the puts is told by
its answer (`Logged`): a put places a key, a lookup finds the first slot that has one. So what these
two keep holds after any history of such calls (`run_logged`).

## Why a log

A statement about all puts of a history, such as which of them gave the same index, needs a record
that grows with the history and mentions every put. The table does not do: it forgets which row a
key came from, and a put that failed leaves no key behind. The log has the keys as rows of values,
so that **two puts are compared by their keys and not by their hashes or their blocks**.

`run_logged` is an induction on the calls with the property to be kept as its parameter. The modules
on grouping and on joining instantiate it, and prove for their property only the two cases of
`Logged`.
-/

namespace Columnar

/-- Puts in order, each with its key and with what it gave. -/
abbrev PutLog := List (Row × Except (TableError KeyError) PutStatus)

namespace PutLog

/-- The indexes of the slots that puts used for new keys. -/
def newIndexes (log : PutLog) : List Nat :=
  log.filterMap fun
    | (_, .ok (.inserted index)) => some index
    | _ => none

theorem newIndexes_append (log log' : PutLog) :
    newIndexes (log ++ log') = newIndexes log ++ newIndexes log' :=
  List.filterMap_append

end PutLog

namespace ColumnKeys

variable {k : ColumnKeys} {config : TableConfig} {t t' : KeyTable KeyError} {log log' : PutLog}
  {types probeTypes : List DataType}

/-- The puts among the calls up to one that was answered, if `log` are those before it. -/
def loggedBy (k : ColumnKeys) (log : PutLog) : TableCall × TableAnswer KeyError → Checked PutLog
  | (.put input row, .put result) => return log ++ [(← keyAt k.build input row, result)]
  | _ => return log

/-- A put or a lookup of a row of a well-formed block. -/
def ReadsRow (types probeTypes : List DataType) : TableCall → Prop
  | .put input row => input.WellFormed types ∧ row < input.length
  | .lookUp input row => input.WellFormed types ∧ row < input.length
  | .probe probe row => probe.WellFormed probeTypes ∧ row < probe.length
  | _ => False

/-- What a put or a lookup of a key does to a table and to the log of the puts, by its answer. -/
inductive Logged (k : ColumnKeys) (config : TableConfig) (log : PutLog) (t : KeyTable KeyError) :
    PutLog → KeyTable KeyError → TableAnswer KeyError → Prop
  | put {key : Row} {t' : KeyTable KeyError} {result : Except (TableError KeyError) PutStatus} :
    key.length = config.keyTypes.length → k.Table config t' → t.Extends t' →
    t'.outputCount = t.outputCount → k.Placed t key t' result →
    Logged k config log t (log ++ [(key, result)]) t' (.put result)
  | found {key : Row} {found : Option Nat} : key.length = config.keyTypes.length →
    IsLeast? (k.HasKey t key) found → Logged k config log t log t (.found found)

/-- A call of a row that can be read is answered. -/
theorem Table.call_logged (h : k.Table config t)
    (hbuild : check k.build types config.keyColumns = .ok ())
    (hprobe : check k.probe probeTypes config.keyColumns = .ok ()) {call : TableCall}
    (hcall : ReadsRow types probeTypes call) (log : PutLog) :
    ∃ t' answer log', t.call call = .ok (t', answer) ∧ k.loggedBy log (call, answer) = .ok log' ∧
      k.Logged config log t log' t' answer := by
  cases call with
  | put input row =>
    obtain ⟨key, hkey, -⟩ := exists_keyAt hbuild hcall.1 hcall.2
    obtain ⟨t', result, hput, ht', hextends, hcount, hplaced⟩ :=
      h.exists_placed (width_of_check hbuild) hkey
    refine ⟨t', .put result, log ++ [(key, result)], ?_, ?_,
      .put (length_key_of_check hbuild hkey) ht' hextends hcount hplaced⟩
    · rw [KeyTable.call, hput]
      rfl
    · rw [loggedBy, hkey]
      rfl
  | lookUp input row =>
    obtain ⟨key, hkey, -⟩ := exists_keyAt hbuild hcall.1 hcall.2
    obtain ⟨found, hfound, hleast⟩ := h.exists_index? hkey
    refine ⟨t, .found found, log, ?_, rfl, .found (length_key_of_check hbuild hkey) hleast⟩
    rw [KeyTable.call, hfound]
    rfl
  | probe probe row =>
    obtain ⟨key, hkey, -⟩ := exists_keyAt hprobe hcall.1 hcall.2
    obtain ⟨found, hfound, hleast⟩ := h.exists_probeIndex? hkey
    refine ⟨t, .found found, log, ?_, rfl, .found (length_key_of_check hprobe hkey) hleast⟩
    rw [KeyTable.call, hfound]
    rfl
  | outputAll output | resetOutput | clear => exact hcall.elim

/-- What puts and lookups keep of a table, the log and the answers holds after calls of rows that
can be read, none of which is abandoned. -/
theorem run_logged {I : PutLog → KeyTable KeyError → List (TableAnswer KeyError) → Prop}
    (htable : ∀ {log t answers}, I log t answers → k.Table config t)
    (hstep : ∀ {log log' t t' answers answer}, I log t answers →
      k.Logged config log t log' t' answer → I log' t' (answers ++ [answer]))
    (hbuild : check k.build types config.keyColumns = .ok ())
    (hprobe : check k.probe probeTypes config.keyColumns = .ok ())
    (answers : List (TableAnswer KeyError)) (h : I log t answers) {calls : List TableCall}
    (hcalls : ∀ call ∈ calls, ReadsRow types probeTypes call) : ∃ t' answers' log',
      t.run calls = .ok (t', answers') ∧ (calls.zip answers').foldlM k.loggedBy log = .ok log' ∧
        I log' t' (answers ++ answers') := by
  induction calls generalizing t log answers with
  | nil => exact ⟨t, [], log, rfl, rfl, (List.append_nil answers).symm ▸ h⟩
  | cons call calls ih =>
    obtain ⟨u, answer, log', hcall, hlog, hlogged⟩ :=
      (htable h).call_logged hbuild hprobe (hcalls call List.mem_cons_self) log
    obtain ⟨t', answers', log'', hrun, hlog', h'⟩ :=
      ih _ (hstep h hlogged) fun call hcall ↦ hcalls call (List.mem_cons_of_mem _ hcall)
    refine ⟨t', answer :: answers', log'', ?_, ?_, ?_⟩
    · rw [KeyTable.run, hcall, Checked.ok_bind]
      simp only [hrun]
      rfl
    · rw [List.zip_cons_cons, List.foldlM_cons, hlog]
      exact hlog'
    · rwa [List.append_assoc, List.singleton_append] at h'

theorem wellFormed_repeated : repeated.WellFormed [.integer] where
  types_eq := rfl
  size_eq := by decide
  length_le := by decide
  aligned := by
    intro c hc
    obtain rfl := List.mem_singleton.1 hc
    exact FixedColumn.aligned_ofList _

end ColumnKeys

end Columnar
