import Columnar.Proofs.KeyTable.Put

/-!
# Histories of a key table

Any sequence of operations on a table, with what each answers. Theorems about tables are stated for
runs of these calls: whoever uses a table can do nothing else to it. A call keeps the invariant of
tables and the account of spent slots (`Kept.call`), so a run does (`Kept.run`).

## Answers and traps

What the caller is expected to handle is an answer, refusals included, and the run goes on behind
it. A run is abandoned only where an operation on keys is; `RunRaises` says at which call this may
be, and with which trap. **A law about runs has to say both**: what holds of a run that is answered,
and why a run that is not answered was abandoned. A law about the first alone would hold of a table
that always gives up.

## What is kept

`Kept` has the invariant, the configuration and the operations that a table was created with, and
the number of slots that were spent. That number is not a field of the table. It is added up over
the answers (`TableAnswer.spent`), so it can be compared with the indexes that no key has; a cleared
table starts from zero again.

A table is created without keys (`eq_fresh_of_create_eq_ok`), and clearing puts the same back but
for the metrics (`clear_eq`). So runs start from a new table throughout, and what is known of a new
table is known of a cleared one.
-/

namespace Columnar

/-- An operation on a table. -/
inductive TableCall
  | put (input : Block) (row : Nat)
  | lookUp (input : Block) (row : Nat)
  | probe (probe : Block) (row : Nat)
  | outputAll (output : Block)
  | resetOutput
  | clear

/-- What an operation on a table answers. -/
inductive TableAnswer (ε : Type)
  | put (result : Except (TableError ε) PutStatus)
  | found (index? : Option Nat)
  | written (output : Block) (result : Except (TableError ε) Bool)
  | reset
  | cleared

/-- The slots that were spent on keys that could not be stored, if there were `before` of them
before a call with this answer. -/
def TableAnswer.spent {ε : Type} (before : Nat) : TableAnswer ε → Nat
  | put (.error (.insertFailed _ _)) => before + 1
  | cleared => 0
  | _ => before

namespace KeyTable

variable {ε : Type}

/-- Call an operation. -/
def call (t : KeyTable ε) : TableCall → Checked (KeyTable ε × TableAnswer ε)
  | .put input row => do
    let (t, result) ← t.put input row
    return (t, .put result)
  | .lookUp input row => return (t, .found (← t.index? input row))
  | .probe probe row => return (t, .found (← t.probeIndex? probe row))
  | .outputAll output => do
    let (t, output, result) ← t.outputAll output
    return (t, .written output result)
  | .resetOutput => return (t.resetOutput, .reset)
  | .clear => return (t.clear, .cleared)

/-- Call operations one after the other. -/
def run (t : KeyTable ε) : List TableCall → Checked (KeyTable ε × List (TableAnswer ε))
  | [] => return (t, [])
  | call :: calls => do
    let (t, answer) ← t.call call
    let (t, answers) ← t.run calls
    return (t, answer :: answers)

/-- What writing out a key raises that is abandoned. -/
def EmitRaises (t : KeyTable ε) (trap : Trap) : Prop :=
  ∃ index segment output row, t.hash? index ≠ none ∧ t.segmentOf index = .ok segment ∧
    t.ops.emit segment.keys (t.layout.split index).offset output row = .error trap

/-- What an abandoned call raises. -/
def Raises (t : KeyTable ε) (trap : Trap) : TableCall → Prop
  | .put input row => t.PutRaises input row trap
  | .lookUp input row => t.LookUpRaises (t.ops.hash input row) (t.ops.agrees input row) trap
  | .probe probe row =>
    t.LookUpRaises (t.ops.probeHash probe row) (t.ops.probeAgrees probe row) trap
  | .outputAll _ => t.EmitRaises trap
  | .resetOutput => False
  | .clear => False

/-- What an abandoned run raises, which is what one of its calls does. -/
def RunRaises (t : KeyTable ε) (trap : Trap) : List TableCall → Prop
  | [] => False
  | call :: calls => t.Raises trap call ∨
    ∃ t' answer, t.call call = .ok (t', answer) ∧ t'.RunRaises trap calls

/-- What operations keep of a table with a configuration and operations on keys, of which `spent`
slots are spent. -/
structure Kept (config : TableConfig) (ops : KeyOps ε) (spent : Nat) (t : KeyTable ε) : Prop
    extends t.Sound where
  config_eq : t.config = config
  ops_eq : t.ops = ops
  freeIndex_eq : t.freeIndex = t.entries + spent

variable {t : KeyTable ε} {config : TableConfig} {ops : KeyOps ε} {spent : Nat}

theorem kept_fresh (h : config.Sane) (ops : KeyOps ε) (metrics : TableMetrics) :
    Kept config ops 0 (fresh config ops metrics) :=
  ⟨sound_fresh h ops metrics, rfl, rfl, rfl⟩

/-- Clearing a table puts back all that makes up a table without keys, and leaves the metrics. -/
theorem clear_eq (t : KeyTable ε) : t.clear = fresh t.config t.ops t.metrics := rfl

theorem create_eq_ok (h : config.fault? = none) (ops : KeyOps ε) :
    create config ops = .ok (fresh config ops {}) := by
  rw [create, h]

/-- A table is created without keys, if there is no fault. -/
theorem eq_fresh_of_create_eq_ok (h : create config ops = .ok t) : t = fresh config ops {} := by
  rw [create] at h
  split at h
  · cases h
  · exact (Except.ok.inj h).symm

/-- A table that is created is as it should be. -/
theorem kept_of_create_eq_ok (h : create config ops = .ok t) : Kept config ops 0 t := by
  obtain rfl := eq_fresh_of_create_eq_ok h
  rw [create] at h
  split at h
  · cases h
  · next hfault => exact kept_fresh (TableConfig.sane_of_fault?_eq_none hfault) ops {}

/-! ### One call -/

theorem Kept.counted (h : Kept config ops spent t) (visited : Nat) :
    Kept config ops spent (t.counted visited) :=
  ⟨h.toSound.congr rfl rfl rfl rfl rfl, h.config_eq, h.ops_eq, h.freeIndex_eq⟩

/-- A put accounts for the slot that it spends. -/
theorem Kept.put (h : Kept config ops spent t) (input : Block) (row : Nat) :
    (t.put input row).Sat (t.PutRaises input row) fun (t', result) ↦
      Kept config ops ((TableAnswer.put result).spent spent) t' := by
  refine (h.toSound.put input row).mono (fun _ ↦ id) ?_
  rintro ⟨t', result⟩ ⟨hash, -, houtcome⟩
  cases houtcome with
  | present => exact h.counted _
  | @new visited _ _ hstoring =>
    cases hstoring with
    | exhausted => exact h.counted _
    | @stored u _ _ hprepared _ hinsertion =>
      have hconfig : u.config = config := by rw [hprepared.eq]; exact h.config_eq
      have hops : u.ops = ops := by rw [hprepared.eq]; exact h.ops_eq
      have hfreeIndex : u.freeIndex = u.entries + (spent + 1) := by
        rw [hprepared.eq]
        exact congrArg (· + 1) h.freeIndex_eq
      cases hinsertion with
      | failed _ hsound => exact ⟨hsound, hconfig, hops, hfreeIndex⟩
      | stored _ hsound _ hfields =>
        refine ⟨hsound, by rw [hfields, hconfig], by rw [hfields, hops], ?_⟩
        rw [hfields]
        show u.freeIndex = u.entries + 1 + spent
        omega

/-- A slot that was handed out and holds no key is vacant. -/
theorem Sound.exists_slot?_of_spent (h : t.Sound) {index : Nat} (hindex : index < t.freeIndex)
    (hspent : t.hash? index = none) : ∃ hash, t.slot? index = some (.vacant, hash) := by
  obtain ⟨⟨link, hash⟩, hslot⟩ := Option.isSome_iff_exists.1 (h.isSome_slot? hindex)
  have hvacant : link = .vacant := by
    by_contra hne
    rw [hash?, hslot, Option.bind_some, if_neg hne] at hspent
    cases hspent
  exact ⟨hash, hvacant ▸ hslot⟩

/-- A spent slot is passed over. -/
theorem Sound.outputNext_of_spent (h : t.Sound) (hindex : t.outputCursor < t.freeIndex)
    (hspent : t.hash? t.outputCursor = none) (count : Nat) (output : Block) (row : Nat) :
    outputNext (count + 1) t output row =
      outputNext count { t with outputCursor := t.outputCursor + 1 } output row := by
  obtain ⟨hash, hslot⟩ := h.exists_slot?_of_spent hindex hspent
  obtain ⟨segment, hsegment, hread⟩ := slot?_eq_some_iff.1 hslot
  rw [outputNext]
  simp [segmentOf, Checked.entry, hsegment, Segment.isOccupied, Segment.link,
    (Segment.slot?_eq_some_iff.1 hread).1]

/-- The key in a slot is written out, and the next one follows if it was. -/
theorem outputNext_of_key (hkey : t.hash? t.outputCursor ≠ none) {segment : Segment}
    (hsegment : t.segmentOf t.outputCursor = .ok segment) (count : Nat) (output : Block)
    (row : Nat) :
    outputNext (count + 1) t output row = (do
      let (output, result) ←
        t.ops.emit segment.keys (t.layout.split t.outputCursor).offset output row
      match result with
      | .error cause => return (t, output, .error (.outputFailed t.outputCursor cause))
      | .ok false => return (t, output, .ok false)
      | .ok true =>
        outputNext count { t with
          outputCursor := t.outputCursor + 1
          outputCount := t.outputCount + 1 } output (row + 1)) := by
  obtain ⟨hash, link, hlink, hne, -⟩ := hash?_ne_none_iff.1 hkey
  rw [linkAt, hsegment, Checked.ok_bind] at hlink
  have hoccupied : segment.isOccupied (t.layout.split t.outputCursor).offset = .ok true := by
    simp [Segment.isOccupied, hlink, hne]
  rw [outputNext]
  cases hemit : t.ops.emit segment.keys (t.layout.split t.outputCursor).offset output row with
  | error trap =>
    simp only [hsegment, hoccupied, hemit, Checked.ok_bind, Checked.error_bind, if_true]
  | ok emitted =>
    rcases emitted with ⟨_, _ | _ | _⟩ <;>
      simp only [hsegment, hoccupied, hemit, Checked.ok_bind, if_true]

/-- Writing keys out moves the cursor and counts, and does nothing else to a table. -/
theorem Sound.outputNext (count : Nat) (h : t.Sound) (output : Block) (row : Nat)
    (hcursor : ∀ i < count, t.outputCursor + i < t.freeIndex) :
    (outputNext count t output row).Sat t.EmitRaises fun (t', _) ↦
      t' = { t with outputCursor := t'.outputCursor, outputCount := t'.outputCount } := by
  induction count generalizing t output row with
  | zero => rfl
  | succ count ih =>
    have hindex : t.outputCursor < t.freeIndex := hcursor 0 (Nat.succ_pos count)
    have hnext (i : Nat) (hi : i < count) : t.outputCursor + 1 + i < t.freeIndex := by
      have := hcursor (i + 1) (Nat.succ_lt_succ hi)
      omega
    have hrest (written : Nat) (output : Block) (row : Nat) :
        (KeyTable.outputNext count
          { t with outputCursor := t.outputCursor + 1, outputCount := written } output row).Sat
          t.EmitRaises fun (t', _) ↦
            t' = { t with outputCursor := t'.outputCursor, outputCount := t'.outputCount } :=
      ih (t := { t with outputCursor := t.outputCursor + 1, outputCount := written })
        (h.congr rfl rfl rfl rfl rfl) output row hnext
    by_cases hkey : t.hash? t.outputCursor = none
    · rw [h.outputNext_of_spent hindex hkey]
      exact hrest t.outputCount output row
    · obtain ⟨hash, hholds⟩ := hash?_ne_none_iff.1 hkey
      obtain ⟨segment, hsegment, -⟩ := hholds.exists_segment
      rw [outputNext_of_key hkey hsegment]
      cases hemit : t.ops.emit segment.keys (t.layout.split t.outputCursor).offset output row with
      | error trap => exact ⟨_, segment, output, row, hkey, hsegment, hemit⟩
      | ok emitted =>
        obtain ⟨output', result⟩ := emitted
        cases result with
        | error cause => rfl
        | ok fits =>
          cases fits with
          | false => rfl
          | true => exact hrest (t.outputCount + 1) output' (row + 1)

/-- A call keeps a table as it should be, and accounts for the slot that it spends. -/
theorem Kept.call (h : Kept config ops spent t) (call : TableCall) :
    (t.call call).Sat (t.Raises · call) fun (t', answer) ↦
      Kept config ops (answer.spent spent) t' := by
  cases call with
  | put input row => exact (h.put input row).bind fun (t', result) _ hkept ↦ hkept
  | lookUp input row => exact (h.toSound.index? input row).bind fun _ _ _ ↦ h
  | probe probe row => exact (h.toSound.probeIndex? probe row).bind fun _ _ _ ↦ h
  | outputAll output =>
    have houtput := h.toSound.outputNext (t.freeIndex - t.outputCursor) output output.length
      fun i hi ↦ by omega
    refine houtput.bind fun (t', output', result) _ ht' ↦ ?_
    exact ⟨h.toSound.congr (by rw [ht']) (by rw [ht']) (by rw [ht']) (by rw [ht']) (by rw [ht']),
      by rw [ht', h.config_eq], by rw [ht', h.ops_eq], by rw [ht']; exact h.freeIndex_eq⟩
  | resetOutput =>
    exact ⟨h.toSound.congr rfl rfl rfl rfl rfl, h.config_eq, h.ops_eq, h.freeIndex_eq⟩
  | clear =>
    have hclear : t.clear = fresh config ops t.metrics := by rw [clear_eq, h.config_eq, h.ops_eq]
    show Kept config ops 0 t.clear
    rw [hclear]
    exact kept_fresh (h.config_eq ▸ h.sane) ops t.metrics

/-- A run keeps a table as it should be, and accounts for the slots that it spends. -/
theorem Kept.run (h : Kept config ops spent t) (calls : List TableCall) :
    (t.run calls).Sat (t.RunRaises · calls) fun (t', answers) ↦
      Kept config ops (answers.foldl TableAnswer.spent spent) t' := by
  induction calls generalizing t spent with
  | nil => exact h
  | cons call calls ih =>
    refine ((h.call call).mono (fun _ ↦ .inl) fun _ ↦ id).bind fun (t', answer) hcall hkept ↦ ?_
    exact ((ih hkept).mono (fun trap htrap ↦ .inr ⟨t', answer, hcall, htrap⟩) fun _ ↦ id).bind
      fun (t'', answers) _ hrest ↦ hrest

end KeyTable

end Columnar
