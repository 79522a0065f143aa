import Columnar.Proofs.Columns.Appended

/-!
# Columns are lists

A column is made, and then written to, cleared and limited in any order. What that comes to is told
by a `Ledger`: a plain list of optional values, the texts written so far, and a byte budget.

## The ledger

It refuses a value of another storage, a row that does not exist, and a text for which there is no
room, in this order, and nothing else. **The texts written so far are more than the texts in the
list**: bytes of a text that was overwritten stay charged, and a column can be full though its list
is short. That is the one thing about the history of a column that its list does not tell, and the
reason why a ledger is not only a list.

## How columns keep ledgers

A column that `Keeps` a ledger answers every call as the ledger does and keeps what the ledger has
become (`Keeps.perform`, one case for each call). So it is for any calls (`Keeps.run`), the refused
ones included, which change nothing. Columns keep ledgers from the start (`Built.keeps`), however
they are made, and all that can be read in a column then follows from the list (`Keeps.readsAs`).

The only condition is on copying from another column: a row that is copied from a column of the same
storage must be there, for otherwise the call is abandoned and has no answer.
-/

namespace Columnar

/-- What a call changes in a column. -/
inductive Column.Call
  | push (value : Option Scalar)
  | set (index : Nat) (value : Option Scalar)
  | setFrom (index : Nat) (source : Column) (sourceIndex : Nat)
  | setByteLimit (limit : Option Nat)
  | clear

/-- What is left after a call, with its answer. A refused call changes nothing. -/
def outcome {σ : Type} (before : σ) : Except ColumnError σ → σ × Except ColumnError Unit
  | .error refusal => (before, .error refusal)
  | .ok after => (after, .ok ())

/-! ### Ledgers -/

/-- What a column is meant to be: a list of optional values of one storage. -/
structure Ledger where
  storage : Storage
  /-- The last value that was written in every place. -/
  rows : List (Option Scalar)
  /-- The texts written since the column was made or cleared, in order. -/
  texts : List String
  /-- The byte budget that was asked for last. -/
  limit : Option Nat

namespace Ledger

variable (l : Ledger)

/-- The bytes of the texts written since the column was made or cleared. -/
def usedBytes : Nat := TextColumn.bytesOf l.texts

/-- How many bytes of texts there is room for: never more than spans can address. -/
def budget : Nat := l.limit.elim TextColumn.maxBytes (min · TextColumn.maxBytes)

/-- A present value is stored as the others are. -/
def Suits (value : Option Scalar) : Prop := ∀ v, value = some v → v.storage = l.storage

/-- The bytes of a text fit into what is left of the budget. -/
def HasRoom (value : Option Scalar) : Prop :=
  ∀ text, value = some (.text text) → l.usedBytes + text.utf8ByteSize ≤ l.budget

/-- The refusal of a value of another storage. -/
def mismatch? : Option Scalar → Option ColumnError
  | none => none
  | some v => if v.storage = l.storage then none else some (.wrongElement l.storage v.storage)

/-- The refusal of a text for which there is no room. -/
def overflow? : Option Scalar → Option ColumnError
  | some (.text text) =>
    if l.usedBytes + text.utf8ByteSize ≤ l.budget then none
    else some (.overBudget text.utf8ByteSize l.usedBytes l.budget)
  | _ => none

/-- The refusal of a row that does not exist. -/
def missing? (index : Nat) : Option ColumnError :=
  if index < l.rows.length then none else some (.indexOutOfRange index l.rows.length)

/-- The text of a value, if it is one. -/
def textsOf : Option Scalar → List String
  | some (.text text) => [text]
  | _ => []

/-- Take a value, which makes the list `rows`, unless that is refused. -/
def write (rows : List (Option Scalar)) (value : Option Scalar) :
    Option ColumnError → Except ColumnError Ledger
  | some refusal => .error refusal
  | none => .ok { l with rows, texts := l.texts ++ textsOf value }

/-- Append a value. -/
def push (value : Option Scalar) : Except ColumnError Ledger :=
  l.write (l.rows ++ [value]) value ((l.mismatch? value).or (l.overflow? value))

/-- Replace a value. -/
def set (index : Nat) (value : Option Scalar) : Except ColumnError Ledger :=
  l.write (l.rows.set index value) value
    ((l.mismatch? value).or ((l.missing? index).or (l.overflow? value)))

/-- The ledger of a list that was written into a new column. -/
def ofRows (storage : Storage) (rows : List (Option Scalar)) : Ledger :=
  ⟨storage, rows, rows.flatMap textsOf, none⟩

/-- What a call does. Copying a row is replacing a value by the one that is read in the source. -/
def perform : Column.Call → Except ColumnError Ledger
  | .push value => l.push value
  | .set index value => l.set index value
  | .setFrom index source sourceIndex =>
    if l.storage = source.storage then l.set index (source.get sourceIndex).toOption.join
    else .error (.wrongSource l.storage source.storage)
  | .setByteLimit limit => .ok { l with limit }
  | .clear => .ok { l with rows := [], texts := [] }

/-- What calls do one after the other, with the answer to each. -/
def run (l : Ledger) : List Column.Call → Ledger × List (Except ColumnError Unit)
  | [] => (l, [])
  | call :: calls =>
    let now := outcome l (l.perform call)
    let later := now.1.run calls
    (later.1, now.2 :: later.2)

variable {l : Ledger} {value : Option Scalar}

theorem mismatch?_eq_none_iff : l.mismatch? value = none ↔ l.Suits value := by
  rcases value with _ | v <;> simp [mismatch?, Suits]

theorem overflow?_eq_none_iff : l.overflow? value = none ↔ l.HasRoom value := by
  rcases value with _ | v
  · simp [overflow?, HasRoom]
  · cases v <;> simp [overflow?, HasRoom]

theorem missing?_eq_none_iff {index : Nat} : l.missing? index = none ↔ index < l.rows.length := by
  simp [missing?]

theorem write_eq_ok_iff {rows : List (Option Scalar)} {refusal : Option ColumnError} :
    (∃ l', l.write rows value refusal = .ok l') ↔ refusal = none := by
  cases refusal <;> simp [write]

theorem storage_write {l' : Ledger} {rows : List (Option Scalar)}
    {refusal : Option ColumnError} (h : l.write rows value refusal = .ok l') :
    l'.storage = l.storage := by
  cases refusal with
  | some refusal => cases h
  | none =>
    cases h
    rfl

/-- No call changes how the values are stored. -/
theorem storage_perform {l' : Ledger} {call : Column.Call} (h : l.perform call = .ok l') :
    l'.storage = l.storage := by
  cases call with
  | push value => exact storage_write h
  | set index value => exact storage_write h
  | setFrom index source sourceIndex =>
    rw [perform] at h
    split at h
    · exact storage_write h
    · cases h
  | setByteLimit limit | clear =>
    cases h
    rfl

theorem storage_outcome (l : Ledger) (call : Column.Call) :
    (outcome l (l.perform call)).1.storage = l.storage := by
  cases h : l.perform call with
  | error refusal => rfl
  | ok l' => exact storage_perform h

theorem storage_run (l : Ledger) (calls : List Column.Call) :
    (l.run calls).1.storage = l.storage := by
  induction calls generalizing l with
  | nil => rfl
  | cons call calls ih => exact (ih _).trans (l.storage_outcome call)

end Ledger

/-! ### Columns and ledgers -/

namespace Column

variable {c c' : Column} {l : Ledger} {value : Option Scalar}

/-- What a call does to a column. -/
def perform (c : Column) : Call → Checked (Except ColumnError Column)
  | .push value => return c.push value
  | .set index value => return c.set index value
  | .setFrom index source sourceIndex => c.setFrom index source sourceIndex
  | .setByteLimit limit => return .ok (c.setByteLimit limit)
  | .clear => return .ok c.clear

/-- What calls do to a column one after the other, with the answer to each. -/
def run (c : Column) : List Call → Checked (Column × List (Except ColumnError Unit))
  | [] => return (c, [])
  | call :: calls => do
    let now := outcome c (← c.perform call)
    let later ← now.1.run calls
    return (later.1, now.2 :: later.2)

/-- A row that is copied from a column of the same storage exists there. -/
def Call.Readable (s : Storage) : Call → Prop
  | .setFrom _ source sourceIndex =>
    s = source.storage → source.Aligned ∧ sourceIndex < source.size
  | _ => True

/-- A column holds the list of a ledger, and its buffer the texts. -/
structure Keeps (c : Column) (l : Ledger) : Prop where
  aligned : c.Aligned
  filled : c.Filled
  storage_eq : c.storage = l.storage
  toList_eq : c.toList = l.rows
  bytes : ∀ d, c = text d → d.Buffers l.texts ∧ d.byteLimit = l.limit

theorem Keeps.size_eq (h : Keeps c l) : c.size = l.rows.length := by
  rw [← h.toList_eq, h.aligned.length_toList]

/-- There is as much room in the column as the ledger says. -/
theorem Keeps.overflow?_eq (h : Keeps c l) (hsuits : c.Suits value) :
    c.overflow? value = l.overflow? value := by
  cases hsuits.typed with
  | boolean d v | int32 d v | int64 d v | double d v => cases v <;> rfl
  | text d v =>
    cases v with
    | none => rfl
    | some text =>
      obtain ⟨hbuffers, hlimit⟩ := h.bytes d rfl
      have hused : d.usedBytes = l.usedBytes := hbuffers.usedBytes_eq
      have hbudget : d.budget = l.budget := by
        rw [TextColumn.budget, Ledger.budget, hlimit]
        cases l.limit <;> rfl
      show d.overflow? (some text) = l.overflow? (some (.text text))
      rw [TextColumn.overflow?, Ledger.overflow?, hused, hbudget]

/-- A column and a ledger that refuse alike, or go on as a column that keeps the ledger. -/
inductive Agree : Except ColumnError Column → Except ColumnError Ledger → Prop
  | ok {c : Column} {l : Ledger} : Keeps c l → Agree (.ok c) (.ok l)
  | error (refusal : ColumnError) : Agree (.error refusal) (.error refusal)

/-- A column that took a value keeps the ledger that took it. -/
theorem Keeps.write (h : Keeps c l) {rows : List (Option Scalar)} (hsuits : c.Suits value)
    (hroom : c.overflow? value = none) (hwritten : Written c value rows c') :
    Agree (.ok c') (l.write rows value none) := by
  refine .ok ⟨hwritten.aligned, hwritten.filled h.filled, hwritten.storage_eq.trans h.storage_eq,
    hwritten.toList_eq, fun d' hd' ↦ ?_⟩
  have hstorage : c.storage = .text := by rw [← hwritten.storage_eq, hd']; rfl
  obtain ⟨d, rfl⟩ : ∃ d, c = text d := by
    cases c with
    | text d => exact ⟨d, rfl⟩
    | _ => cases hstorage
  obtain ⟨d'', v, rfl, rfl, hbytes, hlimit⟩ := hwritten.bytes d rfl
  cases hd'
  rw [overflow?_text] at hroom
  obtain ⟨hbuffers, hold⟩ := h.bytes d rfl
  have htexts : Ledger.textsOf (v.map .text) = v.toList := by cases v <;> rfl
  exact ⟨htexts ▸ hbuffers.write hroom hbytes, hlimit.trans hold⟩

theorem suits_or_exists (c : Column) (value : Option Scalar) :
    c.Suits value ∨ ∃ v, value = some v ∧ v.storage ≠ c.storage := by
  cases value with
  | none => exact .inl fun _ h ↦ nomatch h
  | some v =>
    refine (em (v.storage = c.storage)).imp (fun h _ hv ↦ ?_) fun h ↦ ⟨v, rfl, h⟩
    obtain rfl := Option.some.inj hv
    exact h

theorem Keeps.mismatch?_eq_none (h : Keeps c l) (hsuits : c.Suits value) :
    l.mismatch? value = none := by
  cases value with
  | none => rfl
  | some v => exact if_pos ((hsuits v rfl).trans h.storage_eq)

theorem Keeps.mismatch?_eq_some (h : Keeps c l) {v : Scalar} (hv : v.storage ≠ c.storage) :
    l.mismatch? (some v) = some (.wrongElement c.storage v.storage) := by
  rw [h.storage_eq] at hv ⊢
  exact if_neg hv

/-- Appending a value to a column that keeps a ledger appends it to the ledger. -/
theorem Keeps.push (h : Keeps c l) (value : Option Scalar) :
    Agree (c.push value) (l.push value) := by
  rcases suits_or_exists c value with hsuits | ⟨v, rfl, hv⟩
  case inr =>
    rw [push_of_not_suits hv, Ledger.push, h.mismatch?_eq_some hv]
    exact .error _
  rw [Ledger.push, h.mismatch?_eq_none hsuits, Option.none_or, ← h.overflow?_eq hsuits]
  cases hroom : c.overflow? value with
  | some refusal =>
    rw [push_of_overflow? hroom]
    exact .error refusal
  | none =>
    obtain ⟨c', hpush, hwritten⟩ := h.aligned.push hsuits hroom
    rw [hpush, ← h.toList_eq]
    exact h.write hsuits hroom hwritten

theorem set_eq_error {index : Nat} {refusal : ColumnError}
    (h : c.refusal? index value = some refusal) : c.set index value = .error refusal := by
  rw [set, overwrite, h]

theorem set_eq_ok {index : Nat} (h : c.refusal? index value = none) :
    c.set index value = .ok (c.put index value) := by
  rw [set, overwrite, h]

/-- Overwriting a row of a column that keeps a ledger replaces the value in the ledger. -/
theorem Keeps.set (h : Keeps c l) (index : Nat) (value : Option Scalar) :
    Agree (c.set index value) (l.set index value) := by
  have hrefusal : c.refusal? index value =
      (l.mismatch? value).or ((l.missing? index).or (l.overflow? value)) := by
    rcases suits_or_exists c value with hsuits | ⟨v, rfl, hv⟩
    · have hfilter : value.filter (fun v ↦ v.storage != c.storage) = none := by
        simpa [Option.filter_eq_none_iff, Suits] using hsuits
      rw [refusal?, hfilter, h.mismatch?_eq_none hsuits, Option.none_or, Ledger.missing?,
        ← h.size_eq, ← h.overflow?_eq hsuits]
      split_ifs <;> rfl
    · rw [h.mismatch?_eq_some hv, refusal?, Option.filter_some, if_pos (bne_iff_ne.2 hv),
        Option.some_or]
  rw [Ledger.set, ← hrefusal]
  cases hr : c.refusal? index value with
  | some refusal =>
    rw [set_eq_error hr]
    exact .error refusal
  | none =>
    obtain ⟨hsuits, -, hroom⟩ := refusal?_eq_none_iff.1 hr
    rw [set_eq_ok hr, ← h.toList_eq]
    exact h.write hsuits hroom (h.aligned.written_put hr)

theorem Keeps.setByteLimit (h : Keeps c l) (limit : Option Nat) :
    Keeps (c.setByteLimit limit) { l with limit } := by
  cases c with
  | text d =>
    refine ⟨h.aligned.setByteLimit limit, trivial, h.storage_eq, h.toList_eq, ?_⟩
    rintro _ ⟨⟩
    obtain ⟨hbuffers, -⟩ := h.bytes d rfl
    exact ⟨⟨hbuffers.bytes_eq, hbuffers.usedBytes_le⟩, rfl⟩
  | boolean d | int32 d | int64 d | double d =>
    exact ⟨h.aligned, h.filled, h.storage_eq, h.toList_eq, nofun⟩

theorem Keeps.clear (h : Keeps c l) : Keeps c.clear { l with rows := [], texts := [] } := by
  cases c with
  | boolean d => exact ⟨FlagColumn.aligned_empty, trivial, h.storage_eq, rfl, nofun⟩
  | int32 d | int64 d | double d =>
    exact ⟨FixedColumn.aligned_empty, FixedColumn.filled_empty, h.storage_eq, rfl, nofun⟩
  | text d =>
    refine ⟨TextColumn.aligned_clear d, trivial, h.storage_eq, rfl, ?_⟩
    rintro _ ⟨⟩
    exact ⟨TextColumn.buffers_of_isEmpty rfl, (h.bytes d rfl).2⟩

/-- A column that keeps a ledger does in a call what the ledger does. -/
theorem Keeps.perform (h : Keeps c l) {call : Call} (hcall : call.Readable l.storage) :
    ∃ r, c.perform call = .ok r ∧ Agree r (l.perform call) := by
  cases call with
  | push value => exact ⟨_, rfl, h.push value⟩
  | set index value => exact ⟨_, rfl, h.set index value⟩
  | setFrom index source sourceIndex =>
    rw [Column.perform, setFrom, fetch, Ledger.perform, h.storage_eq]
    by_cases hstorage : l.storage = source.storage
    · obtain ⟨haligned, hindex⟩ := hcall hstorage
      obtain ⟨value, hvalue⟩ := haligned.exists_get hindex
      rw [if_pos hstorage, if_pos hstorage, hvalue]
      exact ⟨_, rfl, h.set index value⟩
    · rw [if_neg hstorage, if_neg hstorage]
      exact ⟨_, rfl, .error _⟩
  | setByteLimit limit => exact ⟨_, rfl, .ok (h.setByteLimit limit)⟩
  | clear => exact ⟨_, rfl, .ok h.clear⟩

/-- A refused call leaves both as they were. -/
theorem Keeps.outcome (h : Keeps c l) {r : Except ColumnError Column}
    {r' : Except ColumnError Ledger} (hr : Agree r r') :
    Keeps (outcome c r).1 (outcome l r').1 ∧ (outcome c r).2 = (outcome l r').2 := by
  cases hr with
  | ok h' => exact ⟨h', rfl⟩
  | error refusal => exact ⟨h, rfl⟩

/-- A column that keeps a ledger does in any calls what the ledger does. -/
theorem Keeps.run (h : Keeps c l) {calls : List Call}
    (hcalls : ∀ call ∈ calls, call.Readable l.storage) :
    ∃ c', c.run calls = .ok (c', (l.run calls).2) ∧ Keeps c' (l.run calls).1 := by
  induction calls generalizing c l with
  | nil => exact ⟨c, rfl, h⟩
  | cons call calls ih =>
    obtain ⟨r, hr, hagree⟩ := h.perform (hcalls call List.mem_cons_self)
    obtain ⟨hkeeps, hanswer⟩ := h.outcome hagree
    obtain ⟨c', hrun, hkeeps'⟩ := ih hkeeps fun call hcall ↦ by
      rw [l.storage_outcome]
      exact hcalls call (List.mem_cons_of_mem _ hcall)
    refine ⟨c', ?_, hkeeps'⟩
    simp only [Column.run, hr, Checked.ok_bind, hrun, hanswer]
    rfl

/-! ### What is read in a column -/

/-- A column in which the list of a ledger is read, and which takes the values that the ledger
takes. -/
structure ReadsAs (c : Column) (l : Ledger) : Prop where
  aligned : c.Aligned
  size_eq : c.size = l.rows.length
  size_validity : c.validity.size = l.rows.length
  get_eq : ∀ index (h : index < l.rows.length), c.get index = .ok l.rows[index]
  rows_eq : c.rows = .ok l.rows
  countTrue_eq : c.validity.countTrue = l.rows.countP Option.isSome
  filled : c.Filled
  push_iff : ∀ value, (∃ c', c.push value = .ok c') ↔ l.Suits value ∧ l.HasRoom value
  set_iff : ∀ index value, (∃ c', c.set index value = .ok c') ↔
    l.Suits value ∧ index < l.rows.length ∧ l.HasRoom value

theorem Agree.exists_iff {r : Except ColumnError Column} {r' : Except ColumnError Ledger}
    (h : Agree r r') : (∃ c, r = .ok c) ↔ ∃ l, r' = .ok l := by
  cases h with
  | ok hkeeps => exact ⟨fun _ ↦ ⟨_, rfl⟩, fun _ ↦ ⟨_, rfl⟩⟩
  | error refusal => exact ⟨nofun, nofun⟩

theorem Keeps.readsAs (h : Keeps c l) : c.ReadsAs l := by
  have hget : ∀ index (hindex : index < l.rows.length), c.get index = .ok l.rows[index] := by
    rw [← h.toList_eq]
    exact fun index hindex ↦ h.aligned.get_eq hindex
  have hvalidity : c.validity.toList = l.rows.map Option.isSome := by
    rw [h.aligned.toList_validity, h.toList_eq]
  refine ⟨h.aligned, h.size_eq, ?_, hget, ?_, ?_, h.filled, fun value ↦ ?_, fun index value ↦ ?_⟩
  · rw [← Bitmap.length_toList, hvalidity, List.length_map]
  · refine Checked.mapM_eq_ok_iff.2 (List.forall₂_iff_get.2 ⟨?_, fun index hindex hindex' ↦ ?_⟩)
    · rw [List.length_range, h.size_eq]
    · simpa using hget index hindex'
  · rw [h.aligned.packed.countTrue_eq, hvalidity, List.count_eq_countP, List.countP_map]
    exact List.countP_congr fun v _ ↦ by simp
  · rw [(h.push value).exists_iff, Ledger.push, Ledger.write_eq_ok_iff, Option.or_eq_none_iff,
      Ledger.mismatch?_eq_none_iff, Ledger.overflow?_eq_none_iff]
  · rw [(h.set index value).exists_iff, Ledger.set, Ledger.write_eq_ok_iff, Option.or_eq_none_iff,
      Option.or_eq_none_iff, Ledger.mismatch?_eq_none_iff, Ledger.overflow?_eq_none_iff,
      Ledger.missing?_eq_none_iff]

/-! ### Columns that are made -/

/-- The ways in which a column is made, with the list that it is made to hold. -/
inductive Built : Column → List (Option Scalar) → Prop
  | nulls (t : DataType) (n : Nat) : Built (nulls t n) (.replicate n none)
  | flags (values : List (Option Bool)) :
    Built (boolean (.ofList values)) (values.map (Option.map .boolean))
  | int32s (values : List (Option Int32)) :
    Built (int32 (.ofList values)) (values.map (Option.map .int32))
  | int64s (values : List (Option Int64)) :
    Built (int64 (.ofList values)) (values.map (Option.map .int64))
  | doubles (values : List (Option Double)) :
    Built (double (.ofList values)) (values.map (Option.map .double))
  | texts (values : List (Option String)) (d : TextColumn)
      (h : TextColumn.ofList values = .ok d) :
    Built (text d) (values.map (Option.map .text))

/-- A column that is made keeps the ledger of the list from which it is made. -/
theorem Built.keeps {rows : List (Option Scalar)} (h : Built c rows) :
    Keeps c (.ofRows c.storage rows) := by
  cases h with
  | nulls t n =>
    refine ⟨aligned_nulls t n, filled_nulls t n, rfl, toList_nulls t n, fun d hd ↦ ?_⟩
    have htexts : (List.replicate n (none : Option Scalar)).flatMap Ledger.textsOf = [] := by
      simp [List.flatMap_replicate, Ledger.textsOf]
    cases t with
    | varchar =>
      cases hd
      refine ⟨?_, rfl⟩
      rw [Ledger.ofRows, htexts]
      exact TextColumn.buffers_of_isEmpty rfl
    | _ => cases hd
  | flags values =>
    obtain ⟨haligned, htoList⟩ := FlagColumn.ofList_eq values
    exact ⟨haligned, trivial, rfl, congrArg _ htoList, nofun⟩
  | int32s values | int64s values | doubles values =>
    obtain ⟨htoList, hfilled⟩ := FixedColumn.ofList_eq values
    exact ⟨FixedColumn.aligned_ofList values, hfilled, rfl, congrArg _ htoList, nofun⟩
  | texts values d h =>
    obtain ⟨haligned, htoList, hlimit, hbuffers⟩ := TextColumn.ofList_eq h
    have htexts : (values.map (Option.map Scalar.text)).flatMap Ledger.textsOf =
        values.flatMap Option.toList := by
      clear h htoList hbuffers
      induction values with
      | nil => rfl
      | cons value values ih =>
        cases value <;> simpa [Ledger.textsOf] using ih
    refine ⟨haligned, trivial, rfl, congrArg _ htoList, ?_⟩
    rintro _ ⟨⟩
    refine ⟨?_, hlimit⟩
    rw [Ledger.ofRows, htexts]
    exact hbuffers

/-- Columns are lists: however a column is made and whatever calls follow, it answers and reads as
the list that the same calls make of the list from which it is made, and keeps its type. -/
theorem Built.run_eq_ledger {rows : List (Option Scalar)} (hbuilt : Built c rows)
    {calls : List Call} (hcalls : ∀ call ∈ calls, call.Readable c.storage) :
    ∃ c', c.run calls = .ok (c', ((Ledger.ofRows c.storage rows).run calls).2) ∧
      c'.ReadsAs ((Ledger.ofRows c.storage rows).run calls).1 ∧ c'.dataType = c.dataType := by
  obtain ⟨c', hrun, hkeeps⟩ := hbuilt.keeps.run hcalls
  have hstorage : c'.storage = c.storage := hkeeps.storage_eq.trans (Ledger.storage_run _ calls)
  exact ⟨c', hrun, hkeeps.readsAs, storage_eq_iff.1 hstorage⟩

/-- Calls on a column of two integers, three of which are refused. -/
def revisions : List Call :=
  [.push none, .set 2 (some (.int64 7)), .set 0 none, .push (some (.boolean true)), .set 3 none,
    .setFrom 1 (nulls .bigInt 1) 0, .setFrom 1 (nulls .varchar 1) 4]

theorem Built.run_eq_ledger_revisions :
    (∀ call ∈ revisions, call.Readable .int64) ∧
      ∃ c', (int64 (.ofList [some 1, some 2])).run revisions =
          .ok (c', [.ok (), .ok (), .ok (), .error (.wrongElement .int64 .boolean),
            .error (.indexOutOfRange 3 3), .ok (), .error (.wrongSource .int64 .text)]) ∧
        c'.ReadsAs ⟨.int64, [none, none, some (.int64 7)], [], none⟩ := by
  have hcalls : ∀ call ∈ revisions, call.Readable .int64 := by
    simp only [revisions, List.forall_mem_cons]
    refine ⟨trivial, trivial, trivial, trivial, trivial, fun _ ↦ ?_, fun h ↦ ?_, by simp⟩
    · exact ⟨aligned_nulls .bigInt 1, by decide⟩
    · cases h
  obtain ⟨c', hrun, hreads, -⟩ := (Built.int64s [some 1, some 2]).run_eq_ledger hcalls
  exact ⟨hcalls, c', hrun, hreads⟩

end Column

end Columnar
