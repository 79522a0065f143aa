import Columnar.Proofs.Window.Advance

/-!
# Sessions

A session pushes blocks and processes heads in some order, finishes the input and drains what still
waits (`WindowEngine.session`); it is patient if it processes a head only when the engine says that
it can advance (`WindowEngine.Patient`). Patience is a condition on the calls and not on the input:
it is the protocol that an engine asks its caller to follow.

## From calls to the stream

The stream is fixed before the session begins, as all rows that are pushed in the end. Every call
leaves the engine somewhere in it: pushing brings rows in sight (`Stands.push_eq`), and processing
gives output rows back (`Stands.process_of_canAdvance`). A run of calls then gives back **the output
rows from where it started to where it leaves the engine**, or stops for a reason of the stream
(`Leads`, and `Leads.after` for one run behind another).

For the whole session these are all the output rows of the stream (`session_eq`). That draining ends
with nothing left behind is part of it: once the input is finished a head can always be processed,
and each one that is leaves the queue.
-/

namespace Columnar

/-- A call while there is input. -/
inductive WindowCall
  | push (block : Block)
  | process

/-- The blocks that are pushed, in order. -/
def WindowCall.pushed : List WindowCall → List Block
  | [] => []
  | push block :: calls => block :: pushed calls
  | process :: calls => pushed calls

/-- An engine after some calls, the blocks that it gave back, and what it refused last. -/
structure WindowRun (σ ε : Type) where
  engine : WindowEngine σ ε
  output : List Block
  refusal? : Option (WindowError ε)

namespace WindowEngine

variable {σ ε : Type}

/-- Make a call. -/
def call (e : WindowEngine σ ε) : WindowCall → Checked (WindowRun σ ε)
  | .push block =>
    match e.push block with
    | .error refusal => return ⟨e, [], some refusal⟩
    | .ok e => return ⟨e, [], none⟩
  | .process => do
    let (e, result, _) ← e.process
    match result with
    | .error refusal => return ⟨e, [], some refusal⟩
    | .ok block => return ⟨e, [block], none⟩

/-- Make calls, up to the first refusal. -/
def feed : WindowEngine σ ε → List WindowCall → Checked (WindowRun σ ε)
  | e, [] => return ⟨e, [], none⟩
  | e, call :: calls => do
    let run ← e.call call
    match run.refusal? with
    | some _ => return run
    | none => do
      let later ← feed run.engine calls
      return { later with output := run.output ++ later.output }

/-- Make calls, finish the input and process what still waits, up to the first refusal. -/
def session (e : WindowEngine σ ε) (calls : List WindowCall) : Checked (WindowRun σ ε) := do
  let run ← e.feed calls
  match run.refusal? with
  | some _ => return run
  | none => do
    let (e, later, refusal?, _) ← run.engine.finish.1.drain
    return ⟨e, run.output ++ later, refusal?⟩

/-- Heads are processed only when the engine says that it can advance. -/
def Patient : WindowEngine σ ε → List WindowCall → Prop
  | _, [] => True
  | e, call :: calls => (call = .process → e.canAdvance = .ok true) ∧
    match e.call call with
    | .ok ⟨e, _, none⟩ => Patient e calls
    | _ => True

end WindowEngine

namespace ColumnFrames

variable {f : ColumnFrames} {rows : List Row} {e : WindowEngine (List Tally) FrameError}
  {base seen : Nat} {config : WindowConfig}

/-! ### Where calls leave an engine -/

/-- An engine that was given nothing stands before the stream. -/
theorem stands_start (f : ColumnFrames) (rows : List Row) (config : WindowConfig) :
    Stands f rows config 0 0 (.start config f.ops f.start) where
  ops_eq := rfl
  shows _ _ h := by simp [WindowEngine.start, rowsFrom] at h
  length_eq := rfl
  seen_le := Nat.zero_le _
  finished h := absurd h Bool.false_ne_true
  config_eq := rfl
  regular _ h := absurd h List.not_mem_nil
  none_open _ := cut_zero _ _
  open_eq _ h := by cases h
  rows_eq := rfl
  counts_eq := by
    rw [counts, groupsFrom_self, groupsFrom_self]
    rfl
  emitted position h := absurd h (Nat.not_lt_zero position)

/-- A block at the end of the queue brings its rows in sight. -/
theorem Views.append (hv : Views f rows base seen e) (hopen : e.isFinished = false) {b : Block}
    {before xs after : List Row} (hrows : rows = before ++ xs ++ after)
    (hbefore : before.length = seen) (hread : b.rows = .ok xs) :
    Views f rows base (seen + xs.length) { e with queue := e.queue ++ [b] } := by
  have hlength : b.refs.length = xs.length := by
    rw [Block.length_refs, Checked.length_of_mapM_eq_ok hread, List.length_range]
  have hqueue : rowsFrom (e.queue ++ [b]) 0 = rowsFrom e.queue 0 ++ b.refs := by
    rw [rowsFrom_zero, rowsFrom_zero, List.flatMap_append, List.flatMap_singleton]
  have hrefs : Shows rows (base + (rowsFrom e.queue 0).length) b.refs := by
    rw [hv.length_eq, ← hbefore, hrows]
    exact shows_refs hread
  refine ⟨hv.ops_eq, ?_, ?_, ?_, fun h ↦ absurd (hopen.symm.trans h) Bool.false_ne_true⟩
  · rw [hqueue]
    exact hv.shows.append hrefs
  · rw [hqueue, List.length_append, hlength, ← Nat.add_assoc, hv.length_eq]
  · rw [hrows, List.length_append, List.length_append, hbefore]
    exact Nat.le_add_right _ _

/-- A block that is pushed adds its rows to those in sight. -/
theorem Stands.push_eq (h : Stands f rows config base seen e) (hopen : e.isFinished = false)
    {b : Block} (hb : b.Regular config.inputTypes) {before xs after : List Row}
    (hrows : rows = before ++ xs ++ after) (hbefore : before.length = seen)
    (hread : b.rows = .ok xs) :
    ∃ e', e.push b = .ok e' ∧ Stands f rows config base (seen + xs.length) e' ∧
      e'.isFinished = false := by
  have hlength : xs.length = b.length := by
    rw [Checked.length_of_mapM_eq_ok hread, List.length_range]
  obtain rfl := h.config_eq
  rcases Nat.eq_zero_or_pos b.length with hempty | hpos
  · -- an empty block is ignored, and has no rows to bring in sight
    refine ⟨e, ?_, ?_, hopen⟩
    · simp [WindowEngine.push, hopen, hb.types_eq, Block.isEmpty, hempty]
    · rwa [hlength, hempty]
  · have hne : b.length ≠ 0 := Nat.ne_of_gt hpos
    refine ⟨{ e with queue := e.queue ++ [b] }, ?_, ⟨h.append hopen hrows hbefore hread, rfl,
      fun other hother ↦ ?_, h.none_open, fun p hp ↦ ?_, h.rows_eq, h.counts_eq, h.emitted⟩, hopen⟩
    · simp [WindowEngine.push, hopen, hb.types_eq, Block.isEmpty, hne]
    · rcases List.mem_append.1 hother with hother | hother
      · exact h.regular other hother
      · obtain rfl := List.mem_singleton.1 hother
        exact ⟨hb, hpos⟩
    · obtain ⟨first, hknown, hbetween⟩ := h.open_eq p hp
      exact ⟨first, Nat.le_add_right_of_le hknown, hbetween⟩

/-- Processing a head that can be processed gives its output rows back. -/
theorem Stands.process_of_canAdvance (h : Stands f rows config base seen e)
    (hs : f.Stream config.inputTypes rows) (haggregates : config.aggregateTypes = f.aggregateTypes)
    (hcan : e.canAdvance = .ok true) :
    (∃ e' block events base', e.process = .ok (e', .ok block, events) ∧
      Stands f rows config base' seen e' ∧ e'.queue.length + 1 = e.queue.length ∧
      e'.isFinished = e.isFinished ∧ f.Shown rows config.rankings base base' [block]) ∨
    ∃ e' refusal events, e.process = .ok (e', .error refusal, events) ∧
      f.Stops rows config refusal := by
  cases hqueue : e.queue with
  | nil => simp [WindowEngine.canAdvance, hqueue] at hcan
  | cons head rest =>
    rcases h.process_eq hs haggregates hqueue (h.settled hs hqueue hcan) with
      ⟨e', block, events, heq, hstands, hrest, hfinished, hshown⟩ | hstops
    · exact .inl ⟨e', block, events, _, heq, hstands, by rw [hrest]; rfl, hfinished, hshown⟩
    · exact .inr hstops

/-! ### Runs -/

/-- What becomes of calls: they give back the output rows from `base` on up to where they leave the
engine, or they stop for a reason of the stream. -/
def Leads (f : ColumnFrames) (rows : List Row) (config : WindowConfig) (base : Nat)
    (run : WindowRun (List Tally) FrameError) (left : Nat → Prop) : Prop :=
  (∃ stop, run.refusal? = none ∧ left stop ∧ f.Shown rows config.rankings base stop run.output) ∨
    ∃ refusal, run.refusal? = some refusal ∧ f.Stops rows config refusal

/-- What comes before a run goes in front of what it gives back. -/
theorem Leads.after {left : Nat → Prop} {middle : Nat} {blocks : List Block}
    {run : WindowRun (List Tally) FrameError} (h : f.Leads rows config middle run left)
    (hshown : f.Shown rows config.rankings base middle blocks) :
    f.Leads rows config base { run with output := blocks ++ run.output } left := by
  rcases h with ⟨stop, hnone, hleft, hrest⟩ | hstops
  · exact .inl ⟨stop, hnone, hleft, hshown.append hrest⟩
  · exact .inr hstops

/-- Patient calls leave the engine behind all rows they push. -/
theorem Stands.feed_eq (hs : f.Stream config.inputTypes rows)
    (haggregates : config.aggregateTypes = f.aggregateTypes) (calls : List WindowCall)
    {before xs : List Row} (hrows : rows = before ++ xs)
    (hread : rowsOf (WindowCall.pushed calls) = .ok xs)
    (hregular : ∀ b ∈ WindowCall.pushed calls, b.Regular config.inputTypes)
    (h : Stands f rows config base before.length e) (hopen : e.isFinished = false)
    (hpatient : e.Patient calls) :
    ∃ run, e.feed calls = .ok run ∧ f.Leads rows config base run fun stop ↦
      Stands f rows config stop rows.length run.engine := by
  -- every push moves rows from `xs`, which are still to come, to those `before`
  induction calls generalizing e base before xs with
  | nil =>
    obtain rfl : [] = xs := Except.ok.inj hread
    rw [List.append_nil] at hrows
    exact ⟨_, rfl, .inl ⟨base, rfl, hrows ▸ h, Shown.nil f rows config.rankings base⟩⟩
  | cons call calls ih =>
    obtain ⟨hcan, hpatient⟩ := hpatient
    cases call with
    | push b =>
      obtain ⟨ys, zs, hblock, hrest, rfl⟩ := exists_of_rowsOf_cons hread
      rw [← List.append_assoc] at hrows
      obtain ⟨e', hpush, hstands, hopen'⟩ :=
        h.push_eq hopen (hregular b List.mem_cons_self) hrows rfl hblock
      have hcall : e.call (.push b) = .ok ⟨e', [], none⟩ := by
        rw [WindowEngine.call, hpush]
        rfl
      rw [hcall] at hpatient
      rw [← List.length_append] at hstands
      obtain ⟨run, hrun, hleads⟩ := ih hrows hrest
        (fun b hb ↦ hregular b (List.mem_cons_of_mem _ hb)) hstands hopen' hpatient
      refine ⟨run, ?_, hleads⟩
      simp only [WindowEngine.feed, hcall, hrun, Checked.ok_bind]
      rfl
    | process =>
      rcases h.process_of_canAdvance hs haggregates (hcan rfl) with
        ⟨e', block, events, middle, hprocess, hstands, -, hfinished, hshown⟩ |
        ⟨e', refusal, events, hprocess, hstops⟩
      · have hcall : e.call .process = .ok ⟨e', [block], none⟩ := by
          simp only [WindowEngine.call, hprocess, Checked.ok_bind]
          rfl
        rw [hcall] at hpatient
        obtain ⟨run, hrun, hleads⟩ := ih hrows hread hregular hstands (hfinished.trans hopen)
          hpatient
        refine ⟨_, ?_, hleads.after hshown⟩
        simp only [WindowEngine.feed, hcall, hrun, Checked.ok_bind]
        rfl
      · have hcall : e.call .process = .ok ⟨e', [], some refusal⟩ := by
          simp only [WindowEngine.call, hprocess, Checked.ok_bind]
          rfl
        refine ⟨⟨e', [], some refusal⟩, ?_, .inr ⟨refusal, rfl, hstops⟩⟩
        simp only [WindowEngine.feed, hcall, Checked.ok_bind]
        rfl

/-- An engine whose input is finished processes all that waits. -/
theorem Stands.drainAtMost_eq (hs : f.Stream config.inputTypes rows)
    (haggregates : config.aggregateTypes = f.aggregateTypes) {count : Nat}
    (h : Stands f rows config base rows.length e) (hfinished : e.isFinished = true)
    (hcount : e.queue.length = count) :
    ∃ e' blocks refusal? events,
      WindowEngine.drainAtMost count e = .ok (e', blocks, refusal?, events) ∧
      f.Leads rows config base ⟨e', blocks, refusal?⟩ fun stop ↦
        stop = rows.length ∧ Stands f rows config stop rows.length e' ∧ e'.queue = [] := by
  induction count generalizing e base with
  | zero =>
    have hqueue := List.eq_nil_of_length_eq_zero hcount
    have hlength := h.length_eq
    rw [hqueue] at hlength
    exact ⟨e, [], none, [], rfl,
      .inl ⟨base, rfl, ⟨hlength, h, hqueue⟩, Shown.nil f rows config.rankings base⟩⟩
  | succ count ih =>
    -- with the input finished whatever waits can be processed
    have hcan : e.canAdvance = .ok true := by
      rcases hqueue : e.queue with _ | ⟨head, _ | ⟨next, rest⟩⟩
      · simp [hqueue] at hcount
      · simp [WindowEngine.canAdvance, hqueue, hfinished]
      · simp [WindowEngine.canAdvance, hqueue, hfinished]
    rcases h.process_of_canAdvance hs haggregates hcan with
      ⟨e', block, events, middle, hprocess, hstands, hqueue, hfinished', hshown⟩ |
      ⟨e', refusal, events, hprocess, hstops⟩
    · obtain ⟨last, blocks, refusal?, later, hdrain, hleads⟩ :=
        ih hstands (hfinished'.trans hfinished) (by omega)
      refine ⟨last, block :: blocks, refusal?, events ++ later, ?_, hleads.after hshown⟩
      simp only [WindowEngine.drainAtMost, hcan, hprocess, hdrain, Checked.ok_bind, if_true]
      rfl
    · refine ⟨e', [], some refusal, events, ?_, .inr ⟨refusal, rfl, hstops⟩⟩
      simp only [WindowEngine.drainAtMost, hcan, hprocess, Checked.ok_bind, if_true]
      rfl

/-- With all rows in sight the input can be finished. -/
theorem Stands.finish (h : Stands f rows config base rows.length e) :
    Stands f rows config base rows.length e.finish.1 :=
  ⟨⟨h.ops_eq, h.shows, h.length_eq, h.seen_le, fun _ ↦ rfl⟩, h.config_eq, h.regular, h.none_open,
    h.open_eq, h.rows_eq, h.counts_eq, h.emitted⟩

/-! ### Sessions of a stream -/

/-- Patient calls that push the rows of a stream in blocks of the types of the input. -/
structure Feeds (f : ColumnFrames) (rows : List Row) (config : WindowConfig)
    (calls : List WindowCall) : Prop where
  rows_eq : rowsOf (WindowCall.pushed calls) = .ok rows
  regular : ∀ b ∈ WindowCall.pushed calls, b.Regular config.inputTypes
  patient : (WindowEngine.start config f.ops f.start).Patient calls

/-- A session gives the output rows of the whole stream back, or it stops for a reason of the
stream. -/
theorem session_eq (hs : f.Stream config.inputTypes rows)
    (haggregates : config.aggregateTypes = f.aggregateTypes) {calls : List WindowCall}
    (hfeeds : f.Feeds rows config calls) :
    ∃ run, (WindowEngine.start config f.ops f.start).session calls = .ok run ∧
      f.Leads rows config 0 run fun stop ↦ stop = rows.length ∧
        Stands f rows config stop rows.length run.engine ∧ run.engine.queue = [] := by
  obtain ⟨fed, hfed, hleads⟩ := Stands.feed_eq hs haggregates calls (List.nil_append rows).symm
    hfeeds.rows_eq hfeeds.regular (stands_start f rows config) rfl hfeeds.patient
  rcases hleads with ⟨middle, hnone, hstands, hshown⟩ | ⟨refusal, hsome, hstops⟩
  · obtain ⟨e', blocks, refusal?, events, hdrain, hleads⟩ :=
      hstands.finish.drainAtMost_eq hs haggregates rfl rfl
    refine ⟨_, ?_, hleads.after hshown⟩
    simp only [WindowEngine.session, hfed, hnone, WindowEngine.drain, hdrain, Checked.ok_bind]
    rfl
  · refine ⟨fed, ?_, .inr ⟨refusal, hsome, hstops⟩⟩
    simp only [WindowEngine.session, hfed, hsome, Checked.ok_bind]
    rfl

end ColumnFrames

end Columnar
