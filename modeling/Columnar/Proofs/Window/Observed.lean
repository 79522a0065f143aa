import Columnar.Proofs.Window.AnyOrder

/-!
# Engines that cannot be told apart

An engine reaches its aggregation through its operations alone. So if the operations of two engines
compare alike and take aggregations that correspond to aggregations that correspond
(`FrameOps.Matches`), then the engines answer alike, whatever is asked of them, and are left with
aggregations that correspond (`Matches.perform_related`).

The aggregations may be of different types, and the relation between them is any. **This allows to
observe an engine**: what its operations note beside the aggregation changes nothing else, so a
statement about an engine can be proved about one that notes its calls.

There is one lemma for each function of the engine, and none of them says what the function does.
The functions branch on the results of comparisons and on answers, which are the same for both
engines; everything else is passed on. A function that is added to the engine needs a lemma of the
same form, and one that is changed needs its own lemma proved again.
-/

namespace Columnar

variable {σ τ ε : Type} {R : σ → τ → Prop}

/-- Operations that compare alike and answer alike on aggregations that correspond. -/
structure FrameOps.Matches (R : σ → τ → Prop) (ops : FrameOps σ ε) (ops' : FrameOps τ ε) :
    Prop where
  samePartition_eq : ops'.samePartition = ops.samePartition
  peers_eq : ops'.peers = ops.peers
  aggregate : ∀ {s t} (block : Block) (row : Nat), R s t →
    Checked.Related (fun a b ↦ R a.1 b.1 ∧ b.2 = a.2) (ops.aggregate s block row)
      (ops'.aggregate t block row)
  write : ∀ {s t} (output : Block) (row : Nat), R s t →
    Checked.Related (fun a b ↦ R a.1 b.1 ∧ b.2 = a.2) (ops.write s output row)
      (ops'.write t output row)
  reset : ∀ {s t}, R s t → R (ops.reset s).1 (ops'.reset t).1 ∧ (ops'.reset t).2 = (ops.reset s).2

/-- The same was built, with aggregations that correspond. -/
structure Progress.Matches (R : σ → τ → Prop) (progress : Progress σ) (progress' : Progress τ) :
    Prop where
  aggregation : R progress.aggregation progress'.aggregation
  open_eq : progress'.open? = progress.open?
  aggregates_eq : progress'.aggregates = progress.aggregates
  rankings_eq : progress'.rankings = progress.rankings
  metrics_eq : progress'.metrics = progress.metrics
  events_eq : progress'.events = progress.events

namespace WindowEngine

/-- Engines in the same state, with aggregations that correspond. -/
structure Matches (R : σ → τ → Prop) (e : WindowEngine σ ε) (e' : WindowEngine τ ε) : Prop where
  ops : e.ops.Matches R e'.ops
  aggregation : R e.aggregation e'.aggregation
  config_eq : e'.config = e.config
  queue_eq : e'.queue = e.queue
  open_eq : e'.open? = e.open?
  isFinished_eq : e'.isFinished = e.isFinished
  outputCount_eq : e'.outputCount = e.outputCount
  metrics_eq : e'.metrics = e.metrics

/-- Steps of two engines that built the same and come to the same. -/
abbrev StepsMatch {α : Type} (R : σ → τ → Prop) :
    Checked (Progress σ × Except (WindowError ε) α) →
      Checked (Progress τ × Except (WindowError ε) α) → Prop :=
  Checked.Related fun a b ↦ a.1.Matches R b.1 ∧ b.2 = a.2

namespace Matches

variable {e : WindowEngine σ ε} {e' : WindowEngine τ ε} {head : Block} {row : Nat} {p : Partition}
  {progress : Progress σ} {progress' : Progress τ}

theorem extendOpen_eq (h : Matches R e e') : e'.extendOpen head p = e.extendOpen head p := by
  simp only [extendOpen, h.queue_eq, h.ops.samePartition_eq, h.isFinished_eq]

theorem openPartition_related (h : Matches R e e') (hp : progress.Matches R progress') :
    StepsMatch R (e.openPartition head row progress) (e'.openPartition head row progress') := by
  obtain ⟨hR, hdone⟩ := h.ops.reset hp.aggregation
  rw [openPartition, openPartition, h.queue_eq, h.ops.samePartition_eq, h.isFinished_eq]
  generalize e.ops.reset progress.aggregation = reset at hR hdone ⊢
  generalize e'.ops.reset progress'.aggregation = reset' at hR hdone ⊢
  obtain ⟨aggregation, done⟩ := reset
  obtain ⟨aggregation', done'⟩ := reset'
  obtain rfl : done' = done := hdone
  refine .bind_same fun length ↦ ?_
  simp only [hp.metrics_eq, hp.events_eq]
  cases done' with
  | false => exact .ok ⟨⟨hR, hp.open_eq, hp.aggregates_eq, hp.rankings_eq, rfl, rfl⟩, rfl⟩
  | true => exact .ok ⟨⟨hR, hp.open_eq, hp.aggregates_eq, hp.rankings_eq, rfl, rfl⟩, rfl⟩

theorem aggregateRows_related (h : Matches R e e') (refs : List (Block × Nat)) {s : σ} {t : τ}
    (hR : R s t) : Checked.Related (fun a b ↦ R a.1 b.1 ∧ b.2 = a.2) (e.aggregateRows s refs)
      (e'.aggregateRows t refs) := by
  induction refs generalizing s t with
  | nil => exact .ok ⟨hR, rfl⟩
  | cons ref refs ih =>
    obtain ⟨block, row⟩ := ref
    refine (h.ops.aggregate block row hR).bind ?_
    rintro ⟨s, result⟩ ⟨t, result'⟩ - - ⟨hR, hresult⟩
    obtain rfl : result' = result := hresult
    cases result' with
    | error cause => exact .ok ⟨hR, rfl⟩
    | ok => exact ih hR

theorem openFrame_related (h : Matches R e e') (hp : progress.Matches R progress') :
    StepsMatch R (e.openFrame head row p progress) (e'.openFrame head row p progress') := by
  simp only [openFrame, h.queue_eq, h.ops.peers_eq]
  refine .bind_same fun peers ↦ (h.aggregateRows_related _ hp.aggregation).bind ?_
  rintro ⟨aggregation, result⟩ ⟨aggregation', result'⟩ - - ⟨hR, hresult⟩
  obtain rfl : result' = result := hresult
  simp only [hp.metrics_eq]
  cases result' with
  | error cause => exact .ok ⟨{ hp with aggregation := hR, metrics_eq := rfl }, rfl⟩
  | ok => exact .ok ⟨{ hp with aggregation := hR, metrics_eq := rfl }, rfl⟩

/-- A frame is opened in the partition of a row, if the last one is done. -/
theorem frame_related (h : Matches R e e') (hp : progress.Matches R progress')
    (found : Except (WindowError ε) Partition) :
    StepsMatch R
      (match found with
        | .error refusal => pure (progress, .error refusal)
        | .ok p =>
          if p.isFrameDone then e.openFrame head row p progress else pure (progress, .ok p))
      (match found with
        | .error refusal => pure (progress', .error refusal)
        | .ok p =>
          if p.isFrameDone then e'.openFrame head row p progress'
          else pure (progress', .ok p)) := by
  cases found with
  | error refusal => exact .ok ⟨hp, rfl⟩
  | ok p =>
    simp only
    cases p.isFrameDone with
    | true => exact h.openFrame_related hp
    | false => exact .ok ⟨hp, rfl⟩

theorem partitionAt_related (h : Matches R e e') (hp : progress.Matches R progress') :
    StepsMatch R (e.partitionAt head row progress) (e'.partitionAt head row progress') := by
  rw [partitionAt, partitionAt, hp.open_eq]
  cases progress.open? with
  | some p => exact h.frame_related hp (.ok p)
  | none =>
    refine (h.openPartition_related hp).bind ?_
    rintro ⟨progress, found⟩ ⟨progress', found'⟩ - - ⟨hp, hfound⟩
    obtain rfl : found' = found := hfound
    exact h.frame_related hp found'

theorem processRow_related (h : Matches R e e') (hp : progress.Matches R progress') :
    StepsMatch R (e.processRow head row progress) (e'.processRow head row progress') := by
  rw [processRow, processRow]
  refine (h.partitionAt_related hp).bind ?_
  rintro ⟨progress, located⟩ ⟨progress', located'⟩ - - ⟨hp, hlocated⟩
  replace hp : progress.Matches R progress' := hp
  obtain rfl : located' = located := hlocated
  cases located' with
  | error refusal => exact .ok ⟨hp, rfl⟩
  | ok p =>
    simp only [hp.aggregates_eq, hp.rankings_eq, h.config_eq]
    refine (h.ops.write _ _ hp.aggregation).bind ?_
    rintro ⟨aggregation, aggregates, result⟩ ⟨aggregation', written'⟩ - - ⟨hR, hwritten⟩
    obtain rfl : written' = (aggregates, result) := hwritten
    cases result with
    | error cause =>
      exact .ok ⟨⟨hR, hp.open_eq, rfl, rfl, hp.metrics_eq, hp.events_eq⟩, rfl⟩
    | ok =>
      simp only
      cases writeRankings p row e.config.rankings progress.rankings with
      | error refusal =>
        exact .ok ⟨⟨hR, hp.open_eq, rfl, rfl, hp.metrics_eq, hp.events_eq⟩, rfl⟩
      | ok rankings =>
        exact .ok ⟨⟨hR, rfl, rfl, rfl, hp.metrics_eq, hp.events_eq⟩, rfl⟩

theorem processRows_related (h : Matches R e e') (rows : List Nat)
    (hp : progress.Matches R progress') :
    StepsMatch R (e.processRows head rows progress) (e'.processRows head rows progress') := by
  induction rows generalizing progress progress' with
  | nil => exact .ok ⟨hp, rfl⟩
  | cons row rows ih =>
    refine (h.processRow_related hp).bind ?_
    rintro ⟨progress, result⟩ ⟨progress', result'⟩ - - ⟨hp, hresult⟩
    obtain rfl : result' = result := hresult
    cases result' with
    | error refusal => exact .ok ⟨hp, rfl⟩
    | ok => exact ih hp

theorem process_related (h : Matches R e e') :
    Checked.Related (fun a b ↦ Matches R a.1 b.1 ∧ b.2 = a.2) e.process e'.process := by
  have hextend (head : Block) : e'.extendOpen head = e.extendOpen head :=
    funext fun _ ↦ h.extendOpen_eq
  simp only [process, h.queue_eq]
  cases hqueue : e.queue with
  | nil => exact .ok ⟨h, rfl⟩
  | cons head rest =>
    simp only [h.open_eq, hextend]
    refine .bind_same fun opened ↦ ?_
    have hbegun : (e.begun head opened).Matches R (e'.begun head opened) := by
      refine ⟨h.aggregation, rfl, ?_, ?_, h.metrics_eq, rfl⟩
      · rw [begun, begun, h.config_eq]
      · rw [begun, begun, h.config_eq]
    refine (h.processRows_related (List.range head.length) hbegun).bind ?_
    rintro ⟨progress, result⟩ ⟨progress', result'⟩ - - ⟨hp, hresult⟩
    replace hp : progress.Matches R progress' := hp
    obtain rfl : result' = result := hresult
    obtain ⟨hops, -, hconfig, -, -, hfinished, hcount, -⟩ := h
    simp only [phase, hp.aggregates_eq, hp.rankings_eq, hp.open_eq, hp.metrics_eq, hp.events_eq,
      hfinished]
    cases result' with
    | error refusal =>
      exact .ok ⟨⟨hops, hp.aggregation, hconfig, rfl, rfl, rfl, hcount, rfl⟩, rfl⟩
    | ok =>
      simp only
      cases assemble head progress.aggregates progress.rankings with
      | error refusal =>
        exact .ok ⟨⟨hops, hp.aggregation, hconfig, rfl, rfl, rfl, hcount, rfl⟩, rfl⟩
      | ok output =>
        exact .ok ⟨⟨hops, hp.aggregation, hconfig, rfl, rfl, rfl, rfl, rfl⟩, rfl⟩

theorem push_related (h : Matches R e e') (block : Block) :
    (∃ refusal, e.push block = .error refusal ∧ e'.push block = .error refusal) ∨
      ∃ left left', e.push block = .ok left ∧ e'.push block = .ok left' ∧ Matches R left left' := by
  simp only [push, h.isFinished_eq, h.config_eq, h.queue_eq]
  split_ifs
  · exact .inl ⟨_, rfl, rfl⟩
  · exact .inl ⟨_, rfl, rfl⟩
  · exact .inr ⟨_, _, rfl, rfl, h⟩
  · exact .inr ⟨_, _, rfl, rfl, { h with config_eq := rfl, queue_eq := rfl, isFinished_eq := rfl }⟩

end Matches

/-! ### Runs -/

/-- Runs that gave the same back, of engines with aggregations that correspond. -/
structure RunsMatch (R : σ → τ → Prop) (run : WindowRun σ ε) (run' : WindowRun τ ε) : Prop where
  engine : run.engine.Matches R run'.engine
  output_eq : run'.output = run.output
  refusal_eq : run'.refusal? = run.refusal?

namespace Matches

variable {e : WindowEngine σ ε} {e' : WindowEngine τ ε}

theorem act_related (h : Matches R e e') (action : WindowAction) :
    Checked.Related (RunsMatch R) (e.act action) (e'.act action) := by
  cases action with
  | finish => exact .ok ⟨{ h with isFinished_eq := rfl }, rfl, rfl⟩
  | call c =>
    cases c with
    | push block =>
      simp only [act, call]
      rcases h.push_related block with ⟨refusal, hpush, hpush'⟩ | ⟨left, left', hpush, hpush', h'⟩
      · rw [hpush, hpush']
        exact .ok ⟨h, rfl, rfl⟩
      · rw [hpush, hpush']
        exact .ok ⟨h', rfl, rfl⟩
    | process =>
      refine h.process_related.bind ?_
      rintro ⟨left, result, events⟩ ⟨left', answer'⟩ - - ⟨h', hanswer⟩
      obtain rfl : answer' = (result, events) := hanswer
      cases result with
      | error refusal => exact .ok ⟨h', rfl, rfl⟩
      | ok block => exact .ok ⟨h', rfl, rfl⟩

/-- Calls in any order give the same back. -/
theorem perform_related (h : Matches R e e') (actions : List WindowAction) :
    Checked.Related (RunsMatch R) (e.perform actions) (e'.perform actions) := by
  induction actions generalizing e e' with
  | nil => exact .ok ⟨h, rfl, rfl⟩
  | cons action actions ih =>
    refine (h.act_related action).bind fun run run' _ _ hrun ↦ ?_
    rw [hrun.refusal_eq]
    cases run.refusal? with
    | some refusal => exact .ok hrun
    | none =>
      refine (ih hrun.engine).bind fun later later' _ _ hlater ↦ ?_
      refine .ok ⟨hlater.engine, ?_, hlater.refusal_eq⟩
      simp only [hrun.output_eq, hlater.output_eq]

end Matches

end WindowEngine

end Columnar
