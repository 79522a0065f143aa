import Columnar.Proofs.Window.AnyOrder
import Columnar.Proofs.Window.Written

/-!
# What an engine over columns refuses

A call of an engine over columns is refused for few reasons, whenever it is made
(`refusal_of_perform`). A block of the types of the input can be pushed until the input is finished,
and where a column is asked for the head is given back in full unless a sum leaves its range.

An engine provides for more refusals than these. The others do not occur because a partition can
always be begun, and because what is written has the type of the column that it is written into,
which is as long as the head (`Ruled`). So the proof goes through the functions of the engine once
more, with **a refusal in each of them traced back to a sum** (`IsOverflow`); that the calls are not
abandoned is known from before and not repeated.

The number of rows needs care. The new columns are as long as those of the head, but a block that is
put together from no columns has no room for rows. Where no column is asked for and the head has
none, the head is lost (`not_givesBack_lengthOnly`), although a block without columns may well have
rows when it is pushed.
-/

namespace Columnar

/-! ### Tallies that overflow -/

/-- An aggregate that adds up the integers in a column. -/
def Aggregate.Adds (a : Aggregate) (column : Nat) : Prop := a = .sum column ∨ a = .avg column

/-- Only a sum can overflow. -/
theorem Tally.adds_of_add_eq_error {input : Block} {row column : Nat} {t : Tally}
    (h : t.add input row = .ok (.error column)) : t.aggregate.Adds column := by
  cases t with
  | countStar rows => cases Except.ok.inj h
  | count column rows =>
    obtain ⟨value, -, h⟩ := exists_of_bind_eq_ok h
    cases Except.ok.inj h
  | sum column' total =>
    obtain ⟨value, -, h⟩ := exists_of_bind_eq_ok h
    cases value with
    | none => cases Except.ok.inj h
    | some value =>
      cases total with
      | none => cases Except.ok.inj h
      | some total =>
        simp only at h
        cases hsum : addInRange? total value with
        | some total =>
          rw [hsum] at h
          cases Except.ok.inj h
        | none =>
          rw [hsum] at h
          obtain rfl := Except.error.inj (Except.ok.inj h)
          exact .inl rfl
  | min column least | max column greatest =>
    obtain ⟨value, -, h⟩ := exists_of_bind_eq_ok h
    cases value with
    | none => cases Except.ok.inj h
    | some value => cases Except.ok.inj h
  | avg column' total rows =>
    obtain ⟨value, -, h⟩ := exists_of_bind_eq_ok h
    cases value with
    | none => cases Except.ok.inj h
    | some value =>
      simp only at h
      cases hsum : addInRange? total value with
      | some total =>
        rw [hsum] at h
        cases Except.ok.inj h
      | none =>
        rw [hsum] at h
        obtain rfl := Except.error.inj (Except.ok.inj h)
        exact .inr rfl

/-- Values have the types of their columns. -/
theorem Column.Sheet.map_dataType {types : List DataType} {capacity : Nat} {columns : List Column}
    (h : Sheet types capacity columns) : columns.map dataType = types := by
  induction h with
  | nil => rfl
  | cons hc _ ih => rw [List.map_cons, hc.1, ih]

namespace ColumnFrames

variable {f : ColumnFrames} {config : WindowConfig}

/-- The refusal of a row whose value takes the sum over a column out of range. -/
def IsOverflow (f : ColumnFrames) (refusal : WindowError FrameError) : Prop :=
  ∃ row column, refusal = .aggregateFailed row (.sumOverflow column) ∧
    ∃ a ∈ f.aggregates, a.Adds column

/-- Taking a row into tallies is refused only where a sum overflows. -/
theorem exists_of_addRow_eq_error {input : Block} {row : Nat} {tallies left : List Tally}
    {cause : FrameError} (h : addRow input row tallies = .ok (left, .error cause)) :
    ∃ column, cause = .sumOverflow column ∧ ∃ t ∈ tallies, t.aggregate.Adds column := by
  induction tallies generalizing left with
  | nil => cases (Prod.mk.inj (Except.ok.inj h)).2
  | cons t tallies ih =>
    obtain ⟨added, hadd, h⟩ := exists_of_bind_eq_ok h
    cases added with
    | error column =>
      obtain ⟨-, hcause⟩ := Prod.mk.inj (Except.ok.inj h)
      exact ⟨column, (Except.error.inj hcause).symm, t, List.mem_cons_self,
        Tally.adds_of_add_eq_error hadd⟩
    | ok t' =>
      obtain ⟨⟨rest, result⟩, hrest, h⟩ := exists_of_bind_eq_ok h
      obtain ⟨-, rfl⟩ := Prod.mk.inj (Except.ok.inj h)
      obtain ⟨column, hcause, t', ht', hadds⟩ := ih hrest
      exact ⟨column, hcause, t', List.mem_cons_of_mem t ht', hadds⟩

end ColumnFrames

namespace WindowEngine

variable {f : ColumnFrames} {e e' : WindowEngine (List Tally) FrameError} {head : Block}
  {rest : List Block} {row : Nat} {p p' : Partition} {progress progress' : Progress (List Tally)}
  {refusal : WindowError FrameError} {types : List DataType}

/-- An engine in order over columns of an input of some types. -/
abbrev SoundFor (f : ColumnFrames) (types : List DataType)
    (e : WindowEngine (List Tally) FrameError) : Prop :=
  Sound (Block.WellFormed types) (fun tallies ↦ tallies.map Tally.aggregate = f.aggregates) e

/-- The columns that are written into have their types and the size of the head. -/
structure Ruled (config : WindowConfig) (head : Block) (progress : Progress (List Tally)) :
    Prop where
  aggregates : Column.Sheet config.aggregateTypes head.capacity progress.aggregates.columns
  rankings : Column.Sheet (config.rankings.map Ranking.dataType) head.capacity progress.rankings

/-- Rows are aggregated, unless a sum overflows. -/
theorem SoundFor.exists_of_aggregateRows (h : SoundFor f types e) (hops : e.ops = f.ops)
    {refs : List (Block × Nat)} (hknown : ∀ ref ∈ refs, RowOf (Block.WellFormed types) ref)
    {tallies left : List Tally} (htallies : tallies.map Tally.aggregate = f.aggregates)
    {cause : FrameError} (hrows : e.aggregateRows tallies refs = .ok (left, .error cause)) :
    ∃ column, cause = .sumOverflow column ∧ ∃ a ∈ f.aggregates, a.Adds column := by
  induction refs generalizing tallies with
  | nil => cases (Prod.mk.inj (Except.ok.inj hrows)).2
  | cons ref refs ih =>
    obtain ⟨⟨here, result⟩, hadd, hrows⟩ := exists_of_bind_eq_ok hrows
    cases result with
    | error cause' =>
      obtain ⟨-, hcause⟩ := Prod.mk.inj (Except.ok.inj hrows)
      obtain rfl := Except.error.inj hcause
      rw [hops] at hadd
      obtain ⟨column, hcause, t, ht, hadds⟩ := ColumnFrames.exists_of_addRow_eq_error hadd
      exact ⟨column, hcause, t.aggregate, htallies ▸ List.mem_map_of_mem ht, hadds⟩
    | ok =>
      have hhere := (h.lawful.aggregate htallies (hknown ref List.mem_cons_self)).of_eq_ok hadd
      exact ih (fun ref href ↦ hknown ref (List.mem_cons_of_mem _ href)) hhere hrows

/-- A frame is opened, unless a sum overflows. -/
theorem SoundFor.exists_of_openFrame (h : SoundFor f types e) (hops : e.ops = f.ops)
    (htallies : progress.aggregation.map Tally.aggregate = f.aggregates)
    {framed : Except (WindowError FrameError) Partition}
    (hopen : e.openFrame head row p progress = .ok (progress', framed)) :
    (progress'.aggregates = progress.aggregates ∧ progress'.rankings = progress.rankings) ∧
      ∀ refusal, framed = .error refusal → f.IsOverflow refusal := by
  obtain ⟨count, -, hopen⟩ := exists_of_bind_eq_ok hopen
  obtain ⟨⟨tallies, result⟩, hrows, hopen⟩ := exists_of_bind_eq_ok hopen
  cases result with
  | ok =>
    obtain ⟨rfl, rfl⟩ := Prod.mk.inj (Except.ok.inj hopen)
    exact ⟨⟨rfl, rfl⟩, fun _ hframed ↦ by cases hframed⟩
  | error cause =>
    obtain ⟨rfl, rfl⟩ := Prod.mk.inj (Except.ok.inj hopen)
    refine ⟨⟨rfl, rfl⟩, fun refusal hrefusal ↦ ?_⟩
    obtain rfl := Except.error.inj hrefusal
    obtain ⟨column, rfl, hadds⟩ := h.exists_of_aggregateRows hops
      (fun ref href ↦ h.rowOf row ref (List.mem_of_mem_take (List.mem_of_mem_take href))) htallies
      hrows
    exact ⟨row, column, rfl, hadds⟩

/-- A partition is opened. -/
theorem exists_of_openPartition (hops : e.ops = f.ops)
    {opened : Except (WindowError FrameError) Partition}
    (hopen : e.openPartition head row progress = .ok (progress', opened)) :
    (progress'.aggregates = progress.aggregates ∧ progress'.rankings = progress.rankings) ∧
      ∃ p, opened = .ok p := by
  obtain ⟨length, -, hopen⟩ := exists_of_bind_eq_ok hopen
  rw [hops] at hopen
  obtain ⟨rfl, rfl⟩ := Prod.mk.inj (Except.ok.inj hopen)
  exact ⟨⟨rfl, rfl⟩, _, rfl⟩

/-- The partition of a row is found or opened, unless a sum overflows. -/
theorem SoundFor.exists_of_partitionAt (h : SoundFor f types e) (hops : e.ops = f.ops)
    (hqueue : e.queue = head :: rest) (hrow : row < head.length)
    (hbuilt : Built (fun tallies ↦ tallies.map Tally.aggregate = f.aggregates) e row progress)
    {located : Except (WindowError FrameError) Partition}
    (hat : e.partitionAt head row progress = .ok (progress', located)) :
    (progress'.aggregates = progress.aggregates ∧ progress'.rankings = progress.rankings) ∧
      ∀ refusal, located = .error refusal → f.IsOverflow refusal := by
  rw [partitionAt] at hat
  cases hopen : progress.open? with
  | some p =>
    rw [hopen] at hat
    simp only [Checked.pure_eq_ok, Checked.ok_bind] at hat
    split_ifs at hat
    · exact h.exists_of_openFrame hops hbuilt.regular hat
    · obtain ⟨rfl, rfl⟩ := Prod.mk.inj (Except.ok.inj hat)
      exact ⟨⟨rfl, rfl⟩, fun _ hlocated ↦ by cases hlocated⟩
  | none =>
    rw [hopen] at hat
    obtain ⟨⟨found, opened⟩, hopened, hat⟩ := exists_of_bind_eq_ok hat
    obtain ⟨⟨haggregates, hrankings⟩, p, rfl⟩ := exists_of_openPartition hops hopened
    have hregular := ((h.openPartition_gives hqueue hrow hbuilt.regular).of_eq_ok hopened).1
    simp only at hat
    split_ifs at hat
    · obtain ⟨⟨haggregates', hrankings'⟩, hrefusals⟩ := h.exists_of_openFrame hops hregular hat
      exact ⟨⟨haggregates'.trans haggregates, hrankings'.trans hrankings⟩, hrefusals⟩
    · obtain ⟨rfl, rfl⟩ := Prod.mk.inj (Except.ok.inj hat)
      exact ⟨⟨haggregates, hrankings⟩, fun _ hlocated ↦ by cases hlocated⟩

/-- A row of the head is processed, unless a sum overflows. -/
theorem SoundFor.exists_of_processRow (h : SoundFor f types e) (hops : e.ops = f.ops)
    (htypes : e.config.aggregateTypes = f.aggregateTypes) (hqueue : e.queue = head :: rest)
    (hrow : row < head.length) (hcapacity : head.length ≤ head.capacity)
    (hbuilt : Built (fun tallies ↦ tallies.map Tally.aggregate = f.aggregates) e row progress)
    (hruled : Ruled e.config head progress) {result : Except (WindowError FrameError) Unit}
    (hprocess : e.processRow head row progress = .ok (progress', result)) :
    (result = .ok () ∧ Ruled e.config head progress') ∨
      ∃ refusal, result = .error refusal ∧ f.IsOverflow refusal := by
  obtain ⟨⟨found, located⟩, hat, hprocess⟩ := exists_of_bind_eq_ok hprocess
  obtain ⟨⟨haggregates, hrankings⟩, hrefusals⟩ :=
    h.exists_of_partitionAt hops hqueue hrow hbuilt hat
  have hregular := ((h.partitionAt_gives hqueue hrow hbuilt).of_eq_ok hat).1
  cases located with
  | error refusal =>
    obtain ⟨-, rfl⟩ := Prod.mk.inj (Except.ok.inj hprocess)
    exact .inr ⟨refusal, rfl, hrefusals refusal rfl⟩
  | ok p =>
    -- what is written has the types of the columns
    have hlt : row < head.capacity := Nat.lt_of_lt_of_le hrow hcapacity
    have hsheet : Column.Sheet f.aggregateTypes head.capacity found.aggregates.columns :=
      htypes ▸ haggregates ▸ hruled.aggregates
    have hsheet' : Column.Sheet (e.config.rankings.map Ranking.dataType) head.capacity
        found.rankings := hrankings ▸ hruled.rankings
    have hwrite := ColumnFrames.write_eq hregular hsheet hlt
    simp only [hops, hwrite, Checked.ok_bind, writeRankings_eq p hlt _ hsheet'] at hprocess
    obtain ⟨rfl, rfl⟩ := Prod.mk.inj (Except.ok.inj hprocess)
    refine .inl ⟨rfl, ?_, hsheet'.putAll hlt (p.typed_rankings _)⟩
    rw [htypes]
    exact hsheet.putAll hlt (ColumnFrames.typed_values hregular)

/-- The rows of the head are processed from one on, unless a sum overflows. -/
theorem SoundFor.exists_of_processRows (h : SoundFor f types e) (hops : e.ops = f.ops)
    (htypes : e.config.aggregateTypes = f.aggregateTypes) (hqueue : e.queue = head :: rest)
    (hcapacity : head.length ≤ head.capacity) {count : Nat} (hcount : row + count = head.length)
    (hbuilt : Built (fun tallies ↦ tallies.map Tally.aggregate = f.aggregates) e row progress)
    (hruled : Ruled e.config head progress) {result : Except (WindowError FrameError) Unit}
    (hprocess : e.processRows head (List.range' row count) progress = .ok (progress', result)) :
    (result = .ok () ∧ Ruled e.config head progress') ∨
      ∃ refusal, result = .error refusal ∧ f.IsOverflow refusal := by
  induction count generalizing row progress with
  | zero =>
    obtain ⟨rfl, rfl⟩ := Prod.mk.inj (Except.ok.inj hprocess)
    exact .inl ⟨rfl, hruled⟩
  | succ count ih =>
    rw [List.range'_succ] at hprocess
    have hrow : row < head.length := by omega
    obtain ⟨⟨left, here⟩, hhere, hprocess⟩ := exists_of_bind_eq_ok hprocess
    rcases h.exists_of_processRow hops htypes hqueue hrow hcapacity hbuilt hruled hhere with
      ⟨rfl, hruled'⟩ | ⟨refusal, rfl, hoverflow⟩
    · have hbuilt' := ((h.processRow_gives hqueue hrow hbuilt).of_eq_ok hhere).2 rfl
      exact ih (by omega) hbuilt' hruled' hprocess
    · obtain ⟨-, rfl⟩ := Prod.mk.inj (Except.ok.inj hprocess)
      exact .inr ⟨refusal, rfl, hoverflow⟩

/-- A block with as many rows as the head and the columns that are asked for. -/
def GivesBack (config : WindowConfig) (head : Block)
    (result : Except (WindowError FrameError) Block) : Prop :=
  ∃ block, result = .ok block ∧ block.length = head.length ∧ block.types = config.outputTypes

/-- The new columns make a block with those of the head, if there is a column at all. -/
theorem Ruled.assemble {config : WindowConfig} (h : Ruled config head progress)
    (hhead : head.Regular config.inputTypes) (hpos : 0 < head.length) :
    (config.outputTypes ≠ [] → GivesBack config head
      (assemble head progress.aggregates progress.rankings)) ∧
    (config.outputTypes = [] → assemble head progress.aggregates progress.rankings =
      (.error (.assembleFailed (.beyondCapacity head.length 0)) :
        Except (WindowError FrameError) Block)) := by
  have htypes : (head.columns ++ progress.aggregates.columns ++ progress.rankings).map
      Column.dataType = config.outputTypes := by
    rw [List.map_append, List.map_append, h.aggregates.map_dataType, h.rankings.map_dataType,
      WindowConfig.outputTypes, ← hhead.types_eq]
    rfl
  refine ⟨fun hcolumns ↦ ?_, fun hnone ↦ ?_⟩
  · refine ⟨_, assemble_eq hhead h.aggregates.size_eq h.rankings.size_eq fun hnil ↦ ?_, rfl, htypes⟩
    rw [hnil] at htypes
    exact hcolumns htypes.symm
  · rw [hnone, List.map_eq_nil_iff] at htypes
    rw [WindowEngine.assemble, htypes]
    have hfull : ¬head.length ≤ (⟨[], 0⟩ : Block).capacity := Nat.not_le_of_lt hpos
    simp only [Block.ofColumns, Block.setLength, if_neg hfull]
    rfl

/-- The head is given back, unless a sum overflows. -/
theorem SoundFor.exists_of_process (h : SoundFor f e.config.inputTypes e) (hops : e.ops = f.ops)
    (htypes : e.config.aggregateTypes = f.aggregateTypes) (hqueue : e.queue = head :: rest) :
    ∃ e' result events, e.process = .ok (e', result, events) ∧
      ((∃ refusal, result = .error refusal ∧ f.IsOverflow refusal) ∨
        (e.config.outputTypes ≠ [] → GivesBack e.config head result) ∧
          (e.config.outputTypes = [] →
            result = .error (.assembleFailed (.beyondCapacity head.length 0)))) := by
  obtain ⟨⟨e', result, events⟩, hprocess, -⟩ := h.process_gives
  refine ⟨e', result, events, hprocess, ?_⟩
  have hhead : head.WellFormed e.config.inputTypes :=
    h.accepted head (hqueue ▸ List.mem_cons_self)
  have hpos : 0 < head.length := h.nonempty head (hqueue ▸ List.mem_cons_self)
  simp only [process, hqueue] at hprocess
  obtain ⟨opened, hopened, hprocess⟩ := exists_of_bind_eq_ok hprocess
  obtain ⟨⟨progress, done⟩, hrows, hprocess⟩ := exists_of_bind_eq_ok hprocess
  have hbegun : Ruled e.config head (e.begun head opened) := by
    refine ⟨Column.sheet_nulls (fun t ht ↦ ?_) _, ?_⟩
    · rw [htypes] at ht
      obtain ⟨a, -, rfl⟩ := List.mem_map.1 ht
      exact a.dataType_eq
    · have hfresh : Column.Sheet (e.config.rankings.map Ranking.dataType) head.capacity
          ((e.config.rankings.map Ranking.dataType).map (Column.nulls · head.capacity)) := by
        refine Column.sheet_nulls (fun t ht ↦ ?_) _
        obtain ⟨ranking, -, rfl⟩ := List.mem_map.1 ht
        exact ranking.dataType_eq
      rwa [List.map_map] at hfresh
  rw [List.range_eq_range'] at hrows
  rcases h.exists_of_processRows hops htypes hqueue hhead.length_le (Nat.zero_add _)
    ((h.begun_gives hqueue).of_eq_ok hopened) hbegun hrows with
    ⟨rfl, hruled⟩ | ⟨refusal, rfl, hoverflow⟩
  · refine .inr ?_
    have hassemble := hruled.assemble hhead.toRegular hpos
    simp only at hprocess
    cases hresult : (assemble head progress.aggregates progress.rankings :
        Except (WindowError FrameError) Block) with
    | error cause =>
      rw [hresult] at hprocess hassemble
      obtain ⟨-, hanswer⟩ := Prod.mk.inj (Except.ok.inj hprocess)
      exact (Prod.mk.inj hanswer).1 ▸ hassemble
    | ok block =>
      rw [hresult] at hprocess hassemble
      obtain ⟨-, hanswer⟩ := Prod.mk.inj (Except.ok.inj hprocess)
      exact (Prod.mk.inj hanswer).1 ▸ hassemble
  · obtain ⟨-, hanswer⟩ := Prod.mk.inj (Except.ok.inj hprocess)
    exact .inl ⟨refusal, (Prod.mk.inj hanswer).1.symm, hoverflow⟩

/-! ### Runs -/

namespace Sound

variable {σ ε : Type} {e : WindowEngine σ ε} {accepts : Block → Prop} {regular : σ → Prop}
  {run : WindowRun σ ε}

/-- Only finishing the input finishes it. -/
theorem isFinished_of_act (h : Sound accepts regular e) {action : WindowAction}
    (hrun : e.act action = .ok run) (hnone : run.refusal? = none) :
    run.engine.isFinished = true ↔ e.isFinished = true ∨ action = .finish := by
  rcases cases_of_act hrun hnone with ⟨block, rfl, hpush, -⟩ |
    ⟨output, events, rfl, hprocess, -⟩ | ⟨rfl, hengine, -⟩
  · obtain ⟨-, -, hengine⟩ := eq_of_push_eq_ok hpush
    rw [hengine]
    exact (or_iff_left WindowAction.noConfusion).symm
  · obtain ⟨-, -, -, hfinished, -⟩ := h.process_gives.of_eq_ok hprocess
    rw [hfinished]
    exact (or_iff_left WindowAction.noConfusion).symm
  · rw [hengine]
    exact iff_of_true rfl (.inr rfl)

/-- Calls without a refusal leave the description of the window as it is, and finish the input if
that is one of them. -/
theorem isFinished_of_perform (h : Sound accepts regular e) {actions : List WindowAction}
    (hblocks : ∀ b ∈ WindowAction.pushed actions, b.types = e.config.inputTypes → accepts b)
    (hrun : e.perform actions = .ok run) (hnone : run.refusal? = none) :
    run.engine.config = e.config ∧
      (run.engine.isFinished = true ↔ e.isFinished = true ∨ .finish ∈ actions) := by
  induction actions generalizing e run with
  | nil =>
    obtain rfl := Except.ok.inj hrun
    exact ⟨rfl, (or_iff_left List.not_mem_nil).symm⟩
  | cons action actions ih =>
    rw [WindowAction.pushed_cons] at hblocks
    obtain ⟨first, later, hfirst, hrefusal, hlater, hnone, rfl⟩ := exists_of_perform_cons hrun hnone
    obtain ⟨hsound, hconfig, -⟩ :=
      (h.act_gives fun b hb ↦ hblocks b (List.mem_append_left _ hb)).of_eq_ok hfirst
    obtain ⟨hconfig', hfinished⟩ := ih hsound (fun b hb htypes ↦
      hblocks b (List.mem_append_right _ hb) (hconfig ▸ htypes)) hlater hnone
    refine ⟨hconfig'.trans hconfig, hfinished.trans ?_⟩
    rw [h.isFinished_of_act hfirst hrefusal, or_assoc, List.mem_cons, @eq_comm _ action]

end Sound

end WindowEngine

namespace ColumnFrames

variable {f : ColumnFrames} {config : WindowConfig} {partitionColumns orderColumns : List Nat}
  {aggregates : List Aggregate}

/-- Whatever is pushed, and whenever heads are processed and the input is finished: no call is
abandoned, and up to the first refusal a block can be pushed unless the input was finished, and the
head is given back with the columns that are asked for unless a sum overflows. Where no column is
asked for it is refused instead, as one that has more rows than there is room for. -/
theorem refusal_of_perform
    (hf : ofColumns partitionColumns orderColumns aggregates config.inputTypes = .ok f)
    (haggregates : config.aggregateTypes = f.aggregateTypes) (actions : List WindowAction)
    (hblocks : ∀ b ∈ WindowAction.pushed actions, b.WellFormed config.inputTypes) :
    ∃ run, (WindowEngine.start config f.ops f.start).perform actions = .ok run ∧
      (run.refusal? = none →
        (∀ b, b.WellFormed config.inputTypes →
          (.finish ∈ actions → run.engine.push b = .error .inputFinished) ∧
          (.finish ∉ actions → ∃ e, run.engine.push b = .ok e)) ∧
        ∀ head rest, run.engine.queue = head :: rest → ∃ e result events,
          run.engine.process = .ok (e, result, events) ∧
          (config.outputTypes ≠ [] → WindowEngine.GivesBack config head result ∨
            ∃ refusal, result = .error refusal ∧ f.IsOverflow refusal) ∧
          (config.outputTypes = [] →
            result = .error (.assembleFailed (.beyondCapacity head.length 0)))) := by
  have hstart : WindowEngine.SoundFor f config.inputTypes (.start config f.ops f.start) :=
    .start (lawful_ops (fits_of_ofColumns hf)) (map_aggregate_start f) config
  have haccepts : ∀ b ∈ WindowAction.pushed actions,
      b.types = config.inputTypes → b.WellFormed config.inputTypes := fun b hb _ ↦ hblocks b hb
  obtain ⟨run, hrun, hsound, hops⟩ := hstart.perform_gives haccepts
  refine ⟨run, hrun, fun hnone ↦ ?_⟩
  obtain ⟨hconfig, hfinished⟩ := hstart.isFinished_of_perform haccepts hrun hnone
  replace hconfig : run.engine.config = config := hconfig
  replace hfinished : run.engine.isFinished = true ↔ .finish ∈ actions :=
    hfinished.trans (or_iff_right Bool.false_ne_true)
  refine ⟨fun b hb ↦ ⟨fun hmem ↦ ?_, fun hmem ↦ ?_⟩, fun head rest hqueue ↦ ?_⟩
  · rw [WindowEngine.push, if_pos (hfinished.2 hmem)]
  · refine ⟨_, WindowEngine.push_eq_ok ?_ (hb.types_eq.trans (congrArg _ hconfig.symm))⟩
    rw [← Bool.not_eq_true, hfinished]
    exact hmem
  · subst hconfig
    obtain ⟨e, result, events, hprocess, hresult⟩ :=
      WindowEngine.SoundFor.exists_of_process hsound hops haggregates hqueue
    refine ⟨e, result, events, hprocess, fun hcolumns ↦ ?_, fun hnil ↦ ?_⟩
    · exact hresult.symm.imp_left fun hgives ↦ hgives.1 hcolumns
    · rcases hresult with ⟨refusal, -, row, column, -, a, ha, -⟩ | hgives
      · -- where no column is asked for there is no aggregate
        have hnone : f.aggregateTypes = [] := by
          rw [WindowConfig.outputTypes, List.append_eq_nil_iff, List.append_eq_nil_iff] at hnil
          rw [← haggregates, hnil.1.2]
        rw [aggregateTypes, List.map_eq_nil_iff] at hnone
        rw [hnone] at ha
        cases ha
      · exact hgives.2 hnil

/-- A head whose partition was cut is given back. -/
theorem refusal_of_perform_hasty : ∃ run e result events,
    (WindowEngine.start pairConfig pairFrames.ops pairFrames.start).perform hasty = .ok run ∧
      run.engine.process = .ok (e, result, events) ∧
      WindowEngine.GivesBack pairConfig (pairBlock [1, 1, 7] [1, 2, 7] 2) result := by
  have hf : ofColumns [0] [1] [.sum 1] pairConfig.inputTypes = .ok pairFrames := rfl
  have hblocks : ∀ b ∈ WindowAction.pushed hasty, b.WellFormed pairConfig.inputTypes := by
    intro b hb
    rcases List.mem_cons.1 hb with rfl | hb
    · exact wellFormed_pairBlock rfl (by decide)
    · obtain rfl := List.mem_singleton.1 hb
      exact wellFormed_pairBlock rfl (by decide)
  obtain ⟨run, hrun, hcalls⟩ := refusal_of_perform hf rfl hasty hblocks
  obtain ⟨run₀, e₀, block, events₀, hrun₀, hnone, hqueue, hprocess₀⟩ : ∃ run e block events,
      (WindowEngine.start pairConfig pairFrames.ops pairFrames.start).perform hasty = .ok run ∧
        run.refusal? = none ∧ run.engine.queue = [pairBlock [1, 1, 7] [1, 2, 7] 2] ∧
        run.engine.process = .ok (e, .ok block, events) :=
    ⟨_, _, _, _, rfl, rfl, rfl, rfl⟩
  obtain rfl := Except.ok.inj (hrun.symm.trans hrun₀)
  obtain ⟨e, result, events, hprocess, hresult, -⟩ := (hcalls hnone).2 _ _ hqueue
  refine ⟨run, e, result, events, hrun, hprocess, ?_⟩
  rcases hresult (List.cons_ne_nil _ _) with hgives | ⟨refusal, rfl, -⟩
  · exact hgives
  · cases (Prod.mk.inj (Prod.mk.inj (Except.ok.inj (hprocess.symm.trans hprocess₀))).2).1

/-- Three rows without columns, of which nothing is asked, are not given back. -/
theorem not_givesBack_lengthOnly : ∃ f run e result events,
    ofColumns [] [] [] [] = .ok f ∧ (Block.lengthOnly 3).WellFormed [] ∧
      (WindowEngine.start ⟨[], f.aggregateTypes, []⟩ f.ops f.start).perform
        [.call (.push (.lengthOnly 3)), .finish] = .ok run ∧ run.refusal? = none ∧
      run.engine.queue = [.lengthOnly 3] ∧ run.engine.process = .ok (e, result, events) ∧
      ¬WindowEngine.GivesBack run.engine.config (.lengthOnly 3) result ∧
      (¬∃ refusal, result = .error refusal ∧ f.IsOverflow refusal) ∧
      result = .error (.assembleFailed (.beyondCapacity 3 0)) ∧ e.queue = [] := by
  refine ⟨⟨[], [], []⟩, _, _, _, _, rfl, ⟨⟨rfl, nofun, Nat.le_refl 3⟩, nofun⟩, rfl, rfl, rfl, rfl,
    ?_, ?_, rfl, rfl⟩
  · rintro ⟨block, hblock, -⟩
    cases hblock
  · rintro ⟨refusal, hrefusal, row, column, rfl, -⟩
    cases hrefusal

end ColumnFrames

end Columnar
