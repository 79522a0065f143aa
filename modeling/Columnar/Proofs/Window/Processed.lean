import Columnar.Proofs.Window.Located
import Columnar.Proofs.Window.Written

/-!
# Processing the head

Every row of the head is located, its aggregates and rankings are written, and the partition goes on
to the next row. Along the rows it holds that the rows written so far read as the output rows of
their positions (`Building`, with `Building.succ` for one more row); after the last one the columns
are put together.

So an engine that stands somewhere in a stream (`Stands`) gives the output rows of its head back and
stands behind it (`Stands.process_eq`), unless it stops. `Stands` is **what every later module about
sorted input goes by**; none of them goes through the rows of a head again.

## Why a run stops

There are two reasons (`Stops`). One is that no column was asked for, so that nothing can be put
together. The other is a sum, and then the refusal names the column of the first row of the whole
stream that takes one out of range (`Refused`). To know that it is the first one, an engine carries
that all rows before its head have output rows (`Emitted`), though it has given these rows back long
ago: a row with an output row takes no sum out of range.
-/

namespace Columnar.ColumnFrames

variable {f : ColumnFrames} {rows : List Row} {types : List DataType}
  {e : WindowEngine (List Tally) FrameError} {head : Block} {rest : List Block}
  {base seen stop row : Nat}

/-- What is built after some rows of the head. -/
structure Building (f : ColumnFrames) (rows : List Row) (config : WindowConfig) (head : Block)
    (base seen : Nat) (metrics : WindowMetrics) (row : Nat) (progress : Progress (List Tally)) :
    Prop where
  opened : Opened f rows config.needsWholePartition (base + row) seen progress.aggregation
    progress.open?
  metrics_eq : progress.metrics = f.counts rows metrics (base + row)
  aggregates : Column.Sheet f.aggregateTypes head.capacity progress.aggregates.columns
  rankings : Column.Sheet (config.rankings.map Ranking.dataType) head.capacity progress.rankings
  written : ∀ j < row, ∃ out, f.Emits rows config.rankings (base + j) out ∧
    (head.columns ++ progress.aggregates.columns ++ progress.rankings).mapM (·.get j) = .ok out

/-- A refusal because of a sum: it is in the column of the first row of the stream that takes one
out of range. -/
def Refused (f : ColumnFrames) (rows : List Row) (refusal : WindowError FrameError) : Prop :=
  ∃ row column, refusal = .aggregateFailed row (.sumOverflow column) ∧
    f.OverflowsFrom rows 0 column

/-- Output rows of the positions before one. -/
def Emitted (f : ColumnFrames) (rows : List Row) (rankings : List Ranking) (base : Nat) : Prop :=
  ∀ position < base, ∃ out, f.Emits rows rankings position out

theorem Emitted.append {rankings : List Ranking} {count : Nat} (h : f.Emitted rows rankings base)
    (hnext : ∀ j < count, ∃ out, f.Emits rows rankings (base + j) out) :
    f.Emitted rows rankings (base + count) := by
  intro position hposition
  rcases Nat.lt_or_ge position base with hlt | hge
  · exact h position hlt
  · obtain ⟨j, rfl⟩ := Nat.exists_eq_add_of_le hge
    exact hnext j (Nat.lt_of_add_lt_add_left hposition)

/-- What overflows behind rows that have output rows is the first to do so in the stream. -/
theorem Emitted.overflowsFrom {rankings : List Ranking} {column : Nat}
    (h : f.Emitted rows rankings base) (hfrom : f.OverflowsFrom rows base column) :
    f.OverflowsFrom rows 0 column := by
  refine hfrom.of_le (Nat.zero_le base) fun position _ hlt column' ↦ ?_
  obtain ⟨out, hout⟩ := h position hlt
  exact hout.not_overflowsAt column'

/-- The rows that are written go on with those that have been given back. -/
theorem Building.emitted {config : WindowConfig} {metrics : WindowMetrics}
    {progress : Progress (List Tally)}
    (h : Building f rows config head base seen metrics row progress)
    (hemitted : f.Emitted rows config.rankings base) :
    f.Emitted rows config.rankings (base + row) :=
  hemitted.append fun j hj ↦ (h.written j hj).imp fun _ ↦ And.left

/-- What a partition at a row says of the rankings is what the place of the row does. -/
theorem Within.emits {config : WindowConfig} {first peer position : Nat} {p : Partition}
    {tallies : List Tally}
    (h : Within f rows config.needsWholePartition first peer position p tallies)
    (hsorted : f.Sorted rows) {x : Row} (hx : rows[position]? = some x) :
    f.Emits rows config.rankings position
      (x ++ tallies.map Tally.value ++ p.rankings config.rankings) := by
  obtain ⟨place, hplace, htally, hvalue⟩ := h.exists_place hsorted
  refine ⟨x, place, tallies, hx, hplace, htally, ?_⟩
  congr 1
  refine List.map_congr_left fun ranking hranking ↦ congrArg some (hvalue ranking fun hwhole ↦ ?_)
  exact List.any_eq_true.2 ⟨ranking, hranking, hwhole⟩

/-- The partition that is open after a row. -/
theorem Within.opened {whole : Bool} {first peer position : Nat} {p : Partition}
    {tallies : List Tally} (h : Within f rows whole first peer position p tallies)
    (hcaught : Caught f rows seen first p) (hsettled : Settled f rows whole stop seen)
    (hstop : position < stop) :
    Opened f rows whole (position + 1) seen tallies
      (if p.advance.isDone then none else some p.advance) := by
  have hremaining := h.remaining_eq
  have hlt := h.lt_known
  by_cases hdone : p.remaining - 1 = 0
  · -- after the last row of the partition none is open
    have hnone : p.advance.isDone = true := beq_iff_eq.2 hdone
    rw [hnone, if_pos rfl]
    exact cut_of_done hcaught hsettled hstop (by omega)
  · have hsome : p.advance.isDone = false := beq_false_of_ne hdone
    rw [hsome, if_neg Bool.false_ne_true]
    exact ⟨first, h.advance (by omega), hcaught⟩

/-- Columns that read the same do so together. -/
theorem mapM_append_congr {read : Column → Checked (Option Scalar)} {a b b' c c' : List Column}
    (hb : b'.mapM read = b.mapM read) (hc : c'.mapM read = c.mapM read) :
    (a ++ b' ++ c').mapM read = (a ++ b ++ c).mapM read := by
  rw [List.mapM_append, List.mapM_append, List.mapM_append, List.mapM_append, hb, hc]

/-- What is built after one more row. -/
theorem Building.succ {config : WindowConfig} {metrics : WindowMetrics}
    {progress located : Progress (List Tally)} {p : Partition}
    (h : Building f rows config head base seen metrics row progress)
    (hlocated : Located f rows config.needsWholePartition metrics (base + row) seen progress located
      p) (hsorted : f.Sorted rows)
    (hsettled : Settled f rows config.needsWholePartition stop seen) (hstop : base + row < stop)
    (hrow : row < head.capacity) {x : Row} (hx : rows[base + row]? = some x)
    (hread : head.row row = .ok x) :
    Building f rows config head base seen metrics (row + 1) { located with
      aggregates := { located.aggregates with
        columns := Column.putAll row located.aggregates.columns
          (located.aggregation.map Tally.value) }
      rankings := Column.putAll row located.rankings (p.rankings config.rankings)
      open? := if p.advance.isDone then none else some p.advance } := by
  obtain ⟨first, peer, hwithin, hcaught⟩ := hlocated.within
  have haggregates := h.aggregates
  have hrankings := h.rankings
  have hwritten := h.written
  rw [← hlocated.aggregates_eq] at haggregates hwritten
  rw [← hlocated.rankings_eq] at hrankings hwritten
  have htyped := typed_values (map_aggregate_tally hwithin.tally_eq)
  have htyped' := p.typed_rankings config.rankings
  refine ⟨hwithin.opened hcaught hsettled hstop, hlocated.metrics_eq,
    haggregates.putAll hrow htyped, hrankings.putAll hrow htyped', fun j hj ↦ ?_⟩
  rcases Nat.lt_or_eq_of_le (Nat.le_of_lt_succ hj) with hlt | rfl
  · -- an earlier row reads as before
    obtain ⟨out, hemits, hout⟩ := hwritten j hlt
    refine ⟨out, hemits, (mapM_append_congr ?_ ?_).trans hout⟩
    · exact haggregates.mapM_get_putAll_of_ne hrow htyped (Nat.ne_of_lt hlt)
    · exact hrankings.mapM_get_putAll_of_ne hrow htyped' (Nat.ne_of_lt hlt)
  · refine ⟨_, hwithin.emits hsorted hx, ?_⟩
    exact Checked.mapM_append_eq_ok
      (Checked.mapM_append_eq_ok hread (haggregates.mapM_get_putAll hrow htyped))
      (hrankings.mapM_get_putAll hrow htyped')

/-- A row of the head is written, or the stream overflows. -/
theorem Views.processRow_eq (hv : Views f rows base seen e) (hs : f.Stream types rows)
    (hqueue : e.queue = head :: rest)
    (hsettled : Settled f rows e.config.needsWholePartition (base + head.length) seen)
    (hlength : head.length ≤ head.capacity) (hrow : row < head.length) {metrics : WindowMetrics}
    {progress : Progress (List Tally)} (hemitted : f.Emitted rows e.config.rankings base)
    (h : Building f rows e.config head base seen metrics row progress) :
    (∃ progress', e.processRow head row progress = .ok (progress', .ok ()) ∧
      Building f rows e.config head base seen metrics (row + 1) progress') ∨
    ∃ left refusal, e.processRow head row progress = .ok (left, .error refusal) ∧
      f.Refused rows refusal := by
  have hcapacity : row < head.capacity := Nat.lt_of_lt_of_le hrow hlength
  have hstop : base + row < base + head.length := Nat.add_lt_add_left hrow base
  rcases hv.partitionAt_eq hs hqueue hsettled hrow hstop h.opened h.metrics_eq with
    ⟨located, p, heq, hlocated⟩ | ⟨left, column, heq, hfrom⟩
  · obtain ⟨first, peer, hwithin, hcaught⟩ := hlocated.within
    obtain ⟨x, hx, hread⟩ := hv.row_eq hqueue hrow
    have haggregates := h.aggregates
    have hrankings := h.rankings
    rw [← hlocated.aggregates_eq] at haggregates
    rw [← hlocated.rankings_eq] at hrankings
    have hwrite := write_eq (map_aggregate_tally hwithin.tally_eq) haggregates hcapacity
    have hrank := WindowEngine.writeRankings_eq (ε := FrameError) p hcapacity e.config.rankings
      hrankings
    refine .inl ⟨_, ?_, h.succ hlocated hs.sorted hsettled hstop hcapacity hx hread⟩
    simp only [WindowEngine.processRow, heq, Checked.ok_bind, hv.ops_eq, hwrite, hrank]
    rfl
  · refine .inr ⟨left, _, ?_, row, column, rfl, (h.emitted hemitted).overflowsFrom hfrom⟩
    simp only [WindowEngine.processRow, heq, Checked.ok_bind]
    rfl

/-- The rows of the head from one on are written, or the stream overflows. -/
theorem Views.processRows_eq (hv : Views f rows base seen e) (hs : f.Stream types rows)
    (hqueue : e.queue = head :: rest)
    (hsettled : Settled f rows e.config.needsWholePartition (base + head.length) seen)
    (hlength : head.length ≤ head.capacity) {metrics : WindowMetrics} (count : Nat)
    (hcount : row + count = head.length) {progress : Progress (List Tally)}
    (hemitted : f.Emitted rows e.config.rankings base)
    (h : Building f rows e.config head base seen metrics row progress) :
    (∃ progress', e.processRows head (List.range' row count) progress = .ok (progress', .ok ()) ∧
      Building f rows e.config head base seen metrics head.length progress') ∨
    ∃ left refusal, e.processRows head (List.range' row count) progress =
      .ok (left, .error refusal) ∧ f.Refused rows refusal := by
  induction count generalizing row progress with
  | zero => exact .inl ⟨progress, rfl, hcount ▸ h⟩
  | succ count ih =>
    rw [List.range'_succ, WindowEngine.processRows]
    rcases hv.processRow_eq hs hqueue hsettled hlength (by omega) hemitted h with
      ⟨progress', heq, hbuilding⟩ | ⟨left, refusal, heq, hrefused⟩
    · rw [heq]
      exact ih (by omega) hbuilding
    · rw [heq]
      exact .inr ⟨left, refusal, rfl, hrefused⟩

/-! ### The head as a whole -/

/-- An engine that has given back the rows of a stream before `base` and received those before
`seen`. -/
structure Stands (f : ColumnFrames) (rows : List Row) (config : WindowConfig) (base seen : Nat)
    (e : WindowEngine (List Tally) FrameError) : Prop extends Views f rows base seen e where
  config_eq : e.config = config
  regular : ∀ b ∈ e.queue, b.Regular config.inputTypes ∧ 0 < b.length
  none_open : e.open? = none → Cut (f.partitionKey rows) rows.length base
  open_eq : ∀ p, e.open? = some p → ∃ first, first + p.length ≤ seen ∧
    Between f rows config.needsWholePartition first base p e.aggregation
  rows_eq : e.metrics.rows = base
  counts_eq : e.metrics = f.counts rows e.metrics base
  emitted : f.Emitted rows config.rankings base

variable {config : WindowConfig}

/-- What is built before the first row of the head. -/
theorem Stands.building (h : Stands f rows config base seen e)
    (hs : f.Stream config.inputTypes rows) (haggregates : config.aggregateTypes = f.aggregateTypes)
    (hqueue : e.queue = head :: rest) :
    ∃ opened, e.open?.mapM (e.extendOpen head) = .ok opened ∧
      Building f rows e.config head base seen e.metrics 0 {
        aggregation := e.aggregation
        open? := opened
        aggregates := .ofTypes e.config.aggregateTypes head.capacity
        rankings := e.config.rankings.map fun ranking ↦ .nulls ranking.dataType head.capacity
        metrics := e.metrics
        events := [] } := by
  obtain rfl := h.config_eq
  have hhead : head ∈ e.queue := hqueue ▸ List.mem_cons_self
  have hsheet : Column.Sheet f.aggregateTypes head.capacity
      (Block.ofTypes e.config.aggregateTypes head.capacity).columns := by
    rw [haggregates]
    refine Column.sheet_nulls (fun t ht ↦ ?_) head.capacity
    obtain ⟨a, -, rfl⟩ := List.mem_map.1 ht
    exact a.dataType_eq
  have hsheet' : Column.Sheet (e.config.rankings.map Ranking.dataType) head.capacity
      (e.config.rankings.map fun ranking ↦ .nulls ranking.dataType head.capacity) := by
    have htypes : ∀ t ∈ e.config.rankings.map Ranking.dataType, t = .bigInt ∨ t = .double := by
      intro t ht
      obtain ⟨ranking, -, rfl⟩ := List.mem_map.1 ht
      exact ranking.dataType_eq
    have hnulls := Column.sheet_nulls htypes head.capacity
    rwa [List.map_map] at hnulls
  cases hopen : e.open? with
  | none =>
    exact ⟨none, rfl, h.none_open hopen, h.counts_eq, hsheet, hsheet',
      fun j hj ↦ absurd hj (Nat.not_lt_zero j)⟩
  | some p =>
    obtain ⟨first, hseen, hbetween⟩ := h.open_eq p hopen
    obtain ⟨p', hp', hbetween', hcaught⟩ :=
      h.extendOpen_eq hs hqueue (h.regular head hhead).2 hbetween hseen
    refine ⟨some p', ?_, ⟨first, hbetween', hcaught⟩, h.counts_eq, hsheet, hsheet',
      fun j hj ↦ absurd hj (Nat.not_lt_zero j)⟩
    rw [Option.mapM_some, hp']
    rfl

/-- The block that is put together reads as the output rows of the head. Nothing can be put together
where no column was asked for. -/
theorem Building.assemble_eq {metrics : WindowMetrics} {progress : Progress (List Tally)}
    (h : Building f rows config head base seen metrics head.length progress)
    (hhead : head.Regular config.inputTypes) (hpos : 0 < head.length)
    (haggregates : config.aggregateTypes = f.aggregateTypes) :
    (∃ block, (WindowEngine.assemble head progress.aggregates progress.rankings :
        Except (WindowError FrameError) Block) = .ok block ∧
      f.Shown rows config.rankings base (base + head.length) [block]) ∨
    config.outputTypes = [] ∧ ∃ cause,
      (WindowEngine.assemble head progress.aggregates progress.rankings :
        Except (WindowError FrameError) Block) = .error (.assembleFailed cause) := by
  have hread : ∀ j < head.length, ∃ out, f.Emits rows config.rankings (base + j) out ∧
      Block.row ⟨head.columns ++ progress.aggregates.columns ++ progress.rankings, head.length⟩ j =
        .ok out := h.written
  rcases eq_or_ne (head.columns ++ progress.aggregates.columns ++ progress.rankings) [] with
    hnil | hne
  · -- without columns nothing can be published
    have hlengths := congrArg List.length hnil
    have htypes := congrArg List.length hhead.types_eq
    have haggregated := h.aggregates.length_eq
    have hranked := h.rankings.length_eq
    have hnone : ¬head.length ≤ 0 := Nat.not_le_of_lt hpos
    rw [Block.types, List.length_map] at htypes
    rw [List.length_append, List.length_append, List.length_nil] at hlengths
    refine .inr ⟨List.eq_nil_of_length_eq_zero ?_, .beyondCapacity head.length 0, ?_⟩
    · rw [WindowConfig.outputTypes, List.length_append, List.length_append, haggregates]
      omega
    · rw [WindowEngine.assemble, hnil]
      simp only [Block.ofColumns, Block.setLength, Block.capacity, hnone, if_false]
      rfl
  · refine .inl ⟨_, WindowEngine.assemble_eq hhead h.aggregates.size_eq h.rankings.size_eq hne,
      ?_⟩
    obtain ⟨outs, houts⟩ := Checked.exists_mapM_eq_ok fun j hj ↦
      (hread j (List.mem_range.1 hj)).imp fun _ ↦ And.right
    have hlength := Checked.length_of_mapM_eq_ok houts
    rw [List.length_range] at hlength
    refine ⟨outs, rowsOf_singleton houts, by rw [hlength], fun j out hout ↦ ?_⟩
    have hj : j < head.length := hlength ▸ (List.getElem?_eq_some_iff.1 hout).1
    obtain ⟨out', hemits, hout'⟩ := hread j hj
    obtain ⟨y, hy, hrow⟩ := Checked.getElem?_of_mapM_eq_ok houts (List.getElem?_range hj)
    obtain rfl := Option.some.inj (hout.symm.trans hy)
    obtain rfl := Except.ok.inj (hrow.symm.trans hout')
    exact hemits

/-- Why a run can stop: the stream overflows, or no column was asked for. -/
def Stops (f : ColumnFrames) (rows : List Row) (config : WindowConfig)
    (refusal : WindowError FrameError) : Prop :=
  f.Refused rows refusal ∨ config.outputTypes = [] ∧ ∃ cause, refusal = .assembleFailed cause

/-- An engine with one block less. -/
theorem Stands.next (h : Stands f rows config base seen e) (hqueue : e.queue = head :: rest)
    {progress : Progress (List Tally)}
    (hbuilt : Building f rows config head base seen e.metrics head.length progress) :
    Stands f rows config (base + head.length) seen { e with
      aggregation := progress.aggregation
      open? := progress.open?
      queue := rest
      outputCount := head.length
      metrics := { progress.metrics with
        blocks := progress.metrics.blocks + 1
        rows := progress.metrics.rows + head.length } } := by
  obtain ⟨hshows, hlength⟩ := h.from_row hqueue (Nat.le_refl head.length)
  rw [hqueue, rowsFrom_length] at hshows hlength
  have hopened := hbuilt.opened
  refine ⟨⟨h.ops_eq, hshows, hlength, h.seen_le, h.finished⟩, h.config_eq, fun b hb ↦ ?_,
    fun hnone ↦ ?_, fun p hp ↦ ?_, ?_, ?_, ?_⟩
  · exact h.regular b (hqueue ▸ List.mem_cons_of_mem _ hb)
  · replace hnone : progress.open? = none := hnone
    rwa [hnone] at hopened
  · replace hp : progress.open? = some p := hp
    rw [hp] at hopened
    obtain ⟨first, hbetween, hcaught⟩ := hopened
    exact ⟨first, hcaught.1, hbetween⟩
  · show progress.metrics.rows + head.length = base + head.length
    rw [hbuilt.metrics_eq, counts, h.rows_eq]
  · show ({ progress.metrics with
      blocks := progress.metrics.blocks + 1
      rows := progress.metrics.rows + head.length } : WindowMetrics) = _
    rw [hbuilt.metrics_eq]
    rfl
  · exact hbuilt.emitted h.emitted

/-- An engine that processes its head gives its output rows back and goes on behind it. -/
theorem Stands.process_eq (h : Stands f rows config base seen e)
    (hs : f.Stream config.inputTypes rows) (haggregates : config.aggregateTypes = f.aggregateTypes)
    (hqueue : e.queue = head :: rest)
    (hsettled : Settled f rows config.needsWholePartition (base + head.length) seen) :
    (∃ e' block events, e.process = .ok (e', .ok block, events) ∧
      Stands f rows config (base + head.length) seen e' ∧ e'.queue = rest ∧
      e'.isFinished = e.isFinished ∧
      f.Shown rows config.rankings base (base + head.length) [block]) ∨
    ∃ e' refusal events, e.process = .ok (e', .error refusal, events) ∧
      f.Stops rows config refusal := by
  obtain ⟨hregular, hpos⟩ := h.regular head (hqueue ▸ List.mem_cons_self)
  obtain ⟨opened, hopened, hbuilding⟩ := h.building hs haggregates hqueue
  obtain rfl := h.config_eq
  have hrows := h.processRows_eq hs hqueue hsettled hregular.length_le head.length
    (Nat.zero_add _) h.emitted hbuilding
  rw [← List.range_eq_range'] at hrows
  rcases hrows with ⟨progress, heq, hbuilt⟩ | ⟨left, refusal, heq, hrefused⟩
  · rcases hbuilt.assemble_eq hregular hpos haggregates with
      ⟨block, hblock, hshown⟩ | ⟨hnone, cause, hblock⟩
    · exact .inl ⟨_, block, _, by
        simp only [WindowEngine.process, hqueue, hopened, heq, hblock, Checked.ok_bind]
        rfl, h.next hqueue hbuilt, rfl, rfl, hshown⟩
    · exact .inr ⟨_, _, _, by
        simp only [WindowEngine.process, hqueue, hopened, heq, hblock, Checked.ok_bind]
        rfl, .inr ⟨hnone, cause, rfl⟩⟩
  · exact .inr ⟨_, refusal, _, by
      simp only [WindowEngine.process, hqueue, hopened, heq, Checked.ok_bind]
      rfl, .inl hrefused⟩

end Columnar.ColumnFrames
