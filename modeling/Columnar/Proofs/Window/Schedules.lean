import Columnar.Proofs.Window.Sessions

/-!
# Schedules do not matter

The rows that calls push are a stream for frames that were described for their types
(`Feeds.stream`), and what a session of a stream gives back is the output rows of the stream.
Neither the cutting of rows into blocks nor the time at which heads are processed is part of a
stream, and that is the whole reason why they do not matter.

* Two sessions agree however their rows are cut into blocks and whenever heads are processed
  (`sessions_agree`). **They also agree in failing**: if the stream overflows both are stopped by a
  sum, and no cutting or waiting avoids it.
* Every output row has the rankings of its place in the whole stream (`rankings_of_session`), in
  closed form, and partitions and frames are counted as the stream has them.

Both are for patient sessions. An engine that is made to process its head too early cuts a frame,
and what it gives back then depends on where the block ended.

Where no column is asked for a session stops with a refusal that is about putting blocks together.
This is set apart by a condition on the configuration.
-/

namespace Columnar.ColumnFrames

variable {f : ColumnFrames} {rows : List Row} {config : WindowConfig} {calls : List WindowCall}
  {partitionColumns orderColumns : List Nat} {aggregates : List Aggregate} {types : List DataType}

/-! ### Streams that are fed -/

/-- Checks that all pass. -/
theorem of_forM_eq_ok {α ε : Type} {check : α → Except ε Unit} {xs : List α} {u : Unit}
    (h : xs.forM check = .ok u) : ∀ x ∈ xs, check x = .ok () := by
  induction xs with
  | nil => exact fun x hx ↦ absurd hx List.not_mem_nil
  | cons x xs ih =>
    obtain ⟨u', hx, h⟩ := exists_of_bind_eq_ok h
    intro y hy
    rcases List.mem_cons.1 hy with rfl | hy
    · exact hx
    · exact ih h y hy

/-- Frames that were described for some types can be read from inputs of these. -/
theorem fits_of_ofColumns (h : ofColumns partitionColumns orderColumns aggregates types = .ok f) :
    f.Fits types := by
  rw [ofColumns] at h
  obtain ⟨u, hcolumns, h⟩ := exists_of_bind_eq_ok h
  obtain ⟨u', haggregates, h⟩ := exists_of_bind_eq_ok h
  obtain rfl := Except.ok.inj h
  have hcolumn (column : Nat) (hmem : column ∈ partitionColumns ++ orderColumns) :
      column < types.length := by
    have hcheck := of_forM_eq_ok hcolumns column hmem
    rw [checkColumn] at hcheck
    split_ifs at hcheck with hlt
    exact hlt
  refine ⟨fun column hmem ↦ hcolumn column (List.mem_append_left _ hmem),
    fun column hmem ↦ hcolumn column (List.mem_append_right _ hmem),
    fun aggregate hmem column hread ↦ ?_⟩
  -- an aggregate of a column that is not there would have been refused
  by_contra hout
  have hcheck := of_forM_eq_ok haggregates aggregate hmem
  have hnone := List.getElem?_eq_none (Nat.le_of_not_lt hout)
  simp [checkAggregate, hread, hnone] at hcheck

/-- The rows of blocks of some types have a value for each. -/
theorem length_of_mem_rowsOf {blocks : List Block} (hregular : ∀ b ∈ blocks, b.Regular types)
    (h : rowsOf blocks = .ok rows) : ∀ x ∈ rows, x.length = types.length := by
  intro x hx
  obtain ⟨b, hb, index, hrow⟩ := exists_row_of_mem_rowsOf h hx
  rw [Block.length_row hrow, ← (hregular b hb).types_eq, Block.types, List.length_map]
  rfl

/-- What calls push is a stream. -/
theorem Feeds.stream (h : f.Feeds rows config calls)
    (hf : ofColumns partitionColumns orderColumns aggregates config.inputTypes = .ok f)
    (hsorted : f.Sorted rows) : f.Stream config.inputTypes rows where
  fits := fits_of_ofColumns hf
  length_row := length_of_mem_rowsOf h.regular h.rows_eq
  sorted := hsorted

/-! ### Sessions that agree -/

/-- A session that was stopped by a sum that is out of range. -/
def Overflowed (run : WindowRun (List Tally) FrameError) : Prop :=
  ∃ row column, run.refusal? = some (.aggregateFailed row (.sumOverflow column))

/-- A session of a stream that went through, with the rows it gave back. -/
structure Completes (f : ColumnFrames) (rows : List Row)
    (run : WindowRun (List Tally) FrameError) (outs : List Row) : Prop where
  refusal_eq : run.refusal? = none
  output_eq : rowsOf run.output = .ok outs
  canAdvance_eq : run.engine.canAdvance = .ok false
  rows_eq : run.engine.metrics.rows = rows.length
  partitions_eq : run.engine.metrics.partitions = groupsFrom (f.partitionKey rows) 0 rows.length
  frames_eq : run.engine.metrics.frames = groupsFrom (f.peerKey rows) 0 rows.length

/-- An engine that has given everything back completes its session. -/
theorem Stands.completes {run : WindowRun (List Tally) FrameError} {seen : Nat} {outs : List Row}
    (h : Stands f rows config rows.length seen run.engine) (hqueue : run.engine.queue = [])
    (hnone : run.refusal? = none) (houts : rowsOf run.output = .ok outs) :
    f.Completes rows run outs where
  refusal_eq := hnone
  output_eq := houts
  canAdvance_eq := by
    rw [WindowEngine.canAdvance, hqueue]
    rfl
  rows_eq := h.rows_eq
  partitions_eq := congrArg WindowMetrics.partitions h.counts_eq
  frames_eq := congrArg WindowMetrics.frames h.counts_eq

/-- A session completes with the output rows of the stream, or it stops for a reason of the
stream. -/
theorem Feeds.session_eq (h : f.Feeds rows config calls) (hs : f.Stream config.inputTypes rows)
    (haggregates : config.aggregateTypes = f.aggregateTypes) :
    ∃ run, (WindowEngine.start config f.ops f.start).session calls = .ok run ∧
      ((∃ outs, f.Completes rows run outs ∧ f.Answers rows config.rankings outs) ∨
        ∃ refusal, run.refusal? = some refusal ∧ f.Stops rows config refusal) := by
  obtain ⟨run, hrun, ⟨_, hnone, ⟨rfl, hstands, hqueue⟩, hshown⟩ | hstops⟩ :=
    ColumnFrames.session_eq hs haggregates h
  · obtain ⟨outs, houts, hanswers⟩ := hshown.answers
    exact ⟨run, hrun, .inl ⟨outs, hstands.completes hqueue hnone houts, hanswers⟩⟩
  · exact ⟨run, hrun, .inr hstops⟩

/-- Where columns are asked for only a sum can stop a session. -/
theorem Stops.refused {refusal : WindowError FrameError} (h : f.Stops rows config refusal)
    (hcolumns : config.outputTypes ≠ []) : f.Refused rows refusal :=
  h.resolve_right fun hnone ↦ hcolumns hnone.1

theorem Refused.overflows {refusal : WindowError FrameError} (h : f.Refused rows refusal) :
    f.Overflows rows := by
  obtain ⟨row, column, -, position, -, hat, -⟩ := h
  exact overflows_iff_exists_overflowsAt.2 ⟨position, column, hat⟩

theorem Refused.overflowed {run : WindowRun (List Tally) FrameError}
    {refusal : WindowError FrameError} (h : f.Refused rows refusal)
    (hsome : run.refusal? = some refusal) : Overflowed run := by
  obtain ⟨row, column, rfl, -⟩ := h
  exact ⟨row, column, hsome⟩

/-- Two patient sessions that push the same rows agree. If the stream overflows both are stopped by
a sum. If not they give the same rows back, which are the output rows of the stream, one for each
row of the input and beginning with it, and count the same rows, partitions and frames. -/
theorem sessions_agree
    (hf : ofColumns partitionColumns orderColumns aggregates config.inputTypes = .ok f)
    (haggregates : config.aggregateTypes = f.aggregateTypes) (hcolumns : config.outputTypes ≠ [])
    (hsorted : f.Sorted rows) {calls' : List WindowCall} (hfeeds : f.Feeds rows config calls)
    (hfeeds' : f.Feeds rows config calls') :
    ∃ run run', (WindowEngine.start config f.ops f.start).session calls = .ok run ∧
      (WindowEngine.start config f.ops f.start).session calls' = .ok run' ∧
      (f.Overflows rows ∧ Overflowed run ∧ Overflowed run' ∨
        ¬f.Overflows rows ∧ ∃ outs, f.Answers rows config.rankings outs ∧
          outs.map (List.take config.inputTypes.length) = rows ∧
          f.Completes rows run outs ∧ f.Completes rows run' outs) := by
  have hs := hfeeds.stream hf hsorted
  obtain ⟨run, hrun, hcases⟩ := hfeeds.session_eq hs haggregates
  obtain ⟨run', hrun', hcases'⟩ := hfeeds'.session_eq hs haggregates
  refine ⟨run, run', hrun, hrun', ?_⟩
  -- whether the stream overflows decides for both sessions
  rcases hcases with ⟨outs, hcompletes, hanswers⟩ | ⟨refusal, hsome, hstops⟩
  · rcases hcases' with ⟨outs', hcompletes', hanswers'⟩ | ⟨refusal', hsome', hstops'⟩
    · obtain rfl := hanswers.unique hanswers'
      exact .inr ⟨hanswers.not_overflows, _, hanswers, hanswers.map_take hs.length_row, hcompletes,
        hcompletes'⟩
    · exact absurd (hstops'.refused hcolumns).overflows hanswers.not_overflows
  · have hrefused := hstops.refused hcolumns
    rcases hcases' with ⟨outs', hcompletes', hanswers'⟩ | ⟨refusal', hsome', hstops'⟩
    · exact absurd hrefused.overflows hanswers'.not_overflows
    · exact .inl ⟨hrefused.overflows, hrefused.overflowed hsome,
        (hstops'.refused hcolumns).overflowed hsome'⟩

/-- Frames over partitions by the first column in the order of the second one. -/
def pairFrames : ColumnFrames := ⟨[0], [1], [.sum 1]⟩

/-- A window over pairs of integers. -/
def pairConfig : WindowConfig := ⟨[.bigInt, .bigInt], [.bigInt], [.rowNumber, .percentRank]⟩

/-- The first pairs of two lists. -/
def pairBlock (firsts seconds : List Int64) (length : Nat) : Block :=
  ⟨[.int64 (.ofValues firsts), .int64 (.ofValues seconds)], length⟩

/-- Three pairs in two partitions. -/
def pairRows : List Row :=
  [(1, 1), (2, 1), (2, 3)].map fun (a, b) ↦ [some (.int64 a), some (.int64 b)]

/-- The pairs in one block. -/
def pairsAtOnce : List WindowCall := [.push (pairBlock [1, 2, 2] [1, 1, 3] 3)]

/-- The pairs in blocks of which one is empty and one has room for more, the first of them processed
before the last one is there. -/
def pairsInParts : List WindowCall :=
  [.push (pairBlock [1, 7] [1, 7] 1), .push (pairBlock [] [] 0), .push (pairBlock [2] [1] 1),
    .process, .push (pairBlock [2] [3] 1)]

theorem feeds_pairsInParts : pairFrames.Feeds pairRows pairConfig pairsInParts :=
  ⟨rfl, by decide, nofun, nofun, nofun, fun _ ↦ rfl, nofun, trivial⟩

theorem sessions_agree_pairs :
    ∃ run run',
      (WindowEngine.start pairConfig pairFrames.ops pairFrames.start).session pairsAtOnce =
        .ok run ∧
      (WindowEngine.start pairConfig pairFrames.ops pairFrames.start).session pairsInParts =
        .ok run' ∧
      ∃ outs, pairFrames.Answers pairRows pairConfig.rankings outs ∧
        outs.map (List.take 2) = pairRows ∧ pairFrames.Completes pairRows run outs ∧
        pairFrames.Completes pairRows run' outs := by
  have hfeeds : pairFrames.Feeds pairRows pairConfig pairsAtOnce := ⟨rfl, by decide, nofun, trivial⟩
  have hf : ofColumns [0] [1] [.sum 1] pairConfig.inputTypes = .ok pairFrames := rfl
  have hcolumns : pairConfig.outputTypes ≠ [] := List.cons_ne_nil _ _
  obtain ⟨run, run', hrun, hrun', hcases⟩ :=
    sessions_agree hf rfl hcolumns (by decide) hfeeds feeds_pairsInParts
  obtain ⟨run₀, hrun₀, hnone⟩ : ∃ run,
      (WindowEngine.start pairConfig pairFrames.ops pairFrames.start).session pairsAtOnce =
        .ok run ∧ run.refusal? = none :=
    ⟨_, rfl, rfl⟩
  obtain rfl := Except.ok.inj (hrun.symm.trans hrun₀)
  rcases hcases with ⟨-, ⟨row, column, hsome⟩, -⟩ | ⟨-, hagree⟩
  · rw [hnone] at hsome
    cases hsome
  · exact ⟨run, run', hrun, hrun', hagree⟩

/-! ### Rankings -/

/-- The output row of a position, and the rankings of its place. -/
theorem Answers.rankings_eq {outs : List Row} (h : f.Answers rows config.rankings outs)
    (hs : f.Stream config.inputTypes rows)
    (haggregates : config.aggregateTypes = f.aggregateTypes) {r : Nat} (hr : r < rows.length)
    {place : Place} (hplace : f.IsPlace rows r place) :
    ∃ out, outs[r]? = some out ∧
      out.drop (config.inputTypes.length + config.aggregateTypes.length) =
        config.rankings.map fun ranking ↦ some (place.value ranking) := by
  have hlt : r < outs.length := h.length_eq.symm ▸ hr
  refine ⟨outs[r], List.getElem?_eq_getElem hlt, ?_⟩
  obtain ⟨x, place', tallies, hx, hplace', htally, hout⟩ :=
    h.emits r _ (List.getElem?_eq_getElem hlt)
  obtain rfl := hplace.unique hr hplace'
  have hwidth := hs.length_row x (List.mem_of_getElem? hx)
  have htallies := congrArg List.length (map_aggregate_tally htally)
  rw [List.length_map] at htallies
  rw [hout, haggregates, aggregateTypes, List.length_map, ← htallies, ← hwidth]
  refine List.drop_left' ?_
  rw [List.length_append, List.length_map]

/-- In a session without a refusal every output row ends with the rankings of its place in the whole
stream, wherever the partition and the peers of the row were cut and however much of them the
engine had seen; and the partitions and frames that are counted are those of the stream. -/
theorem rankings_of_session
    (hf : ofColumns partitionColumns orderColumns aggregates config.inputTypes = .ok f)
    (haggregates : config.aggregateTypes = f.aggregateTypes) (hsorted : f.Sorted rows)
    (hfeeds : f.Feeds rows config calls) {run : WindowRun (List Tally) FrameError}
    (hrun : (WindowEngine.start config f.ops f.start).session calls = .ok run)
    (hnone : run.refusal? = none) :
    ∃ outs, f.Completes rows run outs ∧ outs.length = rows.length ∧
      ∀ r < rows.length, (∃ place, f.IsPlace rows r place) ∧
        ∀ first size peer peers, GroupAt (f.partitionKey rows) rows.length r first size →
          GroupAt (f.peerKey rows) rows.length r peer peers →
          ∃ out, outs[r]? = some out ∧
            out.drop (config.inputTypes.length + config.aggregateTypes.length) =
              config.rankings.map fun ranking ↦ some (Place.value {
                position := r
                first := first
                size := size
                peer := peer
                peers := peers
                group := groupsFrom (f.peerKey rows) first (peer + 1) } ranking) := by
  have hs := hfeeds.stream hf hsorted
  obtain ⟨run', hrun', ⟨outs, hcompletes, hanswers⟩ | ⟨refusal, hsome, -⟩⟩ :=
    hfeeds.session_eq hs haggregates
  · obtain rfl := Except.ok.inj (hrun.symm.trans hrun')
    refine ⟨outs, hcompletes, hanswers.length_eq, fun r hr ↦ ⟨?_, ?_⟩⟩
    · have hlt : r < outs.length := hanswers.length_eq.symm ▸ hr
      obtain ⟨x, place, tallies, -, hplace, -, -⟩ :=
        hanswers.emits r _ (List.getElem?_eq_getElem hlt)
      exact ⟨place, hplace⟩
    · intro first size peer peers hpartition hpeers
      exact hanswers.rankings_eq hs haggregates hr ⟨rfl, hpartition, hpeers, rfl⟩
  · obtain rfl := Except.ok.inj (hrun.symm.trans hrun')
    exact absurd (hnone.symm.trans hsome) (Option.some_ne_none _).symm

theorem rankings_of_session_pairs : ∃ run outs out,
    (WindowEngine.start pairConfig pairFrames.ops pairFrames.start).session pairsInParts = .ok run ∧
      pairFrames.Completes pairRows run outs ∧ outs[2]? = some out ∧
      out.drop 3 = [some (.int64 2), some (.double (.ratio 1 1))] := by
  have hf : ofColumns [0] [1] [.sum 1] pairConfig.inputTypes = .ok pairFrames := rfl
  obtain ⟨run, hrun, hnone⟩ : ∃ run,
      (WindowEngine.start pairConfig pairFrames.ops pairFrames.start).session pairsInParts =
        .ok run ∧ run.refusal? = none :=
    ⟨_, rfl, rfl⟩
  obtain ⟨outs, hcompletes, -, hplaces⟩ :=
    rankings_of_session hf rfl (by decide) feeds_pairsInParts hrun hnone
  obtain ⟨out, hout, hvalues⟩ :=
    (hplaces 2 (by decide)).2 1 2 2 1 (by decide) (by decide)
  exact ⟨run, outs, out, hrun, hcompletes, hout, hvalues⟩

end Columnar.ColumnFrames
