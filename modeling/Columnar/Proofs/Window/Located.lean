import Columnar.Proofs.Window.Progress

/-!
# Locating a row

What an engine finds out about a row of its head: it counts in the rows that wait, which are the
rows of the stream from the head on (`Views`), and so comes to know the partition of the row and its
frame (`Views.partitionAt_eq`). Either the frame is aggregated then, or the stream overflows.

There is one lemma for each of the three things that an engine does to this end, in the terms of the
module before: counting on in the partition that is open (`extendOpen_eq`), opening one
(`openPartition_eq`), and opening a frame (`openFrame_eq`). Each says what the function gives and
not only what it satisfies, so **no later module unfolds the engine's search for the end of a
frame**.

The counts of partitions and frames are carried along (`counts`): before a position they are the
partitions and frames that begin before it. Where a stream overflows the column of the refusal is
that of the first row that takes a sum out of range, from the current row on: the rows before are in
the tallies already. The row of the refusal is the one whose frame was to be opened, and may be an
earlier one.
-/

namespace Columnar.ColumnFrames

variable {f : ColumnFrames} {rows : List Row} {whole : Bool} {types : List DataType}
  {e : WindowEngine (List Tally) FrameError} {head : Block} {rest : List Block}
  {base seen stop row : Nat}

/-- An engine in whose queue wait the rows of a stream from `base` on and before `seen`. -/
structure Views (f : ColumnFrames) (rows : List Row) (base seen : Nat)
    (e : WindowEngine (List Tally) FrameError) : Prop where
  ops_eq : e.ops = f.ops
  shows : Shows rows base (rowsFrom e.queue 0)
  length_eq : base + (rowsFrom e.queue 0).length = seen
  seen_le : seen ≤ rows.length
  finished : e.isFinished = true → seen = rows.length

namespace Views

/-- The waiting rows from a row of the head on. -/
theorem from_row (hv : Views f rows base seen e) (hqueue : e.queue = head :: rest)
    (hrow : row ≤ head.length) : Shows rows (base + row) (rowsFrom e.queue row) ∧
      base + row + (rowsFrom e.queue row).length = seen := by
  have hdrop : rowsFrom e.queue row = (rowsFrom e.queue 0).drop row := by
    rw [hqueue, rowsFrom_cons hrow]
  have hle : row ≤ (rowsFrom e.queue 0).length := by
    rw [hqueue, rowsFrom_zero, List.flatMap_cons, List.length_append, Block.length_refs]
    omega
  have hlength := hv.length_eq
  refine ⟨hdrop ▸ hv.shows.drop row, ?_⟩
  rw [hdrop, List.length_drop]
  omega

/-- A row of the head is the row of the stream in its position. -/
theorem row_eq (hv : Views f rows base seen e) (hqueue : e.queue = head :: rest)
    (hrow : row < head.length) :
    ∃ x, rows[base + row]? = some x ∧ head.row row = .ok x := by
  refine hv.shows row (head, row) ?_
  rw [hqueue, rowsFrom_zero, List.flatMap_cons,
    List.getElem?_append_left (by rwa [Block.length_refs]), Block.refs, List.getElem?_map,
    List.getElem?_range hrow]
  rfl

/-- The rows of the head are in sight. -/
theorem head_le (hv : Views f rows base seen e) (hqueue : e.queue = head :: rest) :
    base + head.length ≤ seen := by
  obtain ⟨-, hlength⟩ := hv.from_row hqueue (Nat.le_refl _)
  omega

/-- What is counted in waiting rows is final if it ends among them or if the input does. -/
theorem lt_or_end_of_isFinal (hv : Views f rows base seen e) {start count length : Nat}
    (hlength : start + length = seen)
    (hfinal : (decide (count < length) || e.isFinished) = true) :
    start + count < seen ∨ seen = rows.length := by
  rw [Bool.or_eq_true, decide_eq_true_eq] at hfinal
  rcases hfinal with hlt | hfinished
  · exact .inl (by omega)
  · exact .inr (hv.finished hfinished)

/-- The open partition is counted on, as far as the rows in sight go. -/
theorem extendOpen_eq (hv : Views f rows base seen e) (hs : f.Stream types rows)
    (hqueue : e.queue = head :: rest) (hhead : 0 < head.length) {first : Nat} {p : Partition}
    {aggregation : List Tally} (h : Between f rows whole first base p aggregation)
    (hknown : first + p.length ≤ seen) :
    ∃ p', e.extendOpen head p = .ok p' ∧ Between f rows whole first base p' aggregation ∧
      Caught f rows seen first p' := by
  by_cases hfinal : p.isFinal = true
  · exact ⟨p, if_pos hfinal, h, hknown, .inr (h.cut_of_isFinal hfinal)⟩
  · obtain ⟨x, hx, hrow⟩ := hv.row_eq hqueue hhead
    have hremaining := h.remaining_eq
    have hlength := hv.length_eq
    have hunseen := hv.shows.drop p.remaining
    rw [hremaining] at hunseen
    obtain ⟨count, hcount, hle, hsame, hend⟩ := hs.countWhile_samePartition hunseen hrow hx
    have hunseenLength :
        first + p.length + ((rowsFrom e.queue 0).drop p.remaining).length = seen := by
      rw [List.length_drop]
      omega
    have hextend : e.extendOpen head p = .ok (p.extend count
        (decide (count < ((rowsFrom e.queue 0).drop p.remaining).length) || e.isFinished)) := by
      simp only [WindowEngine.extendOpen, if_neg hfinal, hv.ops_eq, hcount, Checked.ok_bind,
        Checked.pure_eq_ok]
    obtain ⟨hbetween, hcaught⟩ := h.extend hs.sorted (by omega) hv.seen_le hsame
      (fun hlt ↦ hend (by omega)) (hv.lt_or_end_of_isFinal hunseenLength)
    exact ⟨_, hextend, hbetween, hcaught⟩

/-- A partition that begins in a row of the head is opened. -/
theorem openPartition_eq (hv : Views f rows base seen e) (hs : f.Stream types rows)
    (hqueue : e.queue = head :: rest) (hsettled : Settled f rows whole stop seen)
    (hrow : row < head.length) (hstop : base + row < stop)
    (hcut : Cut (f.partitionKey rows) rows.length (base + row)) (progress : Progress (List Tally)) :
    ∃ p progress', e.openPartition head row progress = .ok (progress', .ok p) ∧
      (∃ events, progress' = { progress with
        aggregation := f.start
        metrics.partitions := progress.metrics.partitions + 1
        events := progress.events ++ events }) ∧
      Tracks f rows whole (base + row) (base + row) p ∧ Caught f rows seen (base + row) p ∧
      p.peers = 0 ∧ p.denseRank = 0 := by
  obtain ⟨x, hx, hread⟩ := hv.row_eq hqueue hrow
  obtain ⟨hshows, hlength⟩ := hv.from_row hqueue (Nat.le_of_lt hrow)
  obtain ⟨count, hcount, hle, hsame, hend⟩ := hs.countWhile_samePartition hshows hread hx
  have hhead := hv.head_le hqueue
  -- the row itself is counted
  have hpos : 0 < count := by
    refine Nat.pos_of_ne_zero fun hzero ↦ ?_
    subst hzero
    exact hend (by omega) rfl
  obtain ⟨htracks, hcaught⟩ := Tracks.start hs.sorted hsettled hcut hstop hpos (by omega)
    hv.seen_le hsame (fun hlt ↦ hend (by omega)) (hv.lt_or_end_of_isFinal hlength)
  refine ⟨_, _, ?_, ⟨[.partitionOpened count
    (decide (count < (rowsFrom e.queue row).length) || e.isFinished)], rfl⟩, htracks, hcaught,
    rfl, rfl⟩
  simp only [WindowEngine.openPartition, hv.ops_eq, hcount, Checked.ok_bind]
  rfl

/-- A frame that begins in a row of the head is aggregated, or the stream overflows. -/
theorem openFrame_eq (hv : Views f rows base seen e) (hs : f.Stream types rows)
    (hqueue : e.queue = head :: rest) (hsettled : Settled f rows whole stop seen)
    (hrow : row < head.length) (hstop : base + row < stop) {first : Nat} {p : Partition}
    (h : Tracks f rows whole first (base + row) p) (hcaught : Caught f rows seen first p)
    (hcut : Cut (f.peerKey rows) rows.length (base + row))
    (hdense : p.denseRank = groupsFrom (f.peerKey rows) first (base + row))
    {progress : Progress (List Tally)}
    (htally : f.tally rows first (base + row) = .ok progress.aggregation) :
    (∃ p' tallies, e.openFrame head row p progress = .ok ({ progress with
        aggregation := tallies
        metrics.frames := progress.metrics.frames + 1 }, .ok p') ∧
      Within f rows whole first (base + row) (base + row) p' tallies ∧
      Caught f rows seen first p') ∨
    ∃ left column, e.openFrame head row p progress =
      .ok (left, .error (.aggregateFailed row (.sumOverflow column))) ∧
        f.OverflowsFrom rows (base + row) column := by
  obtain ⟨x, hx, hread⟩ := hv.row_eq hqueue hrow
  obtain ⟨hshows, hlength⟩ := hv.from_row hqueue (Nat.le_of_lt hrow)
  have hknown := hshows.take p.remaining
  obtain ⟨count, hcount, hle, hsame, hend⟩ := hs.countWhile_peers hknown hread hx
  have hremaining := h.remaining_eq
  have hlt := h.lt_known
  have hcaughtLe := hcaught.1
  have hrest : ((rowsFrom e.queue row).take p.remaining).length = p.remaining := by
    rw [List.length_take]
    omega
  rw [hrest] at hle hend
  have hpos : 0 < count := by
    refine Nat.pos_of_ne_zero fun hzero ↦ ?_
    subst hzero
    exact hend (by omega) rfl
  obtain ⟨left, haggregate⟩ := hs.aggregateRows_eq hv.ops_eq (hknown.take count) h.first_le htally
  rw [List.length_take, hrest, Nat.min_eq_left hle] at haggregate
  cases htallied : f.tally rows first (base + row + count) with
  | ok tallies =>
    rw [htallied] at haggregate
    refine .inl ⟨p.newFrame count, tallies, ?_, Within.newFrame h hs.sorted hcaught hsettled hcut
      hstop hdense hpos hle hsame (fun hlt ↦ hend hlt) htallied, hcaught⟩
    simp only [WindowEngine.openFrame, hv.ops_eq, hcount, Checked.ok_bind, haggregate]
    rfl
  | error cause =>
    rw [htallied] at haggregate
    obtain ⟨column, rfl⟩ := exists_of_tally_eq_error htallied
    have hknownLe := h.known_le
    have hfirst := h.first_le
    refine .inr ⟨{ progress with
      aggregation := left
      metrics.frames := progress.metrics.frames + 1 }, column, ?_, ?_⟩
    · simp only [WindowEngine.openFrame, hv.ops_eq, hcount, Checked.ok_bind, haggregate]
      rfl
    · refine overflowsFrom_of_tally h.cut_first hfirst (Nat.le_add_right _ count) (by omega)
        (fun i hi hi' ↦ h.same i hi (by omega)) htally htallied

end Views

/-! ### The partition of a row -/

/-- What is open before a position: nothing where a partition begins, and else its partition. -/
def Opened (f : ColumnFrames) (rows : List Row) (whole : Bool) (position seen : Nat)
    (aggregation : List Tally) : Option Partition → Prop
  | none => Cut (f.partitionKey rows) rows.length position
  | some p =>
    ∃ first, Between f rows whole first position p aggregation ∧ Caught f rows seen first p

/-- Metrics that count the partitions and frames that begin before a position. -/
def counts (f : ColumnFrames) (rows : List Row) (metrics : WindowMetrics) (position : Nat) :
    WindowMetrics :=
  { metrics with
    partitions := groupsFrom (f.partitionKey rows) 0 position
    frames := groupsFrom (f.peerKey rows) 0 position }

/-- What locating a row leads to: its partition, with its frame aggregated and all counted. -/
structure Located (f : ColumnFrames) (rows : List Row) (whole : Bool) (metrics : WindowMetrics)
    (position seen : Nat) (progress progress' : Progress (List Tally)) (p : Partition) : Prop where
  within : ∃ first peer, Within f rows whole first peer position p progress'.aggregation ∧
    Caught f rows seen first p
  metrics_eq : progress'.metrics = f.counts rows metrics (position + 1)
  aggregates_eq : progress'.aggregates = progress.aggregates
  rankings_eq : progress'.rankings = progress.rankings

/-- The partition of a row of the head is found, or the stream overflows. -/
theorem Views.partitionAt_eq (hv : Views f rows base seen e) (hs : f.Stream types rows)
    (hqueue : e.queue = head :: rest) (hsettled : Settled f rows whole stop seen)
    (hrow : row < head.length) (hstop : base + row < stop) {metrics : WindowMetrics}
    {progress : Progress (List Tally)}
    (hopened : Opened f rows whole (base + row) seen progress.aggregation progress.open?)
    (hmetrics : progress.metrics = f.counts rows metrics (base + row)) :
    (∃ progress' p, e.partitionAt head row progress = .ok (progress', .ok p) ∧
      Located f rows whole metrics (base + row) seen progress progress' p) ∨
    ∃ left column, e.partitionAt head row progress =
      .ok (left, .error (.aggregateFailed row (.sumOverflow column))) ∧
        f.OverflowsFrom rows (base + row) column := by
  have hlt : base + row < rows.length := by
    have := hv.head_le hqueue
    have := hv.seen_le
    omega
  rw [WindowEngine.partitionAt]
  cases hopen : progress.open? with
  | none =>
    -- a partition and a frame begin here
    rw [hopen] at hopened
    have hcut : Cut (f.partitionKey rows) rows.length (base + row) := hopened
    obtain ⟨p, progress₁, heq, ⟨events, hprogress₁⟩, htracks, hcaught, hpeers, hdense⟩ :=
      hv.openPartition_eq hs hqueue hsettled hrow hstop hcut progress
    have htally : f.tally rows (base + row) (base + row) = .ok progress₁.aggregation := by
      rw [hprogress₁, tally_of_le f rows (Nat.le_refl _)]
    have hdone : p.isFrameDone = true := by rw [Partition.isFrameDone, hpeers]; rfl
    simp only [heq, Checked.ok_bind, hdone, if_true]
    rcases hv.openFrame_eq hs hqueue hsettled hrow hstop htracks hcaught (Cut.peers hcut)
      (by rw [hdense, groupsFrom_self]) htally with
      ⟨p', tallies, hframe, hwithin, hcaught'⟩ | ⟨left, column, hframe, hoverflows⟩
    · refine .inl ⟨_, p', hframe, ⟨_, _, hwithin, hcaught'⟩, ?_, by rw [hprogress₁],
        by rw [hprogress₁]⟩
      simp only [hprogress₁, hmetrics, counts, groupsFrom_succ (Nat.zero_le _), hcut.isFirst hlt,
        (Cut.peers hcut).isFirst hlt, if_true]
    · exact .inr ⟨left, column, hframe, hoverflows⟩
  | some p =>
    rw [hopen] at hopened
    obtain ⟨first, hbetween, hcaught⟩ := hopened
    have hpartition : isFirst (f.partitionKey rows) (base + row) = false :=
      isFirst_eq_false hbetween.started
        (hbetween.same _ hbetween.first_le hbetween.lt_known).symm
    simp only [Checked.pure_eq_ok, Checked.ok_bind]
    rcases Nat.eq_zero_or_pos p.peers with hpeers | hpeers
    · -- a frame begins here
      have hdone : p.isFrameDone = true := by rw [Partition.isFrameDone, hpeers]; rfl
      have hcut := hbetween.cut_frame
      have htally := hbetween.tally_eq
      rw [hpeers, Nat.add_zero] at hcut htally
      simp only [hdone, if_true]
      rcases hv.openFrame_eq hs hqueue hsettled hrow hstop hbetween.toTracks hcaught hcut
        hbetween.denseRank_eq htally with
        ⟨p', tallies, hframe, hwithin, hcaught'⟩ | ⟨left, column, hframe, hoverflows⟩
      · refine .inl ⟨_, p', hframe, ⟨_, _, hwithin, hcaught'⟩, ?_, rfl, rfl⟩
        simp only [hmetrics, counts, groupsFrom_succ (Nat.zero_le _), hpartition,
          hcut.isFirst hlt, if_true, Bool.false_eq_true, if_false, Nat.add_zero]
      · exact .inr ⟨left, column, hframe, hoverflows⟩
    · -- the row is in the frame of the row before it
      have hgoing : p.isFrameDone = false := beq_false_of_ne (Nat.ne_of_gt hpeers)
      obtain ⟨peer, hwithin⟩ := hbetween.within hpeers
      obtain ⟨peer', hpeer', hframe⟩ := hbetween.frame hpeers
      have hpeer : isFirst (f.peerKey rows) (base + row) = false :=
        isFirst_eq_false hpeer' (hframe.same_peers _ (Nat.le_of_lt hpeer') (by omega)).symm
      simp only [hgoing, Bool.false_eq_true, if_false]
      refine .inl ⟨progress, p, rfl, ⟨first, peer, hwithin, hcaught⟩, ?_, rfl, rfl⟩
      simp only [hmetrics, counts, groupsFrom_succ (Nat.zero_le _), hpartition, hpeer,
        Bool.false_eq_true, if_false, Nat.add_zero]

end Columnar.ColumnFrames
