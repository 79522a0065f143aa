import Columnar.Proofs.Window.Steps

/-!
# Rows out of sight

An engine that has more rows in sight than another one, none of them tied to a row of the head,
processes the head alike (`Widens.answer_eq`). Nothing is assumed of the state they are in, so the
partition may have been cut before, or its aggregation may have failed.

## Partitions that are alike

The two engines may know a different length of a partition, so the same partition is not the same
value in both. Partitions are `Alike` if they are in one place, and **more may be known of one of
them only where no value depends on it**, and not so that one of them takes the partition to end
within the head. With the second condition the two are done at the same row, and open the next
partition together.

## The steps

Each function of the engine is compared with itself (`extendOpen_related` to `processRows_related`),
with operations that are abandoned alike or give results that correspond. Counting is the only place
where the additional rows are looked at: it comes as far in the longer list, and goes on only where
all in the shorter one match (`Checked.countWhile_append_related`). A frame ends in sight of both,
so there it does not go on.
-/

namespace Columnar

/-- Counting leading matches in a longer list comes as far, and goes on only where all in the
shorter one match. -/
theorem Checked.countWhile_append_related {α : Type} {test : α → Checked Bool} (xs : List α)
    {ys : List α} (hys : ∀ y ∈ ys, ∃ same, test y = .ok same) :
    Checked.Related (fun count count' ↦ count ≤ xs.length ∧
        (count' = count ∨ count = xs.length ∧ count ≤ count') ∧
        ((∀ y ∈ ys, test y = .ok false) → count' = count))
      (Checked.countWhile test xs) (Checked.countWhile test (xs ++ ys)) := by
  induction xs with
  | nil =>
    obtain ⟨count', hcount', -, htaken, -⟩ := Checked.countWhile_gives hys
    rw [List.nil_append, hcount']
    refine .ok ⟨Nat.le_refl 0, .inr ⟨rfl, Nat.zero_le _⟩, fun hfalse ↦ ?_⟩
    cases ys with
    | nil =>
      obtain rfl := Except.ok.inj hcount'
      rfl
    | cons y ys =>
      rw [Checked.countWhile, hfalse y List.mem_cons_self] at hcount'
      exact (Except.ok.inj hcount').symm
  | cons x xs ih =>
    rw [List.cons_append, Checked.countWhile, Checked.countWhile]
    cases test x with
    | error trap => exact .error trap
    | ok same =>
      cases same with
      | false => exact .ok ⟨Nat.zero_le _, .inl rfl, fun _ ↦ rfl⟩
      | true =>
        refine ih.bind ?_
        rintro count count' - - ⟨hle, hcount, hfalse⟩
        refine .ok ?_
        rw [List.length_cons]
        exact ⟨Nat.succ_le_succ hle, by omega, fun h ↦ congrArg (· + 1) (hfalse h)⟩

/-- More blocks at the end of a queue bring their rows in sight. -/
theorem rowsFrom_append (head : Block) (rest more : List Block) (row : Nat) :
    rowsFrom (head :: rest ++ more) row =
      rowsFrom (head :: rest) row ++ more.flatMap Block.refs := by
  rw [List.cons_append, rowsFrom, rowsFrom, List.flatMap_append, ← List.append_assoc]
  rfl

/-! ### Partitions that are alike -/

/-- Partitions in one place, of which more may be known if no value depends on the whole of it. -/
structure Partition.Alike (whole : Bool) (sight : Nat) (p p' : Partition) : Prop where
  peers_eq : p'.peers = p.peers
  rowNumber_eq : p'.rowNumber = p.rowNumber
  rank_eq : p'.rank = p.rank
  denseRank_eq : p'.denseRank = p.denseRank
  /-- More is known only of a partition that goes on to the end of sight. -/
  remaining_eq : p'.remaining = p.remaining ∨
    whole = false ∧ p.remaining = sight ∧ sight ≤ p'.remaining
  length_eq : whole = true → p'.length = p.length
  percentRank_eq : whole = true → p'.percentRank = p.percentRank
  cumeDist_eq : whole = true → p'.cumeDist = p.cumeDist

namespace Partition.Alike

variable {whole : Bool} {sight : Nat} {p p' : Partition}

theorem refl (whole : Bool) (sight : Nat) (p : Partition) : Alike whole sight p p :=
  ⟨rfl, rfl, rfl, rfl, .inl rfl, fun _ ↦ rfl, fun _ ↦ rfl, fun _ ↦ rfl⟩

theorem newFrame (h : Alike whole sight p p') (count : Nat) :
    Alike whole sight (p.newFrame count) (p'.newFrame count) := by
  refine ⟨rfl, h.rowNumber_eq, h.rowNumber_eq, congrArg (· + 1) h.denseRank_eq, h.remaining_eq,
    h.length_eq, fun hwhole ↦ ?_, fun hwhole ↦ ?_⟩
  · rw [Partition.newFrame, Partition.newFrame, h.length_eq hwhole, h.rowNumber_eq]
  · rw [Partition.newFrame, Partition.newFrame, h.length_eq hwhole, h.rowNumber_eq]

theorem advance (h : Alike whole (sight + 1) p p') : Alike whole sight p.advance p'.advance := by
  refine ⟨congrArg (· - 1) h.peers_eq, congrArg (· + 1) h.rowNumber_eq, h.rank_eq, h.denseRank_eq,
    ?_, h.length_eq, h.percentRank_eq, h.cumeDist_eq⟩
  show p'.remaining - 1 = p.remaining - 1 ∨
    whole = false ∧ p.remaining - 1 = sight ∧ sight ≤ p'.remaining - 1
  rcases h.remaining_eq with heq | ⟨hwhole, heq, hle⟩
  · exact .inl (congrArg (· - 1) heq)
  · exact .inr ⟨hwhole, by omega, by omega⟩

/-- As long as there are more rows in sight the same partitions are done. -/
theorem isDone_eq (h : Alike whole sight p p') (hsight : 0 < sight) : p'.isDone = p.isDone := by
  rw [Partition.isDone, Partition.isDone]
  rcases h.remaining_eq with heq | ⟨-, heq, hle⟩
  · rw [heq]
  · rw [beq_false_of_ne (show p'.remaining ≠ 0 by omega),
      beq_false_of_ne (show p.remaining ≠ 0 by omega)]

theorem value_eq (h : Alike whole sight p p') {ranking : Ranking}
    (hranking : ranking.needsWholePartition = true → whole = true) :
    ranking.value p' = ranking.value p := by
  cases ranking with
  | rowNumber => rw [Ranking.value, Ranking.value, h.rowNumber_eq]
  | rank => rw [Ranking.value, Ranking.value, h.rank_eq]
  | denseRank => rw [Ranking.value, Ranking.value, h.denseRank_eq]
  | percentRank => rw [Ranking.value, Ranking.value, h.percentRank_eq (hranking rfl)]
  | cumeDist => rw [Ranking.value, Ranking.value, h.cumeDist_eq (hranking rfl)]

end Partition.Alike

namespace WindowEngine

variable {σ ε : Type}

/-- What processing the head gives. -/
def answer (e : WindowEngine σ ε) : Checked (Except (WindowError ε) Block) := do
  return (← e.process).2.1

/-- The same was built, with partitions that are alike. -/
structure BuiltAlike (whole : Bool) (sight : Nat) (progress progress' : Progress σ) : Prop where
  aggregation_eq : progress'.aggregation = progress.aggregation
  aggregates_eq : progress'.aggregates = progress.aggregates
  rankings_eq : progress'.rankings = progress.rankings
  open_rel : Option.Rel (Partition.Alike whole sight) progress.open? progress'.open?

/-- Partitions that are alike were found with the same built, or nothing was for the same reason. -/
inductive Found (whole : Bool) (sight : Nat) :
    Progress σ × Except (WindowError ε) Partition →
      Progress σ × Except (WindowError ε) Partition → Prop
  | partition {progress progress' : Progress σ} {p p' : Partition} :
    progress'.aggregation = progress.aggregation →
    progress'.aggregates = progress.aggregates → progress'.rankings = progress.rankings →
    p.Alike whole sight p' → Found whole sight (progress, .ok p) (progress', .ok p')
  | refused {progress progress' : Progress σ} (refusal : WindowError ε) :
    Found whole sight (progress, .error refusal) (progress', .error refusal)

/-- What is written depends on the values of the rankings. -/
theorem writeRankings_congr {p p' : Partition} (row : Nat) {rankings : List Ranking}
    (h : ∀ ranking ∈ rankings, ranking.value p' = ranking.value p) (columns : List Column) :
    (writeRankings p' row rankings columns : Except (WindowError ε) (List Column)) =
      writeRankings p row rankings columns := by
  induction rankings generalizing columns with
  | nil => rfl
  | cons ranking rankings ih =>
    cases columns with
    | nil => rfl
    | cons column columns =>
      rw [writeRankings, writeRankings, h ranking List.mem_cons_self,
        ih fun ranking hranking ↦ h ranking (List.mem_cons_of_mem _ hranking)]

/-- An engine `e'` with the same head as `e` that has more rows in sight, none of them tied to a row
of the head. The head ends in sight of both. -/
structure Widens (head : Block) (rest more : List Block) (e e' : WindowEngine σ ε) : Prop where
  queue_eq : e.queue = head :: rest
  queue_eq' : e'.queue = head :: rest ++ more
  config_eq : e'.config = e.config
  ops_eq : e'.ops = e.ops
  aggregation_eq : e'.aggregation = e.aggregation
  open_eq : e'.open? = e.open?
  nonempty : 0 < head.length
  behind : 0 < (rest.flatMap Block.refs).length
  remaining_le : ∀ p, e.open? = some p → p.remaining ≤ (rowsFrom e.queue 0).length
  answers : ∀ row < head.length, ∀ ref ∈ more.flatMap Block.refs,
    ∃ same, e.ops.samePartition head row ref.1 ref.2 = .ok same
  peers : ∀ row < head.length, ∀ ref ∈ more.flatMap Block.refs,
    e.ops.peers head row ref.1 ref.2 = .ok false
  partitions : e.config.needsWholePartition = true → ∀ row < head.length,
    ∀ ref ∈ more.flatMap Block.refs, e.ops.samePartition head row ref.1 ref.2 = .ok false

namespace Widens

variable {head : Block} {rest more : List Block} {e e' : WindowEngine σ ε} {row : Nat}
  {progress progress' : Progress σ} {p p' : Partition}

theorem rowsFrom_eq (h : Widens head rest more e e') (row : Nat) :
    rowsFrom e'.queue row = rowsFrom e.queue row ++ more.flatMap Block.refs := by
  rw [h.queue_eq', h.queue_eq, rowsFrom_append]

/-- Behind a row of the head there are more rows in sight. -/
theorem exists_sight (h : Widens head rest more e e') (hrow : row < head.length) :
    (rowsFrom e.queue row).length = (rowsFrom e.queue (row + 1)).length + 1 ∧
      0 < (rowsFrom e.queue (row + 1)).length := by
  have hbehind := h.behind
  rw [h.queue_eq, rowsFrom_succ hrow]
  refine ⟨rfl, ?_⟩
  rw [rowsFrom, List.length_append]
  exact Nat.add_pos_right _ hbehind

/-- The open partition is counted on. -/
theorem extendOpen_related (h : Widens head rest more e e')
    (hle : p.remaining ≤ (rowsFrom e.queue 0).length) :
    Checked.Related (Partition.Alike e.config.needsWholePartition (rowsFrom e.queue 0).length)
      (e.extendOpen head p) (e'.extendOpen head p) := by
  rw [extendOpen, extendOpen, h.ops_eq, h.rowsFrom_eq]
  split_ifs with hfinal
  · exact .ok (.refl _ _ p)
  rw [List.drop_append_of_le_length hle]
  refine (Checked.countWhile_append_related ((rowsFrom e.queue 0).drop p.remaining)
    (h.answers 0 h.nonempty)).bind ?_
  rintro count count' - - ⟨-, hcount, hfalse⟩
  have hwhole (hneeds : e.config.needsWholePartition = true) : count' = count :=
    hfalse (h.partitions hneeds 0 h.nonempty)
  refine .ok ⟨rfl, rfl, rfl, rfl, ?_, fun hneeds ↦ ?_, fun _ ↦ rfl, fun _ ↦ rfl⟩
  · show p.remaining + count' = p.remaining + count ∨ _ ∧
      p.remaining + count = (rowsFrom e.queue 0).length ∧ _ ≤ p.remaining + count'
    rw [List.length_drop] at hcount
    cases hneeds : e.config.needsWholePartition with
    | true => exact .inl (congrArg _ (hwhole hneeds))
    | false =>
      rcases hcount with heq | ⟨heq, hge⟩
      · exact .inl (congrArg _ heq)
      · exact .inr ⟨rfl, by omega, by omega⟩
  · exact congrArg (p.length + ·) (hwhole hneeds)

/-- A partition is opened. -/
theorem openPartition_related (h : Widens head rest more e e') (hrow : row < head.length)
    (hbuilt : BuiltAlike e.config.needsWholePartition (rowsFrom e.queue row).length progress
      progress') :
    Checked.Related (Found e.config.needsWholePartition (rowsFrom e.queue row).length)
      (e.openPartition head row progress) (e'.openPartition head row progress') := by
  rw [openPartition, openPartition, h.ops_eq, h.rowsFrom_eq, hbuilt.aggregation_eq]
  refine (Checked.countWhile_append_related _ (h.answers row hrow)).bind ?_
  rintro count count' - - ⟨-, hcount, hfalse⟩
  have hwhole (hneeds : e.config.needsWholePartition = true) : count' = count :=
    hfalse (h.partitions hneeds row hrow)
  generalize e.ops.reset progress.aggregation = reset
  obtain ⟨aggregation, done⟩ := reset
  cases done with
  | false => exact .ok (.refused _)
  | true =>
    refine .ok (.partition rfl hbuilt.aggregates_eq hbuilt.rankings_eq ⟨rfl, rfl, rfl, rfl, ?_,
      hwhole, fun _ ↦ rfl, fun _ ↦ rfl⟩)
    show count' = count ∨ _ ∧ count = (rowsFrom e.queue row).length ∧ _ ≤ count'
    cases hneeds : e.config.needsWholePartition with
    | true => exact .inl (hwhole hneeds)
    | false =>
      rcases hcount with heq | ⟨heq, hge⟩
      · exact .inl heq
      · exact .inr ⟨rfl, heq, heq ▸ hge⟩

theorem aggregateRows_eq (h : Widens head rest more e e') (refs : List (Block × Nat))
    (aggregation : σ) : e'.aggregateRows aggregation refs = e.aggregateRows aggregation refs := by
  induction refs generalizing aggregation with
  | nil => rfl
  | cons ref refs ih => simp only [aggregateRows, h.ops_eq, ih]

/-- A frame is opened. It ends in sight, so it is the same. -/
theorem openFrame_related (h : Widens head rest more e e') (hrow : row < head.length)
    (haggregation : progress'.aggregation = progress.aggregation)
    (haggregates : progress'.aggregates = progress.aggregates)
    (hrankings : progress'.rankings = progress.rankings)
    (hp : p.Alike e.config.needsWholePartition (rowsFrom e.queue row).length p') :
    Checked.Related (Found e.config.needsWholePartition (rowsFrom e.queue row).length)
      (e.openFrame head row p progress) (e'.openFrame head row p' progress') := by
  -- what one of them knows of the partition and the other does not is out of sight of this
  have hrows : ∃ count, (rowsFrom e'.queue row).take p'.remaining =
      (rowsFrom e.queue row).take p.remaining ++ (more.flatMap Block.refs).take count := by
    rw [h.rowsFrom_eq, List.take_append]
    refine ⟨_, congrArg (· ++ _) ?_⟩
    rcases hp.remaining_eq with heq | ⟨-, heq, hle⟩
    · rw [heq]
    · rw [List.take_of_length_le hle, heq, List.take_length]
  obtain ⟨taken, hrows⟩ := hrows
  have hfalse : ∀ ref ∈ (more.flatMap Block.refs).take taken,
      e.ops.peers head row ref.1 ref.2 = .ok false :=
    fun ref href ↦ h.peers row hrow ref (List.mem_of_mem_take href)
  rw [openFrame, openFrame, h.ops_eq, hrows, haggregation]
  refine (Checked.countWhile_append_related _ fun ref href ↦ ⟨false, hfalse ref href⟩).bind ?_
  rintro count count' - - ⟨hle, -, hsame⟩
  obtain rfl := hsame hfalse
  rw [List.take_append_of_le_length hle, h.aggregateRows_eq]
  refine .bind_same ?_
  rintro ⟨aggregation, result⟩
  cases result with
  | error cause => exact .ok (.refused _)
  | ok => exact .ok (.partition rfl haggregates hrankings (hp.newFrame count'))

/-- A frame is opened in a partition that was found, if the last one is done. -/
theorem frame_related (h : Widens head rest more e e') (hrow : row < head.length)
    {found found' : Progress σ × Except (WindowError ε) Partition}
    (hfound : Found e.config.needsWholePartition (rowsFrom e.queue row).length found found') :
    Checked.Related (Found e.config.needsWholePartition (rowsFrom e.queue row).length)
      (match found.2 with
        | .error refusal => pure (found.1, .error refusal)
        | .ok p => if p.isFrameDone then e.openFrame head row p found.1 else pure (found.1, .ok p))
      (match found'.2 with
        | .error refusal => pure (found'.1, .error refusal)
        | .ok p =>
          if p.isFrameDone then e'.openFrame head row p found'.1 else pure (found'.1, .ok p)) := by
  cases hfound with
  | refused refusal => exact .ok (.refused refusal)
  | @partition progress progress' p p' haggregation haggregates hrankings hp =>
    have hdone : p'.isFrameDone = p.isFrameDone := by
      rw [Partition.isFrameDone, Partition.isFrameDone, hp.peers_eq]
    simp only [hdone]
    cases p.isFrameDone with
    | true => exact h.openFrame_related hrow haggregation haggregates hrankings hp
    | false => exact .ok (.partition haggregation haggregates hrankings hp)

/-- The partition of a row is found. -/
theorem partitionAt_related (h : Widens head rest more e e') (hrow : row < head.length)
    (hbuilt : BuiltAlike e.config.needsWholePartition (rowsFrom e.queue row).length progress
      progress') :
    Checked.Related (Found e.config.needsWholePartition (rowsFrom e.queue row).length)
      (e.partitionAt head row progress) (e'.partitionAt head row progress') := by
  rw [partitionAt, partitionAt]
  have hopen := hbuilt.open_rel
  generalize hp : progress.open? = open? at hopen
  generalize hp' : progress'.open? = open?' at hopen
  cases hopen with
  | none =>
    exact (h.openPartition_related hrow hbuilt).bind
      fun _ _ _ _ hfound ↦ h.frame_related hrow hfound
  | some halike =>
    exact h.frame_related hrow
      (.partition hbuilt.aggregation_eq hbuilt.aggregates_eq hbuilt.rankings_eq halike)

/-- A row of the head is processed. -/
theorem processRow_related (h : Widens head rest more e e') (hrow : row < head.length)
    (hbuilt : BuiltAlike e.config.needsWholePartition (rowsFrom e.queue row).length progress
      progress') :
    Checked.Related (fun a b ↦ b.2 = a.2 ∧ (a.2 = .ok () →
        BuiltAlike e.config.needsWholePartition (rowsFrom e.queue (row + 1)).length a.1 b.1))
      (e.processRow head row progress) (e'.processRow head row progress') := by
  obtain ⟨hsight, hpos⟩ := h.exists_sight hrow
  rw [processRow, processRow]
  refine (h.partitionAt_related hrow hbuilt).bind fun found found' _ _ hfound ↦ ?_
  cases hfound with
  | refused refusal => exact .ok ⟨rfl, by simp⟩
  | @partition progress progress' p p' haggregation haggregates hrankings hp =>
    rw [hsight] at hp
    simp only [h.ops_eq, h.config_eq, haggregation, haggregates, hrankings]
    refine .bind_same ?_
    rintro ⟨aggregation, aggregates, result⟩
    cases result with
    | error cause => exact .ok ⟨rfl, by simp⟩
    | ok =>
      have hvalues : ∀ ranking ∈ e.config.rankings, ranking.value p' = ranking.value p :=
        fun ranking hranking ↦ hp.value_eq fun hneeds ↦
          List.any_eq_true.2 ⟨ranking, hranking, hneeds⟩
      simp only [writeRankings_congr row hvalues]
      cases writeRankings p row e.config.rankings progress.rankings with
      | error refusal => exact .ok ⟨rfl, by simp⟩
      | ok rankings =>
        refine .ok ⟨rfl, fun _ ↦ ⟨rfl, rfl, rfl, ?_⟩⟩
        simp only [hp.advance.isDone_eq hpos]
        cases p.advance.isDone with
        | true => exact .none
        | false => exact .some hp.advance

/-- The rows of the head are processed from one on. -/
theorem processRows_related (h : Widens head rest more e e') (count : Nat)
    (hcount : row + count = head.length)
    (hbuilt : BuiltAlike e.config.needsWholePartition (rowsFrom e.queue row).length progress
      progress') :
    Checked.Related (fun a b ↦ b.2 = a.2 ∧ (a.2 = .ok () →
        b.1.aggregates = a.1.aggregates ∧ b.1.rankings = a.1.rankings))
      (e.processRows head (List.range' row count) progress)
      (e'.processRows head (List.range' row count) progress') := by
  induction count generalizing row progress progress' with
  | zero => exact .ok ⟨rfl, fun _ ↦ ⟨hbuilt.aggregates_eq, hbuilt.rankings_eq⟩⟩
  | succ count ih =>
    rw [List.range'_succ, processRows, processRows]
    refine (h.processRow_related (by omega) hbuilt).bind ?_
    rintro ⟨left, result⟩ ⟨left', result'⟩ - - ⟨hresult, hnext⟩
    obtain rfl : result' = result := hresult
    cases result' with
    | error refusal => exact .ok ⟨rfl, by simp⟩
    | ok => exact ih (by omega) (hnext rfl)

/-- Processing the head gives the same. -/
theorem answer_eq (h : Widens head rest more e e') : e'.answer = e.answer := by
  have hopened : Checked.Related
      (Option.Rel (Partition.Alike e.config.needsWholePartition (rowsFrom e.queue 0).length))
      (e.open?.mapM (e.extendOpen head)) (e'.open?.mapM (e'.extendOpen head)) := by
    rw [h.open_eq]
    cases hopen : e.open? with
    | none => exact .ok .none
    | some p =>
      rw [Option.mapM_some, Option.mapM_some]
      exact (h.extendOpen_related (h.remaining_le p hopen)).bind fun _ _ _ _ hp ↦ .ok (.some hp)
  have hprocess : Checked.Related (fun a b ↦ b.2.1 = a.2.1) e.process e'.process := by
    simp only [process, h.queue_eq, h.queue_eq', List.cons_append, List.range_eq_range']
    refine hopened.bind fun opened opened' _ _ hopened ↦ ?_
    have hbegun : BuiltAlike e.config.needsWholePartition (rowsFrom e.queue 0).length
        (e.begun head opened) (e'.begun head opened') := by
      refine ⟨h.aggregation_eq, ?_, ?_, hopened⟩
      · rw [begun, begun, h.config_eq]
      · rw [begun, begun, h.config_eq]
    refine (h.processRows_related head.length (Nat.zero_add _) hbegun).bind ?_
    rintro ⟨left, result⟩ ⟨left', result'⟩ - - ⟨hresult, hleft⟩
    obtain rfl : result' = result := hresult
    cases result' with
    | error refusal => exact .ok rfl
    | ok =>
      obtain ⟨haggregates, hrankings⟩ : left'.aggregates = left.aggregates ∧
          left'.rankings = left.rankings := hleft rfl
      simp only [haggregates, hrankings]
      cases assemble head left.aggregates left.rankings with
      | error refusal => exact .ok rfl
      | ok output => exact .ok rfl
  exact Checked.Related.eq (hprocess.bind fun _ _ _ _ heq ↦ .ok heq)

end Widens

end WindowEngine

end Columnar
