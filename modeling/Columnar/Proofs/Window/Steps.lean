import Columnar.Proofs.Window.Counters
import Columnar.Proofs.Window.Rows

/-!
# Engines in any state

An engine whose operations are lawful can be called at any time: whatever waits, and however the
rows of partitions and of peers lie in the input, its calls are not abandoned and leave it in order
(`Sound`). It is the invariant for everything that does not need sorted input or a patient caller.

## The invariant

The blocks that wait are acceptable and none is empty, the open partition agrees with the rows that
wait, and the aggregation is regular. In a call of `process` this goes from row to row as `Built`,
which adds that the columns that are written are as they should be. **Nothing is said about
values**: an engine that has cut a frame is in order, and one whose last head was refused is too.

## The steps

There is one lemma for each function of the engine, in the order in which they call each other, from
counting the rows of a partition (`extendOpen_gives`) to processing all rows of the head
(`processRows_gives`). Each says that the function gives a result and what this is, so that traps
are excluded where they could occur and not afterwards. A row that is refused leaves the engine in
order too, which is a case of each of them and not a result of its own.

Of the operations it is only used that they are lawful: that counting finds rows that are together,
at least the first one, is why a frame has rows and a partition goes on.
-/

namespace Columnar.WindowEngine

variable {σ ε : Type} {e : WindowEngine σ ε} {accepts : Block → Prop} {regular : σ → Prop}
  {head : Block} {rest : List Block} {row : Nat} {progress : Progress σ} {p : Partition}

/-- An engine in order: the blocks that wait are acceptable and none is empty, and the open
partition agrees with the rows that wait. -/
structure Sound (accepts : Block → Prop) (regular : σ → Prop) (e : WindowEngine σ ε) : Prop where
  lawful : e.ops.Lawful accepts regular
  accepted : ∀ b ∈ e.queue, accepts b
  nonempty : ∀ b ∈ e.queue, 0 < b.length
  regular : regular e.aggregation
  unprocessed : ∀ p, e.open? = some p →
    p.Unprocessed e.ops e.isFinished (rowsFrom e.queue 0)

/-- What is built before a row of the head is in order. -/
structure Built (regular : σ → Prop) (e : WindowEngine σ ε) (row : Nat) (progress : Progress σ) :
    Prop where
  regular : regular progress.aggregation
  unprocessed : ∀ p, progress.open? = some p →
    p.Unprocessed e.ops e.isFinished (rowsFrom e.queue row)

namespace Sound

theorem rowOf (h : Sound accepts regular e) (row : Nat) :
    ∀ ref ∈ rowsFrom e.queue row, RowOf accepts ref :=
  fun _ href ↦ (exists_of_mem_rowsFrom href).imp_left (h.accepted _)

/-- More rows of the open partition are counted. -/
theorem extendOpen_gives (h : Sound accepts regular e) (hqueue : e.queue = head :: rest)
    (hopen : e.open? = some p) : (e.extendOpen head p).Gives fun p ↦
      p.Unprocessed e.ops e.isFinished (rowsFrom e.queue 0) := by
  have hp := h.unprocessed p hopen
  by_cases hfinal : p.isFinal = true
  · exact ⟨p, if_pos hfinal, hp⟩
  have hhead : 0 < head.length := h.nonempty head (hqueue ▸ List.mem_cons_self)
  have hrefs : ∃ refs, rowsFrom e.queue 0 = (head, 0) :: refs :=
    ⟨_, hqueue ▸ rowsFrom_succ hhead⟩
  have hknown := h.rowOf 0
  rw [extendOpen, if_neg hfinal]
  generalize rowsFrom e.queue 0 = refs at hp hrefs hknown ⊢
  -- the first row that waits is in the partition, and the others are compared with it
  have hmem : (head, 0) ∈ refs.take p.remaining := by
    obtain ⟨refs, rfl⟩ := hrefs
    obtain ⟨rest, hrest⟩ := Nat.exists_eq_add_one.2 hp.remaining_pos
    rw [hrest]
    exact List.mem_cons_self
  have ha : RowOf accepts (head, 0) := hknown _ (List.mem_of_mem_take hmem)
  refine (Checked.countWhile_gives fun ref href ↦
    h.lawful.samePartition.answers ha (hknown ref (List.mem_of_mem_drop href))).bind
    fun count _ ⟨hle, hsame, hend⟩ ↦ ⟨_, rfl, ?_⟩
  rw [List.length_drop] at hle ⊢
  have hremaining := hp.remaining_le
  have htaken : ∀ ref ∈ refs.take (p.remaining + count),
      e.ops.samePartition head 0 ref.1 ref.2 = .ok true := fun ref href ↦ by
    rw [List.take_add] at href
    rcases List.mem_append.1 href with href | href
    · exact hp.samePartition _ hmem ref href
    · exact hsame ref href
  have hrows : ∀ ref ∈ refs.take (p.remaining + count), RowOf accepts ref :=
    fun ref href ↦ hknown ref (List.mem_of_mem_take href)
  refine hp.extend (by omega) (h.lawful.samePartition.together ha hrows htaken)
    (fun ref href ↦ ?_) fun hseen ↦ ?_
  · refine h.lawful.samePartition.apart ha hrows htaken (hknown ref (List.mem_of_getElem? href)) ?_
    exact hend ref (by rwa [List.getElem?_drop])
  · rw [Bool.or_eq_true, decide_eq_true_iff] at hseen
    exact hseen.imp_left fun hlt ↦ by omega

/-- A partition is opened with the rows that are together with its first one. -/
theorem openPartition_gives (h : Sound accepts regular e) (hqueue : e.queue = head :: rest)
    (hrow : row < head.length) (hprogress : regular progress.aggregation) :
    (e.openPartition head row progress).Gives fun (progress, opened) ↦
      regular progress.aggregation ∧ ∀ p, opened = .ok p →
        p.Counted e.ops e.isFinished (rowsFrom e.queue row) ∧ p.rank < p.rowNumber ∧
          p.isFrameDone = true := by
  have hrefs : ∃ refs, rowsFrom e.queue row = (head, row) :: refs :=
    ⟨_, hqueue ▸ rowsFrom_succ hrow⟩
  have hknown := h.rowOf row
  rw [openPartition]
  generalize rowsFrom e.queue row = refs at hrefs hknown ⊢
  obtain ⟨refs, rfl⟩ := hrefs
  refine (h.lawful.samePartition.counted hknown).bind fun count _ ⟨hpos, hle, hsame, hapart⟩ ↦ ?_
  have hreset := h.lawful.reset hprogress
  generalize e.ops.reset progress.aggregation = reset at hreset ⊢
  obtain ⟨aggregation, done⟩ := reset
  cases done with
  | false => exact ⟨_, rfl, hreset, nofun⟩
  | true =>
    refine ⟨_, rfl, hreset, fun p hp ↦ ?_⟩
    obtain rfl := Except.ok.inj hp
    refine ⟨.start hpos hle hsame hapart fun hseen ↦ ?_, Nat.zero_lt_one, rfl⟩
    rwa [Bool.or_eq_true, decide_eq_true_iff] at hseen

/-- Rows are aggregated. -/
theorem aggregateRows_gives (h : Sound accepts regular e) {refs : List (Block × Nat)}
    (hknown : ∀ ref ∈ refs, RowOf accepts ref) {aggregation : σ}
    (haggregation : regular aggregation) :
    (e.aggregateRows aggregation refs).Gives fun (aggregation, _) ↦ regular aggregation := by
  induction refs generalizing aggregation with
  | nil => exact ⟨_, rfl, haggregation⟩
  | cons ref refs ih =>
    refine (h.lawful.aggregate haggregation (hknown ref List.mem_cons_self)).bind
      fun ⟨aggregation, result⟩ _ hregular ↦ ?_
    cases result with
    | error cause => exact ⟨_, rfl, hregular⟩
    | ok => exact ih (fun ref href ↦ hknown ref (List.mem_cons_of_mem _ href)) hregular

/-- The rows of the partition that are together with its next one as peers are counted. -/
theorem countPeers_gives (h : Sound accepts regular e) (hqueue : e.queue = head :: rest)
    (hrow : row < head.length) (hp : p.Counted e.ops e.isFinished (rowsFrom e.queue row)) :
    (Checked.countWhile (fun (block, other) ↦ e.ops.peers head row block other)
      ((rowsFrom e.queue row).take p.remaining)).Gives fun count ↦ 0 < count ∧
        count ≤ p.remaining ∧ Together e.ops.peers ((rowsFrom e.queue row).take count) := by
  obtain ⟨refs, hrefs⟩ : ∃ refs, (rowsFrom e.queue row).take p.remaining = (head, row) :: refs := by
    obtain ⟨rest, hrest⟩ := Nat.exists_eq_add_one.2 hp.remaining_pos
    exact ⟨_, by rw [hqueue, rowsFrom_succ hrow, hrest]; rfl⟩
  have hknown : ∀ ref ∈ (rowsFrom e.queue row).take p.remaining, RowOf accepts ref :=
    fun ref href ↦ h.rowOf row ref (List.mem_of_mem_take href)
  rw [hrefs] at hknown ⊢
  refine (h.lawful.peers.counted hknown).mono fun count ⟨hpos, hle, hpeers, _⟩ ↦ ?_
  rw [← hrefs, List.length_take, Nat.le_min] at hle
  rw [← hrefs, List.take_take, Nat.min_eq_left hle.1] at hpeers
  exact ⟨hpos, hle.1, hpeers⟩

/-- A frame is opened with the rows that are peers of its first one. -/
theorem openFrame_gives (h : Sound accepts regular e) (hqueue : e.queue = head :: rest)
    (hrow : row < head.length) (hprogress : regular progress.aggregation)
    (hp : p.Counted e.ops e.isFinished (rowsFrom e.queue row)) (hrank : p.rank < p.rowNumber) :
    (e.openFrame head row p progress).Gives fun (progress, framed) ↦
      regular progress.aggregation ∧ ∀ p, framed = .ok p →
        p.AtRow e.ops e.isFinished (rowsFrom e.queue row) := by
  rw [openFrame]
  refine (h.countPeers_gives hqueue hrow hp).bind fun count _ ⟨hpos, hle, hpeers⟩ ↦ ?_
  have hknown : ∀ ref ∈ ((rowsFrom e.queue row).take p.remaining).take count, RowOf accepts ref :=
    fun ref href ↦ h.rowOf row ref (List.mem_of_mem_take (List.mem_of_mem_take href))
  refine (h.aggregateRows_gives hknown hprogress).bind fun ⟨aggregation, result⟩ _ hregular ↦ ?_
  cases result with
  | error cause => exact ⟨_, rfl, hregular, nofun⟩
  | ok =>
    refine ⟨_, rfl, hregular, fun p' hp' ↦ ?_⟩
    obtain rfl := Except.ok.inj hp'
    exact hp.newFrame hrank hpos hle hpeers

/-- The partition of a row is found or opened, and its frame aggregated. -/
theorem partitionAt_gives (h : Sound accepts regular e) (hqueue : e.queue = head :: rest)
    (hrow : row < head.length) (hbuilt : Built regular e row progress) :
    (e.partitionAt head row progress).Gives fun (progress, located) ↦
      regular progress.aggregation ∧ ∀ p, located = .ok p →
        p.AtRow e.ops e.isFinished (rowsFrom e.queue row) := by
  rw [partitionAt]
  cases hopen : progress.open? with
  | some p =>
    have hp := hbuilt.unprocessed p hopen
    simp only [Checked.pure_eq_ok, Checked.ok_bind]
    cases hdone : p.isFrameDone with
    | true => exact h.openFrame_gives hqueue hrow hbuilt.regular hp.toCounted hp.rank_lt
    | false =>
      refine ⟨_, rfl, hbuilt.regular, fun p' hp' ↦ ?_⟩
      obtain rfl := Except.ok.inj hp'
      exact hp.atRow (Nat.pos_of_ne_zero (ne_of_beq_false hdone))
  | none =>
    refine (h.openPartition_gives hqueue hrow hbuilt.regular).bind
      fun ⟨progress, opened⟩ _ ⟨hregular, hopened⟩ ↦ ?_
    cases opened with
    | error refusal => exact ⟨_, rfl, hregular, nofun⟩
    | ok p =>
      obtain ⟨hp, hrank, hdone⟩ := hopened p rfl
      simp only [hdone, if_true]
      exact h.openFrame_gives hqueue hrow hregular hp hrank

/-- A row of the head is processed. -/
theorem processRow_gives (h : Sound accepts regular e) (hqueue : e.queue = head :: rest)
    (hrow : row < head.length) (hbuilt : Built regular e row progress) :
    (e.processRow head row progress).Gives fun (progress, result) ↦
      regular progress.aggregation ∧ (result = .ok () → Built regular e (row + 1) progress) := by
  have hrefs : rowsFrom e.queue row = (head, row) :: rowsFrom e.queue (row + 1) := by
    rw [hqueue, rowsFrom_succ hrow]
  rw [processRow]
  refine (h.partitionAt_gives hqueue hrow hbuilt).bind
    fun ⟨progress, located⟩ _ ⟨hregular, hat⟩ ↦ ?_
  cases located with
  | error refusal => exact ⟨_, rfl, hregular, nofun⟩
  | ok p =>
    refine (h.lawful.write progress.aggregates row hregular).bind
      fun ⟨aggregation, aggregates, result⟩ _ hregular ↦ ?_
    cases result with
    | error cause => exact ⟨_, rfl, hregular, nofun⟩
    | ok =>
      simp only
      cases writeRankings p row e.config.rankings progress.rankings with
      | error refusal => exact ⟨_, rfl, hregular, nofun⟩
      | ok rankings =>
        refine ⟨_, rfl, hregular, fun _ ↦ ⟨hregular, fun p' hp' ↦ ?_⟩⟩
        have hp := hat p rfl
        rw [hrefs] at hp
        cases hdone : p.advance.isDone with
        | true => simp [hdone] at hp'
        | false =>
          obtain rfl : p.advance = p' := by simpa [hdone] using hp'
          exact hp.advance hdone

/-- The rows of the head are processed from one on. -/
theorem processRows_gives (h : Sound accepts regular e) (hqueue : e.queue = head :: rest)
    (count : Nat) (hcount : row + count = head.length) (hbuilt : Built regular e row progress) :
    (e.processRows head (List.range' row count) progress).Gives fun (progress, result) ↦
      regular progress.aggregation ∧ (result = .ok () → Built regular e head.length progress) := by
  induction count generalizing row progress with
  | zero => exact ⟨_, rfl, hbuilt.regular, fun _ ↦ hcount ▸ hbuilt⟩
  | succ count ih =>
    rw [List.range'_succ, processRows]
    refine (h.processRow_gives hqueue (by omega) hbuilt).bind
      fun ⟨progress, result⟩ _ ⟨hregular, hbuilt⟩ ↦ ?_
    cases result with
    | error refusal => exact ⟨_, rfl, hregular, nofun⟩
    | ok => exact ih (by omega) (hbuilt rfl)

end Sound

/-! ### Calls -/

/-- What is built before the first row of the head. -/
def begun (e : WindowEngine σ ε) (head : Block) (opened : Option Partition) : Progress σ where
  aggregation := e.aggregation
  open? := opened
  aggregates := .ofTypes e.config.aggregateTypes head.capacity
  rankings := e.config.rankings.map fun ranking ↦ .nulls ranking.dataType head.capacity
  metrics := e.metrics
  events := []

/-- What a block adds to those that wait. An empty one is ignored. -/
def waiting (block : Block) : List Block := if block.length = 0 then [] else [block]

/-- Empty blocks have no rows. -/
theorem flatMap_refs_waiting (blocks : List Block) :
    (blocks.flatMap waiting).flatMap Block.refs = blocks.flatMap Block.refs := by
  rw [List.flatMap_assoc]
  refine List.flatMap_congr fun b _ ↦ ?_
  rw [waiting]
  split_ifs with hempty
  · rw [List.flatMap_nil, Block.refs, hempty]
    rfl
  · exact List.flatMap_singleton _ _

theorem flatMap_waiting (blocks : List Block) :
    blocks.flatMap waiting = blocks.filter fun b ↦ !b.isEmpty := by
  induction blocks with
  | nil => rfl
  | cons b blocks ih =>
    rw [List.flatMap_cons, ih, waiting, List.filter_cons, Block.isEmpty]
    by_cases hempty : b.length = 0
    · simp [hempty]
    · simp [hempty]

/-- A block of the types of the input can be pushed as long as there is input. -/
theorem push_eq_ok {block : Block} (hopen : e.isFinished = false)
    (htypes : block.types = e.config.inputTypes) :
    e.push block = .ok { e with queue := e.queue ++ waiting block } := by
  have hgoing : ¬e.isFinished = true := Bool.eq_false_iff.1 hopen
  rw [push, if_neg hgoing, if_neg (not_not_intro htypes), Block.isEmpty, waiting]
  by_cases hempty : block.length = 0
  · rw [if_pos (beq_iff_eq.2 hempty), if_pos hempty, List.append_nil]
  · rw [if_neg (mt beq_iff_eq.1 hempty), if_neg hempty]

theorem eq_of_push_eq_ok {block : Block} {e' : WindowEngine σ ε} (h : e.push block = .ok e') :
    e.isFinished = false ∧ block.types = e.config.inputTypes ∧
      e' = { e with queue := e.queue ++ waiting block } := by
  have hpush := h
  rw [push] at hpush
  split_ifs at hpush with hfinished htypes hempty
  all_goals
    rw [Bool.not_eq_true] at hfinished
    rw [ne_eq, Decidable.not_not] at htypes
    rw [push_eq_ok hfinished htypes] at h
    exact ⟨hfinished, htypes, (Except.ok.inj h).symm⟩

namespace Sound

theorem start {ops : FrameOps σ ε} {aggregation : σ} (hlawful : ops.Lawful accepts regular)
    (hregular : regular aggregation) (config : WindowConfig) :
    Sound accepts regular (.start config ops aggregation) :=
  ⟨hlawful, nofun, nofun, hregular, nofun⟩

/-- The open partition is ready for the head. -/
theorem begun_gives (h : Sound accepts regular e) (hqueue : e.queue = head :: rest) :
    (e.open?.mapM (e.extendOpen head)).Gives fun opened ↦
      Built regular e 0 (e.begun head opened) := by
  cases hopen : e.open? with
  | none => exact ⟨none, rfl, h.regular, nofun⟩
  | some p =>
    obtain ⟨p', hp', hunprocessed⟩ := h.extendOpen_gives hqueue hopen
    refine ⟨some p', by rw [Option.mapM_some, hp']; rfl, h.regular, fun p hp ↦ ?_⟩
    obtain rfl := Option.some.inj hp
    exact hunprocessed

/-- A block that is pushed leaves the engine in order. -/
theorem push (h : Sound accepts regular e) {block : Block}
    (hblock : block.types = e.config.inputTypes → accepts block) {e' : WindowEngine σ ε}
    (hpush : e.push block = .ok e') : Sound accepts regular e' ∧ e'.config = e.config ∧
      e'.ops = e.ops := by
  obtain ⟨hopen, htypes, rfl⟩ := eq_of_push_eq_ok hpush
  by_cases hempty : block.length = 0
  · rw [waiting, if_pos hempty, List.append_nil]
    exact ⟨h, rfl, rfl⟩
  rw [waiting, if_neg hempty]
  refine ⟨⟨h.lawful, fun b hb ↦ ?_, fun b hb ↦ ?_, h.regular, fun p hp ↦ ?_⟩, rfl, rfl⟩
  · rcases List.mem_append.1 hb with hb | hb
    · exact h.accepted b hb
    · exact List.mem_singleton.1 hb ▸ hblock htypes
  · rcases List.mem_append.1 hb with hb | hb
    · exact h.nonempty b hb
    · exact List.mem_singleton.1 hb ▸ Nat.pos_of_ne_zero hempty
  · have hunprocessed := h.unprocessed p hp
    rw [hopen, rowsFrom_zero] at hunprocessed
    show p.Unprocessed e.ops e.isFinished (rowsFrom (e.queue ++ [block]) 0)
    rw [hopen, rowsFrom_zero, List.flatMap_append]
    exact hunprocessed.append _

/-- Finishing the input leaves the engine in order. -/
theorem finish (h : Sound accepts regular e) : Sound accepts regular e.finish.1 :=
  ⟨h.lawful, h.accepted, h.nonempty, h.regular, fun p hp ↦ (h.unprocessed p hp).finish⟩

/-- Processing the head leaves the engine in order, whether or not it could be advanced. -/
theorem process_gives (h : Sound accepts regular e) :
    e.process.Gives fun (e', _, _) ↦ Sound accepts regular e' ∧ e'.config = e.config ∧
      e'.ops = e.ops ∧ e'.isFinished = e.isFinished ∧ e'.queue <:+ e.queue := by
  cases hqueue : e.queue with
  | nil =>
    exact ⟨(e, .error .noPendingBlock, []), by rw [process, hqueue]; rfl, h, rfl, rfl, rfl,
      ⟨[], hqueue⟩⟩
  | cons head rest =>
    have haccepted : ∀ b ∈ head :: rest, accepts b := hqueue ▸ h.accepted
    have hnonempty : ∀ b ∈ head :: rest, 0 < b.length := hqueue ▸ h.nonempty
    simp only [process, hqueue]
    refine (h.begun_gives hqueue).bind fun opened _ hbegun ↦ ?_
    rw [List.range_eq_range']
    refine (h.processRows_gives hqueue head.length (Nat.zero_add _) hbegun).bind
      fun ⟨progress, result⟩ _ ⟨hregular, hbuilt⟩ ↦ ?_
    cases result with
    | error refusal =>
      exact ⟨_, rfl, ⟨h.lawful, haccepted, hnonempty, hregular, nofun⟩, rfl, rfl, rfl,
        List.suffix_refl _⟩
    | ok =>
      have hnext (p : Partition) (hp : progress.open? = some p) :
          p.Unprocessed e.ops e.isFinished (rowsFrom rest 0) := by
        have hunprocessed := (hbuilt rfl).unprocessed p hp
        rwa [hqueue, rowsFrom_length] at hunprocessed
      have haccepted' := fun b hb ↦ haccepted b (List.mem_cons_of_mem head hb)
      have hnonempty' := fun b hb ↦ hnonempty b (List.mem_cons_of_mem head hb)
      simp only
      cases assemble head progress.aggregates progress.rankings with
      | error refusal =>
        exact ⟨_, rfl, ⟨h.lawful, haccepted', hnonempty', hregular, hnext⟩, rfl, rfl, rfl,
          List.suffix_cons _ _⟩
      | ok output =>
        exact ⟨_, rfl, ⟨h.lawful, haccepted', hnonempty', hregular, hnext⟩, rfl, rfl, rfl,
          List.suffix_cons _ _⟩

end Sound

end Columnar.WindowEngine
