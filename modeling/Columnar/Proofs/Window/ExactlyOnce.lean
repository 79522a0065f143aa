import Columnar.Proofs.Window.Noted

/-!
# Every row once

In a run without a refusal every row is aggregated once and written once, in the order in which the
rows are pushed, whenever heads are processed (`givesBackOnce_of_perform`). The operations are any
that compare rows as equivalences do.

Between two calls what was called so far is in order for the partitions that were opened
(`Recording`), with the blocks that were given back carrying the rows in front of those that wait.
One call keeps it (`Recording.act`), so all of them do (`Recording.perform`), and what it says after
the last call is `EachOnce`.

**The engine of the statement notes nothing.** An engine that notes its calls gives the same back as
one that does not, since its operations compare and answer alike; so for a run there is a list of
calls beside it that accounts for what was given back. That the rows of a block that is given back
are those of the block that was pushed, with further columns behind, is part of the result
(`Carries`).

A refusal would break the list: the head stays, and its rows are aggregated again when it is
processed for the second time.
-/

namespace Columnar

variable {σ τ ε : Type}

namespace WindowEngine

variable {ops : FrameOps σ ε} {accepts : Block → Prop} {e e' : WindowEngine (σ × List FrameCall) ε}
  {head : Block} {rest processed : List Block} {p p' : Partition}

/-- An engine that compares rows and has noted its calls, after it gave some blocks back. -/
structure Recording (ops : FrameOps σ ε) (accepts : Block → Prop) (processed : List Block)
    (e : WindowEngine (σ × List FrameCall) ε) : Prop where
  ops_eq : e.ops = ops.recorded
  sound : Sound accepts (fun _ ↦ True) e.bare
  accepted : ∀ b ∈ processed, accepts b
  booked : ∃ partitions, Booked e.bare.ops e.open? (rowsFrom e.queue 0)
    (processed.flatMap Block.refs) e.aggregation.2 e.metrics partitions

/-- Counting on leaves the place in the partition as it is. -/
theorem place_of_extendOpen {e : WindowEngine τ ε} (h : e.extendOpen head p = .ok p') :
    p'.peers = p.peers ∧ p'.rowNumber = p.rowNumber := by
  rw [extendOpen] at h
  split_ifs at h
  · obtain rfl := Except.ok.inj h
    exact ⟨rfl, rfl⟩
  · obtain ⟨count, -, h⟩ := exists_of_bind_eq_ok h
    obtain rfl := Except.ok.inj h
    exact ⟨rfl, rfl⟩

namespace Recording

theorem notes (h : Recording ops accepts processed e) : e.ops.Notes :=
  h.ops_eq ▸ ops.notes_recorded

theorem start (hsame : Equates ops.samePartition (RowOf accepts))
    (hpeers : Equates ops.peers (RowOf accepts)) (config : WindowConfig) (aggregation : σ) :
    Recording ops accepts [] (.start config ops.recorded (aggregation, [])) := by
  have hlawful : (bare (.start config ops.recorded (aggregation, []))).ops.Lawful accepts
      fun _ ↦ True :=
    { samePartition := hsame
      peers := hpeers
      aggregate := fun _ _ ↦ ⟨_, rfl, trivial⟩
      write := fun _ _ _ ↦ ⟨_, rfl, trivial⟩
      reset := fun _ ↦ trivial }
  exact ⟨rfl, .start hlawful trivial config, nofun, [], .start _⟩

/-- The rows that were given back are rows of acceptable blocks. -/
theorem rowOf (h : Recording ops accepts processed e) :
    ∀ ref ∈ processed.flatMap Block.refs, RowOf accepts ref := fun ref href ↦ by
  obtain ⟨b, hb, href⟩ := List.mem_flatMap.1 href
  obtain ⟨i, hi, rfl⟩ := List.mem_map.1 href
  exact ⟨h.accepted b hb, List.mem_range.1 hi⟩

/-- The open partition is counted on before the first row of the head. -/
theorem builds (h : Recording ops accepts processed e) (hqueue : e.queue = head :: rest)
    {opened : Option Partition} (hopened : e.open?.mapM (e.extendOpen head) = .ok opened) :
    Builds e 0 (processed.flatMap Block.refs) (e.begun head opened) := by
  obtain ⟨partitions, hbooked⟩ := h.booked
  cases hopen : e.open? with
  | none =>
    rw [hopen] at hopened hbooked
    obtain rfl := Except.ok.inj hopened
    exact ⟨nofun, partitions, hbooked⟩
  | some p =>
    rw [hopen] at hopened hbooked
    obtain ⟨p', hp', hopened⟩ := exists_of_bind_eq_ok hopened
    obtain rfl := Except.ok.inj hopened
    have hqueue' : e.bare.queue = head :: rest := hqueue
    have hextended : p'.Unprocessed e.bare.ops e.isFinished (rowsFrom e.queue 0) :=
      (h.sound.extendOpen_gives hqueue' hopen).of_eq_ok hp'
    refine ⟨fun q hq ↦ Option.some.inj hq ▸ hextended, partitions, ?_⟩
    obtain ⟨hpeers, hrow⟩ := place_of_extendOpen hp'
    refine hbooked.extend hpeers hrow fun earlier frames hpartitions htogether ↦ ?_
    -- the rows that were counted now are together with the first one that waits
    have hunprocessed := h.sound.unprocessed p hopen
    have hhead : 0 < head.length := h.sound.nonempty head (hqueue ▸ List.mem_cons_self)
    have hfirst {taken : Nat} (htaken : 1 ≤ taken) :
        (head, 0) ∈ (rowsFrom e.queue 0).take taken := by
      obtain ⟨taken, rfl⟩ := Nat.exists_eq_add_one.2 htaken
      rw [hqueue, rowsFrom_succ hhead]
      exact List.mem_cons_self
    have hknown : ∀ ref ∈ frames.flatten, RowOf accepts ref := fun ref href ↦ by
      have hmem : ref ∈ partitions.flatten.flatten := by
        rw [hpartitions, List.flatten_append, List.flatten_append, List.flatten_singleton]
        exact List.mem_append_right _ href
      rw [hbooked.inOrder.flatten_eq] at hmem
      exact (List.mem_append.1 hmem).elim (h.rowOf ref) fun hmem ↦
        h.sound.rowOf 0 ref (List.mem_of_mem_take hmem)
    have hwaits {taken : Nat} : ∀ ref ∈ (rowsFrom e.queue 0).take taken, RowOf accepts ref :=
      fun ref href ↦ h.sound.rowOf 0 ref (List.mem_of_mem_take href)
    have hold := hfirst hunprocessed.remaining_pos
    have hnew := hfirst hextended.remaining_pos
    refine h.sound.lawful.samePartition.together (hwaits _ hold)
      (fun ref href ↦ (List.mem_append.1 href).elim (hknown ref) (hwaits ref)) fun ref href ↦ ?_
    rcases List.mem_append.1 href with href | href
    · exact htogether _ (List.mem_append_right _ hold) ref (List.mem_append_left _ href)
    · exact hextended.samePartition _ hnew ref href

end Recording

/-- A block that carries the columns of another one in front of its own. -/
def Carries (b output : Block) : Prop := b.columns <+: output.columns ∧ output.length = b.length

/-- Columns that are put together to a block are its columns. -/
theorem columns_of_ofColumns {columns : List Column} {b : Block}
    (h : Block.ofColumns columns = .ok b) : b.columns = columns := by
  cases columns with
  | nil =>
    obtain rfl := Except.ok.inj h
    rfl
  | cons first others =>
    rw [Block.ofColumns] at h
    split_ifs at h
    obtain rfl := Except.ok.inj h
    rfl

theorem carries_of_assemble {aggregates output : Block} {rankings : List Column}
    (h : (assemble head aggregates rankings : Except (WindowError ε) Block) = .ok output) :
    Carries head output := by
  rw [assemble] at h
  cases hcolumns : Block.ofColumns (head.columns ++ aggregates.columns ++ rankings) with
  | error cause =>
    rw [hcolumns] at h
    cases h
  | ok b =>
    rw [hcolumns] at h
    have hlength := eq_ok_of_mapError_eq_ok h
    rw [Block.setLength] at hlength
    split_ifs at hlength
    obtain rfl := Except.ok.inj hlength
    refine ⟨?_, rfl⟩
    rw [columns_of_ofColumns hcolumns, List.append_assoc]
    exact List.prefix_append _ _

namespace Recording

/-- The head is processed and noted. -/
theorem process (h : Recording ops accepts processed e) {output : Block} {events : List WindowEvent}
    (hprocess : e.process = .ok (e', .ok output, events)) :
    ∃ head, e.queue = head :: e'.queue ∧ e'.config = e.config ∧ Carries head output ∧
      Recording ops accepts (processed ++ [head]) e' := by
  cases hqueue : e.queue with
  | nil =>
    rw [WindowEngine.process, hqueue] at hprocess
    cases (Prod.mk.inj (Prod.mk.inj (Except.ok.inj hprocess)).2).1
  | cons head rest =>
    simp only [WindowEngine.process, hqueue] at hprocess
    obtain ⟨opened, hopened, hprocess⟩ := exists_of_bind_eq_ok hprocess
    obtain ⟨⟨progress, result⟩, hrows, hprocess⟩ := exists_of_bind_eq_ok hprocess
    cases result with
    | error refusal => cases (Prod.mk.inj (Prod.mk.inj (Except.ok.inj hprocess)).2).1
    | ok =>
      simp only at hprocess
      cases hassemble : (assemble head progress.aggregates progress.rankings :
          Except (WindowError ε) Block) with
      | error refusal =>
        rw [hassemble] at hprocess
        cases (Prod.mk.inj (Prod.mk.inj (Except.ok.inj hprocess)).2).1
      | ok block =>
        rw [hassemble] at hprocess
        obtain ⟨rfl, hanswer⟩ := Prod.mk.inj (Except.ok.inj hprocess)
        obtain rfl := Except.ok.inj (Prod.mk.inj hanswer).1
        have hbegun := h.builds hqueue hopened
        rw [List.range_eq_range'] at hrows
        have hbuilt := hbegun.processRows h.sound h.notes hqueue (Nat.zero_add _) hrows
        have hrest : rowsFrom e.queue head.length = rowsFrom rest 0 := by
          rw [hqueue, rowsFrom_length]
        have hwritten : processed.flatMap Block.refs ++ (List.range' 0 head.length).map (head, ·) =
            (processed ++ [head]).flatMap Block.refs := by
          rw [List.flatMap_append, List.flatMap_singleton, Block.refs, List.range_eq_range']
        obtain ⟨hunprocessed, partitions, hbooked⟩ := hbuilt
        rw [hrest] at hunprocessed hbooked
        rw [hwritten] at hbooked
        refine ⟨head, rfl, rfl, carries_of_assemble hassemble, h.ops_eq,
          ⟨h.sound.lawful, fun b hb ↦ ?_, fun b hb ↦ ?_, trivial, hunprocessed⟩, fun b hb ↦ ?_,
          partitions, hbooked.inOrder, hbooked.partitions_eq, hbooked.frames_eq, hbooked.none_open,
          hbooked.some_open⟩
        · exact h.sound.accepted b (hqueue ▸ List.mem_cons_of_mem head hb : b ∈ e.queue)
        · exact h.sound.nonempty b (hqueue ▸ List.mem_cons_of_mem head hb : b ∈ e.queue)
        · rcases List.mem_append.1 hb with hb | hb
          · exact h.accepted b hb
          · obtain rfl := List.mem_singleton.1 hb
            exact h.sound.accepted b (hqueue ▸ List.mem_cons_self : b ∈ e.queue)

/-- A block that is pushed is not noted. -/
theorem push (h : Recording ops accepts processed e) {block : Block}
    (hblock : block.types = e.config.inputTypes → accepts block) (hpush : e.push block = .ok e') :
    e'.queue = e.queue ++ waiting block ∧ e'.config = e.config ∧
      Recording ops accepts processed e' := by
  obtain ⟨hopen, htypes, rfl⟩ := eq_of_push_eq_ok hpush
  have hsound := (h.sound.push hblock (push_eq_ok (e := e.bare) hopen htypes)).1
  obtain ⟨partitions, hbooked⟩ := h.booked
  refine ⟨rfl, rfl, h.ops_eq, hsound, h.accepted, partitions, ?_⟩
  show Booked e.bare.ops e.open? (rowsFrom (e.queue ++ waiting block) 0) _ _ _ _
  rw [rowsFrom_zero, List.flatMap_append, ← rowsFrom_zero]
  exact hbooked.append h.sound.unprocessed _

theorem finish (h : Recording ops accepts processed e) :
    Recording ops accepts processed e.finish.1 :=
  ⟨h.ops_eq, h.sound.finish, h.accepted, h.booked⟩

/-- A call without a refusal is noted. -/
theorem act (h : Recording ops accepts processed e) {action : WindowAction}
    (hblocks : ∀ b ∈ WindowAction.pushed [action], b.types = e.config.inputTypes → accepts b)
    {run : WindowRun (σ × List FrameCall) ε} (hrun : e.act action = .ok run)
    (hnone : run.refusal? = none) :
    ∃ done, done ++ run.engine.queue = e.queue ++ (WindowAction.pushed [action]).flatMap waiting ∧
      run.engine.config = e.config ∧ List.Forall₂ Carries done run.output ∧
      Recording ops accepts (processed ++ done) run.engine := by
  rcases cases_of_act hrun hnone with ⟨block, rfl, hpush, houtput⟩ |
    ⟨output, events, rfl, hprocess, houtput⟩ | ⟨rfl, hengine, houtput⟩
  · obtain ⟨hqueue, hconfig, hrecording⟩ := h.push (hblocks block List.mem_cons_self) hpush
    rw [houtput]
    refine ⟨[], ?_, hconfig, .nil, by rwa [List.append_nil]⟩
    exact hqueue.trans (congrArg _ (List.flatMap_singleton waiting block).symm)
  · obtain ⟨head, hqueue, hconfig, hcarries, hrecording⟩ := h.process hprocess
    rw [houtput]
    refine ⟨[head], ?_, hconfig, .cons hcarries .nil, hrecording⟩
    exact hqueue.symm.trans (List.append_nil _).symm
  · rw [hengine, houtput]
    exact ⟨[], (List.append_nil _).symm, rfl, .nil, by rw [List.append_nil]; exact h.finish⟩

/-- Calls without a refusal are noted. -/
theorem perform (h : Recording ops accepts processed e) {actions : List WindowAction}
    (hblocks : ∀ b ∈ WindowAction.pushed actions, b.types = e.config.inputTypes → accepts b)
    {run : WindowRun (σ × List FrameCall) ε} (hrun : e.perform actions = .ok run)
    (hnone : run.refusal? = none) :
    ∃ done, done ++ run.engine.queue = e.queue ++ (WindowAction.pushed actions).flatMap waiting ∧
      List.Forall₂ Carries done run.output ∧
        Recording ops accepts (processed ++ done) run.engine := by
  induction actions generalizing e processed run with
  | nil =>
    obtain rfl := Except.ok.inj hrun
    exact ⟨[], (List.append_nil _).symm, .nil, by rwa [List.append_nil]⟩
  | cons action actions ih =>
    rw [WindowAction.pushed_cons] at hblocks ⊢
    obtain ⟨first, later, hfirst, hrefusal, hlater, hnone, rfl⟩ := exists_of_perform_cons hrun hnone
    obtain ⟨done, hqueue, hconfig, hcarries, hrecording⟩ :=
      h.act (fun b hb ↦ hblocks b (List.mem_append_left _ hb)) hfirst hrefusal
    obtain ⟨done', hqueue', hcarries', hrecording'⟩ := ih hrecording
      (fun b hb htypes ↦ hblocks b (List.mem_append_right _ hb) (hconfig ▸ htypes)) hlater hnone
    refine ⟨done ++ done', ?_, List.rel_append hcarries hcarries', ?_⟩
    · rw [List.flatMap_append, ← List.append_assoc, ← hqueue, List.append_assoc, hqueue',
        List.append_assoc]
    · rwa [← List.append_assoc]

end Recording

end WindowEngine

/-! ### Runs -/

/-- Calls by which the first rows of a stream were given back and those ahead in the open partition
aggregated, for the partitions that were opened. -/
structure EachOnce (ops : FrameOps σ ε) (stream : List (Block × Nat)) (given : Nat)
    (open? : Option Partition) (metrics : WindowMetrics) (calls : List FrameCall)
    (partitions : List (List (List (Block × Nat)))) : Prop where
  given_le : given + Partition.ahead open? ≤ stream.length
  /-- Every row is aggregated once, in the order of the stream. -/
  aggregated_eq : calls.filterMap FrameCall.aggregated? =
    stream.take (given + Partition.ahead open?)
  /-- Every row is written once, in the order of the stream. -/
  written_eq : calls.filterMap FrameCall.written? = (stream.take given).map Prod.snd
  /-- The partitions are cut from the stream, and so are their frames. -/
  flatten_eq : partitions.flatten.flatten = stream.take (given + Partition.ahead open?)
  /-- A partition is reset once, and then its frames are aggregated and written. Only the rows that
  are ahead are still to be written. -/
  calls_eq : calls ++ FrameCall.writes ((stream.drop given).take (Partition.ahead open?)) =
    partitions.flatMap FrameCall.ofPartition
  /-- When a row is written the rows from the first one of its partition to the last one of its
  frame are aggregated. -/
  sinceReset_eq : ∀ before row after, calls = before ++ .write row :: after → ∃ frames frame,
    FrameAt partitions (before.filterMap FrameCall.written?).length frames frame ∧
      sinceReset before = (frames ++ [frame]).flatten
  resets_eq : calls.countP FrameCall.isReset = metrics.partitions
  partitions_eq : metrics.partitions = partitions.length
  frames_eq : metrics.frames = partitions.flatten.length
  nonempty : ∀ frames ∈ partitions, frames ≠ []
  peers : ∀ frame ∈ partitions.flatten, frame ≠ [] ∧ Together ops.peers frame
  samePartition : ∀ frames ∈ partitions, Together ops.samePartition frames.flatten
  /-- The open partition is the last one, at its next row. -/
  open_eq : ∀ p, open? = some p → ∃ earlier frames, partitions = earlier ++ [frames] ∧
    p.rowNumber + p.peers = frames.flatten.length + 1

/-- A run that gives the blocks back that were pushed with rows, by calls that are noted. -/
def GivesBackOnce (config : WindowConfig) (ops : FrameOps σ ε) (aggregation : σ)
    (actions : List WindowAction) (run : WindowRun σ ε) : Prop :=
  ∃ recorded given partitions,
    (WindowEngine.start config ops.recorded (aggregation, [])).perform actions = .ok recorded ∧
    WindowEngine.RunsMatch (fun aggregation noted ↦ noted.1 = aggregation) run recorded ∧
    (WindowAction.pushed actions).filter (fun b ↦ !b.isEmpty) = given ++ run.engine.queue ∧
    List.Forall₂ WindowEngine.Carries given run.output ∧
    EachOnce ops ((WindowAction.pushed actions).flatMap Block.refs)
      (given.flatMap Block.refs).length run.engine.open? run.engine.metrics
      recorded.engine.aggregation.2 partitions

namespace WindowEngine

variable {accepts : Block → Prop}

/-- Calls that are in order when blocks were given back account for every row once. -/
theorem Recording.eachOnce {ops : FrameOps σ ε} {given : List Block}
    {e : WindowEngine (σ × List FrameCall) ε} (h : Recording ops accepts given e)
    {stream : List (Block × Nat)}
    (hstream : stream = given.flatMap Block.refs ++ e.queue.flatMap Block.refs) :
    ∃ partitions, EachOnce ops stream (given.flatMap Block.refs).length e.open? e.metrics
      e.aggregation.2 partitions := by
  obtain ⟨partitions, hbooked⟩ := h.booked
  have hinOrder := hbooked.inOrder
  rw [rowsFrom_zero] at hinOrder
  have hsamePartition : e.bare.ops.samePartition = ops.samePartition :=
    congrArg FrameOps.samePartition h.ops_eq
  have hpeers : e.bare.ops.peers = ops.peers := congrArg FrameOps.peers h.ops_eq
  have htake (count : Nat) : stream.take ((given.flatMap Block.refs).length + count) =
      given.flatMap Block.refs ++ (e.queue.flatMap Block.refs).take count := by
    rw [hstream, List.take_length_add_append]
  have hdrop : stream.drop (given.flatMap Block.refs).length = e.queue.flatMap Block.refs := by
    rw [hstream, List.drop_left]
  have hgiven : stream.take (given.flatMap Block.refs).length = given.flatMap Block.refs := by
    rw [hstream, List.take_left]
  refine ⟨partitions, ?_, ?_, ?_, ?_, ?_, fun _ _ _ ↦ hinOrder.sinceReset_of_write, ?_,
    hbooked.partitions_eq, hbooked.frames_eq, fun frames hframes hnil ↦ ?_, ?_, ?_,
    fun p hp ↦ ?_⟩
  · rw [hstream, List.length_append]
    refine Nat.add_le_add_left ?_ _
    cases hopen : e.open? with
    | none => exact Nat.zero_le _
    | some p =>
      have hp := h.sound.unprocessed p hopen
      have hle := Nat.le_trans hp.peers_le hp.remaining_le
      rwa [rowsFrom_zero] at hle
  · rw [htake, hinOrder.aggregated_eq]
  · rw [hgiven, hinOrder.written_eq]
  · rw [htake, hinOrder.flatten_eq]
  · rw [hdrop, hinOrder.calls_eq]
  · rw [hinOrder.resets_eq, hbooked.partitions_eq]
  · subst hnil
    cases hopen : e.open? with
    | none => exact hbooked.none_open hopen hframes
    | some p =>
      -- a partition that is open between calls has given its first row back
      obtain ⟨earlier, last, rfl, hends⟩ := hbooked.some_open p hopen
      rcases List.mem_append.1 hframes with hframes | hframes
      · exact hends.nonempty hframes
      · obtain rfl := List.mem_singleton.1 hframes
        have hp := h.sound.unprocessed p hopen
        have hadd := hends.rowNumber_add
        have := hp.rank_lt
        have := hp.denseRank_le
        have := hp.denseRank_pos
        rw [List.flatten_nil, List.length_nil] at hadd
        omega
  · rw [← hpeers]
    exact hinOrder.together.1
  · rw [← hsamePartition]
    exact hinOrder.together.2
  · obtain ⟨earlier, frames, hpartitions, hends⟩ := hbooked.some_open p hp
    exact ⟨earlier, frames, hpartitions, hends.rowNumber_add⟩

/-- A run without a refusal of an engine over operations that compare rows as equivalences do. -/
theorem givesBackOnce {ops : FrameOps σ ε} (hsame : Equates ops.samePartition (RowOf accepts))
    (hpeers : Equates ops.peers (RowOf accepts)) {config : WindowConfig} {aggregation : σ}
    {actions : List WindowAction}
    (hblocks : ∀ b ∈ WindowAction.pushed actions, b.types = config.inputTypes → accepts b)
    {run : WindowRun σ ε} (hrun : (start config ops aggregation).perform actions = .ok run)
    (hnone : run.refusal? = none) : GivesBackOnce config ops aggregation actions run := by
  have hmatches : (start config ops aggregation).Matches
      (fun aggregation noted ↦ noted.1 = aggregation)
      (start config ops.recorded (aggregation, [])) :=
    ⟨ops.matches_recorded, rfl, rfl, rfl, rfl, rfl, rfl, rfl⟩
  obtain ⟨recorded, hrecorded, hmatch⟩ := (hmatches.perform_related actions).exists_eq_ok hrun
  obtain ⟨given, hqueue, hcarries, hrecording⟩ :=
    (Recording.start hsame hpeers config aggregation).perform hblocks hrecorded
      (hmatch.refusal_eq.trans hnone)
  have hpushed : (WindowAction.pushed actions).flatMap waiting = given ++ recorded.engine.queue :=
    hqueue.symm
  have hstream : (WindowAction.pushed actions).flatMap Block.refs =
      given.flatMap Block.refs ++ recorded.engine.queue.flatMap Block.refs := by
    rw [← flatMap_refs_waiting, hpushed, List.flatMap_append]
  obtain ⟨partitions, hcalls⟩ := hrecording.eachOnce hstream
  rw [hmatch.engine.open_eq, hmatch.engine.metrics_eq] at hcalls
  refine ⟨recorded, given, partitions, hrecorded, hmatch, ?_, hmatch.output_eq ▸ hcarries, hcalls⟩
  rw [← flatMap_waiting, hpushed, hmatch.engine.queue_eq]

/-- Whenever blocks are pushed, heads are processed and the input is finished: in a run without a
refusal of an engine over operations that compare rows as equivalences do, every row is aggregated
once and written once, in the order in which they were pushed, every partition is reset once before
its first row is aggregated, and when a row is written the rows from the first one of its partition
to the last one of its frame are aggregated. The operations on columns compare rows so, and with
them no run is abandoned. -/
theorem givesBackOnce_of_perform (config : WindowConfig) (actions : List WindowAction) :
    (∀ (σ ε : Type) (ops : FrameOps σ ε) (aggregation : σ) (accepts : Block → Prop)
      (run : WindowRun σ ε), Equates ops.samePartition (RowOf accepts) →
      Equates ops.peers (RowOf accepts) →
      (∀ b ∈ WindowAction.pushed actions, b.types = config.inputTypes → accepts b) →
      (start config ops aggregation).perform actions = .ok run → run.refusal? = none →
        GivesBackOnce config ops aggregation actions run) ∧
    ∀ partitionColumns orderColumns aggregates f,
      ColumnFrames.ofColumns partitionColumns orderColumns aggregates config.inputTypes = .ok f →
      (∀ b ∈ WindowAction.pushed actions, b.WellFormed b.types) →
        ∃ run, (start config f.ops f.start).perform actions = .ok run ∧
          (run.refusal? = none → GivesBackOnce config f.ops f.start actions run) := by
  refine ⟨fun σ ε ops aggregation accepts run hsame hpeers hblocks hrun hnone ↦
    givesBackOnce hsame hpeers hblocks hrun hnone, fun _ _ _ f hf hblocks ↦ ?_⟩
  have hlawful := ColumnFrames.lawful_ops (ColumnFrames.fits_of_ofColumns hf)
  have haccepted : ∀ b ∈ WindowAction.pushed actions, b.types = config.inputTypes →
      b.WellFormed config.inputTypes := fun b hb htypes ↦ htypes ▸ hblocks b hb
  obtain ⟨run, hrun, -⟩ :=
    (Sound.start hlawful (ColumnFrames.map_aggregate_start f) config).perform_gives haccepted
  exact ⟨run, hrun, givesBackOnce hlawful.samePartition hlawful.peers haccepted hrun⟩

/-- Operations that put all rows into one frame and count them. -/
def countRows : FrameOps Nat Empty where
  samePartition _ _ _ _ := return true
  peers _ _ _ _ := return true
  aggregate count _ _ := return (count + 1, .ok ())
  write count output _ := return (count, output, .ok ())
  reset _ := (0, true)

theorem equates_true (known : Block × Nat → Prop) : Equates (fun _ _ _ _ ↦ .ok true) known :=
  ⟨fun _ _ ↦ ⟨true, rfl⟩, fun _ ↦ rfl, fun _ _ _ ↦ rfl, fun _ _ _ _ _ ↦ rfl⟩

/-- The head is processed before the frame of its last row is seen to end. -/
theorem givesBackOnce_of_perform_hasty :
    (∃ run, (start ⟨[.bigInt, .bigInt], [], []⟩ countRows 0).perform ColumnFrames.hasty = .ok run ∧
      run.engine.aggregation = 4 ∧ run.engine.metrics.rows = 2 ∧
      GivesBackOnce ⟨[.bigInt, .bigInt], [], []⟩ countRows 0 ColumnFrames.hasty run) ∧
    ∃ run, (start ColumnFrames.pairConfig ColumnFrames.pairFrames.ops
        ColumnFrames.pairFrames.start).perform ColumnFrames.hasty = .ok run ∧
      run.engine.metrics.partitions = 2 ∧
      GivesBackOnce ColumnFrames.pairConfig ColumnFrames.pairFrames.ops
        ColumnFrames.pairFrames.start ColumnFrames.hasty run := by
  constructor
  · obtain ⟨run, hrun, hnone, hcount, hrows⟩ : ∃ run,
        (start ⟨[.bigInt, .bigInt], [], []⟩ countRows 0).perform ColumnFrames.hasty = .ok run ∧
          run.refusal? = none ∧ run.engine.aggregation = 4 ∧ run.engine.metrics.rows = 2 :=
      ⟨_, rfl, rfl, rfl, rfl⟩
    exact ⟨run, hrun, hcount, hrows, (givesBackOnce_of_perform _ _).1 Nat Empty countRows 0
      (fun _ ↦ True) run (equates_true _) (equates_true _) (fun _ _ _ ↦ trivial) hrun hnone⟩
  · have hf : ColumnFrames.ofColumns [0] [1] [.sum 1] ColumnFrames.pairConfig.inputTypes =
        .ok ColumnFrames.pairFrames := rfl
    have hblocks : ∀ b ∈ WindowAction.pushed ColumnFrames.hasty, b.WellFormed b.types := by
      intro b hb
      rcases List.mem_cons.1 hb with rfl | hb
      · exact ColumnFrames.wellFormed_pairBlock rfl (by decide)
      · obtain rfl := List.mem_singleton.1 hb
        exact ColumnFrames.wellFormed_pairBlock rfl (by decide)
    obtain ⟨run, hrun, honce⟩ := (givesBackOnce_of_perform _ _).2 _ _ _ _ hf hblocks
    obtain ⟨run₀, hrun₀, hnone, hpartitions⟩ : ∃ run, (start ColumnFrames.pairConfig
        ColumnFrames.pairFrames.ops ColumnFrames.pairFrames.start).perform ColumnFrames.hasty =
          .ok run ∧ run.refusal? = none ∧ run.engine.metrics.partitions = 2 :=
      ⟨_, rfl, rfl, rfl⟩
    obtain rfl := Except.ok.inj (hrun.symm.trans hrun₀)
    exact ⟨run, hrun, hpartitions, honce hnone⟩

end WindowEngine

end Columnar
