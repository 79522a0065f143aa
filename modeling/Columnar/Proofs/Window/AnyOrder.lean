import Columnar.Proofs.Window.Schedules
import Columnar.Proofs.Window.Steps

/-!
# Calls in any order

An engine over columns may be called in any order, on any input: heads may be processed before their
frames are seen to end, and the rows of a partition need not be next to each other. Its operations
are lawful (`lawful_ops`), so no call is abandoned and every call leaves the engine in order
(`perform_gives`).

## Subtractions and quotients

The counters of a partition are natural numbers, and taking more from one than it holds would give
zero without any sign of it. So that this does not happen is stated about the subtractions
themselves. `Subtracts` lists **every difference that the next call computes**, with what is
subtracted from and what is subtracted, at whatever row of the head it is computed; the second is
never more than the first (`le_of_subtracts`). `Divides` lists the quotients in the same way, and
each is one from zero to one whose denominator is positive (`le_of_divides`).

The rows that a call comes to are reached one after the other (`Reaches`), up to the first refusal,
and before each of them what is built is in order (`built_of_reaches`). The differences at the row
are then those of the counters of one partition.
-/

namespace Columnar

/-- A call at any time. -/
inductive WindowAction
  | call (call : WindowCall)
  | finish

/-- The blocks that are pushed, in order. -/
def WindowAction.pushed (actions : List WindowAction) : List Block :=
  WindowCall.pushed <| actions.filterMap fun
    | call c => some c
    | finish => none

theorem WindowAction.pushed_cons (action : WindowAction) (actions : List WindowAction) :
    pushed (action :: actions) = pushed [action] ++ pushed actions := by
  cases action with
  | finish => rfl
  | call c => cases c <;> rfl

namespace WindowEngine

variable {σ ε : Type}

/-- Make a call. -/
def act (e : WindowEngine σ ε) : WindowAction → Checked (WindowRun σ ε)
  | .call c => e.call c
  | .finish => return ⟨e.finish.1, [], none⟩

/-- Make calls, up to the first refusal. -/
def perform : WindowEngine σ ε → List WindowAction → Checked (WindowRun σ ε)
  | e, [] => return ⟨e, [], none⟩
  | e, action :: actions => do
    let run ← e.act action
    match run.refusal? with
    | some _ => return run
    | none => do
      let later ← perform run.engine actions
      return { later with output := run.output ++ later.output }

/-- What a call without a refusal can do. -/
theorem cases_of_act {e : WindowEngine σ ε} {action : WindowAction} {run : WindowRun σ ε}
    (h : e.act action = .ok run) (hnone : run.refusal? = none) :
    (∃ block, action = .call (.push block) ∧ e.push block = .ok run.engine ∧ run.output = []) ∨
      (∃ output events, action = .call .process ∧
        e.process = .ok (run.engine, .ok output, events) ∧ run.output = [output]) ∨
      (action = .finish ∧ run.engine = e.finish.1 ∧ run.output = []) := by
  cases action with
  | finish =>
    obtain rfl := Except.ok.inj h
    exact .inr (.inr ⟨rfl, rfl, rfl⟩)
  | call c =>
    cases c with
    | push block =>
      rw [act, call] at h
      cases hpush : e.push block with
      | error refusal =>
        rw [hpush] at h
        obtain rfl := Except.ok.inj h
        cases hnone
      | ok e' =>
        rw [hpush] at h
        obtain rfl := Except.ok.inj h
        exact .inl ⟨block, rfl, hpush, rfl⟩
    | process =>
      obtain ⟨⟨e', result, events⟩, hprocess, h⟩ := exists_of_bind_eq_ok h
      cases result with
      | error refusal =>
        obtain rfl := Except.ok.inj h
        cases hnone
      | ok output =>
        obtain rfl := Except.ok.inj h
        exact .inr (.inl ⟨output, events, rfl, hprocess, rfl⟩)

/-- Calls without a refusal are a call and the other calls. -/
theorem exists_of_perform_cons {e : WindowEngine σ ε} {action : WindowAction}
    {actions : List WindowAction} {run : WindowRun σ ε}
    (h : e.perform (action :: actions) = .ok run) (hnone : run.refusal? = none) :
    ∃ first later, e.act action = .ok first ∧ first.refusal? = none ∧
      first.engine.perform actions = .ok later ∧ later.refusal? = none ∧
      run = { later with output := first.output ++ later.output } := by
  obtain ⟨first, hfirst, h⟩ := exists_of_bind_eq_ok h
  cases hrefusal : first.refusal? with
  | some refusal =>
    rw [hrefusal] at h
    obtain rfl := Except.ok.inj h
    cases hrefusal.symm.trans hnone
  | none =>
    rw [hrefusal] at h
    obtain ⟨later, hlater, h⟩ := exists_of_bind_eq_ok h
    obtain rfl := Except.ok.inj h
    exact ⟨first, later, hfirst, hrefusal, hlater, hnone, rfl⟩

/-! ### Differences and quotients -/

variable (e : WindowEngine σ ε)

/-- The rows of the head that a call of `process` comes to, with what is built before each. -/
inductive Reaches (head : Block) : Nat → Progress σ → Prop
  | first {rest : List Block} {opened : Option Partition} : e.queue = head :: rest →
    e.open?.mapM (e.extendOpen head) = .ok opened → Reaches head 0 (e.begun head opened)
  | next {row : Nat} {progress progress' : Progress σ} : Reaches head row progress →
    row < head.length → e.processRow head row progress = .ok (progress', .ok ()) →
    Reaches head (row + 1) progress'

/-- A call of `process` opens a frame of `peers` rows in a row of the head and in a partition. -/
def OpensFrame (head : Block) (row : Nat) (p : Partition) (peers : Nat) : Prop :=
  ∃ progress, e.Reaches head row progress ∧ row < head.length ∧
    (progress.open? = some p ∨
      progress.open? = none ∧ ∃ left, e.openPartition head row progress = .ok (left, .ok p)) ∧
    p.isFrameDone = true ∧
    Checked.countWhile (fun (block, other) ↦ e.ops.peers head row block other)
      ((rowsFrom e.queue row).take p.remaining) = .ok peers

/-- A call of `process` writes the rankings of a row of the head from a partition, and goes on to
the next row. -/
def Leaves (head : Block) (row : Nat) (p : Partition) : Prop :=
  ∃ progress left, e.Reaches head row progress ∧ row < head.length ∧
    e.partitionAt head row progress = .ok (left, .ok p)

/-- The differences that the next call computes, each as what is subtracted from and what is
subtracted. -/
inductive Subtracts : Nat → Nat → Prop
  /-- The last row of the head or of the last block, where these are compared. -/
  | lastRow {block : Block} : block ∈ e.queue → Subtracts block.length 1
  /-- The rows of the head from a row on. -/
  | headRows {head : Block} {row : Nat} {progress : Progress σ} : e.Reaches head row progress →
    Subtracts head.length row
  /-- The rows that wait from a row on. -/
  | waiting {head : Block} {row : Nat} {progress : Progress σ} : e.Reaches head row progress →
    Subtracts (rowsFrom e.queue 0).length row
  /-- The rows before a frame. -/
  | before {head : Block} {row peers : Nat} {p : Partition} : e.OpensFrame head row p peers →
    Subtracts p.rowNumber 1
  /-- The rows of the partition besides one. -/
  | others {head : Block} {row peers : Nat} {p : Partition} : e.OpensFrame head row p peers →
    Subtracts p.length 1
  /-- The rows up to the end of a frame. -/
  | upToEnd {head : Block} {row peers : Nat} {p : Partition} : e.OpensFrame head row p peers →
    Subtracts (p.rowNumber + peers) 1
  /-- The rows of the partition behind a row. -/
  | remaining {head : Block} {row : Nat} {p : Partition} : e.Leaves head row p →
    Subtracts p.remaining 1
  /-- The rows of the frame behind a row. -/
  | peers {head : Block} {row : Nat} {p : Partition} : e.Leaves head row p →
    Subtracts p.peers 1

/-- The quotients that the next call computes, each with its numerator and its denominator. -/
inductive Divides : Double → Nat → Nat → Prop
  | percentRank {head : Block} {row peers : Nat} {p : Partition} : e.OpensFrame head row p peers →
    1 < p.length → Divides (p.newFrame peers).percentRank (p.rowNumber - 1) (p.length - 1)
  | cumeDist {head : Block} {row peers : Nat} {p : Partition} : e.OpensFrame head row p peers →
    Divides (p.newFrame peers).cumeDist (p.rowNumber + peers - 1) p.length

namespace Sound

variable {e} {accepts : Block → Prop} {regular : σ → Prop} {head : Block} {row peers : Nat}
  {p : Partition} {progress : Progress σ}

/-- Before every row that a call comes to, what is built is in order. -/
theorem built_of_reaches (h : Sound accepts regular e) (hreaches : e.Reaches head row progress) :
    Built regular e row progress ∧ (∃ rest, e.queue = head :: rest) ∧ row ≤ head.length := by
  induction hreaches with
  | first hqueue hopened =>
    exact ⟨(h.begun_gives hqueue).of_eq_ok hopened, ⟨_, hqueue⟩, Nat.zero_le _⟩
  | next _ hrow hnext ih =>
    obtain ⟨hbuilt, ⟨rest, hqueue⟩, -⟩ := ih
    exact ⟨((h.processRow_gives hqueue hrow hbuilt).of_eq_ok hnext).2 rfl, ⟨rest, hqueue⟩, hrow⟩

/-- Where a frame is opened the counters of its partition allow for it. -/
theorem counted_of_opensFrame (h : Sound accepts regular e)
    (hopens : e.OpensFrame head row p peers) :
    0 < p.rowNumber ∧ 0 < peers ∧ p.rowNumber + peers ≤ p.length + 1 := by
  obtain ⟨progress, hreaches, hrow, hp, -, hpeers⟩ := hopens
  obtain ⟨hbuilt, ⟨rest, hqueue⟩, -⟩ := h.built_of_reaches hreaches
  obtain ⟨hcounted, hrank⟩ : p.Counted e.ops e.isFinished (rowsFrom e.queue row) ∧
      p.rank < p.rowNumber := by
    rcases hp with hopen | ⟨-, left, hopened⟩
    · have hunprocessed := hbuilt.unprocessed p hopen
      exact ⟨hunprocessed.toCounted, hunprocessed.rank_lt⟩
    · have hopens := ((h.openPartition_gives hqueue hrow hbuilt.regular).of_eq_ok hopened).2 p rfl
      exact ⟨hopens.1, hopens.2.1⟩
  obtain ⟨hpos, hle, -⟩ := (h.countPeers_gives hqueue hrow hcounted).of_eq_ok hpeers
  have hadd := hcounted.rowNumber_add
  exact ⟨Nat.zero_lt_of_lt hrank, hpos, by omega⟩

/-- A row that is left behind is one of those that remain, and of those of its frame. -/
theorem counted_of_leaves (h : Sound accepts regular e) (hleaves : e.Leaves head row p) :
    1 ≤ p.remaining ∧ 1 ≤ p.peers := by
  obtain ⟨progress, left, hreaches, hrow, hat⟩ := hleaves
  obtain ⟨hbuilt, ⟨rest, hqueue⟩, -⟩ := h.built_of_reaches hreaches
  have hp := ((h.partitionAt_gives hqueue hrow hbuilt).of_eq_ok hat).2 p rfl
  exact ⟨hp.remaining_pos, hp.peers_pos⟩

/-- What is subtracted is never more than what it is subtracted from. -/
theorem le_of_subtracts (h : Sound accepts regular e) {a b : Nat} (hab : e.Subtracts a b) :
    b ≤ a := by
  cases hab with
  | lastRow hblock => exact h.nonempty _ hblock
  | headRows hreaches => exact (h.built_of_reaches hreaches).2.2
  | waiting hreaches =>
    obtain ⟨-, ⟨rest, hqueue⟩, hle⟩ := h.built_of_reaches hreaches
    rw [hqueue, rowsFrom_zero, List.flatMap_cons, List.length_append, Block.length_refs]
    exact Nat.le_add_right_of_le hle
  | before hopens => exact (h.counted_of_opensFrame hopens).1
  | others hopens =>
    have := h.counted_of_opensFrame hopens
    omega
  | upToEnd hopens => exact Nat.le_add_right_of_le (h.counted_of_opensFrame hopens).1
  | remaining hleaves => exact (h.counted_of_leaves hleaves).1
  | peers hleaves => exact (h.counted_of_leaves hleaves).2

/-- A relative ranking is a quotient from zero to one. -/
theorem le_of_divides (h : Sound accepts regular e) {value : Double} {a b : Nat}
    (hab : e.Divides value a b) : value = .ratio a b ∧ a ≤ b ∧ 0 < b := by
  cases hab with
  | percentRank hopens hlength =>
    have := h.counted_of_opensFrame hopens
    exact ⟨if_pos hlength, by omega, by omega⟩
  | cumeDist hopens =>
    have := h.counted_of_opensFrame hopens
    exact ⟨rfl, by omega, by omega⟩

/-! ### Runs -/

/-- A call leaves the engine in order, whatever it answers. -/
theorem act_gives (h : Sound accepts regular e) {action : WindowAction}
    (hblocks : ∀ b ∈ WindowAction.pushed [action], b.types = e.config.inputTypes → accepts b) :
    (e.act action).Gives fun run ↦ Sound accepts regular run.engine ∧
      run.engine.config = e.config ∧ run.engine.ops = e.ops := by
  cases action with
  | finish => exact ⟨_, rfl, h.finish, rfl, rfl⟩
  | call c =>
    cases c with
    | push block =>
      rw [act, call]
      cases hpush : e.push block with
      | error refusal => exact ⟨_, rfl, h, rfl, rfl⟩
      | ok e' => exact ⟨_, rfl, h.push (hblocks block List.mem_cons_self) hpush⟩
    | process =>
      refine h.process_gives.bind ?_
      rintro ⟨e', result, events⟩ - ⟨hsound, hconfig, hops, -⟩
      cases result with
      | error refusal => exact ⟨_, rfl, hsound, hconfig, hops⟩
      | ok block => exact ⟨_, rfl, hsound, hconfig, hops⟩

/-- Calls in any order leave the engine in order. -/
theorem perform_gives (h : Sound accepts regular e) {actions : List WindowAction}
    (hblocks : ∀ b ∈ WindowAction.pushed actions, b.types = e.config.inputTypes → accepts b) :
    (e.perform actions).Gives fun run ↦
      Sound accepts regular run.engine ∧ run.engine.ops = e.ops := by
  induction actions generalizing e with
  | nil => exact ⟨_, rfl, h, rfl⟩
  | cons action actions ih =>
    rw [WindowAction.pushed_cons] at hblocks
    rw [perform]
    refine (h.act_gives fun b hb ↦ hblocks b (List.mem_append_left _ hb)).bind
      fun run _ ⟨hsound, hconfig, hops⟩ ↦ ?_
    cases hrefusal : run.refusal? with
    | some refusal => exact ⟨_, rfl, hsound, hops⟩
    | none =>
      refine (ih hsound fun b hb htypes ↦
        hblocks b (List.mem_append_right _ hb) (htypes.trans (congrArg _ hconfig))).bind
          fun later _ ⟨hlater, hops'⟩ ↦ ?_
      exact ⟨_, rfl, hlater, hops'.trans hops⟩

end Sound

end WindowEngine

namespace ColumnFrames

variable {f : ColumnFrames} {types : List DataType} {config : WindowConfig}

/-- Frames that can be read from inputs of some types have lawful operations. -/
theorem lawful_ops (hf : f.Fits types) :
    f.ops.Lawful (Block.WellFormed types) fun tallies ↦
      tallies.map Tally.aggregate = f.aggregates where
  samePartition := by
    refine Equates.of_key (fun ref ↦ Row.key f.partitionColumns <$> ref.1.row ref.2)
      fun {a b} ha hb ↦ ?_
    obtain ⟨x, hx, hxwidth⟩ := ha.1.exists_row ha.2
    obtain ⟨y, hy, hywidth⟩ := hb.1.exists_row hb.2
    refine ⟨_, sameValues_eq hx hy fun column hcolumn ↦ ?_, ?_⟩
    · rw [hxwidth, hywidth]
      exact ⟨hf.partitionColumns column hcolumn, hf.partitionColumns column hcolumn⟩
    · rw [hx, hy, decide_eq_true_iff]
      exact ⟨congrArg Except.ok, Except.ok.inj⟩
  peers := by
    refine Equates.of_key (fun ref ↦
      (fun x : Row ↦ (x.key f.partitionColumns, x.key f.orderColumns)) <$> ref.1.row ref.2)
      fun {a b} ha hb ↦ ?_
    obtain ⟨x, hx, hxwidth⟩ := ha.1.exists_row ha.2
    obtain ⟨y, hy, hywidth⟩ := hb.1.exists_row hb.2
    refine ⟨_, peers_eq_decide hx hy (fun column hcolumn ↦ ?_) fun column hcolumn ↦ ?_, ?_⟩
    · rw [hxwidth, hywidth]
      exact ⟨hf.partitionColumns column hcolumn, hf.partitionColumns column hcolumn⟩
    · rw [hxwidth, hywidth]
      exact ⟨hf.orderColumns column hcolumn, hf.orderColumns column hcolumn⟩
    · rw [hx, hy, decide_eq_true_iff, ← Prod.mk.injEq]
      exact ⟨congrArg Except.ok, Except.ok.inj⟩
  aggregate {tallies block row} htallies hrow := by
    obtain ⟨x, hx, hwidth⟩ := hrow.1.exists_row hrow.2
    refine (addRow_gives hx fun t ht column hcolumn ↦ ?_).mono fun left hleft ↦ hleft.trans htallies
    have hmem := List.mem_map_of_mem (f := Tally.aggregate) ht
    rw [htallies] at hmem
    exact hwidth ▸ hf.aggregates _ hmem column hcolumn
  write _ _ htallies := ⟨_, rfl, htallies⟩
  reset _ := map_aggregate_start f

variable {partitionColumns orderColumns : List Nat} {aggregates : List Aggregate}

/-- Whatever is pushed, and whenever heads are processed and the input is finished: no call is
abandoned, the counters of the open partition agree with each other and with the rows that wait,
none of the differences that the next call computes is below zero, and none of its quotients is
above one or has no denominator. -/
theorem counters_of_perform
    (hf : ofColumns partitionColumns orderColumns aggregates config.inputTypes = .ok f)
    (actions : List WindowAction)
    (hblocks : ∀ b ∈ WindowAction.pushed actions, b.WellFormed b.types) :
    ∃ run, (WindowEngine.start config f.ops f.start).perform actions = .ok run ∧
      (∀ b ∈ run.engine.queue, 0 < b.length) ∧
      (∀ p, run.engine.open? = some p →
        p.Unprocessed f.ops run.engine.isFinished (rowsFrom run.engine.queue 0)) ∧
      (∀ a b, run.engine.Subtracts a b → b ≤ a) ∧
      ∀ value a b, run.engine.Divides value a b → value = .ratio a b ∧ a ≤ b ∧ 0 < b := by
  have hstart : WindowEngine.Sound (Block.WellFormed config.inputTypes)
      (fun tallies ↦ tallies.map Tally.aggregate = f.aggregates)
      (.start config f.ops f.start) :=
    .start (lawful_ops (fits_of_ofColumns hf)) (map_aggregate_start f) config
  obtain ⟨run, hrun, hsound, hops⟩ := hstart.perform_gives
    fun b hb htypes ↦ htypes ▸ hblocks b hb
  replace hops : run.engine.ops = f.ops := hops
  exact ⟨run, hrun, hsound.nonempty, fun p hp ↦ hops ▸ hsound.unprocessed p hp,
    fun _ _ ↦ hsound.le_of_subtracts, fun _ _ _ ↦ hsound.le_of_divides⟩

/-- The head is processed before the end of its last partition is seen. -/
def hasty : List WindowAction :=
  [.call (.push (pairBlock [2, 1] [1, 1] 2)), .call (.push (pairBlock [1, 1, 7] [1, 2, 7] 2)),
    .call .process]

theorem wellFormed_pairBlock {firsts seconds : List Int64} {length : Nat}
    (hlength : firsts.length = seconds.length) (hle : length ≤ firsts.length) :
    (pairBlock firsts seconds length).WellFormed [.bigInt, .bigInt] where
  types_eq := rfl
  size_eq c hc := by
    rcases List.mem_cons.1 hc with rfl | hc
    · rfl
    · obtain rfl := List.mem_singleton.1 hc
      exact hlength.symm
  length_le := hle
  aligned c hc := by
    rcases List.mem_cons.1 hc with rfl | hc
    · exact FixedColumn.aligned_ofValues firsts
    · obtain rfl := List.mem_singleton.1 hc
      exact FixedColumn.aligned_ofValues seconds

/-- Two rows of the partition that was opened still wait, and its end is not known. -/
theorem counters_of_perform_hasty : ∃ run p,
    (WindowEngine.start pairConfig pairFrames.ops pairFrames.start).perform hasty = .ok run ∧
      run.engine.open? = some p ∧ p.remaining = 2 ∧ p.isFinal = false ∧
      p.Unprocessed pairFrames.ops false (rowsFrom run.engine.queue 0) := by
  have hf : ofColumns [0] [1] [.sum 1] pairConfig.inputTypes = .ok pairFrames := rfl
  have hblocks : ∀ b ∈ WindowAction.pushed hasty, b.WellFormed b.types := by
    intro b hb
    rcases List.mem_cons.1 hb with rfl | hb
    · exact wellFormed_pairBlock rfl (by decide)
    · obtain rfl := List.mem_singleton.1 hb
      exact wellFormed_pairBlock rfl (by decide)
  obtain ⟨run, hrun, -, hunprocessed, -⟩ := counters_of_perform hf hasty hblocks
  obtain ⟨run₀, p, hrun₀, hopen, hremaining, hfinal, hfinished⟩ : ∃ run p,
      (WindowEngine.start pairConfig pairFrames.ops pairFrames.start).perform hasty = .ok run ∧
        run.engine.open? = some p ∧ p.remaining = 2 ∧ p.isFinal = false ∧
        run.engine.isFinished = false :=
    ⟨_, _, rfl, rfl, rfl, rfl, rfl⟩
  obtain rfl := Except.ok.inj (hrun.symm.trans hrun₀)
  exact ⟨run, p, hrun, hopen, hremaining, hfinal, hfinished ▸ hunprocessed p hopen⟩

end ColumnFrames

end Columnar
