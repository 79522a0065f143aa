import Columnar.Block.Basic
import Columnar.Window.Ranking

/-!
# Window engines

A window engine receives blocks that are sorted by partition and order and gives every block back
with aggregates and rankings of its rows. It knows nothing about rows but what `FrameOps` tells it:
which of them are in the same partition, which are peers, and how a row is taken into an
aggregation. The comparisons are not told the state of the aggregation and can not change it.

## The queue

A frame may end in a later block than it begins in, so blocks wait in a queue; the head of the queue
can be processed once every frame that begins in it is seen to end. To see this **only the last row
of the head and the last row of the queue are compared**: the input is sorted, so if these two are
not peers then the peers of the former end before.

Processing a head before it is ready is allowed. It cuts its last frame at the end of the queue, and
the rest of the peers form a frame of their own.

## Frames

Each frame is aggregated once, at its first row, and the aggregation goes on from frame to frame
until the partition ends. Rows of later blocks are read from the queue, where they stay until it is
their turn to be given back. A partition that is not known to have ended is counted again when the
next head is processed, from the first row that was not yet counted.

## Refusals

If a row is refused the open partition is forgotten and the head stays, so the same block can be
tried again. It then starts with a new partition at its first row, as nothing is known any more
about the rows before. A refusal while the output is put together comes after the head has left the
queue.

Blocks that were given back are counted, rows and partitions and frames too. The counts of frames
and partitions include those of a head that was refused.
-/

namespace Columnar

/-! ### Operations on frames -/

/-- The operations of a window engine on rows, with an aggregation state `σ` and errors `ε`. An
operation that fails leaves the state and the output as far as it came. -/
structure FrameOps (σ ε : Type) where
  /-- Whether two rows belong to the same partition. -/
  samePartition : (a : Block) → (aRow : Nat) → (b : Block) → (bRow : Nat) → Checked Bool
  /-- Whether two rows belong to the same partition and tie in its order. -/
  peers : (a : Block) → (aRow : Nat) → (b : Block) → (bRow : Nat) → Checked Bool
  /-- Take a row into the aggregation. -/
  aggregate : σ → (input : Block) → (row : Nat) → Checked (σ × Except ε Unit)
  /-- Write the aggregation into a row of an output. -/
  write : σ → (output : Block) → (row : Nat) → Checked (σ × Block × Except ε Unit)
  /-- Begin the aggregation of a partition, unless that is impossible. -/
  reset : σ → σ × Bool

/-! ### Configurations -/

/-- What a window reads and writes. -/
structure WindowConfig where
  inputTypes : List DataType
  aggregateTypes : List DataType
  rankings : List Ranking
  deriving DecidableEq, Repr

namespace WindowConfig

/-- The types of the blocks that are given back. -/
def outputTypes (config : WindowConfig) : List DataType :=
  config.inputTypes ++ config.aggregateTypes ++ config.rankings.map Ranking.dataType

/-- Whether some value depends on the whole partition of its row. -/
def needsWholePartition (config : WindowConfig) : Bool :=
  config.rankings.any Ranking.needsWholePartition

end WindowConfig

/-- Why a window engine refuses an operation. The cause is what the operations on rows reported. -/
inductive WindowError (ε : Type)
  | schemaChange (expected found : List DataType)
  | inputFinished
  | noPendingBlock
  | resetFailed
  | aggregateFailed (row : Nat) (cause : ε)
  | writeAggregateFailed (row : Nat) (cause : ε)
  | writeRankingFailed (ranking : Ranking) (row : Nat) (cause : ColumnError)
  | assembleFailed (cause : BlockError)
  deriving DecidableEq, Repr

/-- The text of a refusal, without its cause. -/
def WindowError.message {ε : Type} : WindowError ε → String
  | schemaChange expected found =>
    s!"Data block has layout `{DataType.listNames found}`, however the window is created for " ++
      s!"`{DataType.listNames expected}`"
  | inputFinished => "Can not push data block after the input is finished"
  | noPendingBlock => "Window does not have pending data block to process"
  | resetFailed => "Failed to reset the aggregation state at the start of the partition"
  | aggregateFailed row _ => s!"Failed to aggregate row `{row}` of the frame"
  | writeAggregateFailed row _ => s!"Failed to write the aggregation result of row `{row}`"
  | writeRankingFailed ranking row _ => s!"Failed to write `{ranking.sqlName}` of row `{row}`"
  | assembleFailed _ => "Failed to assemble the output data block"

/-- What a window engine is about to do. -/
inductive Phase
  /-- No partition is open. -/
  | idle
  /-- The next row starts a frame of the open partition. -/
  | partitionOpen
  /-- The next row belongs to a frame that was aggregated. -/
  | frameReady
  /-- There will be no more input. -/
  | draining
  deriving DecidableEq, Repr

/-- The name of a phase. -/
def Phase.name : Phase → String
  | idle => "Idle"
  | partitionOpen => "PartitionOpen"
  | frameReady => "FrameReady"
  | draining => "Draining"

/-- What a window engine reports. -/
inductive WindowEvent
  | finished (pending : Nat)
  | partitionOpened (rows : Nat) (isFinal : Bool)
  | processed (rows pending : Nat) (phase : Phase)
  deriving DecidableEq, Repr

namespace WindowEvent

/-- The level of an event. -/
def level : WindowEvent → Level
  | finished _ => .debug
  | partitionOpened _ _ => .trace
  | processed _ _ _ => .trace

/-- The text of an event. -/
def message : WindowEvent → String
  | finished pending => s!"Window input is finished with `{pending}` pending data blocks"
  | partitionOpened rows isFinal =>
    s!"Window opens partition with `{rows}` rows, length is final: `{isFinal}`"
  | processed rows pending phase =>
    s!"Window processes data block with `{rows}` rows, pending data blocks: `{pending}`, " ++
      s!"state: `{phase.name}`"

end WindowEvent

/-- What a window engine has done. -/
structure WindowMetrics where
  blocks : Nat := 0
  rows : Nat := 0
  partitions : Nat := 0
  frames : Nat := 0
  deriving DecidableEq, Repr

/-- A window engine between two operations. -/
structure WindowEngine (σ ε : Type) where
  config : WindowConfig
  ops : FrameOps σ ε
  /-- The state of the aggregation. -/
  aggregation : σ
  /-- The blocks that wait to be processed. None of them is empty. -/
  queue : List Block
  /-- The partition of the next row, if it began before. -/
  open? : Option Partition
  isFinished : Bool
  /-- The number of rows that were given back last. -/
  outputCount : Nat
  metrics : WindowMetrics

/-! ### Buffered rows -/

/-- The rows of blocks in order, from a row of the first block on. -/
def rowsFrom (blocks : List Block) (row : Nat) : List (Block × Nat) :=
  match blocks with
  | [] => []
  | head :: rest =>
    (List.range' row (head.length - row)).map (head, ·) ++
      rest.flatMap fun block ↦ (List.range block.length).map (block, ·)

/-- What processing a block has built so far. -/
structure Progress (σ : Type) where
  aggregation : σ
  open? : Option Partition
  aggregates : Block
  rankings : List Column
  metrics : WindowMetrics
  events : List WindowEvent

namespace WindowEngine

variable {σ ε : Type}

/-- An engine that has received nothing. -/
def start (config : WindowConfig) (ops : FrameOps σ ε) (aggregation : σ) : WindowEngine σ ε where
  config := config
  ops := ops
  aggregation := aggregation
  queue := []
  open? := none
  isFinished := false
  outputCount := 0
  metrics := {}

variable (e : WindowEngine σ ε)

/-- What the engine is about to do. -/
def phase : Phase :=
  if e.isFinished then .draining
  else match e.open? with
    | none => .idle
    | some p => if p.isFrameDone then .partitionOpen else .frameReady

/-- Receive a block. An empty one is ignored. -/
def push (block : Block) : Except (WindowError ε) (WindowEngine σ ε) :=
  if e.isFinished then .error .inputFinished
  else if block.types ≠ e.config.inputTypes then
    .error (.schemaChange e.config.inputTypes block.types)
  else if block.isEmpty then .ok e
  else .ok { e with queue := e.queue ++ [block] }

/-- Learn that there will be no more input. -/
def finish : WindowEngine σ ε × List WindowEvent :=
  ({ e with isFinished := true }, [.finished e.queue.length])

/-- Whether every frame that begins in the head of the queue is seen to end: the last row of the
queue is not a peer of the last row of the head, or not even of its partition where values depend on
the whole of it. -/
def canAdvance : Checked Bool :=
  match e.queue with
  | [] => return false
  | [_] => return e.isFinished
  | head :: next :: rest =>
    if e.isFinished then return true
    else do
      let tail := (next :: rest).getLast (List.cons_ne_nil next rest)
      let same ← e.ops.samePartition head (head.length - 1) tail (tail.length - 1)
      if e.config.needsWholePartition || !same then return !same
      else return !(← e.ops.peers head (head.length - 1) tail (tail.length - 1))

/-! ### Processing the head -/

/-- Count the rows of the open partition that were received since it was last counted. -/
def extendOpen (head : Block) (p : Partition) : Checked Partition :=
  if p.isFinal then return p
  else do
    let unseen := (rowsFrom e.queue 0).drop p.remaining
    let additional ← Checked.countWhile (fun (block, row) ↦ e.ops.samePartition head 0 block row)
      unseen
    return p.extend additional (decide (additional < unseen.length) || e.isFinished)

/-- Open the partition that begins in a row of the head. -/
def openPartition (head : Block) (row : Nat) (progress : Progress σ) :
    Checked (Progress σ × Except (WindowError ε) Partition) := do
  let buffered := rowsFrom e.queue row
  let length ← Checked.countWhile (fun (block, other) ↦ e.ops.samePartition head row block other)
    buffered
  let isFinal := decide (length < buffered.length) || e.isFinished
  let (aggregation, done) := e.ops.reset progress.aggregation
  let progress := { progress with aggregation := aggregation }
  if done then
    return ({ progress with
      metrics.partitions := progress.metrics.partitions + 1
      events := progress.events ++ [.partitionOpened length isFinal] },
      .ok (.start length isFinal))
  else return (progress, .error .resetFailed)

/-- Take rows into the aggregation. -/
def aggregateRows : σ → List (Block × Nat) → Checked (σ × Except ε Unit)
  | aggregation, [] => return (aggregation, .ok ())
  | aggregation, (block, row) :: rest => do
    let (aggregation, result) ← e.ops.aggregate aggregation block row
    match result with
    | .error cause => return (aggregation, .error cause)
    | .ok () => aggregateRows aggregation rest

/-- Start the frame of a row of the head and aggregate it. -/
def openFrame (head : Block) (row : Nat) (p : Partition) (progress : Progress σ) :
    Checked (Progress σ × Except (WindowError ε) Partition) := do
  let rest := (rowsFrom e.queue row).take p.remaining
  let peers ← Checked.countWhile (fun (block, other) ↦ e.ops.peers head row block other) rest
  let (aggregation, result) ← e.aggregateRows progress.aggregation (rest.take peers)
  let progress := { progress with
    aggregation := aggregation
    metrics.frames := progress.metrics.frames + 1 }
  match result with
  | .error cause => return (progress, .error (.aggregateFailed row cause))
  | .ok () => return (progress, .ok (p.newFrame peers))

/-- Write the rankings of a row, from the first one on and up to the first refusal. -/
def writeRankings (p : Partition) (row : Nat) :
    List Ranking → List Column → Except (WindowError ε) (List Column)
  | ranking :: rankings, column :: columns =>
    match column.set row (some (ranking.value p)) with
    | .error cause => .error (.writeRankingFailed ranking row cause)
    | .ok column => do return column :: (← writeRankings p row rankings columns)
  | _, columns => return columns

/-- The partition of a row of the head, at that row and with its frame aggregated. -/
def partitionAt (head : Block) (row : Nat) (progress : Progress σ) :
    Checked (Progress σ × Except (WindowError ε) Partition) := do
  let (progress, opened) ←
    match progress.open? with
    | some p => pure (progress, .ok p)
    | none => e.openPartition head row progress
  match opened with
  | .error refusal => return (progress, .error refusal)
  | .ok p => if p.isFrameDone then e.openFrame head row p progress else return (progress, .ok p)

/-- Process a row of the head. -/
def processRow (head : Block) (row : Nat) (progress : Progress σ) :
    Checked (Progress σ × Except (WindowError ε) Unit) := do
  let (progress, located) ← e.partitionAt head row progress
  match located with
  | .error refusal => return (progress, .error refusal)
  | .ok p => do
    let (aggregation, aggregates, result) ←
      e.ops.write progress.aggregation progress.aggregates row
    let progress := { progress with aggregation := aggregation, aggregates := aggregates }
    match result with
    | .error cause => return (progress, .error (.writeAggregateFailed row cause))
    | .ok () =>
      match writeRankings p row e.config.rankings progress.rankings with
      | .error refusal => return (progress, .error refusal)
      | .ok rankings =>
        let p := p.advance
        return ({ progress with
          rankings := rankings
          open? := if p.isDone then none else some p }, .ok ())

/-- Process rows of the head, up to the first refusal. -/
def processRows (head : Block) :
    List Nat → Progress σ → Checked (Progress σ × Except (WindowError ε) Unit)
  | [], progress => return (progress, .ok ())
  | row :: rows, progress => do
    let (progress, result) ← e.processRow head row progress
    match result with
    | .error refusal => return (progress, .error refusal)
    | .ok () => processRows head rows progress

/-- The columns of a block with the new ones behind them. -/
def assemble (head aggregates : Block) (rankings : List Column) :
    Except (WindowError ε) Block :=
  match Block.ofColumns (head.columns ++ aggregates.columns ++ rankings) with
  | .error cause => .error (.assembleFailed cause)
  | .ok output => (output.setLength head.length).mapError .assembleFailed

/-- Process the head of the queue and give it back with aggregates and rankings. If a row is refused
the open partition is forgotten and the head stays. -/
def process :
    Checked (WindowEngine σ ε × Except (WindowError ε) Block × List WindowEvent) :=
  match e.queue with
  | [] => return (e, .error .noPendingBlock, [])
  | head :: rest => do
    let opened ← e.open?.mapM (e.extendOpen head)
    let (progress, result) ← e.processRows head (List.range head.length) {
      aggregation := e.aggregation
      open? := opened
      aggregates := .ofTypes e.config.aggregateTypes head.capacity
      rankings := e.config.rankings.map fun ranking ↦ .nulls ranking.dataType head.capacity
      metrics := e.metrics
      events := [] }
    let e := { e with aggregation := progress.aggregation, metrics := progress.metrics }
    match result with
    | .error refusal => return ({ e with open? := none }, .error refusal, progress.events)
    | .ok () =>
      let e := { e with open? := progress.open?, queue := rest }
      match assemble head progress.aggregates progress.rankings with
      | .error refusal => return (e, .error refusal, progress.events)
      | .ok output =>
        let e := { e with
          outputCount := head.length
          metrics.blocks := e.metrics.blocks + 1
          metrics.rows := e.metrics.rows + head.length }
        return (e, .ok output, progress.events ++ [.processed head.length rest.length e.phase])

/-- Process blocks as long as the engine can advance, at most `count` of them and up to the first
refusal. -/
def drainAtMost : Nat → WindowEngine σ ε →
    Checked (WindowEngine σ ε × List Block × Option (WindowError ε) × List WindowEvent)
  | 0, e => return (e, [], none, [])
  | count + 1, e => do
    if ← e.canAdvance then
      let (e, result, events) ← e.process
      match result with
      | .error refusal => return (e, [], some refusal, events)
      | .ok block => do
        let (e, blocks, refusal?, later) ← drainAtMost count e
        return (e, block :: blocks, refusal?, events ++ later)
    else return (e, [], none, [])

/-- Process blocks as long as the engine can advance. Every block processed leaves the queue, which
bounds their number. -/
def drain : Checked (WindowEngine σ ε × List Block × Option (WindowError ε) × List WindowEvent) :=
  drainAtMost e.queue.length e

end WindowEngine

end Columnar
