import Columnar.Proofs.Window.Observed

/-!
# Calls for partitions of frames

The calls that an engine makes on its operations can be noted beside the aggregation
(`FrameOps.recorded`), which changes nothing else (`matches_recorded`). So what an engine calls is a
list that can be spoken of, without a word about the state of any aggregation.

## Calls in order

They are in order if every partition begins with a reset and goes on with its frames, each of which
is aggregated row by row and then written row by row (`InOrder`). The relation is built in the order
of the calls, one constructor for each kind of step, with the rows that were aggregated and are
still to be written beside it. **A frame may be aggregated in one call of the engine and written in
later ones**, so between calls such rows are left over.

## What follows

Calls in order are the calls for all partitions but for the rows that are still to be written
(`InOrder.calls_eq`). So a row is aggregated once (`aggregated_eq`) and written once (`written_eq`),
a partition is begun by one reset (`resets_eq`), and when a row is written the aggregation holds the
rows from the first one of its partition to the last one of its frame
(`InOrder.sinceReset_of_write`), in the order in which they came.
-/

namespace Columnar

variable {σ τ ε : Type}

/-- A call that an aggregation is changed or read by. -/
inductive FrameCall
  | reset
  | aggregate (block : Block) (row : Nat)
  | write (row : Nat)

namespace FrameCall

/-- Whether a partition is begun. -/
def isReset : FrameCall → Bool
  | reset => true
  | _ => false

/-- The row that is taken into the aggregation. -/
def aggregated? : FrameCall → Option (Block × Nat)
  | aggregate block row => some (block, row)
  | _ => none

/-- The row of the output that is written. -/
def written? : FrameCall → Option Nat
  | write row => some row
  | _ => none

/-- The rows in the aggregation after a call. -/
def step (held : List (Block × Nat)) : FrameCall → List (Block × Nat)
  | reset => []
  | aggregate block row => held ++ [(block, row)]
  | write _ => held

/-- The calls that aggregate rows. -/
def aggregates (refs : List (Block × Nat)) : List FrameCall :=
  refs.map fun (block, row) ↦ aggregate block row

/-- The calls that write rows. -/
def writes (refs : List (Block × Nat)) : List FrameCall :=
  refs.map fun (_, row) ↦ write row

/-- The calls for a partition of frames. -/
def ofPartition (frames : List (List (Block × Nat))) : List FrameCall :=
  reset :: frames.flatMap fun frame ↦ aggregates frame ++ writes frame

end FrameCall

/-- The rows that were aggregated since the last reset. -/
def sinceReset (calls : List FrameCall) : List (Block × Nat) := calls.foldl FrameCall.step []

/-! ### Noted calls -/

/-- Operations that note the calls beside the aggregation. -/
def FrameOps.recorded (ops : FrameOps σ ε) : FrameOps (σ × List FrameCall) ε where
  samePartition := ops.samePartition
  peers := ops.peers
  aggregate := fun (aggregation, calls) block row ↦ do
    let (aggregation, result) ← ops.aggregate aggregation block row
    return ((aggregation, calls ++ [.aggregate block row]), result)
  write := fun (aggregation, calls) output row ↦ do
    let (aggregation, output, result) ← ops.write aggregation output row
    return ((aggregation, calls ++ [.write row]), output, result)
  reset := fun (aggregation, calls) ↦
    (((ops.reset aggregation).1, calls ++ [.reset]), (ops.reset aggregation).2)

/-- What notes the calls changes nothing else. -/
theorem FrameOps.matches_recorded (ops : FrameOps σ ε) :
    ops.Matches (fun aggregation noted ↦ noted.1 = aggregation) ops.recorded where
  samePartition_eq := rfl
  peers_eq := rfl
  aggregate {s noted} block row hnoted := by
    obtain ⟨t, calls⟩ := noted
    obtain rfl : t = s := hnoted
    show Checked.Related _ (ops.aggregate t block row)
      (ops.aggregate t block row >>= fun (u, result) ↦ pure ((u, calls ++ [_]), result))
    cases ops.aggregate t block row with
    | error trap => exact .error trap
    | ok outcome => exact .ok ⟨rfl, rfl⟩
  write {s noted} output row hnoted := by
    obtain ⟨t, calls⟩ := noted
    obtain rfl : t = s := hnoted
    show Checked.Related _ (ops.write t output row)
      (ops.write t output row >>= fun (u, output, result) ↦
        pure ((u, calls ++ [_]), output, result))
    cases ops.write t output row with
    | error trap => exact .error trap
    | ok outcome => exact .ok ⟨rfl, rfl⟩
  reset {s noted} hnoted := by
    obtain ⟨t, calls⟩ := noted
    obtain rfl : t = s := hnoted
    exact ⟨rfl, rfl⟩

/-- Operations that note every call they answer. -/
structure FrameOps.Notes (ops : FrameOps (σ × List FrameCall) ε) : Prop where
  aggregate : ∀ {s t block row result}, ops.aggregate s block row = .ok (t, result) →
    t.2 = s.2 ++ [.aggregate block row]
  write : ∀ {s t output row written}, ops.write s output row = .ok (t, written) →
    t.2 = s.2 ++ [.write row]
  reset : ∀ s, (ops.reset s).1.2 = s.2 ++ [.reset]

theorem FrameOps.notes_recorded (ops : FrameOps σ ε) : ops.recorded.Notes where
  aggregate h := by
    obtain ⟨_, -, h⟩ := exists_of_bind_eq_ok h
    obtain ⟨rfl, -⟩ := Prod.mk.inj (Except.ok.inj h)
    rfl
  write h := by
    obtain ⟨_, -, h⟩ := exists_of_bind_eq_ok h
    obtain ⟨rfl, -⟩ := Prod.mk.inj (Except.ok.inj h)
    rfl
  reset _ := rfl

/-! ### Calls in order -/

/-- A position is one of a frame that has frames of its partition in front of it. -/
def FrameAt (partitions : List (List (List (Block × Nat)))) (position : Nat)
    (frames : List (List (Block × Nat))) (frame : List (Block × Nat)) : Prop :=
  ∃ earlier rest later, partitions = earlier ++ (frames ++ frame :: rest) :: later ∧
    (earlier.flatten ++ frames).flatten.length ≤ position ∧
    position < (earlier.flatten ++ frames).flatten.length + frame.length

/-- Calls for partitions of frames, of which some rows were written and the rows `ahead` were only
aggregated. -/
inductive InOrder (ops : FrameOps τ ε) : List (List (List (Block × Nat))) → List (Block × Nat) →
    List (Block × Nat) → List FrameCall → Prop
  | start : InOrder ops [] [] [] []
  | reset {partitions written calls} : InOrder ops partitions written [] calls →
    InOrder ops (partitions ++ [[]]) written [] (calls ++ [.reset])
  /-- The peers that come next in the partition are aggregated. -/
  | frame {earlier frames written calls frame} :
    InOrder ops (earlier ++ [frames]) written [] calls → frame ≠ [] → Together ops.peers frame →
    Together ops.samePartition (frames.flatten ++ frame) →
    InOrder ops (earlier ++ [frames ++ [frame]]) written frame (calls ++ FrameCall.aggregates frame)
  | write {partitions written ref ahead calls} :
    InOrder ops partitions written (ref :: ahead) calls →
    InOrder ops partitions (written ++ [ref]) ahead (calls ++ [.write ref.2])

theorem FrameAt.reset {partitions : List (List (List (Block × Nat)))} {position : Nat}
    {frames : List (List (Block × Nat))} {frame : List (Block × Nat)}
    (h : FrameAt partitions position frames frame) :
    FrameAt (partitions ++ [[]]) position frames frame := by
  obtain ⟨earlier, rest, later, rfl, hle, hlt⟩ := h
  exact ⟨earlier, rest, later ++ [[]], by simp, hle, hlt⟩

/-- A frame at the end of the last partition leaves the others where they are. -/
theorem FrameAt.frame {before : List (List (List (Block × Nat)))} {position : Nat}
    {last frames : List (List (Block × Nat))} {frame : List (Block × Nat)}
    (h : FrameAt (before ++ [last]) position frames frame) (next : List (Block × Nat)) :
    FrameAt (before ++ [last ++ [next]]) position frames frame := by
  obtain ⟨earlier, rest, later, heq, hle, hlt⟩ := h
  rcases List.eq_nil_or_concat later with rfl | ⟨later, final, rfl⟩
  · obtain ⟨rfl, hlast⟩ := List.append_inj' heq rfl
    obtain rfl := List.singleton_inj.1 hlast
    exact ⟨before, rest ++ [next], [], by simp, hle, hlt⟩
  · rw [List.concat_eq_append, ← List.cons_append, ← List.append_assoc] at heq
    obtain ⟨rfl, -⟩ := List.append_inj' heq rfl
    exact ⟨earlier, rest, later ++ [last ++ [next]], by simp, hle, hlt⟩

namespace InOrder

variable {ops : FrameOps τ ε} {partitions earlier : List (List (List (Block × Nat)))}
  {frames : List (List (Block × Nat))} {written ahead : List (Block × Nat)}
  {calls : List FrameCall}

/-- The rows of the partitions are those that were aggregated. -/
theorem flatten_eq (h : InOrder ops partitions written ahead calls) :
    partitions.flatten.flatten = written ++ ahead := by
  induction h with
  | start => rfl
  | reset _ ih => simpa using ih
  | frame _ _ _ _ ih =>
    simp only [List.flatten_append, List.flatten_singleton, List.append_nil] at ih ⊢
    rw [← List.append_assoc, ih]
  | write _ ih => rw [ih, List.append_assoc, List.singleton_append]

/-- What was called and what is still to be written are the calls for the partitions. -/
theorem calls_eq (h : InOrder ops partitions written ahead calls) :
    calls ++ FrameCall.writes ahead = partitions.flatMap FrameCall.ofPartition := by
  induction h with
  | start => rfl
  | reset _ ih =>
    rw [FrameCall.writes, List.map_nil, List.append_nil] at ih ⊢
    rw [List.flatMap_append, ← ih]
    rfl
  | frame _ _ _ _ ih =>
    rw [FrameCall.writes, List.map_nil, List.append_nil] at ih
    rw [List.flatMap_append, List.flatMap_singleton] at ih ⊢
    rw [FrameCall.ofPartition, List.flatMap_append, List.flatMap_singleton, ← List.cons_append,
      ← List.append_assoc, ← FrameCall.ofPartition, ← ih, List.append_assoc]
  | write _ ih =>
    rw [← ih, List.append_assoc]
    rfl

/-- The rows that were written, in order. -/
theorem written_eq (h : InOrder ops partitions written ahead calls) :
    calls.filterMap FrameCall.written? = written.map Prod.snd := by
  induction h with
  | start => rfl
  | reset _ ih => rw [List.filterMap_append, ih]; exact List.append_nil _
  | frame _ _ _ _ ih =>
    rw [List.filterMap_append, ih, FrameCall.aggregates, List.filterMap_map]
    simp [Function.comp_def, FrameCall.written?]
  | write _ ih => simp [FrameCall.written?, ih]

/-- The rows that were aggregated, in order. -/
theorem aggregated_eq (h : InOrder ops partitions written ahead calls) :
    calls.filterMap FrameCall.aggregated? = written ++ ahead := by
  induction h with
  | start => rfl
  | reset _ ih => rw [List.filterMap_append, ih]; simp [FrameCall.aggregated?]
  | frame _ _ _ _ ih =>
    rw [List.filterMap_append, ih, FrameCall.aggregates, List.filterMap_map, List.append_nil]
    simp [Function.comp_def, FrameCall.aggregated?]
  | write _ ih => simp [FrameCall.aggregated?, ih]

/-- A partition is begun by one reset. -/
theorem resets_eq (h : InOrder ops partitions written ahead calls) :
    calls.countP FrameCall.isReset = partitions.length := by
  induction h with
  | start => rfl
  | reset _ ih =>
    rw [List.countP_append, ih, List.length_append]
    rfl
  | frame _ _ _ _ ih =>
    rw [List.countP_append, ih, FrameCall.aggregates, List.countP_map]
    simp [Function.comp_def, FrameCall.isReset]
  | write _ ih =>
    rw [List.countP_append, ih]
    rfl

theorem foldl_aggregates (held refs : List (Block × Nat)) :
    (FrameCall.aggregates refs).foldl FrameCall.step held = held ++ refs := by
  induction refs generalizing held with
  | nil => exact (List.append_nil held).symm
  | cons ref refs ih =>
    rw [FrameCall.aggregates, List.map_cons, List.foldl_cons, ← FrameCall.aggregates, ih,
      FrameCall.step, List.append_assoc, List.singleton_append]

/-- The aggregation holds the frames of the last partition. -/
theorem sinceReset_eq (h : InOrder ops partitions written ahead calls)
    (hlast : partitions = earlier ++ [frames]) : sinceReset calls = frames.flatten := by
  induction h generalizing earlier frames with
  | start => simp at hlast
  | reset _ _ =>
    obtain ⟨-, hlast⟩ := List.append_inj' hlast rfl
    obtain rfl := List.singleton_inj.1 hlast
    rw [sinceReset, List.foldl_append]
    rfl
  | @frame earlier' frames' _ _ frame _ _ _ _ ih =>
    obtain ⟨-, hlast⟩ := List.append_inj' hlast rfl
    obtain rfl := List.singleton_inj.1 hlast
    have hheld := ih rfl
    rw [sinceReset] at hheld ⊢
    rw [List.foldl_append, hheld, foldl_aggregates, List.flatten_append, List.flatten_singleton]
  | write _ ih =>
    have hheld := ih hlast
    rw [sinceReset] at hheld ⊢
    rw [List.foldl_append, hheld]
    rfl

/-- Rows that were only aggregated are the end of the last frame. -/
theorem exists_frame_of_ahead (h : InOrder ops partitions written ahead calls) (hne : ahead ≠ []) :
    ∃ earlier frames done, partitions = earlier ++ [frames ++ [done ++ ahead]] := by
  induction h with
  | start => exact absurd rfl hne
  | reset _ _ => exact absurd rfl hne
  | frame _ _ _ _ _ => exact ⟨_, _, [], rfl⟩
  | @write _ _ ref ahead _ _ ih =>
    obtain ⟨earlier, frames, done, rfl⟩ := ih (List.cons_ne_nil _ _)
    exact ⟨earlier, frames, done ++ [ref], by rw [List.append_assoc, List.singleton_append]⟩

/-- A frame and a partition are together. -/
theorem together (h : InOrder ops partitions written ahead calls) :
    (∀ frame ∈ partitions.flatten, frame ≠ [] ∧ Together ops.peers frame) ∧
      ∀ frames ∈ partitions, Together ops.samePartition frames.flatten := by
  induction h with
  | start => exact ⟨nofun, nofun⟩
  | reset _ ih =>
    refine ⟨by simpa using ih.1, fun frames hframes ↦ ?_⟩
    rcases List.mem_append.1 hframes with hframes | hframes
    · exact ih.2 frames hframes
    · obtain rfl := List.mem_singleton.1 hframes
      exact nofun
  | @frame earlier frames _ _ frame _ hne hpeers hsame ih =>
    refine ⟨fun other hother ↦ ?_, fun others hothers ↦ ?_⟩
    · simp only [List.flatten_append, List.flatten_singleton, ← List.append_assoc] at hother ih
      rcases List.mem_append.1 hother with hother | hother
      · exact ih.1 other hother
      · obtain rfl := List.mem_singleton.1 hother
        exact ⟨hne, hpeers⟩
    · rcases List.mem_append.1 hothers with hothers | hothers
      · exact ih.2 others (List.mem_append_left _ hothers)
      · obtain rfl := List.mem_singleton.1 hothers
        rwa [List.flatten_append, List.flatten_singleton]
  | write _ ih => exact ih

/-- Calls of which none writes leave a call that writes in front of them. -/
theorem exists_of_append_eq {extra before after : List FrameCall} {row : Nat}
    (h : calls ++ extra = before ++ .write row :: after) (hextra : FrameCall.write row ∉ extra) :
    ∃ after, calls = before ++ .write row :: after := by
  rcases List.append_eq_append_iff.1 h with ⟨mid, -, rfl⟩ | ⟨mid, rfl, hmid⟩
  · exact absurd (List.mem_append_right mid List.mem_cons_self) hextra
  · cases mid with
    | nil =>
      obtain rfl : _ = extra := hmid
      exact absurd List.mem_cons_self hextra
    | cons call mid =>
      obtain ⟨rfl, -⟩ := List.cons.inj hmid
      exact ⟨mid, rfl⟩

/-- When a row is written the aggregation holds the rows of its partition up to the last one of its
frame. -/
theorem sinceReset_of_write (h : InOrder ops partitions written ahead calls)
    {before after : List FrameCall} {row : Nat} (hwrite : calls = before ++ .write row :: after) :
    ∃ frames frame, FrameAt partitions (before.filterMap FrameCall.written?).length frames frame ∧
      sinceReset before = (frames ++ [frame]).flatten := by
  induction h generalizing after with
  | start => simp at hwrite
  | reset _ ih =>
    obtain ⟨after, hwrite⟩ := exists_of_append_eq hwrite (by simp)
    obtain ⟨frames, frame, hframe, hheld⟩ := ih hwrite
    exact ⟨frames, frame, hframe.reset, hheld⟩
  | @frame _ _ _ _ next _ _ _ _ ih =>
    obtain ⟨after, hwrite⟩ := exists_of_append_eq hwrite (by simp [FrameCall.aggregates])
    obtain ⟨frames, frame, hframe, hheld⟩ := ih hwrite
    exact ⟨frames, frame, hframe.frame next, hheld⟩
  | @write partitions written ref ahead calls hcalls ih =>
    rcases List.eq_nil_or_concat after with rfl | ⟨after, last, rfl⟩
    · -- the row is the first of those that were only aggregated
      obtain ⟨rfl, -⟩ := List.append_inj' hwrite rfl
      obtain ⟨earlier, frames, done, rfl⟩ := hcalls.exists_frame_of_ahead (List.cons_ne_nil _ _)
      have hrows := hcalls.flatten_eq
      simp only [List.flatten_append, List.flatten_singleton, ← List.append_assoc] at hrows
      have hdone := List.append_cancel_right hrows
      refine ⟨frames, done ++ ref :: ahead, ⟨earlier, [], [], rfl, ?_⟩, hcalls.sinceReset_eq rfl⟩
      rw [hcalls.written_eq, List.length_map, ← hdone]
      simp only [List.flatten_append, List.length_append, List.length_cons]
      omega
    · rw [List.concat_eq_append, ← List.cons_append, ← List.append_assoc] at hwrite
      obtain ⟨rfl, -⟩ := List.append_inj' hwrite rfl
      exact ih rfl

end InOrder

end Columnar
