import Columnar.Window.Partition
import Mathlib.Tactic.IntervalCases

/-!
# Partitions whose length is learnt late

A partition may be opened when only a part of its rows is known; the others are announced while it
is processed. This module is about the partition by itself, without an engine: its steps are to
start a frame, to leave a row behind and to learn of more rows, in any order that fits.

## Ranks

The row number, the rank and the dense rank that are read at a row do not depend on when rows are
announced (`readings_filter`): the counters behind them go by the frames that were opened and the
rows that were left behind, and not by the length. So they are those of a partition whose length is
known from the start, which are given in closed form (`readings_walk`).

The ratios do depend on the length, and **nothing is said about them here**. That they are read by
no step is what `counters` is for: partitions in the same state, whose ratios may be different bits
of the same number, stay alike whatever is done to them (`alike_of_sameState`).

## The end

The length matters for the end. As long as every frame fits the rows that are known when it is
opened, the rows that remain are those that are known and were not left behind (`Standing`); and as
long as rows remain until the last one is known, the end is reached with the last row and not before
(`shows_of_learns`). Both conditions are what an engine keeps to, which opens a frame only of rows
that it has counted.
-/

namespace Columnar

/-- What is done to a partition in progress. -/
inductive PartitionStep
  | newFrame (peers : Nat)
  | advance
  | extend (additional : Nat) (isFinal : Bool)
  deriving DecidableEq

namespace PartitionStep

/-- Whether a step only announces rows. -/
def isExtend : PartitionStep → Bool
  | extend _ _ => true
  | _ => false

/-- The rows that a step announces. -/
def additional : PartitionStep → Nat
  | extend additional _ => additional
  | _ => 0

/-- The number of rows that steps announce. -/
def announced (steps : List PartitionStep) : Nat := (steps.map additional).sum

/-- The number of rows that steps leave behind. -/
def processed (steps : List PartitionStep) : Nat := steps.count advance

/-- Process groups of peers, each as a frame. -/
def walk (groups : List Nat) : List PartitionStep :=
  groups.flatMap fun peers ↦ newFrame peers :: List.replicate peers advance

/-- Steps that process the groups of peers of a partition, of which `initial` rows are known at
first and the others are announced on the way. -/
structure Learns (groups : List Nat) (initial : Nat) (steps : List PartitionStep) : Prop where
  /-- But for what is announced, the groups are processed one after the other. -/
  filter_eq : steps.filter (!·.isExtend) = walk groups
  /-- In the end all rows are known. -/
  total_eq : initial + announced steps = groups.sum
  /-- A frame fits the rows that are known when it is opened. -/
  fits : ∀ n peers, steps[n]? = some (newFrame peers) →
    processed (steps.take n) + peers ≤ initial + announced (steps.take n)
  /-- Rows remain until the last one is known. -/
  remains : ∀ n ≤ steps.length, initial + announced (steps.take n) < groups.sum →
    processed (steps.take n) < initial + announced (steps.take n)

end PartitionStep

/-- The ranks that are read at a row. -/
structure RowRanks where
  rowNumber : Nat
  rank : Nat
  denseRank : Nat
  deriving DecidableEq

namespace RowRanks

/-- The ranks of the rows of groups of peers, behind `first` rows in `number` groups. -/
def ofGroups (first number : Nat) : List Nat → List RowRanks
  | [] => []
  | peers :: groups =>
    (List.range peers).map (fun i ↦ ⟨first + 1 + i, first + 1, number + 1⟩) ++
      ofGroups (first + peers) (number + 1) groups

theorem length_ofGroups (first number : Nat) (groups : List Nat) :
    (ofGroups first number groups).length = groups.sum := by
  induction groups generalizing first number with
  | nil => rfl
  | cons peers groups ih =>
    rw [ofGroups, List.length_append, List.length_map, List.length_range, ih, List.sum_cons]

/-- The ranks of a row by the groups before its own. -/
theorem getElem?_ofGroups (first number : Nat) (before : List Nat) {peers i : Nat}
    (after : List Nat) (hi : i < peers) :
    (ofGroups first number (before ++ peers :: after))[before.sum + i]? =
      some ⟨first + before.sum + i + 1, first + before.sum + 1, number + before.length + 1⟩ := by
  induction before generalizing first number with
  | nil =>
    have hlt : i < ((List.range peers).map fun i ↦
        (⟨first + 1 + i, first + 1, number + 1⟩ : RowRanks)).length := by simpa using hi
    rw [List.nil_append, ofGroups, List.sum_nil, Nat.zero_add, List.getElem?_append_left hlt,
      List.getElem?_map, List.getElem?_range hi, Option.map_some, Nat.add_right_comm]
    rfl
  | cons head before ih =>
    have hskip (row : Nat) :
        (ofGroups first number (head :: before ++ peers :: after))[head + row]? =
          (ofGroups (first + head) (number + 1) (before ++ peers :: after))[row]? := by
      rw [List.cons_append, ofGroups, List.getElem?_append_right (by simp), List.length_map,
        List.length_range, Nat.add_sub_cancel_left]
    rw [List.sum_cons, Nat.add_assoc, hskip, ih, List.length_cons]
    simp only [Nat.add_assoc, Nat.add_comm 1]

end RowRanks

namespace Partition

open PartitionStep

/-- Do a step. -/
def step (p : Partition) : PartitionStep → Partition
  | .newFrame peers => p.newFrame peers
  | .advance => p.advance
  | .extend additional isFinal => p.extend additional isFinal

/-- Do steps one after the other. -/
def run (p : Partition) (steps : List PartitionStep) : Partition := steps.foldl step p

/-- The ranks of the current row. -/
def ranks (p : Partition) : RowRanks := ⟨p.rowNumber, p.rank, p.denseRank⟩

/-- The ranks that are read before each row is left behind. -/
def readings (p : Partition) : List PartitionStep → List RowRanks
  | [] => []
  | .newFrame peers :: steps => (p.newFrame peers).readings steps
  | .advance :: steps => p.ranks :: p.advance.readings steps
  | .extend additional isFinal :: steps => (p.extend additional isFinal).readings steps

variable {p q : Partition} {groups : List Nat} {steps before after : List PartitionStep}
  {initial first number n : Nat}

/-! ### Ranks -/

/-- What is announced does not show in the ranks, and no more of a partition than its ranks does. -/
theorem readings_filter (h : p.ranks = q.ranks) (steps : List PartitionStep) :
    p.readings steps = q.readings (steps.filter (!·.isExtend)) := by
  obtain ⟨hrowNumber, hrank, hdenseRank⟩ := RowRanks.mk.inj h
  induction steps generalizing p q with
  | nil => rfl
  | cons step steps ih =>
    cases step with
    | newFrame peers =>
      have hranks : (p.newFrame peers).ranks = (q.newFrame peers).ranks := by
        simp only [ranks, newFrame, hrowNumber, hdenseRank]
      exact ih hranks hrowNumber hrowNumber (congrArg (· + 1) hdenseRank)
    | advance =>
      have hranks : p.advance.ranks = q.advance.ranks := by
        simp only [ranks, advance, hrowNumber, hrank, hdenseRank]
      exact congrArg₂ List.cons h
        (ih hranks (congrArg (· + 1) hrowNumber) hrank hdenseRank)
    | extend additional isFinal => exact ih h hrowNumber hrank hdenseRank

/-- The rows of a frame have consecutive numbers and share the ranks of the frame. -/
theorem readings_replicate (peers : Nat) (p : Partition) (steps : List PartitionStep) :
    p.readings (List.replicate peers .advance ++ steps) =
      (List.range peers).map (fun i ↦ ⟨p.rowNumber + i, p.rank, p.denseRank⟩) ++
        (p.run (List.replicate peers .advance)).readings steps := by
  induction peers generalizing p with
  | zero => rfl
  | succ peers ih =>
    rw [List.replicate_succ, List.cons_append, readings, ih, List.range_succ_eq_map,
      List.map_cons, List.map_map, List.cons_append]
    have hnext : (fun i ↦ (⟨p.advance.rowNumber + i, p.advance.rank, p.advance.denseRank⟩ :
        RowRanks)) = (fun i ↦ ⟨p.rowNumber + i, p.rank, p.denseRank⟩) ∘ Nat.succ := by
      funext i
      show (⟨p.rowNumber + 1 + i, p.rank, p.denseRank⟩ : RowRanks) =
        ⟨p.rowNumber + (i + 1), p.rank, p.denseRank⟩
      rw [Nat.add_right_comm, Nat.add_assoc]
    rw [hnext]
    rfl

/-- Leaving rows behind counts them, and nothing else. -/
theorem ranks_run_replicate (peers : Nat) (p : Partition) :
    (p.run (List.replicate peers .advance)).ranks =
      ⟨p.rowNumber + peers, p.rank, p.denseRank⟩ := by
  induction peers generalizing p with
  | zero => rfl
  | succ peers ih =>
    rw [List.replicate_succ]
    refine (ih p.advance).trans ?_
    show (⟨p.rowNumber + 1 + peers, p.rank, p.denseRank⟩ : RowRanks) = _
    rw [Nat.add_right_comm]
    rfl

/-- The ranks of groups that are processed one after the other. -/
theorem readings_walk (groups : List Nat) (hrowNumber : p.rowNumber = first + 1)
    (hdenseRank : p.denseRank = number) :
    p.readings (walk groups) = RowRanks.ofGroups first number groups := by
  induction groups generalizing p first number with
  | nil => rfl
  | cons peers groups ih =>
    have hwalk : walk (peers :: groups) =
        .newFrame peers :: (List.replicate peers .advance ++ walk groups) := rfl
    have hranks := RowRanks.mk.inj (ranks_run_replicate peers (p.newFrame peers))
    have hrest : ((p.newFrame peers).run (List.replicate peers .advance)).readings (walk groups) =
        RowRanks.ofGroups (first + peers) (number + 1) groups := by
      refine ih (hranks.1.trans ?_) (hranks.2.2.trans (congrArg (· + 1) hdenseRank))
      show p.rowNumber + peers = first + peers + 1
      omega
    have hframe : (p.newFrame peers).ranks = ⟨first + 1, first + 1, number + 1⟩ := by
      rw [ranks, newFrame, hrowNumber, hdenseRank]
    obtain ⟨hrow, hrank, hdense⟩ := RowRanks.mk.inj hframe
    rw [hwalk, readings, readings_replicate, hrest, hrow, hrank, hdense, RowRanks.ofGroups]

/-! ### Partitions in the same state -/

/-- A partition without its ratios. -/
def counters (p : Partition) : Partition := { p with percentRank := .zero, cumeDist := .zero }

/-- No step reads the ratios. -/
theorem counters_step (p : Partition) (step : PartitionStep) :
    (p.step step).counters = (p.counters.step step).counters := by
  cases step <;> rfl

theorem counters_run (h : p.counters = q.counters) (steps : List PartitionStep) :
    (p.run steps).counters = (q.run steps).counters := by
  induction steps generalizing p q with
  | nil => exact h
  | cons step steps ih =>
    refine ih ?_
    rw [counters_step p, h, ← counters_step q]

theorem counters_eq_of_sameState (h : p.sameState q = true) : p.counters = q.counters := by
  simp only [sameState, Bool.and_eq_true, beq_iff_eq] at h
  obtain ⟨⟨⟨⟨⟨⟨⟨⟨hlength, hremaining⟩, hpeers⟩, hfinal⟩, hrowNumber⟩, hrank⟩, hdenseRank⟩,
    -⟩, -⟩ := h
  rw [counters, counters, hlength, hremaining, hpeers, hfinal, hrowNumber, hrank, hdenseRank]

/-- Partitions that are found in the same state stay alike, whatever is done to them: they have the
same counters after it, and the same ranks are read on the way. -/
theorem alike_of_sameState (h : p.sameState q = true) (steps : List PartitionStep) :
    (p.run steps).counters = (q.run steps).counters ∧ p.readings steps = q.readings steps := by
  have hcounters := counters_eq_of_sameState h
  have hranks : p.ranks = q.ranks := by
    show p.counters.ranks = q.counters.ranks
    rw [hcounters]
  exact ⟨counters_run hcounters steps,
    (readings_filter hranks steps).trans (readings_filter rfl steps).symm⟩

/-! ### Rows that remain -/

/-- A partition after some steps and before others: of its frame as many rows are left as the steps
to come leave behind next, and the known rows that were not left behind remain. -/
structure Standing (initial : Nat) (before after : List PartitionStep) (p : Partition) : Prop where
  ahead : ∃ rest, after.filter (!·.isExtend) = List.replicate p.peers .advance ++ walk rest
  length_eq : p.length = initial + announced before
  remaining_add : p.remaining + processed before = p.length
  peers_le : p.peers ≤ p.remaining

theorem announced_concat (steps : List PartitionStep) (step : PartitionStep) :
    announced (steps ++ [step]) = announced steps + step.additional := by
  simp [announced]

theorem processed_concat (steps : List PartitionStep) (step : PartitionStep) :
    processed (steps ++ [step]) = processed steps + if step == .advance then 1 else 0 := by
  rw [processed, List.count_append, List.count_singleton]
  rfl

/-- A step keeps count of the rows, if it opens no frame beyond them. -/
theorem Standing.step {next : PartitionStep} (h : Standing initial before (next :: after) p)
    (hfits : ∀ peers, next = .newFrame peers →
      processed before + peers ≤ initial + announced before) :
    Standing initial (before ++ [next]) after (p.step next) := by
  obtain ⟨⟨rest, hahead⟩, hlength, hremaining, hpeers⟩ := h
  cases next with
  | newFrame peers =>
    have hfit := hfits peers rfl
    -- no row of an earlier frame is left, so the frame is that of the next group
    have hdone : p.peers = 0 := by
      by_contra hne
      obtain ⟨left, hleft⟩ := Nat.exists_eq_succ_of_ne_zero hne
      rw [hleft] at hahead
      cases hahead
    rw [hdone] at hahead
    rcases rest with _ | ⟨group, rest⟩
    · cases hahead
    · obtain ⟨hgroup, hrest⟩ := List.cons.inj hahead
      obtain rfl := PartitionStep.newFrame.inj hgroup
      refine ⟨⟨rest, hrest⟩, ?_, ?_, ?_⟩
      · rw [announced_concat]
        exact hlength
      · rw [processed_concat]
        exact hremaining
      · show peers ≤ p.remaining
        omega
  | advance =>
    -- the row is one of the frame, since a group that comes next would open a frame first
    obtain ⟨left, hleft⟩ : ∃ left, p.peers = left + 1 := by
      refine Nat.exists_eq_succ_of_ne_zero fun hdone ↦ ?_
      rw [hdone] at hahead
      rcases rest with _ | ⟨group, rest⟩
      · cases hahead
      · cases hahead
    rw [hleft] at hahead
    refine ⟨⟨rest, ?_⟩, ?_, ?_, ?_⟩
    · show _ = List.replicate (p.peers - 1) _ ++ _
      rw [hleft]
      exact (List.cons.inj hahead).2
    · rw [announced_concat]
      exact hlength
    · rw [processed_concat]
      show p.remaining - 1 + (processed before + 1) = p.length
      omega
    · show p.peers - 1 ≤ p.remaining - 1
      omega
  | extend additional isFinal =>
    refine ⟨⟨rest, hahead⟩, ?_, ?_, ?_⟩
    · rw [announced_concat]
      show p.length + additional = initial + (announced before + additional)
      omega
    · rw [processed_concat]
      show p.remaining + additional + processed before = p.length + additional
      omega
    · show p.peers ≤ p.remaining + additional
      omega

/-- All steps keep count of the rows. -/
theorem standing_of_learns (h : Learns groups initial steps) (isFinal : Bool)
    (hn : n ≤ steps.length) :
    Standing initial (steps.take n) (steps.drop n)
      ((start initial isFinal).run (steps.take n)) := by
  induction n with
  | zero => exact ⟨⟨groups, h.filter_eq⟩, rfl, rfl, Nat.zero_le _⟩
  | succ n ih =>
    have hget : steps[n]? = some steps[n] := List.getElem?_eq_getElem hn
    have hbefore : steps.take (n + 1) = steps.take n ++ [steps[n]] := by
      rw [List.take_add_one, hget]
      rfl
    have hstanding := ih (Nat.le_of_lt hn)
    rw [List.drop_eq_getElem_cons hn] at hstanding
    rw [hbefore, run, List.foldl_append]
    exact hstanding.step fun peers hpeers ↦ h.fits n peers (hget.trans (congrArg some hpeers))

/-- No more rows are announced by some of the steps than by all. -/
theorem announced_take_le (n : Nat) (steps : List PartitionStep) :
    announced (steps.take n) ≤ announced steps := by
  conv_rhs => rw [← List.take_append_drop n steps]
  rw [announced, announced, List.map_append, List.sum_append]
  exact Nat.le_add_right _ _

/-! ### Learning the length -/

/-- What a partition shows while its groups of peers are processed, however its length is learnt. -/
structure Shows (groups : List Nat) (p : Partition) (steps : List PartitionStep) : Prop where
  /-- The ranks are those of a partition whose length is known from the start. -/
  readings_eq : p.readings steps = (start groups.sum true).readings (walk groups)
  /-- They are read once for every row. -/
  length_readings : (p.readings steps).length = groups.sum
  /-- The rows are numbered, their rank is the number of the first row of their group, and their
  dense rank the number of the group. -/
  reading_eq : ∀ before peers after, groups = before ++ peers :: after → ∀ i < peers,
    (p.readings steps)[before.sum + i]? =
      some ⟨before.sum + i + 1, 1 + before.sum, before.length + 1⟩
  /-- A row is only left behind if there is one left, in the frame and in the partition. -/
  rows_left : ∀ n, steps[n]? = some .advance →
    0 < (p.run (steps.take n)).peers ∧ 0 < (p.run (steps.take n)).remaining
  /-- What is known and does not remain was processed. -/
  length_sub_remaining : ∀ n ≤ steps.length, (p.run (steps.take n)).remaining ≤
    (p.run (steps.take n)).length ∧
    (p.run (steps.take n)).length - (p.run (steps.take n)).remaining = processed (steps.take n)
  /-- The end is where the last row was processed, and nowhere before. -/
  isDone_iff : ∀ n ≤ steps.length,
    (p.run (steps.take n)).isDone = true ↔ processed (steps.take n) = groups.sum

/-- However the length of a partition is learnt, its ranks are those of a partition whose length is
known from the start, and it ends with its last row. -/
theorem shows_of_learns (h : Learns groups initial steps) (isFinal : Bool) :
    Shows groups (start initial isFinal) steps := by
  have hfull : (start initial isFinal).readings steps =
      (start groups.sum true).readings (walk groups) := by
    have hranks : (start initial isFinal).ranks = (start groups.sum true).ranks := rfl
    rw [← h.filter_eq, readings_filter hranks]
  have hclosed : (start initial isFinal).readings steps = RowRanks.ofGroups 0 0 groups :=
    hfull.trans (readings_walk groups rfl rfl)
  exact {
    readings_eq := hfull
    length_readings := by
      rw [hclosed, RowRanks.length_ofGroups]
    reading_eq := by
      rintro before peers after rfl i hi
      rw [hclosed, RowRanks.getElem?_ofGroups 0 0 before after hi]
      simp only [Nat.zero_add, Nat.add_comm 1]
    rows_left := by
      intro n hn
      obtain ⟨hlt, hget⟩ := List.getElem?_eq_some_iff.1 hn
      have hstanding := standing_of_learns h isFinal (Nat.le_of_lt hlt)
      obtain ⟨rest, hahead⟩ := hstanding.ahead
      have hpeers : 0 < ((start initial isFinal).run (steps.take n)).peers := by
        refine Nat.pos_of_ne_zero fun hdone ↦ ?_
        rw [hdone, List.drop_eq_getElem_cons hlt, hget] at hahead
        rcases rest with _ | ⟨group, rest⟩
        · cases hahead
        · cases hahead
      exact ⟨hpeers, Nat.lt_of_lt_of_le hpeers hstanding.peers_le⟩
    length_sub_remaining := by
      intro n hn
      have hadd := (standing_of_learns h isFinal hn).remaining_add
      omega
    isDone_iff := by
      intro n hn
      have hstanding := standing_of_learns h isFinal hn
      have hlength := hstanding.length_eq
      have hadd := hstanding.remaining_add
      have hknown : initial + announced (steps.take n) ≤ groups.sum :=
        h.total_eq ▸ Nat.add_le_add_left (announced_take_le n steps) initial
      have hremains := h.remains n hn
      rw [isDone, beq_iff_eq]
      constructor
      · intro hdone
        -- if a row were not known yet, one would remain
        by_contra hne
        have := hremains (by omega)
        omega
      · intro hprocessed
        omega }

/-- Three groups of peers, of which two rows are known at first and the others are announced within
and between the frames. -/
def pieces : List PartitionStep :=
  [.newFrame 2, .advance, .extend 1 false, .advance, .extend 2 false, .newFrame 3, .advance,
    .advance, .extend 1 true, .advance, .newFrame 1, .advance, .extend 0 true]

theorem shows_of_learns_pieces : Learns [2, 3, 1] 2 pieces ∧
    (start 2 false).readings pieces =
      [⟨1, 1, 1⟩, ⟨2, 1, 1⟩, ⟨3, 3, 2⟩, ⟨4, 3, 2⟩, ⟨5, 3, 2⟩, ⟨6, 6, 3⟩] ∧
    ((start 2 false).run (pieces.take 11)).isDone = false := by
  have hlearns : Learns [2, 3, 1] 2 pieces := by
    refine ⟨rfl, rfl, fun n peers hn ↦ ?_, by decide⟩
    have hlt : n < 13 := (List.getElem?_eq_some_iff.1 hn).1
    interval_cases n <;> cases hn <;> decide
  have hshows := shows_of_learns hlearns false
  refine ⟨hlearns, hshows.readings_eq, ?_⟩
  have hdone := hshows.isDone_iff 11 (by decide)
  rw [Bool.eq_false_iff, Ne, hdone]
  decide

end Partition

end Columnar
