import Columnar.Proofs.Window.Comparisons

/-!
# Counters of a partition

What the counters of a partition in progress say of the rows that wait, the first of which is the
next row of the partition: as many of them as remain are in the partition, and as many as are left
of the frame are peers (`Counted`). No order of the rows is assumed, so what is counted may well go
on elsewhere.

It holds of a partition that is opened (`Counted.start`), and goes through all that is done to one:
a frame is opened (`Counted.newFrame`), the row is left behind (`AtRow.advance`), more rows are
counted (`Unprocessed.extend`) or arrive uncounted (`Unprocessed.append`). Each of these is a
statement about numbers and lists of rows, without an engine.

The two extensions are the two states of a partition between calls and within one. `Unprocessed` is
before a row that is not its first, where the frame may be used up; `AtRow` is at a row whose frame
is aggregated, so that **at least one row is left of the frame and of the partition**. That no
counter is taken below zero comes from there.
-/

namespace Columnar.Partition

variable {σ ε : Type}

/-- The counters of a partition agree with each other and with the rows that wait. -/
structure Counted (ops : FrameOps σ ε) (isFinished : Bool) (refs : List (Block × Nat))
    (p : Partition) : Prop where
  remaining_pos : 1 ≤ p.remaining
  remaining_le : p.remaining ≤ refs.length
  peers_le : p.peers ≤ p.remaining
  rowNumber_add : p.rowNumber + p.remaining = p.length + 1
  denseRank_le : p.denseRank ≤ p.rank
  /-- The rows that remain are in one partition. -/
  samePartition : Together ops.samePartition (refs.take p.remaining)
  /-- The rows that are left of the frame are peers. -/
  arePeers : Together ops.peers (refs.take p.peers)
  /-- The row behind a partition that is known to its end is in another one. -/
  apart : p.isFinal = true → ∀ ref, refs[p.remaining]? = some ref →
    Apart ops.samePartition (refs.take p.remaining) ref
  /-- A partition is known to its end only if another row, or the end of the input, was seen. -/
  inSight : p.isFinal = true → p.remaining < refs.length ∨ isFinished = true

/-- A partition in progress, before a row that is not its first. -/
structure Unprocessed (ops : FrameOps σ ε) (isFinished : Bool) (refs : List (Block × Nat))
    (p : Partition) : Prop extends Counted ops isFinished refs p where
  denseRank_pos : 1 ≤ p.denseRank
  rank_lt : p.rank < p.rowNumber

/-- A partition at a row whose frame is aggregated. -/
structure AtRow (ops : FrameOps σ ε) (isFinished : Bool) (refs : List (Block × Nat))
    (p : Partition) : Prop extends Counted ops isFinished refs p where
  denseRank_pos : 1 ≤ p.denseRank
  rank_le : p.rank ≤ p.rowNumber
  peers_pos : 1 ≤ p.peers

variable {ops : FrameOps σ ε} {isFinished : Bool} {refs : List (Block × Nat)} {p : Partition}
  {count : Nat}

/-- A partition that is opened with the rows that were counted. -/
theorem Counted.start {isFinal : Bool} (hpos : 0 < count) (hle : count ≤ refs.length)
    (hsame : Together ops.samePartition (refs.take count))
    (hapart : ∀ ref, refs[count]? = some ref → Apart ops.samePartition (refs.take count) ref)
    (hfinal : isFinal = true → count < refs.length ∨ isFinished = true) :
    Counted ops isFinished refs (start count isFinal) where
  remaining_pos := hpos
  remaining_le := hle
  peers_le := Nat.zero_le _
  rowNumber_add := Nat.add_comm 1 count
  denseRank_le := Nat.le_refl _
  samePartition := hsame
  arePeers := nofun
  apart _ := hapart
  inSight := hfinal

/-- A frame of the rows that were counted. -/
theorem Counted.newFrame (h : Counted ops isFinished refs p) (hrank : p.rank < p.rowNumber)
    (hpos : 0 < count) (hle : count ≤ p.remaining) (hpeers : Together ops.peers (refs.take count)) :
    AtRow ops isFinished refs (p.newFrame count) where
  remaining_pos := h.remaining_pos
  remaining_le := h.remaining_le
  peers_le := hle
  rowNumber_add := h.rowNumber_add
  denseRank_le := Nat.lt_of_le_of_lt h.denseRank_le hrank
  samePartition := h.samePartition
  arePeers := hpeers
  apart := h.apart
  inSight := h.inSight
  denseRank_pos := Nat.succ_pos _
  rank_le := Nat.le_refl _
  peers_pos := hpos

/-- In the middle of a frame the partition is at its row already. -/
theorem Unprocessed.atRow (h : Unprocessed ops isFinished refs p) (hpeers : 0 < p.peers) :
    AtRow ops isFinished refs p :=
  ⟨h.toCounted, h.denseRank_pos, Nat.le_of_lt h.rank_lt, hpeers⟩

/-- The row is left behind. -/
theorem AtRow.advance {ref : Block × Nat} (h : AtRow ops isFinished (ref :: refs) p)
    (hrest : p.advance.isDone = false) : Unprocessed ops isFinished refs p.advance := by
  have hremaining : p.advance.remaining ≠ 0 := ne_of_beq_false hrest
  have hpos := h.remaining_pos
  have hpeers := h.peers_pos
  have hsucc : p.remaining = p.advance.remaining + 1 := (Nat.sub_add_cancel hpos).symm
  have hsucc' : p.peers = p.advance.peers + 1 := (Nat.sub_add_cancel hpeers).symm
  have htail {taken : Nat} : ∀ b ∈ refs.take taken, b ∈ (ref :: refs).take (taken + 1) :=
    fun b hb ↦ List.mem_cons_of_mem ref hb
  have hle := h.remaining_le
  have hpeersLe := h.peers_le
  rw [List.length_cons] at hle
  refine ⟨⟨Nat.pos_of_ne_zero hremaining, by omega, by omega, ?_, h.denseRank_le,
    h.samePartition.mono (hsucc ▸ htail), h.arePeers.mono (hsucc' ▸ htail), fun hfinal b hb ↦ ?_,
    fun hfinal ↦ ?_⟩, h.denseRank_pos, Nat.lt_succ_of_le h.rank_le⟩
  · have hadd := h.rowNumber_add
    show p.rowNumber + 1 + (p.remaining - 1) = p.length + 1
    omega
  · have hapart := h.apart hfinal b (by rwa [hsucc, List.getElem?_cons_succ])
    exact fun c hc ↦ hapart c (hsucc ▸ htail c hc)
  · refine (h.inSight hfinal).imp_left fun hseen ↦ ?_
    rw [List.length_cons] at hseen
    omega

/-- Rows of the partition that arrived since are added to those that were counted. -/
theorem Unprocessed.extend (h : Unprocessed ops isFinished refs p) {isFinal : Bool}
    (hle : p.remaining + count ≤ refs.length)
    (hsame : Together ops.samePartition (refs.take (p.remaining + count)))
    (hapart : ∀ ref, refs[p.remaining + count]? = some ref →
      Apart ops.samePartition (refs.take (p.remaining + count)) ref)
    (hfinal : isFinal = true → p.remaining + count < refs.length ∨ isFinished = true) :
    Unprocessed ops isFinished refs (p.extend count isFinal) where
  remaining_pos := Nat.le_add_right_of_le h.remaining_pos
  remaining_le := hle
  peers_le := Nat.le_add_right_of_le h.peers_le
  rowNumber_add := by
    have hadd := h.rowNumber_add
    show p.rowNumber + (p.remaining + count) = p.length + count + 1
    omega
  denseRank_le := h.denseRank_le
  samePartition := hsame
  arePeers := h.arePeers
  apart _ := hapart
  inSight := hfinal
  denseRank_pos := h.denseRank_pos
  rank_lt := h.rank_lt

/-- Rows that arrive are not counted yet. -/
theorem Unprocessed.append (h : Unprocessed ops false refs p) (more : List (Block × Nat)) :
    Unprocessed ops false (refs ++ more) p := by
  have htake {taken : Nat} (hle : taken ≤ p.remaining) :
      (refs ++ more).take taken = refs.take taken :=
    List.take_append_of_le_length (Nat.le_trans hle h.remaining_le)
  have hseen (hfinal : p.isFinal = true) : p.remaining < refs.length :=
    (h.inSight hfinal).resolve_right Bool.false_ne_true
  refine { h with
    remaining_le := ?_
    samePartition := ?_
    arePeers := ?_
    apart := fun hfinal ref href ↦ ?_
    inSight := fun hfinal ↦ .inl ?_ }
  · exact List.length_append ▸ Nat.le_add_right_of_le h.remaining_le
  · rw [htake (Nat.le_refl _)]
    exact h.samePartition
  · rw [htake h.peers_le]
    exact h.arePeers
  · rw [List.getElem?_append_left (hseen hfinal)] at href
    rw [htake (Nat.le_refl _)]
    exact h.apart hfinal ref href
  · exact List.length_append ▸ Nat.lt_add_right _ (hseen hfinal)

/-- At the end of the input nothing changes for a partition. -/
theorem Unprocessed.finish (h : Unprocessed ops isFinished refs p) :
    Unprocessed ops true refs p :=
  { h with inSight := fun _ ↦ .inr rfl }

end Columnar.Partition
