import Columnar.Proofs.Window.Places

/-!
# Partitions in progress

What the partition of an engine says about the stream, between two rows (`Between`) and at a row
whose frame is aggregated (`Within`). These are the two states that an engine goes through from row
to row, and everything else here is how one leads to the other.

## The parts

* `Tracks`: where the partition starts, and what is known of its length. The length of the partition
  may be known in part only; where a ranking needs it, the partition is only opened when it is known
  to its end.
* `FrameAt`: where the current frame starts, and the ranks that its rows share.
* `Tallied`: what is tallied up to the end of the frame.

## The steps

Counting on (`Between.extend`), opening a partition (`Tracks.start`), opening a frame
(`Within.newFrame`) and going on to the next row (`Within.advance`). None of them mentions an
engine.

What an engine must not do is to open a frame whose end it can not see: the frame would end in the
middle of some peers, and the next one would start there with another rank. **`Settled` is what is
asked of the rows in sight**, in terms of the stream alone, and the steps that open something have
it as their condition.
-/

namespace Columnar.ColumnFrames

variable (f : ColumnFrames) (rows : List Row) (whole : Bool)

/-- A partition that starts in `first`, as far as it is known, at a position. -/
structure Tracks (first position : Nat) (p : Partition) : Prop where
  cut_first : Cut (f.partitionKey rows) rows.length first
  first_le : first ≤ position
  lt_known : position < first + p.length
  known_le : first + p.length ≤ rows.length
  remaining_eq : position + p.remaining = first + p.length
  same : ∀ i, first ≤ i → i < first + p.length → f.partitionKey rows i = f.partitionKey rows first
  cut_of_isFinal : p.isFinal = true → Cut (f.partitionKey rows) rows.length (first + p.length)
  cut_of_whole : whole = true → Cut (f.partitionKey rows) rows.length (first + p.length)
  rowNumber_eq : p.rowNumber = position - first + 1

/-- The frame that starts in `peer`, of which `p.peers` rows are left. -/
structure FrameAt (first peer position : Nat) (p : Partition) : Prop where
  first_le_peer : first ≤ peer
  peer_le : peer ≤ position
  cut_peer : Cut (f.peerKey rows) rows.length peer
  same_peers : ∀ i, peer ≤ i → i < position + p.peers → f.peerKey rows i = f.peerKey rows peer
  rank_eq : p.rank = peer - first + 1
  percentRank_eq : whole = true → p.percentRank =
    if p.length = 1 then .zero else .ratio (peer - first) (p.length - 1)
  cumeDist_eq : whole = true → p.cumeDist = .ratio (position + p.peers - first) p.length

/-- What is tallied up to the end of a frame, and where that is. -/
structure Tallied (first position : Nat) (p : Partition) (aggregation : List Tally) : Prop where
  peers_le : p.peers ≤ p.remaining
  cut_frame : Cut (f.peerKey rows) rows.length (position + p.peers)
  tally_eq : f.tally rows first (position + p.peers) = .ok aggregation

/-- A partition in progress, before a position that is not its first. -/
structure Between (first position : Nat) (p : Partition) (aggregation : List Tally) : Prop
    extends Tracks f rows whole first position p, Tallied f rows first position p aggregation where
  started : first < position
  denseRank_eq : p.denseRank = groupsFrom (f.peerKey rows) first position
  frame : 0 < p.peers → ∃ peer < position, FrameAt f rows whole first peer position p

/-- A partition in progress, at a position whose frame is aggregated. -/
structure Within (first peer position : Nat) (p : Partition) (aggregation : List Tally) : Prop
    extends Tracks f rows whole first position p, Tallied f rows first position p aggregation,
      FrameAt f rows whole first peer position p where
  peers_pos : 0 < p.peers
  denseRank_eq : p.denseRank = groupsFrom (f.peerKey rows) first (position + 1)

/-- The partition is known as far as the rows before `seen` go. -/
def Caught (seen first : Nat) (p : Partition) : Prop :=
  first + p.length ≤ seen ∧
    (first + p.length = seen ∨ Cut (f.partitionKey rows) rows.length (first + p.length))

/-- With the rows before `seen` in sight, every frame that starts before `stop` is seen to end, and
every partition where a ranking needs it. -/
structure Settled (stop seen : Nat) : Prop where
  ahead : stop < seen ∨ seen = rows.length
  peers : ∀ i k, i < stop → seen ≤ k → k < rows.length → f.peerKey rows k ≠ f.peerKey rows i
  partitions : whole = true → ∀ i k, i < stop → seen ≤ k → k < rows.length →
    f.partitionKey rows k ≠ f.partitionKey rows i

variable {f rows whole} {types : List DataType} {first peer position stop seen : Nat}
  {p : Partition} {aggregation : List Tally}

/-! ### Going on to the next row -/

/-- A row before its frame's end is in the middle of it. -/
theorem Between.within (h : Between f rows whole first position p aggregation)
    (hpeers : 0 < p.peers) : ∃ peer, Within f rows whole first peer position p aggregation := by
  obtain ⟨peer, hpeer, hframe⟩ := h.frame hpeers
  refine ⟨peer, h.toTracks, h.toTallied, hframe, hpeers, ?_⟩
  have hkey := hframe.same_peers position hframe.peer_le (by omega)
  rw [groupsFrom_succ h.first_le, isFirst_eq_false hpeer hkey.symm]
  exact h.denseRank_eq

/-- After a row comes the next row of its partition, if the partition is known to have one. -/
theorem Within.advance (h : Within f rows whole first peer position p aggregation)
    (hrest : position + 1 < first + p.length) :
    Between f rows whole first (position + 1) p.advance aggregation := by
  have hpeers := h.peers_pos
  have hremaining := h.remaining_eq
  have hle := h.peers_le
  have hend : position + 1 + (p.peers - 1) = position + p.peers := by omega
  refine ⟨⟨h.cut_first, Nat.le_succ_of_le h.first_le, hrest, h.known_le, ?_, h.same,
    h.cut_of_isFinal, h.cut_of_whole, ?_⟩, ⟨Nat.sub_le_sub_right hle 1, ?_, ?_⟩,
    Nat.lt_succ_of_le h.first_le, h.denseRank_eq, fun _ ↦ ⟨peer, Nat.lt_succ_of_le h.peer_le,
    ⟨h.first_le_peer, Nat.le_succ_of_le h.peer_le, h.cut_peer, ?_, h.rank_eq, h.percentRank_eq,
    fun hwhole ↦ ?_⟩⟩⟩
  · show position + 1 + (p.remaining - 1) = first + p.length
    omega
  · show p.rowNumber + 1 = position + 1 - first + 1
    rw [h.rowNumber_eq, Nat.succ_sub h.first_le]
  · show Cut _ _ (position + 1 + (p.peers - 1))
    exact hend ▸ h.cut_frame
  · show f.tally rows first (position + 1 + (p.peers - 1)) = _
    exact hend ▸ h.tally_eq
  · show ∀ i, peer ≤ i → i < position + 1 + (p.peers - 1) → _
    exact hend ▸ h.same_peers
  · show p.cumeDist = .ratio (position + 1 + (p.peers - 1) - first) p.length
    rw [hend]
    exact h.cumeDist_eq hwhole

/-- A partition that is done ends there. -/
theorem cut_of_done (hcaught : Caught f rows seen first p)
    (hsettled : Settled f rows whole stop seen) (hstop : position < stop)
    (hdone : position + 1 = first + p.length) :
    Cut (f.partitionKey rows) rows.length (position + 1) := by
  obtain ⟨-, hseen | hcut⟩ := hcaught
  · -- the rows in sight end here only if the stream does
    rcases hsettled.ahead with hahead | hend
    · omega
    · rw [hdone, hseen, hend]
      exact cut_length _ _
  · rwa [hdone]

/-! ### The place of a row -/

/-- At a row whose frame is aggregated the partition knows the place of the row, the length of the
partition only if that was asked for. -/
theorem Within.exists_place (h : Within f rows whole first peer position p aggregation)
    (hsorted : f.Sorted rows) : ∃ place, f.IsPlace rows position place ∧
      f.tally rows place.first (place.peer + place.peers) = .ok aggregation ∧
      ∀ ranking : Ranking, (ranking.needsWholePartition = true → whole = true) →
        ranking.value p = place.value ranking := by
  have hlt : position < rows.length := Nat.lt_of_lt_of_le h.lt_known h.known_le
  have hend : position + p.peers ≤ first + p.length := by
    have := h.peers_le
    have := h.remaining_eq
    omega
  have hpeers := h.peers_pos
  have hpeer := h.peer_le
  have hkey := h.same_peers position h.peer_le (by omega)
  -- the frame is between two cuts, so it is all of the peers of the row
  have hgroup := groupAt_of_cut h.cut_peer h.cut_frame h.peer_le (by omega)
    (Nat.le_trans hend h.known_le) fun i hi hi' ↦ (h.same_peers i hi hi').trans hkey.symm
  obtain ⟨first', size, hpartition⟩ := hsorted.partitions.exists_groupAt hlt
  obtain rfl : first' = first := hpartition.first_eq_of_cut hlt h.cut_first h.first_le
    (h.same position h.first_le h.lt_known).symm
  -- where the partition is known to its end its length is the one in the whole stream
  have hsize (hwhole : whole = true) : size = p.length := by
    have hlength := groupAt_of_cut h.cut_first (h.cut_of_whole hwhole) h.first_le h.lt_known
      h.known_le fun i hi hi' ↦ (h.same i hi hi').trans (h.same position h.first_le h.lt_known).symm
    obtain ⟨-, heq⟩ := hlength.unique hlt hpartition
    omega
  refine ⟨⟨position, first', size, peer, position + p.peers - peer,
    groupsFrom (f.peerKey rows) first' (peer + 1)⟩, ⟨rfl, hpartition, hgroup, rfl⟩, ?_, ?_⟩
  · show f.tally rows first' (peer + (position + p.peers - peer)) = _
    rw [show peer + (position + p.peers - peer) = position + p.peers by omega]
    exact h.tally_eq
  · intro ranking hranking
    cases ranking with
    | rowNumber => rw [Ranking.value, h.rowNumber_eq]; rfl
    | rank => rw [Ranking.value, h.rank_eq]; rfl
    | denseRank =>
      rw [Ranking.value, h.denseRank_eq]
      -- behind its first row no group starts within the frame
      rw [groupsFrom_eq_of_not_isFirst (Nat.le_succ_of_le h.first_le_peer)
        (Nat.succ_le_succ h.peer_le) fun i hi hi' ↦
          isFirst_eq_false hi (h.same_peers i (Nat.le_of_succ_le hi) (by omega)).symm]
      rfl
    | percentRank =>
      have hwhole := hranking rfl
      rw [Ranking.value, h.percentRank_eq hwhole, ← hsize hwhole]
      rfl
    | cumeDist =>
      have hwhole := hranking rfl
      have hfirst := h.first_le_peer
      rw [Ranking.value, h.cumeDist_eq hwhole, ← hsize hwhole, Place.value,
        show peer - first' + (position + p.peers - peer) = position + p.peers - first' by omega]

/-! ### Counting on, and opening -/

/-- Rows that were counted and belong to the partition may be added to what is known of it. -/
theorem Between.extend (h : Between f rows whole first position p aggregation)
    (hsorted : f.Sorted rows) {additional : Nat} {isFinal : Bool}
    (hseen : first + p.length + additional ≤ seen) (hlength : seen ≤ rows.length)
    (hsame : ∀ i, first + p.length ≤ i → i < first + p.length + additional →
      f.partitionKey rows i = f.partitionKey rows position)
    (hend : first + p.length + additional < seen →
      f.partitionKey rows (first + p.length + additional) ≠ f.partitionKey rows position)
    (hfinal : isFinal = true → first + p.length + additional < seen ∨ seen = rows.length) :
    Between f rows whole first position (p.extend additional isFinal) aggregation ∧
      Caught f rows seen first (p.extend additional isFinal) := by
  have hposition := h.same position h.first_le h.lt_known
  have hlt := h.lt_known
  have hfirst := h.first_le
  have hsame' (i : Nat) (hi : first ≤ i) (hi' : i < first + p.length + additional) :
      f.partitionKey rows i = f.partitionKey rows first := by
    rcases Nat.lt_or_ge i (first + p.length) with hin | hout
    · exact h.same i hi hin
    · exact (hsame i hout hi').trans hposition
  have hcut (hlast : first + p.length + additional < seen) :
      Cut (f.partitionKey rows) rows.length (first + p.length + additional) :=
    hsorted.partitions.cut_end h.cut_first (by omega) hsame' fun _ ↦ hposition ▸ hend hlast
  -- a partition known to its end has no more rows to be counted
  have hnone (hwhole : whole = true) : additional = 0 := by
    rcases Nat.eq_zero_or_pos additional with hzero | hpos
    · exact hzero
    · exact absurd (hsame _ (Nat.le_refl _) (by omega)).symm
        (h.cut_of_whole hwhole position _ hlt (Nat.le_refl _) (by omega))
  have hassoc : first + (p.length + additional) = first + p.length + additional := by omega
  refine ⟨⟨⟨h.cut_first, h.first_le, ?_, ?_, ?_, ?_, fun hisFinal ↦ ?_, fun hwhole ↦ ?_,
    h.rowNumber_eq⟩, ⟨Nat.le_trans h.peers_le (Nat.le_add_right _ _), h.cut_frame, h.tally_eq⟩,
    h.started, h.denseRank_eq, fun hpeers ↦ ?_⟩, ?_, ?_⟩
  · show position < first + (p.length + additional)
    omega
  · show first + (p.length + additional) ≤ rows.length
    omega
  · show position + (p.remaining + additional) = first + (p.length + additional)
    have := h.remaining_eq
    omega
  · show ∀ i, first ≤ i → i < first + (p.length + additional) → _
    exact hassoc ▸ hsame'
  · show Cut _ _ (first + (p.length + additional))
    exact hassoc ▸ cut_of_seen hseen hcut (hfinal hisFinal)
  · show Cut _ _ (first + (p.length + additional))
    rw [hnone hwhole, Nat.add_zero]
    exact h.cut_of_whole hwhole
  · obtain ⟨peer, hpeer, hframe⟩ := h.frame hpeers
    refine ⟨peer, hpeer, hframe.first_le_peer, hframe.peer_le, hframe.cut_peer, hframe.same_peers,
      hframe.rank_eq, fun hwhole ↦ ?_, fun hwhole ↦ ?_⟩
    · show p.percentRank =
        if p.length + additional = 1 then _ else .ratio _ (p.length + additional - 1)
      rw [hnone hwhole]
      exact hframe.percentRank_eq hwhole
    · show p.cumeDist = .ratio _ (p.length + additional)
      rw [hnone hwhole]
      exact hframe.cumeDist_eq hwhole
  · show first + (p.length + additional) ≤ seen
    omega
  · show first + (p.length + additional) = seen ∨ Cut _ _ (first + (p.length + additional))
    exact hassoc ▸ eq_or_cut_of_seen hseen hcut

/-- A partition that is opened at a cut and counted in the rows in sight. -/
theorem Tracks.start (hsorted : f.Sorted rows) (hsettled : Settled f rows whole stop seen)
    (hcut : Cut (f.partitionKey rows) rows.length position) (hstop : position < stop)
    {length : Nat} {isFinal : Bool} (hpos : 0 < length) (hseen : position + length ≤ seen)
    (hlength : seen ≤ rows.length)
    (hsame : ∀ i, position ≤ i → i < position + length →
      f.partitionKey rows i = f.partitionKey rows position)
    (hend : position + length < seen →
      f.partitionKey rows (position + length) ≠ f.partitionKey rows position)
    (hfinal : isFinal = true → position + length < seen ∨ seen = rows.length) :
    Tracks f rows whole position position (.start length isFinal) ∧
      Caught f rows seen position (.start length isFinal) := by
  have hcutEnd (hnext : position + length < rows.length →
      f.partitionKey rows (position + length) ≠ f.partitionKey rows position) :
      Cut (f.partitionKey rows) rows.length (position + length) :=
    hsorted.partitions.cut_end hcut (Nat.lt_add_of_pos_right hpos) hsame hnext
  have hcutEnd' (hlast : position + length < seen) := hcutEnd fun _ ↦ hend hlast
  refine ⟨⟨hcut, Nat.le_refl _, Nat.lt_add_of_pos_right hpos, Nat.le_trans hseen hlength, rfl,
    hsame, fun hisFinal ↦ ?_, fun hwhole ↦ ?_, ?_⟩, hseen, ?_⟩
  · show Cut _ _ (position + length)
    exact cut_of_seen hseen hcutEnd' (hfinal hisFinal)
  · show Cut _ _ (position + length)
    rcases Nat.lt_or_eq_of_le hseen with hlast | hlast
    · exact hcutEnd' hlast
    · exact hcutEnd fun hlt ↦ hsettled.partitions hwhole _ _ hstop (Nat.le_of_eq hlast.symm) hlt
  · show 1 = position - position + 1
    rw [Nat.sub_self]
  · show position + length = seen ∨ Cut _ _ (position + length)
    exact eq_or_cut_of_seen hseen hcutEnd'

/-- A frame that is opened at a cut and counted in the known rows of its partition. -/
theorem Within.newFrame (h : Tracks f rows whole first position p) (hsorted : f.Sorted rows)
    (hcaught : Caught f rows seen first p) (hsettled : Settled f rows whole stop seen)
    (hcut : Cut (f.peerKey rows) rows.length position) (hstop : position < stop)
    (hdense : p.denseRank = groupsFrom (f.peerKey rows) first position)
    {count : Nat} (hpos : 0 < count) (hle : count ≤ p.remaining)
    (hsame : ∀ i, position ≤ i → i < position + count →
      f.peerKey rows i = f.peerKey rows position)
    (hend : count < p.remaining →
      f.peerKey rows (position + count) ≠ f.peerKey rows position)
    (htally : f.tally rows first (position + count) = .ok aggregation) :
    Within f rows whole first position position (p.newFrame count) aggregation := by
  have hremaining := h.remaining_eq
  have hlt := h.lt_known
  have hfirst := h.first_le
  have hcutEnd : Cut (f.peerKey rows) rows.length (position + count) := by
    refine hsorted.peers.cut_end hcut (Nat.lt_add_of_pos_right hpos) hsame fun hnext ↦ ?_
    rcases Nat.lt_or_eq_of_le hle with hin | hall
    · exact hend hin
    · -- the frame reaches the end of what is known, which is the end of the partition or of sight
      have hknown : position + count = first + p.length := by omega
      rcases hcaught.2 with hseen | hcutPartition
      · exact hsettled.peers _ _ hstop (by omega) hnext
      · exact fun heq ↦ hcutPartition position _ hlt (Nat.le_of_eq hknown.symm) hnext
          (partitionKey_eq heq.symm)
  refine ⟨⟨h.cut_first, h.first_le, h.lt_known, h.known_le, h.remaining_eq, h.same,
    h.cut_of_isFinal, h.cut_of_whole, h.rowNumber_eq⟩, ⟨hle, hcutEnd, htally⟩,
    ⟨h.first_le, Nat.le_refl _, hcut, hsame, h.rowNumber_eq, fun _ ↦ ?_, fun _ ↦ ?_⟩, hpos, ?_⟩
  · show (if 1 < p.length then Double.ratio (p.rowNumber - 1) (p.length - 1) else .zero) =
      if p.length = 1 then .zero else .ratio (position - first) (p.length - 1)
    rw [h.rowNumber_eq, Nat.add_sub_cancel]
    split_ifs <;> first | rfl | omega
  · show Double.ratio (p.rowNumber + count - 1) p.length =
      .ratio (position + count - first) p.length
    rw [h.rowNumber_eq, show position - first + 1 + count - 1 = position + count - first by omega]
  · show p.denseRank + 1 = _
    rw [groupsFrom_succ h.first_le, hcut.isFirst (by have := h.known_le; omega), hdense]
    rfl

end Columnar.ColumnFrames
