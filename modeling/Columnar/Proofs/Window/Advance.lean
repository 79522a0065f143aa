import Columnar.Proofs.Window.Processed

/-!
# When the head can be processed

To say whether it can advance an engine compares two rows: the last row of its head and the last row
in sight (`Views.canAdvance_eq`). This module says why that is enough.

As keys stand together, two different keys there tell apart all that is in the head from all that is
not in sight yet (`Contiguous.ne_of_ne`): a key of the head that came back later would have the key
of the last row in sight in between. What is told apart in this way is what processing the head
needs (`Views.settled`), in terms of the stream alone. At the end of the input everything is
settled, and nothing has to be compared.

Which keys are compared depends on what is computed. **Peers have to be seen to end, and whole
partitions where a ranking needs their length.** The two cases are one by way of `tieKey`, the key
that is compared, so that all that follows is proved once. Where partitions have to be seen to end,
so are peers, which are in one partition.
-/

namespace Columnar

/-- Where the keys of two positions differ, those before the first one do not come back behind the
second one. -/
theorem Contiguous.ne_of_ne {κ : Type} {key : Nat → κ} {n a b : Nat} (h : Contiguous key n)
    (hab : a ≤ b) (hne : key b ≠ key a) {i k : Nat} (hi : i ≤ a) (hk : b ≤ k) (hkn : k < n) :
    key k ≠ key i := fun heq ↦ by
  have ha : key a = key k := h i a k hi (Nat.le_trans hab hk) hkn heq.symm
  have hb : key b = key k := h i b k (Nat.le_trans hi hab) hk hkn heq.symm
  exact hne (hb.trans ha.symm)

/-- The last row that waits is the last one of the last block. -/
theorem getElem?_rowsFrom_last (before : List Block) {last : Block} (hlast : 0 < last.length) :
    (rowsFrom (before ++ [last]) 0)[(rowsFrom (before ++ [last]) 0).length - 1]? =
      some (last, last.length - 1) := by
  rw [rowsFrom_zero, List.flatMap_append, List.flatMap_singleton, List.length_append,
    Block.length_refs, List.getElem?_append_right (by omega), Block.refs, List.getElem?_map,
    Nat.add_sub_assoc hlast, Nat.add_sub_cancel_left,
    List.getElem?_range (Nat.sub_lt hlast Nat.one_pos)]
  rfl

/-- Whether two rows are tied: they are peers, or in one partition where values depend on the whole
of it. -/
def WindowEngine.tied {σ ε : Type} (e : WindowEngine σ ε) (a b : Block × Nat) : Checked Bool :=
  if e.config.needsWholePartition then e.ops.samePartition a.1 a.2 b.1 b.2
  else e.ops.peers a.1 a.2 b.1 b.2

namespace ColumnFrames

variable {f : ColumnFrames} {rows : List Row} {types : List DataType}
  {e : WindowEngine (List Tally) FrameError} {head : Block} {rest : List Block}
  {base seen : Nat} {config : WindowConfig}

/-- The last row of the last block is the last one in sight. -/
theorem Views.last_eq (hv : Views f rows base seen e) {before : List Block} {last : Block}
    (hqueue : e.queue = before ++ [last]) (hlast : 0 < last.length) :
    ∃ x, rows[seen - 1]? = some x ∧ last.row (last.length - 1) = .ok x := by
  have href := getElem?_rowsFrom_last before hlast
  rw [← hqueue] at href
  obtain ⟨x, hx, hread⟩ := hv.shows _ _ href
  have hlt := (List.getElem?_eq_some_iff.1 href).1
  have hlength := hv.length_eq
  refine ⟨x, ?_, hread⟩
  rwa [show base + ((rowsFrom e.queue 0).length - 1) = seen - 1 by omega] at hx

/-- At the end of the input everything is settled. -/
theorem Settled.of_end {whole : Bool} {stop : Nat} : Settled f rows whole stop rows.length where
  ahead := .inr rfl
  peers _ _ _ hk hlt := absurd hlt (Nat.not_lt_of_le hk)
  partitions _ _ _ _ hk hlt := absurd hlt (Nat.not_lt_of_le hk)

/-! ### Ties -/

/-- What tells two rows apart where a frame, or the whole partition, has to be seen to end. -/
def tieKey (f : ColumnFrames) (rows : List Row) (whole : Bool) (position : Nat) :
    Option (List (Option (Option Scalar)) × List (Option (Option Scalar))) :=
  rows[position]?.map fun x ↦
    (x.key f.partitionColumns, if whole then [] else x.key f.orderColumns)

section tieKey

variable {whole : Bool} {i k : Nat}

theorem tieKey_false : f.tieKey rows false = f.peerKey rows := rfl

theorem tieKey_true_eq_iff :
    f.tieKey rows true i = f.tieKey rows true k ↔
      f.partitionKey rows i = f.partitionKey rows k := by
  simp only [tieKey, partitionKey]
  cases rows[i]? <;> cases rows[k]? <;> simp

/-- Peers are tied. -/
theorem tieKey_eq (h : f.peerKey rows i = f.peerKey rows k) :
    f.tieKey rows whole i = f.tieKey rows whole k := by
  cases whole with
  | false => exact h
  | true => exact tieKey_true_eq_iff.2 (partitionKey_eq h)

theorem Sorted.ties (h : f.Sorted rows) (whole : Bool) :
    Contiguous (f.tieKey rows whole) rows.length := by
  cases whole with
  | false => exact h.peers
  | true =>
    intro i j k hij hjk hk heq
    rw [tieKey_true_eq_iff] at heq ⊢
    exact h.partitions i j k hij hjk hk heq

end tieKey

/-- Rows are tied if their positions are. -/
theorem Stream.tied_eq (hs : f.Stream types rows) (hops : e.ops = f.ops) {a b : Block × Nat}
    {x y : Row} {i k : Nat} (hx : a.1.row a.2 = .ok x) (hi : rows[i]? = some x)
    (hy : b.1.row b.2 = .ok y) (hk : rows[k]? = some y) :
    e.tied a b = .ok (decide (f.tieKey rows e.config.needsWholePartition k =
      f.tieKey rows e.config.needsWholePartition i)) := by
  rw [WindowEngine.tied, hops]
  cases e.config.needsWholePartition with
  | false => exact hs.peers_eq hx hi hy hk
  | true =>
    simp only [tieKey_true_eq_iff]
    exact hs.samePartition_eq hx hi hy hk

/-- While there is input, an engine says that it can advance just if the last row in sight is not
tied to the last row of the head. -/
theorem Views.canAdvance_eq (hv : Views f rows base seen e) (hs : f.Stream types rows)
    (hnonempty : ∀ b ∈ e.queue, 0 < b.length) (hqueue : e.queue = head :: rest)
    (hopen : e.isFinished = false) :
    e.canAdvance = .ok (decide (f.tieKey rows e.config.needsWholePartition (seen - 1) ≠
      f.tieKey rows e.config.needsWholePartition (base + (head.length - 1)))) := by
  have hhead := hnonempty head (hqueue ▸ List.mem_cons_self)
  cases rest with
  | nil =>
    -- the last row in sight is the last row of the head
    have hlength := hv.length_eq
    rw [hqueue, rowsFrom_zero, List.flatMap_cons, List.flatMap_nil, List.append_nil,
      Block.length_refs] at hlength
    rw [show base + (head.length - 1) = seen - 1 by omega]
    simp [WindowEngine.canAdvance, hqueue, hopen]
  | cons next rest =>
    obtain ⟨last, hlast⟩ : ∃ last, last = (next :: rest).getLast (List.cons_ne_nil next rest) :=
      ⟨_, rfl⟩
    have hsplit : e.queue = (head :: (next :: rest).dropLast) ++ [last] := by
      rw [hqueue, hlast, List.cons_append, List.dropLast_concat_getLast]
    have hpos := hnonempty last (by simp [hsplit])
    obtain ⟨x, hx, hread⟩ := hv.row_eq hqueue (Nat.sub_lt hhead Nat.one_pos)
    obtain ⟨y, hy, hread'⟩ := hv.last_eq hsplit hpos
    simp only [WindowEngine.canAdvance, hqueue, hopen, ← hlast, hv.ops_eq,
      hs.samePartition_eq hread hx hread' hy, hs.peers_eq hread hx hread' hy, Checked.ok_bind]
    cases e.config.needsWholePartition with
    | true => simp [tieKey_true_eq_iff]
    | false =>
      rw [tieKey_false]
      by_cases heq :
        f.partitionKey rows (seen - 1) = f.partitionKey rows (base + (head.length - 1))
      · simp [heq]
      · have hpeers : f.peerKey rows (seen - 1) ≠ f.peerKey rows (base + (head.length - 1)) :=
          fun hpeer ↦ heq (partitionKey_eq hpeer)
        simp [heq, hpeers]

/-- A head that can be processed is settled. -/
theorem Views.settled (hv : Views f rows base seen e) (hs : f.Stream types rows)
    (hnonempty : ∀ b ∈ e.queue, 0 < b.length) (hqueue : e.queue = head :: rest)
    (hcan : e.canAdvance = .ok true) :
    Settled f rows e.config.needsWholePartition (base + head.length) seen := by
  cases hfinished : e.isFinished with
  | true => exact hv.finished hfinished ▸ Settled.of_end
  | false =>
    rw [hv.canAdvance_eq hs hnonempty hqueue hfinished, Except.ok.injEq, decide_eq_true_iff] at hcan
    have hle := hv.head_le hqueue
    have hhead := hnonempty head (hqueue ▸ List.mem_cons_self)
    have hahead : base + head.length < seen := by
      refine Nat.lt_of_le_of_ne hle fun heq ↦ hcan ?_
      rw [← heq, Nat.add_sub_assoc hhead]
    have hties {i k : Nat} (hi : i < base + head.length) (hk : seen ≤ k) (hkn : k < rows.length) :=
      (hs.sorted.ties e.config.needsWholePartition).ne_of_ne (by omega) hcan
        (show i ≤ base + (head.length - 1) by omega) (show seen - 1 ≤ k by omega) hkn
    refine ⟨.inl hahead, fun i k hi hk hkn heq ↦ hties hi hk hkn (tieKey_eq heq),
      fun hwhole i k hi hk hkn heq ↦ hties hi hk hkn ?_⟩
    rw [hwhole]
    exact tieKey_true_eq_iff.2 heq

theorem Stands.settled (h : Stands f rows config base seen e)
    (hs : f.Stream config.inputTypes rows) (hqueue : e.queue = head :: rest)
    (hcan : e.canAdvance = .ok true) :
    Settled f rows config.needsWholePartition (base + head.length) seen :=
  h.config_eq ▸ h.toViews.settled hs (fun b hb ↦ (h.regular b hb).2) hqueue hcan

end ColumnFrames

end Columnar
