import Columnar.Proofs.Window.Aggregates
import Mathlib.Data.List.Nodup
import Mathlib.Data.List.Perm.Subperm

/-!
# Sums that leave the range

When a window is stopped by a sum, and by which one. Rows are taken into a sum one after the other,
and the sum has to stay in range after each of them. So what counts is **the exact sum from the
start of a partition to each of its rows**, and not only the sums over the frames, which end with
the last of some peers. A frame whose sum is in range may be refused because of the order of its
rows (`overflowed_by_order`).

## Which column

`LeavesFirst` names the column that is reported. No row before takes any sum out of range; at its
row the column does, and no column does that is listed before it. There is exactly one such column
where a sum leaves the range at all (`exists_leavesFirst_iff`, `LeavesFirst.unique`).
`overflowed_iff_of_session` says that a session is stopped by the sum of a column exactly if the
column is this one.

## What the equivalence rests on

In one direction a row that stops the tallies has a sum out of range (`tallyRow_not_inRange`); its
columns are split at the one that is reported, and those before it have taken the row in. In the
other one tallies that are there have sums in range (`inRange_of_tally`), so a row with a sum out of
range can not be among them.

## The order of peers

Where no row takes a sum out of range the aggregates depend on the rows in a frame alone and not on
their order (`Aggregate.IsOver.eq_of_perm`). So a stream whose peers are reordered has the same
aggregates if it does not overflow, and the order decides only whether it does.
-/

namespace Columnar

/-! ### Exact sums -/

/-- A total that an integer of 64 bits can have. -/
def InRange (total : Int) : Prop :=
  Int64.minValue.toInt ≤ total ∧ total ≤ Int64.maxValue.toInt

instance (total : Int) : Decidable (InRange total) :=
  inferInstanceAs (Decidable (_ ∧ _))

/-- The integers that are present in a column of some rows, widened. -/
def integersIn (frame : List Row) (column : Nat) : List Int64 :=
  (presentIn frame column).filterMap Scalar.toInt64?

/-- The exact sum of the integers in a column of some rows. -/
def sumIn (frame : List Row) (column : Nat) : Int := exactSum (integersIn frame column)

/-- The column that is summed up. -/
def Aggregate.summed? : Aggregate → Option Nat
  | sum column | avg column => some column
  | countStar | count _ | min _ | max _ => none

variable {frame frame' : List Row} {x : Row} {column : Nat} {values values' : List Int64}

theorem inRange_toInt (i : Int64) : InRange i.toInt := ⟨i.minValue_le_toInt, i.toInt_le⟩

theorem Integers.eq_integersIn (h : Integers frame column values) :
    values = integersIn frame column := by
  have hmap := congrArg (List.filterMap id) h
  rw [List.filterMap_map, List.filterMap_map] at hmap
  exact (List.filterMap_some.symm.trans hmap.symm)

/-- Two integers have no sum if it is out of range. -/
theorem addInRange?_eq_none_iff {a b : Int64} :
    addInRange? a b = none ↔ ¬InRange (a.toInt + b.toInt) := by
  by_cases h : InRange (a.toInt + b.toInt)
  · have hsome : addInRange? a b = some (.ofInt (a.toInt + b.toInt)) := if_pos h
    rw [hsome]
    exact iff_of_false (Option.some_ne_none _) (not_not_intro h)
  · exact iff_of_true (if_neg h) h

/-- A sum that is out of range is not that of integers that have one. -/
theorem IsSum.inRange {total : Option Int64} (h : IsSum values total) :
    InRange (exactSum values) := by
  cases total with
  | none =>
    obtain rfl : values = [] := h
    decide
  | some total => exact h.2 ▸ inRange_toInt total

/-! ### Rows that are taken in -/

/-- What an aggregate has summed up is in range. -/
theorem Aggregate.IsOver.inRange {a : Aggregate} {value : Option Scalar}
    (h : a.IsOver frame value) (ha : a.summed? = some column) : InRange (sumIn frame column) := by
  cases a with
  | sum =>
    obtain rfl := Option.some.inj ha
    obtain ⟨values, total, hvalues, hsum, -⟩ := h
    rw [sumIn, ← hvalues.eq_integersIn]
    exact hsum.inRange
  | avg =>
    obtain rfl := Option.some.inj ha
    obtain ⟨values, total, hvalues, htotal, -⟩ := h
    rw [sumIn, ← hvalues.eq_integersIn, ← htotal]
    exact inRange_toInt total
  | _ => cases ha

/-- A row that a tally does not take in takes a sum out of range. -/
theorem Tally.IsOf.not_inRange {t : Tally} (h : t.IsOf frame) (hx : t.aggregate.Reads x)
    (hadd : t.addRow x = .error column) :
    t.aggregate.summed? = some column ∧ ¬InRange (sumIn (frame ++ [x]) column) := by
  cases t with
  | countStar | count => cases hadd
  | min column' | max column' =>
    rw [addRow_eq_addValue rfl] at hadd
    simp only [addValue] at hadd
    split at hadd <;> cases hadd
  | sum column' total =>
    obtain ⟨values, hvalues, hsum⟩ := h
    rw [addRow_eq_addValue rfl] at hadd
    rcases hvalues.concat (hx rfl column' rfl) with ⟨hnone, -⟩ | ⟨i, hi, hvalues'⟩
    · simp only [addValue, hnone] at hadd
      cases hadd
    · cases total with
      | none =>
        simp only [addValue, hi] at hadd
        cases hadd
      | some total =>
        simp only [addValue, hi] at hadd
        cases hnone : addInRange? total i with
        | some total' =>
          rw [hnone] at hadd
          cases hadd
        | none =>
          rw [hnone] at hadd
          obtain rfl := Except.error.inj hadd
          refine ⟨rfl, ?_⟩
          rw [sumIn, ← hvalues'.eq_integersIn, exactSum_concat, ← hsum.2]
          exact addInRange?_eq_none_iff.1 hnone
  | avg column' total rows =>
    obtain ⟨values, hvalues, hsum, -⟩ := h
    rw [addRow_eq_addValue rfl] at hadd
    rcases hvalues.concat (hx rfl column' rfl) with ⟨hnone, -⟩ | ⟨i, hi, hvalues'⟩
    · simp only [addValue, hnone] at hadd
      cases hadd
    · simp only [addValue, hi] at hadd
      cases hnone : addInRange? total i with
      | some total' =>
        rw [hnone] at hadd
        cases hadd
      | none =>
        rw [hnone] at hadd
        obtain rfl := Except.error.inj hadd
        refine ⟨rfl, ?_⟩
        rw [sumIn, ← hvalues'.eq_integersIn, exactSum_concat, ← hsum]
        exact addInRange?_eq_none_iff.1 hnone

namespace ColumnFrames

variable (f : ColumnFrames) (rows : List Row)

/-- The columns that are summed up. -/
def summedColumns : List Nat := f.aggregates.filterMap Aggregate.summed?

/-- The sum of a column from the start of the partition of a row up to the row is out of range. -/
def LeavesRange (column r : Nat) : Prop :=
  ∃ first size, GroupAt (f.partitionKey rows) rows.length r first size ∧
    ¬InRange (sumIn ((rows.take (r + 1)).drop first) column)

/-- The sum of a column over the frame of a row, which ends with its last peer, is out of range. -/
def FrameLeavesRange (column r : Nat) : Prop :=
  ∃ first size peer peers, GroupAt (f.partitionKey rows) rows.length r first size ∧
    GroupAt (f.peerKey rows) rows.length r peer peers ∧
    ¬InRange (sumIn ((rows.take (peer + peers)).drop first) column)

/-- A column that is summed up is the first to leave the range: at no row before does a sum do so,
and at its row none of a column that is listed before it. -/
def LeavesFirst (column : Nat) : Prop :=
  ∃ r < rows.length, f.LeavesRange rows column r ∧
    (∀ r' < r, ∀ column' ∈ f.summedColumns, ¬f.LeavesRange rows column' r') ∧
    ∃ before after, f.summedColumns = before ++ column :: after ∧
      ∀ column' ∈ before, ¬f.LeavesRange rows column' r

variable {f rows} {tallies : List Tally} {first last : Nat}

/-- A row that stops the tallies takes the sum of the column that is reported out of range, and that
of no column that is listed before it. -/
theorem tallyRow_not_inRange (h : ∀ t ∈ tallies, t.IsOf frame)
    (hx : ∀ a ∈ tallies.map Tally.aggregate, a.Reads x)
    (hrow : tallyRow tallies x = .error (.sumOverflow column)) :
    ∃ before after, (tallies.map Tally.aggregate).filterMap Aggregate.summed? =
        before ++ column :: after ∧
      (∀ column' ∈ before, InRange (sumIn (frame ++ [x]) column')) ∧
      ¬InRange (sumIn (frame ++ [x]) column) := by
  induction tallies with
  | nil => cases hrow
  | cons t tallies ih =>
    have hof := h t List.mem_cons_self
    have hread := hx t.aggregate List.mem_cons_self
    rw [tallyRow_cons] at hrow
    rw [List.map_cons]
    rcases eq_error_of_bind_eq_error hrow with ht | ⟨t', ht', hrow⟩
    · -- the first tally stops
      obtain ⟨column', ht, hcause⟩ := exists_of_mapError_eq_error ht
      obtain rfl := FrameError.sumOverflow.inj hcause
      obtain ⟨hsummed, hrange⟩ := hof.not_inRange hread ht
      exact ⟨[], _, List.filterMap_cons_some hsummed, fun _ hmem ↦ absurd hmem List.not_mem_nil,
        hrange⟩
    · rcases eq_error_of_bind_eq_error hrow with hrest | ⟨rest, -, hrow⟩
      · -- it has taken the row in, and one of the others stops
        have ht' := eq_ok_of_mapError_eq_ok ht'
        obtain ⟨before, after, hsplit, hbefore, hrange⟩ := ih
          (fun t ht ↦ h t (List.mem_cons_of_mem _ ht)) (fun a ha ↦ hx a (List.mem_cons_of_mem _ ha))
          hrest
        cases hsummed : t.aggregate.summed? with
        | none =>
          rw [List.filterMap_cons_none hsummed]
          exact ⟨before, after, hsplit, hbefore, hrange⟩
        | some first =>
          refine ⟨first :: before, after, ?_, fun column' hmem ↦ ?_, hrange⟩
          · rw [List.filterMap_cons_some hsummed, hsplit, List.cons_append]
          · rcases List.mem_cons.1 hmem with rfl | hmem
            · have hover := (hof.addRow hread ht').isOver
              rw [Tally.aggregate_addValue ht'] at hover
              exact hover.inRange hsummed
            · exact hbefore column' hmem
      · cases hrow

/-- Where the tallies of a stretch are there the sums of its rows are in range. -/
theorem inRange_of_tally (hreads : ∀ x ∈ rows, ∀ a ∈ f.aggregates, a.Reads x)
    (h : f.tally rows first last = .ok tallies) (hcolumn : column ∈ f.summedColumns) :
    InRange (sumIn ((rows.take last).drop first) column) := by
  obtain ⟨a, ha, hsummed⟩ := List.mem_filterMap.1 hcolumn
  have hall := forall₂_isOver h hreads
  obtain ⟨i, hi, rfl⟩ := List.getElem_of_mem ha
  exact (hall.get hi (hall.length_eq ▸ hi)).inRange hsummed

/-- Where the partition of a row begins is known. -/
theorem leavesRange_iff {r : Nat} (hsorted : f.Sorted rows) (hr : r < rows.length)
    (hcut : Cut (f.partitionKey rows) rows.length first) (hle : first ≤ r)
    (hkey : f.partitionKey rows r = f.partitionKey rows first) :
    f.LeavesRange rows column r ↔ ¬InRange (sumIn ((rows.take (r + 1)).drop first) column) := by
  constructor
  · rintro ⟨first', size, hgroup, hrange⟩
    rwa [hgroup.first_eq_of_cut hr hcut hle hkey.symm] at hrange
  · intro hrange
    obtain ⟨first', size, hgroup⟩ := hsorted.partitions.exists_groupAt hr
    obtain rfl := hgroup.first_eq_of_cut hr hcut hle hkey.symm
    exact ⟨first', size, hgroup, hrange⟩

/-- A row where the tallies stop takes the sum of the column that is reported out of range, and that
of no column that is listed before it. -/
theorem OverflowsAt.leavesRange {position : Nat} (h : f.OverflowsAt rows position column)
    (hsorted : f.Sorted rows) (hreads : ∀ x ∈ rows, ∀ a ∈ f.aggregates, a.Reads x) :
    f.LeavesRange rows column position ∧ ∃ before after,
      f.summedColumns = before ++ column :: after ∧
        ∀ column' ∈ before, ¬f.LeavesRange rows column' position := by
  obtain ⟨hlt, first, hle, hcut, hsame, ⟨tallies, htally⟩, herror⟩ := h
  have hkey := hsame position hle (Nat.le_refl position)
  have hx := List.getElem?_eq_getElem hlt
  rw [tally_succ hle hx, htally] at herror
  have hread : ∀ a ∈ tallies.map Tally.aggregate, a.Reads rows[position] := by
    rw [map_aggregate_tally htally]
    exact hreads _ (List.getElem_mem _)
  obtain ⟨before, after, hsplit, hbefore, hrange⟩ :=
    tallyRow_not_inRange (tally_isOf htally hreads) hread herror
  rw [map_aggregate_tally htally] at hsplit
  -- the rows of the tallies and the row itself are those of the partition up to it
  have hstretch : (rows.take position).drop first ++ [rows[position]] =
      (rows.take (position + 1)).drop first := by
    rw [List.take_add_one, hx, Option.toList_some,
      List.drop_append_of_le_length (by rw [List.length_take]; omega)]
  rw [hstretch] at hrange hbefore
  refine ⟨(leavesRange_iff hsorted hlt hcut hle hkey).2 hrange, before, after, hsplit, ?_⟩
  intro column' hmem hleaves
  exact (leavesRange_iff hsorted hlt hcut hle hkey).1 hleaves (hbefore column' hmem)

/-- A sum that is out of range up to some row stops the tallies there or before. -/
theorem LeavesRange.exists_overflowsAt {r : Nat} (h : f.LeavesRange rows column r)
    (hr : r < rows.length) (hcolumn : column ∈ f.summedColumns) (hsorted : f.Sorted rows)
    (hreads : ∀ x ∈ rows, ∀ a ∈ f.aggregates, a.Reads x) :
    ∃ position ≤ r, ∃ column', f.OverflowsAt rows position column' := by
  obtain ⟨first, hle, hcut, hsame⟩ := hsorted.partitions.exists_first hr
  have hfirst := hsame first (Nat.le_refl first) hle
  have hrange := (leavesRange_iff hsorted hr hcut hle hfirst.symm).1 h
  cases htally : f.tally rows first (r + 1) with
  | ok tallies => exact absurd (inRange_of_tally hreads htally hcolumn) hrange
  | error cause =>
    obtain ⟨column', rfl⟩ := exists_of_tally_eq_error htally
    obtain ⟨position, -, -, hlt, -, hat⟩ :=
      ColumnFrames.exists_overflowsAt hcut (Nat.le_succ_of_le hle) hr
      (fun i hi hi' ↦ (hsame i hi (Nat.le_of_lt_succ hi')).trans hfirst.symm) htally
    exact ⟨position, Nat.le_of_lt_succ hlt, column', hat⟩

/-- A partition overflows where the sum up to one of its rows is out of range. -/
theorem overflows_iff (hsorted : f.Sorted rows)
    (hreads : ∀ x ∈ rows, ∀ a ∈ f.aggregates, a.Reads x) :
    f.Overflows rows ↔
      ∃ column ∈ f.summedColumns, ∃ r < rows.length, f.LeavesRange rows column r := by
  rw [overflows_iff_exists_overflowsAt]
  constructor
  · rintro ⟨position, column, hat⟩
    obtain ⟨hleaves, before, after, hsplit, -⟩ := hat.leavesRange hsorted hreads
    have hmem : column ∈ f.summedColumns :=
      hsplit ▸ List.mem_append_right before List.mem_cons_self
    exact ⟨column, hmem, position, hat.lt_length, hleaves⟩
  · rintro ⟨column, hcolumn, r, hr, hleaves⟩
    obtain ⟨position, -, column', hat⟩ := hleaves.exists_overflowsAt hr hcolumn hsorted hreads
    exact ⟨position, column', hat⟩

/-- Where a stream overflows first the column that is reported is the first to leave the range. -/
theorem OverflowsFrom.leavesFirst (h : f.OverflowsFrom rows 0 column) (hsorted : f.Sorted rows)
    (hreads : ∀ x ∈ rows, ∀ a ∈ f.aggregates, a.Reads x) : f.LeavesFirst rows column := by
  obtain ⟨position, -, hat, hnone⟩ := h
  obtain ⟨hleaves, hlisted⟩ := hat.leavesRange hsorted hreads
  refine ⟨position, hat.lt_length, hleaves, fun r hr column' hmem hleaves' ↦ ?_, hlisted⟩
  have hlt := Nat.lt_trans hr hat.lt_length
  obtain ⟨earlier, hle, other, hat'⟩ := hleaves'.exists_overflowsAt hlt hmem hsorted hreads
  exact hnone earlier (Nat.zero_le earlier) (Nat.lt_of_le_of_lt hle hr) other hat'

theorem LeavesFirst.mem_summedColumns (h : f.LeavesFirst rows column) :
    column ∈ f.summedColumns := by
  obtain ⟨r, -, -, -, before, after, hsplit, -⟩ := h
  exact hsplit ▸ List.mem_append_right before List.mem_cons_self

/-- Where the sum of a column leaves the range there is a first column to do so. -/
theorem exists_leavesFirst_iff (hsorted : f.Sorted rows)
    (hreads : ∀ x ∈ rows, ∀ a ∈ f.aggregates, a.Reads x) :
    (∃ column, f.LeavesFirst rows column) ↔
      ∃ column ∈ f.summedColumns, ∃ r < rows.length, f.LeavesRange rows column r := by
  constructor
  · rintro ⟨column, hfirst⟩
    have hmem := hfirst.mem_summedColumns
    obtain ⟨r, hr, hleaves, -⟩ := hfirst
    exact ⟨column, hmem, r, hr, hleaves⟩
  · rintro ⟨column, hmem, r, hr, hleaves⟩
    obtain ⟨position, -, column', hat⟩ := hleaves.exists_overflowsAt hr hmem hsorted hreads
    obtain ⟨first, hfrom⟩ := hat.exists_overflowsFrom
    exact ⟨first, hfrom.leavesFirst hsorted hreads⟩

/-- Only one column is the first. -/
theorem LeavesFirst.unique {column' : Nat} (h : f.LeavesFirst rows column)
    (h' : f.LeavesFirst rows column') : column' = column := by
  have hmem := h.mem_summedColumns
  have hmem' := h'.mem_summedColumns
  obtain ⟨r, -, hleaves, hnone, before, after, hsplit, hlisted⟩ := h
  obtain ⟨r', -, hleaves', hnone', before', after', hsplit', hlisted'⟩ := h'
  obtain rfl : r' = r := by
    rcases Nat.lt_trichotomy r' r with hlt | heq | hlt
    · exact absurd hleaves' (hnone r' hlt column' hmem')
    · exact heq
    · exact absurd hleaves (hnone' r hlt column hmem)
  -- at one row the one that is listed first counts
  rcases List.append_eq_append_iff.1 (hsplit.symm.trans hsplit') with
    ⟨_ | ⟨next, between⟩, hbefore, hafter⟩ | ⟨_ | ⟨next, between⟩, hbefore, hafter⟩
  · exact (List.cons.inj hafter).1.symm
  · obtain ⟨rfl, -⟩ := List.cons.inj hafter
    exact absurd hleaves (hlisted' column (hbefore ▸ List.mem_append_right _ List.mem_cons_self))
  · exact (List.cons.inj hafter).1
  · obtain ⟨rfl, -⟩ := List.cons.inj hafter
    exact absurd hleaves' (hlisted column' (hbefore ▸ List.mem_append_right _ List.mem_cons_self))

end ColumnFrames

/-! ### The order of peers -/

theorem exactSum_eq_of_perm (h : values.Perm values') : exactSum values = exactSum values' := by
  induction h with
  | nil => rfl
  | cons value _ ih => exact congrArg (value.toInt + ·) ih
  | swap a b values => exact Int.add_left_comm _ _ _
  | trans _ _ ih ih' => exact ih.trans ih'

theorem presentIn_perm (h : frame.Perm frame') (column : Nat) :
    (presentIn frame column).Perm (presentIn frame' column) :=
  h.filterMap _

theorem integersIn_perm (h : frame.Perm frame') (column : Nat) :
    (integersIn frame column).Perm (integersIn frame' column) :=
  (presentIn_perm h column).filterMap _

theorem IsSum.eq_of_perm {total total' : Option Int64} (h : IsSum values total)
    (h' : IsSum values' total') (hperm : values.Perm values') : total = total' := by
  have hsum := exactSum_eq_of_perm hperm
  cases total with
  | none =>
    obtain rfl : values = [] := h
    obtain rfl := hperm.symm.eq_nil
    cases total' with
    | none => rfl
    | some total' => exact absurd rfl h'.1
  | some total =>
    cases total' with
    | none =>
      obtain rfl : values' = [] := h'
      exact absurd hperm.eq_nil h.1
    | some total' => rw [Int64.toInt_inj.1 (h.2.trans (hsum.trans h'.2.symm))]

theorem IsExtreme.eq_of_perm {before : Int → Int → Prop} {extreme extreme' : Option Int64}
    (h : IsExtreme before values extreme) (h' : IsExtreme before values' extreme')
    (hantisymm : ∀ a b, before a b → before b a → a = b) (hperm : values.Perm values') :
    extreme = extreme' := by
  cases extreme with
  | none =>
    obtain rfl : values = [] := h
    obtain rfl := hperm.symm.eq_nil
    cases extreme' with
    | none => rfl
    | some extreme' => exact absurd h'.1 List.not_mem_nil
  | some extreme =>
    cases extreme' with
    | none =>
      obtain rfl : values' = [] := h'
      exact absurd (hperm.eq_nil ▸ h.1) List.not_mem_nil
    | some extreme' =>
      have heq := hantisymm _ _ (h.2 extreme' (hperm.mem_iff.2 h'.1))
        (h'.2 extreme (hperm.mem_iff.1 h.1))
      rw [Int64.toInt_inj.1 heq]

/-- An aggregate does not depend on the order of the rows of a frame. -/
theorem Aggregate.IsOver.eq_of_perm {a : Aggregate} {value value' : Option Scalar}
    (h : a.IsOver frame value) (h' : a.IsOver frame' value') (hperm : frame.Perm frame') :
    value = value' := by
  cases a with
  | countStar => rw [show value = _ from h, show value' = _ from h', hperm.length_eq]
  | count column =>
    rw [show value = _ from h, show value' = _ from h', (presentIn_perm hperm column).length_eq]
  | sum column =>
    obtain ⟨values, total, hvalues, hsum, rfl⟩ := h
    obtain ⟨values', total', hvalues', hsum', rfl⟩ := h'
    obtain rfl := hvalues.eq_integersIn
    obtain rfl := hvalues'.eq_integersIn
    rw [hsum.eq_of_perm hsum' (integersIn_perm hperm column)]
  | min column =>
    obtain ⟨values, least, hvalues, hleast, rfl⟩ := h
    obtain ⟨values', least', hvalues', hleast', rfl⟩ := h'
    obtain rfl := hvalues.eq_integersIn
    obtain rfl := hvalues'.eq_integersIn
    rw [hleast.eq_of_perm hleast' (fun _ _ ↦ Int.le_antisymm) (integersIn_perm hperm column)]
  | max column =>
    obtain ⟨values, greatest, hvalues, hgreatest, rfl⟩ := h
    obtain ⟨values', greatest', hvalues', hgreatest', rfl⟩ := h'
    obtain rfl := hvalues.eq_integersIn
    obtain rfl := hvalues'.eq_integersIn
    rw [hgreatest.eq_of_perm hgreatest' (fun _ _ hab hba ↦ Int.le_antisymm hba hab)
      (integersIn_perm hperm column)]
  | avg column =>
    obtain ⟨values, total, hvalues, htotal, rfl⟩ := h
    obtain ⟨values', total', hvalues', htotal', rfl⟩ := h'
    obtain rfl := hvalues.eq_integersIn
    obtain rfl := hvalues'.eq_integersIn
    have hintegers := integersIn_perm hperm column
    have hsum := htotal.trans ((exactSum_eq_of_perm hintegers).trans htotal'.symm)
    have hnil : integersIn frame column = [] ↔ integersIn frame' column = [] :=
      ⟨fun h ↦ (h ▸ hintegers).symm.eq_nil, fun h ↦ (h ▸ hintegers).eq_nil⟩
    rw [Int64.toInt_inj.1 hsum, hintegers.length_eq]
    simp only [hnil]

namespace ColumnFrames

variable {f : ColumnFrames} {rows rows' outs outs' : List Row} {first last : Nat}
  {config : WindowConfig}

/-- A stream in which every row has moved to a position of one of its peers. -/
structure Reordered (f : ColumnFrames) (rows rows' : List Row) (move : Nat → Nat) : Prop where
  length_eq : rows'.length = rows.length
  move_lt : ∀ i < rows.length, move i < rows.length
  move_inj : ∀ i < rows.length, ∀ k < rows.length, move i = move k → i = k
  row_eq : ∀ i < rows.length, rows'[i]? = rows[move i]?
  peerKey_eq : ∀ i < rows.length, f.peerKey rows (move i) = f.peerKey rows i

variable {move : Nat → Nat}

/-- The peers stay where they are. -/
theorem Reordered.peerKey_reordered (h : f.Reordered rows rows' move) :
    f.peerKey rows' = f.peerKey rows := by
  funext i
  rcases Nat.lt_or_ge i rows.length with hlt | hge
  · rw [← h.peerKey_eq i hlt, peerKey, peerKey, h.row_eq i hlt]
  · rw [peerKey, peerKey, List.getElem?_eq_none hge, List.getElem?_eq_none (h.length_eq ▸ hge)]

theorem Reordered.partitionKey_reordered (h : f.Reordered rows rows' move) :
    f.partitionKey rows' = f.partitionKey rows := by
  funext i
  have hmap := congrArg (Option.map Prod.fst) (congrFun h.peerKey_reordered i)
  simpa [peerKey, partitionKey, Option.map_map, Function.comp_def] using hmap

theorem Reordered.sorted (h : f.Reordered rows rows' move) (hsorted : f.Sorted rows) :
    f.Sorted rows' where
  partitions := by
    rw [h.length_eq, h.partitionKey_reordered]
    exact hsorted.partitions
  peers := by
    rw [h.length_eq, h.peerKey_reordered]
    exact hsorted.peers

/-- The rows of a stretch, by their positions. -/
theorem stretch_eq_filterMap (hlast : last ≤ rows.length) :
    (rows.take last).drop first = (List.range' first (last - first)).filterMap (rows[·]?) := by
  induction last with
  | zero => simp
  | succ last ih =>
    have hlength : first ≤ last → first ≤ (rows.take last).length := fun hle ↦ by
      rw [List.length_take]
      omega
    rcases Nat.lt_or_ge last first with hlt | hle
    · rw [Nat.sub_eq_zero_of_le hlt, List.drop_eq_nil_of_le]
      · rfl
      · exact Nat.le_trans (List.length_take_le _ _) hlt
    · have hx := List.getElem?_eq_getElem (show last < rows.length from hlast)
      rw [Nat.succ_sub hle, List.range'_1_concat, List.filterMap_append,
        ← ih (Nat.le_of_succ_le hlast), List.take_add_one,
        List.drop_append_of_le_length (hlength hle), Nat.add_sub_cancel' hle, hx]
      simp [hx]

/-- A stretch between cuts has the same rows, in another order. -/
theorem Reordered.perm (h : f.Reordered rows rows' move)
    (hfirst : Cut (f.peerKey rows) rows.length first)
    (hlast : Cut (f.peerKey rows) rows.length last) (hle : last ≤ rows.length) :
    ((rows'.take last).drop first).Perm ((rows.take last).drop first) := by
  have hmem {i : Nat} (hi : i ∈ List.range' first (last - first)) : first ≤ i ∧ i < last := by
    have := List.mem_range'_1.1 hi
    omega
  have hrows : (List.range' first (last - first)).filterMap (rows'[·]?) =
      ((List.range' first (last - first)).map move).filterMap (rows[·]?) := by
    rw [List.filterMap_map]
    refine List.filterMap_congr fun i hi ↦ ?_
    exact h.row_eq i (Nat.lt_of_lt_of_le (hmem hi).2 hle)
  rw [stretch_eq_filterMap hle, stretch_eq_filterMap (h.length_eq.symm ▸ hle), hrows]
  refine List.Perm.filterMap _ ((List.subperm_of_subset ?_ fun k hk ↦ ?_).perm_of_length_le ?_)
  · refine List.Nodup.map_on (fun i hi k hk ↦ ?_) List.nodup_range'
    exact h.move_inj i (Nat.lt_of_lt_of_le (hmem hi).2 hle) k (Nat.lt_of_lt_of_le (hmem hk).2 hle)
  · obtain ⟨i, hi, rfl⟩ := List.mem_map.1 hk
    obtain ⟨hfi, hil⟩ := hmem hi
    have hlt := Nat.lt_of_lt_of_le hil hle
    have hkey := h.peerKey_eq i hlt
    -- the row can not have moved across one of the cuts
    have hge : first ≤ move i := Nat.le_of_not_lt fun hbefore ↦ hfirst _ i hbefore hfi hlt hkey
    have hbelow : move i < last := Nat.lt_of_not_le fun hbehind ↦
      hlast i _ hil hbehind (h.move_lt i hlt) hkey.symm
    rw [List.mem_range'_1]
    omega
  · exact Nat.le_of_eq (List.length_map _).symm

/-- Values of the same aggregates over frames of the same rows. -/
theorem forall₂_isOver_eq {aggregates : List Aggregate} {frame frame' : List Row}
    {values values' : Row}
    (h : List.Forall₂ (fun a value ↦ a.IsOver frame value) aggregates values)
    (h' : List.Forall₂ (fun a value ↦ a.IsOver frame' value) aggregates values')
    (hperm : frame.Perm frame') : values = values' := by
  induction h generalizing values' with
  | nil =>
    cases h'
    rfl
  | cons hvalue _ ih =>
    obtain _ | ⟨hvalue', hrest⟩ := h'
    rw [hvalue.eq_of_perm hvalue' hperm, ih hrest]

/-- Where all rows have output rows the aggregates there do not depend on the order of peers. -/
theorem Answers.aggregatesOf_eq (h : f.Answers rows config.rankings outs)
    (h' : f.Answers rows' config.rankings outs') (hs : f.Stream config.inputTypes rows)
    (hs' : f.Stream config.inputTypes rows')
    (haggregates : config.aggregateTypes = f.aggregateTypes)
    (hreads : ∀ x ∈ rows, ∀ a ∈ f.aggregates, a.Reads x)
    (hreads' : ∀ x ∈ rows', ∀ a ∈ f.aggregates, a.Reads x)
    (hreordered : f.Reordered rows rows' move) {r : Nat} (hr : r < rows.length) :
    ∃ out out', outs[r]? = some out ∧ outs'[r]? = some out' ∧
      aggregatesOf config out' = aggregatesOf config out := by
  obtain ⟨first, size, hpartition⟩ := hs.sorted.partitions.exists_groupAt hr
  obtain ⟨peer, peers, hpeers⟩ := hs.sorted.peers.exists_groupAt hr
  have hpartition' : GroupAt (f.partitionKey rows') rows'.length r first size := by
    rw [hreordered.length_eq, hreordered.partitionKey_reordered]
    exact hpartition
  have hpeers' : GroupAt (f.peerKey rows') rows'.length r peer peers := by
    rw [hreordered.length_eq, hreordered.peerKey_reordered]
    exact hpeers
  obtain ⟨out, tallies, hout, htally, hvalues⟩ :=
    h.aggregates_eq hs haggregates hr hpartition hpeers
  obtain ⟨out', tallies', hout', htally', hvalues'⟩ :=
    h'.aggregates_eq hs' haggregates (hreordered.length_eq.symm ▸ hr) hpartition' hpeers'
  refine ⟨out, out', hout, hout', ?_⟩
  rw [hvalues, hvalues']
  refine forall₂_isOver_eq (forall₂_isOver htally' hreads') (forall₂_isOver htally hreads) ?_
  exact hreordered.perm (Cut.peers (hpartition.cut_first hs.sorted.partitions hr))
    (hpeers.cut_last hs.sorted.peers hr) hpeers.le_length

/-! ### Sessions -/

variable {calls : List WindowCall} {partitionColumns orderColumns : List Nat}
  {aggregates : List Aggregate}

/-- A sum over a frame that is out of range is so up to the last row of the frame. -/
theorem FrameLeavesRange.exists_leavesRange {column r : Nat} (hr : r < rows.length)
    (h : f.FrameLeavesRange rows column r) : ∃ r' < rows.length, f.LeavesRange rows column r' := by
  obtain ⟨first, size, peer, peers, hpartition, hpeers, hrange⟩ := h
  have hmem := hpeers.mem hr
  have hlength := hpeers.le_length
  have hlt : peer + peers - 1 < rows.length := by omega
  have hkey := (hpeers.mem_iff _ hlt).2 (by omega)
  refine ⟨peer + peers - 1, hlt, first, size, hpartition.congr (partitionKey_eq hkey), ?_⟩
  rwa [Nat.sub_add_cancel (by omega)]

/-- Where nothing comes back, not even the input, nothing is summed up. -/
theorem summedColumns_eq_nil (haggregates : config.aggregateTypes = f.aggregateTypes)
    (hnone : config.outputTypes = []) : f.summedColumns = [] := by
  have hinputs := (List.append_eq_nil_iff.1 hnone).1
  have htypes : f.aggregates.map Aggregate.dataType = [] :=
    haggregates.symm.trans (List.append_eq_nil_iff.1 hinputs).2
  rw [summedColumns, List.map_eq_nil_iff.1 htypes]
  rfl

/-- A session that went through was not stopped by a sum. -/
theorem not_overflowed_of_completes {run : WindowRun (List Tally) FrameError}
    (h : f.Completes rows run outs) : ¬Overflowed run := by
  rintro ⟨row, column, hsome⟩
  exact Option.some_ne_none _ (hsome.symm.trans h.refusal_eq)

/-- What a session that stops says of the stream: it is stopped by the sum of the column that is the
first to leave the range, and it is not stopped by a sum where none is. -/
theorem refusal?_eq_iff_leavesFirst {run : WindowRun (List Tally) FrameError}
    (hs : f.Stream config.inputTypes rows)
    (hreads : ∀ x ∈ rows, ∀ a ∈ f.aggregates, a.Reads x)
    (haggregates : config.aggregateTypes = f.aggregateTypes)
    (hcases : (∃ outs, f.Completes rows run outs ∧ f.Answers rows config.rankings outs) ∨
      ∃ refusal, run.refusal? = some refusal ∧ f.Stops rows config refusal) (column : Nat) :
    (∃ row, run.refusal? = some (.aggregateFailed row (.sumOverflow column))) ↔
      f.LeavesFirst rows column := by
  rcases hcases with ⟨outs, hcompletes, hanswers⟩ | ⟨refusal, hsome, hrefused | ⟨hnone, cause, rfl⟩⟩
  · refine iff_of_false ?_ fun hfirst ↦ hanswers.not_overflows ?_
    · rintro ⟨row, hsome⟩
      exact not_overflowed_of_completes hcompletes ⟨row, column, hsome⟩
    · rw [overflows_iff hs.sorted hreads, ← exists_leavesFirst_iff hs.sorted hreads]
      exact ⟨column, hfirst⟩
  · obtain ⟨row, column', rfl, hfrom⟩ := hrefused
    have hfirst := hfrom.leavesFirst hs.sorted hreads
    constructor
    · rintro ⟨row', hsome'⟩
      cases hsome.symm.trans hsome'
      exact hfirst
    · intro hfirst'
      obtain rfl := hfirst'.unique hfirst
      exact ⟨row, hsome⟩
  · -- without any column to give back a block is refused, but nothing is summed up either
    refine iff_of_false ?_ fun hfirst ↦ ?_
    · rintro ⟨row, hsome'⟩
      cases hsome.symm.trans hsome'
    · have hmem := hfirst.mem_summedColumns
      rw [summedColumns_eq_nil haggregates hnone] at hmem
      exact List.not_mem_nil hmem

/-- A session is stopped by the sum of a column exactly if this column is the first for which the
exact sum from the start of some partition up to some row of it is out of range. So it is stopped by
some sum exactly if there is a column like that, and whenever the sum over a frame is out of range.
Whether that is so may depend on the order of peers, but the aggregates in sessions that went
through do not. -/
theorem overflowed_iff_of_session
    (hf : ofColumns partitionColumns orderColumns aggregates config.inputTypes = .ok f)
    (haggregates : config.aggregateTypes = f.aggregateTypes) (hsorted : f.Sorted rows)
    (hfeeds : f.Feeds rows config calls) :
    ∃ run, (WindowEngine.start config f.ops f.start).session calls = .ok run ∧
      (∀ column, (∃ row, run.refusal? = some (.aggregateFailed row (.sumOverflow column))) ↔
        f.LeavesFirst rows column) ∧
      (Overflowed run ↔
        ∃ column ∈ f.summedColumns, ∃ r < rows.length, f.LeavesRange rows column r) ∧
      ((∃ column ∈ f.summedColumns, ∃ r < rows.length, f.FrameLeavesRange rows column r) →
        Overflowed run) ∧
      (run.refusal? = none → ∀ rows' move calls' run', f.Reordered rows rows' move →
        f.Feeds rows' config calls' →
        (WindowEngine.start config f.ops f.start).session calls' = .ok run' →
        run'.refusal? = none → ∃ outs outs', f.Completes rows run outs ∧
          f.Completes rows' run' outs' ∧ ∀ r < rows.length, ∃ out out',
            outs[r]? = some out ∧ outs'[r]? = some out' ∧
            aggregatesOf config out' = aggregatesOf config out) := by
  have hs := hfeeds.stream hf hsorted
  have hreads := reads_of_mem_rowsOf hf hfeeds.regular hfeeds.rows_eq
  obtain ⟨run, hrun, hcases⟩ := hfeeds.session_eq hs haggregates
  have hcolumn := refusal?_eq_iff_leavesFirst hs hreads haggregates hcases
  have hiff : Overflowed run ↔
      ∃ column ∈ f.summedColumns, ∃ r < rows.length, f.LeavesRange rows column r := by
    rw [← exists_leavesFirst_iff hsorted hreads]
    constructor
    · rintro ⟨row, column, hsome⟩
      exact ⟨column, (hcolumn column).1 ⟨row, hsome⟩⟩
    · rintro ⟨column, hfirst⟩
      obtain ⟨row, hsome⟩ := (hcolumn column).2 hfirst
      exact ⟨row, column, hsome⟩
  refine ⟨run, hrun, hcolumn, hiff, ?_, ?_⟩
  · rintro ⟨column, hcolumn, r, hr, hframe⟩
    exact hiff.2 ⟨column, hcolumn, hframe.exists_leavesRange hr⟩
  · intro hnone rows' move calls' run' hreordered hfeeds' hrun' hnone'
    have hs' := hfeeds'.stream hf (hreordered.sorted hsorted)
    have hreads' := reads_of_mem_rowsOf hf hfeeds'.regular hfeeds'.rows_eq
    obtain ⟨run'', hrun'', hcases'⟩ := hfeeds'.session_eq hs' haggregates
    obtain rfl := Except.ok.inj (hrun'.symm.trans hrun'')
    rcases hcases with ⟨outs, hcompletes, hanswers⟩ | ⟨refusal, hsome, -⟩
    · rcases hcases' with ⟨outs', hcompletes', hanswers'⟩ | ⟨refusal, hsome, -⟩
      · exact ⟨outs, outs', hcompletes, hcompletes', fun r hr ↦
          hanswers.aggregatesOf_eq hanswers' hs hs' haggregates hreads hreads' hreordered hr⟩
      · cases hnone'.symm.trans hsome
    · cases hnone.symm.trans hsome

/-- The sum of a column whose rows are all peers. -/
def peakFrames : ColumnFrames := ⟨[], [], [.sum 0]⟩

/-- A window with that sum. -/
def peakConfig : WindowConfig := ⟨[.bigInt], [.bigInt], []⟩

/-- Rows of one integer each. -/
def peakRows (values : List Int64) : List Row := values.map fun value ↦ [some (.int64 value)]

/-- The rows in one block. -/
def peakCalls (values : List Int64) : List WindowCall :=
  [.push ⟨[.int64 (.ofValues values)], values.length⟩]

/-- Integers the sum of which is in range, in an order in which it is left on the way. -/
def climbing : List Int64 := [Int64.maxValue, 1, -2]

/-- The same integers in an order in which the range is never left. -/
def descending : List Int64 := [-2, Int64.maxValue, 1]

theorem feeds_climbing : peakFrames.Feeds (peakRows climbing) peakConfig (peakCalls climbing) :=
  ⟨rfl, by decide, nofun, trivial⟩

theorem feeds_descending :
    peakFrames.Feeds (peakRows descending) peakConfig (peakCalls descending) :=
  ⟨rfl, by decide, nofun, trivial⟩

theorem peerKey_peakRows {values : List Int64} {i : Nat} (h : i < (peakRows values).length) :
    peakFrames.peerKey (peakRows values) i = some ([], []) := by
  rw [peerKey, List.getElem?_eq_getElem h]
  rfl

/-- A session of the integers in an order in which the range is never left, and another one. -/
theorem overflowed_iff_of_session_descending : ∃ run run' outs outs',
    (WindowEngine.start peakConfig peakFrames.ops peakFrames.start).session
      (peakCalls descending) = .ok run ∧
    (WindowEngine.start peakConfig peakFrames.ops peakFrames.start).session
      (peakCalls [1, -2, Int64.maxValue]) = .ok run' ∧
    (¬∃ column ∈ peakFrames.summedColumns, ∃ r < (peakRows descending).length,
      peakFrames.LeavesRange (peakRows descending) column r) ∧
    peakFrames.Completes (peakRows descending) run outs ∧
    peakFrames.Completes (peakRows [1, -2, Int64.maxValue]) run' outs' ∧
    ∀ r < (peakRows descending).length, ∃ out out', outs[r]? = some out ∧
      outs'[r]? = some out' ∧ aggregatesOf peakConfig out' = aggregatesOf peakConfig out := by
  have hf : ofColumns [] [] [.sum 0] peakConfig.inputTypes = .ok peakFrames := rfl
  have hreordered : peakFrames.Reordered (peakRows descending)
      (peakRows [1, -2, Int64.maxValue]) fun i ↦ (i + 2) % 3 := by
    refine ⟨rfl, by decide, by decide, by decide, fun i hi ↦ ?_⟩
    exact (peerKey_peakRows (Nat.mod_lt _ (by decide))).trans (peerKey_peakRows hi).symm
  have hfeeds : peakFrames.Feeds (peakRows [1, -2, Int64.maxValue]) peakConfig
      (peakCalls [1, -2, Int64.maxValue]) :=
    ⟨rfl, by decide, nofun, trivial⟩
  obtain ⟨run, hrun, -, hiff, -, horder⟩ :=
    overflowed_iff_of_session hf rfl (by decide) feeds_descending
  obtain ⟨run₀, hrun₀, hnone⟩ : ∃ run,
      (WindowEngine.start peakConfig peakFrames.ops peakFrames.start).session
        (peakCalls descending) = .ok run ∧ run.refusal? = none :=
    ⟨_, rfl, rfl⟩
  obtain rfl := Except.ok.inj (hrun.symm.trans hrun₀)
  obtain ⟨run', hrun', hnone'⟩ : ∃ run',
      (WindowEngine.start peakConfig peakFrames.ops peakFrames.start).session
        (peakCalls [1, -2, Int64.maxValue]) = .ok run' ∧ run'.refusal? = none :=
    ⟨_, rfl, rfl⟩
  obtain ⟨outs, outs', hcompletes, hcompletes', hvalues⟩ :=
    horder hnone _ _ _ run' hreordered hfeeds hrun' hnone'
  have hnot := not_overflowed_of_completes hcompletes
  exact ⟨run, run', outs, outs', hrun, hrun', fun h ↦ hnot (hiff.2 h), hcompletes, hcompletes',
    hvalues⟩

/-- The sums of two columns whose rows are all peers. -/
def twinFrames : ColumnFrames := ⟨[], [], [.sum 0, .avg 1]⟩

/-- A window with these sums. -/
def twinConfig : WindowConfig := ⟨[.bigInt, .bigInt], [.bigInt, .double], []⟩

/-- Two rows of equal integers, the sum of which is out of range. -/
def twinRows : List Row :=
  [Int64.maxValue, 1].map fun value ↦ [some (.int64 value), some (.int64 value)]

/-- The rows in one block. -/
def twinCalls : List WindowCall :=
  [.push (pairBlock [Int64.maxValue, 1] [Int64.maxValue, 1] 2)]

/-- Peers in two orders, with one sum over the frame of all of them, which is in range: in one order
the session is stopped by the sum, in the other it is not. And peers with two sums that are both out
of range, of which only the one that is listed first is reported. -/
theorem overflowed_by_order :
    (∃ run run' move,
      (WindowEngine.start peakConfig peakFrames.ops peakFrames.start).session
        (peakCalls climbing) = .ok run ∧
      (WindowEngine.start peakConfig peakFrames.ops peakFrames.start).session
        (peakCalls descending) = .ok run' ∧
      peakFrames.Feeds (peakRows climbing) peakConfig (peakCalls climbing) ∧
      peakFrames.Feeds (peakRows descending) peakConfig (peakCalls descending) ∧
      peakFrames.Reordered (peakRows climbing) (peakRows descending) move ∧
      (¬∃ column ∈ peakFrames.summedColumns, ∃ r < (peakRows climbing).length,
        peakFrames.FrameLeavesRange (peakRows climbing) column r) ∧
      (∃ row, run.refusal? = some (.aggregateFailed row (.sumOverflow 0))) ∧ ¬Overflowed run') ∧
    ∃ run, (WindowEngine.start twinConfig twinFrames.ops twinFrames.start).session twinCalls =
        .ok run ∧
      twinFrames.Feeds twinRows twinConfig twinCalls ∧ 1 ∈ twinFrames.summedColumns ∧
      twinFrames.FrameLeavesRange twinRows 1 0 ∧
      ¬∃ row, run.refusal? = some (.aggregateFailed row (.sumOverflow 1)) := by
  have hkey (i : Nat) (hi : i < 3) : peakFrames.peerKey (peakRows climbing) i = some ([], []) :=
    peerKey_peakRows hi
  have hpeers {r : Nat} (hr : r < 3) : GroupAt (peakFrames.peerKey (peakRows climbing)) 3 r 0 3 :=
    ⟨Nat.le_refl 3, fun i hi ↦ iff_of_true ((hkey i hi).trans (hkey r hr).symm) ⟨Nat.zero_le i, hi⟩⟩
  have hpartition {r : Nat} (hr : r < 3) :
      GroupAt (peakFrames.partitionKey (peakRows climbing)) 3 r 0 3 :=
    ⟨Nat.le_refl 3, fun i hi ↦ iff_of_true
      (partitionKey_eq ((hkey i hi).trans (hkey r hr).symm)) ⟨Nat.zero_le i, hi⟩⟩
  refine ⟨⟨_, _, fun i ↦ (i + 2) % 3, rfl, rfl, feeds_climbing, feeds_descending,
    ⟨rfl, by decide, by decide, by decide, fun i hi ↦ ?_⟩, ?_, ⟨0, rfl⟩, ?_⟩, _, rfl,
    ⟨rfl, by decide, nofun, trivial⟩, by decide, ?_, ?_⟩
  · exact (hkey _ (Nat.mod_lt _ (by decide))).trans (hkey i hi).symm
  · rintro ⟨column, hcolumn, r, hr, first, size, peer, peers, hgroup, hgroup', hrange⟩
    obtain rfl := List.mem_singleton.1 hcolumn
    obtain ⟨rfl, -⟩ := (hpartition hr).unique hr hgroup
    obtain ⟨rfl, rfl⟩ := (hpeers hr).unique hr hgroup'
    exact hrange (by decide)
  · rintro ⟨row, column, hsome⟩
    cases hsome
  · exact ⟨0, 2, 0, 2, by decide, by decide, by decide⟩
  · rintro ⟨row, hsome⟩
    cases hsome

end ColumnFrames

end Columnar
