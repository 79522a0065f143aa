import Columnar.Proofs.Window.Tallies

/-!
# Places in a stream

What a window says about a row, from the whole stream at once, with no engine in sight. These are
the notions in which the results about sessions are stated.

## Output rows

The place of a row (`IsPlace`) is where its partition and its peers are, as stretches of the stream,
and how many groups of peers there are up to its own. The rankings follow from it in closed form
(`Place.value`). The output row of a position (`Emits`) is the row itself, the aggregates over its
partition up to its last peer, and these rankings. A row has one place, so it has one output row
(`Emits.unique`), and **a stream has one list of output rows** (`Answers.unique`): a session that
gives them back leaves nothing open.

## Overflows

A partition overflows if the tallies of its rows up to some point fail. Where that is matters too.
`OverflowsAt` is about the single row that can not be taken in, behind rows that can, and about the
column that is reported there; `OverflowsFrom` is about the first such row from a position on. Every
overflow has such a row (`overflows_iff_exists_overflowsAt`), and a row with an output row is not
one (`Emits.not_overflowsAt`), so a session that gave back all rows before a position has to look
for the first overflow only from there on (`OverflowsFrom.of_le`).
-/

namespace Columnar

/-- The place of a row: its position in the stream, the stretches of its partition and of its peers,
and the number of peer groups in the partition up to its own. -/
structure Place where
  position : Nat
  first : Nat
  size : Nat
  peer : Nat
  peers : Nat
  group : Nat
  deriving DecidableEq, Repr

/-- The value of a ranking at a place. -/
def Place.value (place : Place) : Ranking → Scalar
  | .rowNumber => .int64 (.ofNat (place.position - place.first + 1))
  | .rank => .int64 (.ofNat (place.peer - place.first + 1))
  | .denseRank => .int64 (.ofNat place.group)
  | .percentRank => .double
    (if place.size = 1 then .zero else .ratio (place.peer - place.first) (place.size - 1))
  | .cumeDist => .double (.ratio (place.peer - place.first + place.peers) place.size)

namespace ColumnFrames

variable (f : ColumnFrames) (rows : List Row)

/-- The place of a position. -/
structure IsPlace (position : Nat) (place : Place) : Prop where
  position_eq : place.position = position
  partition : GroupAt (f.partitionKey rows) rows.length position place.first place.size
  peers : GroupAt (f.peerKey rows) rows.length position place.peer place.peers
  group_eq : place.group = groupsFrom (f.peerKey rows) place.first (place.peer + 1)

/-- The output row of a position: the row itself, the aggregates over its partition up to its last
peer, and the rankings of its place. -/
def Emits (rankings : List Ranking) (position : Nat) (out : Row) : Prop :=
  ∃ x place tallies, rows[position]? = some x ∧ f.IsPlace rows position place ∧
    f.tally rows place.first (place.peer + place.peers) = .ok tallies ∧
    out = x ++ tallies.map Tally.value ++ rankings.map fun ranking ↦ some (place.value ranking)

/-- Some partition has a sum out of range, as soon as its rows up to some point are taken. -/
def Overflows : Prop :=
  ∃ first last column, Cut (f.partitionKey rows) rows.length first ∧ last ≤ rows.length ∧
    (∀ i, first ≤ i → i < last → f.partitionKey rows i = f.partitionKey rows first) ∧
    f.tally rows first last = .error (.sumOverflow column)

/-- The row in a position is the one of its partition that takes a sum of a column out of range: the
rows before it can be taken. -/
structure OverflowsAt (position column : Nat) : Prop where
  lt_length : position < rows.length
  exists_first : ∃ first ≤ position, Cut (f.partitionKey rows) rows.length first ∧
    (∀ i, first ≤ i → i ≤ position → f.partitionKey rows i = f.partitionKey rows first) ∧
    (∃ tallies, f.tally rows first position = .ok tallies) ∧
    f.tally rows first (position + 1) = .error (.sumOverflow column)

/-- Of the rows from a position on the first one that takes a sum out of range does so in this
column. -/
def OverflowsFrom (base column : Nat) : Prop :=
  ∃ position ≥ base, f.OverflowsAt rows position column ∧
    ∀ i, base ≤ i → i < position → ∀ column', ¬f.OverflowsAt rows i column'

variable {f rows}

theorem IsPlace.unique {position : Nat} {place place' : Place} (h : f.IsPlace rows position place)
    (hlt : position < rows.length) (h' : f.IsPlace rows position place') : place' = place := by
  obtain ⟨hfirst, hsize⟩ := h.partition.unique hlt h'.partition
  obtain ⟨hpeer, hpeers⟩ := h.peers.unique hlt h'.peers
  have hgroup := h'.group_eq
  rw [hfirst, hpeer, ← h.group_eq] at hgroup
  have hposition := h'.position_eq.trans h.position_eq.symm
  cases place
  cases place'
  simp_all

/-- A row has one output row. -/
theorem Emits.unique {rankings : List Ranking} {position : Nat} {out out' : Row}
    (h : f.Emits rows rankings position out) (h' : f.Emits rows rankings position out') :
    out' = out := by
  obtain ⟨x, place, tallies, hx, hplace, htally, rfl⟩ := h
  obtain ⟨x', place', tallies', hx', hplace', htally', rfl⟩ := h'
  obtain rfl := hplace.unique (List.getElem?_eq_some_iff.1 hx).1 hplace'
  obtain rfl := Option.some.inj (hx.symm.trans hx')
  obtain rfl := Except.ok.inj (htally.symm.trans htally')
  rfl

/-! ### Rows that take sums out of range -/

/-- A stretch that overflows has a row that takes the sum out of range, behind rows that can be
taken. -/
theorem exists_overflowsAt {first last column : Nat}
    (hcut : Cut (f.partitionKey rows) rows.length first) (hle : first ≤ last)
    (hlast : last ≤ rows.length)
    (hsame : ∀ i, first ≤ i → i < last → f.partitionKey rows i = f.partitionKey rows first)
    (h : f.tally rows first last = .error (.sumOverflow column)) :
    ∃ position tallies, first ≤ position ∧ position < last ∧
      f.tally rows first position = .ok tallies ∧ f.OverflowsAt rows position column := by
  induction hle with
  | refl =>
    rw [tally_of_le f rows (Nat.le_refl first)] at h
    cases h
  | @step last hle ih =>
    cases hbefore : f.tally rows first last with
    | error cause =>
      obtain rfl := Except.error.inj ((tally_eq_error hle (Nat.le_succ last) hbefore).symm.trans h)
      obtain ⟨position, tallies, hfirst, hlt, htaken, hat⟩ := ih (Nat.le_of_succ_le hlast)
        (fun i hi hi' ↦ hsame i hi (Nat.lt_succ_of_lt hi')) hbefore
      exact ⟨position, tallies, hfirst, Nat.lt_succ_of_lt hlt, htaken, hat⟩
    | ok tallies =>
      exact ⟨last, tallies, hle, Nat.lt_succ_self last, hbefore, hlast, first, hle, hcut,
        fun i hi hi' ↦ hsame i hi (Nat.lt_succ_of_le hi'), ⟨tallies, hbefore⟩, h⟩

theorem overflows_iff_exists_overflowsAt :
    f.Overflows rows ↔ ∃ position column, f.OverflowsAt rows position column := by
  constructor
  · rintro ⟨first, last, column, hcut, hlast, hsame, herror⟩
    rcases Nat.le_total first last with hle | hle
    · obtain ⟨position, -, -, -, -, hat⟩ := exists_overflowsAt hcut hle hlast hsame herror
      exact ⟨position, column, hat⟩
    · rw [tally_of_le f rows hle] at herror
      cases herror
  · rintro ⟨position, column, hlt, first, hle, hcut, hsame, -, herror⟩
    exact ⟨first, position + 1, column, hcut, hlt,
      fun i hi hi' ↦ hsame i hi (Nat.le_of_lt_succ hi'), herror⟩

/-- A row that takes a sum out of range is not among rows of its partition that can be taken. -/
theorem OverflowsAt.not_taken {position column first last : Nat} {tallies : List Tally}
    (h : f.OverflowsAt rows position column) (hcut : Cut (f.partitionKey rows) rows.length first)
    (hle : first ≤ position) (hlt : position < last)
    (hkey : f.partitionKey rows position = f.partitionKey rows first) :
    f.tally rows first last ≠ .ok tallies := by
  obtain ⟨hposition, first', hle', hcut', hsame, -, herror⟩ := h
  have hkey' := hsame position hle' (Nat.le_refl position)
  -- both stretches begin where the partition does
  obtain rfl : first' = first := by
    rcases Nat.lt_trichotomy first' first with hbefore | rfl | hbehind
    · exact absurd hkey'.symm (hcut first' position hbefore hle hposition)
    · rfl
    · exact absurd hkey.symm (hcut' first position hbehind hle' hposition)
  intro hok
  rw [tally_eq_error (Nat.le_succ_of_le hle') hlt herror] at hok
  cases hok

/-- A stretch that can be taken up to some row and overflows behind it: the first row from there on
that takes a sum out of range takes that of the column that is reported. -/
theorem overflowsFrom_of_tally {first middle last column : Nat} {tallies : List Tally}
    (hcut : Cut (f.partitionKey rows) rows.length first) (hfirst : first ≤ middle)
    (hle : middle ≤ last) (hlast : last ≤ rows.length)
    (hsame : ∀ i, first ≤ i → i < last → f.partitionKey rows i = f.partitionKey rows first)
    (hok : f.tally rows first middle = .ok tallies)
    (h : f.tally rows first last = .error (.sumOverflow column)) :
    f.OverflowsFrom rows middle column := by
  obtain ⟨position, taken, hge, hlt, htaken, hat⟩ :=
    exists_overflowsAt hcut (Nat.le_trans hfirst hle) hlast hsame h
  refine ⟨position, Nat.le_of_not_lt fun hbefore ↦ ?_, hat, fun i hi hi' column' hat' ↦ ?_⟩
  · exact hat.not_taken hcut hge hbefore (hsame position hge hlt) hok
  · have hfirst' := Nat.le_trans hfirst hi
    exact hat'.not_taken hcut hfirst' hi' (hsame i hfirst' (Nat.lt_trans hi' hlt)) htaken

/-- A row that has an output row takes no sum out of range. -/
theorem Emits.not_overflowsAt {rankings : List Ranking} {position : Nat} {out : Row}
    (h : f.Emits rows rankings position out) (column : Nat) :
    ¬f.OverflowsAt rows position column := by
  intro hat
  obtain ⟨x, place, tallies, -, hplace, htally, -⟩ := h
  have hpartition := hplace.partition.mem hat.lt_length
  have hpeers := hplace.peers.mem hat.lt_length
  obtain ⟨first, hle, hcut, hsame, -⟩ := hat.exists_first
  have hkey := hsame position hle (Nat.le_refl position)
  obtain rfl := hplace.partition.first_eq_of_cut hat.lt_length hcut hle hkey.symm
  exact hat.not_taken hcut hle (by omega) hkey htally

/-- Where a row takes a sum out of range there is a first one that does. -/
theorem OverflowsAt.exists_overflowsFrom {position column : Nat}
    (h : f.OverflowsAt rows position column) : ∃ column', f.OverflowsFrom rows 0 column' := by
  induction position using Nat.strongRecOn generalizing column with
  | ind position ih =>
    by_cases hearlier : ∃ i < position, ∃ column', f.OverflowsAt rows i column'
    · obtain ⟨i, hlt, column', hat⟩ := hearlier
      exact ih i hlt hat
    · exact ⟨column, position, Nat.zero_le position, h,
        fun i _ hlt column' hat ↦ hearlier ⟨i, hlt, column', hat⟩⟩

/-- What is behind rows none of which takes a sum out of range. -/
theorem OverflowsFrom.of_le {base middle column : Nat} (h : f.OverflowsFrom rows middle column)
    (hle : base ≤ middle)
    (hnone : ∀ i, base ≤ i → i < middle → ∀ column', ¬f.OverflowsAt rows i column') :
    f.OverflowsFrom rows base column := by
  obtain ⟨position, hge, hat, hfirst⟩ := h
  refine ⟨position, Nat.le_trans hle hge, hat, fun i hi hi' ↦ ?_⟩
  rcases Nat.lt_or_ge i middle with hlt | hge
  · exact hnone i hi hlt
  · exact hfirst i hge hi'

/-! ### Blocks of output rows -/

/-- Blocks that read as the output rows of the positions from `base` on and before `stop`. -/
def Shown (f : ColumnFrames) (rows : List Row) (rankings : List Ranking) (base stop : Nat)
    (blocks : List Block) : Prop :=
  ∃ outs, rowsOf blocks = .ok outs ∧ base + outs.length = stop ∧
    ∀ j out, outs[j]? = some out → f.Emits rows rankings (base + j) out

theorem Shown.nil (f : ColumnFrames) (rows : List Row) (rankings : List Ranking) (base : Nat) :
    f.Shown rows rankings base base [] :=
  ⟨[], rfl, rfl, fun _ _ h ↦ by simp at h⟩

theorem Shown.append {rankings : List Ranking} {base middle stop : Nat}
    {blocks blocks' : List Block} (h : f.Shown rows rankings base middle blocks)
    (h' : f.Shown rows rankings middle stop blocks') :
    f.Shown rows rankings base stop (blocks ++ blocks') := by
  obtain ⟨outs, houts, rfl, hemits⟩ := h
  obtain ⟨outs', houts', rfl, hemits'⟩ := h'
  refine ⟨outs ++ outs', rowsOf_append houts houts', ?_, fun j out hout ↦ ?_⟩
  · rw [List.length_append, Nat.add_assoc]
  · rcases Nat.lt_or_ge j outs.length with hlt | hge
    · exact hemits j out (by rwa [List.getElem?_append_left hlt] at hout)
    · rw [List.getElem?_append_right hge] at hout
      have := hemits' _ out hout
      rwa [Nat.add_assoc, Nat.add_sub_cancel' hge] at this

/-! ### All output rows -/

/-- The output rows of all positions of a stream. -/
structure Answers (f : ColumnFrames) (rows : List Row) (rankings : List Ranking)
    (outs : List Row) : Prop where
  length_eq : outs.length = rows.length
  emits : ∀ j out, outs[j]? = some out → f.Emits rows rankings j out

variable {rankings : List Ranking} {outs outs' : List Row}

/-- Blocks of all output rows. -/
theorem Shown.answers {blocks : List Block} (h : f.Shown rows rankings 0 rows.length blocks) :
    ∃ outs, rowsOf blocks = .ok outs ∧ f.Answers rows rankings outs := by
  obtain ⟨outs, houts, hlength, hemits⟩ := h
  refine ⟨outs, houts, by rwa [Nat.zero_add] at hlength, fun j out hout ↦ ?_⟩
  have := hemits j out hout
  rwa [Nat.zero_add] at this

/-- A stream has one list of output rows. -/
theorem Answers.unique (h : f.Answers rows rankings outs) (h' : f.Answers rows rankings outs') :
    outs' = outs := by
  refine List.ext_getElem (h'.length_eq.trans h.length_eq.symm) fun j hj hj' ↦ ?_
  exact (h.emits j _ (List.getElem?_eq_getElem hj')).unique
    (h'.emits j _ (List.getElem?_eq_getElem hj))

/-- Where every row has an output row nothing overflows. -/
theorem Answers.not_overflows (h : f.Answers rows rankings outs) : ¬f.Overflows rows := by
  intro hoverflows
  obtain ⟨position, column, hat⟩ := overflows_iff_exists_overflowsAt.1 hoverflows
  have hlt : position < outs.length := h.length_eq.symm ▸ hat.lt_length
  exact (h.emits position _ (List.getElem?_eq_getElem hlt)).not_overflowsAt column hat

/-- Output rows begin with the rows they are for. -/
theorem Answers.map_take (h : f.Answers rows rankings outs) {width : Nat}
    (hwidth : ∀ x ∈ rows, x.length = width) : outs.map (List.take width) = rows := by
  refine List.ext_getElem (by rw [List.length_map, h.length_eq]) fun j hj hj' ↦ ?_
  rw [List.length_map] at hj
  obtain ⟨x, place, tallies, hx, -, -, hout⟩ := h.emits j _ (List.getElem?_eq_getElem hj)
  obtain rfl := Option.some.inj ((List.getElem?_eq_getElem hj').symm.trans hx)
  rw [List.getElem_map, hout, List.append_assoc]
  exact List.take_left' (hwidth _ (List.getElem_mem hj'))

end ColumnFrames

end Columnar
