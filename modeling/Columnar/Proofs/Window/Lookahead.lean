import Columnar.Proofs.Window.AnyOrder
import Columnar.Proofs.Window.Sight

/-!
# What an engine has to see

An engine can advance before the input ends if it sees a row that is not tied to the last row of its
head. In a stream whose partitions and peers stand together this is neither too early nor too late.

* Not too late: every row behind the head is tied to it as long as the engine says that it can not
  advance (`Views.canAdvance_exact`). Rows that come next may be tied to it as well, so **no engine
  could do better** with what it has seen.
* Not too early: once it can advance, no row that comes later is tied to the head (`Stocked.apart`),
  whatever comes.

So what processing the head gives is the same however much of the rest was seen, and whether or not
the input is finished meanwhile (`Stocked.lookahead`). For this the engine is compared with one in
whose queue more blocks wait; that the two process their head alike is the subject of the module
about rows out of sight.

The engines are those that were fed (`Fed`): blocks were pushed, and heads were processed when the
engine said that it can advance. Some of these heads may have been refused, so nothing is known
about the partition that is open.
-/

namespace Columnar

namespace WindowEngine

variable {σ ε : Type}

/-- A row is seen behind the head that is not tied to the last row of the head. -/
def SeesEnd (e : WindowEngine σ ε) : Prop :=
  ∃ head rest, e.queue = head :: rest ∧
    ∃ ref ∈ rest.flatMap Block.refs, e.tied (head, head.length - 1) ref = .ok false

/-- More rows do not hide the end of a head. -/
theorem SeesEnd.append {e : WindowEngine σ ε} (h : e.SeesEnd) (more : List Block) :
    { e with queue := e.queue ++ more }.SeesEnd := by
  obtain ⟨head, rest, hqueue, ref, href, hfalse⟩ := h
  refine ⟨head, rest ++ more, congrArg (· ++ more) hqueue, ref, ?_, hfalse⟩
  rw [List.flatMap_append]
  exact List.mem_append_left _ href

/-- What becomes of an engine when blocks are pushed, and heads are processed when it says that it
can advance, whether or not they are refused. -/
inductive Fed (e₀ : WindowEngine σ ε) : List Block → WindowEngine σ ε → Prop
  | start : Fed e₀ [] e₀
  | push {blocks : List Block} {block : Block} {e e' : WindowEngine σ ε} : Fed e₀ blocks e →
    e.push block = .ok e' → Fed e₀ (blocks ++ [block]) e'
  | process {blocks : List Block} {e e' : WindowEngine σ ε}
    {result : Except (WindowError ε) Block} {events : List WindowEvent} : Fed e₀ blocks e →
    e.canAdvance = .ok true → e.process = .ok (e', result, events) → Fed e₀ blocks e'

end WindowEngine

namespace ColumnFrames

variable {f : ColumnFrames} {rows later : List Row} {types : List DataType}
  {e : WindowEngine (List Tally) FrameError} {head : Block} {rest blocks more : List Block}
  {base seen : Nat} {config : WindowConfig}

/-! ### Rows behind the head -/

/-- The rows behind the head are those of the stream from there on. -/
theorem Views.behind (hv : Views f rows base seen e) (hqueue : e.queue = head :: rest) :
    Shows rows (base + head.length) (rest.flatMap Block.refs) ∧
      base + head.length + (rest.flatMap Block.refs).length = seen := by
  have hrows := hv.from_row hqueue (Nat.le_refl head.length)
  rwa [hqueue, rowsFrom_length, rowsFrom_zero] at hrows

/-- While there is input, an engine can advance just if it sees a row that is not tied to the last
row of the head. -/
theorem Views.canAdvance_exact (hv : Views f rows base seen e) (hs : f.Stream types rows)
    (hnonempty : ∀ b ∈ e.queue, 0 < b.length) (hqueue : e.queue = head :: rest)
    (hopen : e.isFinished = false) :
    ∃ can, e.canAdvance = .ok can ∧
      (can = true → ∃ ref ∈ rest.flatMap Block.refs,
        e.tied (head, head.length - 1) ref = .ok false) ∧
      (can = false → ∀ ref ∈ rest.flatMap Block.refs,
        e.tied (head, head.length - 1) ref = .ok true) := by
  have hhead := hnonempty head (hqueue ▸ List.mem_cons_self)
  have hseen := hv.seen_le
  obtain ⟨hshows, hlength⟩ := hv.behind hqueue
  obtain ⟨x, hx, hread⟩ := hv.row_eq hqueue (Nat.sub_lt hhead Nat.one_pos)
  -- whether a row behind the head is tied depends on its position
  have htied {j : Nat} {ref : Block × Nat} (href : (rest.flatMap Block.refs)[j]? = some ref) :
      e.tied (head, head.length - 1) ref =
        .ok (decide (f.tieKey rows e.config.needsWholePartition (base + head.length + j) =
          f.tieKey rows e.config.needsWholePartition (base + (head.length - 1)))) := by
    obtain ⟨y, hy, hread'⟩ := hshows j ref href
    exact hs.tied_eq hv.ops_eq hread hx hread' hy
  refine ⟨_, hv.canAdvance_eq hs hnonempty hqueue hopen, fun hcan ↦ ?_, fun hcan ref href ↦ ?_⟩
  · rw [decide_eq_true_iff] at hcan
    -- the last row in sight is behind the head, as it is not tied to the last row of the head
    have hpos : 0 < (rest.flatMap Block.refs).length := by
      refine Nat.pos_of_ne_zero fun hzero ↦ hcan ?_
      rw [show seen - 1 = base + (head.length - 1) by omega]
    have hlast := List.getElem?_eq_getElem (Nat.sub_lt hpos Nat.one_pos)
    refine ⟨_, List.getElem_mem _, (htied hlast).trans ?_⟩
    rw [show base + head.length + ((rest.flatMap Block.refs).length - 1) = seen - 1 by omega,
      decide_eq_false hcan]
  · rw [decide_eq_false_iff_not, Decidable.not_not] at hcan
    obtain ⟨j, hj, rfl⟩ := List.getElem_of_mem href
    rw [htied (List.getElem?_eq_getElem hj)]
    -- what is between two rows that are tied is tied to them
    have hbetween := hs.sorted.ties e.config.needsWholePartition (base + (head.length - 1))
      (base + head.length + j) (seen - 1) (by omega) (by omega) (by omega) hcan.symm
    rw [decide_eq_true (hbetween.trans hcan)]

/-! ### Engines that were fed -/

/-- The rows of blocks are those of a stream that begins with them. -/
theorem shows_of_rowsOf (h : rowsOf blocks = .ok rows) (before later : List Row) :
    Shows (before ++ rows ++ later) before.length (blocks.flatMap Block.refs) ∧
      (blocks.flatMap Block.refs).length = rows.length := by
  induction blocks generalizing before rows with
  | nil =>
    obtain rfl : [] = rows := Except.ok.inj h
    exact ⟨nofun, rfl⟩
  | cons b blocks ih =>
    obtain ⟨xs, ys, hread, hrest, rfl⟩ := exists_of_rowsOf_cons h
    obtain ⟨hshows, hlength⟩ := ih hrest (before ++ xs)
    have hxs : b.refs.length = xs.length := by
      rw [Block.length_refs, Checked.length_of_mapM_eq_ok hread, List.length_range]
    rw [List.flatMap_cons]
    refine ⟨Shows.append ?_ ?_, ?_⟩
    · rw [← List.append_assoc, List.append_assoc _ ys later]
      exact shows_refs hread
    · rw [hxs, ← List.append_assoc, ← List.length_append]
      exact hshows
    · rw [List.length_append, List.length_append, hxs, hlength]

/-- Blocks that wait bring the last rows of the input in sight. -/
theorem views_of_suffix (hops : e.ops = f.ops) (hopen : e.isFinished = false)
    (hsuffix : e.queue <:+ blocks.flatMap WindowEngine.waiting) (hrows : rowsOf blocks = .ok rows)
    (later : List Row) : ∃ base, Views f (rows ++ later) base rows.length e := by
  obtain ⟨gone, hgone⟩ := hsuffix
  obtain ⟨hshows, hlength⟩ := shows_of_rowsOf hrows [] later
  rw [← WindowEngine.flatMap_refs_waiting, ← hgone, List.flatMap_append] at hshows hlength
  refine ⟨(gone.flatMap Block.refs).length, hops, ?_, ?_, ?_,
    fun h ↦ absurd (hopen.symm.trans h) Bool.false_ne_true⟩
  · have hqueue := hshows.drop (gone.flatMap Block.refs).length
    rw [rowsFrom_zero]
    rwa [List.drop_left, List.length_nil, Nat.zero_add] at hqueue
  · rw [rowsFrom_zero, ← List.length_append, hlength]
  · rw [List.length_append]
    exact Nat.le_add_right _ _

/-- An engine that was fed is in order, and the blocks that wait are the last ones of the input. -/
structure Stocked (f : ColumnFrames) (config : WindowConfig) (blocks : List Block)
    (e : WindowEngine (List Tally) FrameError) : Prop where
  sound : e.Sound (Block.WellFormed config.inputTypes) fun tallies ↦
    tallies.map Tally.aggregate = f.aggregates
  config_eq : e.config = config
  ops_eq : e.ops = f.ops
  open_eq : e.isFinished = false
  suffix : e.queue <:+ blocks.flatMap WindowEngine.waiting
  wellFormed : ∀ b ∈ blocks, b.WellFormed config.inputTypes

/-- A block that is pushed joins those that wait. -/
theorem Stocked.push (h : Stocked f config blocks e) {block : Block}
    (hblock : block.WellFormed block.types) {e' : WindowEngine (List Tally) FrameError}
    (hpush : e.push block = .ok e') : Stocked f config (blocks ++ [block]) e' := by
  obtain ⟨-, htypes, heq⟩ := WindowEngine.eq_of_push_eq_ok hpush
  have hblock : block.WellFormed config.inputTypes :=
    (htypes.trans (congrArg _ h.config_eq)) ▸ hblock
  obtain ⟨hsound, hconfig, hops⟩ := h.sound.push (fun _ ↦ hblock) hpush
  refine ⟨hsound, hconfig.trans h.config_eq, hops.trans h.ops_eq, ?_, ?_, fun b hb ↦ ?_⟩
  · rw [heq]
    exact h.open_eq
  · obtain ⟨gone, hgone⟩ := h.suffix
    rw [heq, List.flatMap_append, List.flatMap_singleton]
    exact ⟨gone, by rw [← List.append_assoc, hgone]⟩
  · rcases List.mem_append.1 hb with hb | hb
    · exact h.wellFormed b hb
    · exact List.mem_singleton.1 hb ▸ hblock

theorem stocked_of_fed (hf : f.Fits config.inputTypes)
    (h : (WindowEngine.start config f.ops f.start).Fed blocks e)
    (hblocks : ∀ b ∈ blocks, b.WellFormed b.types) : Stocked f config blocks e := by
  induction h with
  | start =>
    exact ⟨.start (lawful_ops hf) (map_aggregate_start f) config, rfl, rfl, rfl,
      List.suffix_refl [], nofun⟩
  | push _ hpush ih =>
    exact (ih fun b hb ↦ hblocks b (List.mem_append_left _ hb)).push
      (hblocks _ (List.mem_append_right _ List.mem_cons_self)) hpush
  | process _ _ hprocess ih =>
    have hih := ih hblocks
    obtain ⟨hsound, hconfig, hops, hfinished, hsuffix⟩ := hih.sound.process_gives.of_eq_ok hprocess
    exact ⟨hsound, hconfig.trans hih.config_eq, hops.trans hih.ops_eq,
      hfinished.trans hih.open_eq, hsuffix.trans hih.suffix, hih.wellFormed⟩

/-- An engine that was fed says that it can advance just if it sees the end of its head; otherwise
it sees only rows that are tied to that. -/
theorem Stocked.canAdvance_exact (h : Stocked f config blocks e)
    (hs : f.Stream config.inputTypes (rows ++ later)) (hrows : rowsOf blocks = .ok rows) :
    ∃ can, e.canAdvance = .ok can ∧ (can = true ↔ e.SeesEnd) ∧
      (can = false → ∀ head rest, e.queue = head :: rest → ∀ ref ∈ rest.flatMap Block.refs,
        e.tied (head, head.length - 1) ref = .ok true) := by
  obtain ⟨base, hv⟩ := views_of_suffix h.ops_eq h.open_eq h.suffix hrows later
  cases hqueue : e.queue with
  | nil =>
    refine ⟨false, by simp [WindowEngine.canAdvance, hqueue], ?_, fun _ _ _ hcons ↦ ?_⟩
    · refine iff_of_false Bool.false_ne_true ?_
      rintro ⟨head, rest, hcons, -⟩
      cases hqueue.symm.trans hcons
    · cases hcons
  | cons head rest =>
    obtain ⟨can, hcan, hsees, hall⟩ := hv.canAdvance_exact hs h.sound.nonempty hqueue h.open_eq
    refine ⟨can, hcan, ⟨fun htrue ↦ ⟨head, rest, hqueue, hsees htrue⟩, ?_⟩, ?_⟩
    · rintro ⟨head', rest', hqueue', ref, href, hfalse⟩
      obtain ⟨rfl, rfl⟩ := List.cons.inj (hqueue.symm.trans hqueue')
      cases can with
      | true => rfl
      | false => cases (hall rfl ref href).symm.trans hfalse
    · rintro hfalse head' rest' hcons
      obtain ⟨rfl, rfl⟩ := List.cons.inj hcons
      exact hall hfalse

/-- Blocks that are pushed come behind those that wait. -/
theorem Stocked.push_all (h : Stocked f config blocks e)
    (hmore : ∀ b ∈ more, b.WellFormed config.inputTypes) :
    ∃ e', e.feed (more.map .push) = .ok ⟨e', [], none⟩ ∧
      e' = { e with queue := e.queue ++ more.flatMap WindowEngine.waiting } ∧
      Stocked f config (blocks ++ more) e' := by
  induction more generalizing e blocks with
  | nil =>
    refine ⟨e, rfl, ?_, ?_⟩
    · rw [List.flatMap_nil, List.append_nil]
    · rwa [List.append_nil]
  | cons b more ih =>
    have hb := hmore b List.mem_cons_self
    have hpush := WindowEngine.push_eq_ok h.open_eq
      (hb.types_eq.trans (congrArg _ h.config_eq).symm)
    obtain ⟨e', hfeed, heq, hstocked⟩ :=
      ih (h.push (hb.types_eq.symm ▸ hb) hpush) fun b hb ↦ hmore b (List.mem_cons_of_mem _ hb)
    refine ⟨e', ?_, ?_, ?_⟩
    · simp only [List.map_cons, WindowEngine.feed, WindowEngine.call, hpush, Checked.pure_eq_ok,
        Checked.ok_bind, hfeed]
      rfl
    · rw [heq, List.flatMap_cons, List.append_assoc]
    · rwa [List.append_assoc, List.singleton_append] at hstocked

/-- Rows that come later are not tied to a row of a head that can be processed. -/
theorem Stocked.apart (h : Stocked f config blocks e) (hs : f.Stream types (rows ++ later))
    (hrows : rowsOf blocks = .ok rows) (hlater : rowsOf more = .ok later)
    (hqueue : e.queue = head :: rest) (hcan : e.canAdvance = .ok true) :
    ∀ row < head.length, ∀ b ∈ more, ∀ other < b.length,
      e.ops.peers head row b other = .ok false ∧
        (e.config.needsWholePartition = true →
          e.ops.samePartition head row b other = .ok false) := by
  obtain ⟨base, hv⟩ := views_of_suffix h.ops_eq h.open_eq h.suffix hrows later
  have hsettled := hv.settled hs h.sound.nonempty hqueue hcan
  intro row hrow b hb other hother
  obtain ⟨x, hx, hread⟩ := hv.row_eq hqueue hrow
  obtain ⟨j, y, hy, hread'⟩ := exists_position_of_mem hlater hb hother
  have hposition : (rows ++ later)[rows.length + j]? = some y := by
    rwa [List.getElem?_append_right (Nat.le_add_right _ _), Nat.add_sub_cancel_left]
  have hlt := (List.getElem?_eq_some_iff.1 hposition).1
  have hstop : base + row < base + head.length := Nat.add_lt_add_left hrow base
  rw [h.ops_eq, hs.peers_eq hread hx hread' hposition,
    hs.samePartition_eq hread hx hread' hposition,
    decide_eq_false (hsettled.peers _ _ hstop (Nat.le_add_right _ _) hlt)]
  refine ⟨rfl, fun hneeds ↦ ?_⟩
  rw [decide_eq_false (hsettled.partitions hneeds _ _ hstop (Nat.le_add_right _ _) hlt)]

/-- Later rows widen what is in sight behind a head whose end is seen. -/
theorem Stocked.widens (h : Stocked f config blocks e) (hqueue : e.queue = head :: rest)
    (hbehind : 0 < (rest.flatMap Block.refs).length)
    (hmore : ∀ b ∈ more, b.WellFormed config.inputTypes)
    (hapart : ∀ row < head.length, ∀ b ∈ more, ∀ other < b.length,
      e.ops.peers head row b other = .ok false ∧
        (e.config.needsWholePartition = true → e.ops.samePartition head row b other = .ok false))
    (isFinished : Bool) :
    WindowEngine.Widens head rest (more.flatMap WindowEngine.waiting) e { e with
      queue := e.queue ++ more.flatMap WindowEngine.waiting
      isFinished := isFinished } := by
  have hknown {ref : Block × Nat}
      (href : ref ∈ (more.flatMap WindowEngine.waiting).flatMap Block.refs) :
      ref.1 ∈ more ∧ ref.2 < ref.1.length := by
    rw [WindowEngine.flatMap_refs_waiting, ← rowsFrom_zero] at href
    exact exists_of_mem_rowsFrom href
  have hhead : head ∈ e.queue := hqueue ▸ List.mem_cons_self
  refine ⟨hqueue, congrArg (· ++ _) hqueue, rfl, rfl, rfl, rfl,
    h.sound.nonempty head hhead, hbehind,
    fun p hp ↦ (h.sound.unprocessed p hp).remaining_le, fun row hrow ref href ↦ ?_,
    fun row hrow ref href ↦ ?_, fun hneeds row hrow ref href ↦ ?_⟩
  · obtain ⟨hmem, hlt⟩ := hknown href
    exact h.sound.lawful.samePartition.answers (a := (head, row))
      ⟨h.sound.accepted head hhead, hrow⟩ ⟨hmore _ hmem, hlt⟩
  · obtain ⟨hmem, hlt⟩ := hknown href
    exact (hapart row hrow _ hmem _ hlt).1
  · obtain ⟨hmem, hlt⟩ := hknown href
    exact (hapart row hrow _ hmem _ hlt).2 hneeds

/-- With its end in sight a head is told apart from all that comes later, and what processing it
gives does not depend on how much of that came before. -/
theorem Stocked.lookahead (h : Stocked f config blocks e)
    (hs : f.Stream config.inputTypes (rows ++ later)) (hrows : rowsOf blocks = .ok rows)
    (hlater : rowsOf more = .ok later) (hmore : ∀ b ∈ more, b.WellFormed config.inputTypes)
    (hcan : e.canAdvance = .ok true) :
    ∃ head rest, e.queue = head :: rest ∧
      (∀ row < head.length, ∀ b ∈ more, ∀ other < b.length,
        e.tied (head, row) (b, other) = .ok false) ∧
      ∃ e' result, e.feed (more.map .push) = .ok ⟨e', [], none⟩ ∧ e'.canAdvance = .ok true ∧
        e.answer = .ok result ∧ e'.answer = .ok result ∧ e'.finish.1.answer = .ok result := by
  obtain ⟨can, heq, hiff, -⟩ := h.canAdvance_exact hs hrows
  have hsees : e.SeesEnd := hiff.1 (Except.ok.inj (heq.symm.trans hcan))
  have hstill := hsees.append (more.flatMap WindowEngine.waiting)
  obtain ⟨head, rest, hqueue, ref, href, -⟩ := hsees
  have hapart := h.apart hs hrows hlater hqueue hcan
  have hwidens := h.widens hqueue (List.length_pos_of_mem href) hmore hapart
  obtain ⟨e', hfeed, he', hstocked'⟩ := h.push_all hmore
  -- the end of the head is still seen
  have hcan' : e'.canAdvance = .ok true := by
    have hs' : f.Stream config.inputTypes (rows ++ later ++ []) := (List.append_nil _).symm ▸ hs
    obtain ⟨can', heq', hiff', -⟩ := hstocked'.canAdvance_exact hs' (rowsOf_append hrows hlater)
    rw [heq', hiff'.2 (he' ▸ hstill)]
  obtain ⟨⟨e₁, result, events⟩, hprocess, -⟩ := h.sound.process_gives
  have hanswer : e.answer = .ok result := by
    rw [WindowEngine.answer, hprocess]
    rfl
  have hopen' : { e with
      queue := e.queue ++ more.flatMap WindowEngine.waiting
      isFinished := false } = e' := by
    rw [he', ← h.open_eq]
  refine ⟨head, rest, hqueue, fun row hrow b hb other hother ↦ ?_,
    e', result, hfeed, hcan', hanswer,
    hopen' ▸ (hwidens false).answer_eq.trans hanswer, ?_⟩
  · obtain ⟨hpeers, hpartitions⟩ := hapart row hrow b hb other hother
    rw [WindowEngine.tied]
    split_ifs with hneeds
    · exact hpartitions hneeds
    · exact hpeers
  · rw [he']
    exact (hwidens true).answer_eq.trans hanswer

variable {partitionColumns orderColumns : List Nat} {aggregates : List Aggregate}

/-- While there is input, an engine that processes heads only when it can advance says that it can
just if it sees a row that is not tied to the last row of its head; otherwise every row behind the
head is tied to that. If it can, then however the input goes on no later row is tied to a row of the
head, the engine can still advance after later pushes, and processing the head gives the same
whichever of them, or the end of the input, came before. -/
theorem lookahead_of_fed
    (hf : ofColumns partitionColumns orderColumns aggregates config.inputTypes = .ok f)
    (hfed : (WindowEngine.start config f.ops f.start).Fed blocks e)
    (hblocks : ∀ b ∈ blocks, b.WellFormed b.types) (hrows : rowsOf blocks = .ok rows)
    (hsorted : f.Sorted rows) :
    (∃ can, e.canAdvance = .ok can ∧ (can = true ↔ e.SeesEnd) ∧
      (can = false → ∀ head rest, e.queue = head :: rest → ∀ ref ∈ rest.flatMap Block.refs,
        e.tied (head, head.length - 1) ref = .ok true)) ∧
    (e.canAdvance = .ok true → ∀ more later,
      (∀ b ∈ more, b.WellFormed config.inputTypes) → rowsOf more = .ok later →
      f.Sorted (rows ++ later) →
      ∃ head rest, e.queue = head :: rest ∧
        (∀ row < head.length, ∀ b ∈ more, ∀ other < b.length,
          e.tied (head, row) (b, other) = .ok false) ∧
        ∃ e' result, e.feed (more.map .push) = .ok ⟨e', [], none⟩ ∧ e'.canAdvance = .ok true ∧
          e.answer = .ok result ∧ e'.answer = .ok result ∧ e'.finish.1.answer = .ok result) := by
  have hfits := fits_of_ofColumns hf
  have hstocked := stocked_of_fed hfits hfed hblocks
  have hlength {blocks : List Block} {rows : List Row}
      (hblocks : ∀ b ∈ blocks, b.WellFormed config.inputTypes) (hrows : rowsOf blocks = .ok rows) :
      ∀ x ∈ rows, x.length = config.inputTypes.length :=
    length_of_mem_rowsOf (fun b hb ↦ (hblocks b hb).toRegular) hrows
  refine ⟨?_, fun hcan more later hmore hlater hsorted' ↦ ?_⟩
  · have hs : f.Stream config.inputTypes (rows ++ []) := by
      rw [List.append_nil]
      exact ⟨hfits, hlength hstocked.wellFormed hrows, hsorted⟩
    exact hstocked.canAdvance_exact hs hrows
  · have hs : f.Stream config.inputTypes (rows ++ later) := by
      refine ⟨hfits, fun x hx ↦ ?_, hsorted'⟩
      rcases List.mem_append.1 hx with hx | hx
      · exact hlength hstocked.wellFormed hrows x hx
      · exact hlength hmore hlater x hx
    exact hstocked.lookahead hs hrows hlater hmore hcan

/-- Of three pairs the first two were pushed, and the first one can be processed. -/
theorem lookahead_of_fed_pairs : ∃ e e' result,
    (WindowEngine.start pairConfig pairFrames.ops pairFrames.start).Fed
        [pairBlock [1, 7] [1, 7] 1, pairBlock [2] [1] 1] e ∧ e.canAdvance = .ok true ∧
      e.feed [.push (pairBlock [2] [3] 1)] = .ok ⟨e', [], none⟩ ∧
      e.answer = .ok result ∧ e'.answer = .ok result ∧ e'.finish.1.answer = .ok result := by
  have hf : ofColumns [0] [1] [.sum 1] pairConfig.inputTypes = .ok pairFrames := rfl
  obtain ⟨e, hfed, hcan⟩ : ∃ e,
      (WindowEngine.start pairConfig pairFrames.ops pairFrames.start).Fed
        ([] ++ [pairBlock [1, 7] [1, 7] 1] ++ [pairBlock [2] [1] 1]) e ∧ e.canAdvance = .ok true :=
    ⟨_, .push (.push .start rfl) rfl, rfl⟩
  have hrows : rowsOf [pairBlock [1, 7] [1, 7] 1, pairBlock [2] [1] 1] = .ok (pairRows.take 2) :=
    rfl
  have hblocks : ∀ b ∈ [pairBlock [1, 7] [1, 7] 1, pairBlock [2] [1] 1], b.WellFormed b.types := by
    intro b hb
    rcases List.mem_cons.1 hb with rfl | hb
    · exact wellFormed_pairBlock rfl (by decide)
    · obtain rfl := List.mem_singleton.1 hb
      exact wellFormed_pairBlock rfl (by decide)
  have hmore : ∀ b ∈ [pairBlock [2] [3] 1], b.WellFormed pairConfig.inputTypes := by
    intro b hb
    obtain rfl := List.mem_singleton.1 hb
    exact wellFormed_pairBlock rfl (by decide)
  obtain ⟨head, rest, -, -, e', result, hfeed, -, hresult, hresult₁, hresult₂⟩ :=
    (lookahead_of_fed hf hfed hblocks hrows (by decide)).2 hcan
      [pairBlock [2] [3] 1] (pairRows.drop 2) hmore rfl (by decide)
  exact ⟨e, e', result, hfed, hcan, hfeed, hresult, hresult₁, hresult₂⟩

end ColumnFrames

end Columnar
