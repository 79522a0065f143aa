import Columnar.Proofs.Window.FrameCalls

/-!
# The calls for a head

While a head is processed the calls that an engine makes on its operations stay in order for the
partitions that it opens, although a frame is aggregated before it is written and may reach into
blocks that are processed by later calls.

What carries this from row to row are the counters of the open partition: **the rows that are left
of its frame are those that were only aggregated** (`Booked`). So the list of calls needs no
bookkeeping of its own. A partition is opened with a reset (`Booked.openPartition`), a frame with as
many calls as it has rows (`Booked.newFrame`), and a row that is written is one less that is left
(`Booked.advance`); rows that are counted later or that arrive change nothing.

It rests on the comparisons alone, so these have to be equivalences, and the other operations may do
anything. Lemmas about lawful operations are used by way of `bare`, which is the engine with its
aggregation taken away: it compares rows alike, and what an engine counts depends on nothing else.
-/

namespace Columnar

variable {σ τ ε : Type}

/-- The rows of a partition that were aggregated and are still to be written. -/
def Partition.ahead (open? : Option Partition) : Nat := open?.elim 0 Partition.peers

/-- A partition that is the last one of some, before the rows that wait. -/
structure Partition.Ends (ops : FrameOps τ ε) (refs : List (Block × Nat))
    (earlier : List (List (List (Block × Nat)))) (frames : List (List (Block × Nat)))
    (p : Partition) : Prop where
  rowNumber_add : p.rowNumber + p.peers = frames.flatten.length + 1
  together : Together ops.samePartition (frames.flatten ++ refs.take p.remaining)
  nonempty : [] ∉ earlier

/-- The calls are in order for the partitions that were opened, and the open one is the last. -/
structure Booked (ops : FrameOps τ ε) (open? : Option Partition) (refs written : List (Block × Nat))
    (calls : List FrameCall) (metrics : WindowMetrics)
    (partitions : List (List (List (Block × Nat)))) : Prop where
  inOrder : InOrder ops partitions written (refs.take (Partition.ahead open?)) calls
  partitions_eq : metrics.partitions = partitions.length
  frames_eq : metrics.frames = partitions.flatten.length
  none_open : open? = none → [] ∉ partitions
  some_open : ∀ p, open? = some p →
    ∃ earlier frames, partitions = earlier ++ [frames] ∧ p.Ends ops refs earlier frames

namespace Booked

variable {ops : FrameOps τ ε} {refs written : List (Block × Nat)} {calls : List FrameCall}
  {metrics : WindowMetrics} {partitions : List (List (List (Block × Nat)))} {p : Partition}
  {isFinished : Bool}

/-- Nothing was called yet. -/
theorem start (ops : FrameOps τ ε) : Booked ops none [] [] [] {} [] :=
  ⟨.start, rfl, rfl, fun _ ↦ List.not_mem_nil, nofun⟩

/-- A partition is opened with the rows that were counted. -/
theorem openPartition (h : Booked ops none refs written calls metrics partitions) {length : Nat}
    (hsame : Together ops.samePartition (refs.take length)) (isFinal : Bool) :
    Booked ops (some (.start length isFinal)) refs written (calls ++ [.reset])
      { metrics with partitions := metrics.partitions + 1 } (partitions ++ [[]]) where
  inOrder := h.inOrder.reset
  partitions_eq := by rw [List.length_append, ← h.partitions_eq]; rfl
  frames_eq := by rw [List.flatten_append, List.length_append]; exact h.frames_eq
  none_open := nofun
  some_open p hp := by
    obtain rfl := Option.some.inj hp
    exact ⟨partitions, [], rfl, rfl, hsame, h.none_open rfl⟩

/-- A frame is opened with the rows that were counted. -/
theorem newFrame (h : Booked ops (some p) refs written calls metrics partitions)
    (hdone : p.isFrameDone = true) {count : Nat} (hpos : 0 < count) (hle : count ≤ p.remaining)
    (hlength : p.remaining ≤ refs.length) (hpeers : Together ops.peers (refs.take count)) :
    ∃ partitions, Booked ops (some (p.newFrame count)) refs written
      (calls ++ FrameCall.aggregates (refs.take count))
      { metrics with frames := metrics.frames + 1 } partitions := by
  obtain ⟨earlier, frames, rfl, hends⟩ := h.some_open p rfl
  have hzero : p.peers = 0 := beq_iff_eq.1 hdone
  have htaken : (refs.take count).length = count :=
    List.length_take_of_le (Nat.le_trans hle hlength)
  have hsub : ∀ ref ∈ refs.take count, ref ∈ refs.take p.remaining :=
    fun _ href ↦ List.take_subset_take_left refs hle href
  have hinOrder := h.inOrder
  rw [show Partition.ahead (some p) = 0 from hzero, List.take_zero] at hinOrder
  refine ⟨earlier ++ [frames ++ [refs.take count]], hinOrder.frame ?_ hpeers ?_, ?_, ?_, nofun,
    fun p' hp' ↦ ?_⟩
  · exact List.ne_nil_of_length_pos (by rwa [htaken])
  · exact hends.together.mono fun ref href ↦ (List.mem_append.1 href).elim
      (List.mem_append_left _) fun href ↦ List.mem_append_right _ (hsub ref href)
  · have hpartitions := h.partitions_eq
    rw [List.length_append] at hpartitions ⊢
    exact hpartitions
  · have hframes := h.frames_eq
    simp only [List.flatten_append, List.flatten_singleton, List.length_append] at hframes ⊢
    rw [hframes, Nat.add_assoc]
    rfl
  · obtain rfl := Option.some.inj hp'
    refine ⟨earlier, _, rfl, ?_, ?_, hends.nonempty⟩
    · have hadd := hends.rowNumber_add
      rw [List.flatten_append, List.length_append, List.flatten_singleton, htaken]
      show p.rowNumber + count = _
      omega
    · refine hends.together.mono fun ref href ↦ ?_
      rw [List.flatten_append, List.flatten_singleton] at href
      rcases List.mem_append.1 href with href | href
      · exact (List.mem_append.1 href).elim (List.mem_append_left _)
          fun href ↦ List.mem_append_right _ (hsub ref href)
      · exact List.mem_append_right _ href

/-- A row is written and left behind. -/
theorem advance {ref : Block × Nat}
    (h : Booked ops (some p) (ref :: refs) written calls metrics partitions)
    (hat : p.AtRow ops isFinished (ref :: refs)) :
    Booked ops (if p.advance.isDone then none else some p.advance) refs (written ++ [ref])
      (calls ++ [.write ref.2]) metrics partitions := by
  obtain ⟨earlier, frames, rfl, hends⟩ := h.some_open p rfl
  obtain ⟨peers, hpeers⟩ := Nat.exists_eq_add_one.2 hat.peers_pos
  obtain ⟨remaining, hremaining⟩ := Nat.exists_eq_add_one.2 hat.remaining_pos
  have hle := hat.peers_le
  have hadd := hends.rowNumber_add
  have hpeers' : p.advance.peers = peers := by rw [Partition.advance, hpeers, Nat.add_sub_cancel]
  have hremaining' : p.advance.remaining = remaining := by
    rw [Partition.advance, hremaining, Nat.add_sub_cancel]
  have hinOrder : InOrder ops (earlier ++ [frames]) (written ++ [ref]) (refs.take peers)
      (calls ++ [.write ref.2]) := by
    have := h.inOrder
    rw [show Partition.ahead (some p) = peers + 1 from hpeers, List.take_succ_cons] at this
    exact this.write
  cases hdone : p.advance.isDone with
  | true =>
    have hzero : remaining = 0 := hremaining' ▸ beq_iff_eq.1 hdone
    obtain rfl : peers = 0 := by omega
    refine ⟨hinOrder, h.partitions_eq, h.frames_eq, fun _ ↦ ?_, nofun⟩
    rw [List.mem_append, List.mem_singleton, not_or]
    refine ⟨hends.nonempty, fun hnil ↦ ?_⟩
    have hrank := hat.rank_le
    have hpos := hat.denseRank_pos
    have hdense := hat.denseRank_le
    rw [← hnil, List.flatten_nil, List.length_nil] at hadd
    omega
  | false =>
    refine ⟨?_, h.partitions_eq, h.frames_eq, nofun, fun p' hp' ↦ ?_⟩
    · rwa [if_neg Bool.false_ne_true, show Partition.ahead (some p.advance) = peers from hpeers']
    · obtain rfl := Option.some.inj hp'
      refine ⟨earlier, frames, rfl, ?_, ?_, hends.nonempty⟩
      · rw [hpeers']
        show p.rowNumber + 1 + peers = _
        omega
      · refine hends.together.mono fun b hb ↦ ?_
        rw [hremaining'] at hb
        rw [hremaining, List.take_succ_cons]
        exact (List.mem_append.1 hb).elim (List.mem_append_left _)
          fun hb ↦ List.mem_append_right _ (List.mem_cons_of_mem ref hb)

/-- More rows of the open partition are counted. -/
theorem extend (h : Booked ops (some p) refs written calls metrics partitions) {p' : Partition}
    (hpeers : p'.peers = p.peers) (hrow : p'.rowNumber = p.rowNumber)
    (hsame : ∀ earlier frames, partitions = earlier ++ [frames] →
      Together ops.samePartition (frames.flatten ++ refs.take p.remaining) →
        Together ops.samePartition (frames.flatten ++ refs.take p'.remaining)) :
    Booked ops (some p') refs written calls metrics partitions := by
  refine ⟨?_, h.partitions_eq, h.frames_eq, nofun, fun q hq ↦ ?_⟩
  · rw [show Partition.ahead (some p') = Partition.ahead (some p) from hpeers]
    exact h.inOrder
  · obtain rfl := Option.some.inj hq
    obtain ⟨earlier, frames, hpartitions, hends⟩ := h.some_open p rfl
    exact ⟨earlier, frames, hpartitions, hrow ▸ hpeers ▸ hends.rowNumber_add,
      hsame earlier frames hpartitions hends.together, hends.nonempty⟩

/-- Rows that arrive change nothing for those that were counted. -/
theorem append {open? : Option Partition}
    (h : Booked ops open? refs written calls metrics partitions)
    (hopen : ∀ p, open? = some p → p.Unprocessed ops isFinished refs) (more : List (Block × Nat)) :
    Booked ops open? (refs ++ more) written calls metrics partitions := by
  refine ⟨?_, h.partitions_eq, h.frames_eq, h.none_open, fun p hp ↦ ?_⟩
  · rw [List.take_append_of_le_length]
    · exact h.inOrder
    · cases open? with
      | none => exact Nat.zero_le _
      | some p => exact Nat.le_trans (hopen p rfl).peers_le (hopen p rfl).remaining_le
  · obtain ⟨earlier, frames, hpartitions, hends⟩ := h.some_open p hp
    refine ⟨earlier, frames, hpartitions, hends.rowNumber_add, ?_, hends.nonempty⟩
    rw [List.take_append_of_le_length (hopen p hp).remaining_le]
    exact hends.together

end Booked

/-! ### The head -/

namespace WindowEngine

/-- The engine without its aggregation. It compares rows alike. -/
def bare (e : WindowEngine σ ε) : WindowEngine Unit ε :=
  { e with
    aggregation := ()
    ops :=
      { samePartition := e.ops.samePartition
        peers := e.ops.peers
        aggregate := fun _ _ _ ↦ return ((), .ok ())
        write := fun _ output _ ↦ return ((), output, .ok ())
        reset := fun _ ↦ ((), true) } }

variable {accepts : Block → Prop} {e : WindowEngine (σ × List FrameCall) ε} {head : Block}
  {rest : List Block} {row : Nat} {p p' : Partition} {written : List (Block × Nat)}
  {progress progress' : Progress (σ × List FrameCall)}

/-- What is built before a row of the head, with the calls noted. -/
structure Builds (e : WindowEngine (σ × List FrameCall) ε) (row : Nat)
    (written : List (Block × Nat)) (progress : Progress (σ × List FrameCall)) : Prop where
  unprocessed : ∀ p, progress.open? = some p →
    p.Unprocessed e.bare.ops e.isFinished (rowsFrom e.queue row)
  booked : ∃ partitions, Booked e.bare.ops progress.open? (rowsFrom e.queue row) written
    progress.aggregation.2 progress.metrics partitions

/-- The partition of a row of the head, with the calls noted. -/
structure Locates (e : WindowEngine (σ × List FrameCall) ε) (row : Nat)
    (written : List (Block × Nat)) (progress : Progress (σ × List FrameCall)) (p : Partition) :
    Prop where
  atRow : p.AtRow e.bare.ops e.isFinished (rowsFrom e.queue row)
  booked : ∃ partitions, Booked e.bare.ops (some p) (rowsFrom e.queue row) written
    progress.aggregation.2 progress.metrics partitions

/-- Rows that are aggregated are noted. -/
theorem calls_of_aggregateRows (hnotes : e.ops.Notes) {refs : List (Block × Nat)}
    {s t : σ × List FrameCall} (h : e.aggregateRows s refs = .ok (t, .ok ())) :
    t.2 = s.2 ++ FrameCall.aggregates refs := by
  induction refs generalizing s with
  | nil =>
    obtain ⟨rfl, -⟩ := Prod.mk.inj (Except.ok.inj h)
    exact (List.append_nil _).symm
  | cons ref refs ih =>
    obtain ⟨⟨u, result⟩, haggregate, h⟩ := exists_of_bind_eq_ok h
    cases result with
    | error cause => cases (Prod.mk.inj (Except.ok.inj h)).2
    | ok =>
      rw [ih h, hnotes.aggregate haggregate, List.append_assoc]
      rfl

/-- A partition that is opened is noted. -/
theorem booked_of_openPartition (hsound : Sound accepts (fun _ ↦ True) e.bare)
    (hnotes : e.ops.Notes) (hqueue : e.queue = head :: rest) (hrow : row < head.length)
    {partitions : List (List (List (Block × Nat)))}
    (hbooked : Booked e.bare.ops none (rowsFrom e.queue row) written progress.aggregation.2
      progress.metrics partitions)
    (h : e.openPartition head row progress = .ok (progress', .ok p)) :
    (p.Counted e.bare.ops e.isFinished (rowsFrom e.queue row) ∧ p.rank < p.rowNumber ∧
      p.isFrameDone = true) ∧
      Booked e.bare.ops (some p) (rowsFrom e.queue row) written progress'.aggregation.2
        progress'.metrics (partitions ++ [[]]) := by
  obtain ⟨length, hlength, h⟩ := exists_of_bind_eq_ok h
  have hrefs : rowsFrom e.queue row = (head, row) :: rowsFrom e.queue (row + 1) := by
    rw [hqueue, rowsFrom_succ hrow]
  have hcounted := hsound.lawful.samePartition.counted
    (fun b hb ↦ hsound.rowOf row b (hrefs.symm ▸ hb : b ∈ rowsFrom e.queue row))
  rw [← hrefs] at hcounted
  obtain ⟨hpos, hle, hsame, hapart⟩ := hcounted.of_eq_ok hlength
  have hreset := hnotes.reset progress.aggregation
  generalize e.ops.reset progress.aggregation = reset at h hreset
  obtain ⟨aggregation, done⟩ := reset
  cases done with
  | false => cases (Prod.mk.inj (Except.ok.inj h)).2
  | true =>
    obtain ⟨rfl, hp⟩ := Prod.mk.inj (Except.ok.inj h)
    obtain rfl := Except.ok.inj hp
    refine ⟨⟨.start hpos hle hsame hapart fun hseen ↦ ?_, Nat.zero_lt_one, rfl⟩, ?_⟩
    · rwa [Bool.or_eq_true, decide_eq_true_iff] at hseen
    · rw [show aggregation.2 = _ from hreset]
      exact hbooked.openPartition hsame _

/-- A frame that is opened is noted. -/
theorem locates_of_openFrame (hsound : Sound accepts (fun _ ↦ True) e.bare) (hnotes : e.ops.Notes)
    (hqueue : e.queue = head :: rest) (hrow : row < head.length)
    (hp : p.Counted e.bare.ops e.isFinished (rowsFrom e.queue row)) (hrank : p.rank < p.rowNumber)
    (hdone : p.isFrameDone = true) {partitions : List (List (List (Block × Nat)))}
    (hbooked : Booked e.bare.ops (some p) (rowsFrom e.queue row) written progress.aggregation.2
      progress.metrics partitions)
    (h : e.openFrame head row p progress = .ok (progress', .ok p')) :
    Locates e row written progress' p' := by
  obtain ⟨count, hcount, h⟩ := exists_of_bind_eq_ok h
  obtain ⟨⟨aggregation, result⟩, haggregate, h⟩ := exists_of_bind_eq_ok h
  cases result with
  | error cause => cases (Prod.mk.inj (Except.ok.inj h)).2
  | ok =>
    obtain ⟨rfl, hp'⟩ := Prod.mk.inj (Except.ok.inj h)
    obtain rfl := Except.ok.inj hp'
    obtain ⟨hpos, hle, hpeers⟩ := (hsound.countPeers_gives hqueue hrow hp).of_eq_ok hcount
    have hcalls := calls_of_aggregateRows hnotes haggregate
    rw [List.take_take, Nat.min_eq_left hle] at hcalls
    refine ⟨hp.newFrame hrank hpos hle hpeers, ?_⟩
    rw [show aggregation.2 = _ from hcalls]
    exact hbooked.newFrame hdone hpos hle hp.remaining_le hpeers

/-- The partition of a row is found or opened, and its frame noted. -/
theorem Builds.locates (hb : Builds e row written progress)
    (hsound : Sound accepts (fun _ ↦ True) e.bare) (hnotes : e.ops.Notes)
    (hqueue : e.queue = head :: rest) (hrow : row < head.length)
    (h : e.partitionAt head row progress = .ok (progress', .ok p)) :
    Locates e row written progress' p := by
  obtain ⟨partitions, hbooked⟩ := hb.booked
  rw [partitionAt] at h
  cases hopen : progress.open? with
  | some q =>
    rw [hopen] at h hbooked
    simp only [Checked.pure_eq_ok, Checked.ok_bind] at h
    have hq := hb.unprocessed q hopen
    cases hdone : q.isFrameDone with
    | true =>
      simp only [hdone, if_true] at h
      exact locates_of_openFrame hsound hnotes hqueue hrow hq.toCounted hq.rank_lt hdone hbooked h
    | false =>
      simp only [hdone, Bool.false_eq_true, if_false] at h
      obtain ⟨rfl, hp⟩ := Prod.mk.inj (Except.ok.inj h)
      obtain rfl := Except.ok.inj hp
      exact ⟨hq.atRow (Nat.pos_of_ne_zero (ne_of_beq_false hdone)), partitions, hbooked⟩
  | none =>
    rw [hopen] at h hbooked
    obtain ⟨⟨found, opened⟩, hopened, h⟩ := exists_of_bind_eq_ok h
    cases opened with
    | error refusal => cases (Prod.mk.inj (Except.ok.inj h)).2
    | ok q =>
      obtain ⟨⟨hq, hrank, hdone⟩, hbooked⟩ :=
        booked_of_openPartition hsound hnotes hqueue hrow hbooked hopened
      simp only [hdone, if_true] at h
      exact locates_of_openFrame hsound hnotes hqueue hrow hq hrank hdone hbooked h

/-- A row of the head is processed and noted. -/
theorem Builds.processRow (hb : Builds e row written progress)
    (hsound : Sound accepts (fun _ ↦ True) e.bare) (hnotes : e.ops.Notes)
    (hqueue : e.queue = head :: rest) (hrow : row < head.length)
    (h : e.processRow head row progress = .ok (progress', .ok ())) :
    Builds e (row + 1) (written ++ [(head, row)]) progress' := by
  obtain ⟨⟨found, located⟩, hlocated, h⟩ := exists_of_bind_eq_ok h
  cases located with
  | error refusal => cases (Prod.mk.inj (Except.ok.inj h)).2
  | ok p =>
    obtain ⟨⟨aggregation, aggregates, result⟩, hwrite, h⟩ := exists_of_bind_eq_ok h
    cases result with
    | error cause => cases (Prod.mk.inj (Except.ok.inj h)).2
    | ok =>
      simp only at h
      cases hrankings : (writeRankings p row e.config.rankings found.rankings :
          Except (WindowError ε) (List Column)) with
      | error refusal =>
        rw [hrankings] at h
        cases (Prod.mk.inj (Except.ok.inj h)).2
      | ok rankings =>
        rw [hrankings] at h
        obtain ⟨rfl, -⟩ := Prod.mk.inj (Except.ok.inj h)
        obtain ⟨hat, partitions, hbooked⟩ := hb.locates hsound hnotes hqueue hrow hlocated
        have hrefs : rowsFrom e.queue row = (head, row) :: rowsFrom e.queue (row + 1) := by
          rw [hqueue, rowsFrom_succ hrow]
        rw [hrefs] at hat hbooked
        refine ⟨fun q hq ↦ ?_, partitions, ?_⟩
        · cases hdone : p.advance.isDone with
          | true => simp [hdone] at hq
          | false =>
            obtain rfl : p.advance = q := by simpa [hdone] using hq
            exact hat.advance hdone
        · rw [show aggregation.2 = _ from hnotes.write hwrite]
          exact hbooked.advance hat

/-- The rows of the head are processed from one on and noted. -/
theorem Builds.processRows (hb : Builds e row written progress)
    (hsound : Sound accepts (fun _ ↦ True) e.bare) (hnotes : e.ops.Notes)
    (hqueue : e.queue = head :: rest) {count : Nat} (hcount : row + count = head.length)
    (h : e.processRows head (List.range' row count) progress = .ok (progress', .ok ())) :
    Builds e head.length (written ++ (List.range' row count).map (head, ·)) progress' := by
  induction count generalizing row written progress with
  | zero =>
    obtain ⟨rfl, -⟩ := Prod.mk.inj (Except.ok.inj h)
    obtain rfl : row = head.length := hcount
    rw [List.range'_zero, List.map_nil, List.append_nil]
    exact hb
  | succ count ih =>
    rw [List.range'_succ] at h ⊢
    obtain ⟨⟨left, result⟩, hrow, h⟩ := exists_of_bind_eq_ok h
    cases result with
    | error refusal => cases (Prod.mk.inj (Except.ok.inj h)).2
    | ok =>
      have := ih (hb.processRow hsound hnotes hqueue (by omega) hrow) (by omega) h
      rwa [List.append_assoc] at this

end WindowEngine

end Columnar
