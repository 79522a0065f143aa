import Columnar.Proofs.KeyTable.Reachable

/-!
# Cleared tables

A table that was cleared is a fresh start. Clearing puts back all that makes up a table without keys
(`clear_eq`), so what could tell such a table from a new one is only what it counted before. But no
operation reads what was counted: each does to a table with earlier counts (`since`) what it does to
the table without them, and adds to the counts the same.

## A commutation, not an invariant

The laws have one shape: an operation on `t.since earlier` is the operation on `t`, with `earlier`
put in front of the result. They are shown operation by operation, from the links of a slot to a
call (`call_since`), in the order in which the operations are built from each other, and carried
through a run by induction (`run_since`). **No soundness is assumed.** A table may be as broken as
it likes; it is broken in the same way with other counts.

## What is left different

`Indistinct` says all there is to say about two such tables: they are equal but for their metrics,
and these differ by what was counted before the table was cleared. Since this holds after every call
behind the clearing, the difference never changes (`indistinct_of_clear`).
-/

namespace Columnar

/-- Counts added up. -/
def TableMetrics.add (earlier later : TableMetrics) : TableMetrics where
  puts := earlier.puts + later.puts
  probes := earlier.probes + later.probes
  resizes := earlier.resizes + later.resizes

namespace KeyTable

variable {ε α : Type}

/-- The table, with earlier counts before its own. -/
def since (earlier : TableMetrics) (t : KeyTable ε) : KeyTable ε :=
  { t with metrics := earlier.add t.metrics }

variable (earlier : TableMetrics) (t : KeyTable ε)

/-! ### Slots and chains -/

theorem changeSegment_since (index : Nat) (change : Nat → Segment → Checked (Segment × α)) :
    (t.since earlier).changeSegment index change =
      Prod.map (since earlier) id <$> t.changeSegment index change := by
  have hsegments : (t.since earlier).segments = t.segments := rfl
  have hlayout : (t.since earlier).layout = t.layout := rfl
  simp only [changeSegment, hsegments, hlayout]
  cases Checked.change t.segments (t.layout.split index).segment _ <;> rfl

theorem setLink_since (index : Nat) (link : Link) :
    (t.since earlier).setLink index link = since earlier <$> t.setLink index link := by
  rw [setLink, setLink, changeSegment_since]
  cases t.changeSegment index _ <;> rfl

theorem follow_since (fuel : Nat) (link : Link) :
    (t.since earlier).follow fuel link = t.follow fuel link := by
  induction fuel generalizing link with
  | zero => cases link <;> rfl
  | succ fuel ih =>
    cases link with
    | vacant | nil => rfl
    | next index =>
      have hlink : (t.since earlier).linkAt index = t.linkAt index := rfl
      simp only [follow, hlink, ih]

theorem chain_since (bucket : Nat) : (t.since earlier).chain bucket = t.chain bucket := by
  have hstart : (t.since earlier).buckets = t.buckets := rfl
  simp only [chain, hstart, follow_since]
  rfl

/-! ### Finding keys -/

theorem search_since (hash : UInt32) (test : Block → Nat → Checked Bool) (slots : List Nat) :
    (t.since earlier).search hash test slots = t.search hash test slots := by
  induction slots with
  | nil => rfl
  | cons index slots ih =>
    have hsegment : (t.since earlier).segmentOf index = t.segmentOf index := rfl
    have hlayout : (t.since earlier).layout = t.layout := rfl
    simp only [search, hsegment, hlayout, ih]

theorem find_since (hash : UInt32) (test : Block → Nat → Checked Bool) :
    (t.since earlier).find hash test = t.find hash test := by
  rw [find, find, chain_since]
  simp only [search_since]
  rfl

theorem index?_since (input : Block) (row : Nat) :
    (t.since earlier).index? input row = t.index? input row := by
  have hops : (t.since earlier).ops = t.ops := rfl
  simp only [index?, hops, find_since]

theorem probeIndex?_since (probe : Block) (row : Nat) :
    (t.since earlier).probeIndex? probe row = t.probeIndex? probe row := by
  have hops : (t.since earlier).ops = t.ops := rfl
  simp only [probeIndex?, hops, find_since]

/-! ### Growing -/

theorem linkBehind_since (tail? : Option Nat) (bucket index : Nat) :
    (t.since earlier).linkBehind tail? bucket index =
      since earlier <$> t.linkBehind tail? bucket index := by
  cases tail? with
  | none => rfl
  | some tail => exact setLink_since earlier t tail (.next index)

theorem relinkFrom_since (slots : List (Nat × UInt32)) (tails : Array (Option Nat))
    (t : KeyTable ε) :
    relinkFrom slots tails (t.since earlier) = since earlier <$> relinkFrom slots tails t := by
  induction slots generalizing tails t with
  | nil => rfl
  | cons slot slots ih =>
    have hbucket : (t.since earlier).bucketOf slot.2 = t.bucketOf slot.2 := rfl
    rw [relinkFrom, relinkFrom, setLink_since, hbucket]
    cases t.setLink slot.1 .nil with
    | error trap => rfl
    | ok u =>
      show (Checked.entry tails _ >>= fun _ ↦ (u.since earlier).linkBehind _ _ _ >>= _) = _
      rw [Checked.ok_bind]
      cases Checked.entry tails (t.bucketOf slot.2) with
      | error trap => rfl
      | ok tail? =>
        rw [Checked.ok_bind, Checked.ok_bind, linkBehind_since]
        cases u.linkBehind tail? (t.bucketOf slot.2) slot.1 with
        | error trap => rfl
        | ok v => exact ih _ v

theorem grow_since : (t.since earlier).grow = since earlier <$> t.grow := by
  by_cases hceiling : t.config.maxCapacity ≤ t.buckets.size
  · have hceiling' : (t.since earlier).config.maxCapacity ≤ (t.since earlier).buckets.size :=
      hceiling
    rw [grow, grow, if_pos hceiling, if_pos hceiling']
    rfl
  · have hceiling' : ¬(t.since earlier).config.maxCapacity ≤ (t.since earlier).buckets.size :=
      hceiling
    rw [grow, grow, if_neg hceiling, if_neg hceiling']
    exact relinkFrom_since earlier t.occupied _ { t with
      buckets := Array.replicate (2 * t.buckets.size) .nil
      threshold := t.config.threshold (2 * t.buckets.size)
      metrics.resizes := t.metrics.resizes + 1 }

theorem growIfFull_since (hash : UInt32) (tail? : Option Nat) :
    (t.since earlier).growIfFull hash tail? =
      Prod.map (since earlier) id <$> t.growIfFull hash tail? := by
  by_cases hfull : t.threshold ≤ t.entries
  · have hfull' : (t.since earlier).threshold ≤ (t.since earlier).entries := hfull
    rw [growIfFull, growIfFull, if_pos hfull, if_pos hfull', grow_since]
    cases t.grow with
    | error trap => rfl
    | ok u =>
      have hbucket : (u.since earlier).bucketOf hash = u.bucketOf hash := rfl
      show ((u.since earlier).chain _ >>= _) = _
      rw [chain_since, hbucket, Checked.ok_bind]
      cases u.chain (u.bucketOf hash) <;> rfl
  · have hfull' : ¬(t.since earlier).threshold ≤ (t.since earlier).entries := hfull
    rw [growIfFull, growIfFull, if_neg hfull, if_neg hfull']
    rfl

theorem allocate_since :
    (t.since earlier).allocate = Prod.map (since earlier) id <$> t.allocate := by
  by_cases hroom : t.freeIndex ≤ IndexLayout.maxIndex
  · have hroom' : (t.since earlier).freeIndex ≤ IndexLayout.maxIndex := hroom
    rw [allocate, allocate, if_pos hroom, if_pos hroom']
    rfl
  · have hroom' : ¬(t.since earlier).freeIndex ≤ IndexLayout.maxIndex := hroom
    rw [allocate, allocate, if_neg hroom, if_neg hroom']
    rfl

/-! ### Adding keys -/

theorem insert_since (index : Nat) (hash : UInt32) (tail? : Option Nat) (input : Block)
    (row : Nat) :
    (t.since earlier).insert index hash tail? input row =
      Prod.map (since earlier) id <$> t.insert index hash tail? input row := by
  have hops : (t.since earlier).ops = t.ops := rfl
  rw [insert, insert, hops, changeSegment_since]
  rcases t.changeSegment index _ with trap | ⟨u, cause | ⟨⟩⟩
  · rfl
  · rfl
  · have hlink := linkBehind_since earlier u tail? (u.bucketOf hash) index
    simp only [Functor.map, Except.map, Prod.map, id, Checked.ok_bind] at hlink ⊢
    rw [show (u.since earlier).bucketOf hash = u.bucketOf hash from rfl, hlink]
    cases u.linkBehind tail? (u.bucketOf hash) index <;> rfl

/-- What is counted of a put is added to what was counted before. -/
theorem counted_since (visited : Nat) :
    (t.since earlier).counted visited = (t.counted visited).since earlier := by
  rw [counted, counted, since, since, TableMetrics.add, TableMetrics.add]
  simp only [Nat.add_assoc]

theorem putNew_since (hash : UInt32) (tail? : Option Nat) (input : Block) (row : Nat) :
    (t.since earlier).putNew hash tail? input row =
      Prod.map (since earlier) id <$> t.putNew hash tail? input row := by
  rw [putNew, putNew, allocate_since]
  rcases t.allocate with refusal | ⟨u, index⟩
  · rfl
  · show ((u.since earlier).growIfFull hash tail? >>= _) = Prod.map (since earlier) id <$>
      (u.growIfFull hash tail? >>= _)
    rw [growIfFull_since]
    rcases u.growIfFull hash tail? with trap | ⟨grown, tail?⟩
    · rfl
    · exact insert_since earlier grown index hash tail? input row

theorem put_since (input : Block) (row : Nat) :
    (t.since earlier).put input row = Prod.map (since earlier) id <$> t.put input row := by
  have hops : (t.since earlier).ops = t.ops := rfl
  have hbucket (hash : UInt32) : (t.since earlier).bucketOf hash = t.bucketOf hash := rfl
  rw [put_eq, put_eq, hops]
  cases t.ops.hash input row with
  | error trap => rfl
  | ok hash =>
    simp only [Checked.ok_bind, hbucket, chain_since, search_since]
    cases t.chain (t.bucketOf hash) with
    | error trap => rfl
    | ok slots =>
      rw [Checked.ok_bind, Checked.ok_bind]
      rcases t.search hash (t.ops.agrees input row) slots with trap | ⟨_ | index, visited⟩
      · rfl
      · show ((t.since earlier).counted visited).putNew hash slots.getLast? input row =
          Prod.map (since earlier) id <$> (t.counted visited).putNew hash slots.getLast? input row
        rw [counted_since, putNew_since]
      · show Except.ok ((t.since earlier).counted visited, _) =
          Except.ok ((t.counted visited).since earlier, _)
        rw [counted_since]
        rfl

/-! ### Writing keys out -/

theorem outputNext_since (count : Nat) (t : KeyTable ε) (output : Block) (row : Nat) :
    outputNext count (t.since earlier) output row =
      Prod.map (since earlier) id <$> outputNext count t output row := by
  induction count generalizing t output row with
  | zero => rfl
  | succ count ih =>
    have hsegment : (t.since earlier).segmentOf (t.since earlier).outputCursor =
        t.segmentOf t.outputCursor := rfl
    rw [outputNext, outputNext]
    simp only [hsegment]
    cases t.segmentOf t.outputCursor with
    | error trap => rfl
    | ok segment =>
      rw [Checked.ok_bind, Checked.ok_bind]
      show (segment.isOccupied (t.layout.split t.outputCursor).offset >>= _) = _
      rcases segment.isOccupied (t.layout.split t.outputCursor).offset with trap | _ | _
      · rfl
      · exact ih { t with outputCursor := t.outputCursor + 1 } output row
      · show (t.ops.emit segment.keys (t.layout.split t.outputCursor).offset output row >>= _) = _
        rcases t.ops.emit segment.keys (t.layout.split t.outputCursor).offset output row with
          trap | ⟨output', cause | _ | _⟩
        · rfl
        · rfl
        · rfl
        · exact ih { t with
            outputCursor := t.outputCursor + 1
            outputCount := t.outputCount + 1 } output' (row + 1)

theorem outputAll_since (output : Block) :
    (t.since earlier).outputAll output = Prod.map (since earlier) id <$> t.outputAll output :=
  outputNext_since earlier _ t output output.length

/-! ### Calls -/

/-- An operation does the same whatever was counted before. -/
theorem call_since (call : TableCall) :
    (t.since earlier).call call = Prod.map (since earlier) id <$> t.call call := by
  cases call with
  | put input row =>
    rw [KeyTable.call, KeyTable.call, put_since]
    cases t.put input row <;> rfl
  | lookUp input row =>
    rw [KeyTable.call, KeyTable.call, index?_since]
    cases t.index? input row <;> rfl
  | probe probe row =>
    rw [KeyTable.call, KeyTable.call, probeIndex?_since]
    cases t.probeIndex? probe row <;> rfl
  | outputAll output =>
    rw [KeyTable.call, KeyTable.call, outputAll_since]
    cases t.outputAll output <;> rfl
  | resetOutput | clear => rfl

/-- A run does the same whatever was counted before. -/
theorem run_since (calls : List TableCall) :
    (t.since earlier).run calls = Prod.map (since earlier) id <$> t.run calls := by
  induction calls generalizing t with
  | nil => rfl
  | cons call calls ih =>
    rw [run, run, call_since]
    rcases t.call call with trap | ⟨u, answer⟩
    · rfl
    · show ((u.since earlier).run calls >>= _) = _ <$> (u.run calls >>= _)
      rw [ih]
      cases u.run calls <;> rfl

/-! ### After clearing -/

/-- Two tables that only their metrics tell apart. -/
structure Indistinct (t t' : KeyTable ε) : Prop where
  size_eq : t'.size = t.size
  buckets_eq : t'.buckets.size = t.buckets.size
  segments_eq : t'.segments.size = t.segments.size
  freeIndex_eq : t'.freeIndex = t.freeIndex
  outputCount_eq : t'.outputCount = t.outputCount
  chain_eq : ∀ bucket, t'.chain bucket = t.chain bucket
  eq : t' = { t with metrics := t'.metrics }

theorem indistinct_since : t.Indistinct (t.since earlier) :=
  ⟨rfl, rfl, rfl, rfl, rfl, fun bucket ↦ chain_since earlier t bucket, rfl⟩

/-- The colliding operations, with outputs that have room for one key. -/
def confined : KeyOps Unit :=
  { colliding with emit := fun _ _ output row ↦ .ok (output, .ok (row == 0)) }

variable {config : TableConfig} {ops : KeyOps ε} {t}

/-- A table that was cleared, after any history, answers every call as a new table does, with the
same state after it; only its metrics differ, always by what was counted before it was cleared. -/
theorem indistinct_of_clear (h : Reachable config ops t) :
    ∃ t₀ : KeyTable ε, create config ops = .ok t₀ ∧ ∀ calls,
      Checked.Related (fun (u, answers) (u', answers') ↦ answers' = answers ∧ u.Indistinct u' ∧
        u'.metrics = t.metrics.add u.metrics) (t₀.run calls) (t.clear.run calls) := by
  obtain ⟨spent, hkept⟩ := h.kept
  obtain ⟨t₀, -, -, hcreate, -⟩ := h
  obtain rfl := eq_fresh_of_create_eq_ok hcreate
  have hclear : t.clear = (fresh config ops {}).since t.metrics := by
    rw [clear_eq, hkept.config_eq, hkept.ops_eq]
    rfl
  refine ⟨_, hcreate, fun calls ↦ ?_⟩
  rw [hclear, run_since]
  rcases (fresh config ops {}).run calls with trap | ⟨u, answers⟩
  · exact .error trap
  · exact .ok ⟨rfl, indistinct_since t.metrics u, rfl⟩

/-- A table with a spent slot, at the ceiling of its buckets and half written out, is cleared; the
puts that led there then do again what they did. -/
theorem indistinct_of_clear_confined : ∃ t answers v answers' u,
    (fresh cramped confined {}).run (crampedCalls ++ [.outputAll (.ofTypes [] 0)]) =
      .ok (t, answers) ∧
    (t.threshold = TableConfig.never ∧ t.outputCursor = 2 ∧ t.freeIndex = t.size + 1) ∧
    (fresh cramped confined {}).run crampedCalls = .ok (v, answers') ∧
    t.clear.run crampedCalls = .ok (u, answers') ∧ v.Indistinct u ∧
    u.metrics = ⟨8, 8, 2⟩ := by
  obtain ⟨t, answers, hrun, hstate, hspent⟩ : ∃ t answers,
      (fresh cramped confined {}).run (crampedCalls ++ [.outputAll (.ofTypes [] 0)]) =
        .ok (t, answers) ∧
      (t.threshold = TableConfig.never ∧ t.outputCursor = 2 ∧ t.freeIndex = t.size + 1) ∧
        t.metrics = ⟨4, 4, 1⟩ :=
    ⟨_, _, rfl, ⟨rfl, rfl, rfl⟩, rfl⟩
  obtain ⟨v, answers', hfresh, hmetrics⟩ : ∃ v answers',
      (fresh cramped confined {}).run crampedCalls = .ok (v, answers') ∧ v.metrics = ⟨4, 4, 1⟩ :=
    ⟨_, _, rfl, rfl⟩
  have hreachable : Reachable cramped confined t :=
    ⟨_, _, answers, create_eq_ok fault?_cramped confined, hrun⟩
  obtain ⟨t₀, hcreate, hruns⟩ := indistinct_of_clear hreachable
  obtain rfl := eq_fresh_of_create_eq_ok hcreate
  obtain ⟨⟨u, answers''⟩, hcleared, rfl, hindistinct, hadded⟩ :=
    (hruns crampedCalls).exists_eq_ok hfresh
  refine ⟨t, answers, v, _, u, hrun, hstate, hfresh, hcleared, hindistinct, ?_⟩
  rw [hadded, hspent, hmetrics]
  rfl

end KeyTable

end Columnar
