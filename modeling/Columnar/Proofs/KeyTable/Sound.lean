import Columnar.Proofs.KeyTable.Occupied

/-!
# The invariant of key tables

A table is `Sound` if its segments cover the indexes that were handed out, the slots beyond these
are vacant, the last written slot of every segment is recorded, the entries are counted right, and
every bucket leads to just the slots that hold its keys, in ascending order. Whatever is said about
tables that can be reached starts from this invariant.

## What the invariant leaves out

The keys themselves are not in it, and neither is anything about the operations on keys. A hash may
be any function and an equality test may answer what it likes; **the table is sound all the same**,
because it goes by the hashes that it stored. The modules on keys read in columns add what these
operations promise.

## Steps that keep it

A `put` is made of parts, and soundness holds between them as well: handing out an index
(`Sound.extended`), doubling the buckets (`Sound.grow`) and, in the module on storing a key, storing
one. An index that was handed out counts as spent until its key is stored, which is also what it is
when the key can not be stored.

* `Sound.extended` rests on the vacancy beyond the indexes: the new slot is on no chain, so no
  bucket has to change (`Sound.bucketSlots_extended`).
* `Sound.grow` rests on `relink_spec` and on `Sound.slotsIn_occupied`: the slots of a bucket among
  the occupied ones are the slots of the bucket, with any number of buckets.
-/

namespace Columnar

namespace TableConfig

/-- The number of segments that `indexes` indexes take, the first one being there always. -/
def segmentsFor (config : TableConfig) (indexes : Nat) : Nat :=
  max 1 ((indexes + config.segmentCapacity - 1) / config.segmentCapacity)

variable {config : TableConfig}

theorem Sane.le_segmentsFor_mul (h : config.Sane) (indexes : Nat) :
    indexes ≤ config.segmentsFor indexes * config.segmentCapacity := by
  have hpos := h.segmentCapacity_pos
  have hle := Nat.mul_le_mul_right config.segmentCapacity (Nat.le_max_right 1
    ((indexes + config.segmentCapacity - 1) / config.segmentCapacity))
  have hdiv := Nat.div_add_mod (indexes + config.segmentCapacity - 1) config.segmentCapacity
  have hmod := Nat.mod_lt (indexes + config.segmentCapacity - 1) hpos
  rw [Nat.mul_comm config.segmentCapacity] at hdiv
  rw [segmentsFor]
  omega

/-- One more index takes a new segment just if it is the first one behind the segments. -/
theorem Sane.segmentsFor_succ (h : config.Sane) (indexes : Nat) :
    config.segmentsFor (indexes + 1) =
      if indexes / config.segmentCapacity = config.segmentsFor indexes then
        config.segmentsFor indexes + 1
      else config.segmentsFor indexes := by
  have hpos := h.segmentCapacity_pos
  have hnext : (indexes + 1 + config.segmentCapacity - 1) / config.segmentCapacity =
      indexes / config.segmentCapacity + 1 := by
    rw [show indexes + 1 + config.segmentCapacity - 1 = indexes + config.segmentCapacity by omega,
      Nat.add_div_right _ hpos]
  have hhere : (indexes + config.segmentCapacity - 1) / config.segmentCapacity =
      indexes / config.segmentCapacity + if indexes % config.segmentCapacity = 0 then 0 else 1 := by
    have hsplit : indexes + config.segmentCapacity - 1 =
        config.segmentCapacity * (indexes / config.segmentCapacity) +
          (indexes % config.segmentCapacity + config.segmentCapacity - 1) := by
      have := Nat.div_add_mod indexes config.segmentCapacity
      omega
    rw [hsplit, Nat.mul_add_div hpos]
    split_ifs with hmod
    · rw [hmod, Nat.zero_add, Nat.div_eq_of_lt (Nat.sub_lt hpos Nat.one_pos)]
    · rw [show indexes % config.segmentCapacity + config.segmentCapacity - 1 =
        indexes % config.segmentCapacity - 1 + config.segmentCapacity by omega,
        Nat.add_div_right _ hpos, Nat.div_eq_of_lt (Nat.lt_of_le_of_lt
          (Nat.sub_le (indexes % config.segmentCapacity) 1) (Nat.mod_lt _ hpos))]
  rw [segmentsFor, segmentsFor, hnext, hhere]
  split_ifs <;> omega

end TableConfig

namespace Segment

/-- A segment of vacant slots. -/
theorem slot?_ofTypes (types : List DataType) (capacity textBytesPerSlot offset : Nat) :
    (ofTypes types capacity textBytesPerSlot).slot? offset =
      if offset < capacity then some (.vacant, 0) else none := by
  by_cases h : offset < capacity <;> simp [slot?, ofTypes, h]

theorem hash?_ofTypes (types : List DataType) (capacity textBytesPerSlot offset : Nat) :
    (ofTypes types capacity textBytesPerSlot).hash? offset = none := by
  rw [hash?, slot?_ofTypes]
  split_ifs <;> rfl

end Segment

namespace KeyTable

variable {ε : Type}

/-- What every operation keeps of a table. -/
structure Sound (t : KeyTable ε) : Prop extends t.Segmented where
  size_segments : t.segments.size = t.config.segmentsFor t.freeIndex
  freeIndex_le : t.freeIndex ≤ IndexLayout.maxIndex + 1
  hash?_beyond : ∀ index, t.freeIndex ≤ index → t.hash? index = none
  le_maxOccupied : ∀ s ∈ t.segments, ∀ offset, s.hash? offset ≠ none →
    ∃ last, s.maxOccupied = some last ∧ offset ≤ last
  buckets_pos : 0 < t.buckets.size
  leads : ∀ (bucket : Nat) (link : Link), t.buckets[bucket]? = some link →
    Leads t.slot? link (t.bucketSlots bucket)
  entries_eq : t.entries = (List.range t.freeIndex).countP fun index ↦ (t.hash? index).isSome

variable {t : KeyTable ε}

/-- Soundness is about the configuration, the buckets, the segments and two counts. -/
theorem Sound.congr (h : t.Sound) {t' : KeyTable ε} (hconfig : t'.config = t.config)
    (hbuckets : t'.buckets = t.buckets) (hsegments : t'.segments = t.segments)
    (hfreeIndex : t'.freeIndex = t.freeIndex) (hentries : t'.entries = t.entries) : t'.Sound := by
  cases t
  cases t'
  simp only at hconfig hbuckets hsegments hfreeIndex hentries
  subst hconfig hbuckets hsegments hfreeIndex hentries
  exact ⟨⟨h.sane, h.size_links, h.size_hashes⟩, h.size_segments, h.freeIndex_le, h.hash?_beyond,
    h.le_maxOccupied, h.buckets_pos, h.leads, h.entries_eq⟩

/-- The chain of a bucket is the list of the slots that hold its keys. -/
theorem Sound.chain_eq (h : t.Sound) {bucket : Nat} (hbucket : bucket < t.buckets.size) :
    t.chain bucket = .ok (t.bucketSlots bucket) := by
  have hlink : t.buckets[bucket]? = some t.buckets[bucket] := Array.getElem?_eq_getElem hbucket
  rw [chain, Checked.entry, hlink]
  exact (h.leads bucket _ hlink).follow_eq (length_bucketSlots_le bucket)

/-- Every index handed out has a slot. -/
theorem Sound.isSome_slot? (h : t.Sound) {index : Nat} (hindex : index < t.freeIndex) :
    (t.slot? index).isSome := by
  rw [h.toSegmented.isSome_slot?_iff, h.size_segments]
  exact Nat.lt_of_lt_of_le hindex (h.sane.le_segmentsFor_mul _)

theorem lt_freeIndex_of_hash? (h : t.Sound) {index : Nat} (hindex : t.hash? index ≠ none) :
    index < t.freeIndex := by
  by_contra hge
  exact hindex (h.hash?_beyond index (Nat.le_of_not_lt hge))

theorem hash?_of_slot?_vacant {index : Nat} {hash : UInt32}
    (h : t.slot? index = some (.vacant, hash)) : t.hash? index = none := by
  rw [hash?, h]
  rfl

theorem hash?_of_slot?_none {index : Nat} (h : t.slot? index = none) : t.hash? index = none := by
  rw [hash?, h]
  rfl

/-! ### A table without keys -/

theorem slot?_fresh (config : TableConfig) (ops : KeyOps ε) (metrics : TableMetrics) (index : Nat) :
    (fresh config ops metrics).slot? index = none ∨
      (fresh config ops metrics).slot? index = some (.vacant, 0) := by
  rw [slot?, show (fresh config ops metrics).segments = #[newSegment config] from rfl]
  rcases Nat.eq_zero_or_pos ((fresh config ops metrics).layout.split index).segment with hs | hs
  · rw [hs, Array.getElem?_singleton, if_pos rfl, Option.bind_some, newSegment,
      Segment.slot?_ofTypes]
    split_ifs <;> simp
  · rw [Array.getElem?_eq_none (Nat.succ_le_of_lt hs)]
    exact .inl rfl

theorem hash?_fresh (config : TableConfig) (ops : KeyOps ε) (metrics : TableMetrics) (index : Nat) :
    (fresh config ops metrics).hash? index = none := by
  rcases slot?_fresh config ops metrics index with h | h
  · exact hash?_of_slot?_none h
  · exact hash?_of_slot?_vacant h

/-- A new table is sound. -/
theorem sound_fresh {config : TableConfig} (h : config.Sane) (ops : KeyOps ε)
    (metrics : TableMetrics) : (fresh config ops metrics).Sound := by
  have hmem (s : Segment) (hs : s ∈ (fresh config ops metrics).segments) :
      s = newSegment config := by simpa [fresh] using hs
  have hslots (bucket : Nat) : (fresh config ops metrics).bucketSlots bucket = [] := rfl
  refine ⟨⟨h, fun s hs ↦ ?_, fun s hs ↦ ?_⟩, ?_, Nat.zero_le _,
    fun index _ ↦ hash?_fresh config ops metrics index, fun s hs offset hoffset ↦ ?_, ?_,
    fun bucket link hlink ↦ ?_, rfl⟩
  · rw [hmem s hs]
    exact Array.size_replicate
  · rw [hmem s hs]
    exact Array.size_replicate
  · have hpos := h.segmentCapacity_pos
    show 1 = max 1 ((0 + config.segmentCapacity - 1) / config.segmentCapacity)
    rw [Nat.zero_add, Nat.div_eq_of_lt (Nat.sub_lt hpos Nat.one_pos)]
    rfl
  · rw [hmem s hs] at hoffset
    exact absurd (Segment.hash?_ofTypes _ _ _ _) hoffset
  · rw [fresh, Array.size_replicate]
    exact h.initialBuckets_pos
  · have hnil : link = .nil := by
      rw [fresh, Array.getElem?_replicate] at hlink
      split_ifs at hlink
      exact (Option.some.inj hlink).symm
    rw [hslots, hnil]
    exact .nil

/-! ### Handing out an index -/

/-- A table with one more index handed out. -/
def extended (t : KeyTable ε) : KeyTable ε :=
  { t with
    segments :=
      if (t.layout.split t.freeIndex).segment = t.segments.size then
        t.segments.push (newSegment t.config)
      else t.segments
    freeIndex := t.freeIndex + 1 }

theorem allocate_eq (h : t.freeIndex ≤ IndexLayout.maxIndex) :
    t.allocate = .ok (t.extended, t.freeIndex) := by
  rw [allocate, if_pos h]
  rfl

theorem mem_segments_extended {s : Segment} (hs : s ∈ t.extended.segments) :
    s ∈ t.segments ∨ s = newSegment t.config := by
  rw [extended] at hs
  simp only at hs
  split_ifs at hs
  · exact Array.mem_push.1 hs
  · exact .inl hs

/-- The slots that there were are as before, and new ones are vacant. -/
theorem slot?_extended (t : KeyTable ε) (index : Nat) :
    t.extended.slot? index = t.slot? index ∨
      t.slot? index = none ∧ t.extended.slot? index = some (.vacant, 0) := by
  have hread : t.extended.slot? index =
      t.extended.segments[(t.layout.split index).segment]?.bind
        (·.slot? (t.layout.split index).offset) := rfl
  rw [hread, extended, slot?]
  simp only
  split_ifs with hnew
  · rw [Array.getElem?_push]
    split_ifs with hlast
    · rw [Option.bind_some, newSegment, Segment.slot?_ofTypes, hlast,
        Array.getElem?_eq_none (Nat.le_refl _)]
      split_ifs
      · exact .inr ⟨rfl, rfl⟩
      · exact .inl rfl
    · exact .inl rfl
  · exact .inl rfl

theorem hash?_extended (t : KeyTable ε) (index : Nat) : t.extended.hash? index = t.hash? index := by
  rcases slot?_extended t index with h | ⟨hold, hnew⟩
  · rw [hash?, h, hash?]
  · rw [hash?_of_slot?_none hold, hash?_of_slot?_vacant hnew]

theorem slot?_extended_of_isSome {index : Nat} (h : (t.slot? index).isSome) :
    t.extended.slot? index = t.slot? index := by
  rcases slot?_extended t index with heq | ⟨hnone, -⟩
  · exact heq
  · rw [hnone] at h
    exact absurd h Bool.false_ne_true

/-- No bucket has the new slot, since it is vacant. -/
theorem Sound.bucketSlots_extended (h : t.Sound) (bucket : Nat) :
    t.extended.bucketSlots bucket = t.bucketSlots bucket := by
  have hin : t.extended.inBucket bucket = t.inBucket bucket := funext fun index ↦ by
    rw [inBucket, inBucket, hash?_extended]
    rfl
  have hlast : t.inBucket bucket t.freeIndex = false := by
    rw [inBucket, h.hash?_beyond _ (Nat.le_refl _), Option.any_none]
  rw [bucketSlots, hin, show t.extended.freeIndex = t.freeIndex + 1 from rfl, List.range_succ,
    List.filter_append, List.filter_cons_of_neg (by simp [hlast]), List.filter_nil,
    List.append_nil, bucketSlots]

/-- Handing out an index keeps a table sound: the new slot counts as spent. -/
theorem Sound.extended (h : t.Sound) (hindex : t.freeIndex ≤ IndexLayout.maxIndex) :
    t.extended.Sound := by
  have hfree : t.hash? t.freeIndex = none := h.hash?_beyond _ (Nat.le_refl _)
  refine ⟨⟨h.sane, fun s hs ↦ ?_, fun s hs ↦ ?_⟩, ?_, Nat.succ_le_succ hindex,
    fun index hle ↦ ?_, fun s hs offset hoffset ↦ ?_, h.buckets_pos, fun bucket link hlink ↦ ?_, ?_⟩
  · rcases mem_segments_extended hs with hs | rfl
    · exact h.size_links s hs
    · exact Array.size_replicate
  · rcases mem_segments_extended hs with hs | rfl
    · exact h.size_hashes s hs
    · exact Array.size_replicate
  · show (if _ then t.segments.push _ else t.segments).size = t.config.segmentsFor (t.freeIndex + 1)
    rw [h.sane.segmentsFor_succ, h.split_eq, ← h.size_segments]
    split_ifs <;> simp
  · rw [hash?_extended]
    exact h.hash?_beyond index (Nat.le_of_succ_le hle)
  · rcases mem_segments_extended hs with hs | rfl
    · exact h.le_maxOccupied s hs offset hoffset
    · exact absurd (Segment.hash?_ofTypes _ _ _ _) hoffset
  · have hleads := h.leads bucket link hlink
    rw [h.bucketSlots_extended]
    exact hleads.congr fun i hi ↦ slot?_extended_of_isSome (hleads.isSome_slot? i hi)
  · rw [show t.extended.freeIndex = t.freeIndex + 1 from rfl, List.range_succ, List.countP_append]
    simp only [hash?_extended, List.countP_singleton, hfree, Option.isSome_none,
      Bool.false_eq_true, if_false, Nat.add_zero]
    exact h.entries_eq

/-! ### Doubling the buckets -/

/-- The slots that hold keys, read off the list of all indexes. -/
theorem Sound.occupied_eq (h : t.Sound) :
    t.occupied = (List.range t.freeIndex).filterMap fun index ↦
      (t.hash? index).map fun hash ↦ (index, hash) := by
  have hjoin (index : Nat) (hindex : t.hash? index ≠ none) : index < IndexLayout.wordSize := by
    have hlt := lt_freeIndex_of_hash? h hindex
    have hle := h.freeIndex_le
    simp only [IndexLayout.maxIndex, IndexLayout.wordSize, UInt32.size] at hle ⊢
    omega
  rw [h.toSegmented.occupied_eq_range h.le_maxOccupied hjoin, h.size_segments]
  -- the slots that were not handed out yet hold no keys
  refine filterMap_range_of_le (h.sane.le_segmentsFor_mul _) fun index hle ↦ ?_
  rw [h.hash?_beyond index hle, Option.map_none]

/-- The slots of a bucket among the occupied ones are the slots of the bucket, with any number of
buckets. -/
theorem Sound.slotsIn_occupied (h : t.Sound) {t' : KeyTable ε}
    (hhash : ∀ index, t'.hash? index = t.hash? index) (hfreeIndex : t'.freeIndex = t.freeIndex)
    (bucket : Nat) : t'.slotsIn bucket t.occupied = t'.bucketSlots bucket := by
  rw [slotsIn, h.occupied_eq, bucketSlots, hfreeIndex]
  generalize List.range t.freeIndex = indexes
  induction indexes with
  | nil => rfl
  | cons index indexes ih =>
    cases hindex : t.hash? index with
    | none => simpa [hhash, hindex, inBucket] using ih
    | some hash =>
      by_cases hb : t'.bucketOf hash = bucket
      · simpa [hhash, hindex, inBucket, hb] using ih
      · simpa [hhash, hindex, inBucket, hb] using ih

theorem Sound.nodup_occupied (h : t.Sound) : (t.occupied.map Prod.fst).Nodup := by
  have hfst : t.occupied.map Prod.fst =
      (List.range t.freeIndex).filter fun index ↦ (t.hash? index).isSome := by
    rw [h.occupied_eq]
    generalize List.range t.freeIndex = indexes
    induction indexes with
    | nil => rfl
    | cons index indexes ih => cases hhash : t.hash? index <;> simpa [hhash] using ih
  rw [hfst]
  exact List.Nodup.filter _ List.nodup_range

theorem Sound.hash?_of_mem_occupied (h : t.Sound) {slot : Nat × UInt32}
    (hslot : slot ∈ t.occupied) : t.hash? slot.1 = some slot.2 := by
  rw [h.occupied_eq, List.mem_filterMap] at hslot
  obtain ⟨index, -, hindex⟩ := hslot
  obtain ⟨hash, hhash, rfl⟩ := Option.map_eq_some_iff.1 hindex
  exact hhash

/-- Soundness of a table that is linked anew. -/
theorem Sound.of_relinked (h : t.Sound) {t' : KeyTable ε} (hconfig : t'.config = t.config)
    (hfreeIndex : t'.freeIndex = t.freeIndex) (hentries : t'.entries = t.entries)
    (hcut : t'.segments.map Segment.cut = t.segments.map Segment.cut)
    (hpos : 0 < t'.buckets.size)
    (hleads : ∀ (bucket : Nat) (link : Link), t'.buckets[bucket]? = some link →
      Leads t'.slot? link (t'.bucketSlots bucket)) : t'.Sound := by
  have hhash := hash?_congr hconfig hcut
  refine ⟨h.toSegmented.congr hconfig hcut, ?_, ?_, fun index hle ↦ ?_, ?_, hpos, hleads, ?_⟩
  · have hsize := congrArg Array.size hcut
    rw [Array.size_map, Array.size_map] at hsize
    rw [hsize, hconfig, hfreeIndex, h.size_segments]
  · rw [hfreeIndex]
    exact h.freeIndex_le
  · rw [hhash]
    exact h.hash?_beyond index (hfreeIndex ▸ hle)
  · refine forall_segments_congr (fun s ↦ ?_) hcut h.le_maxOccupied
    simp only [Segment.hash?_cut]
    exact Iff.rfl
  · simp only [hentries, hfreeIndex, hhash, h.entries_eq]

/-- Doubling the buckets keeps a table sound, and the keys in their slots. -/
theorem Sound.grow (h : t.Sound) : ∃ t', t.grow = .ok t' ∧ t'.Sound ∧
    t'.segments.map Segment.cut = t.segments.map Segment.cut ∧
    t' = { t with
      buckets := t'.buckets
      segments := t'.segments
      threshold := t'.threshold
      metrics := t'.metrics } := by
  rw [KeyTable.grow]
  split_ifs with hceiling
  · exact ⟨_, rfl, h.congr rfl rfl rfl rfl rfl, rfl, rfl⟩
  · -- the table with empty buckets, from which the slots are linked anew
    obtain ⟨t', ht', hrelinked, hleads⟩ := relink_spec (t := { t with
        buckets := Array.replicate (2 * t.buckets.size) .nil
        threshold := t.config.threshold (2 * t.buckets.size)
        metrics.resizes := t.metrics.resizes + 1 })
      ⟨h.sane, h.size_links, h.size_hashes⟩ (by
        rw [Array.size_replicate]
        exact Nat.mul_pos Nat.two_pos h.buckets_pos)
      (fun bucket link hlink ↦ by
        rw [Array.getElem?_replicate] at hlink
        split_ifs at hlink
        exact (Option.some.inj hlink).symm)
      h.nodup_occupied fun slot hslot ↦ h.hash?_of_mem_occupied hslot
    have hhash (index : Nat) : t'.hash? index = t.hash? index := hrelinked.hash? index
    have hfreeIndex : t'.freeIndex = t.freeIndex := by rw [hrelinked.eq]
    refine ⟨t', ht', h.of_relinked hrelinked.config hfreeIndex (by rw [hrelinked.eq])
      hrelinked.cut ?_ fun bucket link hlink ↦ ?_, hrelinked.cut, by rw [hrelinked.eq]⟩
    · rw [hrelinked.size_buckets, Array.size_replicate]
      exact Nat.mul_pos Nat.two_pos h.buckets_pos
    · rw [← h.slotsIn_occupied hhash hfreeIndex]
      have hleads := hleads bucket link hlink
      simp only [slotsIn, ← hrelinked.bucketOf] at hleads
      exact hleads

end KeyTable

end Columnar
