import Columnar.Proofs.KeyTable.Sound

/-!
# Storing a key

Storing a key writes one slot and, if the key could be stored, links the slot behind the last one of
its bucket. Both leave a sound table (`Sound.insert`): a slot whose key could not be stored stays
vacant, and so is on no chain.

## Two ways out

`Insertion` says what becomes of a segment, in two cases that later modules go by.

* The slot stays vacant. The columns of the segment may be written all the same, since a key that is
  refused in one column has been copied into those before it; but **soundness is about what is in
  the slots and not about the columns** (`Sound.rekeyed`), so nothing is to be undone.
* The slot holds the key and its hash, and ends a chain. Then it is linked, and links between other
  keys may be those of a table that has grown in the meantime.

## What linking rests on

The slot is the last index that was handed out, so in ascending order it comes last in its bucket
(`bucketSlots_of_last`) and the chain of its bucket goes on at it (`Sound.linkBehind_leads`). No
chain is walked to find the place: the last slot of the bucket is an argument, and
`Sound.linkBehind` asks for it to be the right one. Whoever stores a key has met it during the
search.

Beside the links there is a count: with one more slot that holds a key there is one more entry
(`countP_of_last`). The record of the last written slot of a segment stays the last one
(`le_maxOccupied_written`), on which reading the keys of a segment relies.
-/

namespace Columnar

namespace Segment

variable (s : Segment)

/-- A segment with other keys in its columns. -/
def rekeyed (keys : Block) : Segment := { s with keys := keys }

/-- A segment with a key written into a slot, which ends a chain. -/
def written (keys : Block) (offset : Nat) (hash : UInt32) : Segment where
  keys := keys
  links := s.links.setIfInBounds offset .nil
  hashes := s.hashes.setIfInBounds offset hash
  maxOccupied := some (s.maxOccupied.elim offset (max · offset))

variable {s}

theorem slot?_written (keys : Block) (offset other : Nat) (hash : UInt32) :
    (s.written keys offset hash).slot? other =
      if offset = other then (s.slot? other).map fun _ ↦ (.nil, hash) else s.slot? other := by
  simp only [slot?, written, Array.getElem?_setIfInBounds]
  by_cases h : offset = other
  · subst h
    by_cases hl : offset < s.links.size <;> by_cases hh : offset < s.hashes.size <;> simp [hl, hh]
  · simp [h]

theorem hash?_written_of_ne {keys : Block} {offset other : Nat} {hash : UInt32}
    (h : offset ≠ other) : (s.written keys offset hash).hash? other = s.hash? other := by
  rw [hash?, slot?_written, if_neg h, hash?]

/-- A segment records the last slot written, also after one more is written. -/
theorem le_maxOccupied_written (keys : Block) (offset : Nat) (hash : UInt32)
    (h : ∀ other, s.hash? other ≠ none → ∃ last, s.maxOccupied = some last ∧ other ≤ last) :
    ∀ other, (s.written keys offset hash).hash? other ≠ none →
      ∃ last, (s.written keys offset hash).maxOccupied = some last ∧ other ≤ last := by
  intro other hother
  refine ⟨_, rfl, ?_⟩
  by_cases hne : offset = other
  · subst hne
    cases s.maxOccupied with
    | none => exact Nat.le_refl _
    | some last => exact Nat.le_max_right last offset
  · rw [hash?_written_of_ne hne] at hother
    obtain ⟨last, hlast, hle⟩ := h other hother
    rw [hlast]
    exact Nat.le_trans hle (Nat.le_max_left last offset)

/-- What storing a key into a slot makes of a segment. -/
theorem insert_eq {ε : Type} (ops : KeyOps ε) (input : Block) (row : Nat) {offset : Nat}
    (hash : UInt32)
    (hlinks : offset < s.links.size) (hhashes : offset < s.hashes.size) :
    (∃ trap, ops.store input row s.keys offset = .error trap ∧
      s.insert ops input row offset hash = .error trap) ∨
    (∃ keys cause, ops.store input row s.keys offset = .ok (keys, .error cause) ∧
      s.insert ops input row offset hash = .ok (s.rekeyed keys, .error cause)) ∨
    ∃ keys, ops.store input row s.keys offset = .ok (keys, .ok ()) ∧
      s.insert ops input row offset hash = .ok (s.written keys offset hash, .ok ()) := by
  cases hstore : ops.store input row s.keys offset with
  | error trap => exact .inl ⟨trap, rfl, by rw [Segment.insert, hstore]; rfl⟩
  | ok stored =>
    obtain ⟨keys, result⟩ := stored
    cases result with
    | error cause => exact .inr (.inl ⟨keys, cause, rfl, by rw [Segment.insert, hstore]; rfl⟩)
    | ok =>
      refine .inr (.inr ⟨keys, rfl, ?_⟩)
      rw [Segment.insert, hstore, Checked.ok_bind]
      exact if_pos ⟨hlinks, hhashes⟩

end Segment

namespace KeyTable

variable {ε : Type} {t : KeyTable ε}

/-! ### Changing one segment -/

theorem mem_segments_modified {index : Nat} {f : Segment → Segment} {s : Segment}
    (hs : s ∈ (t.modified index f).segments) : ∃ old ∈ t.segments, s = old ∨ s = f old := by
  obtain ⟨k, hk⟩ := Array.mem_iff_getElem?.1 hs
  rw [modified, Array.getElem?_modify] at hk
  split_ifs at hk
  · obtain ⟨old, hold, rfl⟩ := Option.map_eq_some_iff.1 hk
    exact ⟨old, Array.mem_of_getElem? hold, .inr rfl⟩
  · exact ⟨s, Array.mem_of_getElem? hk, .inl rfl⟩

/-- What holds of every segment holds still if the change of a segment keeps it. -/
theorem forall_segments_modified {index : Nat} {f : Segment → Segment} {P : Segment → Prop}
    (hf : ∀ s, P s → P (f s)) (h : ∀ s ∈ t.segments, P s) :
    ∀ s ∈ (t.modified index f).segments, P s := by
  intro s hs
  obtain ⟨old, hold, rfl | rfl⟩ := mem_segments_modified hs
  · exact h _ hold
  · exact hf old (h old hold)

theorem Segmented.modified (ht : t.Segmented) {index : Nat} {f : Segment → Segment}
    (hlinks : ∀ s : Segment, (f s).links.size = s.links.size)
    (hhashes : ∀ s : Segment, (f s).hashes.size = s.hashes.size) :
    (t.modified index f).Segmented where
  sane := ht.sane
  size_links := forall_segments_modified (fun s hs ↦ (hlinks s).trans hs) ht.size_links
  size_hashes := forall_segments_modified (fun s hs ↦ (hhashes s).trans hs) ht.size_hashes

theorem Segmented.slot?_rekeyed (ht : t.Segmented) (index other : Nat) (keys : Block) :
    (t.modified index (·.rekeyed keys)).slot? other = t.slot? other := by
  have hslot := ht.slot?_modified index (f := (·.rekeyed keys)) (g := id)
    (fun s offset ↦ (by simp only [Option.map_id, id, ite_self]; rfl)) other
  simpa only [Option.map_id, id, ite_self] using hslot

/-- The slots of a table with a key written into one of them. -/
theorem Segmented.slot?_written (ht : t.Segmented) (index other : Nat) (keys : Block)
    (hash : UInt32) :
    (t.modified index (·.written keys (t.layout.split index).offset hash)).slot? other =
      if index = other then (t.slot? other).map fun _ ↦ (.nil, hash) else t.slot? other :=
  ht.slot?_modified index (fun s offset ↦ s.slot?_written keys _ offset hash) other

/-! ### The two outcomes -/

/-- Soundness is about what is in the slots, and not about the keys in the columns. -/
theorem Sound.rekeyed (h : t.Sound) (index : Nat) (keys : Block) :
    (t.modified index (·.rekeyed keys)).Sound := by
  have hslot (other : Nat) : (t.modified index (·.rekeyed keys)).slot? other = t.slot? other :=
    h.toSegmented.slot?_rekeyed index other keys
  have hhash (other : Nat) : (t.modified index (·.rekeyed keys)).hash? other = t.hash? other := by
    rw [hash?, hslot, hash?]
  have hslots (bucket : Nat) :
      (t.modified index (·.rekeyed keys)).bucketSlots bucket = t.bucketSlots bucket :=
    List.filter_congr fun other _ ↦ by rw [inBucket, hhash, inBucket]; rfl
  refine ⟨h.toSegmented.modified (fun _ ↦ rfl) (fun _ ↦ rfl), ?_, h.freeIndex_le,
    fun other hle ↦ ?_, forall_segments_modified (fun _ hs ↦ hs) h.le_maxOccupied, h.buckets_pos,
    fun bucket link hlink ↦ ?_, ?_⟩
  · rw [modified, Array.size_modify]
    exact h.size_segments
  · rw [hhash]
    exact h.hash?_beyond other hle
  · rw [hslots]
    exact (h.leads bucket link hlink).congr fun i _ ↦ hslot i
  · simp only [hhash]
    exact h.entries_eq

/-- A bucket of which one more slot is counted, if the other slots are the same. -/
theorem bucketSlots_of_last {t' : KeyTable ε} {bucket index : Nat} {hash : UInt32}
    (hsize : t'.buckets.size = t.buckets.size) (hindex : index + 1 = t.freeIndex)
    (hfreeIndex : t'.freeIndex = t.freeIndex) (hfree : t.hash? index = none)
    (hhash : ∀ other, t'.hash? other = if index = other then some hash else t.hash? other) :
    t'.bucketSlots bucket =
      if t.bucketOf hash = bucket then t.bucketSlots bucket ++ [index]
      else t.bucketSlots bucket := by
  have hbucketOf : t'.bucketOf = t.bucketOf := funext fun hash ↦ by
    rw [bucketOf, bucketOf, hsize]
  have hbefore : (List.range index).filter (t'.inBucket bucket) =
      (List.range index).filter (t.inBucket bucket) := by
    refine List.filter_congr fun other hother ↦ ?_
    rw [inBucket, hhash, if_neg (Nat.ne_of_gt (List.mem_range.1 hother)), hbucketOf, inBucket]
  have hlast : t'.inBucket bucket index = (t.bucketOf hash == bucket) := by
    rw [inBucket, hhash, if_pos rfl, Option.any_some, hbucketOf]
  have hunused : t.inBucket bucket index = false := by rw [inBucket, hfree, Option.any_none]
  rw [bucketSlots, hfreeIndex, ← hindex, List.range_succ, List.filter_append, hbefore,
    bucketSlots, ← hindex, List.range_succ, List.filter_append]
  by_cases hb : t.bucketOf hash = bucket <;> simp [hlast, hunused, hb]

/-- With one more slot there is one more key. -/
theorem countP_of_last {t' : KeyTable ε} {index : Nat} {hash : UInt32}
    (hindex : index + 1 = t.freeIndex) (hfreeIndex : t'.freeIndex = t.freeIndex)
    (hfree : t.hash? index = none)
    (hhash : ∀ other, t'.hash? other = if index = other then some hash else t.hash? other) :
    (List.range t'.freeIndex).countP (fun i ↦ (t'.hash? i).isSome) =
      (List.range t.freeIndex).countP (fun i ↦ (t.hash? i).isSome) + 1 := by
  have hbefore : (List.range index).countP (fun i ↦ (t'.hash? i).isSome) =
      (List.range index).countP fun i ↦ (t.hash? i).isSome := by
    refine List.countP_congr fun i hi ↦ ?_
    rw [hhash, if_neg (Nat.ne_of_gt (List.mem_range.1 hi))]
  rw [hfreeIndex, ← hindex, List.range_succ, List.countP_append, List.countP_append, hbefore,
    List.countP_singleton, List.countP_singleton, hhash, if_pos rfl, hfree]
  rfl

/-- A slot that a key is written into ends a chain, and the others are as before. -/
theorem Sound.slot?_written (h : t.Sound) {index : Nat} (hindex : index < t.freeIndex)
    (keys : Block) (hash : UInt32) (other : Nat) :
    (t.modified index (·.written keys (t.layout.split index).offset hash)).slot? other =
      if index = other then some (.nil, hash) else t.slot? other := by
  obtain ⟨old, hold⟩ := Option.isSome_iff_exists.1 (h.isSome_slot? hindex)
  rw [h.toSegmented.slot?_written]
  split_ifs with hother
  · rw [← hother, hold, Option.map_some]
  · rfl

theorem Sound.hash?_written (h : t.Sound) {index : Nat} (hindex : index < t.freeIndex)
    (keys : Block) (hash : UInt32) (other : Nat) :
    (t.modified index (·.written keys (t.layout.split index).offset hash)).hash? other =
      if index = other then some hash else t.hash? other := by
  rw [hash?, h.slot?_written hindex]
  split_ifs
  · rfl
  · rw [hash?]

/-- A slot that a key was written into is linked behind the last slot of its bucket. -/
theorem Sound.linkBehind_leads (h : t.Sound) {index : Nat} (hindex : index < t.freeIndex)
    (hfree : t.hash? index = none) (keys : Block) (hash : UInt32) :
    ∃ t', (t.modified index (·.written keys (t.layout.split index).offset hash)).linkBehind
        (t.lastSlot? hash) (t.bucketOf hash) index = .ok t' ∧
      (t.modified index (·.written keys (t.layout.split index).offset hash)).Relinked t' ∧
      ∀ bucket link, t'.buckets[bucket]? = some link → Leads t'.slot? link
        (if t.bucketOf hash = bucket then t.bucketSlots bucket ++ [index]
          else t.bucketSlots bucket) := by
  have hslot := h.slot?_written hindex keys hash
  have hhash := h.hash?_written hindex keys hash
  have hsegmented :
      (t.modified index (·.written keys (t.layout.split index).offset hash)).Segmented :=
    h.toSegmented.modified (fun s ↦ Array.size_setIfInBounds) (fun s ↦ Array.size_setIfInBounds)
  -- the new slot is on no chain, so all chains are read as before
  have hfresh (bucket : Nat) : index ∉ t.bucketSlots bucket := by
    intro hmem
    obtain ⟨-, hash', hhash', -⟩ := mem_bucketSlots.1 hmem
    simp [hfree] at hhash'
  have hbucket (bucket i : Nat) (hi : i ∈ t.bucketSlots bucket) :
      (t.modified index (·.written keys (t.layout.split index).offset hash)).inBucket bucket i =
        true := by
    have hne : index ≠ i := fun h ↦ hfresh bucket (h ▸ hi)
    obtain ⟨-, hash', hhash', hb⟩ := mem_bucketSlots.1 hi
    exact inBucket_iff.2 ⟨hash', by rw [hhash, if_neg hne, hhash'], hb⟩
  have hold (bucket : Nat) (link : Link) (hlink : t.buckets[bucket]? = some link) :
      Leads (t.modified index (·.written keys (t.layout.split index).offset hash)).slot? link
        (t.bucketSlots bucket) := by
    refine (h.leads bucket link hlink).congr fun i hi ↦ ?_
    rw [hslot, if_neg fun h : index = i ↦ hfresh bucket (h ▸ hi)]
  exact linkBehind_spec hsegmented h.buckets_pos ((hslot index).trans (if_pos rfl)) t.bucketSlots
    hold hbucket (fun bucket ↦ (pairwise_bucketSlots bucket).imp Nat.ne_of_lt) hfresh

/-- Linking a slot that a key was written into behind the last one of its bucket leads to a sound
table, with one more entry. -/
theorem Sound.linkBehind (h : t.Sound) {index : Nat} (hindex : index + 1 = t.freeIndex)
    (hfree : t.hash? index = none) (keys : Block) (hash : UInt32) :
    ∃ t', (t.modified index (·.written keys (t.layout.split index).offset hash)).linkBehind
        (t.lastSlot? hash) (t.bucketOf hash) index = .ok t' ∧
      ({ t' with entries := t'.entries + 1 } : KeyTable ε).Sound ∧
      t'.segments.map Segment.cut =
        (t.modified index (·.written keys (t.layout.split index).offset hash)).segments.map
          Segment.cut ∧
      t' = { t with buckets := t'.buckets, segments := t'.segments } := by
  have hlt : index < t.freeIndex := hindex ▸ Nat.lt_succ_self index
  obtain ⟨t', ht', hrelinked, hleads⟩ := h.linkBehind_leads hlt hfree keys hash
  have hfields : t' = { t with buckets := t'.buckets, segments := t'.segments } := hrelinked.eq
  have hhash (other : Nat) : t'.hash? other = if index = other then some hash else t.hash? other :=
    (hrelinked.hash? other).trans (h.hash?_written hlt keys hash other)
  have hconfig : t'.config = t.config := by rw [hfields]
  have hfreeIndex : t'.freeIndex = t.freeIndex := by rw [hfields]
  have hentries : t'.entries = t.entries := by rw [hfields]
  have hsize : t'.buckets.size = t.buckets.size := hrelinked.size_buckets
  have hsegmented : t'.Segmented := (h.toSegmented.modified
    (fun s ↦ Array.size_setIfInBounds) (fun s ↦ Array.size_setIfInBounds)).congr hrelinked.config
      hrelinked.cut
  refine ⟨t', ht', ⟨⟨hsegmented.sane, hsegmented.size_links, hsegmented.size_hashes⟩, ?_, ?_,
    fun other hle ↦ ?_, ?_, ?_, fun bucket link hlink ↦ ?_, ?_⟩, hrelinked.cut, hfields⟩
  · have hcut := congrArg Array.size hrelinked.cut
    rw [Array.size_map, Array.size_map, modified, Array.size_modify] at hcut
    show t'.segments.size = t'.config.segmentsFor t'.freeIndex
    rw [hcut, hconfig, hfreeIndex]
    exact h.size_segments
  · show t'.freeIndex ≤ _
    exact hfreeIndex ▸ h.freeIndex_le
  · have hle : index + 1 ≤ other := by rwa [hindex, ← hfreeIndex]
    refine (hhash other).trans ?_
    rw [if_neg (Nat.ne_of_lt hle), h.hash?_beyond other (hindex ▸ hle)]
  · refine forall_segments_congr (fun s ↦ ?_) hrelinked.cut ?_
    · simp only [Segment.hash?_cut]
      exact Iff.rfl
    · exact forall_segments_modified (fun s hs ↦ s.le_maxOccupied_written keys _ hash hs)
        h.le_maxOccupied
  · show 0 < t'.buckets.size
    exact hsize ▸ h.buckets_pos
  · have hslots : ({ t' with entries := t'.entries + 1 } : KeyTable ε).bucketSlots bucket = _ :=
      bucketSlots_of_last hsize hindex hfreeIndex hfree hhash
    rw [hslots]
    exact hleads bucket link hlink
  · show t'.entries + 1 = (List.range t'.freeIndex).countP fun i ↦ (t'.hash? i).isSome
    rw [countP_of_last hindex hfreeIndex hfree hhash, hentries, h.entries_eq]

/-- What storing a key may lead to, in a segment: the slot stays vacant, or it gets the key and its
hash, and links between keys change. -/
inductive Insertion (t : KeyTable ε) (index : Nat) (segment : Segment) (hash : UInt32)
    (input : Block) (row : Nat) : KeyTable ε × Except (TableError ε) PutStatus → Prop
  | failed {keys : Block} {cause : ε} :
    t.ops.store input row segment.keys (t.layout.split index).offset = .ok (keys, .error cause) →
    (t.modified index (·.rekeyed keys)).Sound →
    Insertion t index segment hash input row
      (t.modified index (·.rekeyed keys), .error (.insertFailed index cause))
  | stored {t' : KeyTable ε} {keys : Block} :
    t.ops.store input row segment.keys (t.layout.split index).offset = .ok (keys, .ok ()) →
    t'.Sound →
    t'.segments.map Segment.cut =
      (t.modified index (·.written keys (t.layout.split index).offset hash)).segments.map
        Segment.cut →
    t' = { t with buckets := t'.buckets, segments := t'.segments, entries := t.entries + 1 } →
    Insertion t index segment hash input row (t', .ok (.inserted index))

/-- Storing a key under the index handed out last leads to a sound table, whether the key could be
stored or not. -/
theorem Sound.insert (h : t.Sound) {index : Nat} (hindex : index + 1 = t.freeIndex)
    (hfree : t.hash? index = none) {segment : Segment} (hsegment : t.segmentOf index = .ok segment)
    (hash : UInt32) (input : Block) (row : Nat) :
    (t.insert index hash (t.lastSlot? hash) input row).Sat
      (fun trap ↦ t.ops.store input row segment.keys (t.layout.split index).offset = .error trap)
      (Insertion t index segment hash input row) := by
  have hlt : index < t.freeIndex := hindex ▸ Nat.lt_succ_self index
  obtain ⟨⟨link, old⟩, hslot⟩ := Option.isSome_iff_exists.1 (h.isSome_slot? hlt)
  obtain ⟨segment', hsegment', hread⟩ := slot?_eq_some_iff.1 hslot
  obtain ⟨hlink, hold⟩ := Segment.slot?_eq_some_iff.1 hread
  obtain rfl : segment' = segment := by
    rw [segmentOf, Checked.entry, hsegment'] at hsegment
    exact Except.ok.inj hsegment
  rw [KeyTable.insert]
  rcases Segment.insert_eq t.ops input row hash
    (Array.getElem?_eq_some_iff.1 hlink).1 (Array.getElem?_eq_some_iff.1 hold).1 with
    ⟨trap, hstore, hinsert⟩ | ⟨keys, cause, hstore, hinsert⟩ | ⟨keys, hstore, hinsert⟩
  · have hchange : t.changeSegment index (fun offset segment ↦
        segment.insert t.ops input row offset hash) = .error trap :=
      changeSegment_eq_error hsegment' hinsert
    rw [hchange]
    exact hstore
  · have hchange : t.changeSegment index (fun offset segment ↦
        segment.insert t.ops input row offset hash) =
        .ok (t.modified index (·.rekeyed keys), .error cause) :=
      changeSegment_eq hsegment' hinsert
    rw [hchange]
    exact Insertion.failed hstore (h.rekeyed index keys)
  · have hchange : t.changeSegment index (fun offset segment ↦
        segment.insert t.ops input row offset hash) =
        .ok (t.modified index (·.written keys (t.layout.split index).offset hash), .ok ()) :=
      changeSegment_eq hsegment' hinsert
    obtain ⟨t', ht', hsound, hcut, hfields⟩ := h.linkBehind hindex hfree keys hash
    rw [hchange, Checked.ok_bind]
    show (KeyTable.linkBehind _ (t.lastSlot? hash) (t.bucketOf hash) index >>= _).Sat _ _
    rw [ht']
    exact Insertion.stored hstore hsound hcut (by rw [hfields])

end KeyTable

end Columnar
