import Columnar.Proofs.KeyTable.Chains
import Mathlib.Data.List.Induction
import Mathlib.Data.List.Nodup

/-!
# The occupied slots in order

A table lists its keys segment by segment and, within a segment, up to the last slot written. Since
every segment but the last is full of indexes, this is the list of all indexes with those left out
that hold no key (`Segmented.occupied_eq_range`).

## What is to be shown for that

* A segment may be read up to the slot on record only, since nothing was written behind it
  (`Segment.occupied_eq`). This is why the invariant of tables keeps an eye on the record.
* Numbers of segments and offsets are put together to indexes, which is exact as long as the index
  of a key is one that can be put together. **No bound on the segments is needed**: slots without
  keys are left out before their numbers matter.
* The range of all indexes is cut in pieces of one length, and the pieces are the segments
  (`flatMap_range_filterMap`).

The list in this form is what linking anew walks through and what the number of entries counts.
-/

namespace Columnar

/-! ### Ranges in pieces -/

/-- Where a function has no values it may be asked or not. -/
theorem filterMap_range_of_le {α : Type} {f : Nat → Option α} {n m : Nat} (hle : n ≤ m)
    (hnone : ∀ i, n ≤ i → f i = none) :
    (List.range m).filterMap f = (List.range n).filterMap f := by
  obtain ⟨k, rfl⟩ := Nat.exists_eq_add_of_le hle
  have hnil : (List.range k).filterMap (f ∘ fun i ↦ n + i) = [] :=
    List.filterMap_eq_nil_iff.2 fun i _ ↦ hnone _ (Nat.le_add_right n i)
  rw [List.range_add, List.filterMap_append, List.filterMap_map, hnil, List.append_nil]

/-- A range in pieces of one length. -/
theorem flatMap_range_filterMap {α : Type} (f : Nat → Option α) (count length : Nat) :
    ((List.range count).flatMap fun piece ↦
      (List.range length).filterMap fun i ↦ f (piece * length + i)) =
      (List.range (count * length)).filterMap f := by
  induction count with
  | zero => simp
  | succ count ih =>
    rw [List.range_succ, List.flatMap_append, ih, Nat.succ_mul, List.range_add,
      List.filterMap_append, List.filterMap_map, List.flatMap_singleton]
    rfl

/-- Numbered elements, by their numbers. -/
theorem flatMap_zipIdx {α β : Type} {xs : List α} {f : α × Nat → List β} {g : Nat → List β}
    (h : ∀ k x, xs[k]? = some x → f (x, k) = g k) :
    xs.zipIdx.flatMap f = (List.range xs.length).flatMap g := by
  induction xs using List.reverseRecOn with
  | nil => rfl
  | append_singleton xs x ih =>
    rw [List.zipIdx_append, List.flatMap_append, List.length_append, List.length_singleton,
      List.range_succ, List.flatMap_append, ih fun k y hy ↦ h k y ?_]
    · simp [h xs.length x (by simp)]
    · rw [List.getElem?_append_left (List.getElem?_eq_some_iff.1 hy).1, hy]

/-! ### Segments and tables -/

/-- The keys of a segment, read up to the last slot on record. -/
theorem Segment.occupied_eq_of_maxOccupied {s : Segment} {last : Nat}
    (hmax : s.maxOccupied = some last) :
    s.occupied = (List.range (last + 1)).filterMap fun offset ↦
      (s.hash? offset).map fun hash ↦ (offset, hash) := by
  rw [Segment.occupied, hmax]
  refine List.filterMap_congr fun offset _ ↦ ?_
  rw [Segment.hash?, Segment.slot?]
  cases s.links[offset]? with
  | none => rfl
  | some link =>
    cases s.hashes[offset]? with
    | none => rfl
    | some hash => by_cases hv : link = .vacant <;> simp [hv]

/-- The keys of a segment, if nothing was written behind the last slot on record. -/
theorem Segment.occupied_eq {s : Segment}
    (hlast : ∀ offset, s.hash? offset ≠ none → ∃ last, s.maxOccupied = some last ∧ offset ≤ last) :
    s.occupied = (List.range s.links.size).filterMap fun offset ↦
      (s.hash? offset).map fun hash ↦ (offset, hash) := by
  have hbeyond (offset : Nat) (hle : s.links.size ≤ offset) : s.hash? offset = none := by
    rw [Segment.hash?, Segment.slot?, Array.getElem?_eq_none hle]
    rfl
  cases hmax : s.maxOccupied with
  | none =>
    rw [Segment.occupied, hmax]
    refine (List.filterMap_eq_nil_iff.2 fun offset _ ↦ ?_).symm
    by_contra hne
    obtain ⟨last, hsome, -⟩ := hlast offset fun h ↦ hne (by rw [h, Option.map_none])
    simp [hmax] at hsome
  | some last =>
    have hbehind (offset : Nat) (hle : last + 1 ≤ offset) : s.hash? offset = none := by
      by_contra hne
      obtain ⟨last', hsome, hoffset⟩ := hlast offset hne
      rw [hmax] at hsome
      obtain rfl := Option.some.inj hsome
      exact absurd hoffset (Nat.not_le_of_lt hle)
    -- behind the last slot on record and behind the segment there is nothing to be listed
    rw [Segment.occupied_eq_of_maxOccupied hmax]
    rcases Nat.le_total (last + 1) s.links.size with hle | hle
    · refine (filterMap_range_of_le hle fun offset h ↦ ?_).symm
      rw [hbehind offset h, Option.map_none]
    · exact filterMap_range_of_le hle fun offset h ↦ by rw [hbeyond offset h, Option.map_none]

namespace KeyTable

variable {ε : Type} {t : KeyTable ε}

/-- A slot of a table is a slot of a segment. -/
theorem Segmented.hash?_eq (ht : t.Segmented) {number offset : Nat} {s : Segment}
    (hs : t.segments[number]? = some s) (hoffset : offset < t.config.segmentCapacity) :
    t.hash? (number * t.config.segmentCapacity + offset) = s.hash? offset := by
  have hpos := ht.sane.segmentCapacity_pos
  have hdiv : (number * t.config.segmentCapacity + offset) / t.config.segmentCapacity = number := by
    rw [Nat.mul_comm, Nat.mul_add_div hpos, Nat.div_eq_of_lt hoffset, Nat.add_zero]
  have hmod : (number * t.config.segmentCapacity + offset) % t.config.segmentCapacity = offset := by
    rw [Nat.mul_comm, Nat.mul_add_mod, Nat.mod_eq_of_lt hoffset]
  rw [hash?, slot?, ht.split_eq, hdiv, hmod, hs, Option.bind_some, Segment.hash?]

/-- The keys of a table, if no index of a key is too large to be put together. -/
theorem Segmented.occupied_eq_range (ht : t.Segmented)
    (hlast : ∀ s ∈ t.segments, ∀ offset, s.hash? offset ≠ none →
      ∃ last, s.maxOccupied = some last ∧ offset ≤ last)
    (hlt : ∀ index, t.hash? index ≠ none → index < IndexLayout.wordSize) :
    t.occupied = (List.range (t.segments.size * t.config.segmentCapacity)).filterMap fun index ↦
      (t.hash? index).map fun hash ↦ (index, hash) := by
  rw [occupied, ← flatMap_range_filterMap, ← Array.length_toList]
  refine flatMap_zipIdx fun number s hs ↦ ?_
  rw [Array.getElem?_toList] at hs
  have hmem := Array.mem_of_getElem? hs
  show s.occupied.map _ = _
  rw [Segment.occupied_eq (hlast s hmem), ht.size_links s hmem, List.map_filterMap]
  refine List.filterMap_congr fun offset hoffset ↦ ?_
  have hoffset := List.mem_range.1 hoffset
  have hhash := ht.hash?_eq hs hoffset
  rw [hhash]
  cases h : s.hash? offset with
  | none => rfl
  | some hash =>
    have hword := hlt _ (by rw [hhash, h]; exact Option.some_ne_none _)
    simp [layout, ht.sane.join_eq hoffset hword]

end KeyTable

end Columnar
