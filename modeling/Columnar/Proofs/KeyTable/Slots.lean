import Columnar.KeyTable.Basic
import Columnar.Proofs.Checked
import Columnar.Proofs.KeyTable.Layout

/-!
# The slots of a key table

A table as a function from indexes to slots. Everything the chains of a table depend on is in this
function and in the buckets: `slot?` gives the link and the hash of a slot, and `hash?` the hash of
the key in it, if there is a key. Both are missing beyond the segments, and a vacant slot has a link
and a hash but no key.

## Why two readings

`slot?` says what is stored, and `hash?` what is meant by it. Following links is about the first;
which keys there are, and in which bucket they belong, is about the second. **No link between keys
shows in `hash?`**, which is what makes linking anew harmless: `Segment.cut` is a segment without
the links between its keys, and tables with the same cut segments have the same keys (`hash?_congr`,
`forall_segments_congr`).

## Changes of one slot

A segment is changed as a whole, but a change of one of its slots is a change of one value of
`slot?` (`Segmented.slot?_modified`). This rests on `Segmented.split_inj`: different indexes are
different places, so that no other index can be meant. Pointing an occupied slot elsewhere is the
change that growing a table makes over and over; it leaves every cut segment as it is
(`map_cut_pointed`).

`Segmented` is the assumption of all this: a configuration that passed its check, and segments of
the capacity it names.
-/

namespace Columnar

namespace Segment

variable (s : Segment)

/-- The link and the hash of a slot. -/
def slot? (offset : Nat) : Option (Link × UInt32) :=
  match s.links[offset]?, s.hashes[offset]? with
  | some link, some hash => some (link, hash)
  | _, _ => none

/-- The hash of the key in a slot, if there is a key. -/
def hash? (offset : Nat) : Option UInt32 :=
  (s.slot? offset).bind fun slot ↦ if slot.1 = .vacant then none else some slot.2

/-- A segment with every chain cut behind each of its keys. -/
def cut : Segment :=
  { s with links := s.links.map fun link ↦ if link = .vacant then .vacant else .nil }

/-- A segment with a slot pointed elsewhere. -/
def pointed (offset : Nat) (link : Link) : Segment :=
  { s with links := s.links.setIfInBounds offset link }

variable {s}

theorem slot?_eq_some_iff {offset : Nat} {link : Link} {hash : UInt32} :
    s.slot? offset = some (link, hash) ↔
      s.links[offset]? = some link ∧ s.hashes[offset]? = some hash := by
  rw [slot?]
  cases s.links[offset]? <;> cases s.hashes[offset]? <;> simp

theorem hash?_cut (offset : Nat) : s.cut.hash? offset = s.hash? offset := by
  simp only [hash?, slot?, cut, Array.getElem?_map]
  cases s.links[offset]? with
  | none => rfl
  | some link =>
    cases s.hashes[offset]? with
    | none => rfl
    | some hash => by_cases h : link = .vacant <;> simp [h]

theorem slot?_pointed (offset other : Nat) (link : Link) :
    (s.pointed offset link).slot? other =
      if offset = other then (s.slot? other).map fun slot ↦ (link, slot.2) else s.slot? other := by
  simp only [slot?, pointed, Array.getElem?_setIfInBounds]
  by_cases h : offset = other
  · subst h
    by_cases hlt : offset < s.links.size
    · cases s.hashes[offset]? <;> simp [hlt]
    · simp [hlt]
  · simp [h]

/-- Pointing an occupied slot elsewhere changes nothing but links between keys. -/
theorem cut_pointed {offset : Nat} {link : Link} (hoffset : s.hash? offset ≠ none)
    (hlink : link ≠ .vacant) : (s.pointed offset link).cut = s.cut := by
  have hlinks : (s.pointed offset link).cut.links = s.cut.links := by
    refine Array.ext_getElem? fun other ↦ ?_
    simp only [cut, pointed, Array.getElem?_map, Array.getElem?_setIfInBounds]
    by_cases h : offset = other
    · subst h
      cases hl : s.links[offset]? with
      | none => simp [hash?, slot?, hl] at hoffset
      | some old =>
        have hlt : offset < s.links.size := (Array.getElem?_eq_some_iff.1 hl).1
        have hold : old ≠ .vacant := by
          rintro rfl
          refine hoffset ?_
          simp only [hash?, slot?, hl]
          cases s.hashes[offset]? <;> simp
        simp [hlt, hlink, hold]
    · simp [h]
  show ({ s with links := (s.pointed offset link).cut.links } : Segment) =
    { s with links := s.cut.links }
  rw [hlinks]

end Segment

namespace KeyTable

variable {ε : Type} (t : KeyTable ε)

/-- The link and the hash of a slot. -/
def slot? (index : Nat) : Option (Link × UInt32) :=
  t.segments[(t.layout.split index).segment]?.bind (·.slot? (t.layout.split index).offset)

/-- The hash of the key in a slot, if there is a key. -/
def hash? (index : Nat) : Option UInt32 :=
  (t.slot? index).bind fun slot ↦ if slot.1 = .vacant then none else some slot.2

/-- The table with the segment of an index changed. -/
def modified (index : Nat) (f : Segment → Segment) : KeyTable ε :=
  { t with segments := t.segments.modify (t.layout.split index).segment f }

/-- The table with a slot pointed elsewhere. -/
def pointed (index : Nat) (link : Link) : KeyTable ε :=
  t.modified index (·.pointed (t.layout.split index).offset link)

/-- A sound configuration, and segments of its capacity. -/
structure Segmented (t : KeyTable ε) : Prop where
  sane : t.config.Sane
  size_links : ∀ s ∈ t.segments, s.links.size = t.config.segmentCapacity
  size_hashes : ∀ s ∈ t.segments, s.hashes.size = t.config.segmentCapacity

variable {t}

theorem Segmented.split_eq (ht : t.Segmented) (index : Nat) :
    t.layout.split index =
      ⟨index / t.config.segmentCapacity, index % t.config.segmentCapacity⟩ :=
  ht.sane.split_eq index

/-- Different indexes are different places. -/
theorem Segmented.split_inj (ht : t.Segmented) {i j : Nat}
    (h : t.layout.split i = t.layout.split j) : i = j := by
  rw [ht.split_eq, ht.split_eq, SlotAddress.mk.injEq] at h
  rw [← Nat.div_add_mod i t.config.segmentCapacity, h.1, h.2, Nat.div_add_mod]

theorem slot?_eq_some_iff {index : Nat} {slot : Link × UInt32} :
    t.slot? index = some slot ↔ ∃ segment,
      t.segments[(t.layout.split index).segment]? = some segment ∧
        segment.slot? (t.layout.split index).offset = some slot := by
  rw [slot?, Option.bind_eq_some_iff]

theorem linkAt_eq {index : Nat} {link : Link} {hash : UInt32}
    (h : t.slot? index = some (link, hash)) : t.linkAt index = .ok link := by
  obtain ⟨segment, hsegment, hslot⟩ := slot?_eq_some_iff.1 h
  obtain ⟨hlink, -⟩ := Segment.slot?_eq_some_iff.1 hslot
  simp [linkAt, segmentOf, Checked.entry, hsegment, Segment.link, hlink]

theorem hashAt_eq {index : Nat} {link : Link} {hash : UInt32}
    (h : t.slot? index = some (link, hash)) : t.hashAt index = .ok hash := by
  obtain ⟨segment, hsegment, hslot⟩ := slot?_eq_some_iff.1 h
  obtain ⟨-, hhash⟩ := Segment.slot?_eq_some_iff.1 hslot
  simp [hashAt, segmentOf, Checked.entry, hsegment, Segment.hashAt, hhash]

/-- A slot that can be read is one that `slot?` gives. -/
theorem slot?_eq_some_iff_ok {index : Nat} {link : Link} {hash : UInt32} :
    t.slot? index = some (link, hash) ↔ t.linkAt index = .ok link ∧ t.hashAt index = .ok hash := by
  refine ⟨fun h ↦ ⟨linkAt_eq h, hashAt_eq h⟩, fun ⟨hlink, hhash⟩ ↦ ?_⟩
  rw [slot?_eq_some_iff]
  cases hsegment : t.segments[(t.layout.split index).segment]? with
  | none => simp [linkAt, segmentOf, Checked.entry, hsegment] at hlink
  | some segment =>
    simp only [linkAt, hashAt, segmentOf, Checked.entry, hsegment, Checked.ok_bind, Segment.link,
      Segment.hashAt] at hlink hhash
    refine ⟨segment, rfl, Segment.slot?_eq_some_iff.2 ⟨?_, ?_⟩⟩
    · cases hl : segment.links[(t.layout.split index).offset]? <;> simp_all
    · cases hh : segment.hashes[(t.layout.split index).offset]? <;> simp_all

theorem hash?_eq_some_iff {index : Nat} {hash : UInt32} :
    t.hash? index = some hash ↔
      ∃ link, t.linkAt index = .ok link ∧ link ≠ .vacant ∧ t.hashAt index = .ok hash := by
  simp only [hash?, Option.bind_eq_some_iff, Prod.exists, slot?_eq_some_iff_ok]
  constructor
  · rintro ⟨link, hash', ⟨hlink, hhash⟩, h⟩
    split_ifs at h with hvacant
    obtain rfl := Option.some.inj h
    exact ⟨link, hlink, hvacant, hhash⟩
  · rintro ⟨link, hlink, hvacant, hhash⟩
    exact ⟨link, hash, ⟨hlink, hhash⟩, by simp [hvacant]⟩

/-- There are the slots of the segments that there are. -/
theorem Segmented.isSome_slot?_iff (ht : t.Segmented) {index : Nat} :
    (t.slot? index).isSome ↔ index < t.segments.size * t.config.segmentCapacity := by
  have hpos := ht.sane.segmentCapacity_pos
  have hdiv : index / t.config.segmentCapacity < t.segments.size ↔
      index < t.segments.size * t.config.segmentCapacity := Nat.div_lt_iff_lt_mul hpos
  rw [← hdiv, slot?, ht.split_eq]
  by_cases h : index / t.config.segmentCapacity < t.segments.size
  · have hmem := Array.getElem_mem h
    have hoffset : index % t.config.segmentCapacity < t.config.segmentCapacity :=
      Nat.mod_lt _ hpos
    simp [h, Segment.slot?, ht.size_links _ hmem, ht.size_hashes _ hmem, hoffset]
  · simp [h]

/-! ### Changing a slot -/

/-- A change of one slot of a segment is a change of one slot of the table. -/
theorem Segmented.slot?_modified (ht : t.Segmented) (index : Nat) {f : Segment → Segment}
    {g : Link × UInt32 → Link × UInt32}
    (hf : ∀ (s : Segment) (offset : Nat), (f s).slot? offset =
      if (t.layout.split index).offset = offset then (s.slot? offset).map g else s.slot? offset)
    (other : Nat) :
    (t.modified index f).slot? other =
      if index = other then (t.slot? other).map g else t.slot? other := by
  have hread : (t.modified index f).slot? other =
      (t.modified index f).segments[(t.layout.split other).segment]?.bind
        (·.slot? (t.layout.split other).offset) := rfl
  rw [hread, modified, Array.getElem?_modify, slot?]
  by_cases hs : (t.layout.split index).segment = (t.layout.split other).segment
  · have hiff : (t.layout.split index).offset = (t.layout.split other).offset ↔ index = other :=
      ⟨fun ho ↦ ht.split_inj (by
        cases h : t.layout.split index
        cases h' : t.layout.split other
        simp_all), fun h ↦ by rw [h]⟩
    -- in the segment that is changed the offset tells the slots apart
    rw [if_pos hs]
    cases t.segments[(t.layout.split other).segment]? with
    | none => simp
    | some segment => simp [hf, hiff]
  · have hne : index ≠ other := fun h ↦ hs (h ▸ rfl)
    rw [if_neg hs, if_neg hne]

theorem Segmented.slot?_pointed (ht : t.Segmented) (index other : Nat) (link : Link) :
    (t.pointed index link).slot? other =
      if index = other then (t.slot? other).map fun slot ↦ (link, slot.2) else t.slot? other :=
  ht.slot?_modified index (fun s offset ↦ s.slot?_pointed _ offset link) other

/-- A change of the segment of a slot that succeeds. -/
theorem changeSegment_eq {α : Type} {index : Nat} {segment : Segment}
    {change : Nat → Segment → Checked (Segment × α)} {f : Segment → Segment} {result : α}
    (hsegment : t.segments[(t.layout.split index).segment]? = some segment)
    (hchange : change (t.layout.split index).offset segment = .ok (f segment, result)) :
    t.changeSegment index change = .ok (t.modified index f, result) := by
  -- modifying an entry that is known is writing it
  have hsegments : (t.modified index f).segments =
      t.segments.setIfInBounds (t.layout.split index).segment (f segment) := by
    refine Array.ext_getElem? fun other ↦ ?_
    rw [modified, Array.getElem?_modify, Array.getElem?_setIfInBounds]
    split_ifs with hother hsize
    · rw [← hother, hsegment, Option.map_some]
    · rw [← hother, Array.getElem?_eq_none (by omega), Option.map_none]
    · rfl
  have hmodified : t.modified index f = { t with segments := (t.modified index f).segments } := rfl
  rw [hmodified, hsegments]
  simp [changeSegment, Checked.change, hsegment, hchange, Array.setIfInBounds_setIfInBounds]

/-- A change of the segment of a slot that is abandoned. -/
theorem changeSegment_eq_error {α : Type} {index : Nat} {segment : Segment}
    {change : Nat → Segment → Checked (Segment × α)} {trap : Trap}
    (hsegment : t.segments[(t.layout.split index).segment]? = some segment)
    (hchange : change (t.layout.split index).offset segment = .error trap) :
    t.changeSegment index change = .error trap := by
  simp [changeSegment, Checked.change, hsegment, hchange]

theorem setLink_eq {index : Nat} (h : (t.slot? index).isSome) (link : Link) :
    t.setLink index link = .ok (t.pointed index link) := by
  obtain ⟨⟨old, hash⟩, hslot⟩ := Option.isSome_iff_exists.1 h
  obtain ⟨segment, hsegment, hold⟩ := slot?_eq_some_iff.1 hslot
  obtain ⟨hold, -⟩ := Segment.slot?_eq_some_iff.1 hold
  have hlt : (t.layout.split index).offset < segment.links.size :=
    (Array.getElem?_eq_some_iff.1 hold).1
  rw [setLink, changeSegment_eq (f := (·.pointed (t.layout.split index).offset link)) hsegment
    (by rw [Segment.setLink, if_pos hlt]; rfl)]
  rfl

/-- Pointing an occupied slot elsewhere changes nothing but links between keys. -/
theorem map_cut_pointed {index : Nat} {link : Link} (hindex : t.hash? index ≠ none)
    (hlink : link ≠ .vacant) :
    (t.pointed index link).segments.map Segment.cut = t.segments.map Segment.cut := by
  refine Array.ext_getElem? fun k ↦ ?_
  rw [Array.getElem?_map, Array.getElem?_map, pointed, modified, Array.getElem?_modify]
  split_ifs with hk
  · subst hk
    rw [hash?, slot?] at hindex
    cases hs : t.segments[(t.layout.split index).segment]? with
    | none => rfl
    | some segment =>
      rw [hs, Option.bind_some] at hindex
      rw [Option.map_some, Option.map_some, Option.map_some]
      exact congrArg some (segment.cut_pointed hindex hlink)
  · rfl

/-- What is in the slots does not depend on the links between keys. -/
theorem hash?_congr {t t' : KeyTable ε} (hconfig : t'.config = t.config)
    (hcut : t'.segments.map Segment.cut = t.segments.map Segment.cut) (index : Nat) :
    t'.hash? index = t.hash? index := by
  -- the hash of a slot can be read off the segments without their chains
  have hcuts (u : KeyTable ε) : u.hash? index =
      (u.segments.map Segment.cut)[(u.layout.split index).segment]?.bind
        (·.hash? (u.layout.split index).offset) := by
    rw [hash?, slot?, Array.getElem?_map]
    cases u.segments[(u.layout.split index).segment]? with
    | none => rfl
    | some segment =>
      rw [Option.map_some, Option.bind_some, Option.bind_some, Segment.hash?_cut, Segment.hash?]
  have hlayout : t'.layout = t.layout := by rw [layout, layout, hconfig]
  rw [hcuts, hcuts, hcut, hlayout]

/-- What does not depend on the links between keys is kept by whatever changes only these. -/
theorem forall_segments_congr {t t' : KeyTable ε} {P : Segment → Prop}
    (hP : ∀ s : Segment, P s.cut ↔ P s)
    (hcut : t'.segments.map Segment.cut = t.segments.map Segment.cut)
    (h : ∀ s ∈ t.segments, P s) : ∀ s ∈ t'.segments, P s := by
  intro s hs
  have hmem : s.cut ∈ t.segments.map Segment.cut := hcut ▸ Array.mem_map_of_mem hs
  obtain ⟨old, hold, heq⟩ := Array.mem_map.1 hmem
  rw [← hP, ← heq, hP]
  exact h old hold

theorem Segmented.congr {t t' : KeyTable ε} (ht : t.Segmented) (hconfig : t'.config = t.config)
    (hcut : t'.segments.map Segment.cut = t.segments.map Segment.cut) : t'.Segmented where
  sane := hconfig ▸ ht.sane
  size_links := forall_segments_congr (fun s ↦ by rw [hconfig, Segment.cut, Array.size_map]) hcut
    (hconfig ▸ ht.size_links)
  size_hashes := forall_segments_congr (fun s ↦ Iff.rfl) hcut (hconfig ▸ ht.size_hashes)

end KeyTable

end Columnar
