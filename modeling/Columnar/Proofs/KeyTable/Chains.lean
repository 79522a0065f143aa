import Columnar.Proofs.KeyTable.Slots
import Mathlib.Data.List.Basic

/-!
# Chains

A link leads to a list of slots if following it visits them in order and ends (`Leads`). The
relation depends on the slots in the list alone (`Leads.congr`), so a chain is changed at its end
(`Leads.concat`) without a word on the others.

## One slot behind another

`linkBehind` is all that ever changes a chain: a slot that ends its own chain is pointed to from the
last slot of its bucket, or from the bucket if there is none. `linkBehind_spec` is its law, and is
used for both callers, a table that stores a key and a table that links all of them anew. It asks
for the last slot of the bucket and says nothing about where it was found: **the two callers know it
for different reasons**, one from its search and the other from the list of last slots it keeps.

## Linking all slots anew

A table that grows walks its keys in order and links each behind the last one of its bucket so far.
The invariant of that loop is `Linked`: every bucket leads to its slots among those that were
linked, and the last one of them is on record. What the slots pointed to before does not matter,
since each is made to end its chain first (`Linked.step`). So after the loop every bucket leads to
its slots in the order of the walk (`relinkFrom_spec`), and from empty buckets to just these
(`relink_spec`).

The links change and the keys do not: `Relinked` relates a table to what it becomes and keeps its
configuration, its cut segments and the number of its buckets, and so all that is read from these.
-/

namespace Columnar.KeyTable

variable {ε : Type} {t : KeyTable ε}

/-- Following a link visits the slots of a list and ends. -/
inductive Leads (slot? : Nat → Option (Link × UInt32)) : Link → List Nat → Prop
  | nil : Leads slot? .nil []
  | next {index : Nat} {link : Link} {hash : UInt32} {rest : List Nat} :
    slot? index = some (link, hash) → Leads slot? link rest →
      Leads slot? (.next index) (index :: rest)

namespace Leads

variable {slot? slot?' : Nat → Option (Link × UInt32)} {link : Link} {slots : List Nat}

/-- Only the slots that are visited matter. -/
theorem congr (h : Leads slot? link slots) (hslots : ∀ i ∈ slots, slot?' i = slot? i) :
    Leads slot?' link slots := by
  induction h with
  | nil => exact .nil
  | next hslot _ ih =>
    exact .next ((hslots _ List.mem_cons_self).trans hslot)
      (ih fun i hi ↦ hslots i (List.mem_cons_of_mem _ hi))

/-- Every slot that is visited can be read. -/
theorem isSome_slot? (h : Leads slot? link slots) : ∀ i ∈ slots, (slot? i).isSome := by
  induction h with
  | nil => simp
  | next hslot _ ih =>
    intro i hi
    rcases List.mem_cons.1 hi with rfl | hi
    · rw [hslot, Option.isSome_some]
    · exact ih i hi

/-- A link ends a chain, or leads to the first of the slots that are visited. -/
theorem eq_nil_or_next (h : Leads slot? link slots) :
    link = .nil ∨ ∃ index ∈ slots, link = .next index := by
  cases h with
  | nil => exact .inl rfl
  | next => exact .inr ⟨_, List.mem_cons_self, rfl⟩

/-- A slot that is visited leads to others that are. -/
theorem exists_of_mem (h : Leads slot? link slots) {index : Nat} (hindex : index ∈ slots) :
    ∃ next hash rest, slot? index = some (next, hash) ∧ Leads slot? next rest ∧
      ∀ i ∈ rest, i ∈ slots := by
  induction h with
  | nil => cases hindex
  | @next first next hash rest hslot hrest ih =>
    rcases List.mem_cons.1 hindex with rfl | hindex
    · exact ⟨next, hash, rest, hslot, hrest, fun i ↦ List.mem_cons_of_mem _⟩
    · obtain ⟨next', hash', rest', hslot', hrest', hmem⟩ := ih hindex
      exact ⟨next', hash', rest', hslot', hrest', fun i hi ↦ List.mem_cons_of_mem _ (hmem i hi)⟩

/-- A chain goes on at a slot that its last slot is pointed to. -/
theorem concat {last index : Nat} {hash : UInt32} (h : Leads slot? link (slots ++ [last]))
    (hlast : last ∉ slots) (hslot : ∀ i ∈ slots, slot?' i = slot? i)
    (hlink : slot?' last = (slot? last).map fun slot ↦ (.next index, slot.2))
    (hindex : slot?' index = some (.nil, hash)) :
    Leads slot?' link (slots ++ [last, index]) := by
  induction slots generalizing link with
  | nil =>
    cases h with
    | next hold hrest =>
      rw [hold, Option.map_some] at hlink
      exact .next hlink (.next hindex .nil)
  | cons first slots ih =>
    cases h with
    | next hfirst hrest =>
      refine .next ((hslot first List.mem_cons_self).trans hfirst) (ih hrest ?_ ?_)
      · exact fun h ↦ hlast (List.mem_cons_of_mem _ h)
      · exact fun i hi ↦ hslot i (List.mem_cons_of_mem _ hi)

/-- Following a link finds the list that it leads to. -/
theorem follow_eq (h : Leads t.slot? link slots) {fuel : Nat} (hfuel : slots.length ≤ fuel) :
    t.follow fuel link = .ok slots := by
  induction h generalizing fuel with
  | nil => cases fuel <;> rfl
  | next hslot _ ih =>
    cases fuel with
    | zero => simp at hfuel
    | succ fuel =>
      rw [follow, linkAt_eq hslot, Checked.ok_bind, ih (Nat.le_of_succ_le_succ hfuel)]
      rfl

end Leads

/-! ### The slots of a bucket -/

/-- Whether a slot holds a key of a bucket. -/
def inBucket (t : KeyTable ε) (bucket index : Nat) : Bool :=
  (t.hash? index).any fun hash ↦ t.bucketOf hash == bucket

/-- The slots that hold the keys of a bucket, in order. -/
def bucketSlots (t : KeyTable ε) (bucket : Nat) : List Nat :=
  (List.range t.freeIndex).filter (t.inBucket bucket)

/-- The last slot that holds a key of the bucket of a hash. -/
def lastSlot? (t : KeyTable ε) (hash : UInt32) : Option Nat :=
  (t.bucketSlots (t.bucketOf hash)).getLast?

theorem inBucket_iff {bucket index : Nat} :
    t.inBucket bucket index = true ↔
      ∃ hash, t.hash? index = some hash ∧ t.bucketOf hash = bucket := by
  rw [inBucket, Option.any_eq_true]
  simp only [beq_iff_eq]

/-- A slot is in one bucket. -/
theorem eq_of_inBucket {bucket bucket' index : Nat} (h : t.inBucket bucket index = true)
    (h' : t.inBucket bucket' index = true) : bucket = bucket' := by
  obtain ⟨hash, hhash, rfl⟩ := inBucket_iff.1 h
  obtain ⟨hash', hhash', rfl⟩ := inBucket_iff.1 h'
  obtain rfl := Option.some.inj (hhash.symm.trans hhash')
  rfl

theorem mem_bucketSlots {bucket index : Nat} :
    index ∈ t.bucketSlots bucket ↔
      index < t.freeIndex ∧ ∃ hash, t.hash? index = some hash ∧ t.bucketOf hash = bucket := by
  rw [bucketSlots, List.mem_filter, List.mem_range, inBucket_iff]

theorem pairwise_bucketSlots (bucket : Nat) : (t.bucketSlots bucket).Pairwise (· < ·) :=
  List.Pairwise.filter _ List.pairwise_lt_range

theorem length_bucketSlots_le (bucket : Nat) : (t.bucketSlots bucket).length ≤ t.freeIndex := by
  have h := List.length_filter_le (t.inBucket bucket) (List.range t.freeIndex)
  rwa [List.length_range] at h

theorem bucketOf_lt (h : 0 < t.buckets.size) (hash : UInt32) : t.bucketOf hash < t.buckets.size :=
  Nat.lt_of_le_of_lt Nat.and_le_right (Nat.sub_lt h Nat.one_pos)

/-! ### Changing links -/

/-- A table with other links between the same keys. -/
structure Relinked (t t' : KeyTable ε) : Prop where
  eq : t' = { t with buckets := t'.buckets, segments := t'.segments }
  size_buckets : t'.buckets.size = t.buckets.size
  cut : t'.segments.map Segment.cut = t.segments.map Segment.cut

theorem Relinked.refl (t : KeyTable ε) : t.Relinked t := ⟨rfl, rfl, rfl⟩

theorem Relinked.trans {t' t'' : KeyTable ε} (h : t.Relinked t') (h' : t'.Relinked t'') :
    t.Relinked t'' :=
  ⟨by rw [h'.eq, h.eq], h'.size_buckets.trans h.size_buckets, h'.cut.trans h.cut⟩

theorem Relinked.config {t' : KeyTable ε} (h : t.Relinked t') : t'.config = t.config := by
  rw [h.eq]

theorem Relinked.hash? {t' : KeyTable ε} (h : t.Relinked t') (index : Nat) :
    t'.hash? index = t.hash? index :=
  hash?_congr h.config h.cut index

theorem Relinked.bucketOf {t' : KeyTable ε} (h : t.Relinked t') (hash : UInt32) :
    t'.bucketOf hash = t.bucketOf hash := by
  rw [KeyTable.bucketOf, KeyTable.bucketOf, h.size_buckets]

theorem Relinked.inBucket {t' : KeyTable ε} (h : t.Relinked t') (bucket index : Nat) :
    t'.inBucket bucket index = t.inBucket bucket index := by
  simp only [KeyTable.inBucket, h.hash?, h.bucketOf]

theorem relinked_pointed {index : Nat} {link : Link} (hindex : t.hash? index ≠ none)
    (hlink : link ≠ .vacant) : t.Relinked (t.pointed index link) :=
  ⟨rfl, rfl, map_cut_pointed hindex hlink⟩

/-! ### Linking a slot behind another one -/

/-- A chain without the slot that is pointed elsewhere stays as it is. -/
theorem Leads.pointed {link : Link} {slots : List Nat} {last : Nat} (ht : t.Segmented)
    (h : Leads t.slot? link slots) (hlast : last ∉ slots) (target : Link) :
    Leads (t.pointed last target).slot? link slots := by
  refine h.congr fun i hi ↦ ?_
  rw [ht.slot?_pointed, if_neg fun heq : last = i ↦ hlast (heq ▸ hi)]

/-- A chain whose last slot is pointed to one that ends no chain yet goes on at that. -/
theorem Leads.pointed_concat {link : Link} {before : List Nat} {last index : Nat} {hash : UInt32}
    (ht : t.Segmented) (h : Leads t.slot? link (before ++ [last]))
    (hnodup : (before ++ [last]).Nodup) (hindex : t.slot? index = some (.nil, hash))
    (hfresh : index ∉ before ++ [last]) :
    Leads (t.pointed last (.next index)).slot? link (before ++ [last] ++ [index]) := by
  have hslots (other : Nat) := ht.slot?_pointed last other (.next index)
  have hbefore : last ∉ before := fun hmem ↦
    (List.nodup_append.1 hnodup).2.2 last hmem last (List.mem_singleton_self last) rfl
  have hne : last ≠ index := fun heq ↦
    hfresh (heq ▸ List.mem_append_right before (List.mem_singleton_self last))
  have hnew : (t.pointed last (.next index)).slot? index = some (.nil, hash) := by
    rw [hslots, if_neg hne, hindex]
  rw [List.append_assoc, List.singleton_append]
  refine h.concat hbefore (fun i hi ↦ ?_) ?_ hnew
  · rw [hslots, if_neg fun heq : last = i ↦ hbefore (heq ▸ hi)]
  · rw [hslots, if_pos rfl]

/-- A slot that ends no chain yet can be linked behind the last slot of its bucket, and the chains
of other buckets stay as they are. -/
theorem linkBehind_spec (ht : t.Segmented) (hpos : 0 < t.buckets.size) {index : Nat} {hash : UInt32}
    (hindex : t.slot? index = some (.nil, hash)) (slots : Nat → List Nat)
    (hleads : ∀ bucket link, t.buckets[bucket]? = some link → Leads t.slot? link (slots bucket))
    (hbucket : ∀ bucket, ∀ i ∈ slots bucket, t.inBucket bucket i = true)
    (hnodup : ∀ bucket, (slots bucket).Nodup) (hfresh : ∀ bucket, index ∉ slots bucket) :
    ∃ t', t.linkBehind (slots (t.bucketOf hash)).getLast? (t.bucketOf hash) index = .ok t' ∧
      t.Relinked t' ∧ ∀ bucket link, t'.buckets[bucket]? = some link → Leads t'.slot? link
        (if t.bucketOf hash = bucket then slots bucket ++ [index] else slots bucket) := by
  rcases List.eq_nil_or_concat (slots (t.bucketOf hash)) with hnil | ⟨before, last, hconcat⟩
  · -- an empty bucket starts at the new slot
    refine ⟨{ t with buckets := t.buckets.setIfInBounds (t.bucketOf hash) (.next index) }, ?_,
      ⟨rfl, Array.size_setIfInBounds, rfl⟩, fun bucket link hlink ↦ ?_⟩
    · rw [hnil]
      rfl
    · rw [Array.getElem?_setIfInBounds] at hlink
      by_cases hb : t.bucketOf hash = bucket
      · subst hb
        rw [if_pos rfl, if_pos (bucketOf_lt hpos hash)] at hlink
        obtain rfl := Option.some.inj hlink
        rw [if_pos rfl, hnil]
        exact .next hindex .nil
      · rw [if_neg hb] at hlink ⊢
        exact hleads bucket link hlink
  · -- else the last slot of the chain is pointed to the new one
    rw [List.concat_eq_append] at hconcat
    have hmem : last ∈ slots (t.bucketOf hash) :=
      hconcat ▸ List.mem_append_right before (List.mem_singleton_self last)
    have hlast := hbucket _ last hmem
    obtain ⟨hash', hhash', -⟩ := inBucket_iff.1 hlast
    obtain ⟨head, hhead⟩ : ∃ head, t.buckets[t.bucketOf hash]? = some head :=
      ⟨_, Array.getElem?_eq_getElem (bucketOf_lt hpos hash)⟩
    have hset := setLink_eq ((hleads _ _ hhead).isSome_slot? last hmem) (.next index)
    refine ⟨t.pointed last (.next index), ?_,
      relinked_pointed (hhash' ▸ Option.some_ne_none _) (by simp), fun bucket link hlink ↦ ?_⟩
    · rw [hconcat, List.getLast?_concat]
      exact hset
    · have hchain : Leads t.slot? link (slots bucket) := hleads bucket link hlink
      by_cases hb : t.bucketOf hash = bucket
      · subst hb
        rw [if_pos rfl, hconcat]
        exact (hconcat ▸ hchain).pointed_concat ht (hconcat ▸ hnodup _) hindex (hconcat ▸ hfresh _)
      · -- a slot has one bucket, so the slot that is pointed elsewhere is not on this chain
        rw [if_neg hb]
        exact hchain.pointed ht (fun hi ↦ hb (eq_of_inBucket hlast (hbucket bucket last hi))) _

/-! ### Linking slots anew -/

/-- The slots of a bucket among slots with their hashes. -/
def slotsIn (t : KeyTable ε) (bucket : Nat) (slots : List (Nat × UInt32)) : List Nat :=
  (slots.filter fun slot ↦ t.bucketOf slot.2 == bucket).map Prod.fst

theorem mem_slotsIn {bucket index : Nat} {slots : List (Nat × UInt32)} :
    index ∈ t.slotsIn bucket slots ↔ ∃ hash, (index, hash) ∈ slots ∧ t.bucketOf hash = bucket := by
  simp [slotsIn]

theorem slotsIn_concat (bucket index : Nat) (hash : UInt32) (slots : List (Nat × UInt32)) :
    t.slotsIn bucket (slots ++ [(index, hash)]) =
      if t.bucketOf hash = bucket then t.slotsIn bucket slots ++ [index]
      else t.slotsIn bucket slots := by
  by_cases hb : t.bucketOf hash = bucket <;> simp [slotsIn, hb]

theorem Relinked.slotsIn {t' : KeyTable ε} (h : t.Relinked t') (bucket : Nat)
    (slots : List (Nat × UInt32)) : t'.slotsIn bucket slots = t.slotsIn bucket slots := by
  simp only [KeyTable.slotsIn, h.bucketOf]

/-- Every bucket leads to its slots among those that were linked so far, and the last one of them is
on record. -/
structure Linked (t : KeyTable ε) (tails : Array (Option Nat)) (done : List (Nat × UInt32)) :
    Prop where
  leads : ∀ bucket link, t.buckets[bucket]? = some link → Leads t.slot? link (t.slotsIn bucket done)
  tails : ∀ bucket < t.buckets.size, tails[bucket]? = some (t.slotsIn bucket done).getLast?

/-- Empty buckets lead to no slots. -/
theorem linked_nil
    (hempty : ∀ (bucket : Nat) (link : Link), t.buckets[bucket]? = some link → link = .nil) :
    t.Linked (Array.replicate t.buckets.size none) [] where
  leads bucket link hlink := by
    rw [hempty bucket link hlink]
    exact .nil
  tails bucket hbucket := by
    rw [Array.getElem?_replicate, if_pos hbucket]
    rfl

/-- Linking one more slot: it ends its chain first, then the chain of its bucket goes on at it. -/
theorem Linked.step {tails : Array (Option Nat)} {done : List (Nat × UInt32)}
    (h : t.Linked tails done) (ht : t.Segmented) (hpos : 0 < t.buckets.size) {index : Nat}
    {hash : UInt32} (hnodup : ((done ++ [(index, hash)]).map Prod.fst).Nodup)
    (hhash : ∀ slot ∈ done ++ [(index, hash)], t.hash? slot.1 = some slot.2) :
    ∃ t', t.Relinked t' ∧
      t'.Linked (tails.setIfInBounds (t.bucketOf hash) (some index)) (done ++ [(index, hash)]) ∧
      ∀ slots, relinkFrom ((index, hash) :: slots) tails t =
        relinkFrom slots (tails.setIfInBounds (t.bucketOf hash) (some index)) t' := by
  have hindex : t.hash? index = some hash := hhash (index, hash) (by simp)
  rw [List.map_append, List.nodup_append] at hnodup
  have hfresh (bucket : Nat) : index ∉ t.slotsIn bucket done := by
    intro hmem
    obtain ⟨hash', hdone, -⟩ := mem_slotsIn.1 hmem
    exact hnodup.2.2 index (List.mem_map_of_mem hdone) index (by simp) rfl
  obtain ⟨⟨old, hash'⟩, hslot, hold⟩ := Option.bind_eq_some_iff.1 hindex
  obtain rfl : hash' = hash := by
    split_ifs at hold
    exact Option.some.inj hold
  -- the slot as it is before it is linked, on no chain and at the end of its own
  have hcut : t.Relinked (t.pointed index .nil) :=
    relinked_pointed (hindex ▸ Option.some_ne_none _) (by simp)
  have hslots (other : Nat) := ht.slot?_pointed index other .nil
  obtain ⟨t', ht', hrelinked, hleads⟩ := linkBehind_spec (t := t.pointed index .nil)
    (ht.congr hcut.config hcut.cut) (hcut.size_buckets ▸ hpos)
    (by rw [hslots, if_pos rfl, hslot, Option.map_some]) (t.slotsIn · done)
    (fun bucket link hlink ↦ (h.leads bucket link hlink).congr fun i hi ↦ by
      rw [hslots, if_neg fun heq : index = i ↦ hfresh bucket (heq ▸ hi)])
    (fun bucket i hi ↦ by
      obtain ⟨hash, hdone, hb⟩ := mem_slotsIn.1 hi
      rw [hcut.inBucket]
      exact inBucket_iff.2 ⟨hash, hhash _ (List.mem_append_left _ hdone), hb⟩)
    (fun bucket ↦ List.Nodup.sublist (List.Sublist.map _ List.filter_sublist) hnodup.1) hfresh
  rw [hcut.bucketOf] at ht' hleads
  refine ⟨t', hcut.trans hrelinked, ⟨fun bucket link hlink ↦ ?_, fun bucket hbucket ↦ ?_⟩,
    fun slots ↦ ?_⟩
  · rw [(hcut.trans hrelinked).slotsIn, slotsIn_concat]
    exact hleads bucket link hlink
  · rw [(hcut.trans hrelinked).size_buckets] at hbucket
    have htail := h.tails bucket hbucket
    rw [(hcut.trans hrelinked).slotsIn, slotsIn_concat, Array.getElem?_setIfInBounds]
    split_ifs with hb hlt
    · rw [List.getLast?_concat]
    · exact absurd (hb ▸ (Array.getElem?_eq_some_iff.1 htail).1) hlt
    · exact htail
  · have htail := h.tails _ (bucketOf_lt hpos hash')
    rw [relinkFrom, setLink_eq (hslot ▸ rfl), Checked.ok_bind, Checked.entry, htail]
    simp only [Checked.ok_bind, ht']

/-- Linking slots anew gives every bucket the chain of its slots, in the order in which they are
listed, behind those that were linked before. -/
theorem relinkFrom_spec (slots : List (Nat × UInt32)) :
    ∀ {t : KeyTable ε} {tails : Array (Option Nat)} {done : List (Nat × UInt32)},
      t.Linked tails done → t.Segmented → 0 < t.buckets.size →
      ((done ++ slots).map Prod.fst).Nodup →
      (∀ slot ∈ done ++ slots, t.hash? slot.1 = some slot.2) →
      ∃ t', relinkFrom slots tails t = .ok t' ∧ t.Relinked t' ∧
        ∀ bucket link, t'.buckets[bucket]? = some link →
          Leads t'.slot? link (t.slotsIn bucket (done ++ slots)) := by
  induction slots with
  | nil =>
    intro t tails done h _ _ _ _
    refine ⟨t, rfl, .refl t, fun bucket link hlink ↦ ?_⟩
    rw [List.append_nil]
    exact h.leads bucket link hlink
  | cons slot slots ih =>
    intro t tails done h ht hpos hnodup hhash
    rw [List.append_cons] at hnodup hhash
    obtain ⟨u, hu, hlinked, hgoOn⟩ := h.step ht hpos
      (hnodup.sublist ((List.sublist_append_left _ _).map _))
      fun s hs ↦ hhash s (List.mem_append_left _ hs)
    obtain ⟨v, hv, hv', hleads⟩ := ih hlinked (ht.congr hu.config hu.cut)
      (hu.size_buckets ▸ hpos) hnodup fun s hs ↦ (hu.hash? s.1).trans (hhash s hs)
    refine ⟨v, (hgoOn slots).trans hv, hu.trans hv', fun bucket link hlink ↦ ?_⟩
    rw [List.append_cons, ← hu.slotsIn]
    exact hleads bucket link hlink

/-- Linking slots anew in a table with empty buckets gives every bucket the chain of its slots, in
the order in which the slots are listed. -/
theorem relink_spec (ht : t.Segmented) (hpos : 0 < t.buckets.size)
    (hempty : ∀ (bucket : Nat) (link : Link), t.buckets[bucket]? = some link → link = .nil)
    {slots : List (Nat × UInt32)} (hnodup : (slots.map Prod.fst).Nodup)
    (hhash : ∀ slot ∈ slots, t.hash? slot.1 = some slot.2) :
    ∃ t', t.relink slots = .ok t' ∧ t.Relinked t' ∧
      ∀ bucket link, t'.buckets[bucket]? = some link →
        Leads t'.slot? link (t.slotsIn bucket slots) :=
  relinkFrom_spec slots (linked_nil hempty) ht hpos hnodup hhash

end Columnar.KeyTable
