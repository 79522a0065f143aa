import Columnar.Proofs.KeyTable.Calls

/-!
# What puts do to keys

The part of a table that answers depend on is the hash in each slot, the keys in the segments, and a
few counts; how the slots are linked does not show. This module says what a put does to that part,
so that the modules behind it are about keys and never about links.

## Slots are used up

An attempt to store a key uses up the next slot (`Used`): the keys beside the slot are rewritten,
the slot holds the key with its hash or is spent, and nothing else of this part changes. That the
table may grow on the way is gone from the statement (`Prepared.attempt`), and so is whether a new
segment was begun. Storing a key therefore does what storing it into the next slot of the same keys
does (`Sound.putNew_eq`), which is how two tables are compared later.

## Keys are looked up without chains

Looking a key up tests the slots with its hash one after the other, whatever chains they are on
(`Sound.find_fst`). It follows that lookups in two tables come to the same where the same slots are
tested and the tests come to the same (`Sound.find_congr`). **Traps are part of this**: a test that
is abandoned at one key is abandoned in both tables, since the order of the tests is the same.

The keys beside a slot are those of its segment. `keysAt` names them, with one lemma for the segment
that is written and one for the others.
-/

namespace Columnar.KeyTable

variable {ε : Type} {t t' : KeyTable ε}

/-- The keys of the segments. -/
def keys (t : KeyTable ε) : Array Block := t.segments.map Segment.keys

/-- The keys among which the key of a slot is. -/
def keysAt (t : KeyTable ε) (index : Nat) : Checked Block :=
  Checked.entry t.keys (t.layout.split index).segment

theorem keysAt_eq_ok_iff {index : Nat} {keys : Block} :
    t.keysAt index = .ok keys ↔ ∃ segment, t.segmentOf index = .ok segment ∧
      segment.keys = keys := by
  rw [keysAt, KeyTable.keys, segmentOf, Checked.entry, Checked.entry, Array.getElem?_map]
  cases t.segments[(t.layout.split index).segment]? <;> simp

/-- Where there is a slot there are keys. -/
theorem exists_keysAt {index : Nat} (h : t.hash? index ≠ none) :
    ∃ keys, t.keysAt index = .ok keys := by
  obtain ⟨hash, hholds⟩ := hash?_ne_none_iff.1 h
  obtain ⟨segment, hsegment, -⟩ := hholds.exists_segment
  exact ⟨_, keysAt_eq_ok_iff.2 ⟨segment, hsegment, rfl⟩⟩

/-- The keys do not depend on the links between them. -/
theorem keys_congr (hcut : t'.segments.map Segment.cut = t.segments.map Segment.cut) :
    t'.keys = t.keys := by
  have hkeys (u : KeyTable ε) : u.keys = (u.segments.map Segment.cut).map Segment.keys := by
    rw [KeyTable.keys, Array.map_map]
    rfl
  rw [hkeys, hkeys, hcut]

theorem keys_modified {index : Nat} {f : Segment → Segment} {keys : Block}
    (hf : ∀ s, (f s).keys = keys) :
    (t.modified index f).keys = t.keys.modify (t.layout.split index).segment fun _ ↦ keys := by
  refine Array.ext_getElem? fun k ↦ ?_
  simp only [KeyTable.keys, modified, Array.getElem?_map, Array.getElem?_modify]
  split_ifs
  · cases t.segments[k]? <;> simp [hf]
  · rfl

theorem keys_fresh (config : TableConfig) (ops : KeyOps ε) (metrics : TableMetrics) :
    (fresh config ops metrics).keys = #[(newSegment config).keys] := by
  simp [KeyTable.keys, fresh]

theorem keys_extended_eq (t : KeyTable ε) :
    t.extended.keys = if (t.layout.split t.freeIndex).segment = t.keys.size then
      t.keys.push (newSegment t.config).keys else t.keys := by
  simp only [KeyTable.keys, extended, Array.size_map]
  split_ifs
  · rw [Array.map_push]
  · rfl

theorem nextKeys_eq (t : KeyTable ε) :
    t.nextKeys = t.keys[(t.layout.split t.freeIndex).segment]?.getD (newSegment t.config).keys := by
  rw [nextKeys, KeyTable.keys, Array.getElem?_map]
  cases t.segments[(t.layout.split t.freeIndex).segment]? <;> rfl

/-! ### Storing keys -/

/-- A table whose next slot was used up: the keys beside it were rewritten, and it holds a key with
a hash, or is spent if there is none. -/
structure Used (t : KeyTable ε) (keys : Block) (hash : Option UInt32) (t' : KeyTable ε) : Prop where
  sound : t'.Sound
  config_eq : t'.config = t.config
  ops_eq : t'.ops = t.ops
  freeIndex_eq : t'.freeIndex = t.freeIndex + 1
  entries_eq : t'.entries = t.entries + if hash.isSome then 1 else 0
  outputCursor_eq : t'.outputCursor = t.outputCursor
  outputCount_eq : t'.outputCount = t.outputCount
  hash?_eq : ∀ index, t'.hash? index = if t.freeIndex = index then hash else t.hash? index
  keys_eq : t'.keys = t.extended.keys.modify (t.layout.split t.freeIndex).segment fun _ ↦ keys

/-- What an attempt to store a key in the next slot leads to. -/
inductive Attempt (t : KeyTable ε) (hash : UInt32) (input : Block) (row : Nat) :
    KeyTable ε × Except (TableError ε) PutStatus → Prop
  | exhausted : IndexLayout.maxIndex < t.freeIndex →
    Attempt t hash input row (t, .error (.indexesExhausted (IndexLayout.maxIndex + 1)))
  | spent {t' : KeyTable ε} {keys : Block} {cause : ε} : t.freeIndex ≤ IndexLayout.maxIndex →
    t.ops.store input row t.nextKeys (t.layout.split t.freeIndex).offset =
      .ok (keys, .error cause) →
    t.Used keys none t' →
    Attempt t hash input row (t', .error (.insertFailed t.freeIndex cause))
  | stored {t' : KeyTable ε} {keys : Block} : t.freeIndex ≤ IndexLayout.maxIndex →
    t.ops.store input row t.nextKeys (t.layout.split t.freeIndex).offset = .ok (keys, .ok ()) →
    t.Used keys (some hash) t' →
    Attempt t hash input row (t', .ok (.inserted t.freeIndex))

/-- Storing a key into a table that was prepared for it uses up the slot. -/
theorem Prepared.attempt {u : KeyTable ε} (hu : t.Prepared u) (h : t.Sound)
    (hindex : t.freeIndex ≤ IndexLayout.maxIndex) {segment : Segment}
    (hkeys : segment.keys = t.nextKeys) {hash : UInt32} {input : Block} {row : Nat}
    {outcome : KeyTable ε × Except (TableError ε) PutStatus}
    (hinsertion : Insertion u t.freeIndex segment hash input row outcome) :
    Attempt t hash input row outcome := by
  have hops : u.ops = t.ops := by rw [hu.eq]; rfl
  have hlayout : u.layout = t.layout := by rw [layout, hu.eq]; rfl
  have hconfig : u.config = t.config := by rw [hu.eq]; rfl
  have hfreeIndex : u.freeIndex = t.freeIndex + 1 := by rw [hu.eq]; rfl
  have hentries : u.entries = t.entries := by rw [hu.eq]; rfl
  have hcursor : u.outputCursor = t.outputCursor := by rw [hu.eq]; rfl
  have hcount : u.outputCount = t.outputCount := by rw [hu.eq]; rfl
  have hallKeys : u.keys = t.extended.keys := keys_congr hu.cut
  have hhash (index : Nat) : u.hash? index = t.hash? index := by
    rw [hash?_congr (show u.config = t.extended.config from hconfig) hu.cut, hash?_extended]
  have hfree : t.hash? t.freeIndex = none := h.hash?_beyond _ (Nat.le_refl _)
  cases hinsertion with
  | @failed keys cause hstore hsound =>
    rw [hops, hkeys, hlayout] at hstore
    refine .spent hindex hstore ⟨hsound, hconfig, hops, hfreeIndex, hentries, hcursor, hcount,
      fun index ↦ ?_, ?_⟩
    · rw [hash?, hu.sound.toSegmented.slot?_rekeyed, ← hash?, hhash]
      split_ifs with heq
      · exact heq ▸ hfree
      · rfl
    · refine (keys_modified (f := (·.rekeyed keys)) fun _ ↦ rfl).trans ?_
      rw [hallKeys, hlayout]
  | @stored t' keys hstore hsound hcut hfields =>
    rw [hops, hkeys, hlayout] at hstore
    have hlt : t.freeIndex < u.freeIndex := hfreeIndex ▸ Nat.lt_succ_self _
    refine .stored hindex hstore ⟨hsound, ?_, ?_, ?_, ?_, ?_, ?_, fun index ↦ ?_, ?_⟩
    · rw [hfields, hconfig]
    · rw [hfields, hops]
    · rw [hfields, hfreeIndex]
    · rw [hfields, hentries]; rfl
    · rw [hfields, hcursor]
    · rw [hfields, hcount]
    · rw [hash?_congr (by rw [hfields]; rfl) hcut, hu.sound.hash?_written hlt, hhash]
    · refine (keys_congr hcut).trans ((keys_modified
        (f := (·.written keys (u.layout.split t.freeIndex).offset hash)) fun _ ↦ rfl).trans ?_)
      rw [hallKeys, hlayout]

theorem Storing.attempt (h : t.Sound) {hash : UInt32} {input : Block} {row : Nat}
    {outcome : KeyTable ε × Except (TableError ε) PutStatus}
    (hstoring : Storing t hash input row outcome) : Attempt t hash input row outcome := by
  rcases Nat.lt_or_ge IndexLayout.maxIndex t.freeIndex with hlt | hle
  · cases hstoring with
    | exhausted => exact .exhausted hlt
    | stored hprepared =>
      have hfreeIndex := hprepared.sound.freeIndex_le
      rw [hprepared.eq] at hfreeIndex
      exact absurd (Nat.le_of_succ_le_succ hfreeIndex) (Nat.not_le_of_lt hlt)
  · cases hstoring with
    | exhausted hlt => exact absurd hle (Nat.not_le_of_lt hlt)
    | stored hprepared hkeys hinsertion => exact hprepared.attempt h hle hkeys hinsertion

/-- Storing a key that is not in the table does what storing it into the next slot does. -/
theorem Sound.putNew_eq (h : t.Sound) (hindex : t.freeIndex ≤ IndexLayout.maxIndex) (hash : UInt32)
    (input : Block) (row : Nat) :
    match t.ops.store input row t.nextKeys (t.layout.split t.freeIndex).offset with
    | .error trap => t.putNew hash (t.lastSlot? hash) input row = .error trap
    | .ok (keys, .error cause) => ∃ t', t.Used keys none t' ∧
        t.putNew hash (t.lastSlot? hash) input row =
          .ok (t', .error (.insertFailed t.freeIndex cause))
    | .ok (keys, .ok ()) => ∃ t', t.Used keys (some hash) t' ∧
        t.putNew hash (t.lastSlot? hash) input row = .ok (t', .ok (.inserted t.freeIndex)) := by
  have hsat := (h.putNew hash input row).mono (fun _ ↦ id) fun _ houtcome ↦ houtcome.attempt h
  cases hput : t.putNew hash (t.lastSlot? hash) input row with
  | error trap =>
    rw [hput] at hsat
    rw [show _ = _ from hsat]
  | ok outcome =>
    have hattempt := hsat.of_eq_ok hput
    cases hattempt with
    | exhausted hlt => exact absurd hindex (Nat.not_le_of_lt hlt)
    | spent _ hstore hused =>
      rw [hstore]
      exact ⟨_, hused, rfl⟩
    | stored _ hstore hused =>
      rw [hstore]
      exact ⟨_, hused, rfl⟩

/-- A used slot is one of any table that differs only in its metrics. -/
theorem Used.of_counted {visited : Nat} {keys : Block} {hash : Option UInt32}
    (h : (t.counted visited).Used keys hash t') : t.Used keys hash t' :=
  ⟨h.sound, h.config_eq, h.ops_eq, h.freeIndex_eq, h.entries_eq, h.outputCursor_eq,
    h.outputCount_eq, h.hash?_eq, h.keys_eq⟩

/-- What putting the key in a row with a hash leads to. -/
inductive PutEffect (t : KeyTable ε) (hash : UInt32) (input : Block) (row : Nat) :
    KeyTable ε × Except (TableError ε) PutStatus → Prop
  | present {index visited : Nat} :
    IsLeast? (t.Matches hash (t.ops.agrees input row)) (some index) →
    PutEffect t hash input row (t.counted visited, .ok (.present index))
  | new {visited : Nat} {outcome : KeyTable ε × Except (TableError ε) PutStatus} :
    IsLeast? (t.Matches hash (t.ops.agrees input row)) none →
    Attempt (t.counted visited) hash input row outcome → PutEffect t hash input row outcome

theorem Putting.effect (h : t.Sound) {hash : UInt32} {input : Block} {row : Nat}
    {outcome : KeyTable ε × Except (TableError ε) PutStatus}
    (hputting : Putting t hash input row outcome) : PutEffect t hash input row outcome := by
  cases hputting with
  | present hleast => exact .present hleast
  | @new visited _ hleast hstoring =>
    have hcounted : (t.counted visited).Sound := h.congr rfl rfl rfl rfl rfl
    exact .new hleast (hstoring.attempt hcounted)

/-! ### The keys after a slot was used up -/

namespace Used

variable {keys : Block} {hash : Option UInt32} {index : Nat}

theorem layout_eq (h : t.Used keys hash t') : t'.layout = t.layout := by
  rw [layout, layout, h.config_eq]

/-- The segment of the slot is there. -/
theorem lt_size_keys (h : t.Used keys hash t') :
    (t.layout.split t.freeIndex).segment < t.extended.keys.size := by
  have hlt : t.freeIndex < t'.freeIndex := h.freeIndex_eq ▸ Nat.lt_succ_self _
  obtain ⟨slot, hslot⟩ := Option.isSome_iff_exists.1 (h.sound.isSome_slot? hlt)
  obtain ⟨segment, hsegment, -⟩ := slot?_eq_some_iff.1 hslot
  have hsize := congrArg Array.size h.keys_eq
  rw [Array.size_modify, KeyTable.keys, Array.size_map] at hsize
  rw [← hsize, ← h.layout_eq]
  exact (Array.getElem?_eq_some_iff.1 hsegment).1

/-- The keys beside the slot are those that were written. -/
theorem keysAt_of_segment_eq (h : t.Used keys hash t')
    (hsegment : (t.layout.split index).segment = (t.layout.split t.freeIndex).segment) :
    t'.keysAt index = .ok keys := by
  rw [keysAt, h.layout_eq, h.keys_eq, hsegment, Checked.entry, Array.getElem?_modify, if_pos rfl,
    Array.getElem?_eq_getElem h.lt_size_keys]
  rfl

/-- The keys elsewhere are as before. -/
theorem keysAt_of_segment_ne (h : t.Used keys hash t')
    (hsegment : (t.layout.split index).segment ≠ (t.layout.split t.freeIndex).segment)
    (hindex : t.hash? index ≠ none) : t'.keysAt index = t.keysAt index := by
  obtain ⟨old, hold⟩ := exists_keysAt hindex
  rw [keysAt, Checked.entry] at hold
  have hlt : (t.layout.split index).segment < t.keys.size := by
    by_contra hge
    rw [Array.getElem?_eq_none (Nat.le_of_not_lt hge)] at hold
    cases hold
  rw [keysAt, h.layout_eq, h.keys_eq, keysAt, Checked.entry, Checked.entry, Array.getElem?_modify,
    if_neg hsegment.symm, keys_extended_eq]
  split_ifs
  · rw [Array.getElem?_push_lt hlt, Array.getElem?_eq_getElem hlt]
  · rfl

end Used

/-- The next key is stored among the keys of its segment. -/
theorem keysAt_eq_nextKeys
    (hsegment : (t.layout.split index).segment = (t.layout.split t.freeIndex).segment)
    (hindex : t.hash? index ≠ none) : t.keysAt index = .ok t.nextKeys := by
  obtain ⟨old, hold⟩ := exists_keysAt hindex
  rw [hold, nextKeys_eq, ← hsegment]
  rw [keysAt, Checked.entry] at hold
  cases hkeys : t.keys[(t.layout.split index).segment]? with
  | none => simp [hkeys] at hold
  | some keys =>
    rw [hkeys] at hold
    exact hold.symm

/-! ### Finding keys -/

/-- The slots whose keys have a hash, in order. -/
def candidates (t : KeyTable ε) (hash : UInt32) : List Nat :=
  (List.range t.freeIndex).filter fun index ↦ t.hash? index = some hash

/-- Test the key in a slot. -/
def tested (t : KeyTable ε) (test : Block → Nat → Checked Bool) (index : Nat) : Checked Bool := do
  test (← t.keysAt index) (t.layout.split index).offset

/-- Searching slots with keys tests those that have the hash. -/
theorem search_fst (hash : UInt32) (test : Block → Nat → Checked Bool) {slots : List Nat}
    (hkeys : ∀ i ∈ slots, t.hash? i ≠ none) :
    Prod.fst <$> t.search hash test slots =
      (slots.filter fun i ↦ t.hash? i = some hash).findM? (t.tested test) := by
  induction slots with
  | nil => rfl
  | cons index rest ih =>
    have hrest := ih fun i hi ↦ hkeys i (List.mem_cons_of_mem _ hi)
    obtain ⟨cached, hholds⟩ := hash?_ne_none_iff.1 (hkeys index List.mem_cons_self)
    obtain ⟨segment, hsegment, hcached⟩ := hholds.exists_segment
    have hhash := holds_iff.1 hholds
    -- past a slot the search counts it, and is the one in the others
    have hgoOn : Prod.fst <$> (do
        let found ← t.search hash test rest
        return (found.1, found.2 + 1) : Checked (Option Nat × Nat)) =
        (rest.filter fun i ↦ t.hash? i = some hash).findM? (t.tested test) := by
      rw [← hrest]
      cases t.search hash test rest <;> rfl
    rw [search]
    simp only [hsegment, hcached, Checked.ok_bind]
    by_cases heq : cached = hash
    · subst heq
      have htested : t.tested test index =
          test segment.keys (t.layout.split index).offset := by
        rw [tested, keysAt_eq_ok_iff.2 ⟨segment, hsegment, rfl⟩, Checked.ok_bind]
      rw [List.filter_cons_of_pos (by simp [hhash]), List.findM?, htested]
      simp only [beq_self_eq_true, if_true]
      cases test segment.keys (t.layout.split index).offset with
      | error trap => rfl
      | ok passed =>
        cases passed with
        | true => rfl
        | false => exact hgoOn
    · have hbeq : (cached == hash) = false := beq_false_of_ne heq
      rw [List.filter_cons_of_neg (by simp [hhash, heq])]
      simp only [hbeq, Bool.false_eq_true, if_false, Checked.pure_eq_ok, Checked.ok_bind]
      exact hgoOn

/-- Looking a key up tests the slots with its hash in order, and finds the first that passes. -/
theorem Sound.find_fst (h : t.Sound) (hash : UInt32) (test : Block → Nat → Checked Bool) :
    Prod.fst <$> t.find hash test = (t.candidates hash).findM? (t.tested test) := by
  -- a slot with the hash is on the chain that is searched
  have hslots : (t.bucketSlots (t.bucketOf hash)).filter (fun i ↦ t.hash? i = some hash) =
      t.candidates hash := by
    rw [bucketSlots, candidates, List.filter_filter]
    refine List.filter_congr fun i hi ↦ ?_
    by_cases hhash : t.hash? i = some hash <;> simp [hhash, inBucket]
  rw [KeyTable.find, h.chain_eq (bucketOf_lt h.buckets_pos hash), Checked.ok_bind,
    search_fst hash test fun i hi ↦ ?_, hslots]
  obtain ⟨-, cached, hcached, -⟩ := mem_bucketSlots.1 hi
  exact hcached ▸ Option.some_ne_none _

/-- Looking a key up comes to the same where the same slots are tested and the tests come to the
same. -/
theorem Sound.find_congr (h : t.Sound) (h' : t'.Sound) {hash : UInt32}
    {test : Block → Nat → Checked Bool} (hcandidates : t'.candidates hash = t.candidates hash)
    (htest : ∀ index, t.hash? index ≠ none → t'.tested test index = t.tested test index) :
    Prod.fst <$> t'.find hash test = Prod.fst <$> t.find hash test := by
  have hsame (slots : List Nat) (hslots : ∀ i ∈ slots, t.hash? i ≠ none) :
      slots.findM? (t'.tested test) = slots.findM? (t.tested test) := by
    induction slots with
    | nil => rfl
    | cons index slots ih =>
      rw [List.findM?, List.findM?, htest index (hslots index List.mem_cons_self),
        ih fun i hi ↦ hslots i (List.mem_cons_of_mem _ hi)]
  rw [h'.find_fst, h.find_fst, hcandidates]
  refine hsame _ fun index hindex ↦ ?_
  have hhash := of_decide_eq_true (List.mem_filter.1 hindex).2
  exact hhash ▸ Option.some_ne_none _

/-- The same goes for a hash that is still to be worked out. -/
theorem Sound.lookUp_congr (h : t.Sound) (h' : t'.Sound) (hash : Checked UInt32)
    {test : Block → Nat → Checked Bool}
    (hcandidates : ∀ hash, t'.candidates hash = t.candidates hash)
    (htest : ∀ index, t.hash? index ≠ none → t'.tested test index = t.tested test index) :
    (do
      let hash ← hash
      return (← t'.find hash test).1 : Checked (Option Nat)) = (do
      let hash ← hash
      return (← t.find hash test).1) := by
  cases hash with
  | error trap => rfl
  | ok hash =>
    have hfind := h.find_congr h' (hcandidates hash) htest
    rwa [map_eq_pure_bind, map_eq_pure_bind] at hfind

end Columnar.KeyTable
