import Columnar.Proofs.KeyTable.Find

/-!
# Putting keys

What a `put` does to a sound table. It looks the key up first. If the key is there nothing but the
metrics changes; if it is not, an index is handed out, the buckets may be doubled, and the key is
stored (`Sound.put`). Each of these steps leaves a sound table to the next one.

## One search

A `put` searches its chain once. If the search fails it has visited all slots of the bucket, so the
last one of them is known (`Sound.put_eq`), and the new slot is linked behind it. Only where the
buckets were doubled in between is there another last slot, which is looked up anew. `Prepared` is
what holds before the key is stored in either case: an index is handed out, the slots may be linked
anew, and the last slot of the bucket is at hand.

## Why every outcome is named

`Putting` lists what can become of a `put`: the key is present, there is no index left, its slot is
spent, or it has the slot. Later modules take these cases apart instead of the program, and each
case carries all that is known of the table afterwards.

A `put` may also be abandoned, where an operation on keys is. `PutRaises` says which traps these
are: those of the hash, of the test at a key with the hash, and of storing the key. **The table
itself raises none**, because in a sound table every slot that is asked for exists.

A row of the second layout is only ever looked up, and `Sound.probeIndex?` is the same law with its
hash and its test.
-/

namespace Columnar.KeyTable

variable {ε : Type} {t : KeyTable ε}

/-- What an abandoned lookup raises: what the hash raises, or the test of a key with the hash. -/
def LookUpRaises (t : KeyTable ε) (hash : Checked UInt32) (test : Block → Nat → Checked Bool)
    (trap : Trap) : Prop :=
  hash = .error trap ∨ ∃ h, hash = .ok h ∧ t.TestRaises h test trap

/-- Looking something up by a hash that is computed first and by a test finds the first slot that
matches. -/
theorem Sound.lookUp (h : t.Sound) (hash : Checked UInt32) (test : Block → Nat → Checked Bool) :
    (do
      let hash ← hash
      return (← t.find hash test).1 : Checked (Option Nat)).Sat (t.LookUpRaises hash test)
      fun found ↦ ∃ h, hash = .ok h ∧ IsLeast? (t.Matches h test) found := by
  cases hash with
  | error trap => exact .inl rfl
  | ok hash =>
    exact ((h.find hash test).mono (fun trap htrap ↦ .inr ⟨hash, rfl, htrap⟩) fun _ ↦ id).bind
      fun (found, _) _ hfound ↦ ⟨hash, rfl, hfound⟩

/-- Looking up a row finds the first slot that matches it. -/
theorem Sound.index? (h : t.Sound) (input : Block) (row : Nat) :
    (t.index? input row).Sat (t.LookUpRaises (t.ops.hash input row) (t.ops.agrees input row))
      fun found ↦ ∃ hash, t.ops.hash input row = .ok hash ∧
        IsLeast? (t.Matches hash (t.ops.agrees input row)) found :=
  h.lookUp (t.ops.hash input row) (t.ops.agrees input row)

/-- Looking up a row of the second layout finds the first slot that matches it. -/
theorem Sound.probeIndex? (h : t.Sound) (probe : Block) (row : Nat) :
    (t.probeIndex? probe row).Sat
      (t.LookUpRaises (t.ops.probeHash probe row) (t.ops.probeAgrees probe row))
      fun found ↦ ∃ hash, t.ops.probeHash probe row = .ok hash ∧
        IsLeast? (t.Matches hash (t.ops.probeAgrees probe row)) found :=
  h.lookUp (t.ops.probeHash probe row) (t.ops.probeAgrees probe row)

/-! ### Before the key is stored -/

/-- A table that has counted a put. -/
def counted (t : KeyTable ε) (visited : Nat) : KeyTable ε :=
  { t with
    metrics.puts := t.metrics.puts + 1
    metrics.probes := t.metrics.probes + visited }

/-- The keys beside which the next key is stored. -/
def nextKeys (t : KeyTable ε) : Block :=
  (t.segments[(t.layout.split t.freeIndex).segment]?.getD (newSegment t.config)).keys

/-- A table that is ready for one more key: the index is handed out, and the slots may be linked
anew. -/
structure Prepared (t u : KeyTable ε) : Prop where
  sound : u.Sound
  cut : u.segments.map Segment.cut = t.extended.segments.map Segment.cut
  eq : u = { t.extended with
    buckets := u.buckets
    segments := u.segments
    threshold := u.threshold
    metrics := u.metrics }

/-- An index can be handed out and the buckets be doubled if it is time. The last slot of every
bucket is known before and behind it. -/
theorem Sound.prepared (h : t.Sound) (hindex : t.freeIndex ≤ IndexLayout.maxIndex)
    (hash : UInt32) : ∃ u, t.Prepared u ∧
      t.extended.growIfFull hash (t.lastSlot? hash) = .ok (u, u.lastSlot? hash) := by
  have hextended := h.extended hindex
  rw [growIfFull]
  split_ifs
  · obtain ⟨u, hu, hsound, hcut, hfields⟩ := hextended.grow
    refine ⟨u, ⟨hsound, hcut, hfields⟩, ?_⟩
    rw [hu, Checked.ok_bind, hsound.chain_eq (bucketOf_lt hsound.buckets_pos hash)]
    rfl
  · refine ⟨t.extended, ⟨hextended, rfl, rfl⟩, ?_⟩
    rw [lastSlot?, lastSlot?, h.bucketSlots_extended]
    rfl

theorem keys_extended {segment : Segment}
    (h : t.extended.segments[(t.layout.split t.freeIndex).segment]? = some segment) :
    segment.keys = t.nextKeys := by
  rw [KeyTable.extended] at h
  rw [nextKeys]
  simp only at h
  split_ifs at h with hnew
  · rw [hnew, Array.getElem?_push_size] at h
    rw [hnew, Array.getElem?_eq_none (Nat.le_refl _), Option.getD_none, Option.some.inj h]
  · rw [h, Option.getD_some]

/-- Preparing a table does not change the keys beside which the next one is stored. -/
theorem Prepared.exists_segment {u : KeyTable ε} (hu : t.Prepared u) (h : t.Sound)
    (hindex : t.freeIndex ≤ IndexLayout.maxIndex) :
    ∃ segment, u.segmentOf t.freeIndex = .ok segment ∧ segment.keys = t.nextKeys := by
  obtain ⟨slot, hslot⟩ := Option.isSome_iff_exists.1
    ((h.extended hindex).isSome_slot? (Nat.lt_succ_self t.freeIndex))
  obtain ⟨old, hold, -⟩ := slot?_eq_some_iff.1 hslot
  have hcut := congrArg (·[(t.layout.split t.freeIndex).segment]?) hu.cut
  simp only [Array.getElem?_map] at hcut
  rw [show t.extended.layout = t.layout from rfl] at hold
  rw [hold, Option.map_some] at hcut
  obtain ⟨segment, hsegment, heq⟩ := Option.map_eq_some_iff.1 hcut
  have hlayout : u.layout = t.layout := by rw [layout, hu.eq]; rfl
  refine ⟨segment, by rw [segmentOf, Checked.entry, hlayout, hsegment], ?_⟩
  have hkeys : segment.keys = old.keys := by
    have hkeys := congrArg Segment.keys heq
    exact hkeys
  rw [hkeys, keys_extended hold]

/-! ### Puts -/

/-- Store a key that is not in the table, behind the last slot on the chain of its hash. -/
def putNew (t : KeyTable ε) (hash : UInt32) (tail? : Option Nat) (input : Block) (row : Nat) :
    Checked (KeyTable ε × Except (TableError ε) PutStatus) :=
  match t.allocate with
  | .error refusal => return (t, .error refusal)
  | .ok (t, index) => do
    let (t, tail?) ← t.growIfFull hash tail?
    t.insert index hash tail? input row

/-- Nothing is stored if there is no index left. -/
theorem putNew_of_exhausted (h : IndexLayout.maxIndex < t.freeIndex) (hash : UInt32)
    (tail? : Option Nat) (input : Block) (row : Nat) : t.putNew hash tail? input row =
      .ok (t, .error (.indexesExhausted (IndexLayout.maxIndex + 1))) := by
  rw [putNew, allocate, if_neg (Nat.not_le_of_lt h)]
  rfl

/-- A put searches the chain of the hash, and stores the key behind its last slot if it is not
found. -/
theorem put_eq (t : KeyTable ε) (input : Block) (row : Nat) :
    t.put input row = (do
      let hash ← t.ops.hash input row
      let slots ← t.chain (t.bucketOf hash)
      let (found, visited) ← t.search hash (t.ops.agrees input row) slots
      match found with
      | some index => return (t.counted visited, .ok (.present index))
      | none => (t.counted visited).putNew hash slots.getLast? input row) :=
  rfl

/-- In a sound table a put looks the key up, and stores it behind the last slot of its bucket if it
is not found. -/
theorem Sound.put_eq (h : t.Sound) (input : Block) (row : Nat) :
    t.put input row = (do
      let hash ← t.ops.hash input row
      let (found, visited) ← t.find hash (t.ops.agrees input row)
      match found with
      | some index => return (t.counted visited, .ok (.present index))
      | none => (t.counted visited).putNew hash (t.lastSlot? hash) input row) := by
  rw [KeyTable.put_eq]
  refine congrArg _ (funext fun hash ↦ ?_)
  rw [KeyTable.find, h.chain_eq (bucketOf_lt h.buckets_pos hash)]
  rfl

/-- What storing a key that is not in the table may lead to. -/
inductive Storing (t : KeyTable ε) (hash : UInt32) (input : Block) (row : Nat) :
    KeyTable ε × Except (TableError ε) PutStatus → Prop
  | exhausted : IndexLayout.maxIndex < t.freeIndex →
    Storing t hash input row (t, .error (.indexesExhausted (IndexLayout.maxIndex + 1)))
  | stored {u : KeyTable ε} {segment : Segment}
    {outcome : KeyTable ε × Except (TableError ε) PutStatus} :
    t.Prepared u → segment.keys = t.nextKeys →
    Insertion u t.freeIndex segment hash input row outcome → Storing t hash input row outcome

/-- Storing a key that is not in the table. -/
theorem Sound.putNew (h : t.Sound) (hash : UInt32) (input : Block) (row : Nat) :
    (t.putNew hash (t.lastSlot? hash) input row).Sat
      (fun trap ↦
        t.ops.store input row t.nextKeys (t.layout.split t.freeIndex).offset = .error trap)
      (Storing t hash input row) := by
  rcases Nat.lt_or_ge IndexLayout.maxIndex t.freeIndex with hlt | hle
  · rw [putNew_of_exhausted hlt]
    exact .exhausted hlt
  · obtain ⟨u, hprepared, hu⟩ := h.prepared hle hash
    obtain ⟨segment, hsegment, hkeys⟩ := hprepared.exists_segment h hle
    have hops : u.ops = t.ops := by rw [hprepared.eq]; rfl
    have hlayout : u.layout = t.layout := by rw [layout, hprepared.eq]; rfl
    have hfreeIndex : t.freeIndex + 1 = u.freeIndex := by rw [hprepared.eq]; rfl
    -- whatever was linked anew, the slot that was handed out holds no key
    have hfree : u.hash? t.freeIndex = none := by
      have hconfig : u.config = t.extended.config := by rw [hprepared.eq]
      rw [hash?_congr hconfig hprepared.cut, hash?_extended]
      exact h.hash?_beyond _ (Nat.le_refl _)
    have hput : t.putNew hash (t.lastSlot? hash) input row =
        u.insert t.freeIndex hash (u.lastSlot? hash) input row := by
      rw [KeyTable.putNew, allocate_eq hle]
      show (t.extended.growIfFull hash (t.lastSlot? hash) >>= _) = _
      rw [hu]
      rfl
    rw [hput]
    refine (hprepared.sound.insert hfreeIndex hfree hsegment hash input row).mono
      (fun trap htrap ↦ ?_) fun outcome houtcome ↦ .stored hprepared hkeys houtcome
    rwa [hops, hlayout, hkeys] at htrap

/-- What an abandoned put raises. A key is only stored if it is not found. -/
def PutRaises (t : KeyTable ε) (input : Block) (row : Nat) (trap : Trap) : Prop :=
  t.LookUpRaises (t.ops.hash input row) (t.ops.agrees input row) trap ∨
    (∃ hash, t.ops.hash input row = .ok hash ∧
      IsLeast? (t.Matches hash (t.ops.agrees input row)) none) ∧
    t.ops.store input row t.nextKeys (t.layout.split t.freeIndex).offset = .error trap

/-- What putting the key in a row with a hash may lead to. -/
inductive Putting (t : KeyTable ε) (hash : UInt32) (input : Block) (row : Nat) :
    KeyTable ε × Except (TableError ε) PutStatus → Prop
  | present {index visited : Nat} :
    IsLeast? (t.Matches hash (t.ops.agrees input row)) (some index) →
    Putting t hash input row (t.counted visited, .ok (.present index))
  | new {visited : Nat} {outcome : KeyTable ε × Except (TableError ε) PutStatus} :
    IsLeast? (t.Matches hash (t.ops.agrees input row)) none →
    Storing (t.counted visited) hash input row outcome → Putting t hash input row outcome

/-- A put of a sound table. -/
theorem Sound.put (h : t.Sound) (input : Block) (row : Nat) :
    (t.put input row).Sat (t.PutRaises input row) fun outcome ↦
      ∃ hash, t.ops.hash input row = .ok hash ∧ Putting t hash input row outcome := by
  rw [h.put_eq]
  cases hhash : t.ops.hash input row with
  | error trap => exact .inl (.inl hhash)
  | ok hash =>
    rw [Checked.ok_bind]
    refine ((h.find hash _).mono (fun trap htrap ↦ .inl (.inr ⟨hash, hhash, htrap⟩))
      fun _ ↦ id).bind fun (found, visited) _ hfound ↦ ?_
    have hcounted : (t.counted visited).Sound := h.congr rfl rfl rfl rfl rfl
    cases found with
    | some index => exact ⟨hash, rfl, .present hfound⟩
    | none =>
      exact (hcounted.putNew hash input row).mono
        (fun trap htrap ↦ .inr ⟨⟨hash, hhash, hfound⟩, htrap⟩)
        fun outcome houtcome ↦ ⟨hash, rfl, .new hfound houtcome⟩

end Columnar.KeyTable
