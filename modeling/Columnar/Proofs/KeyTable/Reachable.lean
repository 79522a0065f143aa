import Columnar.Proofs.KeyTable.Calls
import Mathlib.Logic.ExistsUnique

/-!
# Tables after any history

What holds of a table that was created and then used in any way. Following a bucket gives the slots
whose keys have a hash of the bucket, ascending, so that every key is on one chain and a spent slot
on none (`chained_run`); and a key is found where a scan of all slots would find it
(`find_of_reachable`).

## Nothing is asked of the operations on keys

They may call all keys the same, have every hash collide, or fail; `colliding` does some of each,
and the examples are about it. So the two laws hold of the table as a container of slots, before
anything is known about the keys. A run is cut short only by what an operation on keys raises.

## The invariant in readable terms

`Chained` says what `Sound` does, but of what can be read of a table: `Occupied` slots and the lists
that chains are followed to, with no word on segments and links. It adds the account of the slots
that hold no key: **they are as many as the puts that failed to store one** since the table was
created or cleared last.

* `chained_run` rests on `Kept.run` and on reading the invariant off (`Kept.chained`).
* `find_of_reachable` rests on `Sound.find`, for lookups of both layouts, and on the outcomes of a
  put, of which it says that it finds what a lookup finds and counts, or uses the next slot.
-/

namespace Columnar.KeyTable

variable {ε : Type} {t : KeyTable ε} {config : TableConfig} {ops : KeyOps ε}

/-- A slot was written, and so holds a key. -/
def Occupied (t : KeyTable ε) (index : Nat) : Prop :=
  ∃ link, t.linkAt index = .ok link ∧ link ≠ .vacant

/-- The chains of a table with `spent` slots on which a key was lost. -/
structure Chained (t : KeyTable ε) (spent : Nat) : Prop where
  /-- Following a bucket ends, and gives the slots of its keys. -/
  chain : ∀ bucket < t.buckets.size, ∃ slots, t.chain bucket = .ok slots ∧
    slots.Pairwise (· < ·) ∧ ∀ i, i ∈ slots ↔ i < t.freeIndex ∧
      ∃ hash, t.Holds i hash ∧ hash.toNat &&& (t.buckets.size - 1) = bucket
  /-- Every key is on one chain. -/
  occupied : ∀ i, t.Occupied i →
    ∃! bucket, bucket < t.buckets.size ∧ ∃ slots, t.chain bucket = .ok slots ∧ i ∈ slots
  /-- A slot without a key is on no chain. -/
  vacant : ∀ i, ¬t.Occupied i → ∀ bucket slots, t.chain bucket = .ok slots → i ∉ slots
  /-- The size is the number of keys. -/
  size : ∃ slots : List Nat, slots.Nodup ∧ (∀ i, i ∈ slots ↔ t.Occupied i) ∧
    t.size = slots.length
  /-- The other indexes that were handed out are spent. -/
  freeIndex : t.freeIndex = t.size + spent

theorem Segmented.occupied_iff (ht : t.Segmented) {index : Nat} :
    t.Occupied index ↔ ∃ hash, t.Holds index hash := by
  refine ⟨fun ⟨link, hlink, hne⟩ ↦ ?_, fun ⟨hash, link, hlink, hne, _⟩ ↦ ⟨link, hlink, hne⟩⟩
  have hsegment : (t.layout.split index).segment < t.segments.size := by
    by_contra hge
    simp [linkAt, segmentOf, Checked.entry, Array.getElem?_eq_none (Nat.le_of_not_lt hge)] at hlink
  rw [ht.split_eq, Nat.div_lt_iff_lt_mul ht.sane.segmentCapacity_pos,
    ← ht.isSome_slot?_iff] at hsegment
  obtain ⟨⟨link', hash⟩, hslot⟩ := Option.isSome_iff_exists.1 hsegment
  exact ⟨hash, link, hlink, hne, hashAt_eq hslot⟩

/-- The invariant of tables, in terms of what can be read of them. -/
theorem Kept.chained {spent : Nat} (h : Kept config ops spent t) : t.Chained spent where
  chain bucket hbucket := by
    refine ⟨_, h.chain_eq hbucket, pairwise_bucketSlots bucket, fun i ↦ ?_⟩
    simp only [mem_bucketSlots, holds_iff, bucketOf]
  occupied i hi := by
    obtain ⟨hash, hholds⟩ := h.occupied_iff.1 hi
    have hhash := holds_iff.1 hholds
    have hlt := bucketOf_lt h.buckets_pos hash
    refine ⟨t.bucketOf hash, ⟨hlt, _, h.chain_eq hlt, ?_⟩, ?_⟩
    · exact mem_bucketSlots.2
        ⟨lt_freeIndex_of_hash? h.toSound (hhash ▸ Option.some_ne_none _), hash, hhash, rfl⟩
    · rintro bucket ⟨hbucket, slots, hslots, hmem⟩
      obtain rfl := Except.ok.inj ((h.chain_eq hbucket).symm.trans hslots)
      obtain ⟨-, hash', hhash', rfl⟩ := mem_bucketSlots.1 hmem
      rw [Option.some.inj (hhash.symm.trans hhash')]
  vacant i hi bucket slots hslots hmem := by
    rcases Nat.lt_or_ge bucket t.buckets.size with hbucket | hbucket
    · obtain rfl := Except.ok.inj ((h.chain_eq hbucket).symm.trans hslots)
      obtain ⟨-, hash, hhash, -⟩ := mem_bucketSlots.1 hmem
      exact hi (h.occupied_iff.2 ⟨hash, holds_iff.2 hhash⟩)
    · simp [KeyTable.chain, Checked.entry, Array.getElem?_eq_none hbucket] at hslots
  size := by
    refine ⟨(List.range t.freeIndex).filter fun i ↦ (t.hash? i).isSome,
      List.Nodup.filter _ List.nodup_range, fun i ↦ ?_, ?_⟩
    · rw [h.occupied_iff, ← hash?_ne_none_iff, List.mem_filter, List.mem_range,
        Option.isSome_iff_ne_none]
      exact ⟨And.right, fun hi ↦ ⟨lt_freeIndex_of_hash? h.toSound hi, hi⟩⟩
    · rw [← List.countP_eq_length_filter]
      exact h.entries_eq
  freeIndex := h.freeIndex_eq

/-- Operations on keys under which all hashes collide, a row is the key in the slot of its number,
and the key of row 1 can not be stored. -/
def colliding : KeyOps Unit where
  hash _ _ := .ok 0
  agrees _ row _ slot := .ok (row == slot)
  store _ row keys _ := .ok (keys, if row = 1 then .error () else .ok ())
  emit _ _ output _ := .ok (output, .ok true)

/-- A configuration with one bucket, which may become two, and segments of two slots. -/
def cramped : TableConfig where
  initialCapacity := 1
  maxCapacity := 2
  segmentCapacity := 2
  keyColumns := [⟨"key", .integer⟩]

theorem fault?_cramped : cramped.fault? = none := rfl

/-- Puts into a table, the second of which fails. -/
def crampedCalls : List TableCall :=
  [7, 1, 8, 9].map fun row ↦ .put (.ofTypes [] 0) row

/-- After any history the chains of a table are those of its keys, and the indexes that no key has
are those of the puts that failed to store one since the table was created or cleared last. A
history is cut short only by what an operation on keys raises. -/
theorem chained_run {t₀ : KeyTable ε} (h : create config ops = .ok t₀) (calls : List TableCall) :
    (t₀.run calls).Sat (t₀.RunRaises · calls) fun (t, answers) ↦
      t.Chained (answers.foldl TableAnswer.spent 0) :=
  ((kept_of_create_eq_ok h).run calls).mono (fun _ ↦ id) fun _ hkept ↦ hkept.chained

theorem chained_run_colliding : ∃ t answers,
    (fresh cramped colliding {}).run crampedCalls = .ok (t, answers) ∧
      t.chain 0 = .ok [0, 2, 3] ∧ t.Chained 1 := by
  obtain ⟨t, answers, hrun, hchain, hspent⟩ : ∃ t answers,
      (fresh cramped colliding {}).run crampedCalls = .ok (t, answers) ∧
        t.chain 0 = .ok [0, 2, 3] ∧ answers.foldl TableAnswer.spent 0 = 1 :=
    ⟨_, _, rfl, rfl, rfl⟩
  have hcreate := create_eq_ok fault?_cramped colliding
  have hsat := chained_run hcreate crampedCalls
  have hchained := Checked.Sat.of_eq_ok hsat hrun
  simp only [hspent] at hchained
  exact ⟨t, answers, hrun, hchain, hchained⟩

/-! ### Finding keys after any history -/

/-- A table that some history leads to. -/
def Reachable (config : TableConfig) (ops : KeyOps ε) (t : KeyTable ε) : Prop :=
  ∃ t₀ calls answers, create config ops = .ok t₀ ∧ t₀.run calls = .ok (t, answers)

theorem Reachable.kept (h : Reachable config ops t) : ∃ spent, Kept config ops spent t := by
  obtain ⟨t₀, calls, answers, hcreate, hrun⟩ := h
  exact ⟨_, ((kept_of_create_eq_ok hcreate).run calls).of_eq_ok hrun⟩

/-- What a put leads to, in short. -/
theorem Putting.cases {hash : UInt32} {input : Block} {row : Nat} {t' : KeyTable ε}
    {result : Except (TableError ε) PutStatus} (h : Putting t hash input row (t', result)) :
    (∃ index visited, IsLeast? (t.Matches hash (t.ops.agrees input row)) (some index) ∧
      result = .ok (.present index) ∧ t' = t.counted visited) ∨
    IsLeast? (t.Matches hash (t.ops.agrees input row)) none ∧
      (result = .ok (.inserted t.freeIndex) ∨ ∃ refusal, result = .error refusal) := by
  cases h with
  | present hleast => exact .inl ⟨_, _, hleast, rfl, rfl⟩
  | new hleast hstoring =>
    refine .inr ⟨hleast, ?_⟩
    cases hstoring with
    | exhausted => exact .inr ⟨_, rfl⟩
    | stored _ _ hinsertion =>
      cases hinsertion with
      | failed => exact .inr ⟨_, rfl⟩
      | stored => exact .inl rfl

/-- A lookup finds the first slot whose cached hash is that of the row and whose key agrees with the
row, and nothing just if there is no such slot; and a put of the row finds that slot and counts, or
stores the key in the next one or refuses to. -/
theorem find_of_reachable (h : Reachable config ops t) (input : Block) (row : Nat) :
    ((t.index? input row).Sat (t.LookUpRaises (ops.hash input row) (ops.agrees input row))
      fun found ↦ ∃ hash, ops.hash input row = .ok hash ∧
        IsLeast? (t.Matches hash (ops.agrees input row)) found) ∧
    ((t.probeIndex? input row).Sat
      (t.LookUpRaises (ops.probeHash input row) (ops.probeAgrees input row))
      fun found ↦ ∃ hash, ops.probeHash input row = .ok hash ∧
        IsLeast? (t.Matches hash (ops.probeAgrees input row)) found) ∧
    (t.put input row).Sat (t.PutRaises input row) fun (t', result) ↦
      ∃ hash, ops.hash input row = .ok hash ∧
        ((∃ index visited, IsLeast? (t.Matches hash (ops.agrees input row)) (some index) ∧
          result = .ok (.present index) ∧ t' = t.counted visited) ∨
        IsLeast? (t.Matches hash (ops.agrees input row)) none ∧
          (result = .ok (.inserted t.freeIndex) ∨ ∃ refusal, result = .error refusal)) := by
  obtain ⟨spent, hkept⟩ := h.kept
  have hops := hkept.ops_eq
  subst hops
  refine ⟨hkept.toSound.index? input row, hkept.toSound.probeIndex? input row, ?_⟩
  exact (hkept.toSound.put input row).mono (fun _ ↦ id)
    fun (t', result) ⟨hash, hhash, houtcome⟩ ↦ ⟨hash, hhash, houtcome.cases⟩

theorem find_of_reachable_colliding : ∃ t, Reachable cramped colliding t ∧
    t.index? (.ofTypes [] 0) 0 = .ok (some 0) ∧
      IsLeast? (t.Matches 0 (colliding.agrees (.ofTypes [] 0) 0)) (some 0) := by
  obtain ⟨t, answers, hrun, hfound⟩ : ∃ t answers,
      (fresh cramped colliding {}).run crampedCalls = .ok (t, answers) ∧
        t.index? (.ofTypes [] 0) 0 = .ok (some 0) :=
    ⟨_, _, rfl, rfl⟩
  have hreachable : Reachable cramped colliding t :=
    ⟨_, crampedCalls, answers, create_eq_ok fault?_cramped colliding, hrun⟩
  obtain ⟨hash, hhash, hleast⟩ := (find_of_reachable hreachable _ _).1.of_eq_ok hfound
  obtain rfl : 0 = hash := Except.ok.inj hhash
  exact ⟨t, hreachable, hfound, hleast⟩

end Columnar.KeyTable
