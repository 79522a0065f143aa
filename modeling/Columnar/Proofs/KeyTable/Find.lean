import Columnar.Proofs.KeyTable.Insert

/-!
# Finding keys

A key is looked for on one chain, among the slots of one bucket. Since every key is on the chain
that its cached hash selects, this finds what a scan of the whole table would find: the first slot
that has the hash and passes the test (`Sound.find`).

## Any hash and any test

The hash and the test need not agree with each other, and the test need not be an equality. What is
found is described by the two of them (`IsLeast? (t.Matches hash test)`) and by nothing else, so the
law serves the rows of both layouts and every kind of key. A test may also be abandoned; then so is
the search, and the trap is one that the test raised at a key with the hash (`TestRaises`). **There
is no other way for a lookup to be abandoned**: every slot on a chain can be read.

## Least, not only some

That the first match is found, and not just some match, comes from the order of the chain: it is
ascending, so the slots before the match are smaller and do not match (`search_spec`).
-/

namespace Columnar

/-- An optional number is the least that has a property, and is missing if none has. -/
def IsLeast? (P : Nat → Prop) : Option Nat → Prop
  | none => ∀ i, ¬P i
  | some i => P i ∧ ∀ j, P j → i ≤ j

theorem IsLeast?.congr {P Q : Nat → Prop} {found : Option Nat} (h : IsLeast? P found)
    (hiff : ∀ i, P i ↔ Q i) : IsLeast? Q found := by
  obtain rfl : P = Q := funext fun i ↦ propext (hiff i)
  exact h

theorem IsLeast?.unique {P : Nat → Prop} {found found' : Option Nat} (h : IsLeast? P found)
    (h' : IsLeast? P found') : found = found' := by
  cases found with
  | none =>
    cases found' with
    | none => rfl
    | some j => exact absurd h'.1 (h j)
  | some i =>
    cases found' with
    | none => exact absurd h.1 (h' i)
    | some j => exact congrArg some (Nat.le_antisymm (h.2 j h'.1) (h'.2 i h.1))

namespace KeyTable

variable {ε : Type} (t : KeyTable ε)

/-- A slot holds a key with a hash. -/
def Holds (index : Nat) (hash : UInt32) : Prop :=
  ∃ link, t.linkAt index = .ok link ∧ link ≠ .vacant ∧ t.hashAt index = .ok hash

/-- A slot holds a key with a hash, and the key passes a test. -/
def Matches (hash : UInt32) (test : Block → Nat → Checked Bool) (index : Nat) : Prop :=
  t.Holds index hash ∧ ∃ segment, t.segmentOf index = .ok segment ∧
    test segment.keys (t.layout.split index).offset = .ok true

/-- What a test raises that is abandoned at a key with a hash. -/
def TestRaises (hash : UInt32) (test : Block → Nat → Checked Bool) (trap : Trap) : Prop :=
  ∃ index segment, t.Holds index hash ∧ t.segmentOf index = .ok segment ∧
    test segment.keys (t.layout.split index).offset = .error trap

variable {t}

theorem holds_iff {index : Nat} {hash : UInt32} : t.Holds index hash ↔ t.hash? index = some hash :=
  hash?_eq_some_iff.symm

theorem hash?_ne_none_iff {index : Nat} : t.hash? index ≠ none ↔ ∃ hash, t.Holds index hash := by
  simp only [holds_iff, ← Option.isSome_iff_exists, Option.isSome_iff_ne_none]

/-- What there is to be read of a slot with a key. -/
theorem Holds.exists_segment {index : Nat} {hash : UInt32} (h : t.Holds index hash) :
    ∃ segment, t.segmentOf index = .ok segment ∧
      segment.hashAt (t.layout.split index).offset = .ok hash := by
  obtain ⟨link, -, -, hhash⟩ := h
  rw [hashAt] at hhash
  cases hsegment : t.segmentOf index with
  | error trap => simp [hsegment] at hhash
  | ok segment => exact ⟨segment, rfl, by simpa [hsegment] using hhash⟩

theorem Holds.hash_eq {index : Nat} {hash hash' : UInt32} (h : t.Holds index hash)
    (h' : t.Holds index hash') : hash = hash' :=
  Option.some.inj ((holds_iff.1 h).symm.trans (holds_iff.1 h'))

/-- Searching ascending slots with keys finds the first that matches. -/
theorem search_spec (hash : UInt32) (test : Block → Nat → Checked Bool) {slots : List Nat}
    (hsorted : slots.Pairwise (· < ·)) (hkeys : ∀ i ∈ slots, t.hash? i ≠ none) :
    (t.search hash test slots).Sat (t.TestRaises hash test) fun (found, _) ↦
      IsLeast? (fun i ↦ i ∈ slots ∧ t.Matches hash test i) found := by
  induction slots with
  | nil => exact fun i hi ↦ absurd hi.1 List.not_mem_nil
  | cons index rest ih =>
    rw [List.pairwise_cons] at hsorted
    have hrest := ih hsorted.2 fun i hi ↦ hkeys i (List.mem_cons_of_mem _ hi)
    obtain ⟨cached, hholds⟩ := hash?_ne_none_iff.1 (hkeys index List.mem_cons_self)
    obtain ⟨segment, hsegment, hcached⟩ := hholds.exists_segment
    -- past a slot that does not match the search is the one in the others
    have hgoOn (hno : ¬t.Matches hash test index) :
        (do
          let (found, visited) ← t.search hash test rest
          return (found, visited + 1) : Checked (Option Nat × Nat)).Sat (t.TestRaises hash test)
          fun (found, _) ↦ IsLeast? (fun i ↦ i ∈ index :: rest ∧ t.Matches hash test i) found := by
      refine hrest.bind fun (found, visited) _ hfound ↦ hfound.congr fun i ↦ ?_
      rw [List.mem_cons]
      refine ⟨fun hi ↦ ⟨.inr hi.1, hi.2⟩, ?_⟩
      rintro ⟨rfl | hi, hmatch⟩
      · exact absurd hmatch hno
      · exact ⟨hi, hmatch⟩
    rw [search]
    simp only [hsegment, hcached, Checked.ok_bind]
    by_cases hhash : cached = hash
    · subst hhash
      simp only [beq_self_eq_true, if_true]
      cases htest : test segment.keys (t.layout.split index).offset with
      | error trap => exact ⟨index, segment, hholds, hsegment, htest⟩
      | ok passed =>
        cases passed with
        | false =>
          refine hgoOn ?_
          rintro ⟨-, segment', hsegment', htest'⟩
          obtain rfl := Except.ok.inj (hsegment.symm.trans hsegment')
          simp [htest] at htest'
        | true =>
          refine ⟨⟨List.mem_cons_self, hholds, segment, hsegment, htest⟩, fun j hj ↦ ?_⟩
          rcases List.mem_cons.1 hj.1 with rfl | hmem
          · exact Nat.le_refl _
          · exact Nat.le_of_lt (hsorted.1 j hmem)
    · have hbeq : (cached == hash) = false := beq_false_of_ne hhash
      simp only [hbeq, Bool.false_eq_true, if_false, Checked.pure_eq_ok, Checked.ok_bind]
      exact hgoOn fun hmatch ↦ hhash (hholds.hash_eq hmatch.1)

/-- A table finds the first slot that matches, wherever it is. -/
theorem Sound.find (h : t.Sound) (hash : UInt32) (test : Block → Nat → Checked Bool) :
    (t.find hash test).Sat (t.TestRaises hash test) fun (found, _) ↦
      IsLeast? (t.Matches hash test) found := by
  rw [KeyTable.find, h.chain_eq (bucketOf_lt h.buckets_pos hash), Checked.ok_bind]
  refine (search_spec hash test (pairwise_bucketSlots _) fun i hi ↦ ?_).mono (fun _ ↦ id)
    fun (found, _) hfound ↦ hfound.congr fun i ↦ ⟨And.right, fun hmatch ↦ ⟨?_, hmatch⟩⟩
  · obtain ⟨-, cached, hcached, -⟩ := mem_bucketSlots.1 hi
    exact hcached ▸ Option.some_ne_none _
  · -- a slot that matches is on the chain that is searched
    have hhash := holds_iff.1 hmatch.1
    exact mem_bucketSlots.2
      ⟨lt_freeIndex_of_hash? h (hhash ▸ Option.some_ne_none _), hash, hhash, rfl⟩

end KeyTable

end Columnar
