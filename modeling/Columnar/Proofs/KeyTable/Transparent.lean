import Columnar.Proofs.KeyTable.Content
import Columnar.Proofs.KeyTable.Reachable

/-!
# Growing does not show

Two tables whose slots hold the same keys answer every call alike, however many buckets each has and
whatever chains its slots are on (`Simulation.run`). So neither the sizes at which a table doubles
its buckets nor the ceiling at which it stops show in any answer.

## A simulation, twice

`Simulation` is a relation of tables that every operation keeps and under which both answer alike,
traps included. There are two of them, for two ways in which tables may differ.

* With segments of one size the keys of the segments are the same, block for block (`SameKeys`).
  **This is for any operations on keys**: they are handed the same blocks and can not but answer
  alike.
* With segments of different sizes the blocks differ, and the rows of the slots are the same
  (`SameRows`). Operations on keys that are read from columns read no more of a slot than its row.
  As long as no column has texts this is all, since texts share out the bytes of a segment and a
  larger one has room for longer keys.

## What both rest on

`Alike` is what an operation on keys can see of two tables: hashes of slots, and the keys beside
them. Lookups agree because slots are tested in the same order (`candidates_eq`); a put because it
uses up the next slot in both or in none (`putNew`); and writing keys out because the same slots are
left. The counts of visited slots and of resizes do differ, and are no part of an answer.
-/

namespace Columnar

namespace KeyTable

variable {ε : Type} {t t' : KeyTable ε}

/-! ### Answers -/

/-- Two tables with keys under the same hashes in the same slots. -/
structure Paired (t t' : KeyTable ε) : Prop where
  sound : t.Sound
  sound' : t'.Sound
  ops_eq : t'.ops = t.ops
  keyTypes_eq : t'.config.keyTypes = t.config.keyTypes
  freeIndex_eq : t'.freeIndex = t.freeIndex
  entries_eq : t'.entries = t.entries
  outputCursor_le : t.outputCursor ≤ t.freeIndex
  outputCursor_eq : t'.outputCursor = t.outputCursor
  outputCount_eq : t'.outputCount = t.outputCount
  hash?_eq : ∀ index, t'.hash? index = t.hash? index

/-- Two tables that look alike to the operations on keys. -/
structure Alike (t t' : KeyTable ε) : Prop extends t.Paired t' where
  agrees_eq : ∀ input row index, t.hash? index ≠ none →
    t'.tested (t.ops.agrees input row) index = t.tested (t.ops.agrees input row) index
  probeAgrees_eq : ∀ probe row index, t.hash? index ≠ none →
    t'.tested (t.ops.probeAgrees probe row) index = t.tested (t.ops.probeAgrees probe row) index
  emitAt_eq : ∀ index, t.hash? index ≠ none → ∀ output row,
    t'.emitAt index output row = t.emitAt index output row
  store_eq : ∀ input row,
    Prod.snd <$> t.ops.store input row t'.nextKeys (t'.layout.split t'.freeIndex).offset =
      Prod.snd <$> t.ops.store input row t.nextKeys (t.layout.split t.freeIndex).offset

theorem Paired.remaining_eq (h : t.Paired t') : t'.remaining = t.remaining := by
  rw [remaining, remaining, slotsFrom, slotsFrom, h.outputCursor_eq, h.freeIndex_eq]
  simp only [h.hash?_eq]

theorem Paired.counted (h : t.Paired t') (visited visited' : Nat) :
    (t.counted visited).Paired (t'.counted visited') :=
  ⟨h.sound.congr rfl rfl rfl rfl rfl, h.sound'.congr rfl rfl rfl rfl rfl, h.ops_eq, h.keyTypes_eq,
    h.freeIndex_eq, h.entries_eq, h.outputCursor_le, h.outputCursor_eq, h.outputCount_eq,
    h.hash?_eq⟩

/-- Slots that are used up alike. -/
theorem Paired.used {u u' : KeyTable ε} {keys keys' : Block} {hash : Option UInt32}
    (h : t.Paired t') (hused : t.Used keys hash u) (hused' : t'.Used keys' hash u') :
    u.Paired u' where
  sound := hused.sound
  sound' := hused'.sound
  ops_eq := by rw [hused'.ops_eq, h.ops_eq, hused.ops_eq]
  keyTypes_eq := by rw [hused'.config_eq, h.keyTypes_eq, hused.config_eq]
  freeIndex_eq := by rw [hused'.freeIndex_eq, h.freeIndex_eq, hused.freeIndex_eq]
  entries_eq := by rw [hused'.entries_eq, h.entries_eq, hused.entries_eq]
  outputCursor_le := by
    rw [hused.outputCursor_eq, hused.freeIndex_eq]
    exact Nat.le_succ_of_le h.outputCursor_le
  outputCursor_eq := by rw [hused'.outputCursor_eq, h.outputCursor_eq, hused.outputCursor_eq]
  outputCount_eq := by rw [hused'.outputCount_eq, h.outputCount_eq, hused.outputCount_eq]
  hash?_eq index := by rw [hused'.hash?_eq, h.freeIndex_eq, h.hash?_eq, hused.hash?_eq]

theorem Paired.wrote (h : t.Paired t') (count : Nat) : (t.wrote count).Paired (t'.wrote count) where
  sound := h.sound.congr rfl rfl rfl rfl rfl
  sound' := h.sound'.congr rfl rfl rfl rfl rfl
  ops_eq := h.ops_eq
  keyTypes_eq := h.keyTypes_eq
  freeIndex_eq := h.freeIndex_eq
  entries_eq := h.entries_eq
  outputCursor_le := outputCursor_wrote_le t count
  outputCursor_eq := by
    show (t'.remaining.drop count).headD t'.freeIndex = (t.remaining.drop count).headD t.freeIndex
    rw [h.remaining_eq, h.freeIndex_eq]
  outputCount_eq := congrArg (· + count) h.outputCount_eq
  hash?_eq := h.hash?_eq

theorem Paired.resetOutput (h : t.Paired t') : t.resetOutput.Paired t'.resetOutput :=
  ⟨h.sound.congr rfl rfl rfl rfl rfl, h.sound'.congr rfl rfl rfl rfl rfl, h.ops_eq, h.keyTypes_eq,
    h.freeIndex_eq, h.entries_eq, Nat.zero_le _, rfl, rfl, h.hash?_eq⟩

/-- Two tables without keys. -/
theorem paired_fresh {config config' : TableConfig} (h : config.Sane) (h' : config'.Sane)
    (htypes : config'.keyTypes = config.keyTypes) (ops : KeyOps ε)
    (metrics metrics' : TableMetrics) :
    (fresh config ops metrics).Paired (fresh config' ops metrics') :=
  ⟨sound_fresh h ops metrics, sound_fresh h' ops metrics', rfl, htypes, rfl, rfl,
    Nat.le_refl _, rfl,
    rfl, fun index ↦ by rw [hash?_fresh, hash?_fresh]⟩

theorem Paired.clear (h : t.Paired t') : t.clear.Paired t'.clear := by
  rw [clear_eq, clear_eq, h.ops_eq]
  exact paired_fresh h.sound.sane h.sound'.sane h.keyTypes_eq t.ops t.metrics t'.metrics

namespace Alike

/-- The slots with a hash are the same. -/
theorem candidates_eq (h : t.Alike t') (hash : UInt32) :
    t'.candidates hash = t.candidates hash := by
  rw [candidates, candidates, h.freeIndex_eq]
  simp only [h.hash?_eq]

theorem index?_eq (h : t.Alike t') (input : Block) (row : Nat) :
    t'.index? input row = t.index? input row := by
  rw [index?, index?, h.ops_eq]
  exact h.sound.lookUp_congr h.sound' _ h.candidates_eq (h.agrees_eq input row)

theorem probeIndex?_eq (h : t.Alike t') (probe : Block) (row : Nat) :
    t'.probeIndex? probe row = t.probeIndex? probe row := by
  rw [probeIndex?, probeIndex?, h.ops_eq]
  exact h.sound.lookUp_congr h.sound' _ h.candidates_eq (h.probeAgrees_eq probe row)

/-- The same keys are left to be written out, and writing them out comes to the same. -/
theorem outputAll_eq (h : t.Alike t') (output : Block) : ∃ written : Checked _,
    t.outputAll output = (do
      let (count, output, result) ← written
      return (t.wrote count, output, result)) ∧
    t'.outputAll output = (do
      let (count, output, result) ← written
      return (t'.wrote count, output, result)) := by
  have hcursor : t'.outputCursor ≤ t'.freeIndex := by
    rw [h.outputCursor_eq, h.freeIndex_eq]
    exact h.outputCursor_le
  refine ⟨_, h.sound.outputAll_eq h.outputCursor_le output, ?_⟩
  rw [h.sound'.outputAll_eq hcursor, h.remaining_eq,
    emitSlots_congr fun index hindex output row ↦ ?_]
  exact h.emitAt_eq index (mem_slotsFrom.1 hindex).2.2 output row

theorem counted (h : t.Alike t') (visited visited' : Nat) :
    (t.counted visited).Alike (t'.counted visited') :=
  ⟨h.toPaired.counted visited visited', h.agrees_eq, h.probeAgrees_eq, h.emitAt_eq, h.store_eq⟩

end Alike

/-- Two tables after the key in a row was put into both: nothing happened to either but that the put
was counted, or both used up their next slots for the key. -/
inductive PutAlike (t t' : KeyTable ε) (input : Block) (row : Nat) :
    KeyTable ε → KeyTable ε → Prop
  | counted (visited visited' : Nat) :
    PutAlike t t' input row (t.counted visited) (t'.counted visited')
  | used {u u' : KeyTable ε} {keys keys' : Block} {hash : Option UInt32} {result : Except ε Unit} :
    t.ops.store input row t.nextKeys (t.layout.split t.freeIndex).offset = .ok (keys, result) →
    t.ops.store input row t'.nextKeys (t'.layout.split t'.freeIndex).offset = .ok (keys', result) →
    (hash ≠ none → result = .ok ()) → t.Used keys hash u → t'.Used keys' hash u' →
    PutAlike t t' input row u u'

namespace Alike

/-- A key that is in neither table is stored in both or in none. -/
theorem putNew (h : t.Alike t') (hash : UInt32) (input : Block) (row visited visited' : Nat) :
    Checked.Related (fun a b ↦ b.2 = a.2 ∧ PutAlike t t' input row a.1 b.1)
      ((t.counted visited).putNew hash ((t.counted visited).lastSlot? hash) input row)
      ((t'.counted visited').putNew hash ((t'.counted visited').lastSlot? hash) input row) := by
  have hcounted := h.counted visited visited'
  rcases Nat.lt_or_ge IndexLayout.maxIndex t.freeIndex with hlt | hle
  · rw [putNew_of_exhausted (t := t.counted visited) hlt,
      putNew_of_exhausted (t := t'.counted visited') (h.freeIndex_eq ▸ hlt)]
    exact .ok ⟨rfl, .counted visited visited'⟩
  · have hle' : t'.freeIndex ≤ IndexLayout.maxIndex := h.freeIndex_eq ▸ hle
    have hput := hcounted.sound.putNew_eq hle hash input row
    have hput' := hcounted.sound'.putNew_eq hle' hash input row
    have hstore := Checked.Related.of_map_eq (h.store_eq input row)
    rw [show (t.counted visited).ops.store input row (t.counted visited).nextKeys
      ((t.counted visited).layout.split (t.counted visited).freeIndex).offset =
        t.ops.store input row t.nextKeys (t.layout.split t.freeIndex).offset from rfl] at hput
    rw [show (t'.counted visited').ops.store input row (t'.counted visited').nextKeys
      ((t'.counted visited').layout.split (t'.counted visited').freeIndex).offset =
        t.ops.store input row t'.nextKeys (t'.layout.split t'.freeIndex).offset from
        h.ops_eq ▸ rfl] at hput'
    generalize hs : t.ops.store input row t.nextKeys (t.layout.split t.freeIndex).offset =
      stored at hput hstore
    generalize hs' : t.ops.store input row t'.nextKeys (t'.layout.split t'.freeIndex).offset =
      stored' at hput' hstore
    cases hstore with
    | error trap =>
      rw [show _ = _ from hput, show _ = _ from hput']
      exact .error trap
    | @ok a b hresult =>
      obtain ⟨keys', result⟩ := a
      obtain ⟨keys, _⟩ := b
      obtain rfl := hresult
      cases result with
      | error cause =>
        obtain ⟨u, hused, hput⟩ := hput
        obtain ⟨u', hused', hput'⟩ := hput'
        rw [hput, hput', hcounted.freeIndex_eq]
        exact .ok ⟨rfl, .used hs hs' (fun hne ↦ absurd rfl hne) hused.of_counted hused'.of_counted⟩
      | ok =>
        obtain ⟨u, hused, hput⟩ := hput
        obtain ⟨u', hused', hput'⟩ := hput'
        rw [hput, hput', hcounted.freeIndex_eq]
        exact .ok ⟨rfl, .used hs hs' (fun _ ↦ rfl) hused.of_counted hused'.of_counted⟩

/-- A key is put into both tables with one result. -/
theorem put (h : t.Alike t') (input : Block) (row : Nat) :
    Checked.Related (fun a b ↦ b.2 = a.2 ∧ PutAlike t t' input row a.1 b.1) (t.put input row)
      (t'.put input row) := by
  rw [h.sound.put_eq, h.sound'.put_eq, h.ops_eq]
  refine .bind_same fun hash ↦ ?_
  have hfind := Checked.Related.of_map_eq
    (h.sound.find_congr h.sound' (h.candidates_eq hash) (h.agrees_eq input row)).symm
  refine hfind.bind ?_
  rintro ⟨found, visited⟩ ⟨found', visited'⟩ - - hfound
  obtain rfl : found = found' := hfound
  cases found with
  | some index => exact .ok ⟨rfl, .counted visited visited'⟩
  | none => exact h.putNew hash input row visited visited'

end Alike

/-! ### Simulations -/

/-- A relation of tables that look alike which every operation keeps. -/
structure Simulation (R : KeyTable ε → KeyTable ε → Prop) : Prop where
  alike : ∀ {t t'}, R t t' → t.Alike t'
  put : ∀ {t t' input row u u'}, R t t' → PutAlike t t' input row u u' → R u u'
  wrote : ∀ {t t'} (count : Nat), R t t' → R (t.wrote count) (t'.wrote count)
  resetOutput : ∀ {t t'}, R t t' → R t.resetOutput t'.resetOutput
  clear : ∀ {t t'}, R t t' → R t.clear t'.clear

namespace Simulation

variable {R : KeyTable ε → KeyTable ε → Prop}

/-- Two tables answer a call alike. -/
theorem call (hR : Simulation R) (h : R t t') (call : TableCall) :
    Checked.Related (fun a b ↦ R a.1 b.1 ∧ b.2 = a.2) (t.call call) (t'.call call) := by
  have halike := hR.alike h
  cases call with
  | put input row =>
    refine (halike.put input row).bind ?_
    rintro ⟨u, result⟩ ⟨u', result'⟩ - - ⟨hresult, hput⟩
    obtain rfl : result' = result := hresult
    exact .ok ⟨hR.put h hput, rfl⟩
  | lookUp input row =>
    rw [KeyTable.call, KeyTable.call, halike.index?_eq]
    exact .bind_same fun found ↦ .ok ⟨h, rfl⟩
  | probe probe row =>
    rw [KeyTable.call, KeyTable.call, halike.probeIndex?_eq]
    exact .bind_same fun found ↦ .ok ⟨h, rfl⟩
  | outputAll output =>
    obtain ⟨written, houtput, houtput'⟩ := halike.outputAll_eq output
    rw [KeyTable.call, KeyTable.call, houtput, houtput']
    cases written with
    | error trap => exact .error trap
    | ok outcome => exact .ok ⟨hR.wrote outcome.1 h, rfl⟩
  | resetOutput => exact .ok ⟨hR.resetOutput h, rfl⟩
  | clear => exact .ok ⟨hR.clear h, rfl⟩

/-- Two tables answer a sequence of calls alike. -/
theorem run (hR : Simulation R) (h : R t t') (calls : List TableCall) :
    Checked.Related (fun a b ↦ R a.1 b.1 ∧ b.2 = a.2) (t.run calls) (t'.run calls) := by
  induction calls generalizing t t' with
  | nil => exact .ok ⟨h, rfl⟩
  | cons call calls ih =>
    refine (hR.call h call).bind ?_
    rintro ⟨u, answer⟩ ⟨u', answer'⟩ - - ⟨hu, hanswer⟩
    obtain rfl : answer' = answer := hanswer
    refine (ih hu).bind ?_
    rintro ⟨v, answers⟩ ⟨v', answers'⟩ - - ⟨hv, hanswers⟩
    obtain rfl : answers' = answers := hanswers
    exact .ok ⟨hv, rfl⟩

end Simulation

/-! ### Segments of one size -/

theorem newSegment_congr {config config' : TableConfig}
    (htypes : config'.keyTypes = config.keyTypes)
    (hcapacity : config'.segmentCapacity = config.segmentCapacity)
    (hbytes : config'.textBytesPerSlot = config.textBytesPerSlot) :
    newSegment config' = newSegment config := by
  rw [newSegment, newSegment, htypes, hcapacity, hbytes]

/-- Two tables whose segments hold the same keys. -/
structure SameKeys (t t' : KeyTable ε) : Prop extends t.Paired t' where
  segmentCapacity_eq : t'.config.segmentCapacity = t.config.segmentCapacity
  textBytesPerSlot_eq : t'.config.textBytesPerSlot = t.config.textBytesPerSlot
  keys_eq : t'.keys = t.keys

namespace SameKeys

theorem layout_eq (h : t.SameKeys t') : t'.layout = t.layout := by
  rw [layout, layout, h.segmentCapacity_eq]

theorem newSegment_eq (h : t.SameKeys t') : newSegment t'.config = newSegment t.config :=
  newSegment_congr h.keyTypes_eq h.segmentCapacity_eq h.textBytesPerSlot_eq

theorem nextKeys_eq (h : t.SameKeys t') : t'.nextKeys = t.nextKeys := by
  rw [KeyTable.nextKeys_eq, KeyTable.nextKeys_eq, h.keys_eq, h.layout_eq, h.freeIndex_eq,
    h.newSegment_eq]

theorem keysAt_eq (h : t.SameKeys t') (index : Nat) : t'.keysAt index = t.keysAt index := by
  rw [keysAt, keysAt, h.keys_eq, h.layout_eq]

/-- Operations on keys do not see more of a table than the keys. -/
theorem alike (h : t.SameKeys t') : t.Alike t' where
  toPaired := h.toPaired
  agrees_eq input row index _ := by rw [tested, tested, h.keysAt_eq, h.layout_eq]
  probeAgrees_eq probe row index _ := by rw [tested, tested, h.keysAt_eq, h.layout_eq]
  emitAt_eq index _ output row := by rw [emitAt, emitAt, h.keysAt_eq, h.layout_eq, h.ops_eq]
  store_eq input row := by rw [h.nextKeys_eq, h.layout_eq, h.freeIndex_eq]

theorem put (h : t.SameKeys t') {input : Block} {row : Nat} {u u' : KeyTable ε}
    (hput : PutAlike t t' input row u u') : u.SameKeys u' := by
  cases hput with
  | counted visited visited' =>
    exact ⟨h.toPaired.counted visited visited', h.segmentCapacity_eq, h.textBytesPerSlot_eq,
      h.keys_eq⟩
  | @used _ _ keys keys' _ _ hstore hstore' _ hused hused' =>
    rw [h.nextKeys_eq, h.layout_eq, h.freeIndex_eq, hstore] at hstore'
    obtain ⟨rfl, -⟩ := Prod.mk.inj (Except.ok.inj hstore')
    have hextended : t'.extended.keys = t.extended.keys := by
      rw [keys_extended_eq, keys_extended_eq, h.keys_eq, h.layout_eq, h.freeIndex_eq,
        h.newSegment_eq]
    refine ⟨h.toPaired.used hused hused', ?_, ?_, ?_⟩
    · rw [hused'.config_eq, hused.config_eq, h.segmentCapacity_eq]
    · rw [hused'.config_eq, hused.config_eq, h.textBytesPerSlot_eq]
    · rw [hused'.keys_eq, hused.keys_eq, hextended, h.layout_eq, h.freeIndex_eq]

theorem clear (h : t.SameKeys t') : t.clear.SameKeys t'.clear :=
  ⟨h.toPaired.clear, h.segmentCapacity_eq, h.textBytesPerSlot_eq, by
    rw [clear_eq, clear_eq, keys_fresh, keys_fresh, h.newSegment_eq]⟩

end SameKeys

theorem simulation_sameKeys : Simulation (SameKeys (ε := ε)) where
  alike h := h.alike
  put h := h.put
  wrote count h :=
    ⟨h.toPaired.wrote count, h.segmentCapacity_eq, h.textBytesPerSlot_eq, h.keys_eq⟩
  resetOutput h := ⟨h.toPaired.resetOutput, h.segmentCapacity_eq, h.textBytesPerSlot_eq, h.keys_eq⟩
  clear h := h.clear

end KeyTable

/-! ### Segments of different sizes -/

namespace ColumnKeys

/-- The operations on these keys, with hashes of any kind. -/
def hashedBy (k : ColumnKeys) (hash probeHash : Block → Nat → Checked UInt32) : KeyOps KeyError :=
  { k.ops with
    hash := hash
    probeHash := probeHash }

variable {k : ColumnKeys} {hash probeHash : Block → Nat → Checked UInt32}
  {t t' : KeyTable KeyError}

/-- Two tables without texts whose slots hold the same keys. -/
structure SameRows (k : ColumnKeys) (hash probeHash : Block → Nat → Checked UInt32)
    (t t' : KeyTable KeyError) : Prop extends t.Paired t' where
  keyed : t.Keyed
  keyed' : t'.Keyed
  hashed : t.ops = k.hashedBy hash probeHash
  length_build : k.build.length = t.config.keyTypes.length
  fixed : .varchar ∉ t.config.keyTypes
  stored_eq : ∀ index, t.hash? index ≠ none → t'.stored index = t.stored index

namespace SameRows

/-- The keys in two slots read the same, column by column. -/
theorem exists_keysAt (h : k.SameRows hash probeHash t t') {index : Nat}
    (hindex : t.hash? index ≠ none) : ∃ keys keys', t.keysAt index = .ok keys ∧
      t'.keysAt index = .ok keys' ∧
      List.Forall₂ (fun c c' ↦ c.storage = c'.storage ∧
        c.get (t.layout.split index).offset = c'.get (t'.layout.split index).offset)
        keys.columns keys'.columns := by
  have hindex' : t'.hash? index ≠ none := h.hash?_eq index ▸ hindex
  obtain ⟨key, hkey, -⟩ := h.keyed.exists_stored h.sound.toSegmented hindex
  have hkey' := (h.stored_eq index hindex).trans hkey
  obtain ⟨keys, hkeys, hread⟩ := exists_of_bind_eq_ok hkey
  obtain ⟨keys', hkeys', hread'⟩ := exists_of_bind_eq_ok hkey'
  have hrectangle' := h.keyed'.rectangle hkeys'
  rw [h.keyTypes_eq] at hrectangle'
  exact ⟨keys, keys', hkeys, hkeys', (h.keyed.rectangle hkeys).forall₂_get hrectangle' hread hread'⟩

/-- Operations on keys read no more of a slot than the key. -/
theorem alike (h : k.SameRows hash probeHash t t') : t.Alike t' where
  toPaired := h.toPaired
  agrees_eq input row index hindex := by
    obtain ⟨keys, keys', hkeys, hkeys', hsame⟩ := h.exists_keysAt hindex
    rw [KeyTable.tested, KeyTable.tested, hkeys, hkeys', h.hashed]
    exact (agreeAt_congr (hsame.imp fun _ _ ↦ And.right)).symm
  probeAgrees_eq probe row index hindex := by
    obtain ⟨keys, keys', hkeys, hkeys', hsame⟩ := h.exists_keysAt hindex
    rw [KeyTable.tested, KeyTable.tested, hkeys, hkeys', h.hashed]
    exact (agreeAt_congr (hsame.imp fun _ _ ↦ And.right)).symm
  emitAt_eq index hindex output row := by
    obtain ⟨keys, keys', hkeys, hkeys', hsame⟩ := h.exists_keysAt hindex
    rw [KeyTable.emitAt, KeyTable.emitAt, hkeys, hkeys', h.ops_eq, h.hashed]
    exact (emit_congr hsame output row).symm
  store_eq input row := by
    have hnext' := h.keyed'.nextKeys
    rw [h.keyTypes_eq] at hnext'
    rw [h.hashed]
    exact (store_congr (h.keyed.nextKeys.forall₂_refusal? hnext' h.fixed
      (h.sound.toSegmented.offset_lt _) (h.sound'.toSegmented.offset_lt _)) k.build input row).symm

theorem put (h : k.SameRows hash probeHash t t') {input : Block} {row : Nat}
    {u u' : KeyTable KeyError} (hput : KeyTable.PutAlike t t' input row u u') :
    k.SameRows hash probeHash u u' := by
  cases hput with
  | counted visited visited' =>
    exact ⟨h.toPaired.counted visited visited', h.keyed, h.keyed', h.hashed, h.length_build,
      h.fixed, h.stored_eq⟩
  | @used _ _ keys keys' cached result hstore hstore' hresult hused hused' =>
    rw [h.hashed] at hstore hstore'
    have hrewritten := rewritten_of_store hstore h.keyed.nextKeys.aligned
    have hrewritten' := rewritten_of_store hstore' h.keyed'.nextKeys.aligned
    refine ⟨h.toPaired.used hused hused', hused.keyed h.keyed hrewritten,
      hused'.keyed h.keyed' hrewritten', hused.ops_eq.trans h.hashed, ?_, ?_, fun index hindex ↦ ?_⟩
    · rw [hused.config_eq, h.length_build]
    · rw [hused.config_eq]
      exact h.fixed
    · rw [hused.hash?_eq] at hindex
      split_ifs at hindex with hnew
      · -- a key that was stored is that of the row it was read from
        obtain rfl := hresult hindex
        have hwidth : k.build.length = t.nextKeys.width :=
          h.length_build.trans h.keyed.nextKeys.length_eq.symm
        have hwidth' : k.build.length = t'.nextKeys.width := by
          rw [h.length_build, ← h.keyTypes_eq]
          exact h.keyed'.nextKeys.length_eq.symm
        obtain ⟨key, hkey⟩ := exists_keyAt_of_store hstore hwidth
        have hlength : key.length = k.build.length := Checked.length_of_mapM_eq_ok hkey
        have hread := row_of_store hstore h.keyed.nextKeys.aligned hkey (hlength.trans hwidth)
        have hread' := row_of_store hstore' h.keyed'.nextKeys.aligned hkey (hlength.trans hwidth')
        rw [← hnew, hused.stored_freeIndex, hread, ← h.freeIndex_eq,
          hused'.stored_freeIndex, hread']
      · rw [hused.stored_eq h.sound hrewritten hindex, ← h.stored_eq index hindex]
        exact hused'.stored_eq h.sound' hrewritten' (h.hash?_eq index ▸ hindex)

end SameRows

theorem simulation_sameRows (k : ColumnKeys) (hash probeHash : Block → Nat → Checked UInt32) :
    KeyTable.Simulation (k.SameRows hash probeHash) where
  alike h := h.alike
  put h := h.put
  wrote count h := ⟨h.toPaired.wrote count, h.keyed, h.keyed', h.hashed, h.length_build, h.fixed,
    h.stored_eq⟩
  resetOutput h := ⟨h.toPaired.resetOutput, h.keyed, h.keyed', h.hashed, h.length_build, h.fixed,
    h.stored_eq⟩
  clear h := ⟨h.toPaired.clear, KeyTable.keyed_fresh _ _ _, KeyTable.keyed_fresh _ _ _, h.hashed,
    h.length_build, h.fixed, fun index hindex ↦ absurd (KeyTable.hash?_fresh _ _ _ index) hindex⟩

/-! ### Configurations -/

/-- A configuration with more buckets and larger segments than the cramped one, for the same keys.
-/
def roomy : TableConfig where
  initialCapacity := 8
  segmentCapacity := 4
  keyColumns := KeyTable.cramped.keyColumns

theorem fault?_roomy : roomy.fault? = none := rfl

/-- Puts of all rows, a lookup, and two outputs, the first of which is too small. -/
def repeatedCalls : List TableCall :=
  (List.range 6).map (.put repeated ·) ++
    [.lookUp repeated 3, .outputAll (.ofTypes [.integer] 1), .outputAll (.ofTypes [.integer] 3)]

/-- Tables for the same keys answer every call alike and have the same sizes, whatever sizes their
buckets start with, when these are doubled and where they stop; and also if their segments differ in
size, as long as no key has texts. -/
theorem runs_agree {config config' : TableConfig} {t t' : KeyTable KeyError}
    (h : KeyTable.create config (k.hashedBy hash probeHash) = .ok t)
    (h' : KeyTable.create config' (k.hashedBy hash probeHash) = .ok t')
    (hcolumns : config'.keyColumns = config.keyColumns)
    (hsegments : config'.segmentCapacity = config.segmentCapacity ∧
        config'.textBytesPerSlot = config.textBytesPerSlot ∨
      k.build.length = config.keyColumns.length ∧ .varchar ∉ config.keyTypes)
    (calls : List TableCall) :
    Checked.Related (fun (u, answers) (u', answers') ↦ answers' = answers ∧
      u'.size = u.size ∧ u'.freeIndex = u.freeIndex ∧ u'.outputCount = u.outputCount ∧
      (config'.segmentCapacity = config.segmentCapacity → u'.segments.size = u.segments.size))
      (t.run calls) (t'.run calls) := by
  have hkept := KeyTable.kept_of_create_eq_ok h
  have hkept' := KeyTable.kept_of_create_eq_ok h'
  obtain rfl := KeyTable.eq_fresh_of_create_eq_ok h
  obtain rfl := KeyTable.eq_fresh_of_create_eq_ok h'
  have htypes : config'.keyTypes = config.keyTypes :=
    congrArg (List.map KeyColumn.dataType) hcolumns
  have hpaired := KeyTable.paired_fresh hkept.sane hkept'.sane htypes
    (k.hashedBy hash probeHash) {} {}
  -- the relation in which the tables start depends on what their segments share
  have hrun : Checked.Related (fun a b ↦ a.1.Paired b.1 ∧ b.2 = a.2)
      ((KeyTable.fresh config (k.hashedBy hash probeHash) {}).run calls)
      ((KeyTable.fresh config' (k.hashedBy hash probeHash) {}).run calls) := by
    rcases hsegments with ⟨hcapacity, hbytes⟩ | ⟨hlength, hfixed⟩
    · have hkeys : (KeyTable.fresh config' (k.hashedBy hash probeHash) {}).keys =
          (KeyTable.fresh config (k.hashedBy hash probeHash) {}).keys := by
        rw [KeyTable.keys_fresh, KeyTable.keys_fresh,
          KeyTable.newSegment_congr htypes hcapacity hbytes]
      exact (KeyTable.simulation_sameKeys.run ⟨hpaired, hcapacity, hbytes, hkeys⟩ calls).mono
        fun _ _ _ _ hsame ↦ ⟨hsame.1.toPaired, hsame.2⟩
    · refine ((simulation_sameRows k hash probeHash).run ⟨hpaired, KeyTable.keyed_fresh _ _ _,
        KeyTable.keyed_fresh _ _ _, rfl, ?_, hfixed, fun index hindex ↦ ?_⟩ calls).mono
        fun _ _ _ _ hsame ↦ ⟨hsame.1.toPaired, hsame.2⟩
      · exact hlength.trans (List.length_map _).symm
      · exact absurd (KeyTable.hash?_fresh _ _ _ index) hindex
  refine hrun.mono ?_
  rintro ⟨u, answers⟩ ⟨u', answers'⟩ hu hu' ⟨hpaired, hanswers⟩
  refine ⟨hanswers, hpaired.entries_eq, hpaired.freeIndex_eq, hpaired.outputCount_eq, ?_⟩
  intro hcapacity
  have hconfig : u.config = config := ((hkept.run calls).of_eq_ok hu).config_eq
  have hconfig' : u'.config = config' := ((hkept'.run calls).of_eq_ok hu').config_eq
  rw [hpaired.sound.size_segments, hpaired.sound'.size_segments, hpaired.freeIndex_eq,
    TableConfig.segmentsFor, TableConfig.segmentsFor, hconfig, hconfig', hcapacity]

/-- Two tables that differ in the number of buckets, in how often these are doubled and in the size
of their segments. -/
theorem runs_agree_repeated : ∃ u u' answers,
    (KeyTable.fresh KeyTable.cramped identified.ops {}).run repeatedCalls = .ok (u, answers) ∧
      (KeyTable.fresh roomy identified.ops {}).run repeatedCalls = .ok (u', answers) ∧
      u.metrics.resizes = 1 ∧ u'.metrics.resizes = 0 ∧ u.size = 4 ∧ u'.size = 4 := by
  obtain ⟨u, answers, hrun, hresizes, hsize⟩ : ∃ u answers,
      (KeyTable.fresh KeyTable.cramped identified.ops {}).run repeatedCalls = .ok (u, answers) ∧
        u.metrics.resizes = 1 ∧ u.size = 4 :=
    ⟨_, _, rfl, rfl, rfl⟩
  obtain ⟨v, hv, hresizes'⟩ : ∃ v,
      (KeyTable.fresh roomy identified.ops {}).run repeatedCalls = .ok v ∧
        v.1.metrics.resizes = 0 :=
    ⟨_, rfl, rfl⟩
  have hcreate := KeyTable.create_eq_ok KeyTable.fault?_cramped identified.ops
  have hcreate' := KeyTable.create_eq_ok fault?_roomy identified.ops
  have hagree := runs_agree (k := identified) hcreate hcreate' rfl (.inr ⟨rfl, by decide⟩)
    repeatedCalls
  obtain ⟨⟨u', answers'⟩, hrun', hanswers, hsize', -⟩ := hagree.exists_eq_ok hrun
  obtain rfl := hanswers
  obtain rfl := Except.ok.inj (hv.symm.trans hrun')
  exact ⟨u, u', _, hrun, hrun', hresizes, hresizes', hsize, hsize'.trans hsize⟩

end ColumnKeys

end Columnar
