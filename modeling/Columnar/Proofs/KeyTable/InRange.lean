import Columnar.Proofs.Columns.Appended
import Columnar.Proofs.KeyTable.Charges
import Columnar.Proofs.KeyTable.Joining

/-!
# Positions in key tables

No history abandons a table whose keys are read from columns of the types that were checked, and
every position that a table keeps is one of its own (`inRange_of_run`).

## What makes a position right

Three facts about a table meet here.

* That it is sound says where its links lead: a link in a slot ends a chain or leads to a slot with
  a key (`LeadsOn`).
* That the columns of a segment have one size says that each slot can be read and written in all of
  them, its validity bit included.
* That no slot on record lies behind its segment (`Recorded`) says that the slots can be linked
  anew. Soundness alone does not say this: a record may be too high and be right for all keys.

## Why calls are answered

Calls are admitted if they are about rows that exist, in blocks of the checked types, or about
outputs whose columns are as they should be (`Admits`). Such a call is answered and keeps all three
facts (`call_answers`). **The tables in the middle of a put are looked at as well**, after an index
is handed out and while the buckets are doubled, since a position out of range would be met there
first (`Sound.allocate_inRange`, `Sound.grow_inRange`).

Since the types were checked, a key is refused for want of an index or of bytes for one of its
texts, and for nothing else (`Answers`).
-/

namespace Columnar

namespace Column

variable {c : Column} {row : Nat}

theorem Aligned.size_validity (hc : c.Aligned) : c.validity.size = c.size := by
  rw [← Bitmap.length_toList, hc.toList_validity, List.length_map, hc.length_toList]

/-- The bit of a row that exists can be written. -/
theorem Aligned.set_validity (hc : c.Aligned) (h : row < c.size) (present : Bool) :
    c.validity.set row present = .ok (c.validity.put row present) := by
  have hlt : row < c.validity.size := hc.size_validity ▸ h
  rw [Bitmap.set, if_pos hlt, if_pos (hc.packed.div_lt hlt)]

end Column

/-- A text that exceeds what is left of a byte budget is the cause of a refusal. -/
inductive ColumnError.WantsBytes : ColumnError → Prop
  | intro {required used budget : Nat} : budget < used + required →
    WantsBytes (.overBudget required used budget)

/-! ### Segments and tables -/

/-- A segment of slots that are all there: a link and a hash for each, and a row in every column,
which can be read and whose bit can be written. -/
structure Segment.InRange (types : List DataType) (capacity : Nat) (s : Segment) : Prop where
  size_links : s.links.size = capacity
  size_hashes : s.hashes.size = capacity
  types_eq : s.keys.types = types
  size_eq : ∀ c ∈ s.keys.columns, c.size = capacity
  exists_get : ∀ c ∈ s.keys.columns, ∀ offset < capacity, ∃ value, c.get offset = .ok value
  set_validity : ∀ c ∈ s.keys.columns, ∀ offset < capacity, ∀ present,
    c.validity.set offset present = .ok (c.validity.put offset present)
  maxOccupied_lt : ∀ last, s.maxOccupied = some last → last < capacity

namespace KeyTable

variable {ε : Type} {t : KeyTable ε}

/-- A link that ends a chain or leads to a slot with a key. -/
def LeadsOn (t : KeyTable ε) (link : Link) : Prop :=
  link = .nil ∨ ∃ index, link = .next index ∧ t.Occupied index

/-- A table all of whose positions are its own. -/
structure InRange (t : KeyTable ε) : Prop where
  /-- Every hash has a bucket. -/
  bucketOf_lt : ∀ hash, t.bucketOf hash < t.buckets.size
  leadsOn_bucket : ∀ (bucket : Nat) (link : Link), t.buckets[bucket]? = some link → t.LeadsOn link
  /-- Every index that was handed out has a slot. -/
  exists_slot : ∀ index < t.freeIndex, ∃ link hash,
    t.linkAt index = .ok link ∧ t.hashAt index = .ok hash
  leadsOn_slot : ∀ index link, t.linkAt index = .ok link → link = .vacant ∨ t.LeadsOn link
  lt_freeIndex : ∀ index, t.Occupied index → index < t.freeIndex
  freeIndex_le : t.freeIndex ≤ IndexLayout.maxIndex + 1
  outputCursor_le : t.outputCursor ≤ t.freeIndex
  size_segments : t.segments.size = t.config.segmentsFor t.freeIndex
  segments : ∀ s ∈ t.segments, s.InRange t.config.keyTypes t.config.segmentCapacity

/-- No slot on record lies behind its segment. -/
def Recorded (t : KeyTable ε) : Prop :=
  ∀ s ∈ t.segments, ∀ last, s.maxOccupied = some last → last < t.config.segmentCapacity

theorem recorded_fresh (config : TableConfig) (ops : KeyOps ε) (metrics : TableMetrics) :
    (fresh config ops metrics).Recorded := by
  intro s hs last hlast
  obtain rfl : s = newSegment config := by simpa [fresh] using hs
  cases hlast

theorem Recorded.extended (h : t.Recorded) : t.extended.Recorded := by
  intro s hs last hlast
  rcases mem_segments_extended hs with hs | rfl
  · exact h s hs last hlast
  · cases hlast

namespace Recorded

/-- What is on record does not depend on the links between keys. -/
theorem congr (h : t.Recorded) {t' : KeyTable ε} (hconfig : t'.config = t.config)
    (hcut : t'.segments.map Segment.cut = t.segments.map Segment.cut) : t'.Recorded := by
  rw [Recorded, hconfig]
  exact forall_segments_congr (fun s ↦ Iff.rfl) hcut h

/-- Writing a slot puts it on record, or one behind it that is there. -/
theorem written (h : t.Recorded) (ht : t.Segmented) (index : Nat) (keys : Block) (hash : UInt32) :
    (t.modified index (·.written keys (t.layout.split index).offset hash)).Recorded := by
  have hoffset : (t.layout.split index).offset < t.config.segmentCapacity := ht.offset_lt index
  refine forall_segments_modified (fun s hs last hlast ↦ ?_) h
  obtain rfl := Option.some.inj hlast
  cases hmax : s.maxOccupied with
  | none => exact hoffset
  | some last => exact Nat.max_lt.2 ⟨hs last hmax, hoffset⟩

/-- Putting a key keeps the slots on record inside their segments. -/
theorem put (h : t.Recorded) {hash : UInt32} {input : Block} {row : Nat}
    {outcome : KeyTable ε × Except (TableError ε) PutStatus}
    (hputting : Putting t hash input row outcome) : outcome.1.Recorded := by
  cases hputting with
  | present => exact h
  | @new visited _ _ hstoring =>
    have hcounted : (t.counted visited).Recorded := h
    cases hstoring with
    | exhausted => exact h
    | @stored u segment _ hprepared _ hinsertion =>
      have hu : u.Recorded := hcounted.extended.congr (by rw [hprepared.eq]) hprepared.cut
      cases hinsertion with
      | failed => exact forall_segments_modified (fun _ hs ↦ hs) hu
      | stored _ _ hcut hfields =>
        exact (hu.written hprepared.sound.toSegmented _ _ _).congr (by rw [hfields]; rfl) hcut

end Recorded

/-! ### Links of sound tables -/

/-- A slot with a key is occupied. -/
theorem Segmented.occupied_of_hash? (ht : t.Segmented) {index : Nat} (h : t.hash? index ≠ none) :
    t.Occupied index :=
  ht.occupied_iff.2 (hash?_ne_none_iff.1 h)

/-- A chain of keys leads on to its slots. -/
theorem Sound.leadsOn (h : t.Sound) {link : Link} {slots : List Nat} {bucket : Nat}
    (hleads : Leads t.slot? link slots) (hslots : ∀ i ∈ slots, i ∈ t.bucketSlots bucket) :
    t.LeadsOn link := by
  refine hleads.eq_nil_or_next.imp id fun ⟨index, hindex, hlink⟩ ↦ ⟨index, hlink, ?_⟩
  obtain ⟨-, hash, hhash, -⟩ := mem_bucketSlots.1 (hslots index hindex)
  exact h.toSegmented.occupied_of_hash? (hhash ▸ Option.some_ne_none _)

/-- A slot of a sound table is vacant, or leads on along the chain that it is on. -/
theorem Sound.leadsOn_slot (h : t.Sound) {index : Nat} {link : Link}
    (hlink : t.linkAt index = .ok link) : link = .vacant ∨ t.LeadsOn link := by
  by_cases hvacant : link = .vacant
  · exact .inl hvacant
  · obtain ⟨hash, hholds⟩ := h.toSegmented.occupied_iff.1 ⟨link, hlink, hvacant⟩
    have hhash := holds_iff.1 hholds
    have hmem : index ∈ t.bucketSlots (t.bucketOf hash) := mem_bucketSlots.2
      ⟨lt_freeIndex_of_hash? h (hhash ▸ Option.some_ne_none _), hash, hhash, rfl⟩
    have hhead : t.buckets[t.bucketOf hash]? = some _ :=
      Array.getElem?_eq_getElem (KeyTable.bucketOf_lt h.buckets_pos hash)
    obtain ⟨next, _, rest, hslot, hrest, hslots⟩ := (h.leads _ _ hhead).exists_of_mem hmem
    obtain rfl := Except.ok.inj (hlink.symm.trans (linkAt_eq hslot))
    exact .inr (h.leadsOn hrest hslots)

/-- A sound table whose segments have columns of one size, with no slot on record behind its
segment, has all its positions in range. -/
theorem Sound.inRange (h : t.Sound) (hcursor : t.outputCursor ≤ t.freeIndex) (hkeyed : t.Keyed)
    (hrecorded : t.Recorded) : t.InRange where
  bucketOf_lt := KeyTable.bucketOf_lt h.buckets_pos
  leadsOn_bucket bucket link hlink := h.leadsOn (h.leads bucket link hlink) fun _ ↦ id
  exists_slot index hindex := by
    obtain ⟨⟨link, hash⟩, hslot⟩ := Option.isSome_iff_exists.1 (h.isSome_slot? hindex)
    exact ⟨link, hash, slot?_eq_some_iff_ok.1 hslot⟩
  leadsOn_slot index link hlink := h.leadsOn_slot hlink
  lt_freeIndex index hindex := by
    rw [h.toSegmented.occupied_iff, ← hash?_ne_none_iff] at hindex
    exact lt_freeIndex_of_hash? h hindex
  freeIndex_le := h.freeIndex_le
  outputCursor_le := hcursor
  size_segments := h.size_segments
  segments s hs := by
    have hkeys : Column.Rectangle t.config.keyTypes t.config.segmentCapacity s.keys.columns :=
      hkeyed s.keys (Array.mem_map_of_mem hs)
    refine ⟨h.size_links s hs, h.size_hashes s hs, hkeys.types_eq, hkeys.size_eq,
      fun c hc offset hoffset ↦ ?_, fun c hc offset hoffset present ↦ ?_, hrecorded s hs⟩
    · exact (hkeys.aligned c hc).exists_get (hkeys.size_eq c hc ▸ hoffset)
    · exact (hkeys.aligned c hc).set_validity (hkeys.size_eq c hc ▸ hoffset) present

/-- Doubling the buckets leads to a table with all its positions in range. -/
theorem Sound.grow_inRange (h : t.Sound) (hcursor : t.outputCursor ≤ t.freeIndex)
    (hkeyed : t.Keyed) (hrecorded : t.Recorded) : t.grow.Gives InRange := by
  obtain ⟨t', ht', hsound, hcut, hfields⟩ := h.grow
  have hconfig : t'.config = t.config := by rw [hfields]
  have hkeyed' : t'.Keyed := by rwa [Keyed, keys_congr hcut, hconfig]
  have hcursor' : t'.outputCursor ≤ t'.freeIndex := by rwa [hfields]
  exact ⟨t', ht', hsound.inRange hcursor' hkeyed' (hrecorded.congr hconfig hcut)⟩

/-- So does handing out an index, whether the buckets are doubled then or not. -/
theorem Sound.allocate_inRange (h : t.Sound) (hcursor : t.outputCursor ≤ t.freeIndex)
    (hkeyed : t.Keyed) (hrecorded : t.Recorded) {t' : KeyTable ε} {index : Nat}
    (hallocate : t.allocate = .ok (t', index)) : t'.InRange ∧ t'.grow.Gives InRange := by
  rcases Nat.lt_or_ge IndexLayout.maxIndex t.freeIndex with hlt | hle
  · rw [allocate, if_neg (Nat.not_le_of_lt hlt)] at hallocate
    cases hallocate
  · rw [allocate_eq hle] at hallocate
    obtain ⟨rfl, -⟩ := Prod.mk.inj (Except.ok.inj hallocate)
    have hsound := h.extended hle
    have hcursor' : t.extended.outputCursor ≤ t.extended.freeIndex := Nat.le_succ_of_le hcursor
    exact ⟨hsound.inRange hcursor' hkeyed.extended hrecorded.extended,
      hsound.grow_inRange hcursor' hkeyed.extended hrecorded.extended⟩

end KeyTable

namespace ColumnKeys

open Column (Rectangle overflowAt)

variable {k : ColumnKeys} {config : TableConfig} {t : KeyTable KeyError} {input output : Block}
  {row : Nat} {key : Row} {types probeTypes : List DataType}

/-! ### Refusals -/

/-- A value for which there is no room wants bytes. -/
theorem wantsBytes_of_overflowAt {columns : List Column} {values : Row} {i : Nat}
    {refusal : ColumnError} (h : overflowAt columns values i = some refusal) :
    refusal.WantsBytes := by
  obtain ⟨c, -, h⟩ := Option.bind_eq_some_iff.1 h
  obtain ⟨value, -, h⟩ := Option.bind_eq_some_iff.1 h
  obtain ⟨d, s, -, -, hroom, rfl⟩ := Column.overflow?_eq_some_iff.1 h
  exact .intro hroom

/-- Copying a key that the columns can store is refused for want of bytes. -/
theorem Settled.wantsBytes {targets targets' : List Column} {refusal : ColumnError}
    (h : Settled targets key targets' (.error refusal)) : refusal.WantsBytes := by
  cases h with
  | refused hoverflow => exact wantsBytes_of_overflowAt hoverflow

/-- An output without a row behind those that are published is full. -/
theorem emit_of_full {keys : Block} (hwidth : keys.width ≤ output.width)
    (hfull : output.capacity ≤ row) (slot : Nat) :
    emit keys slot output row = .ok (output, .ok false) := by
  rw [emit, if_neg (Nat.not_lt_of_le hwidth), if_pos hfull]
  rfl

/-- A key is written into an output of its types unless it wants bytes. -/
theorem Emission.wantsBytes {keys : Block} {slot size : Nat}
    {outcome : Block × Except KeyError Bool} {cause : KeyError}
    (h : Emission keys slot output outcome)
    (hemit : emit keys slot output output.length = .ok outcome) (hcause : outcome.2 = .error cause)
    (hkeys : Rectangle types size keys.columns)
    (houtput : Rectangle types output.capacity output.columns) (hkey : keys.row slot = .ok key) :
    ∃ refusal, cause = .column refusal ∧ refusal.WantsBytes := by
  have hwidth : keys.width = output.width := hkeys.length_eq.trans houtput.length_eq.symm
  cases h with
  | narrow hnarrow => exact absurd hnarrow (hwidth ▸ Nat.lt_irrefl _)
  | full | written => cases hcause
  | @refused columns refusal hcopied =>
    have hroom : output.length < output.capacity := by
      by_contra hfull
      have hfull := emit_of_full (Nat.le_of_eq hwidth) (Nat.le_of_not_lt hfull) slot
      cases congrArg Prod.snd (Except.ok.inj (hemit.symm.trans hfull))
    have hsettled := hcopied.settled (reads_of_mapM_get hkey) (storage_of_rectangle hkeys houtput)
      fun c hc ↦ houtput.size_eq c hc ▸ hroom
    exact ⟨refusal, (Except.error.inj hcause).symm, hsettled.wantsBytes⟩

/-- Keys are written into an output of their types up to one that wants bytes. -/
theorem Table.wantsBytes_of_emitSlots (h : k.Table config t) {slots : List Nat} {output' : Block}
    {count : Nat} {refusal : TableError KeyError}
    (hslots : ∀ index ∈ slots, t.hash? index ≠ none)
    (houtput : Rectangle config.keyTypes output.capacity output.columns)
    (hemit : t.emitSlots slots output output.length = .ok (count, output', .error refusal)) :
    ∃ index cause, refusal = .outputFailed index (.column cause) ∧ cause.WantsBytes := by
  induction slots generalizing output count with
  | nil => cases hemit
  | cons index slots ih =>
    obtain ⟨key, hkey, -⟩ := h.exists_stored (hslots index List.mem_cons_self)
    obtain ⟨keys, outcome, hkeys, hrow, houtcome, hemission⟩ := h.emitAt hkey houtput.aligned
    have hrectangle := h.keyed.rectangle hkeys
    rw [h.config_eq] at hrectangle
    have hops : emit keys (t.layout.split index).offset output output.length = .ok outcome := by
      rw [KeyTable.emitAt, hkeys, h.ops_eq] at houtcome
      exact houtcome
    rw [KeyTable.emitSlots, houtcome, Checked.ok_bind] at hemit
    rcases outcome with ⟨emitted, cause | _ | _⟩
    · obtain ⟨-, hrest⟩ := Prod.mk.inj (Except.ok.inj hemit)
      obtain ⟨-, hrefusal⟩ := Prod.mk.inj hrest
      obtain ⟨refusal, rfl, hwants⟩ := hemission.wantsBytes hops rfl hrectangle houtput hrow
      exact ⟨index, refusal, (Except.error.inj hrefusal).symm, hwants⟩
    · cases hemit
    · cases hemission with
      | @written columns _ hroom hcopied =>
        obtain ⟨⟨more, output'', result⟩, hmore, hrest⟩ := exists_of_bind_eq_ok hemit
        obtain ⟨-, hrest⟩ := Prod.mk.inj (Except.ok.inj hrest)
        obtain ⟨rfl, rfl⟩ := Prod.mk.inj hrest
        -- the output has its types and its size still
        have happended := Appended.of_written hroom (hcopied.rewritten houtput.aligned)
          (hcopied.mapM_get_eq houtput.aligned (reads_of_mapM_get hrow) (by
            rw [Block.length_row hrow]
            exact Nat.le_of_eq (hrectangle.length_eq.trans houtput.length_eq.symm)))
        refine ih (fun index hindex ↦ hslots index (List.mem_cons_of_mem _ hindex)) ?_ hmore
        rw [happended.capacity_eq]
        exact houtput.rewritten (hcopied.rewritten houtput.aligned)

/-! ### Histories -/

/-- Rows of blocks of the checked types that lie inside their columns, and outputs whose columns are
as they should be. -/
def Admits (types probeTypes : List DataType) : TableCall → Prop
  | .put input row => input.types = types ∧ input.HasRow row
  | .lookUp input row => input.types = types ∧ input.HasRow row
  | .probe probe row => probe.types = probeTypes ∧ probe.HasRow row
  | .outputAll output => ∀ c ∈ output.columns, c.Aligned
  | .resetOutput => True
  | .clear => True

/-- What a call may answer. A put is refused only if all indexes are handed out or a text of the key
wants bytes, and writing keys out into columns of their types only if a text wants bytes. -/
inductive Answers (config : TableConfig) : TableCall → TableAnswer KeyError → Prop
  | put {input : Block} {row : Nat} {status : PutStatus} :
    Answers config (.put input row) (.put (.ok status))
  | exhausted {input : Block} {row : Nat} : Answers config (.put input row)
    (.put (.error (.indexesExhausted (IndexLayout.maxIndex + 1))))
  | insertFailed {input : Block} {row index : Nat} {cause : ColumnError} : cause.WantsBytes →
    Answers config (.put input row) (.put (.error (.insertFailed index (.column cause))))
  | lookUp {input : Block} {row : Nat} {found : Option Nat} :
    Answers config (.lookUp input row) (.found found)
  | probe {probe : Block} {row : Nat} {found : Option Nat} :
    Answers config (.probe probe row) (.found found)
  | written {output output' : Block} {complete : Bool} :
    Answers config (.outputAll output) (.written output' (.ok complete))
  | outputFailed {output output' : Block} {index : Nat} {cause : ColumnError} : cause.WantsBytes →
    Answers config (.outputAll output)
      (.written output' (.error (.outputFailed index (.column cause))))
  | unfit {output output' : Block} {refusal : TableError KeyError} :
    ¬Rectangle config.keyTypes output.capacity output.columns →
    Answers config (.outputAll output) (.written output' (.error refusal))
  | reset : Answers config .resetOutput .reset
  | cleared : Answers config .clear .cleared

/-- A put that settles answers as it may. -/
theorem Settles.answers {t' : KeyTable KeyError} {result : Except (TableError KeyError) PutStatus}
    (h : k.Settles t key t' result) : Answers config (.put input row) (.put result) := by
  cases h with
  | present | inserted => exact .put
  | exhausted => exact .exhausted
  | refused _ _ hsettled => exact .insertFailed hsettled.wantsBytes

namespace Table

/-- Writing keys out is not abandoned, and moves nothing but the cursor. -/
theorem outputAll_answers (h : k.Table config t) (haligned : ∀ c ∈ output.columns, c.Aligned) :
    ∃ count output' result, t.outputAll output = .ok (t.wrote count, output', result) ∧
      k.Table config (t.wrote count) ∧
        Answers config (.outputAll output) (.written output' result) := by
  have hslots (index : Nat) (hindex : index ∈ t.remaining) : t.hash? index ≠ none :=
    (KeyTable.mem_slotsFrom.1 hindex).2.2
  obtain ⟨keys, hstored, hwidth⟩ := h.exists_keys hslots
  obtain ⟨count, output', result, hemit, -, -⟩ := h.emitSlots hstored hwidth haligned
  refine ⟨count, output', result, ?_, h.wrote (KeyTable.count_le_of_emitSlots hemit), ?_⟩
  · rw [h.sound.outputAll_eq h.tracking.outputCursor_le, hemit]
    rfl
  · cases result with
    | ok complete => exact .written
    | error refusal =>
      by_cases houtput : Rectangle config.keyTypes output.capacity output.columns
      · obtain ⟨index, cause, rfl, hwants⟩ := h.wantsBytes_of_emitSlots hslots houtput hemit
        exact .outputFailed hwants
      · exact .unfit houtput

/-- A call that is admitted is answered, and keeps a table as it should be. -/
theorem call_answers (h : k.Table config t) (hrecorded : t.Recorded)
    (hbuild : check k.build types config.keyColumns = .ok ())
    (hprobe : check k.probe probeTypes config.keyColumns = .ok ()) {call : TableCall}
    (hcall : Admits types probeTypes call) : (t.call call).Gives fun (t', answer) ↦
      (k.Table config t' ∧ t'.Recorded) ∧ Answers config call answer := by
  cases call with
  | put input row =>
    obtain ⟨key, hkey, -⟩ := exists_keyAt_of_hasRow hbuild hcall.1 hcall.2
    obtain ⟨t', result, hput, ht', hsettles⟩ := h.put_settles_of_keyAt hbuild hcall.1 hkey
    obtain ⟨hash, -, hputting⟩ := (h.sound.put input row).of_eq_ok hput
    refine ⟨(t', .put result), ?_, ⟨ht', hrecorded.put hputting⟩, hsettles.answers⟩
    rw [KeyTable.call, hput]
    rfl
  | lookUp input row =>
    obtain ⟨key, hkey, -⟩ := exists_keyAt_of_hasRow hbuild hcall.1 hcall.2
    obtain ⟨found, hfound, -⟩ := h.exists_index? hkey
    refine ⟨(t, .found found), ?_, ⟨h, hrecorded⟩, .lookUp⟩
    rw [KeyTable.call, hfound]
    rfl
  | probe probe row =>
    obtain ⟨key, hkey, -⟩ := exists_keyAt_of_hasRow hprobe hcall.1 hcall.2
    obtain ⟨found, hfound, -⟩ := h.exists_probeIndex? hkey
    refine ⟨(t, .found found), ?_, ⟨h, hrecorded⟩, .probe⟩
    rw [KeyTable.call, hfound]
    rfl
  | outputAll output =>
    obtain ⟨count, output', result, houtput, ht', hanswers⟩ := h.outputAll_answers hcall
    refine ⟨(t.wrote count, .written output' result), ?_, ⟨ht', hrecorded⟩, hanswers⟩
    rw [KeyTable.call, houtput]
    rfl
  | resetOutput => exact ⟨_, rfl, ⟨h.resetOutput, hrecorded⟩, .reset⟩
  | clear => exact ⟨_, rfl, ⟨h.clear, KeyTable.recorded_fresh _ _ _⟩, .cleared⟩

/-- Calls that are admitted are answered, and keep a table as it should be. -/
theorem run_answers (h : k.Table config t) (hrecorded : t.Recorded)
    (hbuild : check k.build types config.keyColumns = .ok ())
    (hprobe : check k.probe probeTypes config.keyColumns = .ok ()) {calls : List TableCall}
    (hcalls : ∀ call ∈ calls, Admits types probeTypes call) :
    (t.run calls).Gives fun (t', answers) ↦
      (k.Table config t' ∧ t'.Recorded) ∧ List.Forall₂ (Answers config) calls answers := by
  induction calls generalizing t with
  | nil => exact ⟨_, rfl, ⟨h, hrecorded⟩, .nil⟩
  | cons call calls ih =>
    have hhere := h.call_answers hrecorded hbuild hprobe (hcalls call List.mem_cons_self)
    refine hhere.bind fun (t', answer) _ ⟨⟨ht', hrecorded'⟩, hanswer⟩ ↦ ?_
    refine (ih ht' hrecorded' fun call hcall ↦ hcalls call (List.mem_cons_of_mem _ hcall)).bind ?_
    exact fun (t'', answers) _ ⟨ht'', hanswers⟩ ↦ ⟨_, rfl, ht'', .cons hanswer hanswers⟩

end Table

/-- The published rows of well-formed blocks are admitted. -/
theorem ReadsRow.admits {call : TableCall} (h : ReadsRow types probeTypes call) :
    Admits types probeTypes call := by
  cases call with
  | put | lookUp | probe => exact ⟨h.1.types_eq, h.1.hasRow h.2⟩
  | outputAll | resetOutput | clear => exact h.elim

/-- Whatever rows of the checked types are put and looked up, and whatever outputs the keys are
written to, a table is created and no call is abandoned. Every position in the table is then in
range, and stays so while the next key is put; and calls are refused for want of indexes or bytes
alone. -/
theorem inRange_of_run (hconfig : config.fault? = none)
    (hbuild : check k.build types config.keyColumns = .ok ())
    (hprobe : check k.probe probeTypes config.keyColumns = .ok ()) {calls : List TableCall}
    (hcalls : ∀ call ∈ calls, Admits types probeTypes call) : ∃ t₀ t answers,
      KeyTable.create config k.ops = .ok t₀ ∧ t₀.run calls = .ok (t, answers) ∧
        t.config = config ∧ t.InRange ∧
        (∀ t' index, t.allocate = .ok (t', index) →
          t'.InRange ∧ t'.grow.Gives KeyTable.InRange) ∧
        List.Forall₂ (Answers config) calls answers := by
  have hfresh := table_fresh (TableConfig.sane_of_fault?_eq_none hconfig) k {}
  obtain ⟨⟨t, answers⟩, hrun, ⟨ht, hrecorded⟩, hanswers⟩ :=
    hfresh.run_answers (KeyTable.recorded_fresh config k.ops {}) hbuild hprobe hcalls
  have hcursor := ht.tracking.outputCursor_le
  exact ⟨_, t, answers, KeyTable.create_eq_ok hconfig k.ops, hrun, ht.config_eq,
    ht.sound.inRange hcursor ht.keyed hrecorded,
    fun _ _ ↦ ht.sound.allocate_inRange hcursor ht.keyed hrecorded, hanswers⟩

/-- Keys in three segments, of which an output takes the first four. -/
theorem inRange_of_run_probed : ∃ t answers,
    (KeyTable.fresh KeyTable.cramped joining.ops {}).run
        (joinedCalls ++ [.outputAll (.ofTypes [.integer] 4), .resetOutput]) = .ok (t, answers) ∧
      t.InRange ∧ t.freeIndex = 5 ∧ t.segments.size = 3 := by
  obtain ⟨t, answers, hrun, hfreeIndex, hsegments⟩ : ∃ t answers,
      (KeyTable.fresh KeyTable.cramped joining.ops {}).run
        (joinedCalls ++ [.outputAll (.ofTypes [.integer] 4), .resetOutput]) = .ok (t, answers) ∧
          t.freeIndex = 5 ∧ t.segments.size = 3 :=
    ⟨_, _, rfl, rfl, rfl⟩
  have hbuild : check joining.build [.integer] KeyTable.cramped.keyColumns = .ok () := rfl
  have hprobe : check joining.probe [.varchar, .integer] KeyTable.cramped.keyColumns = .ok () := rfl
  have hcalls : ∀ call ∈ joinedCalls ++ [.outputAll (.ofTypes [.integer] 4), .resetOutput],
      Admits [.integer] [.varchar, .integer] call := by
    intro call hcall
    rcases List.mem_append.1 hcall with hcall | hcall
    · exact (readsRow_joinedCalls call hcall).admits
    · rcases List.mem_pair.1 hcall with rfl | rfl
      · exact Block.aligned_ofTypes [.integer] 4
      · trivial
  obtain ⟨t₀, u, answers', hcreate, hrun', -, hrange, -⟩ :=
    inRange_of_run KeyTable.fault?_cramped hbuild hprobe hcalls
  obtain rfl := KeyTable.eq_fresh_of_create_eq_ok hcreate
  obtain ⟨rfl, rfl⟩ := Prod.mk.inj (Except.ok.inj (hrun.symm.trans hrun'))
  exact ⟨t, answers, hrun, hrange, hfreeIndex, hsegments⟩

end ColumnKeys

end Columnar
