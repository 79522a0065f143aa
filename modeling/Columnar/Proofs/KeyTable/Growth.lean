import Columnar.Proofs.KeyTable.Reachable

/-!
# How a key table grows

The buckets of a table are those it started with, doubled once for every resize since it was created
or cleared, and never more than the configuration allows. Three numbers decide this, the `Growth` of
a table: how many buckets there are, when it tries to double them, and how often it did.

## Calls that change the numbers

Linking slots and storing keys leave them alone (`Rewired`), so that a call changes them just if it
puts a new key at the threshold, or clears the table (`Sound.growth_of_call`). `MeetsThreshold`
describes that call from the outside: a put of a row that is not found, with an index left for it.
**Whether the key can be stored does not matter**: the buckets are doubled before that is tried.

## Schedule and ceiling

A run keeps the numbers on schedule (`Scheduled.run`), from one clearing of the table to the next;
the resizes of earlier times are counted on, since clearing leaves the metrics. At the largest
number of buckets the threshold becomes one that no table meets, by `Sound.not_meetsThreshold`:
there are fewer indexes than that. So such a table leaves its buckets alone until it is cleared
(`growth_of_run_never`).

The powers of two are arithmetic on `ceilPowerOfTwo`, and doubling does not pass the ceiling because
that is a power of two as well (`two_mul_le_of_lt`).
-/

namespace Columnar

namespace TableConfig

theorem isPowerOfTwo_iff {n : Nat} : isPowerOfTwo n = true ↔ ∃ k, n = 2 ^ k := by
  refine ⟨fun h ↦ ⟨_, eq_two_pow_of_isPowerOfTwo h⟩, ?_⟩
  rintro ⟨k, rfl⟩
  rw [isPowerOfTwo, Nat.one_shiftLeft, Nat.log2_two_pow]
  exact beq_self_eq_true _

theorem isPowerOfTwo_ceilPowerOfTwo (n : Nat) : isPowerOfTwo (ceilPowerOfTwo n) = true := by
  rw [isPowerOfTwo_iff, ceilPowerOfTwo]
  split_ifs
  · exact ⟨0, rfl⟩
  · exact ⟨_, Nat.one_shiftLeft _⟩

/-- Doubling a power of two does not pass a larger one. -/
theorem two_mul_le_of_lt {m n : Nat} (hm : isPowerOfTwo m = true) (hn : isPowerOfTwo n = true)
    (h : m < n) : 2 * m ≤ n := by
  obtain ⟨a, rfl⟩ := isPowerOfTwo_iff.1 hm
  obtain ⟨b, rfl⟩ := isPowerOfTwo_iff.1 hn
  have hlt : a < b := (Nat.pow_lt_pow_iff_right Nat.one_lt_two).1 h
  calc 2 * 2 ^ a = 2 ^ (a + 1) := by rw [Nat.pow_succ, Nat.mul_comm]
    _ ≤ 2 ^ b := Nat.pow_le_pow_right Nat.two_pos hlt

variable {config : TableConfig}

theorem Sane.isPowerOfTwo_initialBuckets (h : config.Sane) :
    isPowerOfTwo config.initialBuckets = true := by
  rw [initialBuckets]
  rcases Nat.le_total (ceilPowerOfTwo config.initialCapacity) config.maxCapacity with hle | hle
  · rw [Nat.min_eq_left hle]
    exact isPowerOfTwo_ceilPowerOfTwo _
  · rw [Nat.min_eq_right hle]
    exact h.maxCapacity

/-- Doubling the buckets any number of times leaves a power of two. -/
theorem Sane.isPowerOfTwo_doubled (h : config.Sane) (doublings : Nat) :
    isPowerOfTwo (config.initialBuckets * 2 ^ doublings) = true := by
  obtain ⟨k, hk⟩ := isPowerOfTwo_iff.1 h.isPowerOfTwo_initialBuckets
  exact isPowerOfTwo_iff.2 ⟨k + doublings, by rw [hk, Nat.pow_add]⟩

end TableConfig

namespace KeyTable

variable {ε : Type} {t t' : KeyTable ε} {config : TableConfig} {ops : KeyOps ε}

/-- How many buckets a table has, when it tries to double them, and how often it did. -/
structure Growth where
  buckets : Nat
  threshold : Nat
  resizes : Nat

/-- The growth of a table so far. -/
def growth (t : KeyTable ε) : Growth := ⟨t.buckets.size, t.threshold, t.metrics.resizes⟩

/-- Double the buckets, or never try again at the largest number of them. -/
def Growth.grow (config : TableConfig) (g : Growth) : Growth :=
  if config.maxCapacity ≤ g.buckets then { g with threshold := TableConfig.never }
  else ⟨2 * g.buckets, config.threshold (2 * g.buckets), g.resizes + 1⟩

theorem Growth.grow_of_le {g : Growth} (h : config.maxCapacity ≤ g.buckets) :
    g.grow config = ⟨g.buckets, TableConfig.never, g.resizes⟩ :=
  if_pos h

theorem Growth.grow_of_lt {g : Growth} (h : g.buckets < config.maxCapacity) :
    g.grow config = ⟨2 * g.buckets, config.threshold (2 * g.buckets), g.resizes + 1⟩ :=
  if_neg (Nat.not_le_of_lt h)

/-- A call that puts a new key, and is handed an index for it, when it is time to double the
buckets. -/
def MeetsThreshold (t : KeyTable ε) : TableCall → Prop
  | .put input row => t.index? input row = .ok none ∧ (∃ slot, t.allocate = .ok slot) ∧
    t.threshold ≤ t.entries
  | _ => False

/-! ### Links and keys -/

/-- A table with other links and keys in its slots, and as many buckets. -/
structure Rewired (t t' : KeyTable ε) : Prop where
  eq : t' = { t with buckets := t'.buckets, segments := t'.segments }
  size_buckets : t'.buckets.size = t.buckets.size

namespace Rewired

theorem refl (t : KeyTable ε) : t.Rewired t := ⟨rfl, rfl⟩

theorem trans {t'' : KeyTable ε} (h : t.Rewired t') (h' : t'.Rewired t'') : t.Rewired t'' :=
  ⟨by rw [h'.eq, h.eq], h'.size_buckets.trans h.size_buckets⟩

theorem growth_eq (h : t.Rewired t') : t'.growth = t.growth := by
  rw [growth, h.size_buckets, h.eq]
  rfl

theorem of_changeSegment {α : Type} {index : Nat} {change : Nat → Segment → Checked (Segment × α)}
    {result : α} (h : t.changeSegment index change = .ok (t', result)) : t.Rewired t' := by
  rw [changeSegment] at h
  obtain ⟨⟨segments, _⟩, -, h⟩ := exists_of_bind_eq_ok h
  obtain ⟨rfl, -⟩ := Prod.mk.inj (Except.ok.inj h)
  exact ⟨rfl, rfl⟩

theorem of_setLink {index : Nat} {link : Link} (h : t.setLink index link = .ok t') :
    t.Rewired t' := by
  rw [setLink] at h
  obtain ⟨⟨u, ⟨⟩⟩, hu, h⟩ := exists_of_bind_eq_ok h
  obtain rfl := Except.ok.inj h
  exact of_changeSegment hu

/-- Changing one bucket leaves as many of them. -/
theorem setBucket (t : KeyTable ε) (bucket : Nat) (link : Link) :
    t.Rewired { t with buckets := t.buckets.setIfInBounds bucket link } :=
  ⟨rfl, Array.size_setIfInBounds⟩

theorem of_linkBehind {tail? : Option Nat} {bucket index : Nat}
    (h : t.linkBehind tail? bucket index = .ok t') : t.Rewired t' := by
  cases tail? with
  | none =>
    obtain rfl := Except.ok.inj h
    exact setBucket t _ _
  | some tail => exact of_setLink h

theorem of_relinkFrom {slots : List (Nat × UInt32)} {tails : Array (Option Nat)}
    (h : relinkFrom slots tails t = .ok t') : t.Rewired t' := by
  induction slots generalizing t tails with
  | nil =>
    obtain rfl := Except.ok.inj h
    exact refl t
  | cons slot slots ih =>
    rw [relinkFrom] at h
    obtain ⟨u, hu, h⟩ := exists_of_bind_eq_ok h
    obtain ⟨tail?, -, h⟩ := exists_of_bind_eq_ok h
    obtain ⟨v, hv, h⟩ := exists_of_bind_eq_ok h
    exact (of_setLink hu).trans ((of_linkBehind hv).trans (ih h))

end Rewired

/-! ### One call -/

/-- Storing a key does not change the number of buckets, whether it succeeds or not. -/
theorem growth_of_insert {index : Nat} {hash : UInt32} {tail? : Option Nat} {input : Block}
    {row : Nat} {result : Except (TableError ε) PutStatus}
    (h : t.insert index hash tail? input row = .ok (t', result)) : t'.growth = t.growth := by
  rw [insert] at h
  obtain ⟨⟨u, stored⟩, hu, h⟩ := exists_of_bind_eq_ok h
  have hstored := Rewired.of_changeSegment hu
  rcases stored with cause | ⟨⟩
  · obtain ⟨rfl, -⟩ := Prod.mk.inj (Except.ok.inj h)
    exact hstored.growth_eq
  · obtain ⟨v, hv, h⟩ := exists_of_bind_eq_ok h
    obtain ⟨rfl, -⟩ := Prod.mk.inj (Except.ok.inj h)
    have hlinked := Rewired.of_linkBehind hv
    exact (hstored.trans hlinked).growth_eq

theorem growth_of_grow (h : t.grow = .ok t') : t'.growth = t.growth.grow t.config := by
  rw [grow] at h
  rcases Nat.lt_or_ge t.buckets.size t.config.maxCapacity with hlt | hge
  · rw [Growth.grow_of_lt (g := t.growth) hlt]
    rw [if_neg (Nat.not_le_of_lt hlt)] at h
    rw [(Rewired.of_relinkFrom h).growth_eq, growth, Array.size_replicate]
    rfl
  · rw [Growth.grow_of_le (g := t.growth) hge]
    rw [if_pos hge] at h
    obtain rfl := Except.ok.inj h
    rfl

/-- The buckets are doubled at the threshold, if at all. -/
theorem growth_of_growIfFull {hash : UInt32} {tail? tail?' : Option Nat}
    (h : t.growIfFull hash tail? = .ok (t', tail?')) :
    t'.growth = if t.threshold ≤ t.entries then t.growth.grow t.config else t.growth := by
  rw [growIfFull] at h
  split_ifs at h ⊢
  · obtain ⟨u, hu, h⟩ := exists_of_bind_eq_ok h
    obtain ⟨slots, -, h⟩ := exists_of_bind_eq_ok h
    obtain ⟨rfl, -⟩ := Prod.mk.inj (Except.ok.inj h)
    exact growth_of_grow hu
  · obtain ⟨rfl, -⟩ := Prod.mk.inj (Except.ok.inj h)
    rfl

/-- Storing a new key tries to double the buckets just if there is an index for it at the
threshold. -/
theorem growth_of_putNew {hash : UInt32} {tail? : Option Nat} {input : Block} {row : Nat}
    {result : Except (TableError ε) PutStatus}
    (h : t.putNew hash tail? input row = .ok (t', result)) :
    ((∃ slot, t.allocate = .ok slot) ∧ t.threshold ≤ t.entries →
      t'.growth = t.growth.grow t.config) ∧
    (¬((∃ slot, t.allocate = .ok slot) ∧ t.threshold ≤ t.entries) → t'.growth = t.growth) := by
  rcases Nat.lt_or_ge IndexLayout.maxIndex t.freeIndex with hlt | hle
  · rw [putNew_of_exhausted hlt] at h
    obtain ⟨rfl, -⟩ := Prod.mk.inj (Except.ok.inj h)
    refine ⟨fun ⟨⟨slot, hslot⟩, _⟩ ↦ ?_, fun _ ↦ rfl⟩
    rw [allocate, if_neg (Nat.not_le_of_lt hlt)] at hslot
    cases hslot
  · have hallocate := allocate_eq hle
    rw [putNew, hallocate] at h
    obtain ⟨⟨u, tail?'⟩, hu, h⟩ := exists_of_bind_eq_ok h
    have hgrowth : t'.growth =
        if t.threshold ≤ t.entries then t.growth.grow t.config else t.growth :=
      (growth_of_insert h).trans (growth_of_growIfFull (t := t.extended) hu)
    refine ⟨fun hmeets ↦ hgrowth.trans (if_pos hmeets.2), fun hnot ↦ hgrowth.trans (if_neg ?_)⟩
    exact fun hfull ↦ hnot ⟨⟨_, hallocate⟩, hfull⟩

/-- Counting a put does not use up an index. -/
theorem exists_allocate_counted {visited : Nat} :
    (∃ slot, (t.counted visited).allocate = .ok slot) ↔ ∃ slot, t.allocate = .ok slot := by
  rw [allocate, allocate, show (t.counted visited).freeIndex = t.freeIndex from rfl]
  split_ifs <;> simp

/-- What a put looks up is what a lookup of the row finds. -/
theorem index?_of_find {input : Block} {row visited : Nat} {hash : UInt32} {found : Option Nat}
    (hhash : t.ops.hash input row = .ok hash)
    (hfind : t.find hash (t.ops.agrees input row) = .ok (found, visited)) :
    t.index? input row = .ok found := by
  rw [index?, hhash, Checked.ok_bind, hfind, Checked.ok_bind]
  rfl

/-- A call tries to double the buckets just if it puts a new key at the threshold; but for this and
for clearing the table, it leaves them alone. -/
theorem Sound.growth_of_call (hsound : t.Sound) {call : TableCall} {answer : TableAnswer ε}
    (hclear : call ≠ .clear) (h : t.call call = .ok (t', answer)) :
    (t.MeetsThreshold call → t'.growth = t.growth.grow t.config) ∧
      (¬t.MeetsThreshold call → t'.growth = t.growth) := by
  cases call with
  | put input row =>
    obtain ⟨⟨u, result⟩, hput, h⟩ := exists_of_bind_eq_ok h
    obtain ⟨rfl, -⟩ := Prod.mk.inj (Except.ok.inj h)
    rw [hsound.put_eq] at hput
    obtain ⟨hash, hhash, hput⟩ := exists_of_bind_eq_ok hput
    obtain ⟨⟨found, visited⟩, hfind, hput⟩ := exists_of_bind_eq_ok hput
    have hfound := index?_of_find hhash hfind
    rcases found with _ | index
    · obtain ⟨hgrow, hkeep⟩ := growth_of_putNew hput
      rw [exists_allocate_counted] at hgrow hkeep
      exact ⟨fun hmeets ↦ hgrow hmeets.2, fun hnot ↦ hkeep fun hmeets ↦ hnot ⟨hfound, hmeets⟩⟩
    · obtain ⟨rfl, -⟩ := Prod.mk.inj (Except.ok.inj hput)
      refine ⟨fun hmeets ↦ ?_, fun _ ↦ rfl⟩
      cases hfound.symm.trans hmeets.1
  | lookUp input row =>
    obtain ⟨found, -, h⟩ := exists_of_bind_eq_ok h
    obtain ⟨rfl, -⟩ := Prod.mk.inj (Except.ok.inj h)
    exact ⟨False.elim, fun _ ↦ rfl⟩
  | probe probe row =>
    obtain ⟨found, -, h⟩ := exists_of_bind_eq_ok h
    obtain ⟨rfl, -⟩ := Prod.mk.inj (Except.ok.inj h)
    exact ⟨False.elim, fun _ ↦ rfl⟩
  | outputAll output =>
    obtain ⟨⟨u, output', result⟩, hwritten, h⟩ := exists_of_bind_eq_ok h
    obtain ⟨rfl, -⟩ := Prod.mk.inj (Except.ok.inj h)
    have hoverwritten := hsound.outputNext (t.freeIndex - t.outputCursor) output output.length
      fun i hi ↦ by omega
    refine ⟨False.elim, fun _ ↦ ?_⟩
    rw [hoverwritten.of_eq_ok hwritten]
    rfl
  | resetOutput =>
    obtain ⟨rfl, -⟩ := Prod.mk.inj (Except.ok.inj h)
    exact ⟨False.elim, fun _ ↦ rfl⟩
  | clear => exact absurd rfl hclear

theorem growth_clear (t : KeyTable ε) : t.clear.growth =
    ⟨t.config.initialBuckets, t.config.threshold t.config.initialBuckets, t.metrics.resizes⟩ := by
  rw [growth, clear_eq, fresh, Array.size_replicate]

/-! ### The schedule -/

/-- The schedule that the growth of a table keeps to, if its buckets had been doubled `earlier`
times when it was created or cleared. -/
structure Scheduled (config : TableConfig) (earlier : Nat) (g : Growth) : Prop where
  earlier_le : earlier ≤ g.resizes
  buckets_eq : g.buckets = config.initialBuckets * 2 ^ (g.resizes - earlier)
  buckets_le : g.buckets ≤ config.maxCapacity
  threshold_eq : g.threshold = config.threshold g.buckets ∨
    g.threshold = TableConfig.never ∧ g.buckets = config.maxCapacity

theorem scheduled_fresh (config : TableConfig) (ops : KeyOps ε) (metrics : TableMetrics) :
    Scheduled config metrics.resizes (fresh config ops metrics).growth := by
  have hgrowth : (fresh config ops metrics).growth =
      ⟨config.initialBuckets, config.threshold config.initialBuckets, metrics.resizes⟩ := by
    rw [growth, fresh, Array.size_replicate]
  rw [hgrowth]
  refine ⟨Nat.le_refl _, ?_, Nat.min_le_right _ _, .inl rfl⟩
  show config.initialBuckets = config.initialBuckets * 2 ^ (metrics.resizes - metrics.resizes)
  rw [Nat.sub_self, Nat.pow_zero, Nat.mul_one]

variable {earlier spent : Nat} {g : Growth}

theorem Scheduled.isPowerOfTwo (h : Scheduled config earlier g) (hsane : config.Sane) :
    TableConfig.isPowerOfTwo g.buckets = true :=
  h.buckets_eq ▸ hsane.isPowerOfTwo_doubled _

/-- Trying to double the buckets keeps to the schedule. -/
theorem Scheduled.grow (h : Scheduled config earlier g) (hsane : config.Sane) :
    Scheduled config earlier (g.grow config) := by
  rcases Nat.lt_or_ge g.buckets config.maxCapacity with hlt | hge
  · rw [Growth.grow_of_lt hlt]
    refine ⟨Nat.le_succ_of_le h.earlier_le, ?_, ?_, .inl rfl⟩
    · show 2 * g.buckets = config.initialBuckets * 2 ^ (g.resizes + 1 - earlier)
      rw [Nat.sub_add_comm h.earlier_le, Nat.pow_succ, ← Nat.mul_assoc, ← h.buckets_eq,
        Nat.mul_comm]
    · exact TableConfig.two_mul_le_of_lt (h.isPowerOfTwo hsane) hsane.maxCapacity hlt
  · rw [Growth.grow_of_le hge]
    exact ⟨h.earlier_le, h.buckets_eq, h.buckets_le,
      .inr ⟨rfl, Nat.le_antisymm h.buckets_le hge⟩⟩

/-- A call that does not clear the table keeps to the schedule. -/
theorem Scheduled.call (h : Scheduled config earlier t.growth) (hkept : Kept config ops spent t)
    {call : TableCall} {answer : TableAnswer ε} (hclear : call ≠ .clear)
    (hcall : t.call call = .ok (t', answer)) : Scheduled config earlier t'.growth := by
  obtain ⟨hgrow, hkeep⟩ := hkept.toSound.growth_of_call hclear hcall
  by_cases hmeets : t.MeetsThreshold call
  · rw [hgrow hmeets, hkept.config_eq]
    exact h.grow (hkept.config_eq ▸ hkept.sane)
  · rw [hkeep hmeets]
    exact h

/-- A run in which the table is not cleared keeps to the schedule. -/
theorem Scheduled.run (h : Scheduled config earlier t.growth) (hkept : Kept config ops spent t)
    {calls : List TableCall} {answers : List (TableAnswer ε)} (hclear : .clear ∉ calls)
    (hrun : t.run calls = .ok (t', answers)) : Scheduled config earlier t'.growth := by
  induction calls generalizing t spent answers with
  | nil =>
    obtain ⟨rfl, -⟩ := Prod.mk.inj (Except.ok.inj hrun)
    exact h
  | cons call calls ih =>
    obtain ⟨⟨u, answer⟩, hcall, hrun⟩ := exists_of_bind_eq_ok hrun
    obtain ⟨⟨v, answers'⟩, hrest, hrun⟩ := exists_of_bind_eq_ok hrun
    obtain ⟨rfl, -⟩ := Prod.mk.inj (Except.ok.inj hrun)
    rw [List.mem_cons, not_or] at hclear
    exact ih (h.call hkept (Ne.symm hclear.1) hcall) ((hkept.call call).of_eq_ok hcall) hclear.2
      hrest

/-! ### A table that is done growing -/

/-- No table has so many entries that it would meet the threshold that says never. -/
theorem Sound.not_meetsThreshold (h : t.Sound) (hnever : t.threshold = TableConfig.never)
    (call : TableCall) : ¬t.MeetsThreshold call := by
  have hentries : t.entries ≤ t.freeIndex := by
    rw [h.entries_eq]
    exact Nat.le_trans List.countP_le_length (Nat.le_of_eq List.length_range)
  have hle := h.freeIndex_le
  intro hmeets
  rcases call with ⟨input, row⟩ | _
  · have hfull : t.threshold ≤ t.entries := hmeets.2.2
    rw [hnever] at hfull
    simp only [TableConfig.never, IndexLayout.maxIndex, IndexLayout.wordSize, UInt32.size,
      UInt64.size] at hfull hle
    omega
  all_goals exact hmeets

/-- A table that never tries again to double its buckets leaves them alone until it is cleared. -/
theorem growth_of_run_never (hnever : t.threshold = TableConfig.never)
    (hkept : Kept config ops spent t) {calls : List TableCall} {answers : List (TableAnswer ε)}
    (hclear : .clear ∉ calls) (hrun : t.run calls = .ok (t', answers)) :
    t'.growth = t.growth ∧ ∀ call, ¬t'.MeetsThreshold call := by
  induction calls generalizing t spent answers with
  | nil =>
    obtain ⟨rfl, -⟩ := Prod.mk.inj (Except.ok.inj hrun)
    exact ⟨rfl, hkept.toSound.not_meetsThreshold hnever⟩
  | cons call calls ih =>
    obtain ⟨⟨u, answer⟩, hcall, hrun⟩ := exists_of_bind_eq_ok hrun
    obtain ⟨⟨v, answers'⟩, hrest, hrun⟩ := exists_of_bind_eq_ok hrun
    obtain ⟨rfl, -⟩ := Prod.mk.inj (Except.ok.inj hrun)
    rw [List.mem_cons, not_or] at hclear
    have hsame : u.growth = t.growth :=
      (hkept.toSound.growth_of_call (Ne.symm hclear.1) hcall).2
        (hkept.toSound.not_meetsThreshold hnever call)
    have hnever' : u.threshold = TableConfig.never :=
      (congrArg Growth.threshold hsame).trans hnever
    obtain ⟨heq, hmeets⟩ := ih hnever' ((hkept.call call).of_eq_ok hcall) hclear.2 hrest
    exact ⟨heq.trans hsame, hmeets⟩

/-! ### After any history -/

/-- A run that ends with clearing the table leaves a cleared table. -/
theorem exists_of_run_clear {earlier : List TableCall} {answers : List (TableAnswer ε)}
    (h : t.run (earlier ++ [.clear]) = .ok (t', answers)) : ∃ u : KeyTable ε, t' = u.clear := by
  induction earlier generalizing t answers with
  | nil =>
    obtain ⟨rfl, -⟩ := Prod.mk.inj (Except.ok.inj h)
    exact ⟨t, rfl⟩
  | cons call earlier ih =>
    obtain ⟨⟨u, answer⟩, -, h⟩ := exists_of_bind_eq_ok h
    obtain ⟨⟨v, answers'⟩, hrest, h⟩ := exists_of_bind_eq_ok h
    obtain ⟨rfl, -⟩ := Prod.mk.inj (Except.ok.inj h)
    exact ih hrest

/-- What a call makes of the buckets of a table. -/
structure Regrown (t : KeyTable ε) (call : TableCall) (t' : KeyTable ε) : Prop where
  /-- Clearing restores the buckets that the table started with. -/
  clear : call = .clear → t'.growth =
    ⟨t.config.initialBuckets, t.config.threshold t.config.initialBuckets, t.metrics.resizes⟩
  /-- Any other call changes their number just if it meets the threshold below the ceiling. -/
  changes_iff : call ≠ .clear → (t'.buckets.size ≠ t.buckets.size ↔
    t.MeetsThreshold call ∧ t.buckets.size < t.config.maxCapacity)
  /-- It then doubles them once. -/
  doubles : call ≠ .clear → t'.buckets.size ≠ t.buckets.size →
    t'.buckets.size = 2 * t.buckets.size ∧ t'.metrics.resizes = t.metrics.resizes + 1
  /-- Only that counts as a resize. -/
  rests : call ≠ .clear → t'.buckets.size = t.buckets.size →
    t'.metrics.resizes = t.metrics.resizes
  /-- Once the threshold was met at the ceiling, the buckets stay as they are and the threshold is
  not met again until the table is cleared. -/
  settles : t.MeetsThreshold call → t.buckets.size = t.config.maxCapacity →
    ∀ calls t'' answers, .clear ∉ calls → t'.run calls = .ok (t'', answers) →
      t''.growth = ⟨t.config.maxCapacity, TableConfig.never, t.metrics.resizes⟩ ∧
        ∀ call, ¬t''.MeetsThreshold call

/-- The buckets are doubled by the calls that meet the threshold below the ceiling. -/
theorem Kept.regrown (h : Kept config ops spent t) {call : TableCall} {answer : TableAnswer ε}
    (hcall : t.call call = .ok (t', answer)) : t.Regrown call t' := by
  by_cases hclear : call = .clear
  · subst hclear
    obtain ⟨rfl, -⟩ := Prod.mk.inj (Except.ok.inj hcall)
    exact ⟨fun _ ↦ growth_clear t, absurd rfl, absurd rfl, absurd rfl, False.elim⟩
  have hpos := h.buckets_pos
  obtain ⟨hgrow, hkeep⟩ := h.toSound.growth_of_call hclear hcall
  by_cases hmeets : t.MeetsThreshold call
  · rcases Nat.lt_or_ge t.buckets.size t.config.maxCapacity with hlt | hge
    · have hgrown := (hgrow hmeets).trans (Growth.grow_of_lt hlt)
      have hsize : t'.buckets.size = 2 * t.buckets.size := congrArg Growth.buckets hgrown
      have hresizes : t'.metrics.resizes = t.metrics.resizes + 1 :=
        congrArg Growth.resizes hgrown
      have hne : t'.buckets.size ≠ t.buckets.size := by omega
      exact ⟨(absurd · hclear), fun _ ↦ iff_of_true hne ⟨hmeets, hlt⟩,
        fun _ _ ↦ ⟨hsize, hresizes⟩, fun _ heq ↦ absurd heq hne,
        fun _ heq ↦ absurd heq (Nat.ne_of_lt hlt)⟩
    · have hgrown := (hgrow hmeets).trans (Growth.grow_of_le hge)
      have hsize : t'.buckets.size = t.buckets.size := congrArg Growth.buckets hgrown
      refine ⟨(absurd · hclear), fun _ ↦ iff_of_false (absurd hsize ·) fun hlt ↦ ?_,
        fun _ hne ↦ absurd hsize hne, fun _ _ ↦ congrArg Growth.resizes hgrown, ?_⟩
      · exact Nat.not_lt_of_ge hge hlt.2
      · intro _ hceiling calls t'' answers hcalls hrun
        have hnever : t'.threshold = TableConfig.never := congrArg Growth.threshold hgrown
        obtain ⟨hsame, hnot⟩ :=
          growth_of_run_never hnever ((h.call call).of_eq_ok hcall) hcalls hrun
        refine ⟨?_, hnot⟩
        rw [hsame, hgrown, ← hceiling]
        rfl
  · have hkept := hkeep hmeets
    have hsize : t'.buckets.size = t.buckets.size := congrArg Growth.buckets hkept
    exact ⟨(absurd · hclear), fun _ ↦ iff_of_false (absurd hsize ·) fun hlt ↦ hmeets hlt.1,
      fun _ hne ↦ absurd hsize hne, fun _ _ ↦ congrArg Growth.resizes hkept,
      fun hmeets' ↦ absurd hmeets' hmeets⟩

/-- After any history the buckets of a table are those it started with, doubled once for every
resize since it was created or cleared last, which is a power of two up to the configured ceiling;
and the threshold is that of the buckets, or says never at the ceiling. Only clearing the table, and
putting a new key at the threshold below the ceiling, changes the number of buckets: the one
restores it, the other doubles it, even if the key can not be stored. -/
theorem growth_of_run {t₀ t₁ : KeyTable ε} (hcreate : create config ops = .ok t₀)
    {before after : List TableCall} {answers answers' : List (TableAnswer ε)}
    (hbefore : t₀.run before = .ok (t₁, answers))
    (hstart : before = [] ∨ ∃ earlier, before = earlier ++ [.clear])
    (hafter : t₁.run after = .ok (t, answers')) (hclear : .clear ∉ after) :
    t.config = config ∧ Scheduled config t₁.metrics.resizes t.growth ∧
      (∃ exponent, t.buckets.size = 2 ^ exponent) ∧
      ∀ call, (t.call call).Sat (t.Raises · call) fun (t', _) ↦ t.Regrown call t' := by
  have hkept₁ := ((kept_of_create_eq_ok hcreate).run before).of_eq_ok hbefore
  have hkept := (hkept₁.run after).of_eq_ok hafter
  have hstarted : ∃ metrics, t₁ = fresh config ops metrics := by
    rcases hstart with rfl | ⟨earlier, rfl⟩
    · obtain ⟨rfl, -⟩ := Prod.mk.inj (Except.ok.inj hbefore)
      exact ⟨_, eq_fresh_of_create_eq_ok hcreate⟩
    · obtain ⟨u, rfl⟩ := exists_of_run_clear hbefore
      exact ⟨u.metrics, by rw [← hkept₁.config_eq, ← hkept₁.ops_eq]; rfl⟩
  obtain ⟨metrics, rfl⟩ := hstarted
  have hscheduled := (scheduled_fresh config ops metrics).run hkept₁ hclear hafter
  refine ⟨hkept.config_eq, hscheduled, ?_, fun call ↦ ?_⟩
  · exact TableConfig.isPowerOfTwo_iff.1 (hscheduled.isPowerOfTwo (hkept.config_eq ▸ hkept.sane))
  · cases hcall : t.call call with
    | ok result => exact hkept.regrown hcall
    | error trap => exact (hcall ▸ hkept.call call : Checked.Sat (.error trap) _ _)

/-- In the cramped table the put that fails doubles the buckets, and the last put meets the
threshold at the ceiling; so it does after the table was cleared. -/
theorem growth_of_run_colliding : ∃ t₁ t answers answers',
    (fresh cramped colliding {}).run (crampedCalls ++ [.clear]) = .ok (t₁, answers) ∧
      t₁.run crampedCalls = .ok (t, answers') ∧
      t₁.growth = ⟨1, 1, 1⟩ ∧ t.growth = ⟨2, TableConfig.never, 2⟩ ∧
      Scheduled cramped 1 t.growth := by
  obtain ⟨t₁, t, answers, answers', hbefore, hafter, hgrowth₁, hgrowth⟩ :
      ∃ t₁ t answers answers',
        (fresh cramped colliding {}).run (crampedCalls ++ [.clear]) = .ok (t₁, answers) ∧
          t₁.run crampedCalls = .ok (t, answers') ∧
          t₁.growth = ⟨1, 1, 1⟩ ∧ t.growth = ⟨2, TableConfig.never, 2⟩ :=
    ⟨_, _, _, _, rfl, rfl, rfl, rfl⟩
  have hclear : TableCall.clear ∉ crampedCalls := by simp [crampedCalls]
  obtain ⟨-, hscheduled, -⟩ := growth_of_run (create_eq_ok fault?_cramped colliding) hbefore
    (.inr ⟨crampedCalls, rfl⟩) hafter hclear
  have hearlier : t₁.metrics.resizes = 1 := congrArg Growth.resizes hgrowth₁
  exact ⟨t₁, t, answers, answers', hbefore, hafter, hgrowth₁, hgrowth, hearlier ▸ hscheduled⟩

end KeyTable

end Columnar
