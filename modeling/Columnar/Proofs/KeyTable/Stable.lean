import Columnar.Proofs.KeyTable.Content
import Columnar.Proofs.KeyTable.Reachable

/-!
# Indexes stay

A slot that was handed out is never written again: until a table is cleared, every call leads to a
table that has the same keys in these slots, and maybe more behind them (`KeyTable.Extends`,
`Table.of_run`). So once a put gave an index for a key, the slot keeps the key, and rows with this
key find it there, whatever else is done with the table (`stable_of_put`).

## Extension, and what is beyond it

`Extends` is reflexive and transitive, so one lemma for a call gives one for a run. What a put does
beyond extending the table is told by its answer (`Placed`): the key was in a slot before, is in the
next one now, or could not be stored. Growing adds nothing to these cases, because links do not
show.

## Found there, or never found

That a key is in a slot does not mean that it is found: a key with a missing value equals nothing,
itself included, if missing values are not to be equal. `Holds` has the proviso, and says as well
that no earlier slot has the key. The first slot that has a key stays the first
(`isLeast?_of_extends`), because **slots are only added behind those that were handed out**. For the
same reason no later put inserts at an index that was given before.
-/

namespace Columnar

/-- The index of the slot of the key that was put. -/
def PutStatus.index : PutStatus → Nat
  | inserted index => index
  | present index => index

namespace KeyTable

variable {ε : Type} {t t' t'' : KeyTable ε}

/-- A table with the slots of another one as they were, and maybe with more behind them. -/
structure Extends (t t' : KeyTable ε) : Prop where
  freeIndex_le : t.freeIndex ≤ t'.freeIndex
  hash?_eq : ∀ index < t.freeIndex, t'.hash? index = t.hash? index
  stored_eq : ∀ index < t.freeIndex, t.hash? index ≠ none → t'.stored index = t.stored index

namespace Extends

theorem refl (t : KeyTable ε) : t.Extends t := ⟨Nat.le_refl _, fun _ _ ↦ rfl, fun _ _ _ ↦ rfl⟩

theorem counted (t : KeyTable ε) (visited : Nat) : t.Extends (t.counted visited) :=
  ⟨Nat.le_refl _, fun _ _ ↦ rfl, fun _ _ _ ↦ rfl⟩

theorem trans (h : t.Extends t') (h' : t'.Extends t'') : t.Extends t'' where
  freeIndex_le := Nat.le_trans h.freeIndex_le h'.freeIndex_le
  hash?_eq index hindex := by
    rw [h'.hash?_eq index (Nat.lt_of_lt_of_le hindex h.freeIndex_le), h.hash?_eq index hindex]
  stored_eq index hindex hkey := by
    rw [h'.stored_eq index (Nat.lt_of_lt_of_le hindex h.freeIndex_le)
      ((h.hash?_eq index hindex).symm ▸ hkey), h.stored_eq index hindex hkey]

end Extends

/-- Using the next slot up leaves the others as they were. -/
theorem Used.extends {keys : Block} {hash : Option UInt32} (hused : t.Used keys hash t')
    (ht : t.Sound) (hrewritten : List.Forall₂
      (Column.RewrittenAt (t.layout.split t.freeIndex).offset) t.nextKeys.columns keys.columns) :
    t.Extends t' where
  freeIndex_le := hused.freeIndex_eq ▸ Nat.le_succ _
  hash?_eq index hindex := by rw [hused.hash?_eq, if_neg (Nat.ne_of_gt hindex)]
  stored_eq _ _ hkey := hused.stored_eq ht hrewritten hkey

end KeyTable

namespace ColumnKeys

variable {k : ColumnKeys} {config : TableConfig} {t t' t'' : KeyTable KeyError} {input : Block}
  {row : Nat} {key : Row} {types : List DataType}

theorem width_of_check {indexes : List Nat} (h : check indexes types config.keyColumns = .ok ()) :
    indexes.length = config.keyTypes.length :=
  (length_of_check h).trans (List.length_map _).symm

theorem length_key_of_check {indexes : List Nat}
    (h : check indexes types config.keyColumns = .ok ())
    (hkey : keyAt indexes input row = .ok key) :
    key.length = config.keyTypes.length :=
  (Checked.length_of_mapM_eq_ok hkey).trans (width_of_check h)

/-! ### One put -/

/-- What putting a key leads to, by its answer: the key was in a slot before, is in the next one
now, or could not be stored. -/
inductive Placed (k : ColumnKeys) (t : KeyTable KeyError) (key : Row) (t' : KeyTable KeyError) :
    Except (TableError KeyError) PutStatus → Prop
  | present {index : Nat} : IsLeast? (k.HasKey t key) (some index) → t'.slots = t.slots →
    t'.freeIndex = t.freeIndex → Placed k t key t' (.ok (.present index))
  | inserted : IsLeast? (k.HasKey t key) none → t'.slots = t.slots ++ [t.freeIndex] →
    t'.freeIndex = t.freeIndex + 1 → t'.hash? t.freeIndex = some (foldHash (k.digest key)) →
    t'.stored t.freeIndex = .ok key → Placed k t key t' (.ok (.inserted t.freeIndex))
  | failed {refusal : TableError KeyError} : IsLeast? (k.HasKey t key) none →
    t'.slots = t.slots → Placed k t key t' (.error refusal)

namespace Table

/-- A put places the key in a row, unless it can not be read, and leaves the other slots as they
were. -/
theorem placed (h : k.Table config t) (hwidth : k.build.length = config.keyTypes.length)
    (input : Block) (row : Nat) :
    (t.put input row).Sat (fun trap ↦ keyAt k.build input row = .error trap) fun (t', result) ↦
      k.Table config t' ∧ t.Extends t' ∧ t'.outputCount = t.outputCount ∧
        ∃ key, keyAt k.build input row = .ok key ∧ k.Placed t key t' result := by
  refine (h.put input row).mono (fun _ ↦ id) ?_
  rintro ⟨t', result⟩ ⟨ht', key, hkey, heffect⟩
  have hmatches (index : Nat) : t.Matches (foldHash (k.digest key)) (t.ops.agrees input row) index ↔
      k.HasKey t key index := by
    rw [h.ops_eq]
    exact h.matches_iff hkey
  cases heffect with
  | @present index visited hleast =>
    exact ⟨ht', .counted t visited, rfl, key, hkey, .present (hleast.congr hmatches) rfl rfl⟩
  | @new visited _ hleast hattempt =>
    have hnone := hleast.congr hmatches
    cases hattempt with
    | exhausted => exact ⟨ht', .counted t visited, rfl, key, hkey, .failed hnone rfl⟩
    | spent _ hstore hused =>
      have hused := hused.of_counted
      refine ⟨ht', hused.extends h.sound (h.rewritten hstore), hused.outputCount_eq, key, hkey,
        .failed hnone ?_⟩
      exact hused.slots_eq.trans (List.append_nil _)
    | stored _ hstore hused =>
      have hused := hused.of_counted
      have hread : t'.stored t.freeIndex = .ok key := by
        have hstore : store k.build input row t.nextKeys (t.layout.split t.freeIndex).offset = _ :=
          h.ops_eq ▸ hstore
        have hnext := h.keyed.nextKeys
        rw [h.config_eq] at hnext
        have hlength := (Checked.length_of_mapM_eq_ok hkey).trans hwidth
        rw [hused.stored_freeIndex]
        exact row_of_store hstore hnext.aligned hkey (hlength.trans hnext.length_eq.symm)
      refine ⟨ht', hused.extends h.sound (h.rewritten hstore), hused.outputCount_eq, key, hkey,
        .inserted hnone hused.slots_eq hused.freeIndex_eq ?_ hread⟩
      rw [hused.hash?_eq, if_pos rfl]

/-- A put of a row whose key can be read places it. -/
theorem exists_placed (h : k.Table config t) (hwidth : k.build.length = config.keyTypes.length)
    (hkey : keyAt k.build input row = .ok key) : ∃ t' result,
      t.put input row = .ok (t', result) ∧ k.Table config t' ∧ t.Extends t' ∧
        t'.outputCount = t.outputCount ∧ k.Placed t key t' result := by
  obtain ⟨⟨t', result⟩, hput, ht', hextends, hcount, key', hkey', hplaced⟩ :=
    (h.placed hwidth input row).exists_eq_ok fun trap htrap ↦ nomatch hkey.symm.trans htrap
  obtain rfl := Except.ok.inj (hkey.symm.trans hkey')
  exact ⟨t', result, hput, ht', hextends, hcount, hplaced⟩

end Table

/-- A slot that was handed out has the keys that it had before. -/
theorem hasKey_iff_of_extends (h : t.Extends t') {index : Nat} (hindex : index < t.freeIndex) :
    k.HasKey t' key index ↔ k.HasKey t key index := by
  rw [HasKey, HasKey, h.hash?_eq index hindex]
  refine and_congr_right fun hhash ↦ ?_
  rw [h.stored_eq index hindex (hhash ▸ Option.some_ne_none _)]

/-- The first slot that has a key stays the first. -/
theorem isLeast?_of_extends (h : t.Extends t') {index : Nat} (hindex : index < t.freeIndex)
    (hleast : IsLeast? (k.HasKey t key) (some index)) :
    IsLeast? (k.HasKey t' key) (some index) := by
  refine ⟨(hasKey_iff_of_extends h hindex).2 hleast.1, fun other hother ↦ ?_⟩
  by_contra hlt
  have hbefore : other < t.freeIndex := Nat.lt_trans (Nat.lt_of_not_le hlt) hindex
  exact hlt (hleast.2 other ((hasKey_iff_of_extends h hbefore).1 hother))

/-- A slot has a key, which is found there unless it never matches. -/
structure Holds (k : ColumnKeys) (t : KeyTable KeyError) (key : Row) (index : Nat) : Prop where
  hash?_eq : t.hash? index = some (foldHash (k.digest key))
  stored_eq : t.stored index = .ok key
  isLeast? : k.nulls = .equal ∨ none ∉ key → IsLeast? (k.HasKey t key) (some index)

/-- A key stays where it is. -/
theorem Holds.of_extends {index : Nat} (h : k.Holds t key index) (ht : t.Sound)
    (hextends : t.Extends t') : k.Holds t' key index := by
  have hkey : t.hash? index ≠ none := h.hash?_eq ▸ Option.some_ne_none _
  have hindex := KeyTable.lt_freeIndex_of_hash? ht hkey
  exact ⟨(hextends.hash?_eq index hindex).trans h.hash?_eq,
    (hextends.stored_eq index hindex hkey).trans h.stored_eq,
    fun hmatches ↦ isLeast?_of_extends hextends hindex (h.isLeast? hmatches)⟩

/-- A put that gives an index leaves the key there. -/
theorem Placed.holds {status : PutStatus} (h : k.Placed t key t' (.ok status))
    (ht : k.Table config t) (ht' : k.Table config t') (hextends : t.Extends t')
    (hlength : key.length = config.keyTypes.length) : k.Holds t' key status.index := by
  cases h with
  | @present index hleast =>
    obtain ⟨hhash, hstored, -⟩ := (ht.hasKey_iff hlength).1 hleast.1
    have hholds : k.Holds t key index := ⟨hhash, hstored, fun _ ↦ hleast⟩
    exact hholds.of_extends ht.sound hextends
  | inserted hnone _ _ hhash hstored =>
    refine ⟨hhash, hstored, fun hmatches ↦
      ⟨(ht'.hasKey_iff hlength).2 ⟨hhash, hstored, hmatches⟩, fun other hother ↦ ?_⟩⟩
    by_contra hlt
    exact hnone other ((hasKey_iff_of_extends hextends (Nat.lt_of_not_le hlt)).1 hother)

/-! ### Histories -/

namespace Table

/-- A call leads to a table with keys that are read from columns, which extends the one before
unless it was cleared; and puts use the next slot. -/
theorem of_call (h : k.Table config t) (hwidth : k.build.length = config.keyTypes.length)
    {call : TableCall} {answer : TableAnswer KeyError} (hcall : t.call call = .ok (t', answer)) :
    k.Table config t' ∧ (call ≠ .clear → t.Extends t') ∧
      ∀ index, answer = .put (.ok (.inserted index)) → index = t.freeIndex := by
  cases call with
  | put input row =>
    obtain ⟨⟨u, result⟩, hput, heq⟩ := exists_of_bind_eq_ok hcall
    obtain ⟨rfl, rfl⟩ := Prod.mk.inj (Except.ok.inj heq)
    obtain ⟨ht', hextends, -, key, -, hplaced⟩ := (h.placed hwidth input row).of_eq_ok hput
    refine ⟨ht', fun _ ↦ hextends, fun index hindex ↦ ?_⟩
    cases hindex
    cases hplaced
    rfl
  | lookUp input row =>
    obtain ⟨found, -, heq⟩ := exists_of_bind_eq_ok hcall
    obtain ⟨rfl, rfl⟩ := Prod.mk.inj (Except.ok.inj heq)
    exact ⟨h, fun _ ↦ .refl t, nofun⟩
  | probe probe row =>
    obtain ⟨found, -, heq⟩ := exists_of_bind_eq_ok hcall
    obtain ⟨rfl, rfl⟩ := Prod.mk.inj (Except.ok.inj heq)
    exact ⟨h, fun _ ↦ .refl t, nofun⟩
  | outputAll output =>
    rw [KeyTable.call, h.sound.outputAll_eq h.tracking.outputCursor_le] at hcall
    obtain ⟨_, hwrite, heq⟩ := exists_of_bind_eq_ok hcall
    obtain ⟨⟨count, output', result⟩, hemit, hwrite⟩ := exists_of_bind_eq_ok hwrite
    obtain rfl := Except.ok.inj hwrite
    obtain ⟨rfl, rfl⟩ := Prod.mk.inj (Except.ok.inj heq)
    have hsame : t.Extends (t.wrote count) := ⟨Nat.le_refl _, fun _ _ ↦ rfl, fun _ _ _ ↦ rfl⟩
    exact ⟨h.wrote (KeyTable.count_le_of_emitSlots hemit), fun _ ↦ hsame, nofun⟩
  | resetOutput =>
    obtain ⟨rfl, rfl⟩ := Prod.mk.inj (Except.ok.inj hcall)
    have hsame : t.Extends t.resetOutput := ⟨Nat.le_refl _, fun _ _ ↦ rfl, fun _ _ _ ↦ rfl⟩
    exact ⟨h.resetOutput, fun _ ↦ hsame, nofun⟩
  | clear =>
    obtain ⟨rfl, rfl⟩ := Prod.mk.inj (Except.ok.inj hcall)
    exact ⟨h.clear, fun hne ↦ absurd rfl hne, nofun⟩

/-- Calls lead to a table that extends the one before, unless it was cleared, and puts use the slots
behind those that there were. -/
theorem of_run (h : k.Table config t) (hwidth : k.build.length = config.keyTypes.length)
    {calls : List TableCall} {answers : List (TableAnswer KeyError)}
    (hrun : t.run calls = .ok (t', answers)) :
    k.Table config t' ∧ (.clear ∉ calls → t.Extends t' ∧
      ∀ index, .put (.ok (.inserted index)) ∈ answers → t.freeIndex ≤ index) := by
  induction calls generalizing t answers with
  | nil =>
    obtain ⟨rfl, rfl⟩ := Prod.mk.inj (Except.ok.inj hrun)
    exact ⟨h, fun _ ↦ ⟨.refl t, nofun⟩⟩
  | cons call calls ih =>
    obtain ⟨⟨u, answer⟩, hcall, hrun⟩ := exists_of_bind_eq_ok hrun
    obtain ⟨⟨v, answers'⟩, hrest, heq⟩ := exists_of_bind_eq_ok hrun
    obtain ⟨rfl, rfl⟩ := Prod.mk.inj (Except.ok.inj heq)
    obtain ⟨hu, hextends, hinserted⟩ := h.of_call hwidth hcall
    obtain ⟨ht', hbehind⟩ := ih hu hrest
    refine ⟨ht', fun hclear ↦ ?_⟩
    obtain ⟨hextends', hinserted'⟩ := hbehind fun hmem ↦ hclear (List.mem_cons_of_mem _ hmem)
    have hhere := hextends fun heq ↦ hclear (heq ▸ List.mem_cons_self)
    refine ⟨hhere.trans hextends', fun index hindex ↦ ?_⟩
    rcases List.mem_cons.1 hindex with heq | hindex
    · exact Nat.le_of_eq (hinserted index heq.symm).symm
    · exact Nat.le_trans hhere.freeIndex_le (hinserted' index hindex)

end Table

/-- A slot keeps a key: rows with the key are found there, unless it never matches, and no other key
comes into the slot. -/
structure Keeps (k : ColumnKeys) (t : KeyTable KeyError) (key : Row) (index : Nat) : Prop where
  occupied : t.Occupied index
  hashAt_eq : t.hashAt index = .ok (foldHash (k.digest key))
  stored_eq : t.stored index = .ok key
  index?_eq : k.nulls = .equal ∨ none ∉ key → ∀ input row, keyAt k.build input row = .ok key →
    t.index? input row = .ok (some index)
  probeIndex?_eq : k.nulls = .equal ∨ none ∉ key → ∀ probe row,
    keyAt k.probe probe row = .ok key → t.probeIndex? probe row = .ok (some index)
  present : k.nulls = .equal ∨ none ∉ key → ∀ input row, keyAt k.build input row = .ok key →
    ∃ t', t.put input row = .ok (t', .ok (.present index))
  not_inserted : ∀ input row t', t.put input row ≠ .ok (t', .ok (.inserted index))

/-- A slot that has a key keeps it. -/
theorem Holds.keeps {index : Nat} (h : k.Holds t key index) (ht : k.Table config t)
    (hwidth : k.build.length = config.keyTypes.length) : k.Keeps t key index := by
  have hholds := KeyTable.holds_iff.2 h.hash?_eq
  have hindex := KeyTable.lt_freeIndex_of_hash? ht.sound (h.hash?_eq ▸ Option.some_ne_none _)
  refine ⟨ht.sound.toSegmented.occupied_iff.2 ⟨_, hholds⟩, ?_, h.stored_eq,
    fun hmatches input row hkey ↦ ht.index?_eq hkey (h.isLeast? hmatches),
    fun hmatches probe row hkey ↦ ht.probeIndex?_eq hkey (h.isLeast? hmatches),
    fun hmatches input row hkey ↦ ?_, fun input row t' hput ↦ ?_⟩
  · obtain ⟨link, -, -, hhash⟩ := hholds
    exact hhash
  · obtain ⟨t', result, hput, -, -, -, hplaced⟩ := ht.exists_placed hwidth hkey
    have hleast := h.isLeast? hmatches
    cases hplaced with
    | present hleast' =>
      obtain rfl := Option.some.inj (hleast'.unique hleast)
      exact ⟨t', hput⟩
    | inserted hnone | failed hnone => exact absurd hleast.1 (hnone index)
  · obtain ⟨-, -, -, key', -, hplaced⟩ := (ht.placed hwidth input row).of_eq_ok hput
    cases hplaced
    exact absurd hindex (Nat.lt_irrefl _)

/-- A row that is not of the type of the keys. -/
def mistyped : Block := ⟨[.int64 (.ofList [some 5])], 1⟩

/-- Puts that find a key, fail, and store two more in another segment and with more buckets, a
lookup, and keys written out. -/
def stayingCalls : List TableCall :=
  [.put repeated 3, .put mistyped 0, .put repeated 2, .put repeated 5, .lookUp repeated 0,
    .outputAll (.ofTypes [.integer] 2), .resetOutput]

/-- Once a put gave an index for a key the slot keeps the key until the table is cleared, whatever
is called then: puts that store keys, find them or fail, with new segments and buckets, lookups, and
writing the keys out. -/
theorem stable_of_put {t₀ t₁ t₂ : KeyTable KeyError} {before after : List TableCall}
    {answers answers' : List (TableAnswer KeyError)} {status : PutStatus}
    (h : KeyTable.create config k.ops = .ok t₀)
    (hbuild : check k.build types config.keyColumns = .ok ())
    (hbefore : t₀.run before = .ok (t, answers))
    (hput : t.put input row = .ok (t₁, .ok status))
    (hafter : t₁.run after = .ok (t₂, answers')) (hclear : .clear ∉ after) :
    ∃ key, keyAt k.build input row = .ok key ∧ k.Keeps t₂ key status.index ∧
      .put (.ok (.inserted status.index)) ∉ answers' := by
  have hwidth := width_of_check hbuild
  have hsane := (KeyTable.kept_of_create_eq_ok h).sane
  obtain rfl := KeyTable.eq_fresh_of_create_eq_ok h
  obtain ⟨ht, -⟩ := (table_fresh hsane k {}).of_run hwidth hbefore
  obtain ⟨ht₁, hextends, -, key, hkey, hplaced⟩ := (ht.placed hwidth input row).of_eq_ok hput
  have hholds := hplaced.holds ht ht₁ hextends (length_key_of_check hbuild hkey)
  obtain ⟨ht₂, hbehind⟩ := ht₁.of_run hwidth hafter
  obtain ⟨hextends', hinserted⟩ := hbehind hclear
  refine ⟨key, hkey, (hholds.of_extends ht₁.sound hextends').keeps ht₂ hwidth, fun hmem ↦ ?_⟩
  have hindex :=
    KeyTable.lt_freeIndex_of_hash? ht₁.sound (hholds.hash?_eq ▸ Option.some_ne_none _)
  exact absurd (hinserted _ hmem) (Nat.not_le_of_lt hindex)

/-- The second key that is stored stays in its slot through all of these calls. -/
theorem stable_of_put_repeated : ∃ t t₁ t₂ answers,
    (KeyTable.fresh KeyTable.cramped identified.ops {}).run [.put repeated 1] =
        .ok (t, [.put (.ok (.inserted 0))]) ∧
      t.put repeated 0 = .ok (t₁, .ok (.inserted 1)) ∧ t₁.run stayingCalls = .ok (t₂, answers) ∧
      identified.Keeps t₂ [some (.int32 5)] 1 ∧ t₂.index? repeated 3 = .ok (some 1) := by
  obtain ⟨t, t₁, t₂, answers, hbefore, hput, hafter⟩ : ∃ t t₁ t₂ answers,
      (KeyTable.fresh KeyTable.cramped identified.ops {}).run [.put repeated 1] =
          .ok (t, [.put (.ok (.inserted 0))]) ∧
        t.put repeated 0 = .ok (t₁, .ok (.inserted 1)) ∧ t₁.run stayingCalls = .ok (t₂, answers) :=
    ⟨_, _, _, _, rfl, rfl, rfl⟩
  have hcreate := KeyTable.create_eq_ok KeyTable.fault?_cramped identified.ops
  have hbuild : check identified.build [.integer] KeyTable.cramped.keyColumns = .ok () := rfl
  have hclear : .clear ∉ stayingCalls := by simp [stayingCalls]
  obtain ⟨key, hkey, hkeeps, -⟩ := stable_of_put hcreate hbuild hbefore hput hafter hclear
  have hread : keyAt identified.build repeated 0 = .ok [some (.int32 5)] := rfl
  obtain rfl := Except.ok.inj (hread.symm.trans hkey)
  exact ⟨t, t₁, t₂, answers, hbefore, hput, hafter, hkeeps,
    hkeeps.index?_eq (.inl rfl) repeated 3 rfl⟩

end ColumnKeys

end Columnar
