import Columnar.Proofs.KeyTable.Logs
import Columnar.Proofs.KeyTable.Refused
import Mathlib.Data.List.Pairwise

/-!
# Grouping rows by their keys

Putting rows of well-formed blocks into a table groups them by their keys, if missing values are
equal (`groups_of_run`). What the puts in a log gave determines the groups (`Grouped`), and a table
that was only put into and looked up holds just these: each in its slot, under its hash and in the
order in which the keys were put first (`Grouping`).

## One put

A put keeps a table in step with the groups, whether the key is present, is stored, or could not be
stored and spends a slot (`Grouping.put`); and so a run does. The hash may be any function of the
key. Indexes of later groups are greater, and they are consecutive as long as no put failed, because
a slot is only skipped where a key was lost.

## Writing the groups out

Into a new output with rows for all keys the groups are written one after the other, **as long as
their texts fit**. The segments of a table each have a budget of their own, so a table may hold more
bytes of a column than one output can address. `groups_of_run` therefore says how far the output
gets: it has the longest run of first keys whose texts fit, and it has all of them just if the texts
of all do (`Fits`).

Both provisos are needed, which `partly_written` shows by two tables. In the first one all four keys
are in a table of few bytes, and an output of four rows, one of which counts as written, takes three
of them. In the second one two texts with more bytes than spans can address are put into segments of
their own, and the output refuses the second. **That text is never computed**: the proof goes by its
length, through the laws above.
-/

namespace Columnar

namespace PutLog

/-- The keys of the puts that succeeded. -/
def keys (log : PutLog) : List Row :=
  log.filterMap fun
    | (key, .ok _) => some key
    | (_, .error _) => none

/-- The keys of the puts that succeeded, each where it was put first. -/
def distinct (log : PutLog) : List Row := (keys log).eraseDups

/-- Two keys that were put one after the other are two. -/
theorem distinct_pair {key key' : Row} (h : key ≠ key') (status status' : PutStatus) :
    distinct [(key, .ok status), (key', .ok status')] = [key, key'] := by
  show [key, key'].eraseDups = [key, key']
  have hfilter : [key'].filter (fun other ↦ !other == key) = [key'] := by simp [Ne.symm h]
  rw [List.eraseDups_cons, hfilter]
  rfl

/-- No put failed. -/
def Succeeds (log : PutLog) : Prop := ∀ put ∈ log, ∃ status, put.2 = .ok status

/-- The indexes that puts give are those of groups of equal keys. -/
structure Groups (log : PutLog) : Prop where
  /-- Puts give the same index just if their keys are the same. -/
  index_eq_iff : ∀ {key key' : Row} {status status' : PutStatus}, (key, .ok status) ∈ log →
    (key', .ok status') ∈ log → (status.index = status'.index ↔ key = key')
  /-- A key is inserted by the first put that succeeds, and by no other. -/
  inserted_iff : ∀ {before after : PutLog} {key : Row} {status : PutStatus},
    log = before ++ (key, .ok status) :: after →
      ((∃ index, status = .inserted index) ↔ key ∉ keys before)
  pairwise_newIndexes : (newIndexes log).Pairwise (· < ·)
  newIndexes_eq : Succeeds log → newIndexes log = List.range (distinct log).length

/-- The groups that a log of puts leads to, each a key with the index of its slot. -/
inductive Grouped : PutLog → List (Row × Nat) → Prop
  | nil : Grouped [] []
  | present {log : PutLog} {groups : List (Row × Nat)} {key : Row} {index : Nat} :
    Grouped log groups → (key, index) ∈ groups →
    Grouped (log ++ [(key, .ok (.present index))]) groups
  | inserted {log : PutLog} {groups : List (Row × Nat)} {key : Row} {index : Nat} :
    Grouped log groups → key ∉ groups.map Prod.fst → (∀ group ∈ groups, group.2 < index) →
    (Succeeds log → index = groups.length) →
    Grouped (log ++ [(key, .ok (.inserted index))]) (groups ++ [(key, index)])
  | failed {log : PutLog} {groups : List (Row × Nat)} {key : Row} {refusal : TableError KeyError} :
    Grouped log groups → Grouped (log ++ [(key, .error refusal)]) groups

variable {log before after : PutLog} {groups : List (Row × Nat)} {key : Row} {status : PutStatus}

theorem keys_append (log log' : PutLog) : keys (log ++ log') = keys log ++ keys log' :=
  List.filterMap_append

theorem Succeeds.of_append {log' : PutLog} (h : Succeeds (log ++ log')) : Succeeds log :=
  fun put hput ↦ h put (List.mem_append_left _ hput)

/-- A put adds its key to those that were put, if it is not among them. -/
theorem distinct_concat (log : PutLog) (key : Row) (status : PutStatus) :
    distinct (log ++ [(key, .ok status)]) =
      if key ∈ distinct log then distinct log else distinct log ++ [key] := by
  have hkeys : keys (log ++ [(key, .ok status)]) = keys log ++ [key] := keys_append _ _
  rw [distinct, hkeys, List.eraseDups_append, List.removeAll, ← distinct]
  by_cases hmem : key ∈ distinct log
  · have hput : (keys log).contains key = true :=
      List.contains_iff_mem.2 (List.mem_eraseDups.1 hmem)
    rw [if_pos hmem, List.filter_cons_of_neg (by simpa using hput)]
    exact List.append_nil _
  · have hput : ¬(keys log).contains key = true := fun hput ↦
      hmem (List.mem_eraseDups.2 (List.contains_iff_mem.1 hput))
    rw [if_neg hmem, List.filter_cons_of_pos (by simpa using hput)]
    rfl

/-- The put in a place of a longer log is the last one, or in the same place before it. -/
theorem append_eq_append_cons {put put' : Row × Except (TableError KeyError) PutStatus}
    (h : log ++ [put'] = before ++ put :: after) :
    (log = before ∧ put' = put) ∨ ∃ after', log = before ++ put :: after' := by
  rcases List.eq_nil_or_concat after with rfl | ⟨after', last, rfl⟩
  · obtain ⟨hlog, hput⟩ := List.append_inj' h rfl
    exact .inl ⟨hlog, List.singleton_inj.1 hput⟩
  · rw [List.concat_eq_append, ← List.cons_append, ← List.append_assoc] at h
    exact .inr ⟨after', (List.append_inj' h rfl).1⟩

namespace Grouped

/-- A put gives the index of the group of its key. -/
theorem mem_of_mem (h : Grouped log groups) (hmem : (key, .ok status) ∈ log) :
    (key, status.index) ∈ groups := by
  induction h with
  | nil => cases hmem
  | present _ hgroup ih =>
    rcases List.mem_append.1 hmem with hmem | hmem
    · exact ih hmem
    · obtain ⟨rfl, hstatus⟩ := Prod.mk.inj (List.mem_singleton.1 hmem)
      obtain rfl := Except.ok.inj hstatus
      exact hgroup
  | inserted _ _ _ _ ih =>
    rcases List.mem_append.1 hmem with hmem | hmem
    · exact List.mem_append_left _ (ih hmem)
    · obtain ⟨rfl, hstatus⟩ := Prod.mk.inj (List.mem_singleton.1 hmem)
      obtain rfl := Except.ok.inj hstatus
      exact List.mem_append_right _ List.mem_cons_self
  | failed _ ih =>
    rcases List.mem_append.1 hmem with hmem | hmem
    · exact ih hmem
    · cases (Prod.mk.inj (List.mem_singleton.1 hmem)).2

/-- The groups are those of the keys that were put, in the order in which they were put first. -/
theorem map_fst (h : Grouped log groups) : groups.map Prod.fst = distinct log := by
  induction h with
  | nil => rfl
  | @present log groups key index _ hgroup ih =>
    have hput : key ∈ distinct log := ih ▸ List.mem_map_of_mem hgroup
    rw [ih, distinct_concat, if_pos hput]
  | @inserted log groups key index _ hnew _ _ ih =>
    rw [List.map_append, ih, distinct_concat, if_neg (ih ▸ hnew)]
    rfl
  | @failed log groups key refusal _ ih =>
    rw [ih, distinct, distinct, keys_append]
    exact congrArg List.eraseDups (List.append_nil _).symm

theorem map_snd (h : Grouped log groups) : groups.map Prod.snd = newIndexes log := by
  induction h with
  | nil => rfl
  | present _ _ ih | failed _ ih =>
    rw [ih, newIndexes_append]
    exact (List.append_nil _).symm
  | inserted _ _ _ _ ih =>
    rw [List.map_append, ih, newIndexes_append]
    rfl

/-- Later groups have other keys and greater indexes. -/
theorem pairwise (h : Grouped log groups) :
    groups.Pairwise fun group later ↦ group.1 ≠ later.1 ∧ group.2 < later.2 := by
  induction h with
  | nil => exact .nil
  | present _ _ ih | failed _ ih => exact ih
  | inserted _ hnew hindex _ ih =>
    refine List.pairwise_append.2 ⟨ih, List.pairwise_singleton _ _,
      fun group hgroup later hlater ↦ ?_⟩
    obtain rfl := List.mem_singleton.1 hlater
    exact ⟨fun heq ↦ hnew (List.mem_map.2 ⟨group, hgroup, heq⟩), hindex group hgroup⟩

/-- Groups differ in both their keys and their indexes. -/
theorem ne_of_ne (h : Grouped log groups) {group group' : Row × Nat} (hgroup : group ∈ groups)
    (hgroup' : group' ∈ groups) (hne : group ≠ group') :
    group.1 ≠ group'.1 ∧ group.2 ≠ group'.2 := by
  have hpairwise : groups.Pairwise fun group later ↦ group.1 ≠ later.1 ∧ group.2 ≠ later.2 :=
    h.pairwise.imp fun hlater ↦ ⟨hlater.1, Nat.ne_of_lt hlater.2⟩
  have hsymm : Std.Symm fun group later : Row × Nat ↦ group.1 ≠ later.1 ∧ group.2 ≠ later.2 :=
    ⟨fun _ _ hdiffer ↦ ⟨hdiffer.1.symm, hdiffer.2.symm⟩⟩
  exact hpairwise.forall hgroup hgroup' hne

theorem inserted_iff (h : Grouped log groups)
    (hlog : log = before ++ (key, .ok status) :: after) :
    (∃ index, status = .inserted index) ↔ key ∉ keys before := by
  induction h generalizing after with
  | nil => simp at hlog
  | @present log groups key' index hgrouped hgroup ih =>
    rcases append_eq_append_cons hlog with ⟨rfl, hput⟩ | ⟨after', hlog'⟩
    · obtain ⟨rfl, hstatus⟩ := Prod.mk.inj hput
      obtain rfl := Except.ok.inj hstatus
      have hmem : key' ∈ distinct log := hgrouped.map_fst ▸ List.mem_map_of_mem hgroup
      exact iff_of_false nofun fun hnew ↦ hnew (List.mem_eraseDups.1 hmem)
    · exact ih hlog'
  | @inserted log groups key' index hgrouped hnew _ _ ih =>
    rcases append_eq_append_cons hlog with ⟨rfl, hput⟩ | ⟨after', hlog'⟩
    · obtain ⟨rfl, hstatus⟩ := Prod.mk.inj hput
      obtain rfl := Except.ok.inj hstatus
      rw [hgrouped.map_fst, distinct, List.mem_eraseDups] at hnew
      exact iff_of_true ⟨index, rfl⟩ hnew
    · exact ih hlog'
  | failed _ ih =>
    rcases append_eq_append_cons hlog with ⟨-, hput⟩ | ⟨after', hlog'⟩
    · cases (Prod.mk.inj hput).2
    · exact ih hlog'

/-- The indexes of new keys are consecutive, if no put failed. -/
theorem map_snd_eq_range (h : Grouped log groups) (hlog : Succeeds log) :
    groups.map Prod.snd = List.range groups.length := by
  induction h with
  | nil => rfl
  | present _ _ ih => exact ih hlog.of_append
  | inserted _ _ _ hindex ih =>
    rw [List.map_append, ih hlog.of_append, List.length_append, List.length_singleton,
      List.range_succ, ← hindex hlog.of_append]
    rfl
  | failed _ _ =>
    obtain ⟨status, hstatus⟩ := hlog _ (List.mem_append_right _ List.mem_cons_self)
    cases hstatus

/-- A log whose puts lead to groups gives the indexes of these. -/
theorem toGroups (h : Grouped log groups) : Groups log where
  index_eq_iff := by
    intro key key' status status' hput hput'
    have hgroup := h.mem_of_mem hput
    have hgroup' := h.mem_of_mem hput'
    constructor
    · intro hindex
      by_contra hkey
      exact (h.ne_of_ne hgroup hgroup' fun heq ↦ hkey (Prod.mk.inj heq).1).2 hindex
    · intro hkey
      by_contra hindex
      exact (h.ne_of_ne hgroup hgroup' fun heq ↦ hindex (Prod.mk.inj heq).2).1 hkey
  inserted_iff := h.inserted_iff
  pairwise_newIndexes := by
    rw [← h.map_snd]
    exact h.pairwise.map _ fun _ _ ↦ And.right
  newIndexes_eq hlog := by
    rw [← h.map_snd, h.map_snd_eq_range hlog, ← h.map_fst, List.length_map]

end Grouped

end PutLog

namespace ColumnKeys

variable {k : ColumnKeys} {config : TableConfig} {t : KeyTable KeyError} {log : PutLog}
  {groups : List (Row × Nat)} {types probeTypes : List DataType} {indexes : List Nat}
  {input : Block}
  {row : Nat} {key : Row}

/-! ### Tables of groups -/

/-- A table that holds the groups that a log of puts leads to, and from which nothing was written
out. -/
structure Grouping (k : ColumnKeys) (config : TableConfig) (log : PutLog)
    (groups : List (Row × Nat)) (t : KeyTable KeyError) : Prop extends k.Table config t where
  grouped : PutLog.Grouped log groups
  slots_eq : t.slots = groups.map Prod.snd
  /-- The slot of a group holds its key, under the hash of the key. -/
  holds : ∀ group ∈ groups, t.hash? group.2 = some (foldHash (k.digest group.1)) ∧
    t.stored group.2 = .ok group.1
  freeIndex_eq : log.Succeeds → t.freeIndex = groups.length
  outputCount_eq : t.outputCount = 0

namespace Grouping

theorem fresh (h : config.Sane) (k : ColumnKeys) (metrics : TableMetrics) :
    k.Grouping config [] [] (.fresh config k.ops metrics) :=
  ⟨table_fresh h k metrics, .nil, rfl, nofun, fun _ ↦ rfl, rfl⟩

/-- A slot has a key just if it is that of the group of the key. -/
theorem hasKey_iff (h : k.Grouping config log groups t) (hnulls : k.nulls = .equal)
    (hlength : key.length = config.keyTypes.length) {index : Nat} :
    k.HasKey t key index ↔ (key, index) ∈ groups := by
  rw [h.toTable.hasKey_iff hlength]
  constructor
  · rintro ⟨hhash, hstored, -⟩
    have hslot : index ∈ t.slots := h.sound.mem_slots.2 (hhash ▸ Option.some_ne_none _)
    rw [h.slots_eq] at hslot
    obtain ⟨group, hgroup, rfl⟩ := List.mem_map.1 hslot
    obtain rfl := Except.ok.inj (hstored.symm.trans (h.holds group hgroup).2)
    exact hgroup
  · intro hgroup
    exact ⟨(h.holds _ hgroup).1, (h.holds _ hgroup).2, .inl hnulls⟩

theorem lt_freeIndex (h : k.Grouping config log groups t) {group : Row × Nat}
    (hgroup : group ∈ groups) : group.2 < t.freeIndex :=
  KeyTable.lt_freeIndex_of_hash? h.sound ((h.holds group hgroup).1 ▸ Option.some_ne_none _)

/-- The slots of the groups stay as they are. -/
theorem holds_of_extends (h : k.Grouping config log groups t) {t' : KeyTable KeyError}
    (hextends : t.Extends t') : ∀ group ∈ groups,
      t'.hash? group.2 = some (foldHash (k.digest group.1)) ∧ t'.stored group.2 = .ok group.1 := by
  intro group hgroup
  obtain ⟨hhash, hstored⟩ := h.holds group hgroup
  have hindex := h.lt_freeIndex hgroup
  exact ⟨(hextends.hash?_eq _ hindex).trans hhash,
    (hextends.stored_eq _ hindex (hhash ▸ Option.some_ne_none _)).trans hstored⟩

/-- A put answers with the group of its key, which is a new one if there was none and the key could
be stored. -/
theorem put (h : k.Grouping config log groups t) (hnulls : k.nulls = .equal)
    (hlength : key.length = config.keyTypes.length) {t' : KeyTable KeyError}
    {result : Except (TableError KeyError) PutStatus} (ht' : k.Table config t')
    (hextends : t.Extends t') (hcount : t'.outputCount = t.outputCount)
    (hplaced : k.Placed t key t' result) :
    ∃ groups', k.Grouping config (log ++ [(key, result)]) groups' t' := by
  have hholds := h.holds_of_extends hextends
  cases hplaced with
  | present hleast hslots hfreeIndex =>
    refine ⟨groups, ht', h.grouped.present ((h.hasKey_iff hnulls hlength).1 hleast.1),
      hslots.trans h.slots_eq, hholds, fun hlog ↦ ?_, hcount.trans h.outputCount_eq⟩
    rw [hfreeIndex, h.freeIndex_eq hlog.of_append]
  | inserted hnone hslots hfreeIndex hhash hstored =>
    have hnew : key ∉ groups.map Prod.fst := by
      intro hmem
      obtain ⟨group, hgroup, rfl⟩ := List.mem_map.1 hmem
      exact hnone group.2 ((h.hasKey_iff hnulls hlength).2 hgroup)
    refine ⟨groups ++ [(key, t.freeIndex)], ht', h.grouped.inserted hnew
      (fun group hgroup ↦ h.lt_freeIndex hgroup) h.freeIndex_eq, ?_, ?_, ?_,
      hcount.trans h.outputCount_eq⟩
    · rw [hslots, h.slots_eq, List.map_append]
      rfl
    · intro group hgroup
      rcases List.mem_append.1 hgroup with hgroup | hgroup
      · exact hholds group hgroup
      · obtain rfl := List.mem_singleton.1 hgroup
        exact ⟨hhash, hstored⟩
    · intro hlog
      rw [hfreeIndex, h.freeIndex_eq hlog.of_append, List.length_append]
      rfl
  | failed _ hslots =>
    refine ⟨groups, ht', h.grouped.failed, hslots.trans h.slots_eq, hholds, fun hlog ↦ ?_,
      hcount.trans h.outputCount_eq⟩
    obtain ⟨status, hstatus⟩ := hlog _ (List.mem_append_right _ List.mem_cons_self)
    cases hstatus

/-- Calls of rows that can be read keep the groups of a table in step with the puts. -/
theorem run (h : k.Grouping config log groups t)
    (hbuild : check k.build types config.keyColumns = .ok ())
    (hprobe : check k.probe probeTypes config.keyColumns = .ok ()) (hnulls : k.nulls = .equal)
    {calls : List TableCall} (hcalls : ∀ call ∈ calls, ReadsRow types probeTypes call) :
    ∃ t' answers log' groups', t.run calls = .ok (t', answers) ∧
      (calls.zip answers).foldlM k.loggedBy log = .ok log' ∧ k.Grouping config log' groups' t' := by
  have hstep {log log' : PutLog} {t t' : KeyTable KeyError} {answer : TableAnswer KeyError}
      (h : ∃ groups, k.Grouping config log groups t)
      (hlogged : k.Logged config log t log' t' answer) :
      ∃ groups, k.Grouping config log' groups t' := by
    obtain ⟨groups, h⟩ := h
    cases hlogged with
    | put hlength ht' hextends hcount hplaced =>
      exact h.put hnulls hlength ht' hextends hcount hplaced
    | found => exact ⟨groups, h⟩
  obtain ⟨t', answers, log', hrun, hlog, groups', h'⟩ :=
    run_logged (I := fun log t _ ↦ ∃ groups, k.Grouping config log groups t)
      (fun ⟨_, h⟩ ↦ h.toTable) hstep hbuild hprobe [] ⟨groups, h⟩ hcalls
  exact ⟨t', answers, log', groups', hrun, hlog, h'⟩

/-- The keys of the groups are in the slots of the table. -/
theorem mapM_stored (h : k.Grouping config log groups t) :
    t.slots.mapM t.stored = .ok log.distinct := by
  rw [h.slots_eq, ← h.grouped.map_fst, Checked.mapM_eq_ok_iff, List.forall₂_map_left_iff,
    List.forall₂_map_right_iff]
  exact List.forall₂_same.2 fun group hgroup ↦ (h.holds group hgroup).2

theorem size_eq (h : k.Grouping config log groups t) : t.size = log.distinct.length := by
  rw [Checked.length_of_mapM_eq_ok h.mapM_stored]
  exact h.sound.length_slots.symm

/-- A key that has no group yet gets one, if there is an index for it and there are bytes left for
its texts. -/
theorem inserts (h : k.Grouping config log groups t) (hnulls : k.nulls = .equal)
    (hbudgets : t.Budgeted) (hbuild : check k.build types config.keyColumns = .ok ())
    (htypes : input.types = types) (hkey : keyAt k.build input row = .ok key)
    (hnew : key ∉ log.distinct) (hindex : t.freeIndex ≤ IndexLayout.maxIndex)
    (hfits : ∀ column, ¬Overfull config t key column) :
    ∃ t', t.put input row = .ok (t', .ok (.inserted t.freeIndex)) ∧ t'.Budgeted ∧
      t'.freeIndex = t.freeIndex + 1 ∧
      ∃ groups', k.Grouping config (log ++ [(key, .ok (.inserted t.freeIndex))]) groups' t' := by
  have hlength := length_key_of_check hbuild hkey
  obtain ⟨t', result, hput, -, hsettles⟩ := h.toTable.put_settles_of_keyAt hbuild htypes hkey
  have hnone {index : Nat} : ¬k.HasKey t key index := by
    intro hhas
    rw [h.hasKey_iff hnulls hlength] at hhas
    exact hnew (h.grouped.map_fst ▸ List.mem_map_of_mem hhas)
  cases hsettles with
  | present hleast => exact absurd hleast.1 hnone
  | exhausted _ hlt => exact absurd hindex (Nat.not_le_of_lt hlt)
  | refused _ _ hsettled =>
    rcases hsettled with _ | ⟨hoverflow, -, -⟩
    rw [(h.toTable.overflowAt_eq_none_iff hbudgets).2 (hfits _)] at hoverflow
    cases hoverflow
  | inserted _ _ _ hused =>
    obtain ⟨u, result, hput', hu, hextends, hcount, hplaced⟩ :=
      h.toTable.exists_placed (width_of_check hbuild) hkey
    obtain ⟨rfl, rfl⟩ := Prod.mk.inj (Except.ok.inj (hput.symm.trans hput'))
    exact ⟨t', hput, h.toTable.budgeted_put hbudgets hput, hused.freeIndex_eq,
      h.put hnulls hlength hu hextends hcount hplaced⟩

end Grouping

/-- Puts of all rows, with lookups behind the first of them. -/
def groupedCalls : List TableCall :=
  [.put repeated 0, .lookUp repeated 1, .probe repeated 3] ++ [1, 2, 3, 4, 5].map (.put repeated ·)

theorem readsRow_groupedCalls : ∀ call ∈ groupedCalls, ReadsRow [.integer] [.integer] call := by
  have hrow {row : Nat} (hrow : row < 6) :
      repeated.WellFormed [.integer] ∧ row < repeated.length :=
    ⟨wellFormed_repeated, hrow⟩
  intro call hcall
  simp only [groupedCalls, List.map_cons, List.map_nil, List.cons_append, List.nil_append,
    List.mem_cons, List.not_mem_nil, or_false] at hcall
  rcases hcall with rfl | rfl | rfl | rfl | rfl | rfl | rfl | rfl <;> exact hrow (by decide)

/-- Puts of rows, with lookups in between, group the rows by their keys: the indexes that they give
are those of the groups, and the table has as many keys as there are groups. Writing the table to a
new output with rows for all of them writes each key once, in the order in which they were put
first, as long as the texts in no column come to more bytes than spans can address; it goes on to
the last key, or is refused for want of bytes. The digest of a key may be any function of it. -/
theorem groups_of_run {t₀ : KeyTable KeyError} (h : KeyTable.create config k.ops = .ok t₀)
    (hbuild : check k.build types config.keyColumns = .ok ())
    (hprobe : check k.probe probeTypes config.keyColumns = .ok ()) (hnulls : k.nulls = .equal)
    {calls : List TableCall} (hcalls : ∀ call ∈ calls, ReadsRow types probeTypes call) :
    ∃ (t : KeyTable KeyError) (answers : List (TableAnswer KeyError)) (log : PutLog),
      t₀.run calls = .ok (t, answers) ∧ (calls.zip answers).foldlM k.loggedBy [] = .ok log ∧
      log.Groups ∧ t.size = log.distinct.length ∧
      ∀ capacity, t.size ≤ capacity → ∃ t' output result,
        t.outputAll (.ofTypes config.keyTypes capacity) = .ok (t', output, result) ∧
        output.rows = .ok (log.distinct.take output.length) ∧
        Fits config.keyTypes (log.distinct.take output.length) ∧
        (result = .ok true ∧ output.length = log.distinct.length ∨
          (∃ index refusal, result = .error (.outputFailed index (.column refusal))) ∧
            output.length < log.distinct.length ∧
            ¬Fits config.keyTypes (log.distinct.take (output.length + 1))) := by
  have hsane := (KeyTable.kept_of_create_eq_ok h).sane
  obtain rfl := KeyTable.eq_fresh_of_create_eq_ok h
  obtain ⟨t, answers, log, groups, hrun, hlog, ht⟩ :=
    (Grouping.fresh hsane k {}).run hbuild hprobe hnulls hcalls
  exact ⟨t, answers, log, hrun, hlog, ht.grouped.toGroups, ht.size_eq, fun capacity hcapacity ↦
    ht.toTable.outputAll_settled ht.mapM_stored ht.outputCount_eq hcapacity⟩

/-- Six rows with four keys, one of which is missing, in a table written out as a whole. -/
theorem groups_of_run_repeated : ∃ t answers t' output,
    (KeyTable.fresh KeyTable.cramped identified.ops {}).run groupedCalls = .ok (t, answers) ∧
      t.size = 4 ∧ t.outputAll (.ofTypes [.integer] 4) = .ok (t', output, .ok true) ∧
      output.rows = .ok [[some (.int32 5)], [none], [some (.int32 7)], [some (.int32 9)]] := by
  obtain ⟨t, answers, log, hrun, hlog, hdistinct⟩ : ∃ t answers log,
      (KeyTable.fresh KeyTable.cramped identified.ops {}).run groupedCalls = .ok (t, answers) ∧
        (groupedCalls.zip answers).foldlM identified.loggedBy [] = .ok log ∧
        log.distinct = [[some (.int32 5)], [none], [some (.int32 7)], [some (.int32 9)]] :=
    ⟨_, _, _, rfl, rfl, rfl⟩
  have hcreate := KeyTable.create_eq_ok KeyTable.fault?_cramped identified.ops
  have hcheck : check identified.build [.integer] KeyTable.cramped.keyColumns = .ok () := rfl
  obtain ⟨u, answers', log', hrun', hlog', -, hsize, houtput⟩ :=
    groups_of_run hcreate hcheck hcheck rfl readsRow_groupedCalls
  obtain ⟨rfl, rfl⟩ := Prod.mk.inj (Except.ok.inj (hrun.symm.trans hrun'))
  obtain rfl := Except.ok.inj (hlog.symm.trans hlog')
  obtain ⟨t', output, result, houtput, hrows, -, hends⟩ := houtput t.size (Nat.le_refl _)
  rw [hdistinct] at hsize
  rw [hsize] at houtput
  -- there are no columns of texts, so nothing is refused
  have hfits (rows : List Row) : Fits KeyTable.cramped.keyTypes rows := by
    rintro (_ | column) htype <;> cases htype
  rcases hends with ⟨rfl, hlength⟩ | ⟨-, -, hfull⟩
  · rw [hlength, List.take_length, hdistinct] at hrows
    exact ⟨t, answers, t', output, hrun, hsize, houtput, hrows⟩
  · exact absurd (hfits _) hfull

/-! ### More bytes than spans can address -/

/-- A text of `n` letters. -/
def letters (n : Nat) : String := .ofList (.replicate n 'a')

theorem utf8ByteSize_letters (n : Nat) : (letters n).utf8ByteSize = n := by
  induction n with
  | zero => rfl
  | succ n ih =>
    rw [letters] at ih ⊢
    rw [List.replicate_succ, String.ofList_cons, String.utf8ByteSize_append,
      String.utf8ByteSize_singleton, ih]
    exact Nat.add_comm 1 n

/-- A row of one text. -/
def page (text : String) : Block := ⟨[.text ((TextColumn.nulls 1).put 0 (some text))], 1⟩

theorem keyAt_page {text : String} (h : text.utf8ByteSize ≤ TextColumn.maxBytes) :
    keyAt [0] (page text) 0 = .ok [some (.text text)] := by
  have hroom : (TextColumn.nulls 1).overflow? (some text) = none :=
    if_pos (Nat.le_trans (Nat.le_of_eq (Nat.zero_add _)) h)
  have hget := (TextColumn.aligned_nulls 1).get_put Nat.one_pos hroom Nat.one_pos
  rw [if_pos rfl] at hget
  have hcell : (page text).cell 0 0 = .ok (some (.text text)) := by
    show (do
      return (← ((TextColumn.nulls 1).put 0 (some text)).get 0).map .text :
        Checked (Option Scalar)) = _
    rw [hget]
    rfl
  rw [keyAt, List.mapM_cons, hcell]
  rfl

theorem textBytesIn_pages (text : String) :
    textBytesIn [[some (.text text)], [some (.text "b")]] 0 = text.utf8ByteSize + 1 :=
  rfl

/-- A configuration for keys of one text, each in a segment of its own with as many bytes as spans
can address. -/
def ample : TableConfig where
  initialCapacity := 1
  maxCapacity := 1
  segmentCapacity := 1
  textBytesPerSlot := TextColumn.maxBytes
  keyColumns := [⟨"key", .varchar⟩]

theorem fault?_ample : ample.fault? = none := rfl

theorem textBudget_ample : ample.textBudget = TextColumn.maxBytes := rfl

/-- Keys of one text, all with one hash. -/
def lettered : ColumnKeys := ⟨[0], [0], .equal, fun _ ↦ 0⟩

/-- A text of at most as many bytes as spans can address is put into a segment of its own. -/
theorem Grouping.inserts_page {t : KeyTable KeyError} (h : lettered.Grouping ample log groups t)
    (hbudgets : t.Budgeted) (hheld : ∀ column, t.heldBytes column = 0) {text : String}
    (htext : text.utf8ByteSize ≤ TextColumn.maxBytes) (hnew : [some (.text text)] ∉ log.distinct)
    (hindex : t.freeIndex ≤ IndexLayout.maxIndex) :
    ∃ t', t.put (page text) 0 = .ok (t', .ok (.inserted t.freeIndex)) ∧ t'.Budgeted ∧
      t'.freeIndex = t.freeIndex + 1 ∧ ∃ groups', lettered.Grouping ample
        (log ++ [([some (.text text)], .ok (.inserted t.freeIndex))]) groups' t' := by
  have hbuild : check lettered.build [.varchar] ample.keyColumns = .ok () := rfl
  refine h.inserts rfl hbudgets hbuild rfl (keyAt_page htext) hnew hindex ?_
  rintro (_ | column) ⟨-, text', hvalue, hfull⟩
  · obtain rfl := Scalar.text.inj (Option.some.inj (Option.some.inj hvalue))
    rw [hheld, Nat.zero_add, textBudget_ample] at hfull
    exact absurd htext (Nat.not_le_of_lt hfull)
  · cases hvalue

/-- The segment of the second slot is not there before it is needed. -/
theorem Grouping.heldBytes_eq_zero {t : KeyTable KeyError}
    (h : lettered.Grouping ample log groups t) (hindex : t.freeIndex = 1) (column : Nat) :
    t.heldBytes column = 0 := by
  have hconfig : t.config = ample := h.config_eq
  have hsize : t.segments.size = 1 := by
    rw [h.sound.size_segments, hconfig, hindex]
    rfl
  have hnumber : (t.layout.split t.freeIndex).segment = 1 := by
    rw [KeyTable.layout, hconfig, hindex]
    rfl
  rw [KeyTable.heldBytes, hnumber, Array.getElem?_eq_none (Nat.le_of_eq hsize)]
  rfl

/-- Two texts with more bytes than spans can address are put into a table. -/
theorem exists_grouping_pages {long : String} (hlong : long.utf8ByteSize = TextColumn.maxBytes) :
    ∃ t groups, (KeyTable.fresh ample lettered.ops {}).run [.put (page long) 0, .put (page "b") 0] =
        .ok (t, [.put (.ok (.inserted 0)), .put (.ok (.inserted 1))]) ∧
      lettered.Grouping ample [([some (.text long)], .ok (.inserted 0)),
        ([some (.text "b")], .ok (.inserted 1))] groups t := by
  have hcreate := KeyTable.create_eq_ok fault?_ample lettered.ops
  have hfresh := Grouping.fresh (KeyTable.kept_of_create_eq_ok hcreate).sane lettered {}
  obtain ⟨t, hput, hbudgets, hindex, groups, ht⟩ : ∃ t,
      (KeyTable.fresh ample lettered.ops {}).put (page long) 0 = .ok (t, .ok (.inserted 0)) ∧
        t.Budgeted ∧ t.freeIndex = 1 ∧
        ∃ groups, lettered.Grouping ample [([some (.text long)], .ok (.inserted 0))] groups t :=
    hfresh.inserts_page (KeyTable.budgeted_fresh _ _ _) (by rintro (_ | column) <;> rfl)
      (Nat.le_of_eq hlong) List.not_mem_nil (Nat.zero_le _)
  have hnew : [some (.text "b")] ∉
      PutLog.distinct [([some (.text long)], .ok (.inserted 0))] := by
    intro hmem
    have heq := List.mem_singleton.1 (List.mem_eraseDups.1 hmem)
    obtain rfl := Scalar.text.inj (Option.some.inj (List.cons.inj heq).1)
    exact absurd hlong (by decide)
  obtain ⟨u, hput', -, -, groups', hu⟩ := ht.inserts_page hbudgets (ht.heldBytes_eq_zero hindex)
    (by decide) hnew (hindex ▸ by decide)
  rw [hindex] at hput' hu
  refine ⟨u, groups', ?_, hu⟩
  simp only [KeyTable.run, KeyTable.call, hput, hput', Checked.ok_bind, Checked.pure_eq_ok]

/-- A new output with rows for all keys does not take them if some of its rows count as written; and
an output that is empty does not take keys with more bytes than spans can address, which a table can
hold, since every segment has its own. -/
theorem partly_written :
    (∃ t answers t' output,
      (KeyTable.fresh KeyTable.cramped identified.ops {}).run groupedCalls = .ok (t, answers) ∧
        t.size = 4 ∧ t.outputAll ⟨(Block.ofTypes [.integer] 4).columns, 1⟩ =
          .ok (t', output, .ok false)) ∧
    ∃ t t' output index refusal, (KeyTable.fresh ample lettered.ops {}).run
        [.put (page (letters TextColumn.maxBytes)) 0, .put (page "b") 0] =
          .ok (t, [.put (.ok (.inserted 0)), .put (.ok (.inserted 1))]) ∧
      t.size = 2 ∧ t.outputAll (.ofTypes [.varchar] 2) =
        .ok (t', output, .error (.outputFailed index (.column refusal))) := by
  refine ⟨⟨_, _, _, _, rfl, rfl, rfl⟩, ?_⟩
  have hlong := utf8ByteSize_letters TextColumn.maxBytes
  -- what follows holds of any text of so many bytes
  generalize letters TextColumn.maxBytes = long at hlong ⊢
  obtain ⟨t, groups, hrun, ht⟩ := exists_grouping_pages hlong
  have hne : long ≠ "b" := by
    rintro rfl
    exact absurd hlong (by decide)
  have hkeys := ht.mapM_stored
  have hsize := ht.size_eq
  rw [PutLog.distinct_pair fun heq ↦
    hne (Scalar.text.inj (Option.some.inj (List.cons.inj heq).1))] at hkeys hsize
  obtain ⟨t', output, result, houtput, -, hfits, hends⟩ :=
    ht.toTable.outputAll_settled hkeys ht.outputCount_eq (Nat.le_of_eq hsize)
  rcases hends with ⟨-, hlength⟩ | ⟨⟨index, refusal, rfl⟩, -, -⟩
  · -- both texts would be in one column
    rw [hlength, List.take_length] at hfits
    have hle := hfits 0 rfl
    rw [textBytesIn_pages, hlong] at hle
    exact absurd hle (Nat.not_le_of_lt (Nat.lt_succ_self _))
  · exact ⟨t, t', output, index, refusal, hrun, hsize, houtput⟩

end ColumnKeys

end Columnar
