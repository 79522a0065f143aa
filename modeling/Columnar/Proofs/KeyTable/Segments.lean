import Columnar.Proofs.KeyTable.Emitted
import Mathlib.Order.Bounds.Basic

/-!
# Segments after any calls

What a segment is after keys were stored in vacant slots, in any order and some of them in vain, and
occupied slots were pointed elsewhere. All that can be read of it follows from the calls and their
answers (`Recorded`): which slots are occupied and which of these is the last one, and for each of
them the hash of its key and where its chain goes on.

## A log instead of a table

A table hands out slots in order and links them in its own way. None of this is assumed here: the
calls come in any order that `Admits` them, which asks for a vacant slot to store into and an
occupied one to point. So this is what a segment promises to whoever uses it, and **the table is but
one of its users**. A table that grows relies on it, as it asks a segment for nothing but the hashes
up to the last slot on record (`Recorded.mem_occupied_iff`).

Nothing is assumed of the operations on keys. A key that is refused leaves no trace but in the
columns (`eq_rekeyed_of_insert`), and a call is abandoned only if storing its key is.

## The keys themselves

If keys are read from columns, the keys are in their slots as well (`Retains`). A key that is
refused half way leaves values behind, but in a slot that stays vacant; and storing a key rewrites
one row, which is that of no other key.

The two halves are kept apart because they need different things. `Traced` is what any operations
give, `KeysTraced` what columns add, and `traced_of_history` has both. The history grows at its end,
and what happened last to a slot is found by splitting the log at the last entry about it
(`split_concat`).
-/

namespace Columnar

/-- What is done to a segment. -/
inductive SegmentCall
  | insert (input : Block) (row offset : Nat) (hash : UInt32)
  | setLink (offset : Nat) (link : Link)

/-! ### Entries of arrays -/

namespace Checked

variable {α : Type} {xs : Array α} {index other : Nat}

theorem entry_setIfInBounds_self (x : α) (h : index < xs.size) :
    entry (xs.setIfInBounds index x) index = .ok x := by
  simp [entry, h]

theorem entry_setIfInBounds_of_ne (x : α) (h : other ≠ index) :
    entry (xs.setIfInBounds index x) other = entry xs other := by
  rw [entry, entry, Array.getElem?_setIfInBounds_ne h.symm]

theorem lt_size_of_entry_eq_ok {x : α} (h : entry xs index = .ok x) : index < xs.size := by
  by_contra hge
  rw [entry, Array.getElem?_eq_none (Nat.le_of_not_lt hge)] at h
  cases h

/-- Operations on two lists that give the same in every place where both have an element. -/
theorem exists_mapM_eq_ok_of_zip {α β γ : Type} {f : α → Checked γ} {g : β → Checked γ}
    {xs : List α} {ys : List β} (h : ∀ pair ∈ xs.zip ys, ∃ z, f pair.1 = .ok z ∧ g pair.2 = .ok z)
    (hlength : xs.length = ys.length) : ∃ zs, xs.mapM f = .ok zs ∧ ys.mapM g = .ok zs := by
  induction xs generalizing ys with
  | nil =>
    obtain rfl := List.length_eq_zero_iff.1 hlength.symm
    exact ⟨[], rfl, rfl⟩
  | cons x xs ih =>
    cases ys with
    | nil => cases hlength
    | cons y ys =>
      rw [List.zip_cons_cons, List.forall_mem_cons] at h
      obtain ⟨⟨z, hx, hy⟩, h⟩ := h
      obtain ⟨zs, hxs, hys⟩ := ih h (Nat.succ.inj hlength)
      simp only [mapM_eq_ok_iff] at hxs hys ⊢
      exact ⟨z :: zs, .cons hx hxs, .cons hy hys⟩

end Checked

namespace Segment

variable {ε : Type} {s s' : Segment} {ops : KeyOps ε} {offset other capacity : Nat}

/-! ### Reading slots -/

theorem isOccupied_eq_ok_iff {occupied : Bool} : s.isOccupied offset = .ok occupied ↔
    ∃ link, s.link offset = .ok link ∧ (link != .vacant) = occupied := by
  rw [isOccupied]
  cases s.link offset <;> simp

theorem isOccupied_of_link {link : Link} (h : s.link offset = .ok link) (hlink : link ≠ .vacant) :
    s.isOccupied offset = .ok true :=
  isOccupied_eq_ok_iff.2 ⟨link, h, bne_iff_ne.2 hlink⟩

/-- A slot is as occupied as its link says. -/
theorem isOccupied_congr (h : s'.link offset = s.link offset) :
    s'.isOccupied offset = s.isOccupied offset := by
  rw [isOccupied, isOccupied, h]

theorem lt_size_of_isOccupied {occupied : Bool} (h : s.isOccupied offset = .ok occupied) :
    offset < s.links.size := by
  obtain ⟨link, hlink, -⟩ := isOccupied_eq_ok_iff.1 h
  exact Checked.lt_size_of_entry_eq_ok hlink

/-- A slot is not both vacant and occupied. -/
theorem ne_of_isOccupied (h : s.isOccupied other = .ok true)
    (hvacant : s.isOccupied offset = .ok false) : other ≠ offset := by
  rintro rfl
  cases h.symm.trans hvacant

section Written

variable (keys : Block) (hash : UInt32)

theorem link_written_self (h : offset < s.links.size) :
    (s.written keys offset hash).link offset = .ok .nil :=
  Checked.entry_setIfInBounds_self _ h

theorem link_written_of_ne (h : other ≠ offset) :
    (s.written keys offset hash).link other = s.link other :=
  Checked.entry_setIfInBounds_of_ne _ h

theorem hashAt_written_self (h : offset < s.hashes.size) :
    (s.written keys offset hash).hashAt offset = .ok hash :=
  Checked.entry_setIfInBounds_self hash h

theorem hashAt_written_of_ne (h : other ≠ offset) :
    (s.written keys offset hash).hashAt other = s.hashAt other :=
  Checked.entry_setIfInBounds_of_ne hash h

theorem isOccupied_written_self (h : offset < s.links.size) :
    (s.written keys offset hash).isOccupied offset = .ok true :=
  isOccupied_of_link (link_written_self keys hash h) nofun

theorem isOccupied_written_of_ne (h : other ≠ offset) :
    (s.written keys offset hash).isOccupied other = s.isOccupied other :=
  isOccupied_congr (link_written_of_ne keys hash h)

/-- The last slot on record stays the greatest of those that were written. -/
theorem isGreatest_written {slots : Set Nat} (hnone : s.maxOccupied = none → slots = ∅)
    (hsome : ∀ last, s.maxOccupied = some last → IsGreatest slots last) {last : Nat}
    (h : (s.written keys offset hash).maxOccupied = some last) :
    IsGreatest (Insert.insert offset slots) last := by
  obtain rfl := Option.some.inj h
  cases hmax : s.maxOccupied with
  | none =>
    rw [hnone hmax, insert_empty_eq]
    exact isGreatest_singleton
  | some last =>
    rw [Option.elim_some, max_comm]
    exact (hsome last hmax).insert offset

end Written

theorem link_pointed_self {link : Link} (h : offset < s.links.size) :
    (s.pointed offset link).link offset = .ok link :=
  Checked.entry_setIfInBounds_self link h

theorem link_pointed_of_ne {link : Link} (h : other ≠ offset) :
    (s.pointed offset link).link other = s.link other :=
  Checked.entry_setIfInBounds_of_ne link h

/-- Pointing an occupied slot elsewhere leaves all slots as occupied as they are. -/
theorem isOccupied_pointed {link : Link} (hoccupied : s.isOccupied offset = .ok true)
    (hlink : link ≠ .vacant) (other : Nat) :
    (s.pointed offset link).isOccupied other = s.isOccupied other := by
  by_cases hne : other = offset
  · rw [hne, hoccupied,
      isOccupied_of_link (link_pointed_self (lt_size_of_isOccupied hoccupied)) hlink]
  · exact isOccupied_congr (link_pointed_of_ne hne)

/-! ### Calls -/

/-- Do what is called for. -/
def call (s : Segment) (ops : KeyOps ε) : SegmentCall → Checked (Segment × Except ε Unit)
  | .insert input row offset hash => s.insert ops input row offset hash
  | .setLink offset link => do return (← s.setLink offset link, .ok ())

/-- Keys are stored in vacant slots, and occupied slots end their chain or point at others. -/
def Admits (s : Segment) : SegmentCall → Prop
  | .insert _ _ offset _ => s.isOccupied offset = .ok false
  | .setLink offset link => s.isOccupied offset = .ok true ∧ link ≠ .vacant

/-- Calls with their answers, in the order they were made. -/
abbrev Log (ε : Type) := List (SegmentCall × Except ε Unit)

/-- What admitted calls made of a segment, which are logged. -/
inductive History (ops : KeyOps ε) (start : Segment) : Log ε → Segment → Prop
  | start : History ops start [] start
  | step {log : Log ε} {s s' : Segment} {call : SegmentCall} {answer : Except ε Unit} :
    History ops start log s → s.Admits call → s.call ops call = .ok (s', answer) →
    History ops start (log ++ [(call, answer)]) s'

/-- A call before all others. -/
theorem History.cons {start s₁ : Segment} {log : Log ε} {call : SegmentCall}
    {answer : Except ε Unit} (hadmits : start.Admits call)
    (hcall : start.call ops call = .ok (s₁, answer)) (h : History ops s₁ log s) :
    History ops start ((call, answer) :: log) s := by
  induction h with
  | start => exact .step .start hadmits hcall
  | step _ hadmits' hcall' ih => exact .step ih hadmits' hcall'

/-- What an admitted call does to a segment. -/
inductive Step (ops : KeyOps ε) (s : Segment) : SegmentCall × Except ε Unit → Segment → Prop
  | stored {input : Block} {row offset : Nat} {hash : UInt32} {keys : Block} :
    s.isOccupied offset = .ok false → ops.store input row s.keys offset = .ok (keys, .ok ()) →
    Step ops s (.insert input row offset hash, .ok ()) (s.written keys offset hash)
  | refused {input : Block} {row offset : Nat} {hash : UInt32} {keys : Block} {cause : ε} :
    s.isOccupied offset = .ok false → ops.store input row s.keys offset = .ok (keys, .error cause) →
    Step ops s (.insert input row offset hash, .error cause) (s.rekeyed keys)
  | pointed {offset : Nat} {link : Link} : s.isOccupied offset = .ok true → link ≠ .vacant →
    Step ops s (.setLink offset link, .ok ()) (s.pointed offset link)

/-- An admitted call is abandoned only if storing a key is. -/
theorem step_or_store_eq_error (ops : KeyOps ε) (hsize : s.hashes.size = s.links.size)
    {call : SegmentCall} (hadmits : s.Admits call) :
    (∃ s' answer, s.call ops call = .ok (s', answer) ∧ Step ops s (call, answer) s') ∨
    ∃ input row offset hash trap, call = .insert input row offset hash ∧
      ops.store input row s.keys offset = .error trap ∧ s.call ops call = .error trap := by
  cases call with
  | insert input row offset hash =>
    have hlt := lt_size_of_isOccupied hadmits
    obtain ⟨trap, hstore, hcall⟩ | ⟨keys, cause, hstore, hcall⟩ | ⟨keys, hstore, hcall⟩ :=
      insert_eq ops input row hash hlt (hsize ▸ hlt)
    · exact .inr ⟨input, row, offset, hash, trap, rfl, hstore, hcall⟩
    · exact .inl ⟨_, _, hcall, .refused hadmits hstore⟩
    · exact .inl ⟨_, _, hcall, .stored hadmits hstore⟩
  | setLink offset link =>
    refine .inl ⟨s.pointed offset link, .ok (), ?_, .pointed hadmits.1 hadmits.2⟩
    rw [call, setLink, if_pos (lt_size_of_isOccupied hadmits.1)]
    rfl

theorem step_of_call_eq_ok (hsize : s.hashes.size = s.links.size) {call : SegmentCall}
    {answer : Except ε Unit} (hadmits : s.Admits call)
    (hcall : s.call ops call = .ok (s', answer)) : Step ops s (call, answer) s' := by
  obtain ⟨_, _, hok, hstep⟩ | ⟨_, _, _, _, _, -, -, herror⟩ :=
    step_or_store_eq_error ops hsize hadmits
  · obtain ⟨rfl, rfl⟩ := Prod.mk.inj (Except.ok.inj (hok.symm.trans hcall))
    exact hstep
  · cases herror.symm.trans hcall

/-- A key that is refused leaves a segment with other keys in its columns. -/
theorem eq_rekeyed_of_insert {input : Block} {row : Nat} {hash : UInt32} {cause : ε}
    (h : s.insert ops input row offset hash = .ok (s', .error cause)) :
    ∃ keys, ops.store input row s.keys offset = .ok (keys, .error cause) ∧ s' = s.rekeyed keys := by
  rw [insert] at h
  obtain ⟨⟨keys, result⟩, hstore, h⟩ := exists_of_bind_eq_ok h
  cases result with
  | error cause' =>
    obtain ⟨rfl, hcause⟩ := Prod.mk.inj (Except.ok.inj h)
    obtain rfl := Except.error.inj hcause
    exact ⟨keys, hstore, rfl⟩
  | ok =>
    simp only at h
    split_ifs at h
    cases h

/-! ### What is on the log -/

/-- The slots in which a key was stored. -/
def stored (log : Log ε) : Set Nat :=
  {offset | ∃ input row hash, (.insert input row offset hash, .ok ()) ∈ log}

/-- Where a call points a slot. -/
def linkSet (offset : Nat) : SegmentCall × Except ε Unit → Option Link
  | (.insert .., _) => none
  | (.setLink other link, _) => if other = offset then some link else none

/-- Where calls leave a slot that ended its chain: where it was pointed last. -/
def lastLink (offset : Nat) (log : Log ε) : Link := (log.filterMap (linkSet offset)).getLastD .nil

variable {log : Log ε} {entry : SegmentCall × Except ε Unit}

theorem mem_stored_concat : offset ∈ stored (log ++ [entry]) ↔
    offset ∈ stored log ∨ ∃ input row hash, entry = (.insert input row offset hash, .ok ()) := by
  simp only [stored, Set.mem_ofPred_eq, List.mem_append, List.mem_singleton, exists_or, eq_comm]

theorem stored_concat_insert (log : Log ε) (input : Block) (row offset : Nat) (hash : UInt32) :
    stored (log ++ [(.insert input row offset hash, .ok ())]) =
      Insert.insert offset (stored log) := by
  ext other
  rw [mem_stored_concat, Set.mem_insert_iff, or_comm]
  simp [eq_comm]

/-- Other calls store no key. -/
theorem stored_concat_of_ne
    (h : ∀ input row offset hash, entry ≠ (.insert input row offset hash, .ok ())) :
    stored (log ++ [entry]) = stored log := by
  ext offset
  rw [mem_stored_concat]
  exact or_iff_left fun ⟨input, row, hash, heq⟩ ↦ h input row offset hash heq

theorem lastLink_concat (offset : Nat) (log : Log ε) (entry : SegmentCall × Except ε Unit) :
    lastLink offset (log ++ [entry]) = (linkSet offset entry).getD (lastLink offset log) := by
  rw [lastLink, lastLink, List.filterMap_append]
  cases h : linkSet offset entry <;> simp [h]

/-- An entry of a log that grew is the new one, or one that more follows now. -/
theorem split_concat {before after : Log ε} {e : SegmentCall × Except ε Unit}
    (h : log ++ [entry] = before ++ e :: after) : (e = entry ∧ after = []) ∨
      ∃ after', log = before ++ e :: after' ∧ after = after' ++ [entry] := by
  rcases List.eq_nil_or_concat after with rfl | ⟨after', last, rfl⟩
  · obtain ⟨-, heq⟩ := List.append_inj' h rfl
    exact .inl ⟨(List.singleton_inj.1 heq).symm, rfl⟩
  · rw [List.concat_eq_append, ← List.cons_append, ← List.append_assoc] at h
    obtain ⟨hlog, hlast⟩ := List.append_inj' h rfl
    exact .inr ⟨after', hlog, by rw [List.concat_eq_append, hlast]⟩

/-! ### What a segment records -/

/-- A segment with as many slots that records what is on a log. -/
structure Recorded (capacity : Nat) (log : Log ε) (s : Segment) : Prop where
  size_links : s.links.size = capacity
  size_hashes : s.hashes.size = capacity
  /-- The slots in which a key was stored are occupied, and no others. -/
  isOccupied_iff : ∀ offset, s.isOccupied offset = .ok true ↔ offset ∈ stored log
  exists_isOccupied : ∀ offset < capacity, ∃ occupied, s.isOccupied offset = .ok occupied
  /-- The last of them is on record. -/
  isGreatest : ∀ last, s.maxOccupied = some last → IsGreatest (stored log) last
  stored_eq_empty : s.maxOccupied = none → stored log = ∅
  /-- A slot has the hash its key was stored with, and ends its chain until it is pointed
  elsewhere. -/
  slot_eq : ∀ before input row offset hash after,
    log = before ++ (.insert input row offset hash, .ok ()) :: after →
      s.hashAt offset = .ok hash ∧ s.link offset = .ok (lastLink offset after)

namespace Recorded

theorem hashAt_eq (h : Recorded capacity log s) {input : Block} {row : Nat} {hash : UInt32}
    (hmem : (.insert input row offset hash, .ok ()) ∈ log) : s.hashAt offset = .ok hash := by
  obtain ⟨before, after, hlog⟩ := List.append_of_mem hmem
  exact (h.slot_eq before input row offset hash after hlog).1

/-- No slot behind the one on record is occupied. -/
theorem le_maxOccupied (h : Recorded capacity log s) (hoccupied : s.isOccupied offset = .ok true) :
    ∃ last, s.maxOccupied = some last ∧ offset ≤ last := by
  have hstored := (h.isOccupied_iff offset).1 hoccupied
  cases hmax : s.maxOccupied with
  | none =>
    rw [h.stored_eq_empty hmax] at hstored
    cases hstored
  | some last => exact ⟨last, rfl, (h.isGreatest last hmax).2 hstored⟩

/-- Nothing is on record of a new segment. -/
theorem ofTypes (types : List DataType) (capacity bytes : Nat) :
    Recorded capacity ([] : Log ε) (ofTypes types capacity bytes) := by
  have hstored : stored ([] : Log ε) = ∅ := by
    refine Set.eq_empty_of_forall_notMem fun offset hoffset ↦ ?_
    obtain ⟨_, _, _, hmem⟩ := hoffset
    cases hmem
  have hvacant {offset : Nat} (hoffset : offset < capacity) :
      (Segment.ofTypes types capacity bytes).isOccupied offset = .ok false := by
    simp [isOccupied, link, Segment.ofTypes, Checked.entry, hoffset]
  exact {
    size_links := Array.size_replicate
    size_hashes := Array.size_replicate
    isOccupied_iff := by
      intro offset
      rw [hstored, iff_false_right (Set.notMem_empty offset)]
      intro hoccupied
      have hoffset : offset < capacity :=
        Nat.lt_of_lt_of_eq (lt_size_of_isOccupied hoccupied) Array.size_replicate
      cases hoccupied.symm.trans (hvacant hoffset)
    exists_isOccupied := fun offset hoffset ↦ ⟨false, hvacant hoffset⟩
    isGreatest := by
      intro last hlast
      cases hlast
    stored_eq_empty := fun _ ↦ hstored
    slot_eq := by
      intro before _ _ _ _ _ hlog
      cases before <;> cases hlog }

/-- A key that is stored adds its slot to those that are occupied. -/
theorem written (h : Recorded capacity log s) (hvacant : s.isOccupied offset = .ok false)
    (keys input : Block) (row : Nat) (hash : UInt32) :
    Recorded capacity (log ++ [(.insert input row offset hash, .ok ())])
      (s.written keys offset hash) := by
  have hlinks : offset < s.links.size := lt_size_of_isOccupied hvacant
  have hhashes : offset < s.hashes.size := by
    rwa [h.size_hashes, ← h.size_links]
  exact {
    size_links := Array.size_setIfInBounds.trans h.size_links
    size_hashes := Array.size_setIfInBounds.trans h.size_hashes
    isOccupied_iff := by
      intro other
      rw [stored_concat_insert, Set.mem_insert_iff]
      by_cases hne : other = offset
      · rw [hne]
        exact iff_of_true (isOccupied_written_self keys hash hlinks) (.inl rfl)
      · rw [isOccupied_written_of_ne keys hash hne, h.isOccupied_iff, or_iff_right hne]
    exists_isOccupied := by
      intro other hother
      by_cases hne : other = offset
      · rw [hne]
        exact ⟨true, isOccupied_written_self keys hash hlinks⟩
      · rw [isOccupied_written_of_ne keys hash hne]
        exact h.exists_isOccupied other hother
    isGreatest := by
      intro last hlast
      rw [stored_concat_insert]
      exact isGreatest_written keys hash h.stored_eq_empty h.isGreatest hlast
    stored_eq_empty := nofun
    slot_eq := by
      intro before input' row' other hash' after hlog
      rcases split_concat hlog with ⟨heq, rfl⟩ | ⟨after', rfl, rfl⟩
      · cases heq
        exact ⟨hashAt_written_self keys hash hhashes, link_written_self keys hash hlinks⟩
      · -- the slot of an earlier key was not vacant
        have hother : s.isOccupied other = .ok true :=
          (h.isOccupied_iff other).2 ⟨input', row', hash', by simp⟩
        have hne := ne_of_isOccupied hother hvacant
        rw [hashAt_written_of_ne keys hash hne, link_written_of_ne keys hash hne, lastLink_concat]
        exact h.slot_eq before input' row' other hash' after' rfl }

/-- A key that is refused changes nothing but the keys in the columns. -/
theorem rekeyed (h : Recorded capacity log s) (keys input : Block) (row offset : Nat)
    (hash : UInt32) (cause : ε) :
    Recorded capacity (log ++ [(.insert input row offset hash, .error cause)])
      (s.rekeyed keys) := by
  have hstored : stored (log ++ [(.insert input row offset hash, .error cause)]) = stored log :=
    stored_concat_of_ne nofun
  exact {
    size_links := h.size_links
    size_hashes := h.size_hashes
    isOccupied_iff := hstored ▸ h.isOccupied_iff
    exists_isOccupied := h.exists_isOccupied
    isGreatest := hstored ▸ h.isGreatest
    stored_eq_empty := hstored ▸ h.stored_eq_empty
    slot_eq := by
      intro before _ _ _ _ after hlog
      rcases split_concat hlog with ⟨heq, -⟩ | ⟨after', rfl, rfl⟩
      · cases heq
      · rw [lastLink_concat]
        exact h.slot_eq before _ _ _ _ after' rfl }

/-- A slot that is pointed elsewhere stays occupied. -/
theorem pointed (h : Recorded capacity log s) (hoccupied : s.isOccupied offset = .ok true)
    {link : Link} (hlink : link ≠ .vacant) :
    Recorded capacity (log ++ [(.setLink offset link, .ok ())]) (s.pointed offset link) := by
  have hstored : stored (log ++ [((.setLink offset link, .ok ()) : SegmentCall × Except ε Unit)]) =
      stored log := stored_concat_of_ne nofun
  have hisOccupied := isOccupied_pointed hoccupied hlink
  exact {
    size_links := Array.size_setIfInBounds.trans h.size_links
    size_hashes := h.size_hashes
    isOccupied_iff := by
      intro other
      rw [hisOccupied, hstored, h.isOccupied_iff]
    exists_isOccupied := by
      intro other hother
      rw [hisOccupied]
      exact h.exists_isOccupied other hother
    isGreatest := hstored ▸ h.isGreatest
    stored_eq_empty := hstored ▸ h.stored_eq_empty
    slot_eq := by
      intro before _ _ other _ after hlog
      rcases split_concat hlog with ⟨heq, -⟩ | ⟨after', rfl, rfl⟩
      · cases heq
      · obtain ⟨hhash, hbefore⟩ := h.slot_eq before _ _ other _ after' rfl
        refine ⟨hhash, ?_⟩
        rw [lastLink_concat, linkSet]
        by_cases hne : other = offset
        · rw [if_pos hne.symm, Option.getD_some, hne,
            link_pointed_self (lt_size_of_isOccupied hoccupied)]
        · rw [if_neg (Ne.symm hne), Option.getD_none, link_pointed_of_ne hne, hbefore] }

theorem step (h : Recorded capacity log s) (hstep : Step ops s entry s') :
    Recorded capacity (log ++ [entry]) s' := by
  cases hstep with
  | stored hvacant _ => exact h.written hvacant _ _ _ _
  | refused => exact h.rekeyed _ _ _ _ _ _
  | pointed hoccupied hlink => exact h.pointed hoccupied hlink

end Recorded

theorem hash?_eq_some_iff {hash : UInt32} :
    s.hash? offset = some hash ↔ s.isOccupied offset = .ok true ∧ s.hashAt offset = .ok hash := by
  have hentry {α : Type} (xs : Array α) (x : α) :
      Checked.entry xs offset = .ok x ↔ xs[offset]? = some x := by
    rw [Checked.entry]
    cases xs[offset]? <;> simp
  simp only [hash?, Option.bind_eq_some_iff, Prod.exists, slot?_eq_some_iff, isOccupied_eq_ok_iff,
    link, hashAt, hentry, bne_iff_ne]
  constructor
  · rintro ⟨link, hash', ⟨hlink, hhash⟩, h⟩
    split_ifs at h with hvacant
    obtain rfl := Option.some.inj h
    exact ⟨⟨link, hlink, hvacant⟩, hhash⟩
  · rintro ⟨⟨link, hlink, hvacant⟩, hhash⟩
    exact ⟨link, hash, ⟨hlink, hhash⟩, if_neg hvacant⟩

/-- The hashes up to the last slot on record are those of all keys. -/
theorem Recorded.mem_occupied_iff (h : Recorded capacity log s) {hash : UInt32} :
    (offset, hash) ∈ s.occupied ↔
      ∃ input row, (.insert input row offset hash, .ok ()) ∈ log := by
  have hlast (other : Nat) (hother : s.hash? other ≠ none) :
      ∃ last, s.maxOccupied = some last ∧ other ≤ last := by
    obtain ⟨hash', hhash'⟩ := Option.ne_none_iff_exists'.1 hother
    exact h.le_maxOccupied (hash?_eq_some_iff.1 hhash').1
  have hmem : (offset, hash) ∈ s.occupied ↔ s.hash? offset = some hash := by
    rw [occupied_eq hlast, List.mem_filterMap]
    simp only [List.mem_range, Option.map_eq_some_iff, Prod.mk.injEq]
    constructor
    · rintro ⟨_, -, _, hhash, rfl, rfl⟩
      exact hhash
    · intro hhash
      exact ⟨offset, lt_size_of_isOccupied (hash?_eq_some_iff.1 hhash).1, hash, hhash, rfl, rfl⟩
  rw [hmem, hash?_eq_some_iff, h.isOccupied_iff]
  constructor
  · rintro ⟨⟨input, row, hash', hstored⟩, hhash⟩
    obtain rfl := Except.ok.inj (hhash.symm.trans (h.hashAt_eq hstored))
    exact ⟨input, row, hstored⟩
  · rintro ⟨input, row, hstored⟩
    exact ⟨⟨input, row, hash, hstored⟩, h.hashAt_eq hstored⟩

end Segment

/-! ### Keys in columns -/

namespace ColumnKeys

variable {k : ColumnKeys} {types : List DataType} {capacity offset row sourceRow slot : Nat}
  {input : Block} {indexes : List Nat} {columns columns' targets targets' : List Column}
  {sources : List (Checked Column)}

/-- The columns have in a slot, value by value, the key in a row of an input. -/
def Matches (indexes : List Nat) (input : Block) (row : Nat) (columns : List Column) (slot : Nat) :
    Prop :=
  ∀ pair ∈ indexes.zip columns, ∃ value,
    input.cell pair.1 row = .ok value ∧ pair.2.get slot = .ok value

/-- If there is a column for every value, the slot reads as the key. -/
theorem Matches.exists_row (h : Matches indexes input row columns slot)
    (hlength : indexes.length = columns.length) :
    ∃ key : Row, keyAt indexes input row = .ok key ∧ columns.mapM (·.get slot) = .ok key :=
  Checked.exists_mapM_eq_ok_of_zip h hlength

/-- Columns that read the same in a slot have the same key there. -/
theorem Matches.congr (h : Matches indexes input row columns slot)
    (hget : List.Forall₂ (fun c c' ↦ c'.get slot = c.get slot) columns columns') :
    Matches indexes input row columns' slot := by
  induction hget generalizing indexes with
  | nil => exact h
  | cons hc _ ih =>
    cases indexes with
    | nil => nofun
    | cons index indexes =>
      rw [Matches, List.zip_cons_cons, List.forall_mem_cons] at h ⊢
      exact ⟨hc ▸ h.1, ih h.2⟩

/-- What was copied is the same in the columns and in their sources. -/
theorem Copied.get_eq (h : Copied row sourceRow targets sources targets' (.ok ()))
    (haligned : ∀ c ∈ targets, c.Aligned) : ∀ pair ∈ sources.zip targets', ∃ source value,
      pair.1 = .ok source ∧ source.get sourceRow = .ok value ∧ pair.2.get row = .ok value := by
  generalize hok : (Except.ok () : Except ColumnError Unit) = result at h
  induction h with
  | done | narrow => simp
  | wrongSource | refused => cases hok
  | @copied target source _ _ _ value _ _ hget hrefusal _ ih =>
    rw [List.zip_cons_cons, List.forall_mem_cons]
    have hread := (haligned target List.mem_cons_self).get_put hrefusal row
    rw [if_pos rfl] at hread
    exact ⟨⟨source, value, rfl, hget, hread⟩,
      ih (fun c hc ↦ haligned c (List.mem_cons_of_mem _ hc)) hok⟩

/-- A key that was stored is in its slot. -/
theorem matches_of_store {keys keys' : Block}
    (h : store indexes input row keys slot = .ok (keys', .ok ()))
    (haligned : ∀ c ∈ keys.columns, c.Aligned) :
    Matches indexes input row keys'.columns slot := by
  obtain ⟨copied, hcopied, hresult⟩ := copied_of_store h
  obtain rfl := eq_ok_of_mapError_eq_ok hresult.symm
  intro pair hpair
  have hzip : (input.column pair.1, pair.2) ∈ (indexes.map input.column).zip keys'.columns := by
    rw [List.zip_map_left]
    exact List.mem_map_of_mem (f := Prod.map input.column id) hpair
  obtain ⟨source, value, hsource, hget, hread⟩ := hcopied.get_eq haligned _ hzip
  refine ⟨value, ?_, hread⟩
  rw [Block.cell, show input.column pair.1 = .ok source from hsource]
  exact hget

/-- A segment whose slots have the keys that were stored in them. -/
structure Retains (k : ColumnKeys) (types : List DataType) (capacity : Nat)
    (log : Segment.Log KeyError) (s : Segment) : Prop where
  rectangle : Column.Rectangle types capacity s.keys.columns
  held : ∀ input row offset hash, (.insert input row offset hash, .ok ()) ∈ log →
    Matches k.build input row s.keys.columns offset

namespace Retains

variable {log : Segment.Log KeyError} {entry : SegmentCall × Except KeyError Unit} {s s' : Segment}

theorem ofTypes (k : ColumnKeys) (types : List DataType) (capacity bytes : Nat) :
    k.Retains types capacity [] (.ofTypes types capacity bytes) where
  rectangle := KeyTable.rectangle_ofTypes types capacity bytes
  held := nofun

/-- Rewriting a vacant slot leaves the keys in the others. -/
theorem held_rewritten (h : k.Retains types capacity log s) (hrecorded : s.Recorded capacity log)
    (hvacant : s.isOccupied offset = .ok false)
    (hrewritten : List.Forall₂ (Column.RewrittenAt offset) s.keys.columns columns) :
    ∀ input row other hash, (.insert input row other hash, .ok ()) ∈ log →
      Matches k.build input row columns other := by
  intro input row other hash hmem
  have hoccupied : s.isOccupied other = .ok true :=
    (hrecorded.isOccupied_iff other).2 ⟨input, row, hash, hmem⟩
  have hne := Segment.ne_of_isOccupied hoccupied hvacant
  exact (h.held input row other hash hmem).congr (hrewritten.imp fun _ _ hc ↦ hc.get_eq other hne)

theorem step (h : k.Retains types capacity log s) (hrecorded : s.Recorded capacity log)
    (hstep : s.Step k.ops entry s') : k.Retains types capacity (log ++ [entry]) s' := by
  cases hstep with
  | stored hvacant hstore =>
    have hrewritten := rewritten_of_store hstore h.rectangle.aligned
    refine ⟨h.rectangle.rewritten hrewritten, fun input row other hash hmem ↦ ?_⟩
    rcases List.mem_append.1 hmem with hmem | hmem
    · exact h.held_rewritten hrecorded hvacant hrewritten input row other hash hmem
    · cases List.mem_singleton.1 hmem
      exact matches_of_store hstore h.rectangle.aligned
  | refused hvacant hstore =>
    have hrewritten := rewritten_of_store hstore h.rectangle.aligned
    refine ⟨h.rectangle.rewritten hrewritten, fun input row other hash hmem ↦ ?_⟩
    rcases List.mem_append.1 hmem with hmem | hmem
    · exact h.held_rewritten hrecorded hvacant hrewritten input row other hash hmem
    · cases List.mem_singleton.1 hmem
  | pointed =>
    refine ⟨h.rectangle, fun input row other hash hmem ↦ ?_⟩
    rcases List.mem_append.1 hmem with hmem | hmem
    · exact h.held input row other hash hmem
    · cases List.mem_singleton.1 hmem

end Retains

end ColumnKeys

namespace Segment

variable {ε : Type}

/-! ### After any calls -/

theorem History.recorded {ops : KeyOps ε} {types : List DataType} {capacity bytes : Nat}
    {log : Log ε} {s : Segment} (h : History ops (ofTypes types capacity bytes) log s) :
    Recorded capacity log s := by
  induction h with
  | start => exact .ofTypes types capacity bytes
  | step _ hadmits hcall ih =>
    exact ih.step (step_of_call_eq_ok (ih.size_hashes.trans ih.size_links.symm) hadmits hcall)

theorem History.retains {k : ColumnKeys} {types : List DataType} {capacity bytes : Nat}
    {log : Log KeyError} {s : Segment} (h : History k.ops (ofTypes types capacity bytes) log s) :
    k.Retains types capacity log s := by
  induction h with
  | start => exact .ofTypes k types capacity bytes
  | step hhistory hadmits hcall ih =>
    have hrecorded := hhistory.recorded
    have hsize := hrecorded.size_hashes.trans hrecorded.size_links.symm
    exact ih.step hrecorded (step_of_call_eq_ok hsize hadmits hcall)

/-- What can be told of a segment from its log, for any operations on keys. -/
structure Traced (ops : KeyOps ε) (capacity : Nat) (log : Log ε) (s : Segment) : Prop
    extends Recorded capacity log s where
  /-- No slot behind the last one on record is occupied. -/
  le_maxOccupied : ∀ offset, s.isOccupied offset = .ok true →
    ∃ last, s.maxOccupied = some last ∧ offset ≤ last
  /-- The hashes up to the last slot on record are those of all keys. -/
  mem_occupied_iff : ∀ offset hash, (offset, hash) ∈ s.occupied ↔
    ∃ input row, (.insert input row offset hash, .ok ()) ∈ log
  /-- A key that is refused changes nothing but the keys in the columns. -/
  eq_of_refused : ∀ input row offset hash s' cause,
    s.insert ops input row offset hash = .ok (s', .error cause) →
      s'.links = s.links ∧ s'.hashes = s.hashes ∧ s'.maxOccupied = s.maxOccupied
  /-- An admitted call is abandoned only if storing a key is. -/
  store_eq_error : ∀ call trap, s.Admits call → s.call ops call = .error trap →
    ∃ input row offset hash, call = .insert input row offset hash ∧
      ops.store input row s.keys offset = .error trap

/-- What can be told of the keys in a segment from its log, if they are read from columns. -/
structure KeysTraced (k : ColumnKeys) (types : List DataType) (log : Log KeyError) (s : Segment) :
    Prop where
  /-- A slot has the values its key was stored with. -/
  held : ∀ input row offset hash, (.insert input row offset hash, .ok ()) ∈ log →
    ColumnKeys.Matches k.build input row s.keys.columns offset
  /-- If there is a column for every value, it reads as the key. -/
  row_eq : k.build.length = types.length → ∀ input row offset hash,
    (.insert input row offset hash, .ok ()) ∈ log →
      ∃ key, ColumnKeys.keyAt k.build input row = .ok key ∧ s.keys.row offset = .ok key
  /-- A key that is refused leaves the keys in the occupied slots. -/
  cell_of_refused : ∀ input row offset hash s' cause, s.isOccupied offset = .ok false →
    s.insert k.ops input row offset hash = .ok (s', .error cause) →
      ∀ other, s.isOccupied other = .ok true → ∀ column,
        s'.keys.cell column other = s.keys.cell column other

theorem Recorded.traced (ops : KeyOps ε) {capacity : Nat} {log : Log ε} {s : Segment}
    (h : Recorded capacity log s) : Traced ops capacity log s where
  toRecorded := h
  le_maxOccupied _ := h.le_maxOccupied
  mem_occupied_iff _ _ := h.mem_occupied_iff
  eq_of_refused input row offset hash s' cause hinsert := by
    obtain ⟨keys, -, rfl⟩ := eq_rekeyed_of_insert hinsert
    exact ⟨rfl, rfl, rfl⟩
  store_eq_error call trap hadmits hcall := by
    have hsize := h.size_hashes.trans h.size_links.symm
    obtain ⟨_, _, hok, -⟩ | ⟨input, row, offset, hash, trap', hinsert, hstore, herror⟩ :=
      step_or_store_eq_error ops hsize hadmits
    · cases hok.symm.trans hcall
    · obtain rfl := Except.error.inj (herror.symm.trans hcall)
      exact ⟨input, row, offset, hash, hinsert, hstore⟩

theorem KeysTraced.of_retains {k : ColumnKeys} {types : List DataType} {capacity : Nat}
    {log : Log KeyError} {s : Segment} (h : k.Retains types capacity log s) :
    KeysTraced k types log s where
  held := h.held
  row_eq hlength input row offset hash hmem :=
    (h.held input row offset hash hmem).exists_row
      (hlength.trans h.rectangle.length_eq.symm)
  cell_of_refused input row offset hash s' cause hvacant hinsert other hother column := by
    obtain ⟨keys, hstore, rfl⟩ := eq_rekeyed_of_insert hinsert
    have hrewritten := ColumnKeys.rewritten_of_store hstore h.rectangle.aligned
    have hne := ne_of_isOccupied hother hvacant
    exact Block.cell_congr (hrewritten.imp fun _ _ hc ↦ hc.get_eq other hne) column

/-- Whatever keys were stored in the vacant slots of a segment, in any order and some in vain, and
wherever its occupied slots were pointed, all that can be read of it can be told from the log. -/
theorem traced_of_history (types : List DataType) (capacity bytes : Nat) :
    (∀ {ε : Type} (ops : KeyOps ε) log s, History ops (ofTypes types capacity bytes) log s →
      Traced ops capacity log s) ∧
    ∀ (k : ColumnKeys) log s, History k.ops (ofTypes types capacity bytes) log s →
      KeysTraced k types log s :=
  ⟨fun ops _ _ h ↦ h.recorded.traced ops, fun _ _ _ h ↦ .of_retains h.retains⟩

/-- Keys of an integer and a text. -/
def lettered : ColumnKeys := ⟨[0, 1], [0, 1], .equal, Scalar.digest⟩

/-- Rows of an integer and a text. -/
def letters : Block :=
  ⟨[.int32 (.ofList [some 1, some 2, none]),
    .text (((TextColumn.nulls 3).put 0 (some "ab")).put 1 (some "cdefg"))], 3⟩

/-- Keys are stored out of order, one is refused after its integer was written, and a slot is
pointed elsewhere twice. -/
def letterLog : Log KeyError :=
  [(.insert letters 0 2 42, .ok ()),
    (.insert letters 1 1 9, .error (.column (.overBudget 5 2 4))),
    (.setLink 2 (.next 8), .ok ()), (.insert letters 2 0 7, .ok ()), (.setLink 2 (.next 0), .ok ())]

theorem traced_of_history_letters :
    ∃ s, History lettered.ops (ofTypes [.integer, .varchar] 4 1) letterLog s ∧
      s.isOccupied 1 = .ok false ∧ s.maxOccupied = some 2 ∧ IsGreatest (stored letterLog) 2 ∧
      s.link 2 = .ok (.next 0) ∧ s.hashAt 0 = .ok 7 ∧
      s.keys.row 2 = .ok [some (.int32 1), some (.text "ab")] := by
  obtain ⟨s, hhistory, hvacant, hmax⟩ :
      ∃ s, History lettered.ops (ofTypes [.integer, .varchar] 4 1) letterLog s ∧
        s.isOccupied 1 = .ok false ∧ s.maxOccupied = some 2 :=
    ⟨_, .cons rfl rfl (.cons rfl rfl (.cons (And.intro rfl nofun) rfl (.cons rfl rfl
      (.cons (And.intro rfl nofun) rfl .start)))), rfl, rfl⟩
  obtain ⟨hsegments, hkeys⟩ := traced_of_history [.integer, .varchar] 4 1
  have htraced := hsegments lettered.ops letterLog s hhistory
  have hkeysTraced := hkeys lettered letterLog s hhistory
  obtain ⟨key, hkey, hrow⟩ := hkeysTraced.row_eq rfl letters 0 2 42 List.mem_cons_self
  have hread : ColumnKeys.keyAt lettered.build letters 0 =
      .ok [some (.int32 1), some (.text "ab")] := rfl
  obtain rfl := Except.ok.inj (hread.symm.trans hkey)
  refine ⟨s, hhistory, hvacant, hmax, htraced.isGreatest 2 hmax, ?_, ?_, hrow⟩
  · exact (htraced.slot_eq [] letters 0 2 42 _ rfl).2
  · exact (htraced.slot_eq (letterLog.take 3) letters 2 0 7 _ rfl).1

end Segment

end Columnar
