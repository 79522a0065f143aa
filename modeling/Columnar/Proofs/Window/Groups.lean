import Mathlib.Tactic.ByContra
import Mathlib.Tactic.SplitIfs

/-!
# Groups in a stream

The positions of a stream carry keys, and among the first `n` of them equal keys stand next to each
other (`Contiguous`). The keys may be those of partitions or those of peers; everything here is said
once for both.

## Cuts

A `Cut` is a place with no key on both sides. The positions with one key are a stretch between two
cuts (`groupAt_of_cut`), and a stretch of equal keys that starts at a cut ends at one as soon as it
is left (`Contiguous.cut_end`). The second fact is why **a window may stop counting at the first row
that differs**: it needs the stream to be contiguous, and is false without that.

Cuts are the notion to work with because they are seen locally and say something about the whole
stream. A window that counts a stretch in sight of some positions knows a cut behind it if it was
left, or if all positions are in sight (`cut_of_seen`).

## Groups

A position has at most one group (`GroupAt.unique`), and in a contiguous stream it has a group
(`Contiguous.exists_groupAt`). The number of groups that start in a stretch is `groupsFrom`, which a
dense rank counts row by row.
-/

namespace Columnar

variable {κ : Type} {key : Nat → κ} {n : Nat}

/-- Equal keys among the first `n` stand next to each other. -/
def Contiguous (key : Nat → κ) (n : Nat) : Prop :=
  ∀ i j k, i ≤ j → j ≤ k → k < n → key i = key k → key j = key k

/-- No key among the first `n` stands both before a place and from there on. -/
def Cut (key : Nat → κ) (n place : Nat) : Prop :=
  ∀ i k, i < place → place ≤ k → k < n → key i ≠ key k

/-- The group of a position is `size` positions from `first` on. -/
structure GroupAt (key : Nat → κ) (n position first size : Nat) : Prop where
  le_length : first + size ≤ n
  mem_iff : ∀ i < n, key i = key position ↔ first ≤ i ∧ i < first + size

theorem cut_zero (key : Nat → κ) (n : Nat) : Cut key n 0 :=
  fun i _ hi ↦ absurd hi (Nat.not_lt_zero i)

theorem cut_length (key : Nat → κ) (n : Nat) : Cut key n n :=
  fun _ _ _ hle hlt ↦ absurd hlt (Nat.not_lt_of_le hle)

/-- A cut of keys is a cut of whatever keys tell more apart. -/
theorem Cut.mono {κ' : Type} {key' : Nat → κ'} {place : Nat} (h : Cut key n place)
    (hkey : ∀ i k, k < n → key' i = key' k → key i = key k) : Cut key' n place :=
  fun i k hi hk hlt heq ↦ h i k hi hk hlt (hkey i k hlt heq)

/-- A stretch of equal keys that starts at a cut ends at one where it is left. -/
theorem Contiguous.cut_end (h : Contiguous key n) {first last : Nat} (hcut : Cut key n first)
    (hlt : first < last) (hsame : ∀ i, first ≤ i → i < last → key i = key first)
    (hend : last < n → key last ≠ key first) : Cut key n last := by
  intro i k hi hk hkn heq
  rcases Nat.lt_or_ge i first with hbefore | hin
  · exact hcut i k hbefore (Nat.le_of_lt (Nat.lt_of_lt_of_le hlt hk)) hkn heq
  · have hfirst : key first = key k := (hsame i hin hi).symm.trans heq
    have hlast : key last = key k := h first last k (Nat.le_of_lt hlt) hk hkn hfirst
    exact hend (Nat.lt_of_le_of_lt hk hkn) (hlast.trans hfirst.symm)

/-- A stretch that is counted in sight of the positions before `seen` ends at a cut if it ends
before these or if these are all. -/
theorem cut_of_seen {last seen : Nat} (hle : last ≤ seen) (hcut : last < seen → Cut key n last)
    (h : last < seen ∨ seen = n) : Cut key n last := by
  rcases Nat.lt_or_eq_of_le hle with hlt | heq
  · exact hcut hlt
  · rcases h with hlt | hall
    · exact hcut hlt
    · rw [heq, hall]
      exact cut_length key n

theorem eq_or_cut_of_seen {last seen : Nat} (hle : last ≤ seen)
    (hcut : last < seen → Cut key n last) : last = seen ∨ Cut key n last := by
  rcases Nat.lt_or_eq_of_le hle with hlt | heq
  · exact .inr (hcut hlt)
  · exact .inl heq

/-! ### The group of a position -/

/-- A stretch of equal keys between two cuts is a group. -/
theorem groupAt_of_cut {position first last : Nat} (hfirst : Cut key n first)
    (hlast : Cut key n last) (hle : first ≤ position) (hlt : position < last) (hlen : last ≤ n)
    (hsame : ∀ i, first ≤ i → i < last → key i = key position) :
    GroupAt key n position first (last - first) where
  le_length := by omega
  mem_iff i hi := by
    refine ⟨fun heq ↦ ?_, fun hin ↦ hsame i hin.1 (by omega)⟩
    by_contra hout
    rcases Nat.lt_or_ge i first with hbefore | hbehind
    · exact hfirst i position hbefore hle (by omega) heq
    · exact hlast position i hlt (by omega) hi heq.symm

namespace GroupAt

variable {position first size : Nat}

theorem mem (h : GroupAt key n position first size) (hlt : position < n) :
    first ≤ position ∧ position < first + size :=
  (h.mem_iff position hlt).1 rfl

/-- Positions with one key are in one group. -/
theorem congr (h : GroupAt key n position first size) {other : Nat}
    (hkey : key other = key position) :
    GroupAt key n other first size where
  le_length := h.le_length
  mem_iff i hi := hkey ▸ h.mem_iff i hi

/-- There is only one group of a position. -/
theorem unique (h : GroupAt key n position first size) (hlt : position < n) {first' size' : Nat}
    (h' : GroupAt key n position first' size') : first' = first ∧ size' = size := by
  have hmem := h.mem hlt
  have hmem' := h'.mem hlt
  have hiff (i : Nat) (hi : i < n) : (first ≤ i ∧ i < first + size) ↔
      first' ≤ i ∧ i < first' + size' :=
    (h.mem_iff i hi).symm.trans (h'.mem_iff i hi)
  have hlen := h.le_length
  have hlen' := h'.le_length
  -- both stretches have the same ends
  have h₁ := hiff first (by omega)
  have h₂ := hiff first' (by omega)
  have h₃ := hiff (first + size - 1) (by omega)
  have h₄ := hiff (first' + size' - 1) (by omega)
  omega

/-- The group starts at the cut behind which its key begins. -/
theorem first_eq_of_cut (h : GroupAt key n position first size) (hlt : position < n) {place : Nat}
    (hcut : Cut key n place) (hle : place ≤ position) (hkey : key place = key position) :
    first = place := by
  have hmem := h.mem hlt
  have hplace := (h.mem_iff place (by omega)).1 hkey
  refine Nat.le_antisymm hplace.1 (Nat.le_of_not_lt fun hbefore ↦ ?_)
  exact hcut first position hbefore hle hlt ((h.mem_iff first (by omega)).2 (by omega))

end GroupAt

/-- Where the group of a position starts. -/
theorem Contiguous.exists_first (h : Contiguous key n) {position : Nat} (hlt : position < n) :
    ∃ first ≤ position, Cut key n first ∧
      ∀ i, first ≤ i → i ≤ position → key i = key position := by
  induction position with
  | zero => exact ⟨0, Nat.le_refl 0, cut_zero key n, fun i _ hi ↦ by rw [Nat.le_zero.1 hi]⟩
  | succ position ih =>
    by_cases heq : key position = key (position + 1)
    · obtain ⟨first, hle, hcut, hsame⟩ := ih (Nat.lt_of_succ_lt hlt)
      refine ⟨first, Nat.le_succ_of_le hle, hcut, fun i hfirst hi ↦ ?_⟩
      rcases Nat.lt_or_eq_of_le hi with hi | rfl
      · exact (hsame i hfirst (Nat.le_of_lt_succ hi)).trans heq
      · rfl
    · -- a key that is new here stands nowhere before
      refine ⟨position + 1, Nat.le_refl _, fun i k hi hk hkn hik ↦ heq ?_,
        fun i hfirst hi ↦ by rw [Nat.le_antisymm hi hfirst]⟩
      have hposition := h i position k (Nat.le_of_lt_succ hi) (Nat.le_of_succ_le hk) hkn hik
      have hnext := h i (position + 1) k (Nat.le_of_lt hi) hk hkn hik
      exact hposition.trans hnext.symm

/-- A stretch of equal keys can be prolonged until it is left. -/
theorem exists_last (key : Nat → κ) {first last : Nat} (hle : last ≤ n)
    (hsame : ∀ i, first ≤ i → i < last → key i = key first) :
    ∃ last', last ≤ last' ∧ last' ≤ n ∧ (∀ i, first ≤ i → i < last' → key i = key first) ∧
      (last' < n → key last' ≠ key first) := by
  by_cases hgo : last < n ∧ key last = key first
  · have hsame' (i : Nat) (hfirst : first ≤ i) (hi : i < last + 1) : key i = key first := by
      rcases Nat.lt_or_eq_of_le (Nat.le_of_lt_succ hi) with hi | rfl
      · exact hsame i hfirst hi
      · exact hgo.2
    obtain ⟨last', hle', hrest⟩ := exists_last key hgo.1 hsame'
    exact ⟨last', Nat.le_of_succ_le hle', hrest⟩
  · exact ⟨last, Nat.le_refl last, hle, hsame, fun hlt heq ↦ hgo ⟨hlt, heq⟩⟩
termination_by n - last

/-- Every position of a contiguous stream has a group. -/
theorem Contiguous.exists_groupAt (h : Contiguous key n) {position : Nat} (hlt : position < n) :
    ∃ first size, GroupAt key n position first size := by
  obtain ⟨first, hle, hcut, hsame⟩ := h.exists_first hlt
  have hfirst : key first = key position := hsame first (Nat.le_refl first) hle
  have hknown (i : Nat) (hi : first ≤ i) (hi' : i < position + 1) : key i = key first :=
    (hsame i hi (Nat.le_of_lt_succ hi')).trans hfirst.symm
  obtain ⟨last, hpos, hlen, hsame', hend⟩ := exists_last key (Nat.succ_le_of_lt hlt) hknown
  have hcut' := h.cut_end hcut (Nat.lt_of_le_of_lt hle hpos) hsame' hend
  exact ⟨first, last - first, groupAt_of_cut hcut hcut' hle hpos hlen
    fun i hi hi' ↦ (hsame' i hi hi').trans hfirst⟩

/-- The group of a position starts at a cut. -/
theorem GroupAt.cut_first {position first size : Nat} (h : GroupAt key n position first size)
    (hkey : Contiguous key n) (hlt : position < n) : Cut key n first := by
  intro i k hi hk hkn heq
  have hmem := h.mem hlt
  have hposition : key k = key position := by
    rcases Nat.lt_or_ge k (first + size) with hin | hout
    · exact (h.mem_iff k hkn).2 ⟨hk, hin⟩
    · exact (hkey i position k (by omega) (by omega) hkn heq).symm
  have := (h.mem_iff i (by omega)).1 (heq.trans hposition)
  omega

/-- The group of a position ends at a cut. -/
theorem GroupAt.cut_last {position first size : Nat} (h : GroupAt key n position first size)
    (hkey : Contiguous key n) (hlt : position < n) : Cut key n (first + size) := by
  intro i k hi hk hkn heq
  have hmem := h.mem hlt
  have hposition : key i = key position := by
    rcases Nat.lt_or_ge i first with hout | hin
    · exact heq.trans (hkey i position k (by omega) (by omega) hkn heq).symm
    · exact (h.mem_iff i (by omega)).2 ⟨hin, hi⟩
  have := (h.mem_iff k hkn).1 (heq.symm.trans hposition)
  omega

variable [DecidableEq κ]

instance : Decidable (Contiguous key n) :=
  decidable_of_iff (∀ k < n, ∀ j < k + 1, ∀ i < j + 1, key i = key k → key j = key k)
    ⟨fun h i j k hij hjk hk ↦ h k hk j (Nat.lt_succ_of_le hjk) i (Nat.lt_succ_of_le hij),
      fun h k hk j hj i hi ↦ h i j k (Nat.le_of_lt_succ hi) (Nat.le_of_lt_succ hj) hk⟩

instance (position first size : Nat) : Decidable (GroupAt key n position first size) :=
  decidable_of_iff (first + size ≤ n ∧
      ∀ i < n, key i = key position ↔ first ≤ i ∧ i < first + size)
    ⟨fun h ↦ ⟨h.1, h.2⟩, fun h ↦ ⟨h.le_length, h.mem_iff⟩⟩

/-! ### Counting groups -/

/-- Whether a position is the first with its key. -/
def isFirst (key : Nat → κ) (position : Nat) : Bool := decide (∀ i < position, key i ≠ key position)

/-- The number of groups that start at one of the positions from `a` on and before `b`. -/
def groupsFrom (key : Nat → κ) (a b : Nat) : Nat := (List.range' a (b - a)).countP (isFirst key)

theorem Cut.isFirst {place : Nat} (h : Cut key n place) (hlt : place < n) :
    isFirst key place = true :=
  decide_eq_true fun i hi ↦ h i place hi (Nat.le_refl place) hlt

theorem isFirst_eq_false {i position : Nat} (hlt : i < position) (heq : key i = key position) :
    isFirst key position = false :=
  decide_eq_false fun h ↦ h i hlt heq

theorem groupsFrom_self (key : Nat → κ) (a : Nat) : groupsFrom key a a = 0 := by
  rw [groupsFrom, Nat.sub_self]
  rfl

theorem groupsFrom_succ {a b : Nat} (h : a ≤ b) :
    groupsFrom key a (b + 1) = groupsFrom key a b + if isFirst key b then 1 else 0 := by
  rw [groupsFrom, groupsFrom, Nat.succ_sub h, List.range'_1_concat, List.countP_append,
    List.countP_singleton, Nat.add_sub_cancel' h]

/-- No group starts where all keys stood before. -/
theorem groupsFrom_eq_of_not_isFirst {a b c : Nat} (hab : a ≤ b) (hbc : b ≤ c)
    (h : ∀ i, b ≤ i → i < c → isFirst key i = false) :
    groupsFrom key a c = groupsFrom key a b := by
  induction c with
  | zero => rw [Nat.le_zero.1 hbc]
  | succ c ih =>
    rcases Nat.lt_or_eq_of_le hbc with hlt | rfl
    · have hle := Nat.le_of_lt_succ hlt
      have hbefore := ih hle fun i hi hi' ↦ h i hi (Nat.lt_succ_of_lt hi')
      rw [groupsFrom_succ (Nat.le_trans hab hle), hbefore, h c hle (Nat.lt_succ_self c)]
      rfl
    · rfl

end Columnar
