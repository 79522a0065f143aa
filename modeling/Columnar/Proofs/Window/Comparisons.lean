import Columnar.Proofs.Checked
import Columnar.Window.Engine

/-!
# Operations that compare rows

What an engine needs of the operations it is given, where these are not those on columns.

The two tests answer on the rows of acceptable blocks, and answer as equivalences do (`Equates`); a
test that compares keys is one (`Equates.of_key`). The other operations are never abandoned, and
keep what they are given regular (`FrameOps.Lawful`). Nothing is assumed about what they compute,
nor how the two tests are related.

Counting the rows that such a test finds together with the first one then finds rows that are
together with each other, in front of one that is apart from all of them (`Equates.counted`). **This
is all that the results for any order of calls know about a partition or a frame**: a stretch of
rows that were together when they were counted. In an input that is not sorted rows with the same
keys may follow later, and form a partition of their own.
-/

namespace Columnar

/-- Counting leading matches counts what passes the test, up to what does not. -/
theorem Checked.countWhile_gives {α : Type} {test : α → Checked Bool} {xs : List α}
    (h : ∀ x ∈ xs, ∃ same, test x = .ok same) :
    (Checked.countWhile test xs).Gives fun count ↦ count ≤ xs.length ∧
      (∀ x ∈ xs.take count, test x = .ok true) ∧ ∀ x, xs[count]? = some x → test x = .ok false := by
  induction xs with
  | nil => exact ⟨0, rfl, Nat.le_refl 0, nofun, nofun⟩
  | cons x xs ih =>
    obtain ⟨same, hsame⟩ := h x List.mem_cons_self
    rw [Checked.countWhile, hsame, Checked.ok_bind]
    cases same with
    | false =>
      refine ⟨0, rfl, Nat.zero_le _, nofun, fun y hy ↦ ?_⟩
      obtain rfl := Option.some.inj hy
      exact hsame
    | true =>
      obtain ⟨count, hcount, hle, htaken, hend⟩ := ih fun y hy ↦ h y (List.mem_cons_of_mem _ hy)
      refine ⟨count + 1, ?_, Nat.succ_le_succ hle, fun y hy ↦ ?_, hend⟩
      · rw [if_pos rfl, hcount]
        rfl
      · rcases List.mem_cons.1 hy with rfl | hy
        · exact hsame
        · exact htaken y hy

/-- A reference to a row of an acceptable block. -/
def RowOf (accepts : Block → Prop) (ref : Block × Nat) : Prop :=
  accepts ref.1 ∧ ref.2 < ref.1.length

/-- A test of rows that always answers, and answers as an equivalence does. -/
structure Equates (test : Block → Nat → Block → Nat → Checked Bool) (known : Block × Nat → Prop) :
    Prop where
  answers : ∀ {a b}, known a → known b → ∃ same, test a.1 a.2 b.1 b.2 = .ok same
  refl : ∀ {a}, known a → test a.1 a.2 a.1 a.2 = .ok true
  symm : ∀ {a b}, known a → known b → test a.1 a.2 b.1 b.2 = .ok true →
    test b.1 b.2 a.1 a.2 = .ok true
  trans : ∀ {a b c}, known a → known b → known c → test a.1 a.2 b.1 b.2 = .ok true →
    test b.1 b.2 c.1 c.2 = .ok true → test a.1 a.2 c.1 c.2 = .ok true

namespace Equates

variable {test : Block → Nat → Block → Nat → Checked Bool} {known : Block × Nat → Prop}
  {a b c : Block × Nat} {refs : List (Block × Nat)}

/-- A test that compares keys. -/
theorem of_key {κ : Type} (key : Block × Nat → κ)
    (h : ∀ {a b}, known a → known b →
      ∃ same, test a.1 a.2 b.1 b.2 = .ok same ∧ (same = true ↔ key a = key b)) :
    Equates test known := by
  have heq {a b : Block × Nat} (ha : known a) (hb : known b) :
      test a.1 a.2 b.1 b.2 = .ok true ↔ key a = key b := by
    obtain ⟨same, hsame, hiff⟩ := h ha hb
    rw [hsame, Except.ok.injEq, hiff]
  refine ⟨fun ha hb ↦ (h ha hb).imp fun _ ↦ And.left, fun ha ↦ (heq ha ha).2 rfl,
    fun ha hb hab ↦ (heq hb ha).2 ((heq ha hb).1 hab).symm, fun ha hb hc hab hbc ↦ ?_⟩
  exact (heq ha hc).2 (((heq ha hb).1 hab).trans ((heq hb hc).1 hbc))

/-- A row that is apart from one row is apart from all that are together with this. -/
theorem eq_false (h : Equates test known) (ha : known a) (hb : known b) (hc : known c)
    (hab : test a.1 a.2 b.1 b.2 = .ok true) (hac : test a.1 a.2 c.1 c.2 = .ok false) :
    test b.1 b.2 c.1 c.2 = .ok false := by
  obtain ⟨same, hsame⟩ := h.answers hb hc
  cases same with
  | false => exact hsame
  | true => cases (h.trans ha hb hc hab hsame).symm.trans hac

/-- Rows that are together with one row are so with each other. -/
theorem eq_true (h : Equates test known) (ha : known a) (hb : known b) (hc : known c)
    (hab : test a.1 a.2 b.1 b.2 = .ok true) (hac : test a.1 a.2 c.1 c.2 = .ok true) :
    test b.1 b.2 c.1 c.2 = .ok true :=
  h.trans hb ha hc (h.symm ha hb hab) hac

end Equates

/-! ### Rows that are together -/

/-- Rows that a test finds together. -/
def Together (test : Block → Nat → Block → Nat → Checked Bool) (refs : List (Block × Nat)) : Prop :=
  ∀ a ∈ refs, ∀ b ∈ refs, test a.1 a.2 b.1 b.2 = .ok true

/-- Rows that a test finds apart from a row. -/
def Apart (test : Block → Nat → Block → Nat → Checked Bool) (refs : List (Block × Nat))
    (b : Block × Nat) : Prop :=
  ∀ a ∈ refs, test a.1 a.2 b.1 b.2 = .ok false

section Together

variable {test : Block → Nat → Block → Nat → Checked Bool} {known : Block × Nat → Prop}
  {a : Block × Nat} {refs : List (Block × Nat)}

theorem Together.mono {refs' : List (Block × Nat)} (h : Together test refs)
    (hsub : ∀ b ∈ refs', b ∈ refs) : Together test refs' :=
  fun b hb c hc ↦ h b (hsub b hb) c (hsub c hc)

/-- Rows that are together with one row are together, and apart from what this one is apart from. -/
theorem Equates.together (h : Equates test known) (ha : known a) (hknown : ∀ b ∈ refs, known b)
    (hsame : ∀ b ∈ refs, test a.1 a.2 b.1 b.2 = .ok true) : Together test refs :=
  fun b hb c hc ↦ h.eq_true ha (hknown b hb) (hknown c hc) (hsame b hb) (hsame c hc)

theorem Equates.apart (h : Equates test known) (ha : known a) (hknown : ∀ b ∈ refs, known b)
    (hsame : ∀ b ∈ refs, test a.1 a.2 b.1 b.2 = .ok true) {c : Block × Nat} (hc : known c)
    (hac : test a.1 a.2 c.1 c.2 = .ok false) : Apart test refs c :=
  fun b hb ↦ h.eq_false ha (hknown b hb) hc (hsame b hb) hac

/-- Counting the rows that are together with the first one finds rows that are together, in front of
one that is apart from them. -/
theorem Equates.counted (h : Equates test known) (hknown : ∀ b ∈ a :: refs, known b) :
    (Checked.countWhile (fun (block, row) ↦ test a.1 a.2 block row) (a :: refs)).Gives fun count ↦
      0 < count ∧ count ≤ (a :: refs).length ∧ Together test ((a :: refs).take count) ∧
        ∀ b, (a :: refs)[count]? = some b → Apart test ((a :: refs).take count) b := by
  have ha := hknown a List.mem_cons_self
  refine (Checked.countWhile_gives fun b hb ↦ h.answers ha (hknown b hb)).mono
    fun count ⟨hle, hsame, hend⟩ ↦ ?_
  have htaken : ∀ b ∈ (a :: refs).take count, known b :=
    fun b hb ↦ hknown b (List.mem_of_mem_take hb)
  refine ⟨Nat.pos_of_ne_zero fun hzero ↦ ?_, hle, h.together ha htaken hsame, fun b hb ↦ ?_⟩
  · -- the first row is together with itself
    subst hzero
    cases (hend a rfl).symm.trans (h.refl ha)
  · exact h.apart ha htaken hsame (hknown b (List.mem_of_getElem? hb)) (hend b hb)

end Together

/-! ### Lawful operations -/

/-- Operations on the rows of acceptable blocks that compare these as equivalences do and are never
abandoned, with an aggregation that stays regular. -/
structure FrameOps.Lawful {σ ε : Type} (ops : FrameOps σ ε) (accepts : Block → Prop)
    (regular : σ → Prop) : Prop where
  samePartition : Equates ops.samePartition (RowOf accepts)
  peers : Equates ops.peers (RowOf accepts)
  aggregate : ∀ {aggregation block row}, regular aggregation → RowOf accepts (block, row) →
    (ops.aggregate aggregation block row).Gives fun (aggregation, _) ↦ regular aggregation
  write : ∀ {aggregation} output row, regular aggregation →
    (ops.write aggregation output row).Gives fun (aggregation, _) ↦ regular aggregation
  reset : ∀ {aggregation}, regular aggregation → regular (ops.reset aggregation).1

end Columnar
