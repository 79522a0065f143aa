import Columnar.Trap
import Mathlib.Data.List.Forall2

/-!
# Reasoning about checked results

An operation that may be abandoned is followed step by step. Each notion here comes with a lemma for
sequences of operations, so that a statement about an operation is assembled from statements about
its parts and no proof unfolds more than one of them.

## Three ways to speak of an operation

* `Checked.Sat` says both what the result is and where a trap can come from. It is for operations
  that may be abandoned, such as those of a table whose comparisons may be.
* `Checked.Gives` says that there is a result and what it satisfies. It is for operations that are
  never abandoned, and **it is what a statement about all runs uses**: that a result would be right
  if there were one is not enough there.
* `Checked.Related` says of two operations that they are abandoned alike or give results in a
  relation. With it two tables or two engines are compared without saying what either of them does.

Beside these there are the equations for the few sequences that occur everywhere: an operation after
another one, an error that is reported in other words, and operations one after the other on the
elements of a list.
-/

namespace Columnar

universe u v

/-! ### Results that may be errors -/

section Except

variable {ε ε' : Type} {α β : Type u} {x : Except ε α} {f : α → Except ε β}

/-- What gives a result after another operation gives it after the result of that. -/
theorem exists_of_bind_eq_ok {b : β} (h : x >>= f = .ok b) : ∃ a, x = .ok a ∧ f a = .ok b := by
  cases x with
  | ok a => exact ⟨a, rfl, h⟩
  | error e => cases h

/-- An error comes from one of two operations. -/
theorem eq_error_of_bind_eq_error {e : ε} (h : x >>= f = .error e) :
    x = .error e ∨ ∃ a, x = .ok a ∧ f a = .error e := by
  cases x with
  | ok a => exact .inr ⟨a, rfl, h⟩
  | error e' =>
    cases h
    exact .inl rfl

theorem eq_ok_of_mapError_eq_ok {g : ε → ε'} {a : α} (h : x.mapError g = .ok a) : x = .ok a := by
  cases x with
  | ok a' =>
    cases h
    rfl
  | error e => cases h

theorem exists_of_mapError_eq_error {g : ε → ε'} {e : ε'} (h : x.mapError g = .error e) :
    ∃ cause, x = .error cause ∧ e = g cause := by
  cases x with
  | ok a => cases h
  | error cause =>
    cases h
    exact ⟨cause, rfl, rfl⟩

end Except

namespace Checked

variable {α : Type u} {β : Type v}

@[simp]
theorem ok_bind {α β : Type u} (a : α) (f : α → Checked β) :
    (Except.ok a >>= f : Checked β) = f a :=
  rfl

@[simp]
theorem error_bind {α β : Type u} (trap : Trap) (f : α → Checked β) :
    (Except.error trap >>= f : Checked β) = .error trap :=
  rfl

@[simp]
theorem pure_eq_ok (a : α) : (pure a : Checked α) = .ok a := rfl

/-- The result satisfies `post` if there is one, and the trap satisfies `raises` if not. -/
def Sat (x : Checked α) (raises : Trap → Prop) (post : α → Prop) : Prop :=
  match x with
  | .ok a => post a
  | .error trap => raises trap

variable {raises raises' : Trap → Prop} {post : α → Prop} {post' : β → Prop}

theorem Sat.of_eq_ok {x : Checked α} {a : α} (hx : x.Sat raises post) (h : x = .ok a) : post a := by
  subst h
  exact hx

theorem Sat.mono {x : Checked α} {weaker : α → Prop} (hx : x.Sat raises post)
    (hraises : ∀ trap, raises trap → raises' trap) (hpost : ∀ a, post a → weaker a) :
    x.Sat raises' weaker := by
  cases x with
  | ok a => exact hpost a hx
  | error trap => exact hraises trap hx

/-- An operation that raises nothing gives a result. -/
theorem Sat.exists_eq_ok {x : Checked α} (hx : x.Sat raises post) (hraises : ∀ trap, ¬raises trap) :
    ∃ a, x = .ok a ∧ post a := by
  cases x with
  | ok a => exact ⟨a, rfl, hx⟩
  | error trap => exact absurd hx (hraises trap)

/-- A sequence of operations satisfies what follows from what the first one satisfies. -/
theorem Sat.bind {α β : Type u} {post : α → Prop} {post' : β → Prop} {x : Checked α}
    {f : α → Checked β} (hx : x.Sat raises post)
    (hf : ∀ a, x = .ok a → post a → (f a).Sat raises post') : (x >>= f).Sat raises post' := by
  cases x with
  | ok a => exact hf a rfl hx
  | error trap => exact hx

/-- An operation that is not abandoned, and whose result satisfies `post`. -/
def Gives (x : Checked α) (post : α → Prop) : Prop := ∃ a, x = .ok a ∧ post a

theorem Gives.of_eq_ok {x : Checked α} {a : α} (hx : x.Gives post) (h : x = .ok a) : post a := by
  obtain ⟨a', ha', hpost⟩ := hx
  obtain rfl := Except.ok.inj (ha'.symm.trans h)
  exact hpost

theorem Gives.mono {x : Checked α} {weaker : α → Prop} (hx : x.Gives post)
    (hpost : ∀ a, post a → weaker a) : x.Gives weaker :=
  hx.imp fun a ⟨ha, hp⟩ ↦ ⟨ha, hpost a hp⟩

/-- A sequence of operations gives a result if each gives one from what the one before it gives. -/
theorem Gives.bind {α β : Type u} {post : α → Prop} {post' : β → Prop} {x : Checked α}
    {f : α → Checked β} (hx : x.Gives post) (hf : ∀ a, x = .ok a → post a → (f a).Gives post') :
    (x >>= f).Gives post' := by
  obtain ⟨a, rfl, hpost⟩ := hx
  exact hf a rfl hpost

/-! ### Two operations -/

/-- Two operations that are abandoned alike, or give results in a relation. -/
inductive Related {α β : Type} (R : α → β → Prop) : Checked α → Checked β → Prop
  | ok {a : α} {b : β} : R a b → Related R (.ok a) (.ok b)
  | error (trap : Trap) : Related R (.error trap) (.error trap)

/-- Operations of which a part comes to the same. -/
theorem Related.of_map_eq {α β γ : Type} {f : α → γ} {g : β → γ} {x : Checked α} {y : Checked β}
    (h : f <$> x = g <$> y) : Related (fun a b ↦ f a = g b) x y := by
  cases x with
  | ok a => cases y with
    | ok b => exact .ok (Except.ok.inj h)
    | error trap => cases h
  | error trap => cases y with
    | ok b => cases h
    | error trap' =>
      obtain rfl := Except.error.inj h
      exact .error trap

/-- Sequences of operations are related if their parts are. -/
theorem Related.bind {α β γ δ : Type} {R : α → β → Prop} {S : γ → δ → Prop} {x : Checked α}
    {y : Checked β} {f : α → Checked γ} {g : β → Checked δ} (h : Related R x y)
    (hf : ∀ a b, x = .ok a → y = .ok b → R a b → Related S (f a) (g b)) :
    Related S (x >>= f) (y >>= g) := by
  cases h with
  | ok hab => exact hf _ _ rfl rfl hab
  | error trap => exact .error trap

/-- Operations that start alike and go on with what that gives. -/
theorem Related.bind_same {α γ δ : Type} {S : γ → δ → Prop} {x : Checked α} {f : α → Checked γ}
    {g : α → Checked δ} (hf : ∀ a, Related S (f a) (g a)) : Related S (x >>= f) (x >>= g) := by
  cases x with
  | ok a => exact hf a
  | error trap => exact .error trap

theorem Related.mono {α β : Type} {R S : α → β → Prop} {x : Checked α} {y : Checked β}
    (h : Related R x y) (hRS : ∀ a b, x = .ok a → y = .ok b → R a b → S a b) : Related S x y := by
  cases h with
  | ok hab => exact .ok (hRS _ _ rfl rfl hab)
  | error trap => exact .error trap

/-- Operations that are abandoned alike or give the same result are the same. -/
theorem Related.eq {α : Type} {x y : Checked α} (h : Related (fun a b ↦ b = a) x y) : y = x := by
  cases h with
  | ok hab => rw [hab]
  | error trap => rfl

/-- What is related to a result is a result. -/
theorem Related.exists_eq_ok {α β : Type} {R : α → β → Prop} {x : Checked α} {y : Checked β}
    (h : Related R x y) {a : α} (hx : x = .ok a) : ∃ b, y = .ok b ∧ R a b := by
  cases h with
  | ok hab =>
    obtain rfl := Except.ok.inj hx
    exact ⟨_, rfl, hab⟩
  | error trap => cases hx

/-! ### Lists of operations -/

/-- Operations one after the other give the list of what each gives. -/
theorem mapM_eq_ok_iff {α β : Type} {f : α → Checked β} {xs : List α} {ys : List β} :
    xs.mapM f = .ok ys ↔ List.Forall₂ (fun x y ↦ f x = .ok y) xs ys := by
  induction xs generalizing ys with
  | nil => cases ys <;> simp
  | cons x xs ih =>
    rw [List.mapM_cons]
    constructor
    · intro h
      obtain ⟨y, hy, h⟩ := exists_of_bind_eq_ok h
      obtain ⟨ys', hys, h⟩ := exists_of_bind_eq_ok h
      obtain rfl := Except.ok.inj h
      exact .cons hy (ih.1 hys)
    · rintro (_ | ⟨hy, hys⟩)
      rw [hy, ok_bind, ih.2 hys, ok_bind, pure_eq_ok]

theorem length_of_mapM_eq_ok {α β : Type} {f : α → Checked β} {xs : List α} {ys : List β}
    (h : xs.mapM f = .ok ys) : ys.length = xs.length :=
  (mapM_eq_ok_iff.1 h).length_eq.symm

/-- What the operation in a place gives. -/
theorem getElem?_of_mapM_eq_ok {α β : Type} {f : α → Checked β} {xs : List α} {ys : List β}
    (h : xs.mapM f = .ok ys) {i : Nat} {x : α} (hx : xs[i]? = some x) :
    ∃ y, ys[i]? = some y ∧ f x = .ok y := by
  have hall := mapM_eq_ok_iff.1 h
  clear h
  induction hall generalizing i with
  | nil => simp at hx
  | cons hy _ ih =>
    cases i with
    | zero =>
      obtain rfl := Option.some.inj hx
      exact ⟨_, rfl, hy⟩
    | succ i => exact ih hx

/-- Operations that all succeed give a list. -/
theorem exists_mapM_eq_ok {α β : Type} {f : α → Checked β} {xs : List α}
    (h : ∀ x ∈ xs, ∃ y, f x = .ok y) : ∃ ys, xs.mapM f = .ok ys := by
  induction xs with
  | nil => exact ⟨[], rfl⟩
  | cons x xs ih =>
    obtain ⟨y, hy⟩ := h x List.mem_cons_self
    obtain ⟨ys, hys⟩ := ih fun x hx ↦ h x (List.mem_cons_of_mem _ hx)
    exact ⟨y :: ys, mapM_eq_ok_iff.2 (.cons hy (mapM_eq_ok_iff.1 hys))⟩

/-- Operations that do the same to the elements of a list. -/
theorem mapM_congr {α β : Type} {f g : α → Checked β} {xs : List α} (h : ∀ x ∈ xs, f x = g x) :
    xs.mapM f = xs.mapM g := by
  induction xs with
  | nil => rfl
  | cons x xs ih =>
    rw [List.mapM_cons, List.mapM_cons, h x List.mem_cons_self,
      ih fun x hx ↦ h x (List.mem_cons_of_mem _ hx)]

/-- Operations on two lists one after the other. -/
theorem mapM_append_eq_ok {α β : Type} {f : α → Checked β} {xs xs' : List α} {ys ys' : List β}
    (h : xs.mapM f = .ok ys) (h' : xs'.mapM f = .ok ys') :
    (xs ++ xs').mapM f = .ok (ys ++ ys') := by
  rw [List.mapM_append, h, ok_bind, h', ok_bind, pure_eq_ok]

end Checked

end Columnar
