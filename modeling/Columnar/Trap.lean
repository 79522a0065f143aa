/-!
# Traps and levels

How an operation ends that has no result. One that is handed a position outside its data cannot go
on, and whatever it was changing is lost. Such an operation has a result in `Checked`; the errors
that a caller is expected to handle are ordinary values and never traps.

The two are kept apart because they mean different things. A refusal is part of what an operation
promises, with a state behind it that can be used; a trap is a fault of the caller or of the
operation itself, **with no state behind it at all**. So an operation that may do both has a result
of type `Checked (σ × Except ε α)`, and a law about it says which traps there are as well as what
the result is.

The few traversals that every module needs are here too, each in one form: reading a list or an
array at a position, changing one element in place, and counting leading elements with a test that
may be abandoned.

What tables and windows report while they work is an event with a text and a `Level`. Events are
values that an operation gives beside its result; nothing is written anywhere.
-/

namespace Columnar

universe u

/-- Why an operation was abandoned. -/
inductive Trap
  /-- A bit was addressed outside a bitmap of `size` bits. -/
  | bit (index size : Nat)
  /-- Any other position lay outside the data it addresses. -/
  | position
  /-- The bytes of a text cell are not a text. -/
  | text
  /-- The links of a chain do not end. -/
  | cycle
  deriving DecidableEq, Repr

/-- The text that is shown for a trap, where there is one. -/
def Trap.message? : Trap → Option String
  | .bit index size => some s!"Index `{index}` out of bitmap with length `{size}`"
  | .position => none
  | .text => none
  | .cycle => none

/-- The result of an operation that may be abandoned. -/
abbrev Checked (α : Type u) := Except Trap α

namespace Checked

variable {α : Type u}

/-- The element at a position, or a trap if the list is too short. -/
def elem (xs : List α) (index : Nat) : Checked α :=
  match xs[index]? with
  | some x => .ok x
  | none => .error .position

/-- The element at a position, or a trap if the array is too short. -/
def entry (xs : Array α) (index : Nat) : Checked α :=
  match xs[index]? with
  | some x => .ok x
  | none => .error .position

/-- Change the element at a position, with a result. The element is taken out of the array while it
is changed, so that it is changed in place. -/
def change {β : Type} {α : Type} [Inhabited α] (xs : Array α) (index : Nat)
    (f : α → Checked (α × β)) : Checked (Array α × β) :=
  match xs[index]? with
  | none => .error .position
  | some x => do
    let others := xs.setIfInBounds index default
    let (x, result) ← f x
    return (others.setIfInBounds index x, result)

/-- How many leading elements pass a test. Nothing after the first that fails is tested. -/
def countWhile {α : Type} (test : α → Checked Bool) : List α → Checked Nat
  | [] => .ok 0
  | x :: xs => do
    if ← test x then
      return (← countWhile test xs) + 1
    else
      return 0

end Checked

/-! ### Levels of events -/

/-- How much detail an event belongs to. -/
inductive Level
  | debug
  | trace
  deriving DecidableEq, Repr

/-- The name of a level. -/
def Level.name : Level → String
  | debug => "debug"
  | trace => "trace"

end Columnar
