import Columnar.Bitmap.Lemmas
import Columnar.Column.Fixed
import Columnar.Column.Flags
import Mathlib.Tactic.SplitIfs

/-!
# Columns as lists

What appending, overwriting and reading do to the list of optional values that a column holds, for
columns of fixed width and columns of flags. The columns here are `Aligned`: there is one validity
bit to every stored value. Every operation keeps columns so.

The list is that of values and validity bits joined pairwise. Whether a row can be read, what it
reads as, and how many rows there are is then a matter of lists (`Aligned.get_eq`,
`Aligned.get_of_size_le`), and the two operations that write are an append and a replacement
(`Aligned.toList_push`, `Aligned.toList_put`). `Aligned.get_put` puts these together in the form in
which rows are overwritten by others: **the row that was written reads as what was written, and the
others as before**.

The section on flags has the same lemmas under the same names, so that a column of any storage is
treated by one argument. What stands behind a missing value is not looked at here; it is only needed
where words and arrays are compared, in the module on appending.
-/

namespace Columnar

/-- The elements of two lists that are joined pairwise. -/
theorem getElem?_zipWith_of_length_eq {α β γ : Type} (f : α → β → γ) {xs : List α} {ys : List β}
    (h : xs.length = ys.length) (index : Nat) (y : β) :
    (List.zipWith f xs ys)[index]? = xs[index]?.map fun x ↦ f x (ys[index]?.getD y) := by
  rw [List.getElem?_zipWith]
  by_cases hi : index < xs.length
  · simp [hi, h ▸ hi]
  · simp [hi, h ▸ hi]

namespace FixedColumn

variable {α : Type}

/-- One validity bit to every value. -/
structure Aligned (c : FixedColumn α) : Prop where
  packed : c.validity.Packed
  size_validity : c.validity.size = c.size

variable {c : FixedColumn α}

theorem Aligned.getElem?_toList (hc : c.Aligned) (index : Nat) :
    c.toList[index]? =
      c.values[index]?.map fun value ↦ if c.validity.bit index then some value else none := by
  have hlen : c.values.toList.length = c.validity.toList.length := by
    rw [Bitmap.length_toList, hc.size_validity, Array.length_toList, size]
  rw [toList, getElem?_zipWith_of_length_eq _ hlen _ false, Array.getElem?_toList]
  by_cases hi : index < c.values.size
  · have hv : index < c.validity.size := hc.size_validity ▸ hi
    simp [hi, hv]
  · simp [hi]

theorem Aligned.length_toList (hc : c.Aligned) : c.toList.length = c.size := by
  rw [toList, List.length_zipWith, Bitmap.length_toList, hc.size_validity, Array.length_toList,
    size, Nat.min_self]

/-- Reading a row reads the list. -/
theorem Aligned.get_eq (hc : c.Aligned) {index : Nat} (h : index < c.toList.length) :
    c.get index = .ok c.toList[index] := by
  have hv : index < c.values.size := Nat.lt_of_lt_of_eq h hc.length_toList
  have hget : c.toList[index] =
      if c.validity.bit index then some c.values[index] else none := by
    refine Option.some.inj ?_
    rw [← List.getElem?_eq_getElem, hc.getElem?_toList, Array.getElem?_eq_getElem hv,
      Option.map_some]
  rw [hget, get, hc.packed.get_eq (hc.size_validity ▸ hv)]
  cases c.validity.bit index with
  | true =>
    simp [bind, Except.bind, pure, Except.pure, Checked.entry, hv]
  | false => simp [bind, Except.bind, pure, Except.pure]

/-- There is nothing to be read behind the last row. -/
theorem Aligned.get_of_size_le (hc : c.Aligned) {index : Nat} (h : c.size ≤ index) :
    c.get index = .error (.bit index c.size) := by
  rw [get, Bitmap.get, hc.size_validity, if_neg (Nat.not_lt_of_le h)]
  rfl

theorem aligned_empty : (empty : FixedColumn α).Aligned := ⟨Bitmap.packed_empty, rfl⟩

theorem aligned_ofValues (values : List α) : (ofValues values).Aligned where
  packed := Bitmap.packed_replicate values.length true
  size_validity := by simp [ofValues, size, Bitmap.replicate]

variable [Inhabited α]

theorem aligned_nulls (n : Nat) : (nulls n : FixedColumn α).Aligned where
  packed := Bitmap.packed_replicate n false
  size_validity := by simp [nulls, size, Bitmap.replicate]

@[simp]
theorem toList_nulls (n : Nat) : (nulls n : FixedColumn α).toList = List.replicate n none := by
  refine List.ext_getElem? fun index ↦ ?_
  rw [(aligned_nulls n).getElem?_toList, List.getElem?_replicate]
  by_cases h : index < n <;> simp [nulls, Bitmap.bit_replicate, h]

theorem Aligned.push (hc : c.Aligned) (value : Option α) : (c.push value).Aligned where
  packed := hc.packed.push value.isSome
  size_validity := by
    show c.validity.size + 1 = (c.values.push _).size
    rw [hc.size_validity, Array.size_push, size]

theorem aligned_ofList (values : List (Option α)) : (ofList values).Aligned :=
  List.foldlRecOn values push aligned_empty fun _ hc value _ ↦ hc.push value

/-- Appending a row appends it to the list. -/
theorem Aligned.toList_push (hc : c.Aligned) (value : Option α) :
    (c.push value).toList = c.toList ++ [value] := by
  have hlen : c.values.toList.length = c.validity.toList.length := by
    rw [Bitmap.length_toList, hc.size_validity, Array.length_toList, size]
  rw [toList, FixedColumn.push, hc.packed.toList_push, Array.toList_push,
    List.zipWith_append hlen, toList]
  cases value <;> rfl

theorem Aligned.put (hc : c.Aligned) {index : Nat} (h : index < c.size) (value : Option α) :
    (c.put index value).Aligned where
  packed := hc.packed.put (hc.size_validity ▸ h) _
  size_validity := by
    simp only [FixedColumn.put, Bitmap.size_put, size, Array.size_setIfInBounds]
    exact hc.size_validity

/-- Overwriting a row that exists replaces an element of the list. -/
theorem Aligned.toList_put (hc : c.Aligned) {index : Nat} (h : index < c.size) (value : Option α) :
    (c.put index value).toList = c.toList.set index value := by
  have hv : index < c.validity.size := hc.size_validity ▸ h
  refine List.ext_getElem? fun other ↦ ?_
  rw [(hc.put h value).getElem?_toList, List.getElem?_set, hc.length_toList, hc.getElem?_toList,
    FixedColumn.put, Array.getElem?_setIfInBounds, Bitmap.bit_put _ (hc.packed.div_lt hv)]
  by_cases he : index = other
  · subst he
    have h' : index < c.values.size := h
    cases value <;> simp [h, h']
  · simp [he]

/-- A row that was overwritten reads as what was written, and the other rows as before. -/
theorem Aligned.get_put (hc : c.Aligned) {index other : Nat} (h : index < c.size)
    (hother : other < c.size) (value : Option α) :
    (c.put index value).get other = if other = index then .ok value else c.get other := by
  have hlt : other < c.toList.length := hc.length_toList ▸ hother
  have hlt' : other < (c.put index value).toList.length := by
    rwa [hc.toList_put h, List.length_set]
  rw [(hc.put h value).get_eq hlt', hc.get_eq hlt]
  simp only [hc.toList_put h, List.getElem_set, eq_comm]
  split_ifs <;> rfl

end FixedColumn

namespace FlagColumn

/-- One validity bit to every flag. -/
structure Aligned (c : FlagColumn) : Prop where
  packed_values : c.values.Packed
  packed : c.validity.Packed
  size_validity : c.validity.size = c.size

variable {c : FlagColumn}

theorem Aligned.length_eq (hc : c.Aligned) : c.values.toList.length = c.validity.toList.length := by
  rw [Bitmap.length_toList, Bitmap.length_toList, hc.size_validity, size]

theorem Aligned.length_toList (hc : c.Aligned) : c.toList.length = c.size := by
  rw [toList, List.length_zipWith, ← hc.length_eq, Nat.min_self, Bitmap.length_toList, size]

theorem Aligned.getElem?_toList (hc : c.Aligned) (index : Nat) :
    c.toList[index]? = if index < c.size then
      some (if c.validity.bit index then some (c.values.bit index) else none) else none := by
  rw [toList, getElem?_zipWith_of_length_eq _ hc.length_eq _ false, Bitmap.getElem?_toList,
    Bitmap.getElem?_toList, hc.size_validity, size]
  by_cases hi : index < c.values.size <;> simp [hi]

/-- Reading a row reads the list. -/
theorem Aligned.get_eq (hc : c.Aligned) {index : Nat} (h : index < c.toList.length) :
    c.get index = .ok c.toList[index] := by
  have hv : index < c.values.size := Nat.lt_of_lt_of_eq h hc.length_toList
  have hget : c.toList[index] =
      if c.validity.bit index then some (c.values.bit index) else none := by
    refine Option.some.inj ?_
    rw [← List.getElem?_eq_getElem, hc.getElem?_toList, if_pos (show index < c.size from hv)]
  rw [hget, get, hc.packed.get_eq (hc.size_validity ▸ hv), hc.packed_values.get_eq hv]
  cases c.validity.bit index <;> simp [bind, Except.bind, pure, Except.pure]

theorem aligned_empty : empty.Aligned := ⟨Bitmap.packed_empty, Bitmap.packed_empty, rfl⟩

theorem aligned_nulls (n : Nat) : (nulls n).Aligned :=
  ⟨Bitmap.packed_replicate n false, Bitmap.packed_replicate n false, rfl⟩

@[simp]
theorem toList_nulls (n : Nat) : (nulls n).toList = List.replicate n none := by
  simp [nulls, toList]

theorem Aligned.push (hc : c.Aligned) (value : Option Bool) : (c.push value).Aligned where
  packed_values := hc.packed_values.push _
  packed := hc.packed.push value.isSome
  size_validity := congrArg (· + 1) hc.size_validity

/-- Appending a row appends it to the list. -/
theorem Aligned.toList_push (hc : c.Aligned) (value : Option Bool) :
    (c.push value).toList = c.toList ++ [value] := by
  rw [toList, FlagColumn.push, hc.packed.toList_push, hc.packed_values.toList_push,
    List.zipWith_append hc.length_eq, toList]
  cases value <;> rfl

theorem Aligned.put (hc : c.Aligned) {index : Nat} (h : index < c.size) (value : Option Bool) :
    (c.put index value).Aligned where
  packed_values := hc.packed_values.put h _
  packed := hc.packed.put (hc.size_validity ▸ h) _
  size_validity := hc.size_validity

/-- Overwriting a row that exists replaces an element of the list. -/
theorem Aligned.toList_put (hc : c.Aligned) {index : Nat} (h : index < c.size)
    (value : Option Bool) : (c.put index value).toList = c.toList.set index value := by
  have hv : index < c.validity.size := hc.size_validity ▸ h
  refine List.ext_getElem? fun other ↦ ?_
  rw [(hc.put h value).getElem?_toList, List.getElem?_set, hc.length_toList, hc.getElem?_toList,
    FlagColumn.put, Bitmap.bit_put _ (hc.packed.div_lt hv),
    Bitmap.bit_put _ (hc.packed_values.div_lt h)]
  simp only [size, Bitmap.size_put] at h ⊢
  by_cases he : index = other
  · subst he
    cases value <;> simp [h]
  · simp only [if_neg he]
    rfl

/-- There is nothing to be read behind the last row. -/
theorem Aligned.get_of_size_le (hc : c.Aligned) {index : Nat} (h : c.size ≤ index) :
    c.get index = .error (.bit index c.size) := by
  rw [get, Bitmap.get, hc.size_validity, if_neg (Nat.not_lt_of_le h)]
  rfl

/-- A row that was overwritten reads as what was written, and the other rows as before. -/
theorem Aligned.get_put (hc : c.Aligned) {index other : Nat} (h : index < c.size)
    (hother : other < c.size) (value : Option Bool) :
    (c.put index value).get other = if other = index then .ok value else c.get other := by
  have hlt : other < c.toList.length := hc.length_toList ▸ hother
  have hlt' : other < (c.put index value).toList.length := by
    rwa [hc.toList_put h, List.length_set]
  rw [(hc.put h value).get_eq hlt', hc.get_eq hlt]
  simp only [hc.toList_put h, List.getElem_set, eq_comm]
  split_ifs <;> rfl

end FlagColumn

end Columnar
