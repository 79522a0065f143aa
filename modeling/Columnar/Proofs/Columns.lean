import Columnar.Column.Basic
import Columnar.Column.Lemmas
import Columnar.Column.Text.Lemmas
import Columnar.Proofs.Checked

/-!
# Columns of any storage

What reading and overwriting do to a column, whatever its storage. The storages differ in how a
value is written, so the lemmas about one value are by cases over them; all that follows is stated
once.

A column is `Aligned` if what belongs to every row is there. Reading a row of an aligned column
reads the list of its values (`Aligned.get_eq`), and is abandoned behind the last row and nowhere
else.

## Writing a row

A value that is not refused is written (`Aligned.put`): the row then reads as the value, and **the
other rows read as before, although the bytes of their texts are in one buffer**. A text is written
behind all others, so the bytes that the spans of other rows address stay where they are.

Whether a value is refused depends on the storage, on the row and on the room, and on nothing else
(`refusal?_congr`). Only a text can be refused for want of room (`overflow?_eq_none`), so a column
of fixed width takes every value of its storage. What a write may leave behind is `RewrittenAt`,
which later modules use for rows of several columns where some were written and others were not.
-/

namespace Columnar.Column

variable {c c' : Column} {index row : Nat} {value : Option Scalar}

/-- What belongs to every row is there: a validity bit and, where one is needed, a value or the
bytes of a text. -/
def Aligned : Column → Prop
  | boolean c => c.Aligned
  | int32 c => c.Aligned
  | int64 c => c.Aligned
  | double c => c.Aligned
  | text c => c.Aligned

/-- A value can be stored as a column stores its values, if it is present. -/
def Suits (c : Column) (value : Option Scalar) : Prop :=
  ∀ v, value = some v → v.storage = c.storage

/-- A column and a value that suits it, by the storage. -/
inductive Typed : Column → Option Scalar → Prop
  | boolean (d : FlagColumn) (v : Option Bool) : Typed (boolean d) (v.map .boolean)
  | int32 (d : FixedColumn Int32) (v : Option Int32) : Typed (int32 d) (v.map .int32)
  | int64 (d : FixedColumn Int64) (v : Option Int64) : Typed (int64 d) (v.map .int64)
  | double (d : FixedColumn Double) (v : Option Double) : Typed (double d) (v.map .double)
  | text (d : TextColumn) (v : Option String) : Typed (text d) (v.map .text)

theorem Suits.typed (h : c.Suits value) : Typed c value := by
  cases value with
  | none =>
    cases c with
    | boolean d => exact .boolean d none
    | int32 d => exact .int32 d none
    | int64 d => exact .int64 d none
    | double d => exact .double d none
    | text d => exact .text d none
  | some v =>
    have hstorage := h v rfl
    cases v with
    | boolean v => cases c with
      | boolean d => exact .boolean d (some v)
      | _ => cases hstorage
    | int32 v => cases c with
      | int32 d => exact .int32 d (some v)
      | _ => cases hstorage
    | int64 v => cases c with
      | int64 d => exact .int64 d (some v)
      | _ => cases hstorage
    | double v => cases c with
      | double d => exact .double d (some v)
      | _ => cases hstorage
    | text v => cases c with
      | text d => exact .text d (some v)
      | _ => cases hstorage

/-! ### Sizes and types -/

theorem size_nulls (t : DataType) (n : Nat) : (nulls t n).size = n := by
  cases t <;> simp [nulls, size, FixedColumn.size, FixedColumn.nulls, FlagColumn.size,
    FlagColumn.nulls, TextColumn.size, TextColumn.nulls, Bitmap.replicate]

theorem dataType_nulls (t : DataType) (n : Nat) : (nulls t n).dataType = t := by cases t <;> rfl

theorem size_put (c : Column) (index : Nat) (value : Option Scalar) :
    (c.put index value).size = c.size := by
  cases c <;> rcases value with _ | v <;> try cases v
  all_goals simp [put, size, FixedColumn.size, FixedColumn.put, FlagColumn.size, FlagColumn.put,
    TextColumn.size, TextColumn.put, Bitmap.put]

theorem storage_put (c : Column) (index : Nat) (value : Option Scalar) :
    (c.put index value).storage = c.storage := by
  cases c <;> rcases value with _ | v <;> try cases v
  all_goals rfl

theorem dataType_put (c : Column) (index : Nat) (value : Option Scalar) :
    (c.put index value).dataType = c.dataType :=
  congrArg Storage.dataType (storage_put c index value)

theorem storage_eq_iff : c.storage = c'.storage ↔ c.dataType = c'.dataType := by
  refine ⟨congrArg Storage.dataType, fun h ↦ ?_⟩
  rw [← Storage.storage_dataType c.storage, ← Storage.storage_dataType c'.storage]
  exact congrArg DataType.storage h

theorem size_setByteLimit (c : Column) (limit : Option Nat) :
    (c.setByteLimit limit).size = c.size := by
  cases c <;> rfl

theorem storage_setByteLimit (c : Column) (limit : Option Nat) :
    (c.setByteLimit limit).storage = c.storage := by
  cases c <;> rfl

/-! ### Reading -/

theorem aligned_nulls (t : DataType) (n : Nat) : (nulls t n).Aligned := by
  cases t with
  | boolean => exact FlagColumn.aligned_nulls n
  | integer | bigInt | double => exact FixedColumn.aligned_nulls n
  | varchar => exact TextColumn.aligned_nulls n

theorem Aligned.setByteLimit (hc : c.Aligned) (limit : Option Nat) :
    (c.setByteLimit limit).Aligned := by
  cases c with
  | text c => exact TextColumn.Aligned.setByteLimit hc limit
  | _ => exact hc

theorem Aligned.length_toList (hc : c.Aligned) : c.toList.length = c.size := by
  cases c with
  | boolean c => exact (List.length_map _).trans (FlagColumn.Aligned.length_toList hc)
  | int32 c | int64 c | double c =>
    exact (List.length_map _).trans (FixedColumn.Aligned.length_toList hc)
  | text c => exact (List.length_map _).trans (TextColumn.Aligned.length_toList hc)

/-- Reading a row reads the list. -/
theorem Aligned.get_eq (hc : c.Aligned) (h : index < c.toList.length) :
    c.get index = .ok c.toList[index] := by
  cases c with
  | boolean c =>
    have h : index < c.toList.length := by rwa [toList, List.length_map] at h
    simp [get, toList, FlagColumn.Aligned.get_eq hc h]
  | int32 c | int64 c | double c =>
    have h : index < c.toList.length := by rwa [toList, List.length_map] at h
    simp [get, toList, FixedColumn.Aligned.get_eq hc h]
  | text c =>
    have h : index < c.toList.length := by rwa [toList, List.length_map] at h
    simp [get, toList, TextColumn.Aligned.get_eq hc h]

/-- A row that exists can be read. -/
theorem Aligned.exists_get (hc : c.Aligned) (h : index < c.size) :
    ∃ value, c.get index = .ok value :=
  ⟨_, hc.get_eq (hc.length_toList ▸ h)⟩

/-- There is nothing to be read behind the last row. -/
theorem Aligned.get_of_size_le (hc : c.Aligned) (h : c.size ≤ index) :
    c.get index = .error (.bit index c.size) := by
  cases c with
  | boolean c => simp [get, FlagColumn.Aligned.get_of_size_le hc h, size]
  | int32 c | int64 c | double c => simp [get, FixedColumn.Aligned.get_of_size_le hc h, size]
  | text c => simp [get, TextColumn.Aligned.get_of_size_le hc h, size]

/-- A value that is read suits the column. -/
theorem suits_of_get_eq_ok (h : c.get index = .ok value) : c.Suits value := by
  intro v hv
  subst hv
  cases c with
  | boolean c | int32 c | int64 c | double c | text c =>
    obtain ⟨read, -, hread⟩ := exists_of_bind_eq_ok h
    obtain ⟨a, -, rfl⟩ := Option.map_eq_some_iff.1 (Except.ok.inj hread)
    rfl

/-! ### Overwriting -/

theorem put_boolean (d : FlagColumn) (index : Nat) (v : Option Bool) :
    (boolean d).put index (v.map .boolean) = boolean (d.put index v) := by
  cases v <;> rfl

theorem put_int32 (d : FixedColumn Int32) (index : Nat) (v : Option Int32) :
    (int32 d).put index (v.map .int32) = int32 (d.put index v) := by
  cases v <;> rfl

theorem put_int64 (d : FixedColumn Int64) (index : Nat) (v : Option Int64) :
    (int64 d).put index (v.map .int64) = int64 (d.put index v) := by
  cases v <;> rfl

theorem put_double (d : FixedColumn Double) (index : Nat) (v : Option Double) :
    (double d).put index (v.map .double) = double (d.put index v) := by
  cases v <;> rfl

theorem put_text (d : TextColumn) (index : Nat) (v : Option String) :
    (text d).put index (v.map .text) = text (d.put index v) := by
  cases v <;> rfl

theorem overflow?_text (d : TextColumn) (v : Option String) :
    (text d).overflow? (v.map .text) = d.overflow? v := by
  cases v <;> rfl

/-- A column takes a value that it can store, in a row that exists, if there is room for it. -/
theorem refusal?_eq_none_iff :
    c.refusal? index value = none ↔ c.Suits value ∧ index < c.size ∧ c.overflow? value = none := by
  have hsuits : value.filter (fun v ↦ v.storage != c.storage) = none ↔ c.Suits value := by
    rcases value with _ | v <;> simp [Suits]
  rw [refusal?, ← hsuits]
  cases value.filter fun v ↦ v.storage != c.storage with
  | some v => simp
  | none => by_cases h : index < c.size <;> simp [h]

/-- Whether a value is refused depends on the storage, on the row and on the room. -/
theorem refusal?_congr {index' : Nat} (hstorage : c'.storage = c.storage)
    (hindex : index < c.size) (hindex' : index' < c'.size)
    (hroom : c'.overflow? value = c.overflow? value) :
    c'.refusal? index' value = c.refusal? index value := by
  rw [refusal?, refusal?, hstorage, if_pos hindex, if_pos hindex', hroom]

/-- Only texts need room. -/
theorem overflow?_eq_none (h : c.storage ≠ .text) (value : Option Scalar) :
    c.overflow? value = none := by
  cases c with
  | text => exact absurd rfl h
  | _ => rfl

theorem Aligned.put (hc : c.Aligned) (h : c.refusal? index value = none) :
    (c.put index value).Aligned := by
  obtain ⟨hsuits, hindex, hroom⟩ := refusal?_eq_none_iff.1 h
  cases hsuits.typed with
  | boolean d v =>
    rw [put_boolean]
    exact FlagColumn.Aligned.put hc hindex v
  | int32 d v =>
    rw [put_int32]
    exact FixedColumn.Aligned.put hc hindex v
  | int64 d v =>
    rw [put_int64]
    exact FixedColumn.Aligned.put hc hindex v
  | double d v =>
    rw [put_double]
    exact FixedColumn.Aligned.put hc hindex v
  | text d v =>
    rw [overflow?_text] at hroom
    rw [put_text]
    exact TextColumn.Aligned.put hc hindex hroom

/-- A row that was overwritten reads as what was written, and the other rows as before. -/
theorem Aligned.get_put (hc : c.Aligned) (h : c.refusal? index value = none) (other : Nat) :
    (c.put index value).get other = if other = index then .ok value else c.get other := by
  obtain ⟨hsuits, hindex, hroom⟩ := refusal?_eq_none_iff.1 h
  rcases Nat.lt_or_ge other c.size with hother | hother
  case inr =>
    rw [if_neg (Nat.ne_of_gt (Nat.lt_of_lt_of_le hindex hother)), hc.get_of_size_le hother,
      (hc.put h).get_of_size_le ((size_put c index value).symm ▸ hother), size_put]
  cases hsuits.typed with
  | boolean d v =>
    simp only [put_boolean, get, FlagColumn.Aligned.get_put hc hindex hother]
    split_ifs <;> rfl
  | int32 d v =>
    simp only [put_int32, get, FixedColumn.Aligned.get_put hc hindex hother]
    split_ifs <;> rfl
  | int64 d v =>
    simp only [put_int64, get, FixedColumn.Aligned.get_put hc hindex hother]
    split_ifs <;> rfl
  | double d v =>
    simp only [put_double, get, FixedColumn.Aligned.get_put hc hindex hother]
    split_ifs <;> rfl
  | text d v =>
    rw [overflow?_text] at hroom
    simp only [put_text, get, TextColumn.Aligned.get_put hc hindex hroom hother]
    split_ifs <;> rfl

/-- A column one row of which may have been overwritten. -/
structure RewrittenAt (row : Nat) (c c' : Column) : Prop where
  aligned : c'.Aligned
  storage_eq : c'.storage = c.storage
  size_eq : c'.size = c.size
  get_eq : ∀ other, other ≠ row → c'.get other = c.get other

theorem Aligned.rewrittenAt (hc : c.Aligned) (row : Nat) : RewrittenAt row c c :=
  ⟨hc, rfl, rfl, fun _ _ ↦ rfl⟩

theorem Aligned.rewrittenAt_put (hc : c.Aligned) (h : c.refusal? row value = none) :
    RewrittenAt row c (c.put row value) where
  aligned := hc.put h
  storage_eq := storage_put c row value
  size_eq := size_put c row value
  get_eq other hne := by rw [hc.get_put h, if_neg hne]

end Columnar.Column
