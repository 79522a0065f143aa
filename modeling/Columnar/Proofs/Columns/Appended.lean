import Columnar.Proofs.Columns
import Mathlib.Data.List.Induction

/-!
# Appending to columns

What appending and clearing do to the list of values that a column holds, for each way of storing
the values.

## Columns of fixed width

The validity bitmap of a column is the list with the values left out (`toList_validity`), and the
stored values are the list with a default in place of every missing value (`Filled`). So **a column
of fixed width is determined by its list**, whatever was written to it before. `Filled` is an
invariant and not true by construction: a row that is overwritten by a missing value has its stored
value replaced too.

## Columns of text

Here the buffer remembers more than the list. It is the texts that were written, one behind the
other, those included that were overwritten since (`Buffers`), and its length is what is charged to
the budget. A text for which there is room is appended, with its bytes behind the buffer; one for
which there is none is refused and leaves everything as it was. Clearing forgets the buffer but not
the budget.

The lemmas at the end say the same for a column of any storage.
-/

namespace Columnar

namespace FixedColumn

variable {α : Type} {c : FixedColumn α}

theorem Aligned.toList_validity (hc : c.Aligned) :
    c.validity.toList = c.toList.map Option.isSome := by
  refine List.ext_getElem? fun index ↦ ?_
  rw [List.getElem?_map, hc.getElem?_toList, Bitmap.getElem?_toList, hc.size_validity, size]
  by_cases h : index < c.values.size
  · cases c.validity.bit index <;> simp [h]
  · simp [h]

@[simp]
theorem toList_empty : (empty : FixedColumn α).toList = [] := rfl

variable [Inhabited α]

/-- Behind a missing value stands the default. -/
def Filled (c : FixedColumn α) : Prop := c.values.toList = c.toList.map (·.getD default)

theorem filled_empty : (empty : FixedColumn α).Filled := rfl

theorem filled_nulls (n : Nat) : (nulls n : FixedColumn α).Filled := by
  rw [Filled, toList_nulls]
  simp [nulls]

theorem Filled.push (hfilled : c.Filled) (hc : c.Aligned) (value : Option α) :
    (c.push value).Filled := by
  rw [Filled, hc.toList_push, List.map_append, ← hfilled]
  exact Array.toList_push

theorem Filled.put (hfilled : c.Filled) (hc : c.Aligned) {index : Nat} (h : index < c.size)
    (value : Option α) : (c.put index value).Filled := by
  rw [Filled, hc.toList_put h, List.map_set, ← hfilled]
  exact Array.toList_setIfInBounds

/-- The column of a list holds the list, with defaults behind the missing values. -/
theorem ofList_eq (values : List (Option α)) :
    (ofList values).toList = values ∧ (ofList values).Filled := by
  induction values using List.reverseRecOn with
  | nil => exact ⟨rfl, filled_empty⟩
  | append_singleton values value ih =>
    have hpush : ofList (values ++ [value]) = (ofList values).push value :=
      List.foldl_concat _ _ _ _
    rw [hpush, (aligned_ofList values).toList_push, ih.1]
    exact ⟨rfl, ih.2.push (aligned_ofList values) value⟩

end FixedColumn

namespace FlagColumn

variable {c : FlagColumn}

theorem Aligned.toList_validity (hc : c.Aligned) :
    c.validity.toList = c.toList.map Option.isSome := by
  refine List.ext_getElem? fun index ↦ ?_
  rw [List.getElem?_map, hc.getElem?_toList, Bitmap.getElem?_toList, hc.size_validity]
  by_cases h : index < c.size
  · cases c.validity.bit index <;> simp [h]
  · simp [h]

@[simp]
theorem toList_empty : empty.toList = [] := rfl

/-- The column of a list holds the list. -/
theorem ofList_eq (values : List (Option Bool)) :
    (ofList values).Aligned ∧ (ofList values).toList = values := by
  induction values using List.reverseRecOn with
  | nil => exact ⟨aligned_empty, rfl⟩
  | append_singleton values value ih =>
    have hpush : ofList (values ++ [value]) = (ofList values).push value :=
      List.foldl_concat _ _ _ _
    rw [hpush, ih.1.toList_push, ih.2]
    exact ⟨ih.1.push value, rfl⟩

end FlagColumn

namespace TextColumn

variable {c c' : TextColumn} {value : Option String}

theorem Aligned.toList_validity (hc : c.Aligned) :
    c.validity.toList = c.toList.map Option.isSome := by
  refine List.ext_getElem? fun index ↦ ?_
  rw [List.getElem?_map, hc.getElem?_toList, Bitmap.getElem?_toList, hc.size_validity, size]
  by_cases h : index < c.spans.size
  · cases hbit : c.validity.bit index with
    | false => simp [h]
    | true =>
      obtain ⟨text, htext⟩ := hc.exists_text index _ (Array.getElem?_eq_getElem h) hbit
      simp [h, htext, Except.toOption]
  · simp [h]

/-- A value that is appended takes the place behind the last row, and its bytes the place behind the
buffer. -/
structure Appended (c : TextColumn) (value : Option String) (c' : TextColumn) : Prop where
  aligned : c'.Aligned
  toList_eq : c'.toList = c.toList ++ [value]
  bytes_eq : c'.bytes = appendText c.bytes value
  byteLimit_eq : c'.byteLimit = c.byteLimit

/-- A value for which there is no room is refused. -/
theorem push_of_overflow? {refusal : ColumnError} (h : c.overflow? value = some refusal) :
    c.push value = .error refusal := by
  rw [push, h]

/-- A text in the buffer stays where it is when a value is appended. -/
theorem textAt_appendText (hbytes : c'.bytes = appendText c.bytes value) {span : Span}
    {text : String} (h : c.textAt span = .ok text) : c'.textAt span = .ok text := by
  cases value with
  | none => exact textAt_append (hbytes.trans ByteArray.append_empty.symm) h
  | some new => exact textAt_append hbytes h

/-- A value for which there is room is appended. -/
theorem Aligned.push (hc : c.Aligned) (hroom : c.overflow? value = none) :
    ∃ c', c.push value = .ok c' ∧ Appended c value c' := by
  set c' : TextColumn :=
    { c with
      bytes := appendText c.bytes value
      spans := c.spans.push (c.nextSpan value)
      validity := c.validity.push value.isSome } with hc'
  have hpush : c.push value = .ok c' := by rw [TextColumn.push, hroom]
  have hspans (index : Nat) : c'.spans[index]? =
      if c.size = index then some (c.nextSpan value) else c.spans[index]? := by
    simp only [hc', Array.getElem?_push, size, eq_comm]
  have hbit (index : Nat) : c'.validity.bit index =
      if c.size = index then value.isSome else c.validity.bit index := by
    rw [← hc.size_validity]
    exact hc.packed.bit_push _ _
  have hnew (text : String) (h : value = some text) :
      c'.textAt (c.nextSpan value) = .ok text := by
    subst h
    exact textAt_nextSpan rfl hroom
  have haligned : c'.Aligned := by
    refine ⟨hc.packed.push value.isSome, ?_, fun index span hspan hpresent ↦ ?_⟩
    · show c.validity.size + 1 = (c.spans.push _).size
      rw [hc.size_validity, Array.size_push, size]
    · rw [hbit] at hpresent
      rw [hspans] at hspan
      split_ifs at hspan hpresent with he
      · obtain rfl := Option.some.inj hspan
        obtain ⟨text, htext⟩ := Option.isSome_iff_exists.1 hpresent
        exact ⟨text, hnew text htext⟩
      · obtain ⟨text, htext⟩ := hc.exists_text index span hspan hpresent
        exact ⟨text, textAt_appendText rfl htext⟩
  refine ⟨c', hpush, haligned, List.ext_getElem? fun index ↦ ?_, rfl, rfl⟩
  rw [haligned.getElem?_toList, hspans, hbit]
  rcases Nat.lt_trichotomy index c.size with hlt | rfl | hgt
  case inl =>
    obtain ⟨span, hspan⟩ : ∃ span, c.spans[index]? = some span :=
      ⟨_, Array.getElem?_eq_getElem hlt⟩
    rw [List.getElem?_append_left (hc.length_toList.symm ▸ hlt), hc.getElem?_toList, hspan,
      if_neg (Nat.ne_of_gt hlt), if_neg (Nat.ne_of_gt hlt)]
    cases hpresent : c.validity.bit index with
    | false => rfl
    | true =>
      obtain ⟨text, htext⟩ := hc.exists_text index span hspan hpresent
      have htext' : c'.textAt span = .ok text := textAt_appendText rfl htext
      simp only [Option.map_some, if_true]
      rw [htext, htext']
  case inr.inl =>
    rw [← hc.length_toList, List.getElem?_concat_length, hc.length_toList, if_pos rfl, if_pos rfl]
    cases value with
    | none => rfl
    | some text => simp [hnew text rfl, Except.toOption]
  case inr.inr =>
    rw [if_neg (Nat.ne_of_lt hgt), if_neg (Nat.ne_of_lt hgt),
      Array.getElem?_eq_none (Nat.le_of_lt hgt), List.getElem?_eq_none]
    · rfl
    · rw [List.length_append, hc.length_toList]
      exact hgt

theorem aligned_empty : empty.Aligned := aligned_nulls 0

/-- What is left of a cleared column is its byte budget. -/
theorem aligned_clear (c : TextColumn) : c.clear.Aligned := aligned_empty.setByteLimit c.byteLimit

/-! ### The bytes of the texts -/

/-- The buffer holds some texts one behind the other, and spans can address all of it. -/
structure Buffers (c : TextColumn) (texts : List String) : Prop where
  bytes_eq : c.bytes = (String.join texts).toUTF8
  usedBytes_le : c.usedBytes ≤ maxBytes

variable {texts : List String}

/-- How many bytes some texts have. -/
def bytesOf (texts : List String) : Nat :=
  texts.foldr (fun text bytes ↦ text.utf8ByteSize + bytes) 0

theorem utf8ByteSize_join (texts : List String) :
    (String.join texts).utf8ByteSize = bytesOf texts := by
  induction texts with
  | nil => rfl
  | cons text texts ih =>
    rw [String.join_cons, String.utf8ByteSize_append, ih]
    rfl

/-- The bytes in use are those of the texts. -/
theorem Buffers.usedBytes_eq (h : c.Buffers texts) :
    c.usedBytes = bytesOf texts := by
  rw [← utf8ByteSize_join, usedBytes, h.bytes_eq]
  rfl

theorem buffers_of_isEmpty (h : c.bytes = .empty) : c.Buffers [] where
  bytes_eq := h
  usedBytes_le := by
    rw [usedBytes, h]
    exact Nat.zero_le _

theorem budget_le_maxBytes (c : TextColumn) : c.budget ≤ maxBytes := by
  rw [budget]
  split
  · exact Nat.le_refl _
  · exact Nat.min_le_right _ _

/-- Writing a value puts its bytes behind the others. -/
theorem Buffers.write (h : c.Buffers texts) (hroom : c.overflow? value = none)
    (hbytes : c'.bytes = appendText c.bytes value) : c'.Buffers (texts ++ value.toList) := by
  cases value with
  | none =>
    rw [Option.toList_none, List.append_nil]
    refine ⟨hbytes.trans h.bytes_eq, ?_⟩
    rw [usedBytes, hbytes]
    exact h.usedBytes_le
  | some text =>
    have hbytes : c'.bytes = c.bytes ++ text.toUTF8 := hbytes
    constructor
    · rw [hbytes, h.bytes_eq, Option.toList_some, String.join_append, String.join_cons,
        String.toUTF8_eq_toByteArray, String.toUTF8_eq_toByteArray, String.toUTF8_eq_toByteArray,
        ← String.toByteArray_append]
      simp
    · have hfits : c.usedBytes + text.utf8ByteSize ≤ c.budget := by
        by_contra hover
        simp [overflow?, hover] at hroom
      rw [usedBytes, hbytes, ByteArray.size_append]
      exact Nat.le_trans hfits c.budget_le_maxBytes

/-- Values that are appended one after the other. -/
theorem Aligned.of_foldlM_push {values : List (Option String)} (hc : c.Aligned)
    (hbuffers : c.Buffers texts) (h : values.foldlM TextColumn.push c = .ok c') :
    c'.Aligned ∧ c'.toList = c.toList ++ values ∧ c'.byteLimit = c.byteLimit ∧
      c'.Buffers (texts ++ values.flatMap Option.toList) := by
  induction values generalizing c texts with
  | nil =>
    obtain rfl := Except.ok.inj h
    exact ⟨hc, (List.append_nil _).symm, rfl, (List.append_nil texts).symm ▸ hbuffers⟩
  | cons value values ih =>
    rw [List.foldlM_cons] at h
    obtain ⟨next, hnext, h⟩ := exists_of_bind_eq_ok h
    cases hroom : c.overflow? value with
    | some refusal => cases (push_of_overflow? hroom).symm.trans hnext
    | none =>
      obtain ⟨pushed, hpushed, hpush⟩ := hc.push hroom
      obtain rfl := Except.ok.inj (hpushed.symm.trans hnext)
      obtain ⟨haligned, htoList, hlimit, hbuffers⟩ :=
        ih hpush.aligned (hbuffers.write hroom hpush.bytes_eq) h
      refine ⟨haligned, ?_, hlimit.trans hpush.byteLimit_eq, ?_⟩
      · rw [htoList, hpush.toList_eq, List.append_assoc, List.singleton_append]
      · rwa [List.append_assoc] at hbuffers

/-- The column of a list holds the list, and the bytes of its texts. -/
theorem ofList_eq {values : List (Option String)} (h : ofList values = .ok c) :
    c.Aligned ∧ c.toList = values ∧ c.byteLimit = none ∧ c.Buffers (values.flatMap Option.toList) :=
  aligned_empty.of_foldlM_push (buffers_of_isEmpty rfl) h

end TextColumn

namespace Column

variable {c c' : Column} {index : Nat} {value : Option Scalar}

/-- Behind a missing value of fixed width stands the default. -/
def Filled : Column → Prop
  | int32 d => d.Filled
  | int64 d => d.Filled
  | double d => d.Filled
  | boolean _ | text _ => True

theorem Aligned.toList_validity (hc : c.Aligned) :
    c.validity.toList = c.toList.map Option.isSome := by
  cases c with
  | boolean d => simp [validity, toList, FlagColumn.Aligned.toList_validity hc]
  | int32 d | int64 d | double d => simp [validity, toList, FixedColumn.Aligned.toList_validity hc]
  | text d => simp [validity, toList, TextColumn.Aligned.toList_validity hc]

theorem Aligned.packed (hc : c.Aligned) : c.validity.Packed := by
  cases c with
  | boolean d => exact FlagColumn.Aligned.packed hc
  | int32 d | int64 d | double d => exact FixedColumn.Aligned.packed hc
  | text d => exact TextColumn.Aligned.packed hc

theorem toList_nulls (t : DataType) (n : Nat) : (nulls t n).toList = List.replicate n none := by
  cases t <;> simp [nulls, toList]

theorem filled_nulls (t : DataType) (n : Nat) : (nulls t n).Filled := by
  cases t with
  | boolean | varchar => trivial
  | integer | bigInt | double => exact FixedColumn.filled_nulls n

/-- What a column has become that took a value and now holds `rows`. -/
structure Written (c : Column) (value : Option Scalar) (rows : List (Option Scalar))
    (c' : Column) : Prop where
  aligned : c'.Aligned
  toList_eq : c'.toList = rows
  storage_eq : c'.storage = c.storage
  filled : c.Filled → c'.Filled
  bytes : ∀ d, c = text d → ∃ d' v, c' = text d' ∧ value = v.map .text ∧
    d'.bytes = TextColumn.appendText d.bytes v ∧ d'.byteLimit = d.byteLimit

/-- A value of another storage is not appended. -/
theorem push_of_not_suits {v : Scalar} (h : v.storage ≠ c.storage) :
    c.push (some v) = .error (.wrongElement c.storage v.storage) := by
  cases c <;> cases v <;> first | rfl | exact absurd rfl h

/-- A text for which there is no room is not appended. -/
theorem push_of_overflow? {refusal : ColumnError} (h : c.overflow? value = some refusal) :
    c.push value = .error refusal := by
  cases c with
  | text d =>
    rcases value with _ | v
    · cases h
    · cases v with
      | text v =>
        have h : d.overflow? (some v) = some refusal := h
        rw [push, TextColumn.push_of_overflow? h]
        rfl
      | _ => cases h
  | _ => cases h

theorem push_boolean (d : FlagColumn) (v : Option Bool) :
    (boolean d).push (v.map .boolean) = .ok (boolean (d.push v)) := by
  cases v <;> rfl

theorem push_int32 (d : FixedColumn Int32) (v : Option Int32) :
    (int32 d).push (v.map .int32) = .ok (int32 (d.push v)) := by
  cases v <;> rfl

theorem push_int64 (d : FixedColumn Int64) (v : Option Int64) :
    (int64 d).push (v.map .int64) = .ok (int64 (d.push v)) := by
  cases v <;> rfl

theorem push_double (d : FixedColumn Double) (v : Option Double) :
    (double d).push (v.map .double) = .ok (double (d.push v)) := by
  cases v <;> rfl

theorem push_text (d : TextColumn) (v : Option String) :
    (text d).push (v.map .text) = (d.push v).map text := by
  cases v <;> rfl

/-- A value that suits the column is appended if there is room for it. -/
theorem Aligned.push (hc : c.Aligned) (hsuits : c.Suits value) (hroom : c.overflow? value = none) :
    ∃ c', c.push value = .ok c' ∧ Written c value (c.toList ++ [value]) c' := by
  cases hsuits.typed with
  | boolean d v =>
    refine ⟨_, push_boolean d v, FlagColumn.Aligned.push hc v, ?_, rfl, id, fun _ h ↦ by cases h⟩
    simp [toList, FlagColumn.Aligned.toList_push hc]
  | int32 d v | int64 d v | double d v =>
    simp only [push_int32, push_int64, push_double]
    refine ⟨_, rfl, FixedColumn.Aligned.push hc v, ?_, rfl,
      fun hfilled ↦ FixedColumn.Filled.push hfilled hc v, fun _ h ↦ by cases h⟩
    simp [toList, FixedColumn.Aligned.toList_push hc]
  | text d v =>
    rw [overflow?_text] at hroom
    obtain ⟨d', hpushed, happended⟩ := TextColumn.Aligned.push hc hroom
    refine ⟨text d', by rw [push_text, hpushed]; rfl, happended.aligned, ?_, rfl, id, ?_⟩
    · simp [toList, happended.toList_eq]
    · rintro _ ⟨⟩
      exact ⟨d', v, rfl, rfl, happended.bytes_eq, happended.byteLimit_eq⟩

/-- A value that is not refused is written over a row. -/
theorem Aligned.written_put (hc : c.Aligned) (h : c.refusal? index value = none) :
    Written c value (c.toList.set index value) (c.put index value) := by
  have haligned := hc.put h
  obtain ⟨hsuits, hindex, hroom⟩ := refusal?_eq_none_iff.1 h
  cases hsuits.typed with
  | boolean d v =>
    rw [put_boolean] at haligned ⊢
    refine ⟨haligned, ?_, rfl, id, fun _ h ↦ by cases h⟩
    simp [toList, FlagColumn.Aligned.toList_put hc hindex]
  | int32 d v | int64 d v | double d v =>
    simp only [put_int32, put_int64, put_double] at haligned ⊢
    refine ⟨haligned, ?_, rfl, fun hfilled ↦ FixedColumn.Filled.put hfilled hc hindex v,
      fun _ h ↦ by cases h⟩
    simp [toList, FixedColumn.Aligned.toList_put hc hindex]
  | text d v =>
    rw [overflow?_text] at hroom
    rw [put_text] at haligned ⊢
    refine ⟨haligned, ?_, rfl, id, ?_⟩
    · simp [toList, TextColumn.Aligned.toList_put hc hindex hroom]
    · rintro _ ⟨⟩
      exact ⟨d.put index v, v, rfl, rfl, rfl, rfl⟩

end Column

end Columnar
