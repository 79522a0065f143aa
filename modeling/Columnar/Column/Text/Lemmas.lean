import Columnar.Column.Lemmas
import Columnar.Column.Text

/-!
# Columns of text as lists

What reading and overwriting do to the list of optional texts that a column holds. The columns here
are `Aligned`: there is one validity bit to every span, and every span that is present is that of a
text in the buffer.

Everything rests on one fact about buffers. Bytes are only ever put behind the others, so a span
keeps its text whatever is written later (`textAt_append`); and a text that fits is behind the
buffer where its span says (`textAt_nextSpan`), because the budget is never more than spans can
address (`budget_lt`). **Without the bound the offset would wrap around**, and the row would read as
some earlier text.

With these two a column of texts behaves like one of fixed width, for texts that fit. That a text
may be refused is the one difference, and it is a hypothesis here; the modules on columns of any
storage say when it holds.
-/

namespace Columnar.TextColumn

variable {c c' : TextColumn} {index : Nat} {value : Option String}

/-- One validity bit to every span, and a text to every span that is present. -/
structure Aligned (c : TextColumn) : Prop where
  packed : c.validity.Packed
  size_validity : c.validity.size = c.size
  exists_text : ∀ index span, c.spans[index]? = some span → c.validity.bit index = true →
    ∃ text, c.textAt span = .ok text

/-! ### Spans -/

/-- A span keeps its text when bytes are put behind the buffer. -/
theorem textAt_append {more : ByteArray} (hbytes : c'.bytes = c.bytes ++ more) {span : Span}
    {text : String} (h : c.textAt span = .ok text) : c'.textAt span = .ok text := by
  rw [textAt] at h ⊢
  by_cases hle : span.offset.toNat + span.size.toNat ≤ c.bytes.size
  · have hle' : span.offset.toNat + span.size.toNat ≤ c'.bytes.size := by
      rw [hbytes, ByteArray.size_append]
      omega
    have hextract : c'.bytes.extract span.offset.toNat (span.offset.toNat + span.size.toNat) =
        c.bytes.extract span.offset.toNat (span.offset.toNat + span.size.toNat) := by
      rw [hbytes, ByteArray.extract_append, Nat.sub_eq_zero_of_le hle,
        ByteArray.extract_eq_empty_iff.2 (Nat.le_trans (Nat.min_le_left 0 _) (Nat.zero_le _)),
        ByteArray.append_empty]
    rw [if_pos hle', hextract]
    rwa [if_pos hle] at h
  · rw [if_neg hle] at h
    cases h

theorem budget_lt (c : TextColumn) : c.budget < UInt32.size := by
  have hmax : maxBytes < UInt32.size := by decide
  rw [budget]
  split
  · exact hmax
  · exact Nat.lt_of_le_of_lt (Nat.min_le_right _ _) hmax

/-- A text that fits is behind the buffer where its span says. -/
theorem textAt_nextSpan {text : String} (hbytes : c'.bytes = c.bytes ++ text.toUTF8)
    (hroom : c.overflow? (some text) = none) : c'.textAt (c.nextSpan (some text)) = .ok text := by
  have hfits : c.usedBytes + text.utf8ByteSize ≤ c.budget := by
    simp only [overflow?] at hroom
    split at hroom
    · assumption
    · cases hroom
  have hlt := Nat.lt_of_le_of_lt hfits c.budget_lt
  have hoffset : c.usedBytes.toUInt32.toNat = c.usedBytes :=
    Nat.mod_eq_of_lt (Nat.lt_of_le_of_lt (Nat.le_add_right _ _) hlt)
  have hsize : text.utf8ByteSize.toUInt32.toNat = text.utf8ByteSize :=
    Nat.mod_eq_of_lt (Nat.lt_of_le_of_lt (Nat.le_add_left _ _) hlt)
  have hlength : c'.bytes.size = c.usedBytes + text.utf8ByteSize := by
    rw [hbytes, ByteArray.size_append]
    rfl
  have hextract : c'.bytes.extract c.usedBytes (c.usedBytes + text.utf8ByteSize) = text.toUTF8 := by
    rw [hbytes]
    exact ByteArray.extract_append_eq_right rfl rfl
  have hread : String.fromUTF8? text.toUTF8 = some text := by
    rw [String.fromUTF8?, String.toUTF8_eq_toByteArray, dif_pos text.isValidUTF8]
    rfl
  rw [textAt]
  simp only [nextSpan, hoffset, hsize, hlength, Nat.le_refl, if_true, hextract, hread]

/-! ### The list of texts -/

theorem Aligned.length_eq (hc : c.Aligned) : c.spans.toList.length = c.validity.toList.length := by
  rw [Bitmap.length_toList, hc.size_validity, Array.length_toList, size]

theorem Aligned.length_toList (hc : c.Aligned) : c.toList.length = c.size := by
  rw [toList, List.length_zipWith, ← hc.length_eq, Nat.min_self, Array.length_toList, size]

theorem Aligned.getElem?_toList (hc : c.Aligned) (index : Nat) :
    c.toList[index]? = c.spans[index]?.map fun span ↦
      if c.validity.bit index then (c.textAt span).toOption else none := by
  rw [toList, getElem?_zipWith_of_length_eq _ hc.length_eq _ false, Array.getElem?_toList]
  by_cases hi : index < c.spans.size
  · have hv : index < c.validity.size := hc.size_validity ▸ hi
    simp [hi, hv]
  · simp [hi]

/-- Reading a row reads the list. -/
theorem Aligned.get_eq (hc : c.Aligned) {index : Nat} (h : index < c.toList.length) :
    c.get index = .ok c.toList[index] := by
  have hv : index < c.spans.size := Nat.lt_of_lt_of_eq h hc.length_toList
  have hget : c.toList[index] =
      if c.validity.bit index then (c.textAt c.spans[index]).toOption else none := by
    refine Option.some.inj ?_
    rw [← List.getElem?_eq_getElem, hc.getElem?_toList, Array.getElem?_eq_getElem hv,
      Option.map_some]
  rw [hget, get, hc.packed.get_eq (hc.size_validity ▸ hv)]
  cases hbit : c.validity.bit index with
  | true =>
    obtain ⟨text, htext⟩ := hc.exists_text index _ (Array.getElem?_eq_getElem hv) hbit
    simp [bind, Except.bind, pure, Except.pure, Checked.entry, hv, htext, Except.toOption]
  | false => simp [bind, Except.bind, pure, Except.pure]

theorem aligned_nulls (n : Nat) : (nulls n).Aligned where
  packed := Bitmap.packed_replicate n false
  size_validity := by simp [nulls, size, Bitmap.replicate]
  exists_text index span _ hbit := by simp [nulls, Bitmap.bit_replicate] at hbit

@[simp]
theorem toList_nulls (n : Nat) : (nulls n).toList = List.replicate n none := by
  refine List.ext_getElem? fun index ↦ ?_
  rw [(aligned_nulls n).getElem?_toList, List.getElem?_replicate]
  by_cases h : index < n <;> simp [nulls, Bitmap.bit_replicate, h]

/-- The byte budget does not matter to what is in a column. -/
theorem Aligned.setByteLimit (hc : c.Aligned) (limit : Option Nat) :
    (c.setByteLimit limit).Aligned :=
  ⟨hc.packed, hc.size_validity, hc.exists_text⟩

/-- A span of another row keeps its text when a row is overwritten. -/
theorem textAt_put (c : TextColumn) (index : Nat) (value : Option String) {span : Span}
    {text : String} (h : c.textAt span = .ok text) :
    (c.put index value).textAt span = .ok text := by
  cases value with
  | none => exact textAt_append ByteArray.append_empty.symm h
  | some new => exact textAt_append rfl h

theorem Aligned.put (hc : c.Aligned) (h : index < c.size) (hroom : c.overflow? value = none) :
    (c.put index value).Aligned where
  packed := hc.packed.put (hc.size_validity ▸ h) _
  size_validity := by
    simp only [TextColumn.put, Bitmap.size_put, size, Array.size_setIfInBounds]
    exact hc.size_validity
  exists_text other span hspan hbit := by
    simp only [TextColumn.put, Array.getElem?_setIfInBounds,
      Bitmap.bit_put _ (hc.packed.div_lt (hc.size_validity ▸ h))] at hspan hbit
    by_cases he : index = other
    · simp only [he, if_true] at hspan hbit
      split at hspan
      · obtain rfl := Option.some.inj hspan
        obtain ⟨text, rfl⟩ := Option.isSome_iff_exists.1 hbit
        exact ⟨text, textAt_nextSpan rfl hroom⟩
      · cases hspan
    · simp only [he, if_false] at hspan hbit
      obtain ⟨text, htext⟩ := hc.exists_text other span hspan hbit
      exact ⟨text, textAt_put c index value htext⟩

/-- Overwriting a row that exists with a text that fits replaces an element of the list. -/
theorem Aligned.toList_put (hc : c.Aligned) (h : index < c.size)
    (hroom : c.overflow? value = none) : (c.put index value).toList = c.toList.set index value := by
  have hbit (other : Nat) : (c.put index value).validity.bit other =
      if index = other then value.isSome else c.validity.bit other :=
    Bitmap.bit_put _ (hc.packed.div_lt (hc.size_validity ▸ h)) _ _
  have hspans (other : Nat) : (c.put index value).spans[other]? =
      if index = other then some (c.nextSpan value) else c.spans[other]? := by
    have h : index < c.spans.size := h
    simp only [TextColumn.put, Array.getElem?_setIfInBounds]
    by_cases he : index = other
    · simp [he, he ▸ h]
    · simp [he]
  refine List.ext_getElem? fun other ↦ ?_
  rw [(hc.put h hroom).getElem?_toList, List.getElem?_set, hc.length_toList, hc.getElem?_toList,
    hspans, hbit]
  by_cases he : index = other
  · simp only [he, if_true, he ▸ h, Option.map_some]
    cases value with
    | none => rfl
    | some text =>
      have htext : (c.put other (some text)).textAt (c.nextSpan (some text)) = .ok text :=
        textAt_nextSpan rfl hroom
      rw [htext]
      rfl
  · simp only [if_neg he]
    cases hspan : c.spans[other]? with
    | none => rfl
    | some span =>
      cases hpresent : c.validity.bit other with
      | false => rfl
      | true =>
        obtain ⟨text, htext⟩ := hc.exists_text other span hspan hpresent
        simp [htext, textAt_put c index value htext]

/-- There is nothing to be read behind the last row. -/
theorem Aligned.get_of_size_le (hc : c.Aligned) (h : c.size ≤ index) :
    c.get index = .error (.bit index c.size) := by
  rw [get, Bitmap.get, hc.size_validity, if_neg (Nat.not_lt_of_le h)]
  rfl

/-- A row that was overwritten reads as what was written, and the other rows as before. -/
theorem Aligned.get_put (hc : c.Aligned) (h : index < c.size) (hroom : c.overflow? value = none)
    {other : Nat} (hother : other < c.size) :
    (c.put index value).get other = if other = index then .ok value else c.get other := by
  have hlt : other < c.toList.length := hc.length_toList ▸ hother
  have hlt' : other < (c.put index value).toList.length := by
    rwa [hc.toList_put h hroom, List.length_set]
  rw [(hc.put h hroom).get_eq hlt', hc.get_eq hlt]
  simp only [hc.toList_put h hroom, List.getElem_set, eq_comm]
  split_ifs <;> rfl

end Columnar.TextColumn
