import Columnar.Proofs.Columns.Lists

/-!
# Spans of whole texts

A column of texts addresses its buffer by spans of 32 bits. However the column was made and written
to, the span of a present value is inside the buffer and covers the bytes of the text that was
written there last, no more and no less (`Keeps.whole`): so reading it never fails and needs no
check, neither of its bounds nor of what its bytes encode.

It rests on two facts about ledgers. The buffer is the written texts one behind the other, so a span
that was once given to a text goes on covering it, whatever is written later. And **the buffer never
outgrows what spans can address**, since the budget is bounded by that even where no limit was set.
The second fact is what makes the offsets of 32 bits exact.

There is room for a text exactly if its bytes fit behind those in use (`Keeps.run_write`). Bytes of
texts that were overwritten are in use, so room is only regained by clearing the column.
-/

namespace Columnar

namespace TextColumn

variable {c : TextColumn} {span : Span} {text : String}

/-- Reading a span gives a text exactly if the bytes in it are those of the text. -/
theorem extract_of_textAt (h : c.textAt span = .ok text) :
    span.offset.toNat + span.size.toNat ≤ c.usedBytes ∧
      c.bytes.extract span.offset.toNat (span.offset.toNat + span.size.toNat) = text.toUTF8 := by
  rw [textAt] at h
  by_cases hle : span.offset.toNat + span.size.toNat ≤ c.bytes.size
  · rw [if_pos hle, String.fromUTF8?] at h
    refine ⟨hle, ?_⟩
    split at h
    · rename_i read hread
      split at hread
      · cases hread
        cases h
        rfl
      · cases hread
    · cases h
  · rw [if_neg hle] at h
    cases h

/-- The buffer of a column is the texts of a ledger, and its spans cover those of the rows. -/
structure Whole (c : TextColumn) (l : Ledger) : Prop where
  /-- A span that is present is inside the buffer, and the bytes in it are those of the text that
  was written last in its place. -/
  covers : ∀ index span, c.spans[index]? = some span → c.validity.bit index = true →
    ∃ text, l.rows[index]? = some (some (.text text)) ∧
      span.offset.toNat + span.size.toNat ≤ c.usedBytes ∧
      c.bytes.extract span.offset.toNat (span.offset.toNat + span.size.toNat) = text.toUTF8
  missing : ∀ index span, c.spans[index]? = some span → c.validity.bit index = false →
    l.rows[index]? = some none
  size_eq : c.spans.size = l.rows.length
  bytes_eq : c.bytes = (String.join l.texts).toUTF8
  usedBytes_eq : c.usedBytes = bytesOf l.texts
  usedBytes_lt : c.usedBytes < UInt32.size

/-- Write a text to a row that is there, or behind the last one. -/
def Writes (c : TextColumn) (text : String) (call : Column.Call) : Prop :=
  call = .push (some (.text text)) ∨ ∃ index < c.size, call = .set index (some (.text text))

end TextColumn

namespace Column

variable {d : TextColumn} {l : Ledger}

/-- The spans of a column that keeps a ledger cover the texts of the ledger. -/
theorem Keeps.whole (h : Keeps (text d) l) : d.Whole l := by
  obtain ⟨hbuffers, -⟩ := h.bytes d rfl
  have haligned : d.Aligned := h.aligned
  have hrow {index : Nat} {span : Span} (hspan : d.spans[index]? = some span) :
      l.rows[index]? = some (if d.validity.bit index then
        (d.textAt span).toOption.map Scalar.text else none) := by
    rw [← h.toList_eq, toList, List.getElem?_map, haligned.getElem?_toList, hspan]
    cases d.validity.bit index <;> rfl
  refine ⟨fun index span hspan hbit ↦ ?_, fun index span hspan hbit ↦ ?_, h.size_eq,
    hbuffers.bytes_eq, hbuffers.usedBytes_eq, ?_⟩
  · obtain ⟨text, htext⟩ := haligned.exists_text index span hspan hbit
    refine ⟨text, ?_, TextColumn.extract_of_textAt htext⟩
    rw [hrow hspan, hbit, htext]
    rfl
  · rw [hrow hspan, hbit]
    rfl
  · exact Nat.lt_of_le_of_lt hbuffers.usedBytes_le (by decide)

theorem run_singleton {c : Column} {call : Call} {r : Except ColumnError Column}
    (h : c.perform call = .ok r) : c.run [call] = .ok ((outcome c r).1, [(outcome c r).2]) := by
  simp only [run, h, Checked.ok_bind, Checked.pure_eq_ok]

/-- A text is written exactly if its bytes fit behind those in use. If they do not, the column stays
as it is. -/
theorem Keeps.run_write (h : Keeps (text d) l) {call : Call} {new : String}
    (hcall : d.Writes new call) :
    if d.usedBytes + new.utf8ByteSize ≤ l.budget then
      ∃ d', (text d).run [call] = .ok (text d', [.ok ()])
    else (text d).run [call] =
      .ok (text d, [.error (.overBudget new.utf8ByteSize d.usedBytes l.budget)]) := by
  have hused : d.usedBytes = l.usedBytes := (h.bytes d rfl).1.usedBytes_eq
  have hstorage : l.storage = .text := h.storage_eq.symm
  obtain ⟨rows, hperform⟩ : ∃ rows, l.perform call =
      l.write rows (some (.text new)) (l.overflow? (some (.text new))) := by
    have hmismatch : l.mismatch? (some (.text new)) = none := if_pos hstorage.symm
    rcases hcall with rfl | ⟨index, hindex, rfl⟩
    · refine ⟨l.rows ++ [some (.text new)], ?_⟩
      rw [Ledger.perform, Ledger.push, hmismatch, Option.none_or]
    · have hmissing : l.missing? index = none := if_pos (h.size_eq ▸ hindex)
      refine ⟨l.rows.set index (some (.text new)), ?_⟩
      rw [Ledger.perform, Ledger.set, hmismatch, hmissing, Option.none_or, Option.none_or]
  have hreadable : call.Readable l.storage := by
    rcases hcall with rfl | ⟨index, -, rfl⟩ <;> trivial
  obtain ⟨r, hr, hagree⟩ := h.perform hreadable
  rw [run_singleton hr, hused]
  rw [hperform, Ledger.overflow?] at hagree
  split_ifs at hagree ⊢ with hroom
  · rw [Ledger.write] at hagree
    cases hagree with
    | @ok c' _ hkeeps =>
      have hstorage' : c'.storage = .text := hkeeps.storage_eq.trans hstorage
      cases c' with
      | text d' => exact ⟨d', rfl⟩
      | _ => cases hstorage'
  · rw [Ledger.write] at hagree
    cases hagree
    rfl

/-- Texts stay whole: however a column of texts is made and whatever calls follow, a span that is
present covers the text that was written last in its place, the buffer is the texts written since
the column was made or cleared, and a text is refused exactly if it does not fit behind them, which
changes nothing. -/
theorem Built.whole_texts {rows : List (Option Scalar)} (hbuilt : Built (text d) rows)
    {calls : List Call} (hcalls : ∀ call ∈ calls, call.Readable .text) :
    ∃ d' answers, (text d).run calls = .ok (text d', answers) ∧
      d'.Whole ((Ledger.ofRows .text rows).run calls).1 ∧
      ∀ call new, d'.Writes new call →
        if d'.usedBytes + new.utf8ByteSize ≤ ((Ledger.ofRows .text rows).run calls).1.budget then
          ∃ d'', (text d').run [call] = .ok (text d'', [.ok ()])
        else (text d').run [call] = .ok (text d', [.error (.overBudget new.utf8ByteSize d'.usedBytes
          ((Ledger.ofRows .text rows).run calls).1.budget)]) := by
  obtain ⟨c', hrun, hkeeps⟩ := hbuilt.keeps.run hcalls
  have hstorage : c'.storage = .text := hkeeps.storage_eq.trans (Ledger.storage_run _ calls)
  cases c' with
  | text d' => exact ⟨d', _, hrun, hkeeps.whole, fun _ _ hcall ↦ hkeeps.run_write hcall⟩
  | _ => cases hstorage

/-- A column of texts in which one is overwritten and one does not fit below a lowered budget. -/
def scribbles : List Call :=
  [.set 0 (some (.text "äb")), .push (some (.text "cd")), .set 0 (some (.text "e")),
    .setByteLimit (some 4), .push (some (.text "")), .set 1 none]

theorem Built.whole_texts_scribbles :
    (∀ call ∈ scribbles, call.Readable .text) ∧
      ∃ d' answers, (text (.nulls 2)).run scribbles = .ok (text d', answers) ∧
        d'.Whole
          ⟨.text, [some (.text "e"), none, some (.text "cd")], ["äb", "cd", "e"], some 4⟩ := by
  have hcalls : ∀ call ∈ scribbles, call.Readable .text := by simp [scribbles, Call.Readable]
  obtain ⟨d', answers, hrun, hwhole, -⟩ := (Built.nulls .varchar 2).whole_texts hcalls
  exact ⟨hcalls, d', answers, hrun, hwhole⟩

end Column

end Columnar
