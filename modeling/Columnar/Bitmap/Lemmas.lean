import Columnar.Bitmap

/-!
# Bitmaps as lists

What each operation on bitmaps does to the list of bits. `Packed` is the shape that all of them
keep: there are just enough words, and the places beyond the size hold zeros.

## From words to bits

A word is known by its bits (`word_ext`), and writing a bit changes that bit alone
(`testBit_putBit`, `bit_put`). With these two no lemma behind the first section unfolds a mask.
Appending is a write as well, into a place that was zero and may need a new word (`bit_grown`).

## From bits to lists

`toList` reads the places one after the other, so an operation is described by what it does to the
list: replace, append, repeat. The list of bits of a packed bitmap determines its words
(`Packed.ext`), so that comparing words compares lists. **This needs both halves of `Packed`**: with
a word too many, or a one behind the last bit, two bitmaps of one list would differ.

Counting goes by words, and counts the list because the bits of all words one after the other are
the bits of their places (`flatMap_wordToList`) and those behind the last one are zeros.
-/

namespace Columnar.Bitmap

/-! ### Words -/

theorem toNat_mask (index : Nat) : (mask index).toNat = 1 <<< (index % wordBits) := by
  have h : index % wordBits < 64 := Nat.mod_lt _ (by decide)
  have hp : 2 ^ (index % wordBits) < 2 ^ 64 := Nat.pow_lt_pow_right (by decide) h
  simp only [mask, UInt64.toNat_shiftLeft, Nat.toUInt64_eq, UInt64.toNat_ofNat', UInt64.toNat_one]
  rw [Nat.mod_eq_of_lt (show index % wordBits < 2 ^ 64 by omega), Nat.mod_eq_of_lt h,
    Nat.one_shiftLeft, Nat.mod_eq_of_lt hp]

theorem testBit_mask (index place : Nat) :
    (mask index).toNat.testBit place = decide (index % wordBits = place) := by
  rw [toNat_mask, Nat.one_shiftLeft, Nat.testBit_two_pow]

/-- Replacing a bit of a word changes that bit alone. -/
theorem testBit_putBit (index : Nat) (value : Bool) (word : UInt64) {place : Nat}
    (h : place < wordBits) :
    (putBit index value word).toNat.testBit place =
      if index % wordBits = place then value else word.toNat.testBit place := by
  cases value with
  | true =>
    simp only [putBit, if_true, UInt64.toNat_or, Nat.testBit_or, testBit_mask]
    by_cases hp : index % wordBits = place <;> simp [hp]
  | false =>
    have hnot : (~~~mask index).toNat.testBit place = !decide (index % wordBits = place) := by
      have hm : (mask index).toNat < 2 ^ 64 := (mask index).toNat_lt
      rw [UInt64.toNat_not, show UInt64.size - 1 - (mask index).toNat =
        2 ^ 64 - ((mask index).toNat + 1) by simp only [UInt64.size]; omega,
        Nat.testBit_two_pow_sub_succ hm, testBit_mask]
      simp [show place < 64 from h]
    simp only [putBit, Bool.false_eq_true, if_false, UInt64.toNat_and, Nat.testBit_and, hnot]
    by_cases hp : index % wordBits = place <;> simp [hp]

/-- Two words with the same bits are equal. -/
theorem word_ext {a b : UInt64}
    (h : ∀ place < wordBits, a.toNat.testBit place = b.toNat.testBit place) : a = b := by
  refine UInt64.toNat_inj.1 (Nat.eq_of_testBit_eq fun place ↦ ?_)
  by_cases hp : place < wordBits
  · exact h place hp
  · have hle : 2 ^ 64 ≤ 2 ^ place := Nat.pow_le_pow_right (by decide) (by
      simp only [wordBits] at hp; omega)
    rw [Nat.testBit_lt_two_pow (Nat.lt_of_lt_of_le a.toNat_lt hle),
      Nat.testBit_lt_two_pow (Nat.lt_of_lt_of_le b.toNat_lt hle)]

/-- A word of equal bits. -/
theorem testBit_fill (value : Bool) {place : Nat} (h : place < wordBits) :
    (if value then (0xffffffffffffffff : UInt64) else 0).toNat.testBit place = value := by
  cases value with
  | true =>
    show (2 ^ 64 - 1 : Nat).testBit place = true
    rw [Nat.testBit_two_pow_sub_one]
    exact decide_eq_true h
  | false => simp

/-- The bits below a place. -/
theorem testBit_mask_sub_one (index place : Nat) :
    (mask index - 1).toNat.testBit place = decide (place < index % wordBits) := by
  have hone : (1 : UInt64) ≤ mask index := by
    rw [UInt64.le_iff_toNat_le, toNat_mask, Nat.one_shiftLeft]
    exact Nat.one_le_two_pow
  rw [UInt64.toNat_sub_of_le _ _ hone, toNat_mask, Nat.one_shiftLeft, UInt64.toNat_one,
    Nat.testBit_two_pow_sub_one]

/-! ### Places -/

variable (b : Bitmap)

/-- Writing into a place that has a word changes that bit alone. -/
theorem bit_put {index : Nat} (h : index / wordBits < b.words.size) (value : Bool) (other : Nat) :
    (b.put index value).bit other = if index = other then value else b.bit other := by
  have hmod : other % wordBits < wordBits := Nat.mod_lt _ (by decide)
  simp only [bit, put, Array.getD_eq_getD_getElem?, Array.getElem?_modify]
  by_cases hw : index / wordBits = other / wordBits
  · have hother : other / wordBits < b.words.size := hw ▸ h
    have hiff : index % wordBits = other % wordBits ↔ index = other := by
      simp only [wordBits] at hw ⊢
      omega
    simp only [hw, if_true, Array.getElem?_eq_getElem hother, Option.map_some, Option.getD_some,
      testBit_putBit _ _ _ hmod, hiff]
  · have hne : index ≠ other := fun he ↦ hw (he ▸ rfl)
    simp only [hw, if_false, hne]

theorem size_put (index : Nat) (value : Bool) : (b.put index value).size = b.size := rfl

theorem size_words_put (index : Nat) (value : Bool) :
    (b.put index value).words.size = b.words.size := by
  simp [put]

/-- Just enough words, and zeros beyond the size. -/
structure Packed (b : Bitmap) : Prop where
  size_words : b.words.size = wordCount b.size
  bit_beyond : ∀ index, b.size ≤ index → b.bit index = false

theorem div_lt_wordCount {index size : Nat} (h : index < size) :
    index / wordBits < wordCount size := by
  simp only [wordCount, wordBits]
  omega

variable {b}

theorem Packed.div_lt (hb : b.Packed) {index : Nat} (h : index < b.size) :
    index / wordBits < b.words.size :=
  hb.size_words ▸ div_lt_wordCount h

/-- Writing a bit keeps a bitmap packed. -/
theorem Packed.put (hb : b.Packed) {index : Nat} (h : index < b.size) (value : Bool) :
    (b.put index value).Packed where
  size_words := by rw [size_words_put, size_put, hb.size_words]
  bit_beyond other hother := by
    rw [size_put] at hother
    rw [bit_put b (hb.div_lt h), if_neg (by omega), hb.bit_beyond other hother]

theorem packed_empty : empty.Packed where
  size_words := rfl
  bit_beyond _ _ := by simp [bit, empty]

/-! ### The list of bits -/

@[simp]
theorem length_toList (b : Bitmap) : b.toList.length = b.size := by
  simp [toList]

theorem getElem?_toList (b : Bitmap) (index : Nat) :
    b.toList[index]? = if index < b.size then some (b.bit index) else none := by
  by_cases h : index < b.size <;> simp [toList, h]

@[simp]
theorem getElem_toList (b : Bitmap) {index : Nat} (h : index < b.toList.length) :
    b.toList[index] = b.bit index := by
  simp [toList]

/-- Reading a bit of a packed bitmap reads the list. -/
theorem Packed.get_eq (hb : b.Packed) {index : Nat} (h : index < b.size) :
    b.get index = .ok (b.bit index) := by
  rw [get, if_pos h, if_pos (hb.div_lt h)]

/-- Writing a bit replaces an element of the list. -/
theorem Packed.toList_put (hb : b.Packed) {index : Nat} (h : index < b.size) (value : Bool) :
    (b.put index value).toList = b.toList.set index value := by
  refine List.ext_getElem? fun other ↦ ?_
  rw [getElem?_toList, List.getElem?_set, getElem?_toList, length_toList, size_put,
    bit_put b (hb.div_lt h)]
  by_cases he : index = other
  · subst he
    simp [h]
  · simp [he]

/-- The words with room for one more bit. -/
theorem size_words_grown (hb : b.Packed) :
    (if b.size % wordBits = 0 then b.words.push 0 else b.words).size = wordCount (b.size + 1) := by
  by_cases h : b.size % wordBits = 0
  · rw [if_pos h, Array.size_push, hb.size_words]
    simp only [wordCount, wordBits] at h ⊢
    omega
  · rw [if_neg h, hb.size_words]
    simp only [wordCount, wordBits] at h ⊢
    omega

/-- A new word holds zeros. -/
theorem bit_grown (b : Bitmap) (index size : Nat) :
    (⟨if b.size % wordBits = 0 then b.words.push 0 else b.words, size⟩ : Bitmap).bit index =
      b.bit index := by
  simp only [bit, Array.getD_eq_getD_getElem?]
  split
  · rw [Array.getElem?_push]
    split
    · rename_i hi
      simp [hi]
    · rfl
  · rfl

theorem Packed.bit_push (hb : b.Packed) (value : Bool) (index : Nat) :
    (b.push value).bit index = if b.size = index then value else b.bit index := by
  have h := size_words_grown hb
  rw [push, bit_put _ (by rw [h]; exact div_lt_wordCount (Nat.lt_succ_self _)), bit_grown]

/-- Appending a bit keeps a bitmap packed. -/
theorem Packed.push (hb : b.Packed) (value : Bool) : (b.push value).Packed where
  size_words := by
    rw [Bitmap.push, size_words_put, size_put]
    exact size_words_grown hb
  bit_beyond index h := by
    have hs : (b.push value).size = b.size + 1 := rfl
    rw [hs] at h
    rw [hb.bit_push, if_neg (by omega), hb.bit_beyond index (by omega)]

/-- Appending a bit appends it to the list. -/
theorem Packed.toList_push (hb : b.Packed) (value : Bool) :
    (b.push value).toList = b.toList ++ [value] := by
  refine List.ext_getElem? fun index ↦ ?_
  have hs : (b.push value).size = b.size + 1 := rfl
  rw [getElem?_toList, hs, hb.bit_push, List.getElem?_append, length_toList, getElem?_toList]
  by_cases hlt : index < b.size
  · simp [hlt, show index < b.size + 1 by omega, show b.size ≠ index by omega]
  · by_cases he : b.size = index
    · simp [he]
    · simp [hlt, show ¬ index < b.size + 1 by omega, show index - b.size ≠ 0 by omega]

/-- The bitmap of a list is packed and holds the list. -/
theorem packed_ofList (bits : List Bool) : (ofList bits).Packed ∧ (ofList bits).toList = bits := by
  suffices h : ∀ (bits : List Bool) (b : Bitmap), b.Packed →
      (bits.foldl Bitmap.push b).Packed ∧ (bits.foldl Bitmap.push b).toList = b.toList ++ bits by
    simpa [ofList, toList, empty] using h bits empty packed_empty
  intro bits
  induction bits with
  | nil => intro b hb; simpa using hb
  | cons bit bits ih =>
    intro b hb
    obtain ⟨hp, hl⟩ := ih (b.push bit) (hb.push bit)
    refine ⟨hp, ?_⟩
    rw [List.foldl_cons, hl, hb.toList_push, List.append_assoc, List.singleton_append]

@[simp]
theorem toList_ofList (bits : List Bool) : (ofList bits).toList = bits :=
  (packed_ofList bits).2

/-- A packed bitmap is determined by its list of bits. -/
theorem Packed.ext {c : Bitmap} (hb : b.Packed) (hc : c.Packed) (h : b.toList = c.toList) :
    b = c := by
  have hsize : b.size = c.size := by simpa using congrArg List.length h
  have hbit (index : Nat) : b.bit index = c.bit index := by
    by_cases hi : index < b.size
    · have hl : b.toList[index]? = c.toList[index]? := by rw [h]
      rw [getElem?_toList, getElem?_toList, if_pos hi, if_pos (hsize ▸ hi)] at hl
      exact Option.some.inj hl
    · rw [hb.bit_beyond index (by omega), hc.bit_beyond index (by omega)]
  have hwords : b.words = c.words := by
    refine Array.ext (by rw [hb.size_words, hc.size_words, hsize]) fun i h₁ h₂ ↦
      word_ext fun place hp ↦ ?_
    have := hbit (i * wordBits + place)
    simp only [wordBits] at hp
    simpa [bit, wordBits, show (i * 64 + place) / 64 = i by omega,
      show (i * 64 + place) % 64 = place by omega, h₁, h₂] using this
  cases b
  cases c
  simp_all

/-! ### Equal bits -/

theorem bit_replicate (n : Nat) (value : Bool) (index : Nat) :
    (replicate n value).bit index = (decide (index < n) && value) := by
  have hmod : index % wordBits < wordBits := Nat.mod_lt _ (by decide)
  have hfill := testBit_fill value hmod
  simp only [bit, replicate, Array.getD_eq_getD_getElem?]
  by_cases hn : n % wordBits = 0
  · rw [if_pos hn, Array.getElem?_replicate]
    have hiff : index / wordBits < wordCount n ↔ index < n := by
      simp only [wordCount, wordBits] at hn ⊢
      omega
    by_cases hi : index < n <;> simp [hiff, hi, hfill]
  · rw [if_neg hn, Array.getElem?_modify, Array.getElem?_replicate]
    by_cases hw : index / wordBits < wordCount n
    · by_cases hl : n / wordBits = index / wordBits
      · have hiff : index % wordBits < n % wordBits ↔ index < n := by
          simp only [wordBits] at hl ⊢
          omega
        simp only [hl, hw, if_true, Option.map_some, Option.getD_some, UInt64.toNat_and,
          Nat.testBit_and, hfill, testBit_mask_sub_one, hiff, Bool.and_comm]
      · have hi : index < n := by
          simp only [wordCount, wordBits] at hl hw ⊢
          omega
        simp [hl, hw, hi, hfill]
    · have hi : ¬ index < n := fun h ↦ hw (div_lt_wordCount h)
      have hl : n / wordBits ≠ index / wordBits := by
        simp only [wordCount, wordBits] at hn hw ⊢
        omega
      simp [hw, hi, hl]

theorem packed_replicate (n : Nat) (value : Bool) : (replicate n value).Packed where
  size_words := by
    simp only [replicate]
    split <;> simp
  bit_beyond index h := by
    have h : n ≤ index := h
    rw [bit_replicate, decide_eq_false (by omega), Bool.false_and]

@[simp]
theorem toList_replicate (n : Nat) (value : Bool) :
    (replicate n value).toList = List.replicate n value := by
  have hs : (replicate n value).size = n := rfl
  refine List.ext_getElem? fun index ↦ ?_
  rw [getElem?_toList, hs, bit_replicate, List.getElem?_replicate]
  by_cases h : index < n <;> simp [h]

/-! ### Counting -/

/-- The bits of a word. -/
def wordToList (word : UInt64) : List Bool := (List.range wordBits).map word.toNat.testBit

theorem ones_eq (word : UInt64) : ones word = (wordToList word).count true := by
  simp [ones, wordToList, List.count_eq_countP, List.countP_map, Function.comp_def]

theorem foldl_ones (words : List UInt64) (count : Nat) :
    words.foldl (fun count word ↦ count + ones word) count =
      count + (words.flatMap wordToList).count true := by
  induction words generalizing count with
  | nil => simp
  | cons word words ih =>
    rw [List.foldl_cons, ih, List.flatMap_cons, List.count_append, ones_eq, Nat.add_assoc]

/-- The bits of words one after the other are the bits of their places. -/
theorem flatMap_wordToList (words : List UInt64) :
    words.flatMap wordToList = (List.range (words.length * wordBits)).map fun index ↦
      (words[index / wordBits]?.getD 0).toNat.testBit (index % wordBits) := by
  induction words with
  | nil => simp
  | cons word words ih =>
    have hhead : wordToList word = (List.range wordBits).map fun index ↦
        ((word :: words)[index / wordBits]?.getD 0).toNat.testBit (index % wordBits) := by
      refine List.map_congr_left fun place hp ↦ ?_
      have hp : place < 64 := List.mem_range.1 hp
      simp [wordBits, Nat.div_eq_of_lt hp, Nat.mod_eq_of_lt hp]
    rw [List.flatMap_cons, List.length_cons, Nat.succ_mul, Nat.add_comm _ wordBits,
      List.range_add, List.map_append, List.map_map, ih, hhead]
    refine congrArg _ (List.map_congr_left fun index _ ↦ ?_)
    simp [wordBits, Nat.add_div_left]

/-- Counting by words counts the list. -/
theorem Packed.countTrue_eq {b : Bitmap} (hb : b.Packed) : b.countTrue = b.toList.count true := by
  obtain ⟨rest, hrest⟩ : ∃ rest, b.words.size * wordBits = b.size + rest :=
    ⟨b.words.size * wordBits - b.size, by
      rw [hb.size_words]
      simp only [wordCount, wordBits]
      omega⟩
  have hbits : b.words.toList.flatMap wordToList = (List.range (b.size + rest)).map b.bit := by
    rw [flatMap_wordToList, Array.length_toList, hrest]
    refine List.map_congr_left fun index _ ↦ ?_
    simp only [bit, Array.getD_eq_getD_getElem?, Array.getElem?_toList]
  have hzero : (((List.range rest).map (b.size + ·)).map b.bit).count true = 0 := by
    refine List.count_eq_zero.2 fun hmem ↦ ?_
    simp only [List.map_map, List.mem_map, Function.comp_apply] at hmem
    obtain ⟨i, _, hi⟩ := hmem
    rw [hb.bit_beyond _ (Nat.le_add_right _ _)] at hi
    exact Bool.false_ne_true hi
  rw [countTrue, ← Array.foldl_toList, foldl_ones, Nat.zero_add, hbits, List.range_add,
    List.map_append, List.count_append, hzero, Nat.add_zero, toList]

theorem Packed.countFalse_eq {b : Bitmap} (hb : b.Packed) :
    b.countFalse = b.toList.count false := by
  have h : b.toList.length = b.toList.count true + b.toList.count false := by
    generalize b.toList = l
    induction l with
    | nil => rfl
    | cons a l ih => cases a <;> simp <;> omega
  rw [length_toList] at h
  rw [countFalse, hb.countTrue_eq]
  omega

/-- All bits are true exactly if none is false. -/
theorem Packed.allTrue_iff {b : Bitmap} (hb : b.Packed) :
    b.allTrue = true ↔ ∀ bit ∈ b.toList, bit = true := by
  rw [allTrue, beq_iff_eq, hb.countFalse_eq, List.count_eq_zero]
  constructor
  · intro h bit hmem
    cases bit with
    | true => rfl
    | false => exact absurd hmem h
  · intro h hmem
    exact Bool.false_ne_true (h false hmem)
end Columnar.Bitmap
