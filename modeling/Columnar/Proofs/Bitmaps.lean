import Columnar.Bitmap.Lemmas
import Columnar.Proofs.Checked

/-!
# Bitmaps are lists of booleans

A bitmap is made, and then changed by calls in any order. The same calls do to a list of booleans
what their names say, and are abandoned only where a bit is addressed that does not exist. The main
result is that the two always agree (`Built.run_readsAs`), whatever the calls are.

## The invariant

A bitmap `Packs` a list if its bits are those of the list and **the places behind the last bit hold
zeros**. The second part says nothing about any bit of the list and could not be left out: bits are
counted and compared by whole words, and a word that is not full is counted and compared with all
its places. It is kept because nothing is ever written there (`Packs.perform`, for each call), and
so for all runs (`Packs.run`).

## What is read off the list

The number of words, each bit, the number of ones, and equality (`Packs.readsAs`). Two bitmaps are
the same words exactly if they are the same list (`Packs.eq_iff`), whatever led to them; a bitmap
whose bits were cleared can not be told from one where they were never set.

Nothing is assumed of the position of a call. A call behind the last bit is abandoned by the bitmap
and by the list alike, and with the same trap.
-/

namespace Columnar.Bitmap

variable {b c : Bitmap} {bits others : List Bool}

/-- What a call changes in a bitmap. -/
inductive Call
  | push (value : Bool)
  | set (index : Nat) (value : Bool)
  | clear

/-- What a call does to a bitmap. -/
def perform (b : Bitmap) : Call → Checked Bitmap
  | .push value => return b.push value
  | .set index value => b.set index value
  | .clear => return empty

/-- What calls do to a bitmap one after the other. -/
def run (b : Bitmap) (calls : List Call) : Checked Bitmap := calls.foldlM perform b

/-- What a call does to a list of booleans. -/
def performList (bits : List Bool) : Call → Checked (List Bool)
  | .push value => return bits ++ [value]
  | .set index value =>
    if index < bits.length then return bits.set index value else throw (.bit index bits.length)
  | .clear => return []

/-- What calls do to a list of booleans one after the other. -/
def runList (bits : List Bool) (calls : List Call) : Checked (List Bool) :=
  calls.foldlM performList bits

/-- The ways in which a bitmap is made, with the list that it is made to hold. -/
inductive Built : Bitmap → List Bool → Prop
  | empty : Built empty []
  | replicate (n : Nat) (value : Bool) : Built (replicate n value) (.replicate n value)
  | ofList (bits : List Bool) : Built (ofList bits) bits

/-! ### What calls do -/

/-- A bitmap holds a list, and zeros behind it. -/
structure Packs (b : Bitmap) (bits : List Bool) : Prop where
  packed : b.Packed
  toList_eq : b.toList = bits

theorem Packs.size_eq (h : b.Packs bits) : b.size = bits.length := by
  rw [← h.toList_eq, length_toList]

theorem Built.packs (h : Built b bits) : b.Packs bits := by
  rcases h with _ | ⟨n, value⟩ | bits
  · exact ⟨packed_empty, rfl⟩
  · exact ⟨packed_replicate n value, toList_replicate n value⟩
  · exact ⟨(packed_ofList bits).1, toList_ofList bits⟩

/-- Overwriting a bit replaces it in the list, and is abandoned only behind the last one. -/
theorem Packs.set (h : b.Packs bits) (index : Nat) (value : Bool) :
    Checked.Related Packs (b.set index value) (performList bits (.set index value)) := by
  rw [Bitmap.set, performList, h.size_eq]
  by_cases hindex : index < bits.length
  · have hlt : index < b.size := h.size_eq ▸ hindex
    rw [if_pos hindex, if_pos (h.packed.div_lt hlt), if_pos hindex]
    exact .ok ⟨h.packed.put hlt value, by rw [h.packed.toList_put hlt, h.toList_eq]⟩
  · rw [if_neg hindex, if_neg hindex]
    exact .error _

/-- A bitmap does in a call what the list does that it holds. -/
theorem Packs.perform (h : b.Packs bits) (call : Call) :
    Checked.Related Packs (b.perform call) (performList bits call) := by
  rcases call with value | ⟨index, value⟩ | _
  · exact .ok ⟨h.packed.push value, by rw [h.packed.toList_push, h.toList_eq]⟩
  · exact h.set index value
  · exact .ok ⟨packed_empty, rfl⟩

/-- A bitmap does in any calls what the list does that it holds. -/
theorem Packs.run (h : b.Packs bits) (calls : List Call) :
    Checked.Related Packs (b.run calls) (runList bits calls) := by
  induction calls generalizing b bits with
  | nil => exact .ok h
  | cons call calls ih =>
    rw [Bitmap.run, runList, List.foldlM_cons, List.foldlM_cons]
    exact (h.perform call).bind fun _ _ _ _ hpacks ↦ ih hpacks

/-! ### What is read -/

/-- A bitmap in which a list is read, bit by bit and by whole words. -/
structure ReadsAs (b : Bitmap) (bits : List Bool) : Prop where
  size_eq : b.size = bits.length
  size_words : b.words.size = (bits.length + 63) / 64
  /-- The places of the words are the bits in order, and zero behind the last one. -/
  testBit_eq : ∀ number word, b.words[number]? = some word → ∀ place < 64,
    word.toNat.testBit place = bits[number * 64 + place]?.getD false
  toList_eq : b.toList = bits
  get_eq : ∀ index (h : index < bits.length), b.get index = .ok bits[index]
  get_of_le : ∀ index, bits.length ≤ index → b.get index = .error (.bit index bits.length)
  countTrue_eq : b.countTrue = bits.count true
  countFalse_eq : b.countFalse = bits.count false
  /-- There are no more true bits than bits, so that counting the others does not go below zero. -/
  countTrue_le : b.countTrue ≤ b.size
  allTrue_iff : b.allTrue = true ↔ ∀ bit ∈ bits, bit = true

/-- The places of the words are read bit by bit. -/
theorem Packs.testBit_eq (h : b.Packs bits) {number place : Nat} {word : UInt64}
    (hword : b.words[number]? = some word) (hplace : place < 64) :
    word.toNat.testBit place = bits[number * 64 + place]?.getD false := by
  have hbit : b.bit (number * 64 + place) = word.toNat.testBit place := by
    have hdiv : (number * 64 + place) / 64 = number := by omega
    have hmod : (number * 64 + place) % 64 = place := by omega
    rw [bit, wordBits, hdiv, hmod, Array.getD_eq_getD_getElem?, hword, Option.getD_some]
  rw [← hbit, ← h.toList_eq, getElem?_toList]
  split_ifs with hsize
  · rfl
  · exact h.packed.bit_beyond _ (Nat.le_of_not_lt hsize)

theorem Packs.readsAs (h : b.Packs bits) : b.ReadsAs bits := by
  have hsize := h.size_eq
  refine ⟨hsize, hsize ▸ h.packed.size_words, fun number word hword place hplace ↦ ?_, h.toList_eq,
    fun index hindex ↦ ?_, fun index hindex ↦ ?_, ?_, ?_, ?_, ?_⟩
  · exact h.testBit_eq hword hplace
  · have hbit : b.bit index = bits[index] := by
      refine Option.some.inj ?_
      rw [← List.getElem?_eq_getElem, ← h.toList_eq, getElem?_toList, hsize, if_pos hindex]
    rw [h.packed.get_eq (hsize ▸ hindex), hbit]
  · rw [Bitmap.get, hsize, if_neg (Nat.not_lt_of_le hindex)]
  · rw [h.packed.countTrue_eq, h.toList_eq]
  · rw [h.packed.countFalse_eq, h.toList_eq]
  · rw [h.packed.countTrue_eq, h.toList_eq, hsize]
    exact List.count_le_length
  · rw [h.packed.allTrue_iff, h.toList_eq]

/-- The words of a bitmap say which list it holds, and the list says which words there are. -/
theorem Packs.eq_iff (h : b.Packs bits) (h' : c.Packs others) : b = c ↔ bits = others := by
  rw [← h.toList_eq, ← h'.toList_eq]
  exact ⟨congrArg toList, h.packed.ext h'.packed⟩

/-- Bitmaps are lists of booleans: however a bitmap is made and whatever calls follow, they do to it
what they do to the list, which is then read in it; and bitmaps that any two histories lead to are
equal exactly if the lists are that these histories lead to. -/
theorem Built.run_readsAs (hb : Built b bits) (hc : Built c others) (calls calls' : List Call) :
    Checked.Related ReadsAs (b.run calls) (runList bits calls) ∧
      ∀ b' c', b.run calls = .ok b' → c.run calls' = .ok c' →
        (b' = c' ↔ runList bits calls = runList others calls') := by
  refine ⟨(hb.packs.run calls).mono fun _ _ _ _ hpacks ↦ hpacks.readsAs, fun b' c' hb' hc' ↦ ?_⟩
  obtain ⟨bits', hbits, hpacks⟩ := (hb.packs.run calls).exists_eq_ok hb'
  obtain ⟨others', hothers, hpacks'⟩ := (hc.packs.run calls').exists_eq_ok hc'
  rw [hbits, hothers, hpacks.eq_iff hpacks', Except.ok.injEq]

/-- Two bits of ones are cleared on both sides of a word border. -/
def clearings : List Call := [.set 64 false, .set 63 false]

/-- The same bits are reached from a full word, with a second one pushed. -/
def pushes : List Call := [.set 63 false, .push true, .set 64 false]

theorem Built.run_readsAs_pushes : ∃ b c,
    (Bitmap.replicate 65 true).run clearings = .ok b ∧
      (Bitmap.replicate 64 true).run pushes = .ok c ∧
      b.ReadsAs (.replicate 63 true ++ [false, false]) ∧ b.words.size = 2 ∧ b = c := by
  obtain ⟨b, c, hrun, hrun'⟩ : ∃ b c,
      (Bitmap.replicate 65 true).run clearings = .ok b ∧
        (Bitmap.replicate 64 true).run pushes = .ok c :=
    ⟨_, _, rfl, rfl⟩
  obtain ⟨hreads, heq⟩ :=
    (Built.replicate 65 true).run_readsAs (.replicate 64 true) clearings pushes
  obtain ⟨bits, hbits, hb⟩ := hreads.exists_eq_ok hrun
  obtain rfl : .replicate 63 true ++ [false, false] = bits := Except.ok.inj hbits
  exact ⟨b, c, hrun, hrun', hb, hb.size_words, (heq b c hrun hrun').2 rfl⟩

end Columnar.Bitmap
