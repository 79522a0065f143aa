import Columnar.Proofs.KeyTable.Layout
import Mathlib.Data.Prod.Lex
import Mathlib.Data.Set.Function

/-!
# The order of slots

Indexes and addresses name the same slots, in the same order: with segments of any capacity that a
configuration may have, splitting and joining are inverse to each other between the indexes up to
the largest one and the addresses that exist, the slots of one segment after the other come in the
order of their indexes, and the slot behind the last one of a segment is the first one of the next
(`Addressing`). So whoever walks the segments from front to back meets the indexes in order.

## The two unused words

The largest index is not the largest word. Two words stand for no slot, and no address joins to one
of them (`Addressing.link_eq`), which is why the addresses that exist are those whose index is at
most the largest. **The successor law goes one further**: the number behind the largest index is
split like any other, so the law needs no case for the last slot.

## What it rests on

All of it rests on the two equations of `TableConfig.Sane`, by which splitting divides by the
capacity and joining multiplies with it (`split_eq`, `join_eq`). Order is compared lexicographically
(`SlotAddress.place`), and the two directions are one fact: what comes earlier in a walk has the
smaller number (`mul_add_lt_of_place_lt`), and since every place has a number the converse follows
by cases (`place_split_lt`).
-/

namespace Columnar

/-- Where a slot stands when the segments are walked one after the other, each from its first
slot. -/
def SlotAddress.place (address : SlotAddress) : Nat ×ₗ Nat :=
  toLex (address.segment, address.offset)

namespace IndexLayout

/-- The indexes of slots. -/
def slotIndexes : Set Nat := {index | index ≤ maxIndex}

/-- The addresses of slots in segments of `capacity` slots. -/
def slotAddresses (capacity : Nat) : Set SlotAddress :=
  {address | address.offset < capacity ∧ address.segment * capacity + address.offset ≤ maxIndex}

/-- The index of an address. -/
def indexOf (layout : IndexLayout) (address : SlotAddress) : Nat :=
  layout.join address.segment address.offset

/-- A layout that addresses the slots of segments of `capacity` slots in their order. -/
structure Addressing (capacity : Nat) (layout : IndexLayout) : Prop where
  capacity_eq : layout.capacity = capacity
  /-- Every index has an address, and every address an index. -/
  split_mem : Set.MapsTo layout.split slotIndexes (slotAddresses capacity)
  indexOf_mem : Set.MapsTo layout.indexOf (slotAddresses capacity) slotIndexes
  /-- Joining undoes splitting, and splitting undoes joining. -/
  inverse : Set.InvOn layout.indexOf layout.split slotIndexes (slotAddresses capacity)
  /-- No bit of an address is lost. -/
  indexOf_eq : ∀ address ∈ slotAddresses capacity,
    layout.indexOf address = address.segment * capacity + address.offset
  /-- No address joins to a word that stands for no slot. -/
  link_eq : ∀ address ∈ slotAddresses capacity,
    Link.ofWord (layout.indexOf address) = .next (layout.indexOf address)
  /-- The order of the indexes is that of the places. -/
  split_strictMono : StrictMonoOn (fun index ↦ (layout.split index).place) slotIndexes
  indexOf_strictMono : ∀ a ∈ slotAddresses capacity, ∀ b ∈ slotAddresses capacity,
    a.place < b.place → layout.indexOf a < layout.indexOf b
  /-- Behind the last slot of a segment comes the first one of the next. -/
  split_succ_of_last : ∀ index ∈ slotIndexes,
    layout.split (index + 1) = ⟨(layout.split index).segment + 1, 0⟩ ↔
      (layout.split index).offset = capacity - 1
  /-- Behind any other slot comes the next one of its segment. -/
  split_succ_of_not_last : ∀ index ∈ slotIndexes, (layout.split index).offset ≠ capacity - 1 →
    layout.split (index + 1) = ⟨(layout.split index).segment, (layout.split index).offset + 1⟩

end IndexLayout

namespace TableConfig.Sane

open IndexLayout

variable {config : TableConfig} {index other segment offset : Nat} {a b : SlotAddress}

/-- A place in a segment is split off the number that it is joined to. -/
theorem split_mul_add (h : config.Sane) (hoffset : offset < config.segmentCapacity) :
    (ofCapacity config.segmentCapacity).split (segment * config.segmentCapacity + offset) =
      ⟨segment, offset⟩ := by
  have hpos := h.segmentCapacity_pos
  rw [h.split_eq, Nat.mul_comm, Nat.mul_add_div hpos, Nat.mul_add_mod,
    Nat.div_eq_of_lt hoffset, Nat.mod_eq_of_lt hoffset, Nat.add_zero]

/-- The parts of an index make it up. -/
theorem split_segment_mul_add (h : config.Sane) (index : Nat) :
    ((ofCapacity config.segmentCapacity).split index).segment * config.segmentCapacity +
      ((ofCapacity config.segmentCapacity).split index).offset = index := by
  rw [h.split_eq]
  exact Nat.div_add_mod' index config.segmentCapacity

theorem split_offset_lt (h : config.Sane) (index : Nat) :
    ((ofCapacity config.segmentCapacity).split index).offset < config.segmentCapacity := by
  rw [h.split_eq]
  exact Nat.mod_lt index h.segmentCapacity_pos

theorem split_mem_slotAddresses (h : config.Sane) (hindex : index ∈ slotIndexes) :
    (ofCapacity config.segmentCapacity).split index ∈ slotAddresses config.segmentCapacity :=
  ⟨h.split_offset_lt index, (h.split_segment_mul_add index).symm ▸ hindex⟩

theorem indexOf_eq (h : config.Sane) (ha : a ∈ slotAddresses config.segmentCapacity) :
    (ofCapacity config.segmentCapacity).indexOf a = a.segment * config.segmentCapacity + a.offset :=
  h.join_eq ha.1 (Nat.lt_of_le_of_lt ha.2 (by decide))

/-- What comes earlier in a walk has the smaller number. -/
theorem mul_add_lt_of_place_lt (ha : a.offset < config.segmentCapacity) (hlt : a.place < b.place) :
    a.segment * config.segmentCapacity + a.offset <
      b.segment * config.segmentCapacity + b.offset := by
  rcases Prod.Lex.toLex_lt_toLex.1 hlt with hsegment | ⟨hsegment, hoffset⟩
  · have hsegment : a.segment < b.segment := hsegment
    calc a.segment * config.segmentCapacity + a.offset
        < a.segment * config.segmentCapacity + config.segmentCapacity := Nat.add_lt_add_left ha _
      _ = (a.segment + 1) * config.segmentCapacity := (Nat.succ_mul _ _).symm
      _ ≤ b.segment * config.segmentCapacity := Nat.mul_le_mul_right _ hsegment
      _ ≤ b.segment * config.segmentCapacity + b.offset := Nat.le_add_right _ _
  · have hsegment : a.segment = b.segment := hsegment
    rw [hsegment]
    exact Nat.add_lt_add_left hoffset _

/-- A larger index comes later in a walk: if it came earlier or at the same place, it would not be
larger. -/
theorem place_split_lt (h : config.Sane) (hlt : index < other) :
    ((ofCapacity config.segmentCapacity).split index).place <
      ((ofCapacity config.segmentCapacity).split other).place := by
  have hindex := h.split_segment_mul_add index
  have hother := h.split_segment_mul_add other
  rcases lt_trichotomy ((ofCapacity config.segmentCapacity).split index).place
    ((ofCapacity config.segmentCapacity).split other).place with hplace | hplace | hplace
  · exact hplace
  · obtain ⟨hsegment, hoffset⟩ := Prod.mk.inj (toLex_inj.1 hplace)
    rw [hsegment, hoffset, hother] at hindex
    omega
  · have hback := mul_add_lt_of_place_lt (h.split_offset_lt other) hplace
    rw [hindex, hother] at hback
    omega

/-- The number behind a slot, split. -/
theorem split_succ (h : config.Sane) (index : Nat) :
    (ofCapacity config.segmentCapacity).split (index + 1) =
      if ((ofCapacity config.segmentCapacity).split index).offset = config.segmentCapacity - 1 then
        ⟨((ofCapacity config.segmentCapacity).split index).segment + 1, 0⟩
      else ⟨((ofCapacity config.segmentCapacity).split index).segment,
        ((ofCapacity config.segmentCapacity).split index).offset + 1⟩ := by
  have hpos := h.segmentCapacity_pos
  have hlt := h.split_offset_lt index
  have hparts := h.split_segment_mul_add index
  generalize (ofCapacity config.segmentCapacity).split index = address at hlt hparts
  split_ifs with hlast
  · have hnext : index + 1 = (address.segment + 1) * config.segmentCapacity + 0 := by
      rw [Nat.succ_mul]
      omega
    rw [hnext, h.split_mul_add hpos]
  · have hnext : index + 1 = address.segment * config.segmentCapacity + (address.offset + 1) := by
      omega
    rw [hnext, h.split_mul_add (by omega)]

end TableConfig.Sane

namespace IndexLayout

variable {config : TableConfig}

/-- The layout for the segments of any configuration without a fault addresses their slots in
order. -/
theorem addressing_of_fault?_eq_none (h : config.fault? = none) :
    Addressing config.segmentCapacity (ofCapacity config.segmentCapacity) := by
  have hsane := TableConfig.sane_of_fault?_eq_none h
  have hindexOf {a : SlotAddress} (ha : a ∈ slotAddresses config.segmentCapacity) :=
    hsane.indexOf_eq ha
  exact {
    capacity_eq := by
      show 1 <<< config.segmentCapacity.log2 = _
      rw [Nat.one_shiftLeft, ← hsane.segmentCapacity_eq]
    split_mem := fun index hindex ↦ hsane.split_mem_slotAddresses hindex
    indexOf_mem := by
      intro a ha
      show _ ≤ maxIndex
      rw [hindexOf ha]
      exact ha.2
    inverse := by
      constructor
      · intro index hindex
        rw [hindexOf (hsane.split_mem_slotAddresses hindex)]
        exact hsane.split_segment_mul_add index
      · intro a ha
        rw [hindexOf ha]
        exact hsane.split_mul_add ha.1
    indexOf_eq := fun a ha ↦ hindexOf ha
    link_eq := by
      intro a ha
      have hlt : (ofCapacity config.segmentCapacity).indexOf a < vacantWord :=
        hindexOf ha ▸ Nat.lt_of_le_of_lt ha.2 (by decide)
      have hvacant := Nat.ne_of_lt hlt
      have hnil := Nat.ne_of_lt (Nat.lt_trans hlt (show vacantWord < nilWord by decide))
      rw [Link.ofWord, if_neg hnil, if_neg hvacant]
    split_strictMono := fun index _ other _ hlt ↦ hsane.place_split_lt hlt
    indexOf_strictMono := by
      intro a ha b hb hlt
      rw [hindexOf ha, hindexOf hb]
      exact TableConfig.Sane.mul_add_lt_of_place_lt ha.1 hlt
    split_succ_of_last := by
      intro index _
      rw [hsane.split_succ]
      split_ifs with hlast
      · exact iff_of_true rfl hlast
      · refine iff_of_false (fun heq ↦ ?_) hlast
        exact absurd (congrArg SlotAddress.offset heq) (Nat.succ_ne_zero _)
    split_succ_of_not_last := by
      intro index _ hlast
      rw [hsane.split_succ, if_neg hlast] }

/-- A configuration with segments of one slot, in which no bit of an index counts slots. -/
def loneSlots : TableConfig where
  segmentCapacity := 1
  keyColumns := [⟨"key", .integer⟩]

/-- A configuration with segments of four slots, which the two low bits of an index count. -/
def fourSlots : TableConfig where
  segmentCapacity := 4
  keyColumns := [⟨"key", .integer⟩]

/-- With segments of one slot every index is the number of its segment, up to the largest. With
segments of four slots the last slot of a segment is followed by the first one of the next. -/
theorem addressing_of_loneSlots :
    (∃ layout, layout = ofCapacity loneSlots.segmentCapacity ∧
      layout.split maxIndex = ⟨maxIndex, 0⟩ ∧ layout.indexOf ⟨maxIndex, 0⟩ = maxIndex ∧
        Addressing 1 layout) ∧
    ∃ layout, layout = ofCapacity fourSlots.segmentCapacity ∧ layout.split 7 = ⟨1, 3⟩ ∧
      layout.split 8 = ⟨2, 0⟩ ∧ layout.indexOf ⟨1, 3⟩ = 7 ∧ Addressing 4 layout := by
  constructor
  · have hfault : loneSlots.fault? = none := rfl
    have haddressing := addressing_of_fault?_eq_none hfault
    refine ⟨_, rfl, by decide, ?_, haddressing⟩
    exact haddressing.indexOf_eq ⟨maxIndex, 0⟩ ⟨by decide, by decide⟩
  · have hfault : fourSlots.fault? = none := rfl
    have haddressing := addressing_of_fault?_eq_none hfault
    refine ⟨_, rfl, by decide, ?_, ?_, haddressing⟩
    · -- the seventh slot is the last of its segment
      exact (haddressing.split_succ_of_last 7 (show 7 ≤ maxIndex by decide)).2 (by decide)
    · exact haddressing.indexOf_eq ⟨1, 3⟩ ⟨by decide, by decide⟩

end IndexLayout

end Columnar
