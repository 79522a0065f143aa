import Columnar.KeyTable.Config
import Columnar.KeyTable.Slot
import Mathlib.Algebra.Group.Nat.Defs
import Mathlib.Tactic.SplitIfs

/-!
# The arithmetic of indexes

What the check of a configuration is worth to the tables that are built with it. An index is split
by a shift and a mask and put together by a shift and a disjunction; the capacity of a segment is a
power of two that divides the range of indexes, so the first is dividing by the capacity
(`TableConfig.Sane.split_eq`) and the second undoes it (`TableConfig.Sane.join_eq`).

## What the two equations rest on

* `split_eq` needs the power of two, and a capacity that is a word: then the mask is one less than
  the capacity, and the shift is its logarithm. It holds for every number, index or not.
* `join_eq` needs a bound as well. An index is a word of 32 bits, and shifting a segment number may
  lose its high bits; below the number of indexes it does not. Hence its second hypothesis.

`Sane` keeps the numbers of a configuration as later proofs ask for them, and not the check itself:
**nothing behind this module unfolds the check or a shift**. The arithmetic of slots is division and
remainder from here on, which `omega` and the lemmas of the library know about.
-/

namespace Columnar

namespace TableConfig

theorem eq_two_pow_of_isPowerOfTwo {n : Nat} (h : isPowerOfTwo n = true) : n = 2 ^ n.log2 := by
  rw [isPowerOfTwo, beq_iff_eq, Nat.one_shiftLeft] at h
  exact h

/-- What the check of a configuration says about its numbers. -/
structure Sane (config : TableConfig) : Prop where
  loadFactor : config.loadFactor.isPositive = true
  maxCapacity : isPowerOfTwo config.maxCapacity = true
  maxCapacity_le : config.maxCapacity ≤ mostBuckets
  initialCapacity_pos : 0 < config.initialCapacity
  initialCapacity_le : config.initialCapacity ≤ config.maxCapacity
  segmentCapacity : isPowerOfTwo config.segmentCapacity = true
  segmentCapacity_le : config.segmentCapacity ≤ largestSegment
  keyColumns : config.keyColumns ≠ []

theorem sane_of_fault?_eq_none {config : TableConfig} (h : config.fault? = none) :
    config.Sane := by
  unfold fault? at h
  split_ifs at h with h₁ h₂ h₃ h₄ h₅ h₆
  simp only [Bool.not_eq_true', Bool.not_eq_false, Bool.and_eq_true, decide_eq_true_eq,
    List.isEmpty_iff] at h₁ h₂ h₅ h₆
  exact ⟨h₁, h₂.1, h₂.2, by omega, by omega, h₅.1, h₅.2, h₆⟩

namespace Sane

variable {config : TableConfig}

theorem segmentCapacity_eq (h : config.Sane) :
    config.segmentCapacity = 2 ^ config.segmentCapacity.log2 :=
  eq_two_pow_of_isPowerOfTwo h.segmentCapacity

theorem segmentCapacity_pos (h : config.Sane) : 0 < config.segmentCapacity := by
  rw [h.segmentCapacity_eq]
  exact Nat.two_pow_pos _

theorem segmentCapacity_lt (h : config.Sane) : config.segmentCapacity < IndexLayout.wordSize :=
  Nat.lt_of_le_of_lt h.segmentCapacity_le (by decide)

theorem initialBuckets_pos (h : config.Sane) : 0 < config.initialBuckets := by
  have hceil : 0 < ceilPowerOfTwo config.initialCapacity := by
    rw [ceilPowerOfTwo]
    split_ifs
    · exact Nat.one_pos
    · rw [Nat.one_shiftLeft]
      exact Nat.two_pow_pos _
  exact Nat.lt_min.2 ⟨hceil, Nat.lt_of_lt_of_le h.initialCapacity_pos h.initialCapacity_le⟩

/-- Splitting an index divides it by the capacity of a segment. -/
theorem split_eq (h : config.Sane) (index : Nat) :
    (IndexLayout.ofCapacity config.segmentCapacity).split index =
      ⟨index / config.segmentCapacity, index % config.segmentCapacity⟩ := by
  have hmask : (config.segmentCapacity - 1) % IndexLayout.wordSize = config.segmentCapacity - 1 :=
    Nat.mod_eq_of_lt (Nat.lt_of_le_of_lt (Nat.sub_le _ _) h.segmentCapacity_lt)
  rw [IndexLayout.split, IndexLayout.ofCapacity]
  simp only [hmask, Nat.shiftRight_eq_div_pow, ← h.segmentCapacity_eq]
  congr 1
  rw [h.segmentCapacity_eq, Nat.and_two_pow_sub_one_eq_mod]

/-- Joining undoes splitting. -/
theorem join_eq (h : config.Sane) {segment offset : Nat} (hoffset : offset < config.segmentCapacity)
    (hlt : segment * config.segmentCapacity + offset < IndexLayout.wordSize) :
    (IndexLayout.ofCapacity config.segmentCapacity).join segment offset =
      segment * config.segmentCapacity + offset := by
  have hpos := h.segmentCapacity_pos
  have hle : segment ≤ segment * config.segmentCapacity := Nat.le_mul_of_pos_right _ hpos
  have hoffset' : offset < 2 ^ config.segmentCapacity.log2 := h.segmentCapacity_eq ▸ hoffset
  have hshift : segment <<< config.segmentCapacity.log2 = segment * config.segmentCapacity := by
    rw [Nat.shiftLeft_eq, ← h.segmentCapacity_eq]
  rw [IndexLayout.join, IndexLayout.ofCapacity]
  simp only
  rw [Nat.mod_eq_of_lt (show segment < IndexLayout.wordSize by omega), hshift,
    Nat.mod_eq_of_lt (show segment * config.segmentCapacity < IndexLayout.wordSize by omega),
    Nat.mod_eq_of_lt (show offset < IndexLayout.wordSize by omega), ← hshift,
    ← Nat.shiftLeft_add_eq_or_of_lt hoffset']

end Sane

end TableConfig

end Columnar
