import GraphQL.Proofs.Wrapping.Lists
import Mathlib.Data.Nat.Init

/-!
# The bits of a packed wrapping

Operations on a word set or clear single flags and overwrite the number of lists. Two words are the same
if all their bits are, so it is enough to say what each operation does to every bit.

* `Wrapping.bit`, `Wrapping.ext_bit` — the bits of a word;
* `Wrapping.IsFlag` — masks of a single bit: `hasBit_of_isFlag`, `bit_set`, `bit_clear`;
* `Wrapping.listFlag_isFlag`, `Wrapping.outerFlag_isFlag` — the flags of lists and of the outermost
  wrapper;
* `Wrapping.bit_withListCount`, `Wrapping.testBit_listCount` — the number of lists in its four bits.
-/

namespace GraphQL

namespace Wrapping

/-- A bit of the word, counted from the lowest one. -/
def bit (w : Wrapping) (index : Nat) : Bool := w.bits.toBitVec.getLsbD index

/-- **A word is what its bits are.** -/
theorem ext_bit {w w' : Wrapping} (h : ∀ index < 16, w.bit index = w'.bit index) : w = w' := by
  have hbits : w.bits.toBitVec = w'.bits.toBitVec := BitVec.eq_of_getLsbD_eq h
  cases w
  cases w'
  exact congrArg Wrapping.mk (UInt16.toBitVec_inj.mp hbits)

theorem bit_of_ge {w : Wrapping} {index : Nat} (h : 16 ≤ index) : w.bit index = false :=
  BitVec.getLsbD_of_ge _ _ h

/-! ### Masks of a single bit -/

/-- The mask that has the bit at the given position and no other. -/
structure IsFlag (mask : UInt16) (position : Nat) : Prop where
  fits : position < 16
  bits : mask.toBitVec = BitVec.twoPow 16 position

theorem IsFlag.getLsbD {mask : UInt16} {position : Nat} (h : IsFlag mask position) (index : Nat) :
    mask.toBitVec.getLsbD index = decide (position = index) := by
  rw [h.bits, BitVec.getLsbD_twoPow, decide_eq_true h.fits, Bool.true_and]

/-- Looking at a flag is looking at its bit. -/
theorem hasBit_of_isFlag {w : Wrapping} {mask : UInt16} {position : Nat} (h : IsFlag mask position) :
    w.hasBit mask = w.bit position := by
  -- Masking with a flag leaves the bit of the flag, or nothing.
  have hand : (w.bits &&& mask).toBitVec =
      if w.bit position then BitVec.twoPow 16 position else 0#16 := by
    rw [UInt16.toBitVec_and, h.bits, BitVec.and_twoPow, bit]
  -- A flag fits in the word, so its bit is not lost.
  have hne : BitVec.twoPow 16 position ≠ 0#16 := by
    intro hzero
    have hbit := congrArg (BitVec.getLsbD · position) hzero
    simp [h.fits] at hbit
  have hzero : w.bits &&& mask = 0 ↔ w.bit position = false := by
    rw [← UInt16.toBitVec_inj, hand]
    cases w.bit position with
    | false => exact ⟨fun _ => rfl, fun _ => rfl⟩
    | true => exact ⟨fun heq => absurd heq hne, fun hfalse => Bool.noConfusion hfalse⟩
  rw [hasBit]
  cases hbit : w.bit position with
  | false => rw [hzero.mpr hbit]; rfl
  | true =>
    rw [bne_iff_ne]
    exact fun heq => Bool.noConfusion (hbit.symm.trans (hzero.mp heq))

/-- Setting a flag changes its bit only. -/
theorem bit_set {w : Wrapping} {mask : UInt16} {position : Nat} (h : IsFlag mask position)
    (index : Nat) : bit ⟨w.bits ||| mask⟩ index = (w.bit index || decide (position = index)) := by
  rw [bit, UInt16.toBitVec_or, BitVec.getLsbD_or, h.getLsbD, bit]

/-- Clearing a flag changes its bit only. -/
theorem bit_clear {w : Wrapping} {mask : UInt16} {position : Nat} (h : IsFlag mask position)
    (index : Nat) : bit ⟨w.bits &&& ~~~mask⟩ index = (w.bit index && !decide (position = index)) := by
  rw [bit, UInt16.toBitVec_and, UInt16.toBitVec_not, BitVec.getLsbD_and, BitVec.getLsbD_not,
    h.getLsbD, ← bit]
  by_cases hindex : index < 16
  · rw [decide_eq_true hindex, Bool.true_and]
  · rw [bit_of_ge (Nat.not_lt.mp hindex), Bool.false_and, Bool.false_and]

/-- The flag of the named type. -/
theorem one_isFlag : IsFlag 1 0 := ⟨by decide, by decide⟩

/-- The flags of lists are the bits from the fifth one on. -/
theorem listFlag_isFlag {index : Nat} (h : index < maxLists) : IsFlag (listFlag index) (5 + index) where
  fits := by rw [maxLists] at h; omega
  bits := by
    revert h index
    decide

/-- A flag of a list has the value that it would have in a word of any length. -/
theorem toNat_listFlag {index : Nat} (h : index < maxLists) :
    (listFlag index).toNat = 1 <<< (5 + index) := by
  revert h index
  decide

/-- The position of the flag of the outermost wrapper, for a type with the given number of lists. -/
def outerPosition : Nat → Nat
  | 0 => 0
  | count + 1 => 5 + count

theorem outerFlag_isFlag {w : Wrapping} (h : w.listCount ≤ maxLists) :
    IsFlag w.outerFlag (outerPosition w.listCount) := by
  rw [outerFlag]
  cases hcount : w.listCount with
  | zero => exact one_isFlag
  | succ n => exact listFlag_isFlag (by omega)

/-! ### The number of lists -/

theorem getLsbD_countMask {index : Nat} (h : index < 16) :
    countMask.toBitVec.getLsbD index = decide (1 ≤ index ∧ index < 5) := by
  revert h index
  decide

/-- The bits of the number are overwritten, and no others. -/
theorem bit_withListCount (w : Wrapping) {count : Nat} (h : count < 16) (index : Nat) :
    (w.withListCount count).bit index =
      if 1 ≤ index ∧ index < 5 then count.testBit (index - 1) else w.bit index := by
  -- The shifted number has its four bits at one to four. There are few numbers, so they are all
  -- tried.
  have hcount : ∀ count < 16, ∀ index < 16, (UInt16.ofNat count <<< 1).toBitVec.getLsbD index =
      (decide (1 ≤ index ∧ index < 5) && count.testBit (index - 1)) := by
    decide
  by_cases hindex : index < 16
  · rw [bit, withListCount, UInt16.toBitVec_or, UInt16.toBitVec_and, UInt16.toBitVec_not,
      BitVec.getLsbD_or, BitVec.getLsbD_and, BitVec.getLsbD_not, getLsbD_countMask hindex,
      hcount count h index hindex, ← bit, decide_eq_true hindex]
    -- Inside of the number the old bits are masked out, outside of it the new number has none.
    split
    next hinside => simp [hinside]
    next houtside => simp [houtside]
  · rw [if_neg (by omega), bit_of_ge (Nat.not_lt.mp hindex), bit_of_ge (Nat.not_lt.mp hindex)]

/-- The number, bit by bit. -/
theorem testBit_listCount (w : Wrapping) (index : Nat) :
    w.listCount.testBit index = (w.bit (index + 1) && decide (index < 4)) := by
  -- Shifting the masked word is shifting its bits.
  have hshift : ((w.bits &&& countMask) >>> 1).toBitVec =
      (w.bits.toBitVec &&& countMask.toBitVec) >>> 1 := by
    rw [UInt16.toBitVec_shiftRight, UInt16.toBitVec_and]
    rfl
  rw [listCount, ← UInt16.toNat_toBitVec, BitVec.testBit_toNat, hshift, BitVec.getLsbD_ushiftRight,
    BitVec.getLsbD_and, ← bit, Nat.add_comm 1 index]
  by_cases hindex : index + 1 < 16
  · have hinside : (1 ≤ index + 1 ∧ index + 1 < 5) ↔ index < 4 := by omega
    rw [getLsbD_countMask hindex, decide_eq_decide.mpr hinside]
  · rw [bit_of_ge (Nat.not_lt.mp hindex), Bool.false_and, Bool.false_and]

/-- Words with the same bits there have the same number of lists. -/
theorem listCount_of_bits {w w' : Wrapping}
    (h : ∀ index, 1 ≤ index → index < 5 → w.bit index = w'.bit index) :
    w.listCount = w'.listCount := by
  refine Nat.eq_of_testBit_eq fun index => ?_
  rw [testBit_listCount, testBit_listCount]
  by_cases hindex : index < 4
  · rw [h (index + 1) (by omega) (by omega)]
  · rw [decide_eq_false hindex, Bool.and_false, Bool.and_false]

/-- Words with the same number of lists have the same bits there. -/
theorem bit_of_listCount {w w' : Wrapping} (h : w.listCount = w'.listCount) {index : Nat}
    (hindex : 1 ≤ index ∧ index < 5) : w.bit index = w'.bit index := by
  have hbit := congrArg (Nat.testBit · (index - 1)) h
  simpa [testBit_listCount, Nat.sub_add_cancel hindex.1, show index - 1 < 4 by omega] using hbit

end Wrapping

end GraphQL
