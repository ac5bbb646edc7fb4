import Mathlib.Tactic.IntervalCases
import JarRefit.Access.Flags

/-!
# Flags bit by bit

Each operation on flags, as what it makes of a single bit, and what that says about the visibility
and about the flags outside the visibility field.
-/
namespace JarRefit.Access

/-- Whether the bit at a place is set. -/
def Flags.bit (flags : Flags) (i : Nat) : Bool :=
  flags.bits.toBitVec.getLsbD i

namespace Flags

variable {f g : Flags}

theorem ext_bit (h : ∀ i < 16, f.bit i = g.bit i) : f = g := by
  obtain ⟨x⟩ := f
  obtain ⟨y⟩ := g
  exact congrArg Flags.mk (UInt16.toBitVec_inj.1 (BitVec.eq_of_getLsbD_eq h))

@[simp]
theorem bit_union (i : Nat) : (f.union g).bit i = (f.bit i || g.bit i) := by
  simp [union, bit]

@[simp]
theorem bit_remove (i : Nat) : (f.remove g).bit i = (f.bit i && !g.bit i) := by
  by_cases hi : i < 16
  · simp [remove, bit, hi]
  · simp [remove, bit, BitVec.getLsbD_of_ge _ i (Nat.le_of_not_lt hi)]

/-! ## Single bits -/

section Mask

variable {mask : UInt16} {i : Nat}

theorem twoPow_ne_zero (hi : i < 16) : BitVec.twoPow 16 i ≠ 0#16 := by
  intro hzero
  have hbit := congrArg (BitVec.getLsbD · i) hzero
  simp [hi] at hbit

/-- A mask with a single bit selects that bit. -/
theorem toBitVec_and_mask (hmask : mask.toBitVec = BitVec.twoPow 16 i) :
    (f.bits &&& mask).toBitVec = if f.bit i then BitVec.twoPow 16 i else 0#16 := by
  rw [UInt16.toBitVec_and, hmask, BitVec.and_twoPow, bit]

theorem and_ne_zero_eq_bit (hi : i < 16) (hmask : mask.toBitVec = BitVec.twoPow 16 i) :
    (f.bits &&& mask != 0) = f.bit i := by
  rw [Bool.eq_iff_iff, bne_iff_ne, ne_eq, ← UInt16.toBitVec_inj, toBitVec_and_mask hmask]
  cases f.bit i <;> simp [twoPow_ne_zero hi]

/-- A mask with a single bit has no other one. -/
theorem bit_of_mask (hi : i < 16) (hmask : g.bits.toBitVec = BitVec.twoPow 16 i) (j : Nat) :
    g.bit j = decide (j = i) := by
  rw [bit, hmask, BitVec.getLsbD_twoPow, decide_eq_true hi, Bool.true_and]
  exact decide_eq_decide.2 eq_comm

theorem contains_eq_bit (hi : i < 16) (hmask : g.bits.toBitVec = BitVec.twoPow 16 i) :
    f.contains g = f.bit i := by
  rw [contains, Bool.eq_iff_iff, beq_iff_eq, ← UInt16.toBitVec_inj, toBitVec_and_mask hmask, hmask]
  cases f.bit i <;> simp [(twoPow_ne_zero hi).symm]

end Mask

theorem visibility_eq : f.visibility =
    if f.bit 0 then .pub else if f.bit 2 then .prot else if f.bit 1 then .priv else .pkg := by
  have hpub : (f.bits &&& 0x0001 != 0) = f.bit 0 := and_ne_zero_eq_bit (by decide) rfl
  have hprot : (f.bits &&& 0x0004 != 0) = f.bit 2 := and_ne_zero_eq_bit (by decide) rfl
  have hpriv : (f.bits &&& 0x0002 != 0) = f.bit 1 := and_ne_zero_eq_bit (by decide) rfl
  rw [visibility, Visibility.decode, hpub, hprot, hpriv]

theorem contains_finalBit : f.contains .finalBit = f.bit 4 :=
  contains_eq_bit (by decide) rfl

theorem contains_syntheticBit : f.contains .syntheticBit = f.bit 12 :=
  contains_eq_bit (by decide) rfl

theorem contains_enumBit : f.contains .enumBit = f.bit 14 :=
  contains_eq_bit (by decide) rfl

theorem bit_of_le {i : Nat} (hi : 16 ≤ i) : f.bit i = false :=
  BitVec.getLsbD_of_ge _ i hi

theorem bit_visibilityMask (i : Nat) : Flags.bit ⟨visibilityMask⟩ i = decide (i < 3) := by
  by_cases hi : i < 16
  · interval_cases i <;> rfl
  · rw [bit_of_le (Nat.le_of_not_lt hi)]
    grind

theorem bit_finalBit (i : Nat) : finalBit.bit i = decide (i = 4) :=
  bit_of_mask (by decide) rfl i

theorem bit_syntheticBit (i : Nat) : syntheticBit.bit i = decide (i = 12) :=
  bit_of_mask (by decide) rfl i

theorem bit_visibilityBits (v : Visibility) {i : Nat} (hi : 3 ≤ i) :
    Flags.bit ⟨v.bits⟩ i = false := by
  by_cases hlt : i < 16
  · cases v <;> interval_cases i <;> rfl
  · exact bit_of_le (Nat.le_of_not_lt hlt)

/-- The visibility field is replaced, and every other bit stays. -/
theorem bit_withVisibility (v : Visibility) (i : Nat) :
    (f.withVisibility v).bit i = if i < 3 then Flags.bit ⟨v.bits⟩ i else f.bit i := by
  have hwith : f.withVisibility v = (f.remove ⟨visibilityMask⟩).union ⟨v.bits⟩ := rfl
  rw [hwith, bit_union, bit_remove, bit_visibilityMask]
  split
  · simp_all
  · simp_all [bit_visibilityBits]

/-! ## The visibility field -/

@[simp]
theorem visibility_withVisibility (v : Visibility) : (f.withVisibility v).visibility = v := by
  simp only [visibility_eq, bit_withVisibility]
  cases v <;> rfl

/-- Flags outside the visibility field do not matter for the visibility. -/
theorem visibility_congr (h : ∀ i < 3, f.bit i = g.bit i) : f.visibility = g.visibility := by
  simp only [visibility_eq, h 0 (by decide), h 1 (by decide), h 2 (by decide)]

end Flags

end JarRefit.Access
