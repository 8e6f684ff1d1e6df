import Mathlib
import CellMachine.Proofs.Number.Bits

/-!
# Equality of numbers

The model reads off the bits whether two numbers are the same quantity.  This is the comparison of
the core type: `Number.same_eq_beq`.
-/

namespace CellMachine
namespace Number

open Float.Model Float.Model.UnpackedFloat

/-! ## Comparison of unpacked numbers -/

def isUnpackedZero : UnpackedFloat → Bool
  | .zero _ => true
  | _ => false

theorem sign_compare_eq_iff (s t : Sign) : compare s t = .eq ↔ s = t := by
  cases s <;> cases t <;> simp [compare]

/-- Unpacked numbers compare as equal if both are zeros, or if they are the same and numbers. -/
theorem compare_eq_iff (u v : UnpackedFloat) :
    u.compare v = some .eq ↔
      (isUnpackedZero u ∧ isUnpackedZero v) ∨ (u = v ∧ u ≠ .notANumber) := by
  cases u with
  | notANumber => cases v <;> simp [UnpackedFloat.compare, isUnpackedZero]
  | infinity s =>
      cases v with
      | infinity t => simp [UnpackedFloat.compare, isUnpackedZero, sign_compare_eq_iff]
      | _ => cases s <;> simp [UnpackedFloat.compare, isUnpackedZero]
  | zero s =>
      cases v with
      | notANumber => simp [UnpackedFloat.compare, isUnpackedZero]
      | zero t => simp [UnpackedFloat.compare, isUnpackedZero]
      | infinity t => cases t <;> simp [UnpackedFloat.compare, isUnpackedZero]
      | finite t => cases t <;> simp [UnpackedFloat.compare, isUnpackedZero]
  | finite s m e hm =>
      cases v with
      | notANumber => simp [UnpackedFloat.compare, isUnpackedZero]
      | infinity t => cases t <;> cases s <;> simp [UnpackedFloat.compare, isUnpackedZero]
      | zero t => cases s <;> simp [UnpackedFloat.compare, isUnpackedZero]
      | finite t n f hn =>
          cases s <;> cases t <;>
            simp [UnpackedFloat.compare, isUnpackedZero, Ordering.then_eq_eq, and_comm]

/-- Numbers are equal if both are zeros, or if they are the same and numbers. -/
theorem beq_iff (x y : Float) :
    (x == y) = true ↔ (isUnpackedZero x.toModel.unpack ∧ isUnpackedZero y.toModel.unpack) ∨
      (x = y ∧ x.toModel.unpack ≠ .notANumber) := by
  -- Unpacking loses nothing, because packing undoes it.
  have hinj : x.toModel.unpack = y.toModel.unpack ↔ x = y := by
    constructor
    · intro h
      have hmodel : x.toModel = y.toModel := by
        rw [← model_pack_unpack x.toModel, h, model_pack_unpack]
      cases x
      cases y
      exact congrArg Float.ofModel hmodel
    · rintro rfl
      rfl
  change (x.toModel.unpack.compare y.toModel.unpack == some .eq) = true ↔ _
  rw [beq_iff_eq, compare_eq_iff, hinj]

/-! ## Zeros and what is no number -/

/-- The highest exponent is the one without a zero bit. -/
theorem exponent_eq_max_iff (b : BitVec 64) :
    @unpackExponent .binary64 b = -1#11 ↔ b.toNat / 2 ^ 52 % 2 ^ 11 = 2047 := by
  rw [← toNat_unpackExponent, ← BitVec.toNat_inj]
  rfl

theorem exponent_eq_min_iff (b : BitVec 64) :
    @unpackExponent .binary64 b = 0#11 ↔ b.toNat / 2 ^ 52 % 2 ^ 11 = 0 := by
  rw [← toNat_unpackExponent, ← BitVec.toNat_inj]
  rfl

theorem mantissa_eq_zero_iff (b : BitVec 64) :
    @unpackMantissa .binary64 b = 0#52 ↔ b.toNat % 2 ^ 52 = 0 := by
  rw [← toNat_unpackMantissa, ← BitVec.toNat_inj]
  rfl

/-- A zero has no bit but its sign. -/
theorem isUnpackedZero_unpack (b : BitVec 64) :
    isUnpackedZero (UnpackedFloat.unpack .binary64 b) = true ↔ b.toNat % signBit = 0 := by
  rw [UnpackedFloat.unpack, signBit]
  split
  · rename_i hmax
    have hmax := (exponent_eq_max_iff b).1 hmax
    split <;> simp only [isUnpackedZero, Bool.false_eq_true, false_iff] <;> omega
  · split
    · rename_i hmin
      have hmin := (exponent_eq_min_iff b).1 hmin
      split
      · rename_i hzero
        have hzero := (mantissa_eq_zero_iff b).1 hzero
        simp only [isUnpackedZero, true_iff]
        omega
      · rename_i hzero
        have hzero := mt (mantissa_eq_zero_iff b).2 hzero
        simp only [isUnpackedZero, Bool.false_eq_true, false_iff]
        omega
    · rename_i hmin
      have hmin := mt (exponent_eq_min_iff b).2 hmin
      simp only [isUnpackedZero, Bool.false_eq_true, false_iff]
      omega

/-- What is no number has larger magnitude bits than an infinity. -/
theorem unpack_eq_nan_iff (b : BitVec 64) :
    UnpackedFloat.unpack .binary64 b = .notANumber ↔ infinityBits < b.toNat % signBit := by
  rw [UnpackedFloat.unpack, signBit, infinityBits, hiddenBit]
  split
  · rename_i hmax
    have hmax := (exponent_eq_max_iff b).1 hmax
    split
    · rename_i hzero
      have hzero := (mantissa_eq_zero_iff b).1 hzero
      simp only [reduceCtorEq, false_iff]
      omega
    · rename_i hzero
      have hzero := mt (mantissa_eq_zero_iff b).2 hzero
      simp only [true_iff]
      omega
  · rename_i hmax
    have hmax := mt (exponent_eq_max_iff b).2 hmax
    split
    · split <;> simp only [reduceCtorEq, false_iff] <;> omega
    · simp only [reduceCtorEq, false_iff]
      omega

/-- Whether a number is zero shows in its magnitude bits. -/
theorem isZero_iff (x : Float) : isZero x = true ↔ x.toBits.toNat % signBit = 0 := by
  have hlt := x.toBits.toNat_lt
  simp only [isZero, decide_eq_true_eq, ← UInt64.toNat_inj, Bool.decide_or, Bool.or_eq_true,
    signBit]
  simp
  omega

/-- Whether a number is none shows in its magnitude bits. -/
theorem value_eq_nan_iff (x : Float) :
    value x = .nan ↔ infinityBits < x.toBits.toNat % signBit := by
  rw [value]
  split
  · simp only [reduceCtorEq, false_iff]
    omega
  · split <;> simp only [reduceCtorEq, false_iff, true_iff] <;> omega

/-! ## The two comparisons -/

/-- Two numbers are the same quantity just when the comparison of machine numbers says so. -/
theorem same_eq_beq (x y : Float) : same x y = (x == y) := by
  have hx : isUnpackedZero x.toModel.unpack = true ↔ isZero x = true :=
    (isUnpackedZero_unpack _).trans (isZero_iff x).symm
  have hy : isUnpackedZero y.toModel.unpack = true ↔ isZero y = true :=
    (isUnpackedZero_unpack _).trans (isZero_iff y).symm
  have hnan : x.toModel.unpack = .notANumber ↔ value x = .nan :=
    (unpack_eq_nan_iff _).trans (value_eq_nan_iff x).symm
  rw [Bool.eq_iff_iff, beq_iff, hx, hy, ne_eq, hnan, same]
  split
  · rename_i h
    have hxy := toBits_injective h
    subst hxy
    -- A zero is a number, so it is the same as itself by the other disjunct as well.
    have hzero : isZero x = true → value x ≠ .nan := by
      rw [isZero_iff, ne_eq, value_eq_nan_iff, infinityBits, hiddenBit]
      omega
    simpa using hzero
  · rename_i h
    -- Numbers of different bits are different, so zeros alone are left.
    have hxy : x ≠ y := fun hxy => h (congrArg Float.toBits hxy)
    simp [hxy]

end Number
end CellMachine
