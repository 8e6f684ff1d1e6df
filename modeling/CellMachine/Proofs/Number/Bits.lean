import Mathlib
import CellMachine.Cell

/-!
# Bits of numbers

A machine number is known by its bits: reading the bits of a number and making a number of bits undo
each other, except that all words without a number share one number.  The core type is modelled by
words that are unpacked into sign, exponent and mantissa and packed again, so the module starts with
the three fields of a word.

The main statement is `Number.value_ofBits`: a number made of a sign and the bits of a finite
magnitude has the value that those bits say.
-/

namespace CellMachine
namespace Number

open Float.Model Float.Model.UnpackedFloat

/-! ## Fields of a word -/

/-- Packed bits are the sign, the exponent and the mantissa, from the highest place down. -/
theorem toNat_packComponents (sign : Sign) (exponent : BitVec 11) (mantissa : BitVec 52) :
    (packComponents .binary64 sign exponent mantissa).toNat =
      sign.toBitVec.toNat * 2 ^ 63 + exponent.toNat * 2 ^ 52 + mantissa.toNat := by
  have he := exponent.isLt
  have hm := mantissa.isLt
  rw [packComponents, BitVec.toNat_append, BitVec.toNat_append,
    ← Nat.shiftLeft_add_eq_or_of_lt hm, ← Nat.shiftLeft_add_eq_or_of_lt he]
  simp only [Nat.shiftLeft_eq]
  omega

/-- The mantissa is the lowest fifty-two bits. -/
theorem toNat_unpackMantissa (b : BitVec 64) :
    (@unpackMantissa .binary64 b).toNat = b.toNat % 2 ^ 52 := by
  simp [unpackMantissa]

/-- The exponent is the eleven bits above the mantissa. -/
theorem toNat_unpackExponent (b : BitVec 64) :
    (@unpackExponent .binary64 b).toNat = b.toNat / 2 ^ 52 % 2 ^ 11 := by
  simp [unpackExponent, Nat.shiftRight_eq_div_pow]

theorem toNat_unpackSign (b : BitVec 64) :
    (@unpackSign .binary64 b).toNat = b.toNat / 2 ^ 63 := by
  have := b.isLt
  simp [unpackSign, Nat.shiftRight_eq_div_pow]
  omega

theorem toBitVec_ofBitVec (v : BitVec 1) : (Sign.ofBitVec v).toBitVec = v := by
  revert v
  decide

/-- A word is put together again from its three fields. -/
theorem packComponents_fields (b : BitVec 64) {exponent : BitVec 11} {mantissa : BitVec 52}
    (he : @unpackExponent .binary64 b = exponent)
    (hm : @unpackMantissa .binary64 b = mantissa) :
    packComponents .binary64 (Sign.ofBitVec (@unpackSign .binary64 b)) exponent mantissa =
      b := by
  subst he hm
  have hlt := b.isLt
  apply BitVec.eq_of_toNat_eq
  rw [toNat_packComponents, toBitVec_ofBitVec, toNat_unpackSign, toNat_unpackExponent,
    toNat_unpackMantissa]
  omega

/-! ## Packing and unpacking -/

theorem toNat_implicit (mantissa : BitVec 52) :
    (1#1 ++ mantissa).toNat = 2 ^ 52 + mantissa.toNat := by
  rw [BitVec.toNat_append, ← Nat.shiftLeft_add_eq_or_of_lt mantissa.isLt]
  simp [Nat.shiftLeft_eq]

/-- The logarithm of what lies between two powers of two. -/
theorem log2_eq_of_lt {m k : Nat} (hlow : 2 ^ k ≤ m) (hhigh : m < 2 ^ (k + 1)) : m.log2 = k := by
  have hm : m ≠ 0 := by
    have := Nat.two_pow_pos k
    omega
  have h₁ := (Nat.le_log2 hm).2 hlow
  have h₂ := (Nat.log2_lt hm).2 hhigh
  omega

/-- The smallest numbers have the exponent field zero and no leading bit of their own. -/
theorem pack_unpack_subnormal {b : BitVec 64} (hmax : @unpackExponent .binary64 b ≠ -1#11)
    (hmin : @unpackExponent .binary64 b = 0#11) (hzero : @unpackMantissa .binary64 b ≠ 0#52) :
    pack .binary64 (unpack .binary64 b) = b := by
  have hbias : Format.binary64.exponentBias = 1023 := rfl
  have hbits : Format.binary64.mantissaBits = 53 := rfl
  have hmant : (@unpackMantissa .binary64 b).toNat < 2 ^ 52 := BitVec.isLt _
  have hpos : 0 < (@unpackMantissa .binary64 b).toNat := by
    simpa [BitVec.toNat_pos, BitVec.pos_iff_ne_zero] using hzero
  have hmin' : (@unpackExponent .binary64 b).toNat = 0 := by
    rw [hmin]
    rfl
  -- The mantissa is too short to be packed as one of a normal number.
  have hlog : ¬ (@unpackMantissa .binary64 b).toNat.log2 + 1 = 53 := by
    have := (Nat.log2_lt hpos.ne').2 hmant
    omega
  rw [UnpackedFloat.unpack, if_neg hmax, if_pos hmin, dif_neg hzero]
  simp only [UnpackedFloat.pack, hbias, hbits, hmin', if_neg hlog]
  rw [if_neg (by decide)]
  exact packComponents_fields b hmin (BitVec.eq_of_toNat_eq (by simp))

/-- Normal numbers have a leading bit that the mantissa field leaves out. -/
theorem pack_unpack_normal {b : BitVec 64} (hmax : @unpackExponent .binary64 b ≠ -1#11)
    (hmin : @unpackExponent .binary64 b ≠ 0#11) :
    pack .binary64 (unpack .binary64 b) = b := by
  have hbias : Format.binary64.exponentBias = 1023 := rfl
  have hbits : Format.binary64.mantissaBits = 53 := rfl
  have hexp : (@unpackExponent .binary64 b).toNat < 2 ^ 11 := BitVec.isLt _
  have hmant : (@unpackMantissa .binary64 b).toNat < 2 ^ 52 := BitVec.isLt _
  have hne : (@unpackExponent .binary64 b).toNat ≠ 0 := by
    intro h
    exact hmin (BitVec.eq_of_toNat_eq (by simpa using h))
  have hne' : (@unpackExponent .binary64 b).toNat ≠ 2047 := by
    intro h
    exact hmax (BitVec.eq_of_toNat_eq (by simpa using h))
  have hlog : (1#1 ++ @unpackMantissa .binary64 b).toNat.log2 = 52 := by
    rw [toNat_implicit]
    exact log2_eq_of_lt (by omega) (by omega)
  -- The bias that unpacking takes off is the one that packing adds.
  have hfield : ((@unpackExponent .binary64 b).toNat -
      ((1023 : Nat) + (52 : Nat) : Int) + (1023 : Nat) + (52 : Nat)).toNat =
      (@unpackExponent .binary64 b).toNat := by
    omega
  rw [UnpackedFloat.unpack, if_neg hmax, if_neg hmin]
  simp only [UnpackedFloat.pack, hbias, hbits, hlog, hfield]
  rw [if_neg (by simp; omega), if_pos trivial]
  refine packComponents_fields b (BitVec.eq_of_toNat_eq ?_) (BitVec.eq_of_toNat_eq ?_)
  · simp
  · rw [BitVec.toNat_ofNat, toNat_implicit]
    change _ = (2 ^ 52 + _) % 2 ^ 52
    omega

/-- Packing undoes unpacking on every word that encodes no number in the canonical way only. -/
theorem pack_unpack {b : BitVec 64} (hb : Format.binary64.Valid b) :
    pack .binary64 (unpack .binary64 b) = b := by
  by_cases hmax : @unpackExponent .binary64 b = -1#11
  · rw [UnpackedFloat.unpack, if_pos hmax]
    split
    · rename_i hzero
      exact packComponents_fields b hmax hzero
    · rename_i hzero
      exact (hb.eq_packedNaN hmax hzero).symm
  by_cases hmin : @unpackExponent .binary64 b = 0#11
  · by_cases hzero : @unpackMantissa .binary64 b = 0#52
    · rw [UnpackedFloat.unpack, if_neg hmax, if_pos hmin, dif_pos hzero]
      exact packComponents_fields b hmin hzero
    · exact pack_unpack_subnormal hmax hmin hzero
  · exact pack_unpack_normal hmax hmin

/-- Unpacking loses nothing. -/
theorem model_pack_unpack (x : Float.Model) : Float.Model.pack x.unpack = x := by
  rcases x with ⟨bits, valid⟩
  have h := pack_unpack valid
  simp only [Float.Model.pack, Float.Model.unpack, h]

/-! ## Numbers -/

/-- A word up to the bits of an infinity is kept as it is. -/
theorem toBits_ofBits {w : UInt64} (hw : w.toNat % signBit ≤ infinityBits) :
    (Float.ofBits w).toBits = w := by
  -- Beyond the bits of an infinity lie the words without a number; only there is a word replaced.
  have hvalid : Format.binary64.Valid w.toBitVec := by
    constructor
    intro hmax hzero
    have hexp := congrArg BitVec.toNat hmax
    have hmant : (@unpackMantissa .binary64 w.toBitVec).toNat ≠ 0 := fun h =>
      hzero (BitVec.eq_of_toNat_eq (by simpa using h))
    rw [toNat_unpackExponent] at hexp
    rw [toNat_unpackMantissa] at hmant
    simp only [UInt64.toNat_toBitVec, signBit, infinityBits, hiddenBit] at hexp hmant hw
    have : (-1#11).toNat = 2047 := rfl
    omega
  have h := pack_unpack hvalid
  simp only [Float.ofBits, Float.toBits, Float.Model.ofBits, Float.Model.pack, h]

/-- A number is determined by its bits. -/
theorem toBits_injective {x y : Float} (h : x.toBits = y.toBits) : x = y := by
  rcases x with ⟨⟨bits, valid⟩⟩
  rcases y with ⟨⟨bits', valid'⟩⟩
  simp only [Float.toBits] at h
  subst h
  rfl

/-- Sign and magnitude do not meet in a word. -/
theorem toNat_toBits_ofBits (negative : Bool) {magnitude : Nat} (h : magnitude ≤ infinityBits) :
    (ofBits negative magnitude).toBits.toNat = (if negative then signBit else 0) + magnitude := by
  have hlt : (if negative then signBit else 0) + magnitude < UInt64.size := by
    simp only [signBit, infinityBits, hiddenBit, UInt64.size] at h ⊢
    split <;> omega
  have hword : (UInt64.ofNat ((if negative then signBit else 0) + magnitude)).toNat =
      (if negative then signBit else 0) + magnitude :=
    UInt64.toNat_ofNat_of_lt' hlt
  have hmod : ((if negative then signBit else 0) + magnitude) % signBit = magnitude := by
    simp only [signBit, infinityBits, hiddenBit] at h ⊢
    split <;> omega
  rw [ofBits, toBits_ofBits (by rw [hword, hmod]; exact h), hword]

/-- The sign and the magnitude of a word are read off its bits. -/
theorem sign_magnitude (negative : Bool) {magnitude : Nat} (h : magnitude ≤ infinityBits) :
    decide (signBit ≤ (if negative then signBit else 0) + magnitude) = negative ∧
      ((if negative then signBit else 0) + magnitude) % signBit = magnitude := by
  simp only [signBit, infinityBits, hiddenBit] at h ⊢
  cases negative
  · simp
    omega
  · simp
    omega

/-- Finite magnitude bits stand for their units. -/
theorem value_ofBits {negative : Bool} {magnitude : Nat} (h : magnitude < infinityBits) :
    value (ofBits negative magnitude) = .finite negative (unitsOfBits magnitude) := by
  rcases sign_magnitude negative h.le with ⟨hsign, hmod⟩
  rw [value, toNat_toBits_ofBits negative h.le, hsign, hmod]
  exact if_pos h

theorem value_ofBits_infinity (negative : Bool) :
    value (ofBits negative infinityBits) = .infinite negative := by
  rcases sign_magnitude negative (Nat.le_refl infinityBits) with ⟨hsign, hmod⟩
  rw [value, toNat_toBits_ofBits negative (Nat.le_refl _), hsign, hmod]
  simp only [lt_irrefl, if_false, if_true]

/-! ## Numbers of given bits -/

/-- A number with a magnitude is made of its sign and that magnitude. -/
theorem eq_ofBits {x : Float} (h : x.toBits.toNat % signBit ≤ infinityBits) :
    x = ofBits (decide (signBit ≤ x.toBits.toNat)) (x.toBits.toNat % signBit) := by
  apply toBits_injective
  apply UInt64.toNat_inj.1
  rw [toNat_toBits_ofBits _ h]
  have hlt : x.toBits.toNat < UInt64.size := x.toBits.toNat_lt_size
  by_cases hsign : signBit ≤ x.toBits.toNat
  · rw [decide_eq_true hsign, if_pos rfl]
    simp only [signBit, UInt64.size] at hlt hsign ⊢
    omega
  · rw [decide_eq_false hsign, if_neg Bool.false_ne_true]
    simp only [signBit] at hsign ⊢
    omega

/-- Beyond the bits of an infinity there is one word only. -/
theorem toBits_of_nan {x : Float} (h : infinityBits < x.toBits.toNat % signBit) :
    x.toBits.toBitVec = packedNaN .binary64 := by
  have hvalid : Format.binary64.Valid x.toBits.toBitVec := x.toModel.valid
  have hexponent : (@unpackExponent .binary64 x.toBits.toBitVec).toNat = 2047 := by
    rw [toNat_unpackExponent, UInt64.toNat_toBitVec]
    simp only [signBit, infinityBits, hiddenBit] at h
    omega
  have hmantissa : (@unpackMantissa .binary64 x.toBits.toBitVec).toNat ≠ 0 := by
    rw [toNat_unpackMantissa, UInt64.toNat_toBitVec]
    simp only [signBit, infinityBits, hiddenBit] at h
    omega
  refine hvalid.eq_packedNaN (BitVec.eq_of_toNat_eq hexponent) fun hzero => hmantissa ?_
  rw [hzero]
  rfl

/-- There is only one word without a number. -/
theorem eq_of_nan {x y : Float} (hx : infinityBits < x.toBits.toNat % signBit)
    (hy : infinityBits < y.toBits.toNat % signBit) : x = y := by
  apply toBits_injective
  apply UInt64.toBitVec_inj.1
  rw [toBits_of_nan hx, toBits_of_nan hy]

end Number
end CellMachine
