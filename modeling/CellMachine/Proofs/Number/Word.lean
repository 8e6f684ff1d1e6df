import Mathlib
import CellMachine.Proofs.Number.Bits

/-!
# Words that are saved as numbers

A machine saves the words of a call environment as numbers.  A word up to `2 ^ 53` is a number
itself, so nothing is rounded and the word is read back as it was: `Number.toWord?_ofNat`.  A larger
one is rounded, but to a whole number, so that some word is read back: `Number.exists_toWord?_ofNat`.
The whole numbers get sparse there: `Number.two_pow_dvd_of_units`.
-/

namespace CellMachine
namespace Number

/-! ## Units of a magnitude -/

/-- A division without remainder needs no rounding. -/
theorem divEven_of_dvd {a d : Nat} (hd : 0 < d) (h : d ∣ a) : divEven a d = a / d := by
  rw [divEven, Nat.mod_eq_zero_of_dvd h]
  simp [hd]

theorem hiddenBit_eq : hiddenBit = 2 ^ 52 := rfl

-- The exponent stays a variable, so that nothing computes the power.
theorem one_eq {p : Nat} (hp : p = 1074) : one = 2 ^ p := by
  rw [one, ← hp, Nat.one_shiftLeft]

/-- The units of a normal number, whose significand `m` has its leading bit at place fifty-two. -/
theorem unitsOfBits_normal {m k : Nat} (hlow : hiddenBit ≤ m) (hhigh : m < 2 * hiddenBit) :
    unitsOfBits (k * hiddenBit + m) = m * 2 ^ k := by
  have hfield : (k * hiddenBit + m) / hiddenBit = k + 1 := by
    rw [hiddenBit_eq] at *
    omega
  have hfraction : hiddenBit + (k * hiddenBit + m) % hiddenBit = m := by
    rw [hiddenBit_eq] at *
    omega
  simp only [unitsOfBits, hfield, hfraction, Nat.add_sub_cancel, Nat.shiftLeft_eq]
  rw [if_neg (Nat.succ_ne_zero k)]

/-- Below the hidden bit, bits are units. -/
theorem unitsOfBits_subnormal {m : Nat} (h : m < hiddenBit) : unitsOfBits m = m := by
  simp [unitsOfBits, Nat.div_eq_of_lt h, Nat.mod_eq_of_lt h]

/-- The bits of a normal number have a shift and a significand with its leading bit. -/
theorem exists_shift {bits : Nat} (h : hiddenBit ≤ bits) :
    ∃ k m, hiddenBit ≤ m ∧ m < 2 * hiddenBit ∧ bits = k * hiddenBit + m := by
  refine ⟨bits / hiddenBit - 1, hiddenBit + bits % hiddenBit, ?_, ?_, ?_⟩
  all_goals
    rw [hiddenBit_eq] at *
    omega

/-- A number is nearest to its own units. -/
theorem nearestBits_unitsOfBits {bits : Nat} (h : bits < infinityBits) :
    nearestBits (unitsOfBits bits) 1 = bits := by
  rcases Nat.lt_or_ge bits hiddenBit with hsub | hnormal
  · -- Without a hidden bit the bits count the units themselves, and nothing is shifted.
    have hlog : Nat.log2 bits - 52 = 0 := by
      rcases Nat.eq_zero_or_pos bits with rfl | hpos
      · simp
      · have := (Nat.log2_lt hpos.ne').2 (hiddenBit_eq ▸ hsub)
        omega
    rw [unitsOfBits_subnormal hsub, nearestBits, Nat.div_one, hlog]
    simp only [Nat.zero_mul, Nat.shiftLeft_zero, Nat.zero_add]
    rw [divEven_of_dvd Nat.one_pos (Nat.one_dvd bits), Nat.div_one]
    exact Nat.min_eq_left h.le
  · rcases exists_shift hnormal with ⟨k, m, hlow, hhigh, rfl⟩
    -- The shift is read off the leading bit, and the significand comes back without a remainder.
    have hlog : (m * 2 ^ k).log2 = 52 + k := by
      apply log2_eq_of_lt
      · rw [Nat.pow_add]
        exact Nat.mul_le_mul_right _ hlow
      · rw [show 52 + k + 1 = 53 + k by omega, Nat.pow_add]
        exact (Nat.mul_lt_mul_right (Nat.two_pow_pos k)).2 hhigh
    rw [unitsOfBits_normal hlow hhigh, nearestBits, Nat.div_one, hlog]
    simp only [Nat.add_sub_cancel_left, Nat.one_shiftLeft]
    rw [divEven_of_dvd (Nat.two_pow_pos k) (Nat.dvd_mul_left _ _),
      Nat.mul_div_cancel _ (Nat.two_pow_pos k)]
    exact Nat.min_eq_left h.le

/-! ## Natural numbers -/

/-- A natural number up to `2 ^ 53` is a significand of fifty-three places, shifted. -/
theorem exists_significand {n : Nat} (hpos : 0 < n) (h : n ≤ 2 ^ 53) :
    ∃ m k, hiddenBit ≤ m ∧ m < 2 * hiddenBit ∧ k ≤ 1075 ∧ n * one = m * 2 ^ k := by
  obtain ⟨p, hp⟩ : ∃ p, p = 1074 := ⟨_, rfl⟩
  rw [hiddenBit_eq, one_eq hp]
  rcases Nat.lt_or_eq_of_le h with hlt | rfl
  · have hlog : n.log2 ≤ 52 := Nat.lt_succ_iff.1 ((Nat.log2_lt hpos.ne').2 hlt)
    have hlow : 2 ^ n.log2 ≤ n := Nat.log2_self_le hpos.ne'
    have hhigh : n < 2 ^ (n.log2 + 1) := Nat.lt_log2_self
    -- The leading bit is moved to place fifty-two.
    refine ⟨n * 2 ^ (52 - n.log2), n.log2 + 1022, ?_, ?_, by omega, ?_⟩
    · calc
        2 ^ 52 = 2 ^ n.log2 * 2 ^ (52 - n.log2) := by rw [← Nat.pow_add]; congr 1; omega
        _ ≤ n * 2 ^ (52 - n.log2) := Nat.mul_le_mul_right _ hlow
    · calc
        n * 2 ^ (52 - n.log2) < 2 ^ (n.log2 + 1) * 2 ^ (52 - n.log2) :=
          (Nat.mul_lt_mul_right (Nat.two_pow_pos _)).2 hhigh
        _ = 2 ^ 53 := by rw [← Nat.pow_add]; congr 1; omega
        _ = 2 * 2 ^ 52 := by decide
    · have hexp : 52 - n.log2 + (n.log2 + 1022) = p := by omega
      rw [Nat.mul_assoc, ← Nat.pow_add, hexp]
  · -- The bound itself has fifty-four places, but the last one is zero.
    refine ⟨2 ^ 52, p + 1, Nat.le_refl _, by decide, by omega, ?_⟩
    rw [Nat.pow_succ 2 52, Nat.pow_succ 2 p, Nat.mul_assoc, Nat.mul_comm 2]

/-- Every natural number up to `2 ^ 53` is a number. -/
theorem exists_unitsOfBits {n : Nat} (h : n ≤ 2 ^ 53) :
    ∃ bits < infinityBits, unitsOfBits bits = n * one := by
  rcases Nat.eq_zero_or_pos n with rfl | hpos
  · exact ⟨0, by decide, by rw [unitsOfBits_subnormal (by decide), Nat.zero_mul]⟩
  · rcases exists_significand hpos h with ⟨m, k, hlow, hhigh, hk, heq⟩
    refine ⟨k * hiddenBit + m, ?_, by rw [unitsOfBits_normal hlow hhigh, heq]⟩
    rw [infinityBits, hiddenBit_eq] at *
    omega

/-- A natural number up to `2 ^ 53` is not rounded. -/
theorem value_ofNat {n : Nat} (h : n ≤ 2 ^ 53) : value (ofNat n) = .finite false (n * one) := by
  rcases exists_unitsOfBits h with ⟨bits, hbits, hunits⟩
  rw [ofNat, nearest, ← hunits, nearestBits_unitsOfBits hbits, value_ofBits hbits]

theorem one_pos : 0 < one := by
  obtain ⟨p, hp⟩ : ∃ p, p = 1074 := ⟨_, rfl⟩
  rw [one_eq hp]
  exact Nat.two_pow_pos p

/-- A word up to `2 ^ 53` survives being saved as a number. -/
theorem toWord?_ofNat {n : Nat} (h : n ≤ 2 ^ 53) : toWord? (ofNat n) = some n := by
  have hmax : n ≤ maxWord := h.trans (by decide)
  have hmod : n * one % one = 0 := Nat.mul_mod_left n one
  have hdiv : n * one / one = n := Nat.mul_div_cancel n one_pos
  rw [toWord?, value_ofNat h]
  simp only [hmod, hdiv, true_or, and_self, if_true, Nat.min_eq_left hmax]

/-! ## Rounded words -/

/-- Rounding goes up by one at most. -/
theorem divEven_bounds (a d : Nat) : a / d ≤ divEven a d ∧ divEven a d ≤ a / d + 1 := by
  simp only [divEven]
  split
  · omega
  · split
    · omega
    · omega

/-- Beyond `2 ^ 53` a natural number is rounded to a multiple of a power of two. -/
theorem one_dvd_unitsOfBits {n : Nat} (h : 2 ^ 53 < n) {bits : Nat}
    (hbits : nearestBits (n * one) 1 = bits) (hfinite : bits < infinityBits) :
    one ∣ unitsOfBits bits := by
  obtain ⟨p, hp⟩ : ∃ p, p = 1074 := ⟨_, rfl⟩
  obtain ⟨k, hk⟩ : ∃ k, (n * one).log2 = 52 + k ∧ p ≤ k := by
    have hlow : 2 ^ (53 + p) ≤ n * one := by
      rw [one_eq hp, Nat.pow_add]
      exact Nat.mul_le_mul_right _ h.le
    have hlog := (Nat.le_log2 (Nat.ne_of_gt (Nat.lt_of_lt_of_le (Nat.two_pow_pos _) hlow))).2 hlow
    exact ⟨(n * one).log2 - 52, by omega, by omega⟩
  rcases hk with ⟨hlog, hle⟩
  have hdvd : one ∣ 2 ^ k := one_eq hp ▸ Nat.pow_dvd_pow 2 hle
  -- The significand has fifty-three places, or is the next power of two.
  obtain ⟨m, hm⟩ : ∃ m, divEven (n * one) (2 ^ k) = m := ⟨_, rfl⟩
  have hbounds := divEven_bounds (n * one) (2 ^ k)
  have hpos : n * one ≠ 0 := Nat.mul_ne_zero (by omega) one_pos.ne'
  have hlow : 2 ^ 52 ≤ n * one / 2 ^ k := by
    rw [Nat.le_div_iff_mul_le (Nat.two_pow_pos k), ← Nat.pow_add, ← hlog]
    exact Nat.log2_self_le hpos
  have hhigh : n * one / 2 ^ k < 2 ^ 53 := by
    rw [Nat.div_lt_iff_lt_mul (Nat.two_pow_pos k), ← Nat.pow_add,
      show 53 + k = 52 + k + 1 by omega, ← hlog]
    exact Nat.lt_log2_self
  have heq : bits = k * hiddenBit + m := by
    rw [nearestBits, Nat.div_one, hlog, Nat.add_sub_cancel_left, Nat.one_shiftLeft, hm] at hbits
    omega
  rw [heq]
  rcases Nat.lt_or_ge m (2 * hiddenBit) with hlt | hge
  · rw [unitsOfBits_normal (by rw [hiddenBit_eq]; omega) hlt]
    exact Dvd.dvd.mul_left hdvd m
  · have hcarry : k * hiddenBit + m = (k + 1) * hiddenBit + hiddenBit := by
      rw [hiddenBit_eq] at *
      omega
    rw [hcarry, unitsOfBits_normal (Nat.le_refl _) (by rw [hiddenBit_eq]; omega), Nat.pow_succ]
    exact Dvd.dvd.mul_left (Dvd.dvd.mul_right hdvd 2) hiddenBit

/-- Every natural number is saved as a number that is read back as some word. -/
theorem exists_toWord?_ofNat (n : Nat) : ∃ word, toWord? (ofNat n) = some word := by
  rcases Nat.lt_or_ge (2 ^ 53) n with hlt | hle
  · obtain ⟨bits, hbits⟩ : ∃ bits, nearestBits (n * one) 1 = bits := ⟨_, rfl⟩
    rw [ofNat, nearest, hbits]
    rcases Nat.lt_or_ge bits infinityBits with hfinite | hinfinite
    · have hmod := Nat.mod_eq_zero_of_dvd (one_dvd_unitsOfBits hlt hbits hfinite)
      refine ⟨min (unitsOfBits bits / one) maxWord, ?_⟩
      rw [toWord?, value_ofBits hfinite]
      simp only [hmod, true_or, and_self, if_true]
    · -- A number that is too large is saved as infinity, which is read as the largest word.
      have hinfinity : bits = infinityBits :=
        Nat.le_antisymm (hbits ▸ Nat.min_le_right _ _) hinfinite
      exact ⟨maxWord, by rw [toWord?, hinfinity, value_ofBits_infinity]⟩
  · exact ⟨n, toWord?_ofNat hle⟩

/-! ## Whole numbers -/

/-- A number that is whole has the units of its integer. -/
theorem value_of_toInt? {x : Float} {n : Int} (h : toInt? x = some n) :
    ∃ negative, value x = .finite negative (n.natAbs * one) := by
  rw [toInt?] at h
  split at h
  · rename_i negative units hvalue
    split at h
    · rename_i hmod
      have hn := Option.some.inj h
      have habs : n.natAbs = units / one := by
        rw [← hn]
        cases negative with
        | true => exact Int.natAbs_neg _
        | false => rfl
      refine ⟨negative, ?_⟩
      rw [hvalue, habs, Nat.div_mul_cancel (Nat.dvd_of_mod_eq_zero hmod)]
    · cases h
  · cases h

/-- A whole number that needs more than fifty-three places is a multiple of a power of two. -/
theorem two_pow_dvd_of_units {bits n j : Nat} (hunits : unitsOfBits bits = n * one)
    (hlarge : 2 ^ (52 + j) ≤ n) : 2 ^ j ∣ n := by
  obtain ⟨p, hp⟩ : ∃ p, p = 1074 := ⟨_, rfl⟩
  rw [one_eq hp] at hunits
  have hpos : 0 < 2 ^ p := Nat.two_pow_pos p
  have hplace : 2 ^ (52 + j + p) ≤ n * 2 ^ p := by
    rw [Nat.pow_add]
    exact Nat.mul_le_mul_right _ hlarge
  rcases Nat.lt_or_ge bits hiddenBit with hsub | hnormal
  · -- A number without a hidden bit is less than one.
    rw [unitsOfBits_subnormal hsub] at hunits
    have hlow : 2 ^ 52 ≤ 2 ^ (52 + j + p) := Nat.pow_le_pow_right (by decide) (by omega)
    rw [hiddenBit_eq] at hsub
    omega
  · rcases exists_shift hnormal with ⟨k, m, hlow, hhigh, rfl⟩
    rw [unitsOfBits_normal hlow hhigh] at hunits
    -- The significand has fifty-three places, so the shift makes up for the others.
    have hshift : j + p ≤ k := by
      by_contra hlt
      have hle : m * 2 ^ k < 2 ^ 53 * 2 ^ k := by
        refine (Nat.mul_lt_mul_right (Nat.two_pow_pos k)).2 ?_
        rw [hiddenBit_eq] at hhigh
        omega
      have hbound : 2 ^ 53 * 2 ^ k ≤ 2 ^ (52 + j + p) := by
        rw [← Nat.pow_add]
        exact Nat.pow_le_pow_right (by decide) (by omega)
      omega
    have hn : n = m * 2 ^ (k - p) := by
      apply Nat.eq_of_mul_eq_mul_right hpos
      rw [← hunits, Nat.mul_assoc, ← Nat.pow_add, Nat.sub_add_cancel (by omega)]
    rw [hn]
    exact Dvd.dvd.mul_left (Nat.pow_dvd_pow 2 (by omega)) m

end Number
end CellMachine
