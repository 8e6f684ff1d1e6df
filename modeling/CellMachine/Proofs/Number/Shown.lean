import Mathlib
import CellMachine.Cell
import CellMachine.Proofs.Number.Decimal
import CellMachine.Proofs.Table.Keys

/-!
# Numbers that are shown

The text of a number in a cell is laid out in one of two ways: whole numbers below `10 ^ 15` as
integers, all others with the digits that are found for them.  Both texts are read back, and what is
read is the same number but for the sign of a zero, which an integer does not have:
`Number.parse?_shown`.

`Number.IsInteger` says that nothing is lost on the way through a word of sixty-four bits.
-/

namespace CellMachine
namespace Number

variable {x : Float} {negative : Bool} {k : Nat}

/-- Whether a number may stand for another one: it is the same quantity, or no number if the other
one is none.  A zero loses its sign. -/
structure StandsFor (y x : Float) : Prop where
  nan : value x = .nan → value y = .nan
  eq : value x ≠ .nan → (y == x) = true
  zero : isZero x = true → value y = .finite false 0

/-- Whether a number is an integer that is shown as one. -/
structure IsInteger (x : Float) (n : Int) : Prop where
  toInt? : toInt? x = some n
  /-- The integer is a word of sixty-four bits. -/
  word : (Int64.ofInt n).toInt = n
  /-- The number nearest to the integer is the number. -/
  eq : (nearest (decide (n < 0)) (n.natAbs * one) 1 == x) = true
  text : Number.text x = toString n

/-! ## Integers -/

def integer (negative : Bool) (k : Nat) : Int :=
  if negative then -k else k

theorem natAbs_integer (negative : Bool) (k : Nat) : (integer negative k).natAbs = k := by
  cases negative with
  | false => rfl
  | true => exact Int.natAbs_neg k

/-- A number that is so many ones is an integer. -/
theorem toInt?_of_value (h : value x = .finite negative (k * one)) :
    toInt? x = some (integer negative k) := by
  have hmod : k * one % one = 0 := Nat.mul_mod_left k one
  have hdiv : k * one / one = k := Nat.mul_div_cancel k one_pos
  rw [toInt?, h]
  simp only [hmod, hdiv, if_true, integer, Int.ofNat_eq_natCast]

/-- An integer is written as a sign and digits. -/
theorem toString_eq (n : Int) :
    toString n = String.ofList (signed (decide (n < 0)) (digits n.natAbs)) := by
  rw [Int.toString_eq_repr, Int.repr_eq_if]
  by_cases hneg : n < 0
  · rw [if_neg (Int.not_le.2 hneg), decide_eq_true hneg, show (-n).toNat = n.natAbs by omega]
    have hminus : String.ofList (['-'] ++ digits n.natAbs) = "-" ++ String.ofList (digits n.natAbs) :=
      String.ofList_append
    exact hminus.symm
  · rw [if_pos (Int.not_lt.1 hneg), decide_eq_false hneg, show n.toNat = n.natAbs by omega]
    rfl

/-! ## Texts of integers -/

theorem bits_whole (k : Nat) : Decimal.bits ⟨k, 0⟩ = nearestBits (k * one) 1 := by
  rcases Nat.eq_zero_or_pos k with rfl | hpos
  · rw [Nat.zero_mul, nearestBits_zero]
    rfl
  · simp only [Decimal.bits, Nat.pow_eq]
    rw [if_neg hpos.ne', if_neg (by decide), if_pos (by decide), Int.toNat_zero, Nat.pow_zero,
      Nat.mul_one]

/-- The digits of a natural number are read as that number. -/
theorem parse?_digits (negative : Bool) (k : Nat) :
    parse? (signed negative (digits k)) = some (nearest negative (k * one) 1) := by
  rcases List.exists_cons_of_ne_nil (digits_ne_nil k) with ⟨c, rest, hcs⟩
  have hdigits : ∀ c ∈ digits k, c.isDigit = true := fun c hc => isDigit_of_mem_digits hc
  have hfirst : c.isDigit = true := hdigits c (hcs ▸ List.mem_cons_self ..)
  rw [parse?_signed negative ⟨c, rest, hcs, hfirst⟩, decimal?_digits hdigits (digits_ne_nil k),
    ofDigits_digits, Option.map_some, ofDecimal, bits_whole, nearest]

/-- A whole number is the number nearest to itself. -/
theorem nearest_of_value (h : value x = .finite negative (k * one)) :
    nearest negative (k * one) 1 = x := by
  have hvalue := ofValue_value x
  rwa [h] at hvalue

theorem isZero_ofBits (negative : Bool) : isZero (ofBits negative 0) = true := by
  cases negative <;> decide +kernel

/-- A number that is not zero stands for itself. -/
theorem StandsFor.of_ne_zero (h : isZero x = false) : StandsFor x x where
  nan := id
  eq hvalue := same_eq_beq x x ▸ (same_self_iff x).2 hvalue
  zero hzero := absurd (h.symm.trans hzero) Bool.false_ne_true

/-- The number that an integer is read as stands for the number that was shown. -/
theorem standsFor_integer (h : value x = .finite negative (k * one)) :
    StandsFor (nearest (decide (integer negative k < 0)) (k * one) 1) x := by
  have heq := nearest_of_value h
  rcases Nat.eq_zero_or_pos k with rfl | hpos
  · -- The integer has no sign, whichever zero it was.
    have hsign : decide (integer negative 0 < 0) = false := by cases negative <;> rfl
    have hvalue := value_ofNat (show 0 ≤ 2 ^ 53 by decide)
    rw [Nat.zero_mul, nearest, nearestBits_zero] at heq
    rw [ofNat, Nat.zero_mul, nearest, nearestBits_zero] at hvalue
    rw [hsign, Nat.zero_mul, nearest, nearestBits_zero, ← heq]
    refine ⟨fun hnan => ?_, fun _ => ?_, fun _ => hvalue⟩
    · rw [heq, h] at hnan
      cases hnan
    · rw [← same_eq_beq]
      exact (same_iff _ _).2 (.inr ⟨isZero_ofBits _, isZero_ofBits _⟩)
  · -- Any other integer has the sign of the number, so the number itself is read.
    have hsign : decide (integer negative k < 0) = negative := by
      cases negative <;> simp [integer, hpos]
    have hzero : isZero x = false := by
      rw [Bool.eq_false_iff]
      intro hzero
      rcases value_of_isZero hzero with ⟨other, hvalue⟩
      rw [h] at hvalue
      exact (Nat.mul_pos hpos one_pos).ne' (Value.finite.inj hvalue).2
    rw [hsign, heq]
    exact .of_ne_zero hzero

/-! ## What is shown -/

/-- A whole number below `10 ^ 15` is shown as an integer. -/
theorem shown_of_value (h : value x = .finite negative (k * one)) (hk : k < 10 ^ 15) :
    shown x = signed (decide (integer negative k < 0)) (digits k) := by
  rw [shown, toInt?_of_value h]
  simp only [natAbs_integer]
  exact if_pos hk

/-- A whole number below `10 ^ 15` is shown as the integer that it is, and loses nothing thereby. -/
theorem isInteger_of_value (h : value x = .finite negative (k * one)) (hk : k < 10 ^ 15) :
    IsInteger x (integer negative k) where
  toInt? := toInt?_of_value h
  word := by
    refine Int64.toInt_ofInt_of_le ?_ ?_
    all_goals
      cases negative <;> simp [integer] <;> omega
  eq := by
    rw [natAbs_integer]
    refine (standsFor_integer h).eq ?_
    rw [h]
    nofun
  text := by
    rw [toString_eq, natAbs_integer, Number.text, shown_of_value h hk]

/-- What is shown of a number is read as a number that stands for it. -/
theorem parse?_shown (x : Float) : ∃ y, parse? (shown x) = some y ∧ StandsFor y x := by
  by_cases hinteger : ∃ negative k, value x = .finite negative (k * one) ∧ k < 10 ^ 15
  · rcases hinteger with ⟨negative, k, hvalue, hk⟩
    rw [shown_of_value hvalue hk, parse?_digits]
    exact ⟨_, rfl, standsFor_integer hvalue⟩
  · have hplain : shown x = plain x := by
      rw [shown]
      split
      · rename_i n hn
        rcases value_of_toInt? hn with ⟨negative, hvalue⟩
        exact if_neg fun hk => hinteger ⟨negative, n.natAbs, hvalue, hk⟩
      · rfl
    -- A zero is an integer.
    have hzero : isZero x = false := by
      rw [Bool.eq_false_iff]
      intro hzero
      rcases value_of_isZero hzero with ⟨negative, hvalue⟩
      exact hinteger ⟨negative, 0, by rw [hvalue, Nat.zero_mul], by decide⟩
    exact ⟨x, hplain ▸ parse?_plain x, .of_ne_zero hzero⟩

/-- What is shown of a number has characters of one byte only, and none of them is blank. -/
theorem shown_visible (x : Float) :
    shown x ≠ [] ∧ ∀ c ∈ shown x, 0x20 < c.toNat ∧ c.toNat ≤ 0x7f := by
  have hdigit (k : Nat) : ∀ c ∈ digits k, 0x20 < c.toNat ∧ c.toNat ≤ 0x7f := by
    intro c hc
    have := toNat_of_isDigit (isDigit_of_mem_digits hc)
    omega
  rw [shown]
  split
  · split
    · exact signed_visible _ (digits_ne_nil _) (hdigit _)
    · exact plain_visible x
  · exact plain_visible x

end Number
end CellMachine
