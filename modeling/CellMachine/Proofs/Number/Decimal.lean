import Mathlib
import CellMachine.Number.Text
import CellMachine.Proofs.Number.Word

/-!
# Numbers are read back from their texts

The decimal that is written for a number is rounded to the bits of that number.  A candidate is
chosen only if it reads back, so nothing has to be known about the search; the exact expansion,
which ends it, reads back because scaling both sides of a ratio changes no rounding.

The layout without an exponent loses nothing of the decimal, so the plain text of any number is read
as that number: `Number.parse?_plain`.
-/

namespace CellMachine

open Number

/-! ## Rounding ratios -/

namespace Number

/-- A fraction may be cancelled before it is rounded. -/
theorem divEven_mul {a d c : Nat} (hc : 0 < c) : divEven (a * c) (d * c) = divEven a d := by
  have hless (x y : Nat) : 2 * (x * c) < y * c ↔ 2 * x < y := by
    rw [← Nat.mul_assoc, Nat.mul_lt_mul_right hc]
  have hmore (x y : Nat) : y * c < 2 * (x * c) ↔ y < 2 * x := by
    rw [← Nat.mul_assoc, Nat.mul_lt_mul_right hc]
  simp only [divEven, Nat.mul_div_mul_right _ _ hc, Nat.mul_mod_mul_right, hless, hmore]

/-- A ratio is rounded alike whatever common factor it has. -/
theorem nearestBits_mul {a d c : Nat} (hc : 0 < c) :
    nearestBits (a * c) (d * c) = nearestBits a d := by
  simp only [nearestBits, Nat.mul_div_mul_right _ _ hc, Nat.shiftLeft_eq]
  rw [Nat.mul_right_comm, divEven_mul hc]

theorem nearestBits_zero : nearestBits 0 1 = 0 := by
  rw [← unitsOfBits_subnormal (show 0 < hiddenBit by decide)]
  exact nearestBits_unitsOfBits (show 0 < infinityBits by decide)

end Number

/-! ## The decimal of a number -/

namespace Decimal

/-- The exact expansion of a number reads back. -/
theorem bits_exact {units : Nat} (h : 0 < units) : (exact units).bits = nearestBits units 1 := by
  obtain ⟨p, hp⟩ : ∃ p, p = 1074 := ⟨_, rfl⟩
  have hdigits : units * 5 ^ p ≠ 0 := by positivity
  -- With that many digits the expansion is not recognised as too small.
  have hlog : ¬ (Nat.log2 (units * 5 ^ p) + 1101 < 3 * p) := by
    have hlow : 2 ^ (2 * p) ≤ units * 5 ^ p := calc
      2 ^ (2 * p) = 4 ^ p := by rw [Nat.pow_mul]
      _ ≤ 5 ^ p := Nat.pow_le_pow_left (by decide) p
      _ ≤ units * 5 ^ p := Nat.le_mul_of_pos_left _ h
    have := (Nat.le_log2 hdigits).2 hlow
    omega
  have hexponent : (-1074 : Int) = -(p : Int) := by rw [hp]; rfl
  have hscale : units * 5 ^ p * one = units * 10 ^ p := by
    rw [one_eq hp, Nat.mul_assoc, ← Nat.mul_pow]
  rw [exact, ← hp, hexponent]
  simp only [bits, Int.natAbs_neg, Int.natAbs_natCast, Nat.pow_eq]
  rw [if_neg hdigits, if_neg (by omega), if_neg (by omega), if_neg hlog, hscale]
  have hmul := @nearestBits_mul units 1 (10 ^ p) (by positivity)
  rwa [Nat.one_mul] at hmul

/-- What the search finds on a grid reads back. -/
theorem bits_onGrid {tie : Tie} {units target : Nat} {exponent : Int} {d : Decimal}
    (h : onGrid? tie units target exponent = some d) : d.bits = target := by
  simp only [onGrid?] at h
  generalize (if 0 ≤ exponent then (units, Nat.pow 10 exponent.toNat * one)
    else (units * Nat.pow 10 exponent.natAbs, one)) = ratio at h
  split at h
  · rename_i hlower hupper
    cases h
    split
    · exact of_decide_eq_true hupper
    · exact of_decide_eq_true hlower
  · rename_i hlower _
    cases h
    exact of_decide_eq_true hlower
  · rename_i _ hupper
    cases h
    exact of_decide_eq_true hupper
  · cases h

/-- The decimal that is written for a number reads back, whatever becomes of a tie. -/
theorem bits_ofUnits (tie : Tie) (units : Nat) :
    (ofUnits tie units).bits = nearestBits units 1 := by
  rw [ofUnits]
  split
  · rename_i hzero
    rw [hzero, nearestBits_zero]
    exact if_pos rfl
  · rename_i hpos
    simp only
    cases hfound : (List.range 20).findSome? fun (i : Nat) =>
        onGrid? tie units (nearestBits units 1) (topExponent units - i) with
    | some d =>
        rcases List.exists_of_findSome?_eq_some hfound with ⟨i, -, hi⟩
        exact bits_onGrid hi
    | none => exact bits_exact (Nat.pos_of_ne_zero hpos)

end Decimal

/-! ## Numerals -/

namespace Number

/-- The digits of a natural number are read back as that number. -/
theorem ofDigits_digits (n : Nat) : ofDigits (digits n) = n :=
  Nat.ofDigitChars_ten_toDigits

theorem isDigit_of_mem_digits {n : Nat} {c : Char} (h : c ∈ digits n) : c.isDigit = true :=
  Nat.isDigit_of_mem_toDigits (by decide) (by decide) h

theorem digits_ne_nil (n : Nat) : digits n ≠ [] :=
  Nat.toDigits_ne_nil

/-- Zeros behind a numeral multiply it by powers of ten. -/
theorem ofDigits_append_zeros (cs : List Char) (k : Nat) :
    ofDigits (cs ++ List.replicate k '0') = ofDigits cs * 10 ^ k := by
  rw [ofDigits, Nat.ofDigitChars_append, Nat.ofDigitChars_replicate_zero, Nat.mul_comm, ofDigits]

/-- Zeros in front of a numeral do not change it. -/
theorem ofDigits_zeros_append (cs : List Char) (k : Nat) :
    ofDigits (List.replicate k '0' ++ cs) = ofDigits cs := by
  rw [ofDigits, Nat.ofDigitChars_append, Nat.ofDigitChars_replicate_zero, Nat.mul_zero, ofDigits]

/-- A run of digits ends where the next character is no digit. -/
theorem spanDigits_append {ds rest : List Char} (hds : ∀ c ∈ ds, c.isDigit = true)
    (hrest : ∀ c, rest.head? = some c → c.isDigit = false) :
    spanDigits (ds ++ rest) = (ds, rest) := by
  rw [spanDigits, List.takeWhile_append_of_pos hds, List.dropWhile_append_of_pos hds]
  cases rest with
  | nil => simp
  | cons c rest => simp [hrest c rfl]

/-- Nothing is left behind digits. -/
theorem spanDigits_self {ds : List Char} (hds : ∀ c ∈ ds, c.isDigit = true) :
    spanDigits ds = (ds, []) := by
  have hspan : spanDigits (ds ++ []) = (ds, []) := spanDigits_append hds nofun
  rwa [List.append_nil] at hspan

/-- Digits are read as a whole number. -/
theorem decimal?_digits {ds : List Char} (hds : ∀ c ∈ ds, c.isDigit = true) (hne : ds ≠ []) :
    decimal? ds = some ⟨ofDigits ds, 0⟩ := by
  simp only [decimal?, spanDigits_self hds, hne, false_and, if_false, exponent?]
  simp

/-- Digits with a point among them are read as a fraction. -/
theorem decimal?_point {ds places : List Char} (hds : ∀ c ∈ ds, c.isDigit = true) (hne : ds ≠ [])
    (hplaces : ∀ c ∈ places, c.isDigit = true) :
    decimal? (ds ++ '.' :: places) = some ⟨ofDigits (ds ++ places), -places.length⟩ := by
  have hspan : spanDigits (ds ++ '.' :: places) = (ds, '.' :: places) := by
    refine spanDigits_append hds ?_
    rintro c ⟨⟩
    rfl
  simp only [decimal?, hspan, spanDigits_self hplaces, hne, false_and, if_false, exponent?]
  simp

end Number

namespace Decimal

/-- A decimal with zeros for its exponent denotes the same quantity. -/
theorem bits_zeros {d : Decimal} (hexponent : 0 ≤ d.exponent) (h : d.bits < infinityBits) :
    bits ⟨d.digits * 10 ^ d.exponent.toNat, 0⟩ = d.bits := by
  rcases d with ⟨digits, exponent⟩
  simp only [bits, Nat.pow_eq] at h hexponent ⊢
  by_cases hzero : digits = 0
  · rw [hzero, Nat.zero_mul, if_pos rfl, if_pos rfl]
  · rw [if_neg hzero] at h
    have hle : ¬ 400 < exponent := by
      intro hlarge
      rw [if_pos hlarge] at h
      exact Nat.lt_irrefl _ h
    rw [if_neg (by positivity), if_neg (by decide), if_pos (by decide), if_neg hzero, if_neg hle,
      if_pos hexponent, Int.toNat_zero, Nat.pow_zero, Nat.mul_one]

end Decimal

namespace Number

/-- The layout without an exponent denotes the same quantity. -/
theorem decimal?_positional {d : Decimal} (h : d.bits < infinityBits) :
    ∃ read, decimal? (positional d []) = some read ∧ read.bits = d.bits := by
  have hdigits (c : Char) (hc : c ∈ digits d.digits) := isDigit_of_mem_digits hc
  simp only [positional]
  split
  · rename_i hexponent
    have hzeros : ∀ c ∈ digits d.digits ++ List.replicate d.exponent.toNat '0',
        c.isDigit = true := by
      intro c hc
      rcases List.mem_append.1 hc with hc | hc
      · exact hdigits c hc
      · rw [List.eq_of_mem_replicate hc]
        rfl
    refine ⟨_, ?_, Decimal.bits_zeros hexponent h⟩
    rw [List.append_nil, decimal?_digits hzeros (by simp [digits_ne_nil]), ofDigits_append_zeros,
      ofDigits_digits]
  rename_i hexponent
  -- With a point, the decimal that is read has the same digits and the same exponent.
  refine ⟨d, ?_, rfl⟩
  have hread {n : Nat} (hn : n = d.exponent.natAbs) :
      some (⟨d.digits, -(n : Int)⟩ : Decimal) = some d := by
    rw [hn, show -(d.exponent.natAbs : Int) = d.exponent by omega]
  split
  · rename_i hlt
    rw [decimal?_point (fun c hc => hdigits c (List.mem_of_mem_take hc)) ?_
      fun c hc => hdigits c (List.mem_of_mem_drop hc), List.take_append_drop, ofDigits_digits]
    · refine hread ?_
      rw [List.length_drop]
      omega
    · rw [Ne, List.take_eq_nil_iff, not_or]
      exact ⟨by omega, digits_ne_nil _⟩
  · rename_i hle
    have hpadded : ∀ c ∈ List.replicate (d.exponent.natAbs - (digits d.digits).length) '0' ++
        digits d.digits, c.isDigit = true := by
      intro c hc
      rcases List.mem_append.1 hc with hc | hc
      · rw [List.eq_of_mem_replicate hc]
        rfl
      · exact hdigits c hc
    have hzero : ∀ c ∈ List.replicate 1 '0', c.isDigit = true :=
      fun c hc => List.eq_of_mem_replicate hc ▸ rfl
    refine (decimal?_point hzero (List.cons_ne_nil _ _) hpadded).trans ?_
    rw [ofDigits_zeros_append _ 1, ofDigits_zeros_append, ofDigits_digits]
    refine hread ?_
    rw [List.length_append, List.length_replicate]
    omega

/-! ## Texts of numbers -/

/-- The value of a number fixes the number. -/
theorem ofValue_value (x : Float) : ofValue (value x) = x := by
  rw [value]
  split
  · rename_i hfinite
    rw [ofValue, nearest, nearestBits_unitsOfBits hfinite]
    exact (eq_ofBits hfinite.le).symm
  split
  · rename_i hinfinite
    have heq := eq_ofBits hinfinite.le
    rw [hinfinite] at heq
    exact heq.symm
  · rename_i hfinite hinfinite
    exact eq_of_nan (by decide +kernel) (by omega)

/-- The units of a finite number round to finite bits. -/
theorem exists_units {x : Float} {negative : Bool} {units : Nat}
    (h : value x = .finite negative units) : nearestBits units 1 < infinityBits := by
  rw [value] at h
  split at h
  · rename_i hfinite
    cases h
    rwa [nearestBits_unitsOfBits hfinite]
  · split at h <;> cases h

/-- A sign that was put in front is split off again. -/
theorem spanSign_signed (negative : Bool) {c : Char} (cs : List Char) (hminus : c ≠ '-')
    (hplus : c ≠ '+') : spanSign (signed negative (c :: cs)) = (negative, c :: cs) := by
  cases negative with
  | true => rfl
  | false =>
      rw [signed, if_neg Bool.false_ne_true, spanSign]
      · exact fun _ h => hminus (List.cons.inj h).1
      · exact fun _ h => hplus (List.cons.inj h).1

theorem toNat_of_isDigit {c : Char} (h : c.isDigit = true) : 48 ≤ c.toNat ∧ c.toNat ≤ 57 := by
  simpa [Char.isDigit, UInt32.le_iff_toNat_le] using h

theorem toLower_of_isDigit {c : Char} (h : c.isDigit = true) : c.toLower = c := by
  have hbounds := toNat_of_isDigit h
  rw [Char.toLower, dif_neg]
  rintro ⟨hlow, -⟩
  have hupper : 65 ≤ c.toNat := UInt32.le_iff_toNat_le.1 hlow
  omega

/-- The layout without an exponent starts with digits and goes on with digits and a point. -/
theorem positional_append (d : Decimal) : ∃ front back, positional d [] = front ++ back ∧
    front ≠ [] ∧ (∀ c ∈ front, c.isDigit = true) ∧ ∀ c ∈ back, c.isDigit = true ∨ c = '.' := by
  have hdigits (c : Char) (hc : c ∈ digits d.digits) := isDigit_of_mem_digits hc
  have hzeros (k : Nat) : ∀ c ∈ List.replicate k '0', c.isDigit = true :=
    fun c hc => List.eq_of_mem_replicate hc ▸ rfl
  -- Whole numbers, numbers with digits before the point, and numbers with zeros behind it.
  simp only [positional]
  split
  · refine ⟨digits d.digits, List.replicate d.exponent.toNat '0', ?_, digits_ne_nil _, hdigits,
      fun c hc => .inl (hzeros _ c hc)⟩
    rw [List.append_nil]
  split
  · rename_i hlt
    refine ⟨_, _, rfl, ?_, fun c hc => hdigits c (List.mem_of_mem_take hc), fun c hc => ?_⟩
    · rw [Ne, List.take_eq_nil_iff, not_or]
      exact ⟨by omega, digits_ne_nil _⟩
    · rcases List.mem_cons.1 hc with rfl | hc
      · exact .inr rfl
      · exact .inl (hdigits c (List.mem_of_mem_drop hc))
  · refine ⟨['0'], _, rfl, List.cons_ne_nil _ _, hzeros 1, fun c hc => ?_⟩
    rcases List.mem_cons.1 hc with rfl | hc
    · exact .inr rfl
    · rcases List.mem_append.1 hc with hc | hc
      · exact .inl (hzeros _ c hc)
      · exact .inl (hdigits c hc)

/-- A numeral that starts with a digit is none of the words. -/
theorem parse?_signed (negative : Bool) {cs : List Char}
    (hhead : ∃ c rest, cs = c :: rest ∧ c.isDigit = true) :
    parse? (signed negative cs) = (decimal? cs).map (ofDecimal negative) := by
  rcases hhead with ⟨c, rest, rfl, hdigit⟩
  have hbounds := toNat_of_isDigit hdigit
  have hne (other : Char) (h : 57 < other.toNat ∨ other.toNat < 48) : c ≠ other := by
    rintro rfl
    omega
  simp only [parse?, spanSign_signed negative rest (hne '-' (.inr (by decide)))
    (hne '+' (.inr (by decide))), List.map_cons, toLower_of_isDigit hdigit, List.cons.injEq,
    hne 'i' (.inl (by decide)), hne 'n' (.inl (by decide)), false_and, or_self, if_false]

/-- The plain text of a number is read as that number. -/
theorem parse?_plain (x : Float) : parse? (plain x) = some x := by
  have hvalue := ofValue_value x
  rw [plain]
  split
  · rename_i hnan
    rw [← hvalue, hnan]
    rfl
  · rename_i negative hinfinite
    rw [← hvalue, hinfinite, parse?, spanSign_signed negative _ (by decide) (by decide)]
    rfl
  · rename_i negative units hfinite
    have hbits := Decimal.bits_ofUnits .up units
    rcases decimal?_positional (hbits ▸ exists_units hfinite) with ⟨read, hread, hreadBits⟩
    rcases positional_append (Decimal.ofUnits .up units) with ⟨front, back, hcs, hne, hfront, -⟩
    rcases List.exists_cons_of_ne_nil hne with ⟨c, rest, rfl⟩
    rw [parse?_signed negative ⟨c, _, hcs, hfront c (List.mem_cons_self ..)⟩, hread,
      Option.map_some, ofDecimal, hreadBits, hbits]
    rw [hfinite] at hvalue
    exact congrArg some hvalue

/-- A sign is a visible character. -/
theorem signed_visible (negative : Bool) {cs : List Char} (hne : cs ≠ [])
    (hcs : ∀ c ∈ cs, 0x20 < c.toNat ∧ c.toNat ≤ 0x7f) :
    signed negative cs ≠ [] ∧ ∀ c ∈ signed negative cs, 0x20 < c.toNat ∧ c.toNat ≤ 0x7f := by
  cases negative with
  | false => exact ⟨hne, hcs⟩
  | true =>
      refine ⟨List.cons_ne_nil _ _, fun c hc => ?_⟩
      rcases List.mem_cons.1 hc with rfl | hc
      · decide
      · exact hcs c hc

/-- The plain text of a number has characters of one byte only, and none of them is blank. -/
theorem plain_visible (x : Float) :
    plain x ≠ [] ∧ ∀ c ∈ plain x, 0x20 < c.toNat ∧ c.toNat ≤ 0x7f := by
  rw [plain]
  split
  · simp
  · exact signed_visible _ (List.cons_ne_nil _ _) (by simp)
  · rename_i units _
    rcases positional_append (Decimal.ofUnits .up units) with ⟨front, back, hcs, hne, hfront, hback⟩
    rw [hcs]
    refine signed_visible _ (List.append_ne_nil_of_left_ne_nil hne _) fun c hc => ?_
    have hdigit (h : c.isDigit = true) : 0x20 < c.toNat ∧ c.toNat ≤ 0x7f := by
      have := toNat_of_isDigit h
      omega
    rcases List.mem_append.1 hc with hc | hc
    · exact hdigit (hfront c hc)
    · rcases hback c hc with h | rfl
      · exact hdigit h
      · decide

end Number
end CellMachine
