import CellMachine.Number.Basic

/-!
# Decimal — numerals and the numbers they denote

A decimal is `digits * 10 ^ exponent`.  This module goes both ways between decimals and numbers:

* `Decimal.bits` rounds a decimal to the nearest number;
* `Decimal.ofUnits` finds the decimal that is written for a number: the fewest digits that read
  back, and of several such decimals the one nearest to the number;
* `Number.parse?` reads a numeral: a sign, the words for infinity and for no number in any case of
  letters, or digits with an optional point and exponent.

`Decimal.ofUnits` tests each candidate by reading it back and ends with the exact expansion, which
reads back as well.
-/

namespace CellMachine

/-- The quantity `digits * 10 ^ exponent`. -/
structure Decimal where
  digits : Nat
  exponent : Int
  deriving DecidableEq, Repr

namespace Decimal

open Number

/-! ## From decimals to numbers -/

/-- The magnitude bits of the number nearest to a decimal.  Decimals that are far beyond the largest
number or far below the least one are recognised by their size alone, so that no huge power is
computed. -/
def bits (d : Decimal) : Nat :=
  if d.digits = 0 then 0
  -- The largest number is below `10 ^ 309`.
  else if 400 < d.exponent then infinityBits
  else if 0 ≤ d.exponent then nearestBits (d.digits * Nat.pow 10 d.exponent.toNat * one) 1
  -- As `2 ^ 3` is below `10`, such a decimal is below `2 ^ -1100`.
  else if Nat.log2 d.digits + 1101 < 3 * d.exponent.natAbs then 0
  else nearestBits (d.digits * one) (Nat.pow 10 d.exponent.natAbs)

/-! ## From numbers to decimals -/

/-- Which of two equally near decimals of least length is written. -/
inductive Tie
  | up
  | even
  deriving DecidableEq, Repr

/-- The decimal on the grid of `10 ^ exponent` that reads back as the number with the given units
and bits, if one of the two neighbours on that grid does; of two, the nearer. -/
def onGrid? (tie : Tie) (units target : Nat) (exponent : Int) : Option Decimal :=
  let (a, d) :=
    if 0 ≤ exponent then (units, Nat.pow 10 exponent.toNat * one)
    else (units * Nat.pow 10 exponent.natAbs, one)
  let lower : Decimal := ⟨a / d, exponent⟩
  let upper : Decimal := ⟨a / d + 1, exponent⟩
  let rest := 2 * (a % d)
  let preferUpper := d < rest ∨ d = rest ∧ (tie = .up ∨ (a / d) % 2 = 1)
  match decide (lower.bits = target), decide (upper.bits = target) with
  | true, true => some (if preferUpper then upper else lower)
  | true, false => some lower
  | false, true => some upper
  | false, false => none

/-- An exponent whose power of ten is at least the given count of units. -/
def topExponent (units : Nat) : Int :=
  -- The decimal logarithm of two is about `0.30103`.
  (Int.ofNat (Nat.log2 units) - 1073) * 30103 / 100000 + 1

def exact (units : Nat) : Decimal :=
  ⟨units * Nat.pow 5 1074, -1074⟩

/-- The decimal that is written for a number with the given units: on the coarsest grid that has a
decimal reading back, seventeen significant digits being enough. -/
def ofUnits (tie : Tie) (units : Nat) : Decimal :=
  if units = 0 then ⟨0, 0⟩
  else
    let target := nearestBits units 1
    let top := topExponent units
    let found := (List.range 20).findSome? fun (i : Nat) => onGrid? tie units target (top - i)
    found.getD (exact units)

end Decimal

namespace Number

/-! ## Reading numerals -/

def ofDecimal (negative : Bool) (d : Decimal) : Float :=
  ofBits negative d.bits

def spanDigits (cs : List Char) : List Char × List Char :=
  (cs.takeWhile Char.isDigit, cs.dropWhile Char.isDigit)

/-- Splits off a leading sign; `true` stands for minus. -/
def spanSign : List Char → Bool × List Char
  | '-' :: rest => (true, rest)
  | '+' :: rest => (false, rest)
  | cs => (false, cs)

def ofDigits (cs : List Char) : Nat :=
  Nat.ofDigitChars 10 cs 0

/-- Reads an exponent that has to reach to the end: nothing, or a letter `e`, a sign and digits. -/
def exponent? : List Char → Option Int
  | [] => some 0
  | c :: rest =>
      if c.toLower = 'e' then
        let (negative, body) := spanSign rest
        if body ≠ [] ∧ body.all Char.isDigit then
          some (if negative then -(Int.ofNat (ofDigits body)) else Int.ofNat (ofDigits body))
        else none
      else none

/-- Reads the digits of an unsigned numeral, with at least one digit before or after the point. -/
def decimal? (cs : List Char) : Option Decimal := do
  let (whole, rest) := spanDigits cs
  let (places, rest) := match rest with
    | '.' :: rest => spanDigits rest
    | rest => ([], rest)
  if whole = [] ∧ places = [] then none
  else
    let exponent ← exponent? rest
    some ⟨ofDigits (whole ++ places), exponent - places.length⟩

def parse? (cs : List Char) : Option Float :=
  let (negative, body) := spanSign cs
  let word := body.map Char.toLower
  if word = ['i', 'n', 'f'] ∨ word = ['i', 'n', 'f', 'i', 'n', 'i', 't', 'y'] then
    some (ofValue (.infinite negative))
  else if word = ['n', 'a', 'n'] then some (ofValue .nan)
  else (decimal? body).map (ofDecimal negative)

end Number
end CellMachine
