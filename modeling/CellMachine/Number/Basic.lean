/-!
# Number — what the bits of a number say

A machine number is a core `Float`: sums, products, quotients, roots and comparisons are the ones
of the core type.  What a program can observe of a number beyond that — whether it is whole, which
remainder it leaves, which text denotes it — is stated here on its bits, in exact arithmetic.

A finite number is a whole count of *units*, one unit being `2 ^ -1074`, the least positive number.
So the module needs natural numbers only:

* `Number.value` reads the bits: no number, an infinity, or a sign and a count of units;
* `Number.nearest` is the number nearest to a ratio of units, a tie going to the even significand;
* `Number.truncate`, `Number.remainder` and `Number.toWord?` are exact on top of the two.
-/

namespace CellMachine
namespace Number

/-! ## Units -/

/-- The count of units in one. -/
def one : Nat := 1 <<< 1074

/-- The leading bit of a significand, which the fraction does not hold. -/
def hiddenBit : Nat := 0x10000000000000

def signBit : Nat := 0x8000000000000000

/-- The bits of positive infinity; every finite magnitude has smaller bits. -/
def infinityBits : Nat := 2047 * hiddenBit

/-- What a number is: no number at all, an infinity, or a signed count of units.  The sign of a zero
is kept. -/
inductive Value
  | nan
  | infinite (negative : Bool)
  | finite (negative : Bool) (units : Nat)
  deriving DecidableEq, Repr

/-- The units denoted by the magnitude bits of a finite number.  The lowest exponent field has no
hidden bit. -/
def unitsOfBits (bits : Nat) : Nat :=
  let field := bits / hiddenBit
  let fraction := bits % hiddenBit
  if field = 0 then fraction else (hiddenBit + fraction) <<< (field - 1)

def value (x : Float) : Value :=
  let bits := x.toBits.toNat
  let negative := decide (signBit ≤ bits)
  let magnitude := bits % signBit
  if magnitude < infinityBits then .finite negative (unitsOfBits magnitude)
  else if magnitude = infinityBits then .infinite negative
  else .nan

/-! ## Rounding -/

/-- The whole number nearest to `a / d`, a half going to the even neighbour. -/
def divEven (a d : Nat) : Nat :=
  let quotient := a / d
  let rest := a % d
  if 2 * rest < d then quotient
  else if d < 2 * rest then quotient + 1
  else quotient + quotient % 2

/-- The magnitude bits of the number nearest to `a / d` units.  The significand keeps fifty-three
binary places, or all places down to the unit; a significand that is rounded up to the next power of
two carries into the exponent, and what is too large is infinite. -/
def nearestBits (a d : Nat) : Nat :=
  let scale := Nat.log2 (a / d) - 52
  -- A significand of fifty-three places carries its hidden bit into the exponent field.
  min (scale * hiddenBit + divEven a (d <<< scale)) infinityBits

def ofBits (negative : Bool) (magnitude : Nat) : Float :=
  Float.ofBits (UInt64.ofNat ((if negative then signBit else 0) + magnitude))

def nearest (negative : Bool) (a d : Nat) : Float :=
  ofBits negative (nearestBits a d)

def ofValue : Value → Float
  | .nan => ofBits false (infinityBits + hiddenBit / 2)
  | .infinite negative => ofBits negative infinityBits
  | .finite negative units => nearest negative units 1

/-- The number nearest to a natural number; up to `2 ^ 53` it is that number. -/
def ofNat (n : Nat) : Float :=
  nearest false (n * one) 1

/-! ## Whole numbers -/

/-- The number without its fraction; the sign is kept, also of a zero. -/
def truncate (x : Float) : Float :=
  match value x with
  | .finite negative units => ofValue (.finite negative (units / one * one))
  | _ => x

/-- The remainder of the truncated operands, with the sign of the dividend.  It is exact; a divisor
that truncates to zero, and a dividend that is infinite, leave no number. -/
def remainder (x y : Float) : Float :=
  match value x, value y with
  | .finite negative a, .finite _ b =>
      let divisor := b / one * one
      if divisor = 0 then ofValue .nan
      else ofValue (.finite negative (a / one * one % divisor))
  | .finite _ _, .infinite _ => truncate x
  | _, _ => ofValue .nan

def toInt? (x : Float) : Option Int :=
  match value x with
  | .finite negative units =>
      if units % one = 0 then
        let n := Int.ofNat (units / one)
        some (if negative then -n else n)
      else none
  | _ => none

def maxWord : Nat := UInt64.size - 1

/-- The machine word that a number stands for: numbers that are whole and not negative stand for
themselves, and all beyond the largest word, infinity too, for the largest word. -/
def toWord? (x : Float) : Option Nat :=
  match value x with
  | .infinite false => some maxWord
  | .finite negative units =>
      if units % one = 0 ∧ (negative = false ∨ units = 0) then some (min (units / one) maxWord)
      else none
  | _ => none

end Number
end CellMachine
