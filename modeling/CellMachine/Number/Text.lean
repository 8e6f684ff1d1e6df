import CellMachine.Number.Decimal

/-!
# Number text — how numbers are written

The digits of a number are those of `Decimal.ofUnits`.  What remains is layout, and the three
layouts of the project are three small decisions:

* `Number.plain` never uses an exponent and writes whole numbers without a point;
* `Number.shown` is the text of a number in a cell: as `plain`, but a zero has no sign;
* `Number.scientific?` turns to an exponent outside of a middle range and marks whole numbers by a
  point and a zero.
-/

namespace CellMachine
namespace Number

/-! ## Layout of digits -/

def digits (n : Nat) : List Char :=
  Nat.toDigits 10 n

/-- Writes a decimal without an exponent; `whole` follows a number that has no places. -/
def positional (d : Decimal) (whole : List Char) : List Char :=
  let ds := digits d.digits
  if 0 ≤ d.exponent then ds ++ List.replicate d.exponent.toNat '0' ++ whole
  else
    let places := d.exponent.natAbs
    if places < ds.length then
      ds.take (ds.length - places) ++ '.' :: ds.drop (ds.length - places)
    else '0' :: '.' :: (List.replicate (places - ds.length) '0' ++ ds)

/-- Writes a decimal with one digit before the point and a signed exponent of ten. -/
def exponential (d : Decimal) : List Char :=
  let ds := digits d.digits
  let power := d.exponent + ds.length - 1
  let places := match ds.drop 1 with
    | [] => []
    | rest => '.' :: rest
  ds.take 1 ++ places ++ 'e' :: (if power < 0 then '-' else '+') :: digits power.natAbs

def signed (negative : Bool) (cs : List Char) : List Char :=
  if negative then '-' :: cs else cs

/-! ## Texts of numbers -/

/-- The plain text of a number: the fewest digits that read back, a tie going up, never with an
exponent. -/
def plain (x : Float) : List Char :=
  match value x with
  | .nan => ['N', 'a', 'N']
  | .infinite negative => signed negative ['i', 'n', 'f']
  | .finite negative units => signed negative (positional (Decimal.ofUnits .up units) [])

/-- The text of a number in a cell.  Whole numbers below `10 ^ 15` are written as integers, so a
negative zero shows no sign; all others have their plain text. -/
def shown (x : Float) : List Char :=
  match toInt? x with
  | some n =>
      if n.natAbs < 1000000000000000 then signed (decide (n < 0)) (digits n.natAbs) else plain x
  | none => plain x

/-- The scientific text of a finite number: positional from `1e-5` up to below `1e16`, exponential
beyond, a tie going to the even digit.  Infinities and what is no number have none. -/
def scientific? (x : Float) : Option (List Char) :=
  match value x with
  | .finite negative units =>
      let d := Decimal.ofUnits .even units
      let power := d.exponent + (digits d.digits).length - 1
      some (signed negative
        (if -5 ≤ power ∧ power < 16 then positional d ['.', '0'] else exponential d))
  | _ => none

end Number
end CellMachine
