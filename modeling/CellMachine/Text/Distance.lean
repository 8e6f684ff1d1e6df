/-!
# Distance — how far two texts are apart

The distance of two texts is the count of characters to insert, delete or replace to get from one to
the other.  It is computed row by row: a row holds the distances of one beginning of the first text
to all beginnings of the second one, and each row is computed from the row before.

`closest?` picks a name to suggest in place of one that is not known: the nearest candidate, and of
several the first one in the order of texts.
-/

namespace CellMachine
namespace Distance

/-! ## Rows -/

/-- The distances of the empty text to all beginnings of a text, the shortest one first. -/
def firstRow (b : List Char) : List Nat :=
  List.range (b.length + 1)

/-- What follows on an entry of a row, for the characters that are left of the second text.  The row
before is given from the entry above that one on. -/
def fillRow (c : Char) (left : Nat) : List Char → List Nat → List Nat
  | d :: ds, corner :: above :: row =>
      let cost := if c = d then 0 else 1
      let here := min (min (above + 1) (left + 1)) (corner + cost)
      here :: fillRow c here ds (above :: row)
  | _, _ => []

/-- The row of a beginning of the first text, from the row before; the beginning ends with the given
character, which has the given number. -/
def nextRow (b : List Char) (row : List Nat) (c : Char) (i : Nat) : List Nat :=
  i :: fillRow c i b row

/-- The distances of a text to all beginnings of another one. -/
def lastRow (a b : List Char) : List Nat :=
  (a.zipIdx 1).foldl (fun row entry => nextRow b row entry.1 entry.2) (firstRow b)

def distance (a b : String) : Nat :=
  (lastRow a.toList b.toList).getD b.length 0

/-! ## Suggestions -/

def reach : Nat := 3

abbrev Candidate := Nat × String

def precedes (p q : Candidate) : Bool :=
  p.1 < q.1 ∨ p.1 = q.1 ∧ p.2 < q.2

def better (best : Option Candidate) (candidate : Candidate) : Option Candidate :=
  match best with
  | none => some candidate
  | some best => if precedes candidate best then some candidate else some best

/-- The candidate that is closest to a name, if one is in reach. -/
def closest? (name : String) (candidates : List String) : Option String :=
  let measured := candidates.map fun candidate => (distance name candidate, candidate)
  ((measured.filter fun candidate => candidate.1 ≤ reach).foldl better none).map Prod.snd

end Distance
end CellMachine
