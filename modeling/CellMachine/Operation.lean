import CellMachine.Instruction
import CellMachine.Number.Basic

/-!
# Operations — what arithmetic, relations and connectives compute

The families of `Instruction` as functions.  Quotients by zero follow the rules of machine numbers
and never fail; a remainder is the one of the truncated operands.
-/

namespace CellMachine

def Arithmetic.apply : Arithmetic → Float → Float → Float
  | add, x, y => x + y
  | sub, x, y => x - y
  | mul, x, y => x * y
  | div, x, y => x / y
  | mod, x, y => Number.remainder x y

/-- Whether a relation holds between two numbers; none holds of what is no number. -/
def Relation.holds : Relation → Float → Float → Bool
  | le, x, y => x ≤ y
  | ge, x, y => y ≤ x
  | lt, x, y => x < y
  | gt, x, y => y < x

def Connective.apply : Connective → Bool → Bool → Bool
  | and, p, q => p && q
  | or, p, q => p || q

end CellMachine
