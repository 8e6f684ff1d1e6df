import CellMachine.Number.Text

/-!
# Cells — the values of a running program

A cell holds one value: a number, a text, a truth value, a table, a function of the program, a
function of the library, nil, or nothing that was ever assigned.  Tables are held by identity; what
a table contains is the business of the heap.

The module fixes what needs no heap: type names, truth values, equality of numbers and of cells, and
the texts of all cells but tables.
-/

namespace CellMachine

abbrev TableId := Nat

inductive Cell
  | number (x : Float)
  | text (s : String)
  | bool (b : Bool)
  | table (id : TableId)
  | userFunction (address : UInt32)
  | libraryFunction (name : String)
  | nil
  | undefined
  deriving DecidableEq, Inhabited

/-! ## Types -/

inductive CellType
  | number
  | text
  | bool
  | table
  | userFunction
  | libraryFunction
  | nil
  | undefined
  deriving DecidableEq, Repr

def CellType.name : CellType → String
  | number => "number"
  | text => "string"
  | bool => "boolean"
  | table => "table"
  | userFunction => "userfunction"
  | libraryFunction => "libraryfunction"
  | nil => "nil"
  | undefined => "undefined"

namespace Cell

def type : Cell → CellType
  | number _ => .number
  | text _ => .text
  | bool _ => .bool
  | table _ => .table
  | userFunction _ => .userFunction
  | libraryFunction _ => .libraryFunction
  | nil => .nil
  | undefined => .undefined

def number? : Cell → Option Float
  | number x => some x
  | _ => none

def table? : Cell → Option TableId
  | table id => some id
  | _ => none

end Cell

/-! ## Truth and equality -/

/-- Whether a number is zero, of either sign. -/
def Number.isZero (x : Float) : Bool :=
  x.toBits = 0 ∨ x.toBits = 0x8000000000000000

/-- Whether two numbers are the same quantity.  Zeros of both signs are; what is no number is the
same as nothing, itself included. -/
def Number.same (x y : Float) : Bool :=
  if x.toBits = y.toBits then value x ≠ .nan else isZero x && isZero y

/-- The truth value of a cell: numbers other than zero, texts that are not empty, tables and
functions are true; nil and the undefined cell are false. -/
def Cell.truth : Cell → Bool
  | number x => !Number.isZero x
  | text s => s ≠ ""
  | bool b => b
  | table _ | userFunction _ | libraryFunction _ => true
  | nil | undefined => false

inductive Incomparable
  | undefined
  | types (left right : CellType)
  deriving DecidableEq, Repr

/-- Compares two cells.  An undefined cell cannot be compared; beside a truth value every cell
counts as its own truth value; nil equals nil only; all other cells must be of one type. -/
def Cell.equal (a b : Cell) : Except Incomparable Bool :=
  match a, b with
  | undefined, _ | _, undefined => .error .undefined
  | bool p, c | c, bool p => .ok (p = c.truth)
  | nil, nil => .ok true
  | nil, _ | _, nil => .ok false
  | number x, number y => .ok (Number.same x y)
  | text s, text t => .ok (s = t)
  | table i, table j => .ok (i = j)
  | userFunction p, userFunction q => .ok (p = q)
  | libraryFunction m, libraryFunction n => .ok (m = n)
  | a, b => .error (.types a.type b.type)

/-! ## Texts -/

def Number.text (x : Float) : String :=
  String.ofList (shown x)

/-- The text of a cell that holds no table. -/
def Cell.flatText : Cell → String
  | number x => Number.text x
  | text s => s
  | bool true => "true"
  | bool false => "false"
  | table _ => "table"
  | userFunction address => "user function: " ++ toString address.toNat
  | libraryFunction name => "library function: " ++ name
  | nil => "nil"
  | undefined => "undefined"

end CellMachine
