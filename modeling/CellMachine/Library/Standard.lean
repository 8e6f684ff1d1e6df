import CellMachine.Heap.Text
import CellMachine.Library.Basic
import CellMachine.Text.Blank

/-!
# The standard library

Twelve functions: console, reflection, numbers, tables.  A function that misses an argument or gets
one of the wrong type raises a fault; one that has no answer leaves nil.
-/

namespace CellMachine
namespace Library
namespace Standard

/-! ## Arguments -/

def argumentOf (function : String) (index : Nat) : Exec Cell := do
  match ← Exec.actual index with
  | some cell => return cell
  | none => throw (.badArgument function (.tooFew (index + 1)))

def wrongType (function : String) (expected : CellType) (found : Cell) : Fault :=
  .badArgument function (.wrongType expected found.type)

def numberOf (function : String) : Exec Float := do
  let cell ← argumentOf function 0
  match cell.number? with
  | some x => return x
  | none => throw (wrongType function .number cell)

def tableOf (function : String) : Exec TableId := do
  let cell ← argumentOf function 0
  match cell.table? with
  | some id => return id
  | none => throw (wrongType function .table cell)

/-! ## Console -/

def print : Exec Unit := do
  let texts ← (List.range (← Exec.actuals)).mapM fun index => do
    let cell ← argumentOf "print" index
    return (← get).heap.text cell
  Exec.write (String.join texts)

def isLineEnd (c : Char) : Bool :=
  c = '\n' ∨ c = '\r'

/-- What a line says: a number if it reads as one between blanks, else the text itself. -/
def lineCell (line : List Char) : Cell :=
  match Number.parse? (Blank.trim line) with
  | some x => .number x
  | none => .text (String.ofList line)

/-- Reads a line, after what was written so far is out.  At the end of the input there is no
answer. -/
def input : Exec Unit := do
  Exec.flush
  let bytes ← Exec.takeLine
  if bytes ≠ [] then
    match Utf8.decode? bytes with
    | some line => Exec.setResult (lineCell (Blank.dropEnd isLineEnd line))
    | none => throw (.stream "stream did not contain valid UTF-8")

/-! ## Reflection -/

def typeName : Exec Unit := do
  let cell ← argumentOf "typeof" 0
  Exec.setResult (.text cell.type.name)

def totalArguments : Exec Unit := do
  match ← Exec.callerFrame with
  | some frame =>
      let count ← Exec.decide fun state => state.stack.actualsAt frame
      Exec.setResult (.number (Number.ofNat count))
  | none => Exec.report (.outsideFunction "totalarguments")

/-- The index that a number is, if it is whole and not negative. -/
def index? (x : Float) : Option Nat :=
  match Number.toInt? x with
  | some (.ofNat n) => some n
  | _ => none

/-- Answers an argument that the calling function was given; nil if there is none of that index. -/
def argument : Exec Unit := do
  let x ← numberOf "argument"
  match index? x with
  | none => throw (.badArgument "argument" (.badIndex x))
  | some index =>
      match ← Exec.callerFrame with
      | some frame =>
          -- No count of arguments exceeds the largest word.
          let cell ← Exec.decide fun state =>
            state.stack.actualAt frame (min index Number.maxWord)
          Exec.setResult (cell.getD .nil)
      | none => Exec.report (.outsideFunction "argument")

/-! ## Numbers -/

def textToNumber : Exec Unit := do
  match ← argumentOf "strtonum" 0 with
  | .text s =>
      match Number.parse? (Blank.trim s.toList) with
      | some x => Exec.setResult (.number x)
      | none => Exec.setResult .nil
  | cell => throw (wrongType "strtonum" .text cell)

def sqrt : Exec Unit := do
  let x ← numberOf "sqrt"
  if 0 ≤ x then Exec.setResult (.number x.sqrt)

/-- The radians of one degree: the number nearest to `π / 180`. -/
def radian : Float := Number.ofBits false 0x3f91df46a2529d39

def cos : Exec Unit := do
  let x ← numberOf "cos"
  Exec.setResult (.number (x * radian).cos)

def sin : Exec Unit := do
  let x ← numberOf "sin"
  Exec.setResult (.number (x * radian).sin)

/-! ## Tables -/

def totalMembers : Exec Unit := do
  let id ← tableOf "objecttotalmembers"
  Exec.setResult (.number (Number.ofNat ((← get).heap.size id)))

/-- The entries of a table that lists cells from index zero on. -/
def listed (cells : List Cell) : List Entry :=
  cells.zipIdx.map fun (cell, index) => (.number (Number.ofNat index), cell)

/-- Answers a new table that lists the keys of a table. -/
def memberKeys : Exec Unit := do
  let id ← tableOf "objectmemberkeys"
  let keys := ((← get).heap.entries id).map fun entry => entry.1.toCell
  Exec.setResultTable (listed keys)

/-- Answers a new table with the entries of a table; nested tables are shared. -/
def copy : Exec Unit := do
  let id ← tableOf "objectcopy"
  Exec.setResultTable ((← get).heap.entries id)

end Standard

def standard : Library where
  functions :=
    [("print", Standard.print),
      ("input", Standard.input),
      ("typeof", Standard.typeName),
      ("totalarguments", Standard.totalArguments),
      ("argument", Standard.argument),
      ("strtonum", Standard.textToNumber),
      ("sqrt", Standard.sqrt),
      ("cos", Standard.cos),
      ("sin", Standard.sin),
      ("objecttotalmembers", Standard.totalMembers),
      ("objectmemberkeys", Standard.memberKeys),
      ("objectcopy", Standard.copy)]

end Library
end CellMachine
