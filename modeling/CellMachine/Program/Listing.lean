import CellMachine.Program.Basic
import CellMachine.Text.Json
import CellMachine.Text.Quoted

/-!
# Showing programs

A program is shown in two forms: as a listing for people, with one line for each constant and each
instruction, and as a JSON value.
-/

namespace CellMachine
namespace Program

/-! ## Listing -/

def padded (width : Nat) (s : String) : String :=
  s ++ String.ofList (List.replicate (width - s.length) ' ')

def row (index opcode result first second line : String) : String :=
  "  " ++ padded 6 index ++ " " ++ padded 14 opcode ++ " " ++ padded 20 result ++ " " ++
    padded 20 first ++ " " ++ padded 20 second ++ " " ++ line ++ "\n"

/-- A heading and a line for each item with its index. -/
def block {α : Type} (heading : String) (items : Array α) (text : α → String) : String :=
  heading ++ ":\n" ++ String.join (items.toList.zipIdx.map fun (item, index) =>
    "  " ++ toString index ++ ": " ++ text item ++ "\n")

def functionText (function : UserFunction) : String :=
  function.name ++ " at " ++ toString function.address.toNat ++ ", " ++
    toString function.localSize.toNat ++ " local(s)"

def instructionRow (instruction : Instruction) (index : Nat) : String :=
  row (toString index) instruction.opcode.name instruction.result.text instruction.first.text
    instruction.second.text (toString instruction.line.toNat)

def listing (program : Program) : String :=
  block "strings" program.strings Quoted.quote ++
    block "numbers" program.numbers (fun x => String.ofList (Number.plain x)) ++
    block "user functions" program.userFunctions functionText ++
    block "library functions" program.libraryFunctions id ++
    "code:\n" ++ row "instr" "opcode" "result" "arg1" "arg2" "line" ++
    String.join (program.code.toList.zipIdx.map fun (instruction, index) =>
      instructionRow instruction index) ++
    "globals: " ++ toString program.globals

/-! ## JSON -/

def operandJson (operand : Operand) : Json :=
  .object [("kind", .string operand.kind.name), ("value", .ofNat operand.value.toNat)]

def instructionJson (instruction : Instruction) : Json :=
  .object [("opcode", .string instruction.opcode.name),
    ("result", operandJson instruction.result), ("arg1", operandJson instruction.first),
    ("arg2", operandJson instruction.second), ("line", .ofNat instruction.line.toNat)]

def functionJson (function : UserFunction) : Json :=
  .object [("address", .ofNat function.address.toNat),
    ("local_size", .ofNat function.localSize.toNat), ("name", .string function.name)]

/-- The JSON value of a number; infinities and what is no number have none and become null. -/
def numberJson (x : Float) : Json :=
  match Number.scientific? x with
  | some text => .number text
  | none => .null

/-- The JSON value of a program.  Opcodes and operand kinds have the names of the listing. -/
def toJson (program : Program) : Json :=
  .object [("strings", .array (program.strings.toList.map .string)),
    ("numbers", .array (program.numbers.toList.map numberJson)),
    ("user_funcs", .array (program.userFunctions.toList.map functionJson)),
    ("lib_funcs", .array (program.libraryFunctions.toList.map .string)),
    ("code", .array (program.code.toList.map instructionJson)),
    ("total_globals", .ofNat program.globals)]

end Program
end CellMachine
