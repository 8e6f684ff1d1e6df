import CellMachine.Program.Basic

/-!
# Writing program files

A program file is a text: the magic number, then the sections for strings, numbers, functions of the
program, names of library functions and instructions, each after its count, and the count of globals
at the end.  A text of any content is written as its length in bytes, one space, and the text
itself.  Source lines are not written.
-/

namespace CellMachine
namespace Program

/-! ## Pieces -/

/-- A natural number and the character that ends it. -/
def writeNat (n : Nat) (stop : Char) : List Char :=
  Number.digits n ++ [stop]

/-- A text with its length in bytes in front, and a line end. -/
def writeText (s : String) : List Char :=
  writeNat s.utf8ByteSize ' ' ++ s.toList ++ ['\n']

def writeFunction (function : UserFunction) : List Char :=
  writeNat function.address.toNat ' ' ++ writeNat function.localSize.toNat ' ' ++
    writeText function.name

def writeOperand (operand : Operand) : List Char :=
  ' ' :: writeNat operand.kind.code ' ' ++ Number.digits operand.value.toNat

def writeInstruction (instruction : Instruction) : List Char :=
  Number.digits instruction.opcode.code ++ writeOperand instruction.result ++
    writeOperand instruction.first ++ writeOperand instruction.second ++ ['\n']

/-! ## The file -/

def write (program : Program) : List Char :=
  writeNat magicNumber '\n' ++
    (writeNat program.strings.size '\n' ++ program.strings.toList.flatMap writeText) ++
    (Number.digits program.numbers.size ++
      program.numbers.toList.flatMap (fun x => ' ' :: Number.plain x) ++ ['\n']) ++
    (writeNat program.userFunctions.size '\n' ++
      program.userFunctions.toList.flatMap writeFunction) ++
    (writeNat program.libraryFunctions.size '\n' ++
      program.libraryFunctions.toList.flatMap writeText) ++
    (writeNat program.code.size '\n' ++ program.code.toList.flatMap writeInstruction) ++
    writeNat program.globals '\n'

def encode (program : Program) : String :=
  String.ofList program.write

end Program
end CellMachine
