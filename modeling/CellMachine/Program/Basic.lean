import CellMachine.Fault

/-!
# Programs — constants and code

A program holds its constants in four groups, its code, and the count of its global variables.  It
does not change while it runs.  Instructions refer to constants by index; an index outside of its
group is a fault of the instruction that uses it.
-/

namespace CellMachine

/-- A function of the program: where its code starts, how many local slots it needs, and its
name. -/
structure UserFunction where
  address : UInt32
  localSize : UInt32
  name : String
  deriving DecidableEq, Repr

structure Program where
  strings : Array String := #[]
  numbers : Array Float := #[]
  userFunctions : Array UserFunction := #[]
  libraryFunctions : Array String := #[]
  code : Array Instruction := #[]
  globals : Nat := 0
  deriving DecidableEq

namespace Program

/-! ## Constants -/

/-- The constant of an index, or the fault that there is none. -/
def constant {α : Type} (group : ConstantGroup) (constants : Array α) (index : UInt32) :
    Except Fault α :=
  match constants[index.toNat]? with
  | some x => .ok x
  | none => .error (.missingConstant group index)

def number (program : Program) (index : UInt32) : Except Fault Float :=
  constant .number program.numbers index

def string (program : Program) (index : UInt32) : Except Fault String :=
  constant .string program.strings index

def userFunction (program : Program) (index : UInt32) : Except Fault UserFunction :=
  constant .userFunction program.userFunctions index

def libraryFunction (program : Program) (index : UInt32) : Except Fault String :=
  constant .libraryFunction program.libraryFunctions index

end Program
end CellMachine
