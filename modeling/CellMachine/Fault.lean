import CellMachine.Table
import CellMachine.Instruction

/-!
# Faults — why a program cannot be run on

A fault is a cause; its message and its stable code are functions of the cause.  `LoadFault`
collects what can be wrong with a program file, `Fault` what can go wrong while a program runs, and
`Trap` is a fault together with the instruction that raised it.
-/

namespace CellMachine

/-! ## Program files -/

/-- The parts of a program file, as they are named in messages. -/
inductive Section
  | magic
  | stringCount
  | string
  | numberCount
  | number
  | functionCount
  | functionAddress
  | functionLocals
  | functionName
  | libraryCount
  | libraryName
  | instructionCount
  | opcode
  | operandKind
  | operandValue
  | globalCount
  deriving DecidableEq, Repr

def Section.name : Section → String
  | magic => "magic number"
  | stringCount => "string count"
  | string => "string constant"
  | numberCount => "number count"
  | number => "number constant"
  | functionCount => "user function count"
  | functionAddress => "user function address"
  | functionLocals => "user function local count"
  | functionName => "user function name"
  | libraryCount => "library function count"
  | libraryName => "library function name"
  | instructionCount => "instruction count"
  | opcode => "opcode"
  | operandKind => "operand kind"
  | operandValue => "operand value"
  | globalCount => "global count"

/-- The number that every program file starts with. -/
def magicNumber : Nat := 340200501

inductive LoadFault
  | unreadable (path cause : String)
  | badMagic (found : String)
  | truncated (part : Section)
  | malformed (part : Section) (token : String)
  | unknownOpcode (code index : Nat)
  | unknownOperandKind (code index : Nat)
  deriving DecidableEq, Repr

namespace LoadFault

def message : LoadFault → String
  | unreadable path cause => "cannot read " ++ path ++ ": " ++ cause
  | badMagic found =>
      "bad magic number '" ++ found ++ "', expected " ++ toString magicNumber
  | truncated part => "unexpected end of input while reading " ++ part.name
  | malformed part token => "malformed " ++ part.name ++ ": '" ++ token ++ "'"
  | unknownOpcode code index =>
      "unknown opcode " ++ toString code ++ " at instruction " ++ toString index
  | unknownOperandKind code index =>
      "unknown operand kind " ++ toString code ++ " at instruction " ++ toString index

def code : LoadFault → String
  | unreadable _ _ => "AVM-L001"
  | badMagic _ => "AVM-L002"
  | truncated _ => "AVM-L003"
  | malformed _ _ => "AVM-L004"
  | unknownOpcode _ _ => "AVM-L005"
  | unknownOperandKind _ _ => "AVM-L006"

end LoadFault

/-! ## Running programs -/

inductive Role
  | destination
  | value
  | jumpTarget
  | function
  deriving DecidableEq, Repr

def Role.name : Role → String
  | destination => "a destination"
  | value => "a value"
  | jumpTarget => "a jump target"
  | function => "a function"

inductive ConstantGroup
  | number
  | string
  | userFunction
  | libraryFunction
  deriving DecidableEq, Repr

def ConstantGroup.name : ConstantGroup → String
  | number => "number"
  | string => "string"
  | userFunction => "user function"
  | libraryFunction => "library function"

inductive ArgumentFault
  | tooFew (needed : Nat)
  | wrongType (expected found : CellType)
  | badIndex (index : Float)
  | other (message : String)
  deriving DecidableEq

def ArgumentFault.message : ArgumentFault → String
  | tooFew needed => "expected at least " ++ toString needed ++ " argument(s)"
  | wrongType expected found => "expected " ++ expected.name ++ ", got " ++ found.name
  | badIndex index =>
      "index " ++ String.ofList (Number.plain index) ++ " is not a non-negative integer"
  | other message => message

/-- Why an instruction cannot be executed. -/
inductive Fault
  | notANumber (op : Opcode) (found : CellType)
  | notATable (found : CellType)
  | typeMismatch (left right : CellType)
  | undefinedComparison
  | unsupportedKey (refusal : KeyRefusal)
  | stackOverflow
  | stackBounds (address : Int)
  | keyNotFound (key : String)
  | unknownLibraryFunction (name : String) (suggestion : Option String)
  | unboundFunction (found : CellType)
  | invalidOperand (kind : OperandKind) (role : Role)
  | missingConstant (group : ConstantGroup) (index : UInt32)
  | noFunctionAt (address : Nat)
  | corruptEnvironment (address : Nat)
  | jumpOutOfRange (target : Nat)
  | badArgument (function : String) (fault : ArgumentFault)
  | stream (cause : String)
  deriving DecidableEq

namespace Fault

def message : Fault → String
  | notANumber op found => "not a number in " ++ op.name ++ ": got " ++ found.name
  | notATable found => "illegal use of " ++ found.name ++ " as table"
  | typeMismatch left right =>
      "type mismatch in equality: " ++ left.name ++ " vs " ++ right.name
  | undefinedComparison => "undefined value involved in equality"
  | unsupportedKey refusal => "table key of type " ++ refusal.name ++ " is not supported"
  | stackOverflow => "stack overflow"
  | stackBounds address =>
      "stack address " ++ toString address ++ " is outside the allocated region"
  | keyNotFound key => "key not found: " ++ key
  | unknownLibraryFunction name _ => "unknown library function: " ++ name
  | unboundFunction found => "cannot bind " ++ found.name ++ " to a function"
  | invalidOperand kind role =>
      "operand of kind '" ++ kind.name ++ "' cannot be used as " ++ role.name
  | missingConstant group index =>
      group.name ++ " constant " ++ toString index.toNat ++ " does not exist"
  | noFunctionAt address => "no user function starts at instruction " ++ toString address
  | corruptEnvironment address =>
      "corrupt call environment at stack address " ++ toString address
  | jumpOutOfRange target =>
      "program counter " ++ toString target ++ " is past the end of code"
  | badArgument function fault => function ++ ": " ++ fault.message
  | stream cause => "output error: " ++ cause

def code : Fault → String
  | notANumber _ _ => "AVM-R001"
  | notATable _ => "AVM-R002"
  | typeMismatch _ _ => "AVM-R003"
  | undefinedComparison => "AVM-R004"
  | unsupportedKey _ => "AVM-R005"
  | stackOverflow => "AVM-R006"
  | stackBounds _ => "AVM-R007"
  | keyNotFound _ => "AVM-R008"
  | unknownLibraryFunction _ _ => "AVM-R009"
  | unboundFunction _ => "AVM-R010"
  | invalidOperand _ _ => "AVM-R011"
  | missingConstant _ _ => "AVM-R012"
  | noFunctionAt _ => "AVM-R013"
  | corruptEnvironment _ => "AVM-R014"
  | jumpOutOfRange _ => "AVM-R015"
  | badArgument _ _ => "AVM-R016"
  | stream _ => "AVM-R017"

end Fault

/-- A fault of a running program: the place of the instruction that raised it, and its source line,
zero when unknown. -/
structure Trap where
  pc : Nat
  line : UInt32
  fault : Fault
  deriving DecidableEq

end CellMachine
