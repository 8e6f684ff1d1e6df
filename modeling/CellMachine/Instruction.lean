/-!
# Instructions — opcodes, operands and their wire codes

An instruction has an opcode and three operands: a result and two arguments.  An operand is a kind,
which says how the operand is addressed, and a value.  Opcodes and kinds have numeric wire codes,
namely their places in `Opcode.all` and `OperandKind.all`, and lower-case names for listings.
-/

namespace CellMachine

/-! ## Opcodes -/

inductive Arithmetic
  | add
  | sub
  | mul
  | div
  | mod
  deriving DecidableEq, Repr

/-- The order relations between two numbers that a jump can test. -/
inductive Relation
  | le
  | ge
  | lt
  | gt
  deriving DecidableEq, Repr

inductive Connective
  | and
  | or
  deriving DecidableEq, Repr

inductive Opcode
  | assign
  | arithmetic (op : Arithmetic)
  | negate
  | connective (op : Connective)
  | not
  | jump
  | jumpEqual
  | jumpUnequal
  | jumpIf (relation : Relation)
  | call
  | pushArgument
  | enter
  | leave
  | newTable
  | tableGet
  | tableSet
  | nop
  deriving DecidableEq, Repr

namespace Opcode

/-- The opcodes in the order of their wire codes. -/
def all : List Opcode :=
  [.assign, .arithmetic .add, .arithmetic .sub, .arithmetic .mul, .arithmetic .div,
    .arithmetic .mod, .negate, .connective .and, .connective .or, .not, .jump, .jumpEqual,
    .jumpUnequal, .jumpIf .le, .jumpIf .ge, .jumpIf .lt, .jumpIf .gt, .call, .pushArgument, .enter,
    .leave, .newTable, .tableGet, .tableSet, .nop]

def code (op : Opcode) : Nat :=
  all.idxOf op

def ofCode? (code : Nat) : Option Opcode :=
  all[code]?

def name : Opcode → String
  | assign => "assign"
  | arithmetic .add => "add"
  | arithmetic .sub => "sub"
  | arithmetic .mul => "mul"
  | arithmetic .div => "div"
  | arithmetic .mod => "mod"
  | negate => "uminus"
  | connective .and => "and"
  | connective .or => "or"
  | not => "not"
  | jump => "jump"
  | jumpEqual => "jeq"
  | jumpUnequal => "jne"
  | jumpIf .le => "jle"
  | jumpIf .ge => "jge"
  | jumpIf .lt => "jlt"
  | jumpIf .gt => "jgt"
  | call => "call"
  | pushArgument => "pusharg"
  | enter => "funcenter"
  | leave => "funcexit"
  | newTable => "newtable"
  | tableGet => "tablegetelem"
  | tableSet => "tablesetelem"
  | nop => "nop"

theorem ofCode?_code (op : Opcode) : ofCode? op.code = some op := by
  cases op <;> (try rename_i op; cases op) <;> rfl

end Opcode

/-! ## Operands -/

/-- How an operand is addressed: a place in the code, a stack slot, a constant of the program, the
return register, or nothing. -/
inductive OperandKind
  | label
  | global
  | formal
  | local
  | number
  | string
  | bool
  | nil
  | userFunction
  | libraryFunction
  | result
  | absent
  deriving DecidableEq, Repr

namespace OperandKind

/-- The kinds in the order of their wire codes. -/
def all : List OperandKind :=
  [.label, .global, .formal, .local, .number, .string, .bool, .nil, .userFunction,
    .libraryFunction, .result, .absent]

def code (kind : OperandKind) : Nat :=
  all.idxOf kind

def ofCode? (code : Nat) : Option OperandKind :=
  all[code]?

def name : OperandKind → String
  | label => "label"
  | global => "global"
  | formal => "formal"
  | «local» => "local"
  | number => "number"
  | string => "string"
  | bool => "bool"
  | nil => "nil"
  | userFunction => "userfunc"
  | libraryFunction => "libfunc"
  | result => "retval"
  | absent => "absent"

/-- Whether an operand of this kind names a place that can be written. -/
def isPlace : OperandKind → Bool
  | global | formal | «local» | result => true
  | _ => false

theorem ofCode?_code (kind : OperandKind) : ofCode? kind.code = some kind := by
  cases kind <;> rfl

end OperandKind

structure Operand where
  kind : OperandKind
  value : UInt32
  deriving DecidableEq, Repr

namespace Operand

def absent : Operand := ⟨.absent, 0⟩

def result : Operand := ⟨.result, 0⟩

def nil : Operand := ⟨.nil, 0⟩

def bool (b : Bool) : Operand := ⟨.bool, if b then 1 else 0⟩

def isAbsent (operand : Operand) : Bool :=
  operand.kind = .absent

/-- The text of an operand in listings: nothing for an unused position, and no value for the return
register. -/
def text (operand : Operand) : String :=
  match operand.kind with
  | .absent => ""
  | .result => "[retval]"
  | kind => "[" ++ kind.name ++ ", " ++ toString operand.value.toNat ++ "]"

end Operand

/-! ## Instructions -/

/-- An instruction; the source line is zero when it is unknown. -/
structure Instruction where
  opcode : Opcode
  result : Operand
  first : Operand
  second : Operand
  line : UInt32
  deriving DecidableEq, Repr

end CellMachine
