import CellMachine.Machine.Basic
import CellMachine.Operation

/-!
# Actions — what an instruction comes down to

An instruction is decoded before it is performed.  Decoding reads the program and the state and
changes neither: it resolves all operands, from left to right as the instruction lists its demands,
computes what is to be computed, and yields an action or a fault.  So every operand is read before
anything is written, and a fault of decoding leaves the state as it was.

What is left to fail are the actions that use the stack, the console or a library function.
-/

namespace CellMachine

/-! ## Operands -/

/-- What an operand stands for: a place, or a constant. -/
inductive Source
  | place (place : Place)
  | constant (cell : Cell)
  deriving DecidableEq

namespace State

def value (state : State) : Source → Cell
  | .place place => state.read place
  | .constant cell => cell

def place (state : State) (operand : Operand) : Except Fault Place :=
  match operand.kind with
  | .global => .slot <$> state.stack.globalAddress operand.value
  | .local => .slot <$> state.stack.localAddress operand.value
  | .formal => .slot <$> state.stack.formalAddress operand.value
  | .result => .ok .result
  | kind => .error (.invalidOperand kind .destination)

end State

namespace Program

/-- The constant that an operand names.  An unused position stands for the undefined cell. -/
def constantCell (program : Program) (operand : Operand) : Except Fault Cell :=
  match operand.kind with
  | .number => .number <$> program.number operand.value
  | .string => .text <$> program.string operand.value
  | .bool => .ok (.bool (operand.value ≠ 0))
  | .nil => .ok .nil
  | .userFunction => (fun f => .userFunction f.address) <$> program.userFunction operand.value
  | .libraryFunction => .libraryFunction <$> program.libraryFunction operand.value
  | .absent => .ok .undefined
  | kind => .error (.invalidOperand kind .value)

/-- What an operand stands for when it is read.  A constant is resolved to its cell directly, and is
not loaded into a scratch register first: what an instruction reads of its three operands would be
in three registers, none of them a place that `State.place` yields, so nothing is written to them
while the instruction is performed. -/
def source (program : Program) (state : State) (operand : Operand) : Except Fault Source :=
  if operand.kind.isPlace then .place <$> state.place operand
  else .constant <$> program.constantCell operand

def operandCell (program : Program) (state : State) (operand : Operand) : Except Fault Cell :=
  state.value <$> program.source state operand

def operandNumber (program : Program) (state : State) (opcode : Opcode) (operand : Operand) :
    Except Fault Float := do
  let cell ← program.operandCell state operand
  match cell.number? with
  | some x => pure x
  | none => throw (.notANumber opcode cell.type)

def operandTable (program : Program) (state : State) (operand : Operand) :
    Except Fault TableId := do
  let cell ← program.operandCell state operand
  match cell.table? with
  | some id => pure id
  | none => throw (.notATable cell.type)

end Program

def Operand.target (operand : Operand) : Except Fault Nat :=
  match operand.kind with
  | .label => .ok operand.value.toNat
  | kind => .error (.invalidOperand kind .jumpTarget)

def Cell.key (cell : Cell) : Except Fault Key :=
  match cell.key? with
  | .ok key => .ok key
  | .error refusal => .error (.unsupportedKey refusal)

def Cell.compare (a b : Cell) : Except Fault Bool :=
  match a.equal b with
  | .ok answer => .ok answer
  | .error .undefined => .error .undefinedComparison
  | .error (.types left right) => .error (.typeMismatch left right)

/-! ## Actions -/

/-- What an instruction does to the state. -/
inductive Action
  /-- Does nothing. -/
  | skip
  /-- Goes on elsewhere in the code. -/
  | jump (target : Nat)
  /-- Puts a computed cell at a place. -/
  | store (place : Place) (cell : Cell)
  /-- Copies a cell to a place. -/
  | copy (place : Place) (cell : Cell)
  /-- Puts a new table at a place. -/
  | create (place : Place)
  /-- Stores an entry in a table. -/
  | insert (table : TableId) (key : Key) (cell : Cell)
  /-- Pushes an argument. -/
  | push (cell : Cell)
  /-- Calls the function that starts at an address. -/
  | callUser (address : Nat)
  /-- Calls a library function. -/
  | callLibrary (name : String) (function : Exec Unit)
  /-- Enters a function. -/
  | enter (name : String) (localSize : Nat)
  /-- Returns from a function. -/
  | leave

namespace Action

def branch (condition : Bool) (target : Nat) : Action :=
  if condition then .jump target else .skip

end Action

/-! ## Decoding -/

/-- Whether a function of the program can start at a place in the code. -/
def Program.startsFunction (program : Program) (address : Nat) : Bool :=
  match program.code[address]? with
  | some instruction => instruction.opcode = .enter
  | none => false

/-- What calling a cell comes down to.  A text calls the library function that it names. -/
def Machine.callAction (machine : Machine) : Cell → Except Fault Action
  | .userFunction address =>
      if machine.program.startsFunction address.toNat then .ok (.callUser address.toNat)
      else .error (.noFunctionAt address.toNat)
  | .libraryFunction name | .text name => .callLibrary name <$> machine.library.find name
  | cell => .error (.unboundFunction cell.type)

/-- The entry of a table, or what a machine makes of a missing one. -/
def State.lookup (state : State) (missing : MissingKey) (id : TableId) (cell : Cell) :
    Except Fault Cell := do
  let key ← cell.key
  match state.heap.get? id key, missing with
  | some entry, _ => pure entry
  | none, .nil => pure .nil
  | none, .fault => throw (.keyNotFound cell.flatText)

/-- The function that an instruction enters.  Its descriptor has to name the place of the
instruction. -/
def Program.enterAction (program : Program) (state : State) (operand : Operand) :
    Except Fault Action := do
  match operand.kind with
  | .userFunction =>
      let function ← program.userFunction operand.value
      if function.address.toNat = state.pc then
        return .enter function.name function.localSize.toNat
      else throw (.noFunctionAt state.pc)
  | kind => throw (.invalidOperand kind .function)

def Machine.decode (machine : Machine) (state : State) (instruction : Instruction) :
    Except Fault Action := do
  let ⟨opcode, result, first, second, _⟩ := instruction
  let program := machine.program
  match opcode with
  | .assign =>
      let place ← state.place result
      let source ← program.source state first
      return if source = .place place then .skip else .copy place (state.value source)
  | .arithmetic op =>
      let place ← state.place result
      let x ← program.operandNumber state opcode first
      let y ← program.operandNumber state opcode second
      return .store place (.number (op.apply x y))
  | .negate =>
      let place ← state.place result
      let x ← program.operandNumber state opcode first
      return .store place (.number (-x))
  | .connective op =>
      let place ← state.place result
      let a ← program.operandCell state first
      let b ← program.operandCell state second
      return .store place (.bool (op.apply a.truth b.truth))
  | .not =>
      let place ← state.place result
      let a ← program.operandCell state first
      return .store place (.bool !a.truth)
  | .jump =>
      return .jump (← result.target)
  | .jumpEqual =>
      let target ← result.target
      let a ← program.operandCell state first
      let b ← program.operandCell state second
      return .branch (← a.compare b) target
  | .jumpUnequal =>
      let target ← result.target
      let a ← program.operandCell state first
      let b ← program.operandCell state second
      return .branch (!(← a.compare b)) target
  | .jumpIf relation =>
      let target ← result.target
      let x ← program.operandNumber state opcode first
      let y ← program.operandNumber state opcode second
      return .branch (relation.holds x y) target
  | .call =>
      machine.callAction (← program.operandCell state first)
  | .pushArgument =>
      return .push (← program.operandCell state first)
  | .enter =>
      program.enterAction state first
  | .leave =>
      return .leave
  | .newTable =>
      return .create (← state.place first)
  | .tableGet =>
      let place ← state.place result
      let id ← program.operandTable state first
      let key ← program.operandCell state second
      return .copy place (← state.lookup machine.missingKey id key)
  | .tableSet =>
      let id ← program.operandTable state first
      let key ← program.operandCell state second
      let cell ← program.operandCell state result
      return .insert id (← key.key) cell
  | .nop =>
      return .skip

end CellMachine
