import CellMachine.Fault

/-!
# Stack — one array of cells for globals, frames and arguments

The stack grows toward address zero.  The globals lie at the high end.  `top` is the next free cell,
so the cells above it are allocated; `frame` is the base of the executing function: its locals lie
at the base and below, its arguments above the *environment*, four words that a call saves just
above the base.

    base + 5 + i   argument i
    base + 4       count of arguments
    base + 3       place in the code to return to
    base + 2       top of the caller
    base + 1       frame of the caller
    base - i       local i

Words are saved as numbers in ordinary cells, so a program can overwrite them; what is read back is
checked.  Address arithmetic is that of 64-bit machine words.
-/

namespace CellMachine

/-- The cells of a machine with its two pointers and the count of globals. -/
structure Stack where
  cells : Array Cell
  top : Nat
  frame : Nat
  globals : Nat
  deriving DecidableEq

/-- The words of a call environment, in the order of their addresses. -/
inductive EnvironmentWord
  | frame
  | top
  | returnTo
  | actuals
  deriving DecidableEq, Repr

/-- How far a word lies above the base of the frame. -/
def EnvironmentWord.offset : EnvironmentWord → Nat
  | frame => 1
  | top => 2
  | returnTo => 3
  | actuals => 4

namespace Stack

def environmentSize : Nat := 4

/-! ## Creation -/

/-- A stack of undefined cells.  One cell has to be free below the globals. -/
def create (size globals : Nat) : Except Fault Stack :=
  if size = 0 ∨ size ≤ globals then .error .stackOverflow
  else .ok ⟨Array.replicate size .undefined, size - 1 - globals, size - 1 - globals, globals⟩

def size (stack : Stack) : Nat :=
  stack.cells.size

/-- The base of the outermost frame: the code that no function contains runs there. -/
def outermost (stack : Stack) : Nat :=
  stack.size - 1 - stack.globals

/-! ## Cells -/

/-- The cell at an address; addresses outside of the stack hold nothing. -/
def read (stack : Stack) (address : Nat) : Cell :=
  stack.cells.getD address .undefined

def set (stack : Stack) (address : Nat) (cell : Cell) : Stack :=
  { stack with cells := stack.cells.setIfInBounds address cell }

/-- An address as it is shown: words of the upper half are negative. -/
def outOfBounds (address : Nat) : Fault :=
  .stackBounds (Int.bmod address UInt64.size)

def cell (stack : Stack) (address : Nat) : Except Fault Cell :=
  if address < stack.size then .ok (stack.read address) else .error (outOfBounds address)

/-! ## Addresses of variables -/

def allocated (stack : Stack) (address : Nat) : Except Fault Nat :=
  if stack.top < address ∧ address < stack.size then .ok address
  else .error (outOfBounds address)

/-- Accepts the address that lies some cells below another one. -/
def below (stack : Stack) (address distance : Nat) : Except Fault Nat :=
  if distance ≤ address then stack.allocated (address - distance) else .error (.stackBounds (-1))

def globalAddress (stack : Stack) (index : UInt32) : Except Fault Nat :=
  stack.below (stack.size - 1) index.toNat

def localAddress (stack : Stack) (index : UInt32) : Except Fault Nat :=
  stack.below stack.frame index.toNat

def formalAddress (stack : Stack) (index : UInt32) : Except Fault Nat :=
  stack.allocated (stack.frame + environmentSize + 1 + index.toNat)

/-! ## Moving the top -/

def lower (stack : Stack) : Except Fault Stack :=
  if stack.top = 0 then .error .stackOverflow else .ok { stack with top := stack.top - 1 }

def reserve (stack : Stack) (count : Nat) : Except Fault Stack :=
  if count ≤ stack.top then .ok { stack with top := stack.top - count }
  else .error .stackOverflow

/-! ## Environments -/

def addWords (a b : Nat) : Nat :=
  (a + b) % UInt64.size

/-- Reads the word at some distance above a base.  Only numbers that are whole and not negative are
words. -/
def word (stack : Stack) (base offset : Nat) : Except Fault Nat := do
  let address := addWords base offset
  match (← stack.cell address).number?.bind Number.toWord? with
  | some word => pure word
  | none => throw (.corruptEnvironment address)

def saved (stack : Stack) (word : EnvironmentWord) : Except Fault Nat :=
  stack.word stack.frame word.offset

def actualsAt (stack : Stack) (base : Nat) : Except Fault Nat :=
  stack.word base EnvironmentWord.actuals.offset

/-- An argument of the frame at a base, if it was passed. -/
def actualAt (stack : Stack) (base index : Nat) : Except Fault (Option Cell) := do
  if index < (← stack.actualsAt base) then
    return some (← stack.cell (addWords base (environmentSize + 1 + index)))
  else return none

/-- The frame that called the executing one, or nothing if that is the outermost frame. -/
def callerFrame (stack : Stack) : Except Fault (Option Nat) := do
  let frame ← stack.saved .frame
  return if frame = stack.outermost then none else some frame

end Stack
end CellMachine
