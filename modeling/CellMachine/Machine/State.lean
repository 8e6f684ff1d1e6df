import CellMachine.Event
import CellMachine.Heap.Basic
import CellMachine.Machine.Console
import CellMachine.Machine.Stack

/-!
# States — everything that changes while a program runs

A state has a stack, a heap, the return register, the place in the code, the count of arguments
pushed since the last call, the console and the log.

What cannot fail is a function on states; `Exec` is the monad of what can fail.  A failing
computation keeps the changes that it made before it failed.

A place is a cell of the stack or the return register.  Writing to a place retains the new cell
before it releases the old one, so a table that is written over itself survives.
-/

namespace CellMachine

inductive Place
  | slot (address : Nat)
  | result
  deriving DecidableEq, Repr

/-- The state of a machine.

There are no scratch registers in it that constants are loaded into.  Each of the three operands of
an instruction would have a register of its own, which that instruction writes before it reads it,
and no operand can name one.  So no register could overwrite what another one holds, and no later
instruction could tell what was left in it; `Program.source` yields the constant itself. -/
structure State where
  stack : Stack
  heap : Heap := .empty
  result : Cell := .undefined
  pc : Nat := 0
  pending : Nat := 0
  finished : Bool := false
  console : Console := {}
  log : Log := {}

namespace State

def read (state : State) : Place → Cell
  | .slot address => state.stack.read address
  | .result => state.result

def report (state : State) (event : Event) : State :=
  { state with log := state.log.add event }

/-! ## Writing -/

/-- Puts a cell at a place.  What the place held is let go of; an address outside of the stack is no
place, and nothing happens there. -/
def overwrite (state : State) (place : Place) (cell : Cell) : State :=
  match place with
  | .slot address =>
      if address < state.stack.size then
        let old := state.stack.read address
        { state with
          heap := (state.heap.retain cell).release old
          stack := state.stack.set address cell }
      else state
  | .result =>
      let old := state.result
      { state with heap := (state.heap.retain cell).release old, result := cell }

/-- Reports a value that was never assigned. -/
def checkDefined (state : State) (cell : Cell) : State :=
  if cell = .undefined then state.report .undefinedAssigned else state

def assign (state : State) (place : Place) (cell : Cell) : State :=
  (state.checkDefined cell).overwrite place cell

/-- Clears the cells from one address up to another one. -/
def clear (state : State) (first last : Nat) : State :=
  let stop := min (last + 1) state.stack.size
  (List.range' first (stop - first)).foldl
    (fun state address => state.overwrite (.slot address) .undefined) state

/-! ## Tables -/

def insertEntry (state : State) (id : TableId) (key : Key) (cell : Cell) : State :=
  let state := state.checkDefined cell
  { state with heap := state.heap.insert id key cell }

def insertEntries (state : State) (id : TableId) (entries : List Entry) : State :=
  entries.foldl (fun state entry => state.insertEntry id entry.1 entry.2) state

/-- Creates a table with the given entries.  It has no holder yet. -/
def createTable (state : State) (entries : List Entry) : TableId × State :=
  let (id, heap) := state.heap.create
  (id, { state with heap := heap }.insertEntries id entries)

end State

/-! ## Computations that can fail -/

/-- A computation on states that can fail. -/
abbrev Exec := EStateM Fault State

namespace Exec

def ofExcept {α : Type} : Except Fault α → Exec α
  | .ok x => pure x
  | .error fault => throw fault

def decide {α : Type} (f : State → Except Fault α) : Exec α := do
  ofExcept (f (← get))

def updateStack (f : Stack → Except Fault Stack) : Exec Unit := do
  let state ← get
  let stack ← ofExcept (f state.stack)
  set { state with stack := stack }

/-- Puts a word below the top. -/
def pushWord (word : Nat) : Exec Unit := do
  modify fun state => state.overwrite (.slot state.stack.top) (.number (Number.ofNat word))
  updateStack Stack.lower

/-- Puts a copied cell below the top, as one more pending argument. -/
def pushArgument (cell : Cell) : Exec Unit := do
  modify fun state =>
    let state := state.assign (.slot state.stack.top) cell
    { state with pending := state.pending + 1 }
  updateStack Stack.lower

end Exec
end CellMachine
