import CellMachine.Machine.State
import CellMachine.Text.Distance

/-!
# Library — named functions outside of the program

A library maps names to computations on states.  A function finds its arguments in its frame and
leaves its answer in the return register, which is nil unless the function sets it.
-/

namespace CellMachine

/-! ## What a function can do -/

namespace Exec

def actuals : Exec Nat :=
  decide fun state => state.stack.actualsAt state.stack.frame

def actual (index : Nat) : Exec (Option Cell) :=
  decide fun state => state.stack.actualAt state.stack.frame index

/-- The frame of the function of the program that called, if one did. -/
def callerFrame : Exec (Option Nat) :=
  decide fun state => state.stack.callerFrame

def setResult (cell : Cell) : Exec Unit :=
  modify fun state => state.overwrite .result cell

/-- Puts a new table with the given entries into the return register. -/
def setResultTable (entries : List Entry) : Exec Unit :=
  modify fun state =>
    let (id, state) := state.createTable entries
    state.overwrite .result (.table id)

def report (event : Event) : Exec Unit :=
  modify fun state => state.report event

def write (s : String) : Exec Unit := do
  let state ← get
  let console ← ofExcept (state.console.write s)
  set { state with console := console }

def flush : Exec Unit :=
  decide fun state => state.console.flush

def takeLine : Exec Bytes :=
  modifyGet fun state =>
    let (line, console) := state.console.takeLine
    (line, { state with console := console })

end Exec

/-! ## Libraries -/

/-- A library: each name stands for a computation. -/
structure Library where
  functions : List (String × Exec Unit) := []

namespace Library

def find? (library : Library) (name : String) : Option (Exec Unit) :=
  library.functions.lookup name

/-- The names in the order in which they were registered. -/
def names (library : Library) : List String :=
  library.functions.map Prod.fst

/-- Adds a function, in place of one with the same name if there is one. -/
def register (library : Library) (name : String) (function : Exec Unit) : Library :=
  let rec go : List (String × Exec Unit) → List (String × Exec Unit)
    | [] => [(name, function)]
    | entry :: rest => if entry.1 = name then (name, function) :: rest else entry :: go rest
  ⟨go library.functions⟩

/-- The function of a name, or the fault that there is none. -/
def find (library : Library) (name : String) : Except Fault (Exec Unit) :=
  match library.find? name with
  | some function => .ok function
  | none =>
      .error (.unknownLibraryFunction name (Distance.closest? name library.names))

end Library
end CellMachine
