import CellMachine.Library.Standard
import CellMachine.Program.Basic

/-!
# Machines — what stays the same while a program runs

A machine has a program, a library, and a rule for entries that a table does not have.  Its start
state has an empty stack of a given size.
-/

namespace CellMachine

/-- What becomes of reading an entry that a table does not have. -/
inductive MissingKey
  | fault
  | nil
  deriving DecidableEq, Repr

structure Machine where
  program : Program
  library : Library := .standard
  missingKey : MissingKey := .fault

namespace Machine

def defaultStackSize : Nat := 4094

/-- The state in which a machine starts.  The stack has to have room for the globals. -/
def start (machine : Machine) (stackSize : Nat) (console : Console) (log : Log) :
    Except Fault State := do
  let stack ← Stack.create stackSize machine.program.globals
  return { stack := stack, console := console, log := log }

end Machine
end CellMachine
