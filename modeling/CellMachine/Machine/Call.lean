import CellMachine.Machine.State

/-!
# Calls — making and leaving frames

A call saves the environment below the pending arguments and moves the frame.  Leaving a frame reads
the environment back, lets go of everything that lies below the restored top, and yields the place
in the code to go on with.  What is read back only has to lie in the stack: a program that
overwrites its own environment returns to where it says.
-/

namespace CellMachine
namespace Exec

/-! ## Calling -/

/-- Saves the environment of a call: the count of arguments, the place in the code to return to, the
top without the arguments, and the frame. -/
def saveEnvironment : Exec Unit := do
  let state ← get
  let top := state.stack.top + state.pending
  pushWord state.pending
  pushWord (state.pc + 1)
  pushWord top
  pushWord state.stack.frame

/-- Moves the frame to the top; no argument is pending there. -/
def openFrame : Exec Unit :=
  modify fun state =>
    { state with stack := { state.stack with frame := state.stack.top }, pending := 0 }

def enter (name : String) (localSize : Nat) : Exec Unit := do
  openFrame
  updateStack fun stack => stack.reserve localSize
  modify fun state => state.report (.enters name state.stack.frame)

/-! ## Leaving -/

structure Environment where
  top : Nat
  frame : Nat
  returnTo : Nat
  deriving DecidableEq, Repr

/-- Reads the environment of the executing function.  Both addresses have to lie in the stack. -/
def environment (stack : Stack) : Except Fault Environment := do
  let top ← stack.saved .top
  let returnTo ← stack.saved .returnTo
  let frame ← stack.saved .frame
  if top < stack.size ∧ frame < stack.size then return ⟨top, frame, returnTo⟩
  else throw (.corruptEnvironment stack.frame)

/-- Restores an environment, and clears all cells between the tops of the callee and the caller. -/
def restore (state : State) (environment : Environment) : State :=
  let stack := { state.stack with top := environment.top, frame := environment.frame }
  { state with stack := stack }.clear (state.stack.top + 1) environment.top

def leave : Exec Nat := do
  let environment ← decide fun state => environment state.stack
  modify fun state => restore state environment
  return environment.returnTo

end Exec
end CellMachine
