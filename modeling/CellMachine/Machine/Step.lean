import CellMachine.Machine.Action
import CellMachine.Machine.Call

/-!
# Steps — running a program

A step decodes the instruction at the place in the code, performs its action and moves on.  It
yields the next state and how the run stands: it goes on, it is finished, or the instruction raised
a fault.  After a fault the machine stays at the instruction, so a further step executes it again.

The machine is finished when it comes to the end of the code, and only there.
-/

namespace CellMachine

/-! ## Performing actions -/

inductive Flow
  | next
  | jump (target : Nat)
  deriving DecidableEq, Repr

namespace Exec

def callUser (address : Nat) : Exec Unit := do
  modify fun state => state.report (.callsUser address state.pending)
  saveEnvironment

/-- Calls a library function, in a frame of its own, and returns from it. -/
def callLibrary (name : String) (function : Exec Unit) : Exec Nat := do
  modify fun state => state.report (.callsLibrary name state.pending)
  saveEnvironment
  openFrame
  setResult .nil
  function
  leave

def perform : Action → Exec Flow
  | .skip => return .next
  | .jump target => return .jump target
  | .store place cell => do
      modify fun state => state.overwrite place cell
      return .next
  | .copy place cell => do
      modify fun state => state.assign place cell
      return .next
  | .create place => do
      modify fun state =>
        let (id, state) := state.createTable []
        state.overwrite place (.table id)
      return .next
  | .insert id key cell => do
      modify fun state => state.insertEntry id key cell
      return .next
  | .push cell => do
      pushArgument cell
      return .next
  | .callUser address => do
      callUser address
      return .jump address
  | .callLibrary name function => return .jump (← callLibrary name function)
  | .enter name localSize => do
      enter name localSize
      return .next
  | .leave => return .jump (← leave)

end Exec

/-! ## Steps -/

/-- How a run stands after a step. -/
inductive Progress
  | running
  | finished
  | trapped (trap : Trap)
  deriving DecidableEq

namespace Machine

def execute (machine : Machine) (instruction : Instruction) : Exec Flow := do
  let action ← Exec.decide fun state => machine.decode state instruction
  Exec.perform action

/-- Executes an instruction and moves to the next place in the code, which has to be in the code or
at its end. -/
def executeStep (machine : Machine) (instruction : Instruction) (state : State) :
    Progress × State :=
  let pc := state.pc
  let trap (fault : Fault) : Progress := .trapped ⟨pc, instruction.line, fault⟩
  match (machine.execute instruction).run state with
  | .ok .next state => (.running, { state with pc := state.pc + 1 })
  | .ok (.jump target) state =>
      if target ≤ machine.program.code.size then (.running, { state with pc := target })
      else (trap (.jumpOutOfRange target), state)
  | .error fault state => (trap fault, state)

/-- Executes the instruction at the place in the code, or finishes at the end of the code. -/
def step (machine : Machine) (state : State) : Progress × State :=
  let code := machine.program.code
  if state.finished then (.finished, state)
  else if state.pc = code.size then
    (.finished, { state.report .finished with finished := true })
  else
    match code[state.pc]? with
    | some instruction =>
        machine.executeStep instruction
          (state.report (.executes state.pc instruction.opcode state.stack.top state.stack.frame))
    | none => (.trapped ⟨state.pc, 0, .jumpOutOfRange state.pc⟩, state)

/-! ## Runs -/

/-- A run of a machine: how many steps it took without a fault, how it stands, and its state. -/
structure Run where
  steps : Nat
  progress : Progress
  state : State

def Run.next (machine : Machine) : Run → Run
  | ⟨steps, _, state⟩ =>
      match machine.step state with
      | (.running, state) => ⟨steps + 1, .running, state⟩
      | (progress, state) => ⟨steps, progress, state⟩

def Run.advance (machine : Machine) : Nat → Run → Run
  | 0, run => run
  | n + 1, run =>
      match run.progress with
      | .running => Run.advance machine n (run.next machine)
      | _ => run

def run (machine : Machine) (limit : Nat) (state : State) : Run :=
  Run.advance machine limit ⟨0, .running, state⟩

/-- What a finished run still has to do: its output is flushed. -/
def close (state : State) : Progress :=
  match state.console.flush with
  | .ok () => .finished
  | .error fault => .trapped ⟨state.pc, 0, fault⟩

end Machine
end CellMachine
