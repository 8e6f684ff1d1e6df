import Mathlib
import CellMachine.Machine.Step

/-!
# What a step can be

`Machine.Outcome` lists the outcomes of a step with the conditions under which they come about, and
`Machine.step_outcome` says that there are no others.  Later proofs go through these cases and do
not open the step itself.
-/

namespace CellMachine
namespace Machine

/-! ## Instructions -/

/-- An instruction is decoded, which changes nothing, and then performed. -/
theorem run_execute (machine : Machine) (instruction : Instruction) (state : State) :
    (machine.execute instruction).run state =
      match machine.decode state instruction with
      | .ok action => (Exec.perform action).run state
      | .error fault => .error fault state := by
  change EStateM.run (Exec.ofExcept (machine.decode state instruction) >>= Exec.perform) state = _
  cases machine.decode state instruction <;> rfl

theorem run_execute_of_ok {machine : Machine} {instruction : Instruction} {state : State}
    {action : Action} (h : machine.decode state instruction = .ok action) :
    (machine.execute instruction).run state = (Exec.perform action).run state := by
  rw [run_execute, h]

theorem run_execute_of_error {machine : Machine} {instruction : Instruction} {state : State}
    {fault : Fault} (h : machine.decode state instruction = .error fault) :
    (machine.execute instruction).run state = .error fault state := by
  rw [run_execute, h]

/-- A fault is raised by decoding, where nothing has changed yet, or by the action. -/
theorem execute_error {machine : Machine} {instruction : Instruction} {state after : State}
    {fault : Fault} (hrun : (machine.execute instruction).run state = .error fault after) :
    machine.decode state instruction = .error fault ∧ after = state ∨
      ∃ action, machine.decode state instruction = .ok action ∧
        (Exec.perform action).run state = .error fault after := by
  rw [run_execute] at hrun
  cases hdecode : machine.decode state instruction with
  | error fault' =>
      rw [hdecode] at hrun
      cases hrun
      exact .inl ⟨rfl, rfl⟩
  | ok action =>
      rw [hdecode] at hrun
      exact .inr ⟨action, rfl, hrun⟩

/-! ## Outcomes -/

/-- The state in which the instruction at the place in the code is executed. -/
def fetched (state : State) (instruction : Instruction) : State :=
  state.report (.executes state.pc instruction.opcode state.stack.top state.stack.frame)

inductive Outcome (machine : Machine) (state : State) : Progress × State → Prop
  /-- The machine was finished before. -/
  | finished (h : state.finished = true) : machine.Outcome state (.finished, state)
  /-- The machine finishes at the end of the code. -/
  | finishes (h : state.finished = false) (hend : state.pc = machine.program.code.size) :
      machine.Outcome state (.finished, { state.report .finished with finished := true })
  /-- There is no instruction at the place in the code. -/
  | outside (h : state.finished = false) (hout : machine.program.code.size < state.pc) :
      machine.Outcome state (.trapped ⟨state.pc, 0, .jumpOutOfRange state.pc⟩, state)
  /-- An instruction is executed, and the machine goes on at the next one. -/
  | next {instruction : Instruction} {after : State} (h : state.finished = false)
      (hget : machine.program.code[state.pc]? = some instruction)
      (hrun : (machine.execute instruction).run (fetched state instruction) = .ok .next after) :
      machine.Outcome state (.running, { after with pc := after.pc + 1 })
  /-- An instruction is executed, and the machine goes on elsewhere. -/
  | jump {instruction : Instruction} {after : State} {target : Nat} (h : state.finished = false)
      (hget : machine.program.code[state.pc]? = some instruction)
      (hrun : (machine.execute instruction).run (fetched state instruction) =
        .ok (.jump target) after) (htarget : target ≤ machine.program.code.size) :
      machine.Outcome state (.running, { after with pc := target })
  /-- An instruction is executed, but it would leave the code. -/
  | astray {instruction : Instruction} {after : State} {target : Nat} (h : state.finished = false)
      (hget : machine.program.code[state.pc]? = some instruction)
      (hrun : (machine.execute instruction).run (fetched state instruction) =
        .ok (.jump target) after) (htarget : machine.program.code.size < target) :
      machine.Outcome state
        (.trapped ⟨state.pc, instruction.line, .jumpOutOfRange target⟩, after)
  /-- An instruction raises a fault. -/
  | trapped {instruction : Instruction} {after : State} {fault : Fault} (h : state.finished = false)
      (hget : machine.program.code[state.pc]? = some instruction)
      (hrun : (machine.execute instruction).run (fetched state instruction) = .error fault after) :
      machine.Outcome state (.trapped ⟨state.pc, instruction.line, fault⟩, after)

/-- Executing an instruction ends in one of the outcomes. -/
theorem executeStep_outcome (machine : Machine) {state : State} {instruction : Instruction}
    (h : state.finished = false) (hget : machine.program.code[state.pc]? = some instruction) :
    machine.Outcome state (machine.executeStep instruction (fetched state instruction)) := by
  rw [executeStep]
  cases hrun : (machine.execute instruction).run (fetched state instruction) with
  | error fault after => exact .trapped h hget hrun
  | ok flow after =>
      cases flow with
      | next => exact .next h hget hrun
      | jump target =>
          by_cases htarget : target ≤ machine.program.code.size
          · simpa only [if_pos htarget] using .jump h hget hrun htarget
          · simpa only [if_neg htarget] using
              .astray h hget hrun (Nat.lt_of_not_le htarget)

/-- Every step ends in one of the outcomes: all that a step can do is in this list. -/
theorem step_outcome (machine : Machine) (state : State) :
    machine.Outcome state (machine.step state) := by
  rw [step]
  by_cases hfinished : state.finished = true
  · rw [if_pos hfinished]
    exact .finished hfinished
  have hgoing : state.finished = false := Bool.not_eq_true _ ▸ hfinished
  rw [if_neg hfinished]
  by_cases hend : state.pc = machine.program.code.size
  · rw [if_pos hend]
    exact .finishes hgoing hend
  rw [if_neg hend]
  cases hget : machine.program.code[state.pc]? with
  | none =>
      have hle := Array.getElem?_eq_none_iff.1 hget
      exact .outside hgoing (Nat.lt_of_le_of_ne hle (Ne.symm hend))
  | some instruction => exact machine.executeStep_outcome hgoing hget

/-- A finished machine stays as it is. -/
theorem step_of_finished {machine : Machine} {state : State} (h : state.finished = true) :
    machine.step state = (.finished, state) := by
  rw [step, if_pos h]

/-- The machine finishes at the end of its code. -/
theorem step_of_end {machine : Machine} {state : State} (hgoing : state.finished = false)
    (hend : state.pc = machine.program.code.size) :
    machine.step state = (.finished, { state.report .finished with finished := true }) := by
  rw [step, if_neg (by rw [hgoing]; exact Bool.false_ne_true), if_pos hend]

/-- Beyond the end of the code there is no instruction to blame but the place itself. -/
theorem step_of_outside {machine : Machine} {state : State} (hgoing : state.finished = false)
    (hout : machine.program.code.size < state.pc) :
    machine.step state = (.trapped ⟨state.pc, 0, .jumpOutOfRange state.pc⟩, state) := by
  rw [step, if_neg (by rw [hgoing]; exact Bool.false_ne_true), if_neg (Nat.ne_of_gt hout),
    Array.getElem?_eq_none hout.le]

/-- An instruction is executed in the state that reports it. -/
theorem step_of_get {machine : Machine} {state : State} {instruction : Instruction}
    (hgoing : state.finished = false)
    (hget : machine.program.code[state.pc]? = some instruction) :
    machine.step state = machine.executeStep instruction (fetched state instruction) := by
  have hlt : state.pc ≠ machine.program.code.size := by
    intro hend
    rw [hend, Array.getElem?_size] at hget
    cases hget
  rw [step, if_neg (by rw [hgoing]; exact Bool.false_ne_true), if_neg hlt, hget]
  rfl

section

variable {machine : Machine} {state after : State} {instruction : Instruction}
  (hgoing : state.finished = false) (hget : machine.program.code[state.pc]? = some instruction)
include hgoing hget

/-- A jump into the code, or to its end, is taken. -/
theorem step_of_jump {target : Nat}
    (hrun : (machine.execute instruction).run (fetched state instruction) =
      .ok (.jump target) after) (htarget : target ≤ machine.program.code.size) :
    machine.step state = (.running, { after with pc := target }) := by
  rw [step_of_get hgoing hget, executeStep, hrun]
  exact if_pos htarget

/-- A jump out of the code is a fault, and the machine stays. -/
theorem step_of_astray {target : Nat}
    (hrun : (machine.execute instruction).run (fetched state instruction) =
      .ok (.jump target) after) (htarget : machine.program.code.size < target) :
    machine.step state =
      (.trapped ⟨state.pc, instruction.line, .jumpOutOfRange target⟩, after) := by
  rw [step_of_get hgoing hget, executeStep, hrun]
  exact if_neg (Nat.not_le_of_lt htarget)

/-- A fault keeps the changes that the instruction made before it. -/
theorem step_of_error {fault : Fault}
    (hrun : (machine.execute instruction).run (fetched state instruction) = .error fault after) :
    machine.step state = (.trapped ⟨state.pc, instruction.line, fault⟩, after) := by
  rw [step_of_get hgoing hget, executeStep, hrun]
  rfl

end

/-! ## Runs -/

/-- What holds of a state and is kept by every step holds after a run. -/
theorem run_induction {machine : Machine} (property : State → Prop)
    (hstep : ∀ state, property state → property (machine.step state).2) (limit : Nat)
    {state : State} (h : property state) : property (machine.run limit state).state := by
  have hnext (run : Run) (hrun : property run.state) : property (run.next machine).state := by
    rcases run with ⟨steps, progress, state⟩
    have hstate := hstep state hrun
    rw [Run.next]
    split
    · rename_i after hafter
      rwa [hafter] at hstate
    · rename_i progress after hafter
      rwa [hafter] at hstate
  have hadvance (run : Run) (hrun : property run.state) :
      property (Run.advance machine limit run).state := by
    induction limit generalizing run with
    | zero => exact hrun
    | succ limit ih =>
        rw [Run.advance]
        split
        · exact ih _ (hnext run hrun)
        · exact hrun
  exact hadvance ⟨0, .running, state⟩ h

end Machine
end CellMachine
