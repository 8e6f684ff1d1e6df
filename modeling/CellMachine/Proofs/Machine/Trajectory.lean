import Mathlib
import CellMachine.Proofs.Machine.Frames
import CellMachine.Proofs.Machine.Safety

/-!
# Trajectories

A machine is deterministic, so its start state fixes the state after any count of steps and, beside
it, the open calls.  `Machine.stateAfter` and `Machine.callsAfter` are these two sequences; a
statement about the first `n` steps of a run speaks of both up to `n`.

If these steps raise no fault and respect the open calls, the run up to there is disciplined:
`Machine.disciplined_stateAfter`.
-/

namespace CellMachine
namespace Machine

/-! ## States and calls -/

def stateAfter (machine : Machine) (start : State) : Nat → State
  | 0 => start
  | n + 1 => (machine.step (machine.stateAfter start n)).2

/-- How a step from a state changes the open calls: they change with the action that the instruction
is decoded to, if there is one. -/
def callsStep (machine : Machine) (state : State) (calls : CallStack) : CallStack :=
  match machine.program.code[state.pc]? with
  | none => calls
  | some instruction =>
      match machine.decode state instruction with
      | .ok action => calls.advance state.pc action
      | .error _ => calls

/-- The open calls after some steps.  The outermost base is the top at the start. -/
def callsAfter (machine : Machine) (start : State) : Nat → CallStack
  | 0 => ⟨start.stack.top, [], none, 0⟩
  | n + 1 => machine.callsStep (machine.stateAfter start n) (machine.callsAfter start n)

def SucceedsAt (machine : Machine) (state : State) : Prop :=
  (machine.step state).1 = .running ∨ (machine.step state).1 = .finished

def Succeeds (machine : Machine) (start : State) (n : Nat) : Prop :=
  ∀ m < n, machine.SucceedsAt (machine.stateAfter start m)

def RespectsAt (machine : Machine) (state : State) (calls : CallStack) : Prop :=
  ∀ instruction ∈ machine.program.code[state.pc]?,
    calls.Allows machine.program.globals instruction

def Respects (machine : Machine) (start : State) (n : Nat) : Prop :=
  ∀ m < n, machine.RespectsAt (machine.stateAfter start m) (machine.callsAfter start m)

instance (machine : Machine) (state : State) : Decidable (machine.SucceedsAt state) :=
  inferInstanceAs (Decidable (_ ∨ _))

instance (machine : Machine) (start : State) (n : Nat) : Decidable (machine.Succeeds start n) :=
  inferInstanceAs (Decidable (∀ m < n, machine.SucceedsAt (machine.stateAfter start m)))

instance (machine : Machine) (state : State) (calls : CallStack) :
    Decidable (machine.RespectsAt state calls) :=
  inferInstanceAs (Decidable (∀ instruction ∈ machine.program.code[state.pc]?,
    calls.Allows machine.program.globals instruction))

instance (machine : Machine) (start : State) (n : Nat) : Decidable (machine.Respects start n) :=
  inferInstanceAs (Decidable (∀ m < n,
    machine.RespectsAt (machine.stateAfter start m) (machine.callsAfter start m)))

variable {machine : Machine} {stackSize : Nat} {start state : State} {calls : CallStack}
  {console : Console} {log : Log} {n : Nat}

/-- Fewer steps succeed as well. -/
theorem Succeeds.mono (h : machine.Succeeds start n) {m : Nat} (hle : m ≤ n) :
    machine.Succeeds start m :=
  fun k hk => h k (Nat.lt_of_lt_of_le hk hle)

theorem Respects.mono (h : machine.Respects start n) {m : Nat} (hle : m ≤ n) :
    machine.Respects start m :=
  fun k hk => h k (Nat.lt_of_lt_of_le hk hle)

/-- The open calls follow the action that is decoded. -/
theorem callsStep_of_decode {instruction : Instruction} {action : Action}
    (hget : machine.program.code[state.pc]? = some instruction)
    (hdecode : machine.decode state instruction = .ok action) (calls : CallStack) :
    machine.callsStep state calls = calls.advance state.pc action := by
  simp only [callsStep, hget, hdecode]

theorem callsStep_of_end (hend : machine.program.code[state.pc]? = none) (calls : CallStack) :
    machine.callsStep state calls = calls := by
  simp only [callsStep, hend]

/-! ## Steps without a fault -/

/-- Stepping from the start only comes to reachable states. -/
theorem reachable_stateAfter (hstart : machine.start stackSize console log = .ok start) (n : Nat) :
    machine.Reachable stackSize (machine.stateAfter start n) := by
  induction n with
  | zero => exact .start hstart
  | succ n ih => exact ih.step

theorem Disciplined.reachable (h : machine.Disciplined stackSize state calls) :
    machine.Reachable stackSize state := by
  induction h with
  | start h => exact .start h
  | step _ _ _ _ _ ih => exact ih.step
  | finish _ _ ih => exact ih.step

/-- A step without a fault performs an instruction, or finishes where there is none. -/
theorem step_succeeds_of_end
    (hatEnd : state.finished = true → machine.program.code[state.pc]? = none)
    (h : machine.SucceedsAt state) :
    ((machine.step state).1 = .finished ∧ machine.program.code[state.pc]? = none) ∨
      ((machine.step state).1 = .running ∧ ∃ instruction action,
        machine.program.code[state.pc]? = some instruction ∧
          machine.decode state instruction = .ok action) := by
  rcases h with hrunning | hfinished
  · exact .inr ⟨hrunning, exists_decode_of_running hrunning⟩
  refine .inl ⟨hfinished, ?_⟩
  generalize hafter : machine.step state = outcome at hfinished
  cases hafter ▸ machine.step_outcome state with
  | finished h => exact hatEnd h
  | finishes hgoing hpc => exact Array.getElem?_eq_none (Nat.le_of_eq hpc.symm)
  | _ => cases hfinished

/-- A step that raises no fault finishes the machine or performs an action. -/
theorem step_succeeds (hsound : machine.Sound stackSize state)
    (h : machine.SucceedsAt state) :
    ((machine.step state).1 = .finished ∧ machine.program.code[state.pc]? = none) ∨
      ((machine.step state).1 = .running ∧ ∃ instruction action,
        machine.program.code[state.pc]? = some instruction ∧
          machine.decode state instruction = .ok action) := by
  refine step_succeeds_of_end (fun hfinished => ?_) h
  exact Array.getElem?_eq_none (Nat.le_of_eq (hsound.at_end hfinished).symm)

/-! ## The start -/

/-- At the start no cell was ever assigned. -/
theorem read_of_start (hstart : machine.start stackSize console log = .ok start) (address : Nat) :
    start.stack.read address = .undefined := by
  simp only [Machine.start, Stack.create] at hstart
  split at hstart
  · cases hstart
  · cases hstart
    simp only [Stack.read, Array.getD_eq_getD_getElem?, Array.getElem?_replicate]
    split <;> rfl

/-! ## Disciplined trajectories -/

/-- The top starts right below the globals. -/
theorem top_of_start (hstart : machine.start stackSize console log = .ok start) :
    start.stack.top = stackSize - 1 - machine.program.globals := by
  simp only [Machine.start, Stack.create] at hstart
  split at hstart
  · cases hstart
  · cases hstart
    rfl

/-- A machine is not finished as long as there is an instruction to execute. -/
theorem Disciplined.at_end (hlibrary : machine.library.LeavesStacks)
    (h : machine.Disciplined stackSize state calls) (hfinished : state.finished = true) :
    machine.program.code[state.pc]? = none := by
  induction h with
  | start h => exact Array.getElem?_eq_none (Nat.le_of_eq ((start_sound h).at_end hfinished).symm)
  | @step state calls instruction action _ hget _ hdecode hrunning _ =>
      -- A running step has not finished the machine, so this is not the last state.
      have hgoing : state.finished = false := by
        by_contra hnot
        rw [Machine.step, if_pos (Bool.not_eq_false _ ▸ hnot)] at hrunning
        cases hrunning
      rcases step_running hrunning hget hdecode with ⟨flow, after, hrun, hafter⟩
      have hkept := Exec.perform_finished hlibrary
        ((machine.decode_yields state instruction).ok hdecode) hrun
      have hafterFinished : (machine.step state).2.finished = false := by
        rcases hafter with ⟨-, heq⟩ | ⟨target, -, heq⟩
        · exact heq ▸ hkept.trans hgoing
        · exact heq ▸ hkept.trans hgoing
      exact absurd (hafterFinished.symm.trans hfinished) Bool.false_ne_true
  | @finish state calls _ hprogress ih =>
      generalize hafter : machine.step state = outcome at hprogress hfinished ⊢
      cases hafter ▸ machine.step_outcome state with
      | finished => exact ih hfinished
      | finishes hgoing hend => exact Array.getElem?_eq_none (Nat.le_of_eq hend.symm)
      | _ => cases hprogress

/-- If the first steps raise no fault and respect the open calls, the run up to there is
disciplined. -/
theorem disciplined_of_leavesStacks (hlibrary : machine.library.LeavesStacks)
    (hstart : machine.start stackSize console log = .ok start)
    (hsucceeds : machine.Succeeds start n) (hrespects : machine.Respects start n) :
    machine.Disciplined stackSize (machine.stateAfter start n) (machine.callsAfter start n) := by
  induction n with
  | zero =>
      rw [callsAfter, top_of_start hstart]
      exact .start hstart
  | succ n ih =>
      have hbefore := ih (hsucceeds.mono n.le_succ) (hrespects.mono n.le_succ)
      rcases step_succeeds_of_end (hbefore.at_end hlibrary) (hsucceeds n n.lt_succ_self) with
        ⟨hfinished, hend⟩ | ⟨hrunning, instruction, action, hget, hdecode⟩
      · rw [callsAfter, callsStep_of_end hend]
        exact .finish hbefore hfinished
      · rw [callsAfter, callsStep_of_decode hget hdecode]
        exact .step hbefore hget (hrespects n n.lt_succ_self instruction hget) hdecode hrunning

/-- Every state on the way of a disciplined run is disciplined. -/
theorem disciplined_of_le (hlibrary : machine.library.LeavesStacks)
    (hstart : machine.start stackSize console log = .ok start)
    (hsucceeds : machine.Succeeds start n) (hrespects : machine.Respects start n) {m : Nat}
    (hm : m ≤ n) :
    machine.Disciplined stackSize (machine.stateAfter start m) (machine.callsAfter start m) :=
  disciplined_of_leavesStacks hlibrary hstart (hsucceeds.mono hm) (hrespects.mono hm)

/-- Steps that succeed and respect the open calls make up a disciplined run. -/
theorem disciplined_stateAfter (hlibrary : machine.library = .standard)
    (hstart : machine.start stackSize console log = .ok start)
    (hsucceeds : machine.Succeeds start n) (hrespects : machine.Respects start n) :
    machine.Disciplined stackSize (machine.stateAfter start n) (machine.callsAfter start n) :=
  disciplined_of_leavesStacks (hlibrary ▸ Library.standard_leavesStacks) hstart hsucceeds hrespects

end Machine
end CellMachine
