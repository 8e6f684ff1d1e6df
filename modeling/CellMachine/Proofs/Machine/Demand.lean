import Mathlib
import CellMachine.Proofs.Library.Faults
import CellMachine.Proofs.Machine.Room
import CellMachine.Proofs.Machine.Trajectory

/-!
# Stack overflow

The cells between the top of a disciplined run and the globals are those of its open calls: for each
of them the arguments, the environment and the locals, and beside them the pending arguments.
`CallStack.demand` counts them, and `top + demand` is the top with which the machine started.

An instruction asks for room after its operands are resolved and before anything else can fail.  So
the stack overflows if and only if the demand and the room do not fit together:
`Machine.demands_of_disciplined`.
-/

namespace CellMachine

open Activation

/-! ## Demand of frames -/

/-- The cells that a call takes: its arguments and its environment. -/
def Call.demand (call : Call) : Nat :=
  call.actuals + Stack.environmentSize

def Activation.demand (activation : Activation) : Nat :=
  activation.toCall.demand + activation.localSize

/-- The cells that the open calls take, with a call whose function is not entered yet, and with the
pending arguments. -/
def CallStack.demand (calls : CallStack) : Nat :=
  (calls.activations.map Activation.demand).sum + (calls.entering.map Call.demand).getD 0 +
    calls.pushed

/-- Each activation takes the cells between its base and the base of its caller. -/
theorem Activation.Nested.base_add_demand {outermost : Nat} {activations : List Activation}
    (h : Nested outermost activations) :
    baseOf outermost activations + (activations.map Activation.demand).sum = outermost := by
  induction h with
  | nil => rfl
  | @cons activation rest hcall hlocals h ih =>
      have hframe := hcall.frame_add
      simp only [List.map_cons, List.sum_cons, baseOf, Activation.base, Activation.demand,
        Call.demand, Stack.environmentSize]
      omega

/-- The free cells and the demand make up the stack below the globals. -/
theorem CallStack.Describes.top_add_demand {calls : CallStack} {machine : Machine} {size : Nat}
    {state : State} (h : calls.Describes machine size state) :
    state.stack.top + calls.demand = calls.outermost := by
  rcases h.pointers with hrests | ⟨call, henters, -⟩
  · have hbase := hrests.nested.base_add_demand
    have htop := hrests.top_eq
    have hpending := hrests.pending_eq
    rw [CallStack.base] at htop
    rw [CallStack.demand, hrests.entering_eq, Option.map_none, Option.getD_none]
    omega
  · have hbase := henters.nested.base_add_demand
    have hframe := henters.made.frame_add
    have htop := henters.top_eq
    rw [CallStack.base] at hframe
    rw [CallStack.demand, henters.entering_eq, henters.pushed_eq, Option.map_some,
      Option.getD_some, Call.demand, Stack.environmentSize]
    omega

namespace Machine

variable {machine : Machine} {state : State}

/-! ## Steps -/

def OverflowsAt (machine : Machine) (state : State) : Prop :=
  ∃ trap, (machine.step state).1 = .trapped trap ∧ trap.fault = .stackOverflow

/-- The instruction at the place in the code overflows the stack if and only if it asks for more
cells than are free. -/
theorem overflowsAt_iff (hlibrary : machine.library = .standard) (hgoing : ∀ instruction,
      machine.program.code[state.pc]? = some instruction → state.finished = false) :
    machine.OverflowsAt state ↔ ∃ instruction room,
      machine.program.code[state.pc]? = some instruction ∧
        machine.Asks state instruction room ∧ state.stack.top < room := by
  -- A library function could overflow for reasons of its own, but the standard ones do not.
  have hperform {instruction : Instruction} {action : Action} (start : State)
      (hdecode : machine.decode state instruction = .ok action) :
      Exec.Overflows (Exec.perform action) start ↔ start.stack.top < action.room := by
    refine Exec.perform_overflows_iff ?_ start
    rintro name function rfl
    cases (machine.decode_yields state instruction).ok hdecode with
    | callLibrary hopcode hfind =>
        refine (Library.standard_raises (hlibrary ▸ hfind)).mono ?_
        rintro _ hkind rfl
        exact hkind
  constructor
  · rintro ⟨trap, htrap, hfault⟩
    generalize hafter : machine.step state = outcome at htrap
    cases hafter ▸ machine.step_outcome state with
    | finished | finishes | next | jump => cases htrap
    | outside | astray =>
        cases htrap
        cases hfault
    | @trapped instruction after fault _ hget hrun =>
        cases htrap
        cases hfault
        rcases execute_error hrun with ⟨herror, -⟩ | ⟨action, haction, hoverflows⟩
        · exact absurd herror (machine.decode_not_overflow _)
        · have hlt := (hperform _ haction).1 ⟨after, hoverflows⟩
          have hasks : machine.Asks state instruction action.room :=
            asks_of_decode haction (Nat.ne_zero_of_lt hlt)
          exact ⟨instruction, action.room, hget, hasks, hlt⟩
  · rintro ⟨instruction, room, hget, hasks, hlt⟩
    obtain ⟨action, haction, rfl⟩ := decode_of_asks hasks
    obtain ⟨after, hrun⟩ := (hperform (fetched state instruction) haction).2 hlt
    have hfetched : machine.decode (fetched state instruction) instruction = .ok action := haction
    refine ⟨⟨state.pc, instruction.line, .stackOverflow⟩, ?_, rfl⟩
    rw [step_of_error (hgoing instruction hget) hget ((run_execute_of_ok hfetched).trans hrun)]

/-! ## Runs -/

variable {stackSize : Nat} {calls : CallStack}

/-- What the open calls of a state say of the free cells in its stack. -/
structure Demands (machine : Machine) (stackSize : Nat) (state : State) (calls : CallStack) :
    Prop where
  /-- The cells below the globals are free, or the open calls and pending arguments take them. -/
  top_add_demand : state.stack.top + calls.demand = stackSize - 1 - machine.program.globals
  /-- The arguments that are counted are the pending ones; there are none between a call and its
  entry, where they are counted with the call. -/
  pushed_eq : calls.pushed = if calls.entering = none then state.pending else 0
  /-- The next step overflows the stack if and only if it asks for more cells than there are beside
  those in demand. -/
  overflows_iff : machine.OverflowsAt state ↔ ∃ instruction room,
    machine.program.code[state.pc]? = some instruction ∧ machine.Asks state instruction room ∧
      stackSize - 1 - machine.program.globals < calls.demand + room
  /-- So calls that each take some count of cells nest so deep only. -/
  depth : ∀ count, (∀ activation ∈ calls.activations, count ≤ activation.demand) →
    calls.activations.length * count ≤ stackSize - 1 - machine.program.globals

/-- The states of a disciplined run demand the cells of their open calls, and the stack overflows
exactly when what the next step asks for does not fit. -/
theorem demands_of_disciplined (hlibrary : machine.library = .standard)
    (hsize : stackSize ≤ 2 ^ 53) (h : machine.Disciplined stackSize state calls) :
    machine.Demands stackSize state calls := by
  have hdescribes := h.describes hlibrary hsize
  have hsound := h.reachable.sound hlibrary
  have houtermost := hdescribes.outermost_eq
  have htop : state.stack.top + calls.demand = stackSize - 1 - machine.program.globals := by
    have := hdescribes.top_add_demand
    omega
  refine ⟨htop, ?_, ?_, fun count hcount => ?_⟩
  · rcases hdescribes.pointers with hrests | ⟨call, henters, -⟩
    · rw [hrests.entering_eq, if_pos rfl, hrests.pending_eq]
    · rw [henters.entering_eq, if_neg (Option.some_ne_none call), henters.pushed_eq]
  · -- A machine that has finished is at the end of the code.
    have hgoing (instruction : Instruction)
        (hget : machine.program.code[state.pc]? = some instruction) : state.finished = false := by
      by_contra hfinished
      have hend := hsound.at_end (Bool.not_eq_false _ ▸ hfinished)
      rw [hend, Array.getElem?_size] at hget
      cases hget
    refine (overflowsAt_iff hlibrary hgoing).trans ?_
    simp only [← htop, Nat.add_comm state.stack.top, Nat.add_lt_add_iff_left]
  · calc
      calls.activations.length * count = (calls.activations.map fun _ => count).sum := by simp
      _ ≤ (calls.activations.map Activation.demand).sum := List.sum_le_sum hcount
      _ ≤ calls.demand := (Nat.le_add_right _ _).trans (Nat.le_add_right _ _)
      _ ≤ stackSize - 1 - machine.program.globals := htop ▸ Nat.le_add_left _ _

def diver : Machine where
  program := {
    userFunctions := #[⟨2, 1, "f"⟩]
    code := #[⟨.pushArgument, .absent, .nil, .absent, 1⟩,
      ⟨.call, .absent, ⟨.userFunction, 0⟩, .absent, 1⟩,
      ⟨.enter, .absent, ⟨.userFunction, 0⟩, .absent, 2⟩,
      ⟨.pushArgument, .absent, .nil, .absent, 3⟩,
      ⟨.call, .absent, ⟨.userFunction, 0⟩, .absent, 3⟩] }

def diverStart : State := { stack := ⟨Array.replicate 11 .undefined, 10, 10, 0⟩ }

/-- Seven of ten cells are in demand, so the second call of `diver` does not fit. -/
theorem demands_of_disciplined_diver :
    diver.Disciplined 11 (diver.stateAfter diverStart 4) (diver.callsAfter diverStart 4) ∧
      diver.Demands 11 (diver.stateAfter diverStart 4) (diver.callsAfter diverStart 4) ∧
      (diver.callsAfter diverStart 4).demand = 7 ∧
      diver.OverflowsAt (diver.stateAfter diverStart 4) := by
  have hsucceeds : diver.Succeeds diverStart 4 := by decide +kernel
  have hrespects : diver.Respects diverStart 4 := by decide +kernel
  have hstart : diver.start 11 {} {} = .ok diverStart := rfl
  have hdisciplined := disciplined_stateAfter rfl hstart hsucceeds hrespects
  have hdemand : (diver.callsAfter diverStart 4).demand = 7 := by decide +kernel
  have hdemands := demands_of_disciplined rfl (by decide) hdisciplined
  refine ⟨hdisciplined, hdemands, hdemand, hdemands.overflows_iff.2 ⟨_, 4, rfl, ?_, ?_⟩⟩
  · exact .call rfl rfl rfl
  · rw [hdemand]
    decide

end Machine
end CellMachine
