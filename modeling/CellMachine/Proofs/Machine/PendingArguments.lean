import Mathlib
import CellMachine.Proofs.Machine.Trajectory

/-!
# Pending arguments

The machine keeps one count of pending arguments for all frames.  A call saves the top above them,
so the count has to be that of the innermost frame: the top lies below its base by as many cells as
the count says.

Entering a function and calling one of the library set the count back.  Leaving a function does
not, so what the function has pushed for a call that it never made is counted in the frame of its
caller.  `Machine.accounts_iff` says that this is the only way in which the count goes wrong, and
`Machine.leaky` is a program that loses a global by it.
-/

namespace CellMachine

/-! ## Runs that may leave with arguments pending -/

namespace CallStack

/-- Whether an instruction respects the open calls, except that an activation may be left while
arguments are pending. -/
structure Permits (calls : CallStack) (globals : Nat) (instruction : Instruction) : Prop where
  operands : calls.entering = none →
    ∀ operand ∈ [instruction.result, instruction.first, instruction.second],
      calls.InRange globals operand
  enter : instruction.opcode = .enter → calls.entering ≠ none
  leave : instruction.opcode = .leave → calls.activations ≠ []

instance (calls : CallStack) (globals : Nat) (instruction : Instruction) :
    Decidable (calls.Permits globals instruction) :=
  decidable_of_iff
    ((calls.entering = none →
        ∀ operand ∈ [instruction.result, instruction.first, instruction.second],
          calls.InRange globals operand) ∧
      (instruction.opcode = .enter → calls.entering ≠ none) ∧
      (instruction.opcode = .leave → calls.activations ≠ []))
    ⟨fun h => ⟨h.1, h.2.1, h.2.2⟩, fun h => ⟨h.operands, h.enter, h.leave⟩⟩

/-- Whether the count of pending arguments is that of the innermost frame.  Between a call and the
entry of its function it is not asked for. -/
def Accounts (calls : CallStack) (state : State) : Prop :=
  calls.entering = none → state.stack.top + state.pending = calls.base

instance (calls : CallStack) (state : State) : Decidable (calls.Accounts state) :=
  inferInstanceAs (Decidable (_ → _))

end CallStack

namespace Machine

def Permitted (machine : Machine) (start : State) (n : Nat) : Prop :=
  ∀ m < n, ∀ instruction ∈ machine.program.code[(machine.stateAfter start m).pc]?,
    (machine.callsAfter start m).Permits machine.program.globals instruction

def LeavesNone (machine : Machine) (state : State) : Prop :=
  ∀ instruction ∈ machine.program.code[state.pc]?, instruction.opcode = .leave → state.pending = 0

instance (machine : Machine) (start : State) (n : Nat) : Decidable (machine.Permitted start n) :=
  inferInstanceAs (Decidable (∀ m < n,
    ∀ instruction ∈ machine.program.code[(machine.stateAfter start m).pc]?,
      (machine.callsAfter start m).Permits machine.program.globals instruction))

instance (machine : Machine) (state : State) : Decidable (machine.LeavesNone state) :=
  inferInstanceAs (Decidable (∀ instruction ∈ machine.program.code[state.pc]?,
    instruction.opcode = .leave → state.pending = 0))

variable {machine : Machine} {stackSize : Nat} {start state : State} {calls : CallStack}
  {console : Console} {log : Log} {n : Nat}

/-! ## Disciplined runs -/

/-- Calls that describe a state account for its pending arguments. -/
theorem accounts_of_describes (h : calls.Describes machine stackSize state) :
    calls.Accounts state :=
  fun hentered => (h.rests hentered).top_eq

/-- An instruction that leaves with nothing pending respects the open calls. -/
theorem allows_of_permits (h : calls.Describes machine stackSize state) {instruction : Instruction}
    (hget : machine.program.code[state.pc]? = some instruction)
    (hpermits : calls.Permits machine.program.globals instruction)
    (hleaves : machine.LeavesNone state) : calls.Allows machine.program.globals instruction := by
  refine ⟨hpermits.operands, hpermits.enter, fun hopcode => ⟨hpermits.leave hopcode, ?_⟩⟩
  rcases h.pointers with hrests | ⟨call, henters, hstart⟩
  · exact hrests.pending_eq ▸ hleaves instruction hget hopcode
  · exact henters.pushed_eq

/-- A run that never leaves an activation while arguments are pending is disciplined. -/
theorem respects_of_leavesNone (hlibrary : machine.library = .standard) (hsize : stackSize ≤ 2 ^ 53)
    (hstart : machine.start stackSize console log = .ok start)
    (hsucceeds : machine.Succeeds start n) (hpermitted : machine.Permitted start n)
    (hleaves : ∀ m < n, machine.LeavesNone (machine.stateAfter start m)) :
    machine.Respects start n := by
  induction n with
  | zero => exact fun m hm => absurd hm (Nat.not_lt_zero m)
  | succ n ih =>
      have hbefore : machine.Respects start n :=
        ih (hsucceeds.mono n.le_succ) (fun m hm => hpermitted m (hm.trans n.lt_succ_self))
          fun m hm => hleaves m (hm.trans n.lt_succ_self)
      have hdescribes := (disciplined_stateAfter hlibrary hstart (hsucceeds.mono n.le_succ)
        hbefore).describes hlibrary hsize
      intro m hm instruction hget
      rcases Nat.lt_succ_iff_lt_or_eq.1 hm with hlt | rfl
      · exact hbefore m hlt instruction hget
      · exact allows_of_permits hdescribes hget (hpermitted m hm instruction hget) (hleaves m hm)

/-! ## The step that miscounts -/

/-- A step that leaves an activation adds what is pending to the account of the caller. -/
theorem step_leave_account (hsize : stackSize ≤ 2 ^ 53)
    (h : calls.Describes machine stackSize state) (hrunning : (machine.step state).1 = .running)
    {instruction : Instruction} (hget : machine.program.code[state.pc]? = some instruction)
    (hpermits : calls.Permits machine.program.globals instruction)
    (hopcode : instruction.opcode = .leave) :
    (machine.callsStep state calls).entering = none ∧
      (machine.step state).2.stack.top + (machine.step state).2.pending =
        (machine.callsStep state calls).base + state.pending := by
  have hdecode : machine.decode state instruction = .ok .leave := by
    rcases instruction with ⟨opcode, result, first, second, line⟩
    cases hopcode
    rfl
  have hrests : calls.Rests stackSize state := by
    rcases h.pointers with hrests | ⟨call, henters, hstart⟩
    · exact hrests
    · -- Where a function starts, the instruction enters it.
      cases (opcode_of_startsFunction hget hstart).symm.trans hopcode
  rcases List.exists_cons_of_ne_nil (hpermits.leave hopcode) with ⟨activation, rest, hlist⟩
  rcases step_running hrunning hget hdecode with ⟨flow, after, hrun, hafter⟩
  rcases Exec.run_bind_ok hrun with ⟨target, between, hleave, hreturn⟩
  cases hreturn
  have hfetched : calls.Rests stackSize (fetched state instruction) := hrests.moved _ _ _
  -- A return restores the top of the caller and leaves the count of pending arguments alone.
  have hregisters := (hfetched.leave_restores hsize hlist hleave).1.registers_eq
  have htop : after.stack.top = activation.callerBase := congrArg Registers.top hregisters
  have hpending : after.pending = state.pending := congrArg Registers.pending hregisters
  rw [callsStep_of_decode hget hdecode, CallStack.advance, hlist]
  refine ⟨hrests.entering_eq, ?_⟩
  rcases hafter with ⟨hflow, -⟩ | ⟨target', -, hafter⟩
  · cases hflow
  · rw [hafter]
    cases hlist ▸ hrests.nested with
    | cons hcall hlocals hrest =>
        change after.stack.top + after.pending = _
        rw [htop, hpending, hcall.base_eq]
        rfl

/-! ## The statement -/

/-- The count of pending arguments is right in every state of a run exactly if no activation is left
while arguments are pending. -/
theorem accounts_iff (machine : Machine) (hlibrary : machine.library = .standard)
    (hsize : stackSize ≤ 2 ^ 53) (hstart : machine.start stackSize console log = .ok start) (n : Nat)
    (hsucceeds : machine.Succeeds start n) (hpermitted : machine.Permitted start n) :
    (∀ m ≤ n, (machine.callsAfter start m).Accounts (machine.stateAfter start m)) ↔
      ∀ m < n, machine.LeavesNone (machine.stateAfter start m) := by
  have hdescribes {m : Nat} (hm : m ≤ n)
      (hleaves : ∀ k < m, machine.LeavesNone (machine.stateAfter start k)) :
      (machine.callsAfter start m).Describes machine stackSize (machine.stateAfter start m) := by
    have hrespects := respects_of_leavesNone hlibrary hsize hstart (hsucceeds.mono hm)
      (fun k hk => hpermitted k (Nat.lt_of_lt_of_le hk hm)) hleaves
    exact (disciplined_stateAfter hlibrary hstart (hsucceeds.mono hm) hrespects).describes
      hlibrary hsize
  constructor
  · intro haccounts m hm
    -- Up to the first step that leaves with arguments pending, the run is disciplined.
    induction m using Nat.strong_induction_on with
    | h m ih =>
        intro instruction hget hopcode
        have hbefore := hdescribes hm.le fun k hk => ih k hk (hk.trans hm)
        have hsound := (reachable_stateAfter hstart m).sound hlibrary
        have hrunning : (machine.step (machine.stateAfter start m)).1 = .running := by
          rcases step_succeeds hsound (hsucceeds m hm) with ⟨-, hend⟩ | ⟨hrunning, -⟩
          · cases hend.symm.trans hget
          · exact hrunning
        rcases step_leave_account hsize hbefore hrunning hget
          (hpermitted m hm instruction hget) hopcode with ⟨hentered, haccount⟩
        have hcount := haccounts (m + 1) hm hentered
        exact Nat.add_eq_left.1 (haccount.symm.trans hcount)
  · intro hleaves m hm
    exact accounts_of_describes (hdescribes hm fun k hk => hleaves k (Nat.lt_of_lt_of_le hk hm))

/-- A machine that sets a global and calls a function twice, which pushes nil and returns. -/
def leaky : Machine where
  program := {
    userFunctions := #[⟨4, 0, "f"⟩]
    code := #[⟨.assign, ⟨.global, 0⟩, ⟨.bool, 1⟩, .absent, 1⟩,
      ⟨.call, .absent, ⟨.userFunction, 0⟩, .absent, 2⟩,
      ⟨.call, .absent, ⟨.userFunction, 0⟩, .absent, 3⟩,
      ⟨.jump, ⟨.label, 7⟩, .absent, .absent, 4⟩,
      ⟨.enter, .absent, ⟨.userFunction, 0⟩, .absent, 5⟩,
      ⟨.pushArgument, .absent, .nil, .absent, 6⟩,
      ⟨.leave, .absent, .absent, .absent, 7⟩]
    globals := 1 }

def leakyStart : State := { stack := ⟨Array.replicate 16 .undefined, 14, 14, 1⟩ }

/-- The first return of `leaky` leaves an argument pending that nobody has pushed. -/
theorem accounts_iff_leaky :
    leaky.start 16 {} {} = .ok leakyStart ∧ leaky.Succeeds leakyStart 5 ∧
      leaky.Permitted leakyStart 5 ∧ ¬ leaky.LeavesNone (leaky.stateAfter leakyStart 4) ∧
      ¬ ∀ m ≤ 5, (leaky.callsAfter leakyStart m).Accounts (leaky.stateAfter leakyStart m) := by
  have hsucceeds : leaky.Succeeds leakyStart 5 := by decide +kernel
  have hpermitted : leaky.Permitted leakyStart 5 := by decide +kernel
  have hleaves : ¬ leaky.LeavesNone (leaky.stateAfter leakyStart 4) := by decide +kernel
  have hsize : 16 ≤ 2 ^ 53 := by decide
  have hiff := accounts_iff leaky rfl hsize rfl 5 hsucceeds hpermitted
  exact ⟨rfl, hsucceeds, hpermitted, hleaves,
    fun haccounts => hleaves (hiff.1 haccounts 4 (by decide))⟩

/-- Not every run that respects its calls keeps the count of the innermost frame: after the first
return of `leaky` the count is one too high, and the second return clears the global. -/
theorem leaky_miscounts :
    leaky.start 16 {} {} = .ok leakyStart ∧ leaky.Succeeds leakyStart 9 ∧
      leaky.Permitted leakyStart 9 ∧
      (leaky.callsAfter leakyStart 5).entering = none ∧
      (leaky.stateAfter leakyStart 5).stack.top + (leaky.stateAfter leakyStart 5).pending ≠
        (leaky.callsAfter leakyStart 5).base ∧
      (leaky.stateAfter leakyStart 1).stack.read 15 = .bool true ∧
      (leaky.stateAfter leakyStart 9).stack.read 15 = .undefined := by
  refine ⟨rfl, ?_, ?_, ?_, ?_, ?_, ?_⟩
  all_goals decide +kernel

end Machine
end CellMachine
