import Mathlib
import CellMachine.Proofs.Machine.Atomicity
import CellMachine.Proofs.Machine.Faults
import CellMachine.Proofs.Machine.Trajectory

/-!
# Returns without a call

To return, the machine reads three words above the frame: the frame and the top of the caller, and
the place in the code to go on with.  It asks whether they are words and whether both pointers lie in
the stack, and not whether a call has saved them.  `Machine.RefusesReturn` and `Machine.ReturnsTo`
are the two ways in which this ends.

Where no call is open, the cells above the frame are the last globals.  A program can store there
what it likes, so a return without a call is refused exactly as long as it has not stored an
environment of its own making: `Machine.return_without_call`.  The machine `forger` does.
-/

namespace CellMachine

/-! ## Environments in arbitrary cells -/

namespace Stack

def HoldsAt (stack : Stack) (address word : Nat) : Prop :=
  address < stack.size ∧ (stack.read address).number?.bind Number.toWord? = some word

instance (stack : Stack) (address word : Nat) : Decidable (stack.HoldsAt address word) :=
  inferInstanceAs (Decidable (_ ∧ _))

/-- Whether the cells above the frame are read as an environment, and both of its pointers lie in
the stack. -/
structure HoldsEnvironment (stack : Stack) (environment : Exec.Environment) : Prop where
  frame : stack.HoldsAt (stack.frame + 1) environment.frame
  top : stack.HoldsAt (stack.frame + 2) environment.top
  returnTo : stack.HoldsAt (stack.frame + 3) environment.returnTo
  top_lt : environment.top < stack.size
  frame_lt : environment.frame < stack.size

variable {stack : Stack}

/-- Where addresses do not wrap around, a word is read from the cell that holds it. -/
theorem word_eq_ok_iff {base offset word : Nat} (haddress : base + offset < UInt64.size) :
    stack.word base offset = .ok word ↔ stack.HoldsAt (base + offset) word := by
  have hadd : addWords base offset = base + offset := Nat.mod_eq_of_lt haddress
  rw [Stack.word, hadd, HoldsAt, cell]
  by_cases hlt : base + offset < stack.size
  · simp only [hlt, if_true, true_and, bind, Except.bind]
    cases (stack.read (base + offset)).number?.bind Number.toWord? with
    | none =>
        constructor
        · intro h
          cases h
        · intro h
          cases h
    | some found =>
        change Except.ok found = _ ↔ _
        simp
  · simp only [hlt, if_false, false_and, iff_false]
    intro h
    cases h

/-- What is restored is what the cells above the frame are read as. -/
theorem environment_eq_ok_iff (hframe : stack.frame + 4 < UInt64.size)
    {environment : Exec.Environment} :
    Exec.environment stack = .ok environment ↔ stack.HoldsEnvironment environment := by
  have hword (word : EnvironmentWord) (value : Nat) :
      stack.saved word = .ok value ↔ stack.HoldsAt (stack.frame + word.offset) value := by
    have hoffset := word.offset_bounds
    exact word_eq_ok_iff (by omega)
  constructor
  · intro h
    rcases (Exec.environment_yields stack).ok h with ⟨⟨htop, hreturn, hcaller⟩, hbounds⟩
    exact ⟨(hword .frame _).1 hcaller, (hword .top _).1 htop, (hword .returnTo _).1 hreturn,
      hbounds.1, hbounds.2⟩
  · intro h
    have htop := (hword .top _).2 h.top
    have hreturn := (hword .returnTo _).2 h.returnTo
    have hcaller := (hword .frame _).2 h.frame
    simp only [Exec.environment, htop, hreturn, hcaller, bind, Except.bind]
    rw [if_pos ⟨h.top_lt, h.frame_lt⟩]
    rfl

end Stack

/-! ## Globals above the frame -/

namespace State

def global (state : State) (index : Nat) : Cell :=
  state.stack.read (state.stack.size - 1 - index)

/-- Whether the last three of some globals are read as an environment, and both of its pointers lie
in the stack. -/
structure GlobalsHold (state : State) (globals : Nat) (environment : Exec.Environment) : Prop where
  count : 3 ≤ globals
  frame : (state.global (globals - 1)).number?.bind Number.toWord? = some environment.frame
  top : (state.global (globals - 2)).number?.bind Number.toWord? = some environment.top
  returnTo : (state.global (globals - 3)).number?.bind Number.toWord? = some environment.returnTo
  top_lt : environment.top < state.stack.size
  frame_lt : environment.frame < state.stack.size

/-- Above the outermost frame there are the globals, the last one first, and nothing else. -/
theorem holdsEnvironment_iff {state : State} {globals : Nat}
    (houtermost : state.stack.frame + globals + 1 = state.stack.size)
    (environment : Exec.Environment) :
    state.stack.HoldsEnvironment environment ↔ state.GlobalsHold globals environment := by
  -- Globals are counted from the high end and words from the frame, so the last global is the first
  -- word.
  have hat {offset : Nat} (hpos : 0 < offset) (hle : offset ≤ globals) :
      state.stack.read (state.stack.frame + offset) = state.global (globals - offset) := by
    rw [global]
    congr 1
    omega
  constructor
  · intro h
    have hcount : 3 ≤ globals := by
      have hlt := h.returnTo.1
      omega
    refine ⟨hcount, ?_, ?_, ?_, h.top_lt, h.frame_lt⟩
    · rw [← hat (by decide) (by omega)]
      exact h.frame.2
    · rw [← hat (by decide) (by omega)]
      exact h.top.2
    · rw [← hat (by decide) hcount]
      exact h.returnTo.2
  · intro h
    have hcount := h.count
    refine ⟨⟨by omega, ?_⟩, ⟨by omega, ?_⟩, ⟨by omega, ?_⟩, h.top_lt, h.frame_lt⟩
    · rw [hat (by decide) (by omega)]
      exact h.frame
    · rw [hat (by decide) (by omega)]
      exact h.top
    · rw [hat (by decide) hcount]
      exact h.returnTo

end State

/-! ## Steps that return -/

namespace Machine

/-- Whether a step reports that no environment is there, and nothing but the log changes. -/
def RefusesReturn (machine : Machine) (state : State) (instruction : Instruction) : Prop :=
  ∃ fault : Fault, fault.OfFrame ∧
    machine.step state =
      (.trapped ⟨state.pc, instruction.line, fault⟩, fetched state instruction)

/-- Whether a step restores an environment, and goes on where that says. -/
def ReturnsTo (machine : Machine) (state : State) (instruction : Instruction)
    (environment : Exec.Environment) : Prop :=
  let restored := Exec.restore (fetched state instruction) environment
  machine.step state =
    if environment.returnTo ≤ machine.program.code.size then
      (.running, { restored with pc := environment.returnTo })
    else
      (.trapped ⟨state.pc, instruction.line, .jumpOutOfRange environment.returnTo⟩, restored)

variable {machine : Machine} {state : State} {instruction : Instruction}
  {environment : Exec.Environment}

/-- A return has no operands, so it is decoded in every state. -/
theorem decode_leave (state : State) (hopcode : instruction.opcode = .leave) :
    machine.decode state instruction = .ok .leave := by
  rcases instruction with ⟨opcode, result, first, second, line⟩
  cases hopcode
  rfl

/-- An environment that can be read is restored. -/
theorem returnsTo_of_environment (hgoing : state.finished = false)
    (hget : machine.program.code[state.pc]? = some instruction)
    (hopcode : instruction.opcode = .leave)
    (henvironment : Exec.environment state.stack = .ok environment) :
    machine.ReturnsTo state instruction environment := by
  have hrun : (machine.execute instruction).run (fetched state instruction) =
      .ok (.jump environment.returnTo)
        (Exec.restore (fetched state instruction) environment) := by
    have hleave := Exec.run_leave (fetched state instruction)
    have hfetched : Exec.environment (fetched state instruction).stack = .ok environment :=
      henvironment
    rw [hfetched] at hleave
    rw [run_execute_of_ok (decode_leave _ hopcode)]
    exact Exec.run_bind_of_ok hleave
  rw [ReturnsTo]
  by_cases htarget : environment.returnTo ≤ machine.program.code.size
  · rw [if_pos htarget]
    exact step_of_jump hgoing hget hrun htarget
  · rw [if_neg htarget]
    exact step_of_astray hgoing hget hrun (Nat.lt_of_not_le htarget)

/-- An environment that cannot be read is not restored. -/
theorem refusesReturn_of_environment (hgoing : state.finished = false)
    (hget : machine.program.code[state.pc]? = some instruction)
    (hopcode : instruction.opcode = .leave) {fault : Fault}
    (henvironment : Exec.environment state.stack = .error fault) :
    machine.RefusesReturn state instruction :=
  ⟨fault, Exec.environment_raises _ fault henvironment,
    step_of_refused hgoing hget (.leave (decode_leave state hopcode) henvironment)⟩

/-- A step that restores an environment reports no fault of an environment. -/
theorem ReturnsTo.not_refusesReturn (h : machine.ReturnsTo state instruction environment) :
    ¬ machine.RefusesReturn state instruction := by
  rintro ⟨fault, hkind, hstep⟩
  rw [ReturnsTo, hstep] at h
  split at h
  · cases h
  · have htrap := congrArg Prod.fst h
    cases htrap
    exact hkind

/-! ## The statement -/

variable {stackSize : Nat} {start : State} {console : Console} {log : Log}

/-- A return is refused exactly if no environment is read above the frame; else it is carried out.
Where no call is open, what is read are the last three globals. -/
theorem return_without_call (machine : Machine) (hlibrary : machine.library = .standard)
    (hsize : stackSize ≤ 2 ^ 53) (hstart : machine.start stackSize console log = .ok start) (n : Nat)
    (hget : machine.program.code[(machine.stateAfter start n).pc]? = some instruction)
    (hopcode : instruction.opcode = .leave) :
    (machine.RefusesReturn (machine.stateAfter start n) instruction ↔
      ∀ environment, ¬ (machine.stateAfter start n).stack.HoldsEnvironment environment) ∧
    (∀ environment, (machine.stateAfter start n).stack.HoldsEnvironment environment →
      machine.ReturnsTo (machine.stateAfter start n) instruction environment) ∧
    (machine.Succeeds start n → machine.Respects start n →
      (machine.callsAfter start n).activations = [] →
      (machine.callsAfter start n).entering = none →
      ∀ environment, (machine.stateAfter start n).stack.HoldsEnvironment environment ↔
        (machine.stateAfter start n).GlobalsHold machine.program.globals environment) := by
  have hsound := (reachable_stateAfter hstart n).sound hlibrary
  have hdescribes (hsucceeds : machine.Succeeds start n) (hrespects : machine.Respects start n) :=
    (disciplined_stateAfter hlibrary hstart hsucceeds hrespects).describes hlibrary hsize
  generalize machine.stateAfter start n = state at hget hsound hdescribes ⊢
  generalize machine.callsAfter start n = calls at hdescribes ⊢
  -- A finished machine stands behind its code, where there is no instruction.
  have hgoing : state.finished = false := by
    by_contra hfinished
    have hend := hsound.at_end (Bool.not_eq_false _ ▸ hfinished)
    rw [Array.getElem?_eq_none (Nat.le_of_eq hend.symm)] at hget
    cases hget
  have hsmall : state.stack.frame + 4 < UInt64.size := by
    have hframe := hsound.frame_lt
    have hbound : (2 : Nat) ^ 53 + 4 < UInt64.size := by decide
    omega
  have hiff (environment : Exec.Environment) :=
    @Stack.environment_eq_ok_iff state.stack hsmall environment
  have hreturns (environment : Exec.Environment)
      (h : state.stack.HoldsEnvironment environment) :
      machine.ReturnsTo state instruction environment :=
    returnsTo_of_environment hgoing hget hopcode ((hiff environment).2 h)
  refine ⟨⟨?_, ?_⟩, hreturns, ?_⟩
  · intro hrefuses environment hholds
    exact (hreturns environment hholds).not_refusesReturn hrefuses
  · intro hnone
    cases henvironment : Exec.environment state.stack with
    | error fault => exact refusesReturn_of_environment hgoing hget hopcode henvironment
    | ok environment => exact absurd ((hiff environment).1 henvironment) (hnone environment)
  · intro hsucceeds hrespects hactivations hentering environment
    -- With no call open the frame is the outermost one, which ends below the globals.
    have h := hdescribes hsucceeds hrespects
    have hframe := (h.rests hentering).frame_eq
    have houtermost := h.outermost_eq
    rw [CallStack.frame, hactivations] at hframe
    change state.stack.frame = calls.outermost at hframe
    refine State.holdsEnvironment_iff ?_ environment
    have hsizeEq := hsound.size_eq
    omega

/-- A machine that stores an environment in its globals and returns, without any call. -/
def forger : Machine where
  program := {
    numbers := #[Number.ofNat 5, Number.ofNat 15, Number.ofNat 12]
    code := #[⟨.assign, ⟨.global, 0⟩, ⟨.number, 0⟩, .absent, 1⟩,
      ⟨.assign, ⟨.global, 1⟩, ⟨.number, 1⟩, .absent, 1⟩,
      ⟨.assign, ⟨.global, 2⟩, ⟨.number, 2⟩, .absent, 1⟩,
      ⟨.leave, .absent, .absent, .absent, 2⟩, ⟨.nop, .absent, .absent, .absent, 3⟩]
    globals := 3 }

def forgerStart : State := { stack := ⟨Array.replicate 16 .undefined, 12, 12, 3⟩ }

/-- What `forger` stores is read as an environment, and restored. -/
theorem return_without_call_forger :
    forger.start 16 {} {} = .ok forgerStart ∧
      (forger.stateAfter forgerStart 3).GlobalsHold 3 ⟨15, 12, 5⟩ ∧
      forger.ReturnsTo (forger.stateAfter forgerStart 3) ⟨.leave, .absent, .absent, .absent, 2⟩
        ⟨15, 12, 5⟩ := by
  have hsize : 16 ≤ 2 ^ 53 := by decide
  have hget : forger.program.code[(forger.stateAfter forgerStart 3).pc]? =
      some ⟨.leave, .absent, .absent, .absent, 2⟩ := by decide +kernel
  have hholds : (forger.stateAfter forgerStart 3).GlobalsHold 3 ⟨15, 12, 5⟩ := by
    constructor <;> decide +kernel
  have hreturns := return_without_call forger rfl hsize rfl 3 hget rfl
  have hread := (hreturns.2.2 (by decide +kernel) (by decide +kernel) (by decide +kernel)
    (by decide +kernel) ⟨15, 12, 5⟩).2 hholds
  exact ⟨rfl, hholds, hreturns.2.1 _ hread⟩

/-- Not every return without a call is refused: `forger` has called nothing, and its return raises no
fault and moves the top over its globals and the place in the code to the end. -/
theorem forger_returns :
    forger.start 16 {} {} = .ok forgerStart ∧ forger.Succeeds forgerStart 3 ∧
      forger.Respects forgerStart 3 ∧ forger.callsAfter forgerStart 3 = ⟨12, [], none, 0⟩ ∧
      (forger.program.code[(forger.stateAfter forgerStart 3).pc]?).map Instruction.opcode =
        some .leave ∧
      (forger.step (forger.stateAfter forgerStart 3)).1 = .running ∧
      (forger.stateAfter forgerStart 3).stack.top = 12 ∧ (forger.stateAfter forgerStart 3).pc = 3 ∧
      (forger.stateAfter forgerStart 4).stack.top = 15 ∧
      (forger.stateAfter forgerStart 4).pc = 5 := by
  refine ⟨rfl, ?_, ?_, ?_, ?_, ?_, ?_, ?_, ?_, ?_⟩
  all_goals decide +kernel

end Machine
end CellMachine
