import Mathlib
import CellMachine.Proofs.Machine.Calls
import CellMachine.Proofs.Machine.Step

/-!
# Frames

The array of cells implements a call stack.  A run is disciplined if its instructions name variables
that are there, enter functions by calls only, and leave a function when no arguments are pending;
`Machine.Disciplined` pairs the states of such a run with the list of open calls.  In every state of
it the pointers and the saved words are those of the list: `Machine.implements_of_disciplined`.

The invariant has two forms.  `CallStack.Rests` holds while an activation executes,
`CallStack.Enters` in the one state between a call and the entry of its function.  Both say that no
word of an open call is written: variables lie between the environments, and what is pushed lies
below all of them.
-/

namespace CellMachine

open Activation

/-! ## Invariants -/

/-- What holds of the cells of a machine with open activations, whatever its pointers are. -/
structure Activation.LaidOut (outermost : Nat) (activations : List Activation) (size : Nat)
    (state : State) : Prop where
  size_eq : state.stack.size = size
  outermost_eq : outermost + state.stack.globals + 1 = size
  nested : Nested outermost activations
  held : ∀ activation ∈ activations, activation.HeldBy state.stack

namespace Activation.LaidOut

variable {outermost size : Nat} {activations : List Activation} {state state' : State}

/-- The layout depends on the cells with the words of the open calls only. -/
theorem of_agree (h : LaidOut outermost activations size state)
    (hsize : state'.stack.size = state.stack.size)
    (hglobals : state'.stack.globals = state.stack.globals)
    (hread : ∀ address, IsWord activations address →
      state'.stack.read address = state.stack.read address) :
    LaidOut outermost activations size state' := by
  refine ⟨hsize.trans h.size_eq, hglobals ▸ h.outermost_eq, h.nested, ?_⟩
  intro activation hmem word
  rw [hread _ ⟨activation, hmem, word, rfl⟩]
  exact h.held activation hmem word

/-- The frame of the innermost activation lies in the stack. -/
theorem frame_lt (h : LaidOut outermost activations size state) :
    frameOf outermost activations < size := by
  have hle := h.nested.isWord_bounds.1
  have := h.outermost_eq
  omega

/-- The base of the innermost activation lies in the stack. -/
theorem base_lt (h : LaidOut outermost activations size state) :
    baseOf outermost activations < size := by
  have hle := h.nested.isWord_bounds.2.1
  have := h.outermost_eq
  omega

end Activation.LaidOut

namespace CallStack

structure Rests (calls : CallStack) (size : Nat) (state : State) : Prop extends
    LaidOut calls.outermost calls.activations size state where
  entering_eq : calls.entering = none
  frame_eq : state.stack.frame = calls.frame
  pending_eq : state.pending = calls.pushed
  top_eq : state.stack.top + state.pending = calls.base

structure Enters (calls : CallStack) (size : Nat) (state : State) (call : Call) : Prop extends
    LaidOut calls.outermost calls.activations size state where
  entering_eq : calls.entering = some call
  pushed_eq : calls.pushed = 0
  made : call.From calls.frame calls.base
  call_held : call.HeldBy state.stack
  top_eq : state.stack.top = call.frame

variable {calls : CallStack} {size : Nat} {state state' : State}

/-- What keeps the registers and the saved words keeps the activations. -/
theorem Rests.of_agree (h : calls.Rests size state)
    (hregisters : state'.registers = state.registers)
    (hread : ∀ address, IsWord calls.activations address →
      state'.stack.read address = state.stack.read address) : calls.Rests size state' := by
  simp only [State.registers, Registers.mk.injEq] at hregisters
  rcases hregisters with ⟨hsize, hglobals, htop, hframe, -, hpending, -⟩
  refine ⟨h.toLaidOut.of_agree hsize hglobals hread, h.entering_eq, hframe ▸ h.frame_eq,
    hpending ▸ h.pending_eq, ?_⟩
  rw [htop, hpending]
  exact h.top_eq

/-- What is pushed lies below the words of the open calls. -/
theorem Rests.lt_of_isWord (h : calls.Rests size state) {address : Nat}
    (hword : IsWord calls.activations address) : state.stack.top + state.pending < address :=
  h.top_eq ▸ (h.nested.isWord_bounds.2.2 address hword).1

/-- The frame and the base lie in the stack. -/
theorem Rests.pointer_bounds (h : calls.Rests size state) :
    state.stack.frame < state.stack.size ∧
      state.stack.top + state.pending < state.stack.size := by
  rw [h.frame_eq, h.top_eq, h.size_eq]
  exact ⟨h.frame_lt, h.base_lt⟩

/-- A variable that is there is not a word of an open call. -/
theorem Rests.not_isWord (h : calls.Rests size state) {operand : Operand} {address : Nat}
    (hrange : calls.InRange state.stack.globals operand)
    (hplace : state.place operand = .ok (.slot address)) :
    ¬ IsWord calls.activations address := by
  intro hword
  have houtermost := h.outermost_eq
  have hsize := h.size_eq
  have hframe : state.stack.frame = frameOf calls.outermost calls.activations := h.frame_eq
  have hbounds := h.nested.isWord_bounds.2.2 address hword
  rcases (state.place_yields operand).ok hplace address rfl with ⟨haddress, -, -⟩
  rw [InRange] at hrange
  rcases haddress with ⟨hkind, haddress⟩ | ⟨hkind, haddress⟩ | ⟨hkind, haddress⟩
  · -- Globals lie above the outermost base, and words do not.
    simp only [hkind] at hrange
    omega
  · -- Locals lie between the base and the frame of the innermost activation.
    simp only [hkind, localSize] at hrange
    split at hrange
    · cases hrange
    · rename_i activation rest hlist
      have hcases := (hlist ▸ h.nested).isWord_cons (hlist ▸ hword)
      rw [hlist, frameOf] at hframe
      omega
  · -- Arguments lie between the words of the innermost activation and the base of its caller.
    simp only [hkind, actuals] at hrange
    split at hrange
    · cases hrange
    · rename_i activation rest hlist
      have hcases := (hlist ▸ h.nested).isWord_cons (hlist ▸ hword)
      rw [hlist, frameOf] at hframe
      omega

/-! ## Writes -/

/-- A write to a place that is no word of an open call, without anything else. -/
theorem Rests.overwrite (h : calls.Rests size state) {place : Place}
    (hplace : ∀ address, place = .slot address → ¬ IsWord calls.activations address)
    (cell : Cell) : calls.Rests size (state.overwrite place cell) := by
  refine h.of_agree (state.registers_overwrite place cell) ?_
  intro address hword
  exact state.read_overwrite_of_ne cell fun heq => hplace address heq hword

theorem Rests.checkDefined (h : calls.Rests size state) (cell : Cell) :
    calls.Rests size (state.checkDefined cell) := by
  refine h.of_agree (state.registers_checkDefined cell) ?_
  intro address _
  rw [state.stack_checkDefined]

/-- A pushed argument lies at the base of the next activation, below all words. -/
theorem Rests.push (h : calls.Rests size state) {cell : Cell}
    (hrun : (Exec.pushArgument cell).run state = .ok () state') :
    CallStack.Rests { calls with pushed := calls.pushed + 1 } size state' := by
  rcases Exec.run_pushArgument_ok hrun with ⟨hregisters, hpos, hread⟩
  simp only [State.registers, Registers.mk.injEq] at hregisters
  rcases hregisters with ⟨hsize, hglobals, htop, hframe, -, hpending, -⟩
  have htopEq := h.top_eq
  refine ⟨h.toLaidOut.of_agree hsize hglobals fun address hword => hread address ?_,
    h.entering_eq, hframe ▸ h.frame_eq, ?_, ?_⟩
  · have := h.lt_of_isWord hword
    omega
  · rw [hpending, h.pending_eq]
  · change state'.stack.top + state'.pending = calls.base
    omega

/-! ## Calls -/

/-- The next call is made from the innermost activation. -/
theorem Rests.call_eq (h : calls.Rests size state) : state.call = calls.call state.pc := by
  rw [State.call, CallStack.call, h.frame_eq, h.top_eq, h.pending_eq]

/-- A call saves the frame and the base of the innermost activation. -/
theorem Rests.callUser (h : calls.Rests size state)
    (hrun : Exec.saveEnvironment.run state = .ok () state') :
    CallStack.Enters { calls with entering := some (calls.call state.pc), pushed := 0 } size state'
      (calls.call state.pc) := by
  have htopEq := h.top_eq
  have htop := Nat.lt_of_le_of_lt (Nat.le_add_right _ _) h.pointer_bounds.2
  rcases Exec.saveEnvironment_saves htop hrun with ⟨hroom, hregisters, hheld, hread⟩
  rw [h.call_eq] at hheld hregisters
  refine ⟨h.toLaidOut.of_agree (congrArg Registers.size hregisters)
    (congrArg Registers.globals hregisters) fun address hword => hread address ?_,
    rfl, rfl, ⟨rfl, rfl, ?_⟩, hheld, congrArg Registers.top hregisters⟩
  · have := h.lt_of_isWord hword
    omega
  · change Stack.environmentSize + calls.pushed ≤ calls.base
    rw [← htopEq, h.pending_eq]
    omega

/-- Moving the frame to the top and the top below the locals opens the activation of a call. -/
theorem Enters.opened {call : Call} (h : calls.Enters size state call) {localSize : Nat}
    (hregisters : state'.registers = { state.registers with
      frame := state.stack.top, top := state.stack.top - localSize, pending := 0 })
    (hle : localSize ≤ state.stack.top)
    (hread : ∀ address, state'.stack.read address = state.stack.read address) :
    CallStack.Rests { calls with
      activations := ⟨call, localSize⟩ :: calls.activations, entering := none } size state' := by
  simp only [State.registers, Registers.mk.injEq] at hregisters
  rcases hregisters with ⟨hsize, hglobals, htop, hframe, -, hpending, -⟩
  have hread' : state'.stack.read = state.stack.read := funext hread
  refine ⟨⟨hsize.trans h.size_eq, hglobals ▸ h.outermost_eq, ?_, ?_⟩, rfl, ?_, ?_, ?_⟩
  · exact .cons h.made (h.top_eq ▸ hle) h.nested
  · intro activation hmem word
    rw [hread']
    rcases List.mem_cons.1 hmem with rfl | hmem
    · exact h.call_held word
    · exact h.held activation hmem word
  · exact hframe.trans h.top_eq
  · rw [hpending, h.pushed_eq]
  · rw [htop, hpending, h.top_eq]
    rfl

/-- Entering a function opens its activation. -/
theorem Enters.enter {call : Call} (h : calls.Enters size state call) {name : String}
    {localSize : Nat} (hrun : (Exec.enter name localSize).run state = .ok () state') :
    CallStack.Rests { calls with
      activations := ⟨call, localSize⟩ :: calls.activations, entering := none } size state' := by
  rcases Exec.run_enter_ok hrun with ⟨hregisters, hle, hread⟩
  exact h.opened hregisters hle hread

/-- Leaving a function restores its caller, whatever is pending, and goes on after the call. -/
theorem Rests.leave_restores (h : calls.Rests size state) (hsize : size ≤ 2 ^ 53)
    {activation : Activation} {rest : List Activation}
    (hlist : calls.activations = activation :: rest) {target : Nat}
    (hrun : Exec.leave.run state = .ok target state') :
    Exec.Restores activation.toCall state state' ∧
      (activation.callPc + 1 ≤ 2 ^ 53 → target = activation.callPc + 1) := by
  have hmem : activation ∈ calls.activations := hlist ▸ List.mem_cons_self ..
  have hframe : state.stack.frame = activation.frame := by
    rw [h.frame_eq, CallStack.frame, hlist, frameOf]
  have houtermost := h.outermost_eq
  have hsizeEq := h.size_eq
  rcases h.nested.caller_bounds hmem with ⟨hadd, hcallerBase, hcallerFrame⟩
  exact Exec.leave_restores (hsizeEq ▸ hsize)
    (show activation.frame + 4 < state.stack.size by omega) hframe (h.held activation hmem)
    (by omega) (by omega) hrun

/-- Leaving a function closes its activation and goes on after the call. -/
theorem Rests.leave (h : calls.Rests size state) (hsize : size ≤ 2 ^ 53)
    {activation : Activation} {rest : List Activation}
    (hlist : calls.activations = activation :: rest) (hpushed : calls.pushed = 0) {target : Nat}
    (hrun : Exec.leave.run state = .ok target state') :
    CallStack.Rests { calls with activations := rest } size state' ∧
      (activation.callPc + 1 ≤ 2 ^ 53 → target = activation.callPc + 1) := by
  obtain ⟨hrestores, htarget⟩ := h.leave_restores hsize hlist hrun
  refine ⟨?_, htarget⟩
  rcases hrestores with ⟨hregisters, hread⟩
  simp only [State.registers, Registers.mk.injEq] at hregisters
  rcases hregisters with ⟨hsize', hglobals, htop, hcaller, -, hpending, -⟩
  cases hlist ▸ h.nested with
  | cons hcall hlocals hrest =>
      -- What is cleared lies below the base of the caller, and the older words above it.
      have hheld : ∀ other ∈ rest, other.HeldBy state.stack := fun other hmem =>
        h.held other (hlist ▸ List.mem_cons_of_mem _ hmem)
      refine ⟨⟨hsize'.trans h.size_eq, hglobals ▸ h.outermost_eq, hrest, ?_⟩, h.entering_eq,
        ?_, ?_, ?_⟩
      · intro other hmem word
        rw [hread _ ?_]
        · exact hheld other hmem word
        · rw [hcall.base_eq]
          exact (hrest.isWord_bounds.2.2 _ ⟨other, hmem, word, rfl⟩).1
      · rw [hcaller, hcall.frame_eq]
        rfl
      · rw [hpending]
        exact h.pending_eq
      · rw [htop, hpending, h.pending_eq, hpushed, hcall.base_eq]
        rfl

/-- A call of a library function is over when its instruction is. -/
theorem Rests.callLibrary (h : calls.Rests size state) (hsize : size ≤ 2 ^ 53) {name : String}
    {function : Exec Unit} (hfunction : Exec.LeavesStack function) {target : Nat}
    (hrun : (Exec.callLibrary name function).run state = .ok target state') :
    CallStack.Rests { calls with pushed := 0 } size state' := by
  obtain ⟨hframe, hbase⟩ := h.pointer_bounds
  rcases Exec.callLibrary_restores hfunction (h.size_eq ▸ hsize) hframe hbase hrun with
    ⟨hregisters, hread⟩
  simp only [State.registers, Registers.mk.injEq] at hregisters
  rcases hregisters with ⟨hsize', hglobals, htop, hframe', -, hpending, -⟩
  refine ⟨h.toLaidOut.of_agree hsize' hglobals fun address hword => hread address ?_,
    h.entering_eq, hframe' ▸ h.frame_eq, hpending, ?_⟩
  · exact h.lt_of_isWord hword
  · rw [htop, hpending, h.top_eq]
    rfl

/-! ## Actions -/

variable {machine : Machine} {instruction : Instruction} {action : Action} {flow : Flow}

/-- An instruction that respects the open calls goes on in the innermost activation, or calls a
function and goes on at its first instruction. -/
theorem Rests.perform (hlibrary : machine.library.LeavesStacks) (hsize : size ≤ 2 ^ 53)
    (h : calls.Rests size state) (hdecoded : machine.Decoded state instruction action)
    (hallows : calls.Allows state.stack.globals instruction)
    (hrun : (Exec.perform action).run state = .ok flow state') :
    (calls.advance state.pc action).Rests size state' ∨
      ∃ call target, (calls.advance state.pc action).Enters size state' call ∧
        flow = .jump target ∧ machine.program.startsFunction target := by
  -- A variable that is there is no word of an environment, so what is written keeps all of those.
  have hresult := hallows.operands h.entering_eq instruction.result (by simp)
  have hfirst := hallows.operands h.entering_eq instruction.first (by simp)
  cases hdecoded with
  | skip =>
      cases hrun
      exact .inl h
  | jump target hopcode =>
      cases hrun
      exact .inl h
  | store hplace hcell =>
      cases hrun
      exact .inl (h.overwrite (fun _ heq => h.not_isWord hresult (heq ▸ hplace)) _)
  | copy hplace hcell =>
      cases hrun
      refine .inl ((h.checkDefined _).overwrite (fun _ heq => ?_) _)
      exact h.not_isWord hresult (heq ▸ hplace)
  | create hplace =>
      cases hrun
      have hcreated : calls.Rests size (state.createTable []).2 :=
        h.of_agree (state.registers_createTable []) fun _ _ => by rw [state.stack_createTable]
      exact .inl (hcreated.overwrite (fun _ heq => h.not_isWord hfirst (heq ▸ hplace)) _)
  | insert hid hcell =>
      cases hrun
      refine .inl (h.of_agree (state.registers_insertEntry _ _ _) fun _ _ => ?_)
      rw [state.stack_insertEntry]
  | push hcell =>
      rcases Exec.run_bind_ok hrun with ⟨⟨⟩, between, hpush, hrun⟩
      cases hrun
      exact .inl (h.push hpush)
  | callUser hopcode hstart =>
      rcases Exec.run_bind_ok hrun with ⟨⟨⟩, between, hcall, hrun⟩
      cases hrun
      rcases Exec.run_bind_ok hcall with ⟨⟨⟩, reported, hreport, hsave⟩
      cases hreport
      have hreported (event : Event) : calls.Rests size (state.report event) :=
        h.of_agree rfl fun _ _ => rfl
      exact .inr ⟨_, _, (hreported _).callUser hsave, rfl, hstart⟩
  | callLibrary hopcode hfind =>
      rcases Exec.run_bind_ok hrun with ⟨target, between, hcall, hrun⟩
      cases hrun
      exact .inl (h.callLibrary hsize (hlibrary _ _ hfind) hcall)
  -- An entry needs a call that waits for it, and here none does.
  | enter name localSize hopcode => exact absurd h.entering_eq (hallows.enter hopcode)
  | leave hopcode =>
      rcases Exec.run_bind_ok hrun with ⟨target, between, hleave, hrun⟩
      cases hrun
      rcases hallows.leave hopcode with ⟨hopen, hpushed⟩
      rcases List.exists_cons_of_ne_nil hopen with ⟨activation, rest, hlist⟩
      refine .inl ?_
      rw [advance, hlist]
      exact (h.leave hsize hlist hpushed hleave).1

/-- The first instruction of a called function enters it. -/
theorem Enters.perform {call : Call} (h : calls.Enters size state call) {name : String}
    {localSize : Nat} (hrun : (Exec.perform (.enter name localSize)).run state = .ok flow state') :
    (calls.advance state.pc (.enter name localSize)).Rests size state' := by
  rcases Exec.run_bind_ok hrun with ⟨⟨⟩, between, henter, hrun⟩
  cases hrun
  rw [advance, h.entering_eq]
  exact h.enter henter

/-! ## Steps -/

/-- What a call stack says of the state of a machine, also between a call and its entry. -/
structure Describes (calls : CallStack) (machine : Machine) (size : Nat) (state : State) :
    Prop where
  outermost_eq : calls.outermost + machine.program.globals + 1 = size
  pointers : calls.Rests size state ∨
    ∃ call, calls.Enters size state call ∧ machine.program.startsFunction state.pc

/-- Outside of a call that waits for its entry an activation executes. -/
theorem Describes.rests {machine : Machine} (h : calls.Describes machine size state)
    (hentered : calls.entering = none) : calls.Rests size state := by
  rcases h.pointers with hrests | ⟨call, henters, -⟩
  · exact hrests
  · cases hentered.symm.trans henters.entering_eq

/-- No action moves the outermost base. -/
theorem advance_outermost (calls : CallStack) (pc : Nat) (action : Action) :
    (calls.advance pc action).outermost = calls.outermost := by
  cases action with
  | enter name localSize =>
      rw [advance]
      split <;> rfl
  | _ => rfl

/-- Neither the place in the code nor the log matters to an activation that executes. -/
theorem Rests.moved (h : calls.Rests size state) (pc : Nat) (finished : Bool) (log : Log) :
    calls.Rests size { state with pc := pc, finished := finished, log := log } :=
  ⟨⟨h.size_eq, h.outermost_eq, h.nested, h.held⟩, h.entering_eq, h.frame_eq, h.pending_eq,
    h.top_eq⟩

theorem Enters.moved {call : Call} (h : calls.Enters size state call) (pc : Nat) (finished : Bool)
    (log : Log) :
    calls.Enters size { state with pc := pc, finished := finished, log := log } call :=
  ⟨⟨h.size_eq, h.outermost_eq, h.nested, h.held⟩, h.entering_eq, h.pushed_eq, h.made, h.call_held,
    h.top_eq⟩

end CallStack

/-! ## Runs -/

namespace Machine

/-- A step that goes on has an instruction, which is decoded to an action. -/
theorem exists_decode_of_running {machine : Machine} {state : State}
    (h : (machine.step state).1 = .running) : ∃ instruction action,
      machine.program.code[state.pc]? = some instruction ∧
        machine.decode state instruction = .ok action := by
  have hdecoded {instruction : Instruction} {flow : Flow} {after : State}
      (hget : machine.program.code[state.pc]? = some instruction)
      (hrun : (machine.execute instruction).run (fetched state instruction) = .ok flow after) :
      ∃ instruction action, machine.program.code[state.pc]? = some instruction ∧
        machine.decode state instruction = .ok action := by
    rcases Exec.run_bind_ok hrun with ⟨action, between, hdecide, -⟩
    exact ⟨instruction, action, hget, (Exec.run_decide_ok hdecide).1⟩
  generalize hafter : machine.step state = outcome at h
  cases hafter ▸ machine.step_outcome state with
  | next hgoing hget hrun => exact hdecoded hget hrun
  | jump hgoing hget hrun htarget => exact hdecoded hget hrun
  | _ => cases h

/-- A step that goes on performs the action that its instruction is decoded to. -/
theorem step_running {machine : Machine} {state : State} (h : (machine.step state).1 = .running)
    {instruction : Instruction} (hget : machine.program.code[state.pc]? = some instruction)
    {action : Action} (hdecode : machine.decode state instruction = .ok action) :
    ∃ flow after, (Exec.perform action).run (fetched state instruction) = .ok flow after ∧
      (flow = .next ∧ (machine.step state).2 = { after with pc := after.pc + 1 } ∨
        ∃ target, flow = .jump target ∧ (machine.step state).2 = { after with pc := target }) := by
  have hperform {flow : Flow} {after : State} {other : Instruction}
      (hother : machine.program.code[state.pc]? = some other)
      (hrun : (machine.execute other).run (fetched state other) = .ok flow after) :
      (Exec.perform action).run (fetched state instruction) = .ok flow after := by
    cases hget.symm.trans hother
    rcases Exec.run_bind_ok hrun with ⟨action', between, hdecided, hrun⟩
    rcases Exec.run_decide_ok hdecided with ⟨haction, rfl⟩
    cases hdecode.symm.trans haction
    exact hrun
  generalize hafter : machine.step state = outcome at h ⊢
  cases hafter ▸ machine.step_outcome state with
  | next hgoing hother hrun => exact ⟨_, _, hperform hother hrun, .inl ⟨rfl, rfl⟩⟩
  | jump hgoing hother hrun htarget => exact ⟨_, _, hperform hother hrun, .inr ⟨_, rfl, rfl⟩⟩
  | _ => cases h

/-- The states of a disciplined run of successful steps, with the open calls in each of them. -/
inductive Disciplined (machine : Machine) (stackSize : Nat) : State → CallStack → Prop
  | start {console : Console} {log : Log} {state : State}
      (h : machine.start stackSize console log = .ok state) :
      machine.Disciplined stackSize state ⟨stackSize - 1 - machine.program.globals, [], none, 0⟩
  | step {state : State} {calls : CallStack} {instruction : Instruction} {action : Action}
      (h : machine.Disciplined stackSize state calls)
      (hget : machine.program.code[state.pc]? = some instruction)
      (hallows : calls.Allows machine.program.globals instruction)
      (hdecode : machine.decode state instruction = .ok action)
      (hrunning : (machine.step state).1 = .running) :
      machine.Disciplined stackSize (machine.step state).2 (calls.advance state.pc action)
  | finish {state : State} {calls : CallStack} (h : machine.Disciplined stackSize state calls)
      (hfinished : (machine.step state).1 = .finished) :
      machine.Disciplined stackSize (machine.step state).2 calls

open CallStack

variable {machine : Machine} {stackSize : Nat} {state : State} {calls : CallStack}

/-- At the start no call is open. -/
theorem start_describes {console : Console} {log : Log}
    (h : machine.start stackSize console log = .ok state) :
    CallStack.Describes ⟨stackSize - 1 - machine.program.globals, [], none, 0⟩ machine stackSize
      state := by
  simp only [start, Stack.create] at h
  split at h
  · cases h
  · rename_i hroom
    cases h
    -- There is room for the globals, so the outermost base lies below them.
    have heq : stackSize - 1 - machine.program.globals + machine.program.globals + 1 =
        stackSize := by
      omega
    refine ⟨heq, .inl ⟨⟨Array.size_replicate, heq, .nil, ?_⟩, rfl, rfl, rfl, rfl⟩⟩
    exact fun activation hmem => nomatch hmem

/-- A step of a disciplined run. -/
theorem step_describes (hlibrary : machine.library.LeavesStacks) (hsize : stackSize ≤ 2 ^ 53)
    (h : calls.Describes machine stackSize state) {instruction : Instruction} {action : Action}
    (hget : machine.program.code[state.pc]? = some instruction)
    (hallows : calls.Allows machine.program.globals instruction)
    (hdecode : machine.decode state instruction = .ok action)
    (hrunning : (machine.step state).1 = .running) :
    (calls.advance state.pc action).Describes machine stackSize (machine.step state).2 := by
  rcases step_running hrunning hget hdecode with ⟨flow, after, hrun, hafter⟩
  have hmoved (hrests : (calls.advance state.pc action).Rests stackSize after) :
      (calls.advance state.pc action).Rests stackSize (machine.step state).2 := by
    rcases hafter with ⟨-, hafter⟩ | ⟨target, -, hafter⟩
    · exact hafter ▸ hrests.moved _ _ _
    · exact hafter ▸ hrests.moved _ _ _
  refine ⟨by rw [advance_outermost]; exact h.outermost_eq, ?_⟩
  -- Either an activation executes, or a call waits for the first instruction of its function.
  rcases h.pointers with hrests | ⟨call, henters, hstart⟩
  · have hfetched : calls.Rests stackSize (fetched state instruction) := hrests.moved _ _ _
    -- The count of globals in the stack is the one of the program, as it was at the start.
    have hglobals : state.stack.globals = machine.program.globals := by
      have h₁ := h.outermost_eq
      have h₂ := hrests.outermost_eq
      omega
    have hdecoded := (machine.decode_yields (fetched state instruction) instruction).ok hdecode
    rcases hfetched.perform hlibrary hsize hdecoded (hglobals ▸ hallows) hrun with
      hrests' | ⟨call, target, henters, rfl, hstart⟩
    · exact .inl (hmoved hrests')
    · rcases hafter with ⟨hflow, -⟩ | ⟨target', hflow, hafter⟩
      · cases hflow
      · cases hflow
        exact .inr ⟨call, hafter ▸ henters.moved _ _ _, hafter ▸ hstart⟩
  · -- The machine is where a function starts, so the instruction enters one.
    have hopcode := opcode_of_startsFunction hget hstart
    rcases machine.decode_enter state hopcode hdecode with ⟨name, localSize, rfl⟩
    have hfetched : calls.Enters stackSize (fetched state instruction) call := henters.moved _ _ _
    exact .inl (hmoved (hfetched.perform hrun))

/-- In a disciplined run the cells implement the open calls, whatever functions the library has that
leave the stack alone. -/
theorem Disciplined.describes_of_leavesStacks (hlibrary : machine.library.LeavesStacks)
    (hsize : stackSize ≤ 2 ^ 53) (h : machine.Disciplined stackSize state calls) :
    calls.Describes machine stackSize state := by
  induction h with
  | start h => exact start_describes h
  | step _ hget hallows hdecode hrunning ih =>
      exact step_describes hlibrary hsize ih hget hallows hdecode hrunning
  | @finish state calls _ hfinished ih =>
      generalize hafter : machine.step state = outcome at hfinished ⊢
      cases hafter ▸ machine.step_outcome state with
      | finished => exact ih
      | finishes hgoing hend =>
          -- At the end of the code only the log and the mark of the end change.
          refine ⟨ih.outermost_eq, ih.pointers.imp (fun h => h.moved _ _ _) ?_⟩
          rintro ⟨call, henters, hstart⟩
          exact ⟨call, henters.moved _ _ _, hstart⟩
      | _ => cases hfinished

/-- The open calls of a disciplined run say where its cells and pointers are. -/
theorem Disciplined.describes (hlibrary : machine.library = .standard) (hsize : stackSize ≤ 2 ^ 53)
    (h : machine.Disciplined stackSize state calls) :
    calls.Describes machine stackSize state :=
  h.describes_of_leavesStacks (hlibrary ▸ Library.standard_leavesStacks) hsize

/-! ## The statement -/

/-- The cells of a state implement the open calls. -/
structure Implements (machine : Machine) (stackSize : Nat) (state : State) (calls : CallStack) :
    Prop where
  /-- The top lies as far below the base as arguments are pending. -/
  top_eq : state.stack.top + state.pending = calls.base
  pending_eq : state.pending = calls.pushed
  frame_eq : state.stack.frame = calls.frame
  /-- The outermost base is the top with which the machine started. -/
  outermost_eq : calls.outermost = stackSize - 1 - machine.program.globals
  /-- Every activation was called from the frame and the base of the next older one. -/
  nested : Activation.Nested calls.outermost calls.activations
  /-- The environments hold the words of the open calls as the numbers nearest to them. -/
  held : ∀ activation ∈ calls.activations, activation.HeldBy state.stack
  /-- These words are read back exactly; a place in the code is exact up to `2 ^ 53`. -/
  words : ∀ activation ∈ calls.activations,
    state.stack.word activation.frame 1 = .ok activation.callerFrame ∧
      state.stack.word activation.frame 2 = .ok activation.callerBase ∧
      (activation.callPc + 1 ≤ 2 ^ 53 →
        state.stack.word activation.frame 3 = .ok (activation.callPc + 1)) ∧
      state.stack.word activation.frame 4 = .ok activation.actuals
  /-- Leaving the innermost activation restores its caller and goes on after the call. -/
  returns : ∀ activation rest instruction, calls.activations = activation :: rest →
    calls.pushed = 0 → machine.program.code[state.pc]? = some instruction →
    instruction.opcode = .leave → (machine.step state).1 = .running →
    (machine.step state).2.stack.frame = activation.callerFrame ∧
      (machine.step state).2.stack.top = activation.callerBase ∧
      (activation.callPc + 1 ≤ 2 ^ 53 → (machine.step state).2.pc = activation.callPc + 1)

/-- The words of an open call are read back. -/
theorem words_of_rests (hsize : stackSize ≤ 2 ^ 53) (h : calls.Rests stackSize state)
    {activation : Activation} (hmem : activation ∈ calls.activations) :
    state.stack.word activation.frame 1 = .ok activation.callerFrame ∧
      state.stack.word activation.frame 2 = .ok activation.callerBase ∧
      (activation.callPc + 1 ≤ 2 ^ 53 →
        state.stack.word activation.frame 3 = .ok (activation.callPc + 1)) ∧
      state.stack.word activation.frame 4 = .ok activation.actuals := by
  have hsizeEq := h.size_eq
  have houtermost := h.outermost_eq
  rcases h.nested.caller_bounds hmem with ⟨hadd, hcallerBase, hcallerFrame⟩
  have hword := (h.held activation hmem).word_eq (hsizeEq ▸ hsize)
    (show activation.frame + 4 < state.stack.size by omega)
  have hactuals : activation.actuals ≤ 2 ^ 53 := by omega
  exact ⟨hword .frame (by rw [Call.word]; omega), hword .top (by rw [Call.word]; omega),
    hword .returnTo, hword .actuals hactuals⟩

/-- In every state of a disciplined run, but those between a call and its entry, the cells implement
the open calls. -/
theorem implements_of_disciplined (hlibrary : machine.library = .standard)
    (hsize : stackSize ≤ 2 ^ 53) (h : machine.Disciplined stackSize state calls)
    (hentered : calls.entering = none) : machine.Implements stackSize state calls := by
  have hdescribes := h.describes hlibrary hsize
  have hrests := hdescribes.rests hentered
  refine ⟨hrests.top_eq, hrests.pending_eq, hrests.frame_eq, ?_, hrests.nested, hrests.held,
    fun _ => words_of_rests hsize hrests, ?_⟩
  · have := hdescribes.outermost_eq
    omega
  · intro activation rest instruction hlist hpushed hget hopcode hrunning
    -- Leaving has no operands, so it is decoded in every state.
    have hdecode : machine.decode state instruction = .ok .leave := by
      rcases instruction with ⟨opcode, result, first, second, line⟩
      cases hopcode
      rfl
    rcases step_running hrunning hget hdecode with ⟨flow, after, hrun, hafter⟩
    rcases Exec.run_bind_ok hrun with ⟨target, between, hleave, hrun⟩
    cases hrun
    have hfetched : calls.Rests stackSize (fetched state instruction) := hrests.moved _ _ _
    rcases hfetched.leave hsize hlist hpushed hleave with ⟨hcaller, htarget⟩
    rcases hafter with ⟨hflow, -⟩ | ⟨target', hflow, hafter⟩
    · cases hflow
    · cases hflow
      rw [hafter]
      cases hlist ▸ hrests.nested with
      | cons hcall hlocals hrest =>
          refine ⟨?_, ?_, htarget⟩
          · exact hcaller.frame_eq.trans hcall.frame_eq.symm
          · have htop := hcaller.top_eq
            rw [hcaller.pending_eq, hpushed, Nat.add_zero] at htop
            exact htop.trans hcall.base_eq.symm

def caller : Machine where
  program := {
    userFunctions := #[⟨3, 1, "f"⟩]
    code := #[⟨.pushArgument, .absent, .nil, .absent, 1⟩,
      ⟨.call, .absent, ⟨.userFunction, 0⟩, .absent, 1⟩, ⟨.nop, .absent, .absent, .absent, 1⟩,
      ⟨.enter, .absent, ⟨.userFunction, 0⟩, .absent, 2⟩,
      ⟨.assign, ⟨.local, 0⟩, ⟨.formal, 0⟩, .absent, 3⟩] }

theorem implements_caller :
    ∃ state, caller.Disciplined 9 state ⟨8, [⟨⟨1, 8, 8, 1⟩, 1⟩], none, 0⟩ ∧
      caller.Implements 9 state ⟨8, [⟨⟨1, 8, 8, 1⟩, 1⟩], none, 0⟩ := by
  have hpush := @Disciplined.start caller 9 {} {} _ rfl
  have hcall := @Disciplined.step caller 9 _ _ _ _ hpush rfl
    (by decide +kernel) rfl (by decide +kernel)
  have henter := @Disciplined.step caller 9 _ _ _ _ hcall rfl
    (by decide +kernel) rfl (by decide +kernel)
  have hbody := @Disciplined.step caller 9 _ _ _ _ henter rfl
    (by decide +kernel) rfl (by decide +kernel)
  exact ⟨_, hbody, implements_of_disciplined rfl (by decide) hbody rfl⟩

end Machine
end CellMachine
