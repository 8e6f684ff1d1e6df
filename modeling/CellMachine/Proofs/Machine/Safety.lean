import Mathlib
import CellMachine.Proofs.Machine.Preservation
import CellMachine.Proofs.Machine.Step

/-!
# Safety of arbitrary programs

A program may jump anywhere, name operands that do not exist and overwrite the words of its own call
environments.  The machine stays within its stack and its code all the same, also when it is stepped
on after a fault: the pointers of the stack are checked whenever they are loaded from cells, and the
place in the code is checked after every instruction.

`State.Bounded` holds between all parts of one instruction, whether they succeed or raise a fault;
`Machine.Sound` holds between steps.  The main statement is `Machine.safe`.
-/

namespace CellMachine

/-! ## The invariant within an instruction -/

structure State.Bounded (size pc : Nat) (finished : Bool) (state : State) : Prop where
  size_eq : state.stack.size = size
  top_lt : state.stack.top < size
  frame_lt : state.stack.frame < size
  pc_eq : state.pc = pc
  finished_eq : state.finished = finished

namespace State

/-- The bounds are about registers only. -/
theorem Bounded.of_registers {size pc : Nat} {finished : Bool} {state state' : State}
    (h : state.Bounded size pc finished) (hregisters : state'.registers = state.registers) :
    state'.Bounded size pc finished := by
  simp only [registers, Registers.mk.injEq] at hregisters
  rcases hregisters with ⟨hsize, -, htop, hframe, hpc, -, hfinished⟩
  exact ⟨hsize.trans h.size_eq, htop ▸ h.top_lt, hframe ▸ h.frame_lt, hpc.trans h.pc_eq,
    hfinished.trans h.finished_eq⟩

/-- No change that an instruction makes leaves the bounds. -/
theorem bounded_preserved (size pc : Nat) (finished : Bool) :
    Preserved (Bounded size pc finished) where
  report _ _ h := h.of_registers rfl
  console _ _ h := h.of_registers rfl
  write _ _ _ _ h := h.of_registers (registers_overwrite _ _ _)
  table _ _ _ _ _ h :=
    (h.of_registers (registers_createTable _ _)).of_registers (registers_overwrite _ _ _)
  insert _ _ _ _ _ _ h := h.of_registers (registers_insertEntry _ _ _ _)
  -- A pointer is moved to where the other one was, or to an address of the stack.
  move state stack pending hmoved h := by
    have hsize : stack.size = size := (congrArg Array.size hmoved.cells_eq).trans h.size_eq
    have hsizeEq := h.size_eq
    have htop := h.top_lt
    have hframe := h.frame_lt
    refine ⟨hsize, ?_, ?_, h.pc_eq, h.finished_eq⟩
    · rcases hmoved.top_le with hle | hlt
      · exact Nat.lt_of_le_of_lt hle htop
      · exact hsizeEq ▸ hlt
    · change stack.frame < size
      rcases hmoved.frame_le with heq | heq | hlt
      · exact heq ▸ hframe
      · exact heq ▸ htop
      · exact hsizeEq ▸ hlt

end State

/-! ## Instructions -/

namespace Exec

variable {size pc : Nat} {finished : Bool}

/-- Only transfers go on elsewhere than at the next place in the code. -/
theorem perform_jump {machine : Machine} {state start after : State} {instruction : Instruction}
    {action : Action} {target : Nat} (h : machine.Decoded state instruction action)
    (hrun : (perform action).run start = .ok (.jump target) after) :
    instruction.opcode.isTransfer = true := by
  cases h with
  | jump target hopcode => exact hopcode
  | callUser hopcode | callLibrary hopcode | leave hopcode => rw [hopcode]; rfl
  | skip | store | copy | create | insert => cases hrun
  | push | enter =>
      rcases run_bind_ok hrun with ⟨⟨⟩, between, -, hrun⟩
      cases hrun

/-- An instruction stays within the bounds, and only a transfer goes on elsewhere. -/
theorem execute_meets {machine : Machine} (hlibrary : machine.library = .standard)
    (instruction : Instruction) :
    Meets (State.Bounded size pc finished) (machine.execute instruction)
      (fun flow state => state.Bounded size pc finished ∧
        ∀ target, flow = .jump target → instruction.opcode.isTransfer)
      fun fault state => fault.IsLocal ∧ state.Bounded size pc finished := by
  have hkeeps := execute_keeps (State.bounded_preserved size pc finished) hlibrary instruction
  intro start hs
  have hstart := hkeeps start hs
  cases hrun : (machine.execute instruction).run start with
  | error fault after =>
      rw [hrun] at hstart
      exact hstart
  | ok flow after =>
      rw [hrun] at hstart
      refine ⟨hstart, ?_⟩
      rintro target rfl
      rcases run_bind_ok hrun with ⟨action, between, hdecide, hperform⟩
      rcases run_decide_ok hdecide with ⟨hdecode, rfl⟩
      exact perform_jump ((machine.decode_yields between instruction).ok hdecode) hperform

end Exec

/-! ## The invariant between steps -/

namespace Machine

/-- Both pointers lie in a stack of the given size, and the place in the code lies in the code or at
its end, where the machine finishes. -/
structure Sound (machine : Machine) (size : Nat) (state : State) : Prop where
  size_eq : state.stack.size = size
  top_lt : state.stack.top < size
  frame_lt : state.stack.frame < size
  pc_le : state.pc ≤ machine.program.code.size
  at_end : state.finished = true → state.pc = machine.program.code.size

/-- A fault that a step reports: it was raised by the instruction at the place in the code, where
the machine stays; a jump out of the code is the fault of an instruction that jumps. -/
def Blames (machine : Machine) (state after : State) (trap : Trap) : Prop :=
  ∃ instruction, machine.program.code[state.pc]? = some instruction ∧
    trap.pc = state.pc ∧ trap.line = instruction.line ∧ after.pc = state.pc ∧
      ∀ target, trap.fault = .jumpOutOfRange target →
        instruction.opcode.isTransfer ∧ machine.program.code.size < target

variable {machine : Machine} {size : Nat}

/-- Fetching an instruction leaves the bounds as they are. -/
theorem Sound.fetched {state : State} (h : machine.Sound size state)
    (hgoing : state.finished = false) (instruction : Instruction) :
    (fetched state instruction).Bounded size state.pc false :=
  ⟨h.size_eq, h.top_lt, h.frame_lt, rfl, hgoing⟩

/-- What an instruction leaves is sound again at any place in the code or at its end. -/
theorem sound_of_bounded {state : State} {pc : Nat} (h : state.Bounded size pc false) {target : Nat}
    (htarget : target ≤ machine.program.code.size) :
    machine.Sound size { state with pc := target } := by
  refine ⟨h.size_eq, h.top_lt, h.frame_lt, htarget, fun hfinished => ?_⟩
  exact absurd (h.finished_eq.symm.trans hfinished) Bool.false_ne_true

/-- A step leads from a sound state to a sound state, and blames its instruction for a fault. -/
theorem step_sound (hlibrary : machine.library = .standard) {state : State}
    (h : machine.Sound size state) :
    machine.Sound size (machine.step state).2 ∧
      ∀ trap, (machine.step state).1 = .trapped trap →
        machine.Blames state (machine.step state).2 trap := by
  have hmeets (instruction : Instruction) :=
    @Exec.execute_meets size state.pc false machine hlibrary instruction
  generalize hafter : machine.step state = after
  cases hafter ▸ machine.step_outcome state with
  | finished hfinished => exact ⟨h, fun _ => nofun⟩
  | finishes hgoing hend =>
      exact ⟨⟨h.size_eq, h.top_lt, h.frame_lt, h.pc_le, fun _ => hend⟩, fun _ => nofun⟩
  -- There is no place beyond the end of the code to begin with.
  | outside hgoing hout => exact absurd h.pc_le (Nat.not_le_of_lt hout)
  | next hgoing hget hrun =>
      have hbounded := ((hmeets _).ok (h.fetched hgoing _) hrun).1
      refine ⟨sound_of_bounded hbounded ?_, fun _ => nofun⟩
      rw [hbounded.pc_eq]
      exact (Array.getElem?_eq_some_iff.1 hget).1
  | jump hgoing hget hrun htarget =>
      have hbounded := ((hmeets _).ok (h.fetched hgoing _) hrun).1
      exact ⟨sound_of_bounded hbounded htarget, fun _ => nofun⟩
  | astray hgoing hget hrun htarget =>
      -- The jump was performed, but the machine stays at the instruction that asked for it.
      rcases (hmeets _).ok (h.fetched hgoing _) hrun with ⟨hbounded, htransfer⟩
      refine ⟨sound_of_bounded hbounded (hbounded.pc_eq ▸ h.pc_le), ?_⟩
      rintro trap ⟨⟩
      refine ⟨_, hget, rfl, rfl, hbounded.pc_eq, ?_⟩
      rintro target ⟨⟩
      exact ⟨htransfer _ rfl, htarget⟩
  | trapped hgoing hget hrun =>
      rcases (hmeets _).error (h.fetched hgoing _) hrun with ⟨hlocal, hbounded⟩
      refine ⟨sound_of_bounded hbounded (hbounded.pc_eq ▸ h.pc_le), ?_⟩
      rintro trap ⟨⟩
      exact ⟨_, hget, rfl, rfl, hbounded.pc_eq, fun target heq => absurd heq (hlocal target)⟩

/-! ## Reachable states -/

/-- The states that a machine with a stack of the given size comes to: it is stepped and run in any
order, also after faults. -/
inductive Reachable (machine : Machine) (stackSize : Nat) : State → Prop
  | start {console : Console} {log : Log} {state : State}
      (h : machine.start stackSize console log = .ok state) : machine.Reachable stackSize state
  | step {state : State} (h : machine.Reachable stackSize state) :
      machine.Reachable stackSize (machine.step state).2
  | run {state : State} (limit : Nat) (h : machine.Reachable stackSize state) :
      machine.Reachable stackSize (machine.run limit state).state

/-- A machine starts with free cells below its globals. -/
theorem start_sound {stackSize : Nat} {console : Console} {log : Log} {state : State}
    (h : machine.start stackSize console log = .ok state) : machine.Sound stackSize state := by
  simp only [start, Stack.create] at h
  split at h
  · cases h
  · rename_i hsize
    cases h
    have hpos : 0 < stackSize := Nat.pos_of_ne_zero fun hzero => hsize (.inl hzero)
    have hlt : stackSize - 1 - machine.program.globals < stackSize := by omega
    exact ⟨Array.size_replicate, hlt, hlt, Nat.zero_le _, nofun⟩

/-- All states that a machine comes to are sound, also after faults. -/
theorem Reachable.sound (hlibrary : machine.library = .standard) {stackSize : Nat} {state : State}
    (h : machine.Reachable stackSize state) : machine.Sound stackSize state := by
  induction h with
  | start h => exact start_sound h
  | step _ ih => exact (step_sound hlibrary ih).1
  | run limit _ ih =>
      have hstep (state : State) (hs : machine.Sound stackSize state) :=
        (step_sound hlibrary hs).1
      exact run_induction (machine.Sound stackSize) hstep limit ih

/-- What is safe about a state, whatever program it belongs to. -/
structure Safe (machine : Machine) (stackSize : Nat) (state : State) : Prop where
  /-- The pointers lie in the stack, the place in the code lies in the code or at its end. -/
  sound : machine.Sound stackSize state
  /-- A machine that goes on and is not at the end of the code is at an instruction. -/
  fetch : state.finished = false → state.pc ≠ machine.program.code.size →
    ∃ instruction, machine.program.code[state.pc]? = some instruction
  /-- A fault is reported at the instruction that raised it, and the machine stays there. -/
  blame : ∀ trap, (machine.step state).1 = .trapped trap →
    machine.Blames state (machine.step state).2 trap
  /-- Whatever words a call has pushed, there is a cell for the next one; without any, this is the
  cell of an argument. -/
  push : ∀ (before : State) (words : List Nat) (after : State), before.stack = state.stack →
    (words.forM Exec.pushWord).run before = .ok () after → after.stack.top < after.stack.size
  /-- An operand that names a cell of the stack names an allocated one. -/
  operand : ∀ operand address, state.place operand = .ok (.slot address) →
    state.stack.top < address ∧ address < state.stack.size

/-- Every state that a machine with the standard library comes to is safe. -/
theorem safe (machine : Machine) (hlibrary : machine.library = .standard) {stackSize : Nat}
    {state : State} (h : machine.Reachable stackSize state) : machine.Safe stackSize state := by
  have hsound := h.sound hlibrary
  refine ⟨hsound, ?_, (step_sound hlibrary hsound).2, ?_, ?_⟩
  · intro _ hend
    have hlt := Nat.lt_of_le_of_ne hsound.pc_le hend
    exact ⟨_, Array.getElem?_eq_getElem hlt⟩
  · intro before words after hstack hrun
    have hbefore : before.Bounded stackSize before.pc before.finished :=
      ⟨hstack ▸ hsound.size_eq, hstack ▸ hsound.top_lt, hstack ▸ hsound.frame_lt, rfl, rfl⟩
    have hafter := (Exec.forM_pushWord_keeps (State.bounded_preserved _ _ _) words).ok hbefore hrun
    exact hafter.size_eq ▸ hafter.top_lt
  · intro operand address hplace
    exact ((state.place_yields operand).ok hplace address rfl).2

def stray : Machine where
  program := { code := #[⟨.jump, ⟨.label, 7⟩, .absent, .absent, 3⟩] }

theorem safe_stray :
    ∃ state, stray.Reachable 1 state ∧ (stray.step state).1 = .trapped ⟨0, 3, .jumpOutOfRange 7⟩ ∧
      stray.Safe 1 (stray.step state).2 := by
  have hstart : stray.Reachable 1 { stack := ⟨#[.undefined], 0, 0, 0⟩ } :=
    @Reachable.start stray 1 {} {} _ rfl
  exact ⟨_, hstart, by decide +kernel, safe stray rfl hstart.step⟩

end Machine
end CellMachine
