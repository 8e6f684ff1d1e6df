import Mathlib
import CellMachine.Proofs.Library.Faults
import CellMachine.Proofs.Machine.Effects
import CellMachine.Proofs.Machine.Room
import CellMachine.Proofs.Machine.Trajectory

/-!
# Missing entries

A machine can treat an entry that a table does not have as a fault, or read it as nil.  Its rule
enters one place only: `State.lookup` consults it after everything else about the instruction is
settled.  So the two machines decode every instruction to the same action or fault, but for the one
instruction that misses its entry: `Machine.decode_supplies`.

The lenient machine therefore runs as the strict one does, for as long as that one raises no fault;
it raises the same faults but this one, and where the strict machine misses an entry the lenient one
stores nil and goes on: `Machine.lenient_extends`.
-/

namespace CellMachine

/-! ## Supplied answers -/

/-- Whether a decision is the same as another one, or gives some answer where that one misses an
entry. -/
inductive Supplies {α : Type} (answers : α → Prop) : Except Fault α → Except Fault α → Prop
  | same {decision : Except Fault α} (h : ∀ key, decision ≠ .error (.keyNotFound key)) :
      Supplies answers decision decision
  | missing {x : α} {key : String} (h : answers x) :
      Supplies answers (.ok x) (.error (.keyNotFound key))

namespace Supplies

variable {α β : Type}

/-- A decision that never misses an entry supplies none. -/
theorem of_faultsIn {answers : α → Prop} {decision : Except Fault α}
    (h : FaultsIn Fault.OfDecoding decision) : Supplies answers decision decision := by
  refine .same fun key hfault => ?_
  exact h _ hfault

/-- What is decided before an entry is missed is the same, and misses none. -/
theorem bind {answers : β → Prop} {decision : Except Fault α} {f g : α → Except Fault β}
    (h : FaultsIn Fault.OfDecoding decision)
    (hf : ∀ x, decision = .ok x → Supplies answers (f x) (g x)) :
    Supplies answers (decision >>= f) (decision >>= g) := by
  cases decision with
  | ok x => exact hf x rfl
  | error fault => exact of_faultsIn (FaultsIn.throw (h fault rfl))

/-- An answer that is supplied can be used further. -/
theorem map {answers : α → Prop} {answers' : β → Prop} {lenient strict : Except Fault α}
    (h : Supplies answers lenient strict) (f : α → β) (hf : ∀ x, answers x → answers' (f x)) :
    Supplies answers' (f <$> lenient) (f <$> strict) := by
  cases h with
  | missing h => exact .missing (hf _ h)
  | same h =>
      refine .same fun key hfault => ?_
      cases lenient with
      | ok x => cases hfault
      | error fault =>
          cases hfault
          exact h key rfl

end Supplies

/-! ## Reading entries -/

/-- Whether no function of a library complains about a missing entry by itself. -/
def Library.MissesNoKey (library : Library) : Prop :=
  ∀ name function, library.find? name = some function →
    function.Raises fun fault => ∀ key, fault ≠ .keyNotFound key

/-- No standard function raises the fault of a missing entry. -/
theorem Library.standard_missesNoKey : Library.standard.MissesNoKey := by
  intro name function hfind
  refine (Library.standard_raises hfind).mono fun fault hkind key => ?_
  rintro rfl
  exact hkind

/-- The rule for missing entries matters only if there is no entry. -/
theorem State.lookup_supplies (state : State) (id : TableId) (cell : Cell) :
    Supplies (· = .nil) (state.lookup .nil id cell) (state.lookup .fault id cell) := by
  refine Supplies.bind cell.key_raises fun key _ => ?_
  cases state.heap.get? id key with
  | some entry => exact .same fun _ => nofun
  | none => exact .missing rfl

namespace Machine

variable (machine : Machine)

def strict : Machine :=
  { machine with missingKey := .fault }

def lenient : Machine :=
  { machine with missingKey := .nil }

/-- Both machines make the same of an instruction, unless it is one that misses an entry; the
lenient machine then copies nil. -/
theorem decode_supplies (state : State) (instruction : Instruction) :
    Supplies (fun action => instruction.opcode = .tableGet ∧ ∃ place,
        state.place instruction.result = .ok place ∧ action = .copy place .nil)
      (machine.lenient.decode state instruction) (machine.strict.decode state instruction) := by
  rcases instruction with ⟨opcode, result, first, second, line⟩
  by_cases hopcode : opcode = .tableGet
  · subst hopcode
    refine Supplies.bind (state.place_raises result) fun place hplace => ?_
    refine Supplies.bind (machine.program.operandTable_raises state first) fun id _ => ?_
    refine Supplies.bind (machine.program.operandCell_raises state second) fun cell _ => ?_
    refine (state.lookup_supplies id cell).map (Action.copy place) ?_
    rintro _ rfl
    exact ⟨rfl, place, hplace, rfl⟩
  · -- No other instruction asks for the rule.
    have hsame : machine.lenient.decode state ⟨opcode, result, first, second, line⟩ =
        machine.strict.decode state ⟨opcode, result, first, second, line⟩ := by
      cases opcode with
      | tableGet => exact absurd rfl hopcode
      | _ => rfl
    rw [hsame]
    exact .of_faultsIn (machine.strict.decode_raises state hopcode)

/-! ## Steps -/

/-- What an instruction that stores nil changes: the place, the count of holders of what it held,
and the place in the code.  The log tells of the instruction and of nothing else. -/
structure StoresNil (instruction : Instruction) (place : Place) (state after : State) : Prop where
  read_place : after.read place = .nil
  read_of_ne : ∀ other, other ≠ place → after.read other = state.read other
  heap_eq : after.heap = state.heap.release (state.read place)
  registers_eq : after.registers = { state.registers with pc := state.pc + 1 }
  console_eq : after.console = state.console
  log_eq : after.log = (fetched state instruction).log

/-- Nil at the place of the result, and the next place in the code, are all that storing nil
changes. -/
theorem storesNil_overwrite {state : State} {place : Place} (instruction : Instruction)
    (hplace : ∀ address, place = .slot address → address < state.stack.size) :
    StoresNil instruction place state
      { (fetched state instruction).overwrite place .nil with pc := state.pc + 1 } := by
  have hregisters := (fetched state instruction).registers_overwrite place .nil
  simp only [State.registers, Registers.mk.injEq] at hregisters
  rcases hregisters with ⟨hsize, hglobals, htop, hframe, -, hpending, hfinished⟩
  have hregisters : State.registers
      { (fetched state instruction).overwrite place .nil with pc := state.pc + 1 } =
        { state.registers with pc := state.pc + 1 } := by
    simp only [State.registers, Registers.mk.injEq]
    exact ⟨hsize, hglobals, htop, hframe, trivial, hpending, hfinished⟩
  have hhas : (fetched state instruction).HasPlace place := hplace
  refine ⟨?_, fun other hne => ?_, ?_, hregisters, ?_, ?_⟩
  · exact (State.read_overwrite hhas .nil place).trans (if_pos rfl)
  · exact (State.read_overwrite hhas .nil other).trans (if_neg hne)
  · cases place with
    | result => rfl
    | slot address =>
        have hlt : address < (fetched state instruction).stack.size := hplace address rfl
        simp only [State.overwrite, if_pos hlt]
        rfl
  · exact (fetched state instruction).console_overwrite place .nil
  · exact (fetched state instruction).log_overwrite place .nil

/-- The lenient machine reads nil at an instruction that misses an entry, stores it and goes on. -/
structure ReadsNil (machine : Machine) (state : State) : Prop where
  running : (machine.lenient.step state).1 = .running
  stores : ∃ instruction place, machine.program.code[state.pc]? = some instruction ∧
    instruction.opcode = .tableGet ∧ state.place instruction.result = .ok place ∧
      StoresNil instruction place state (machine.lenient.step state).2

def MissesKey (outcome : Progress × State) : Prop :=
  ∃ trap key, outcome.1 = .trapped trap ∧ trap.fault = .keyNotFound key

variable {machine}

/-- An action complains about a missing entry only if a library function does. -/
theorem perform_missesNoKey (hlibrary : machine.library.MissesNoKey) {state start after : State}
    {instruction : Instruction} {action : Action} {key : String}
    (hdecode : machine.strict.decode state instruction = .ok action) :
    (Exec.perform action).run start ≠ .error (.keyNotFound key) after := by
  intro hrun
  have hraises : Exec.Raises (fun fault => ∀ key, fault ≠ .keyNotFound key)
      (Exec.perform action) := by
    refine Exec.perform_raises (fun _ => nofun) ?_ ?_
    · rintro _ hframe key rfl
      exact hframe
    · rintro name function rfl
      cases (machine.strict.decode_yields state instruction).ok hdecode with
      | callLibrary hopcode hfind => exact hlibrary name function hfind
  exact hraises.error hrun key rfl

/-- A step of the strict machine misses an entry only if decoding its instruction does. -/
theorem not_missesKey (hlibrary : machine.library.MissesNoKey) {state : State}
    (hdecode : state.finished = false → ∀ instruction ∈ machine.program.code[state.pc]?, ∀ key,
      machine.strict.decode (fetched state instruction) instruction ≠ .error (.keyNotFound key)) :
    ¬ MissesKey (machine.strict.step state) := by
  rintro ⟨trap, key, htrap, hfault⟩
  generalize hafter : machine.strict.step state = outcome at htrap
  cases hafter ▸ machine.strict.step_outcome state with
  | finished | finishes | next | jump => cases htrap
  | outside | astray =>
      cases htrap
      cases hfault
  | @trapped instruction after fault hgoing hget hrun =>
      cases htrap
      cases hfault
      rcases execute_error hrun with ⟨herror, -⟩ | ⟨action, haction, hperform⟩
      · exact hdecode hgoing instruction hget key herror
      · exact perform_missesNoKey hlibrary haction hperform

/-- Without an instruction to execute, the rule for missing entries is not asked for. -/
theorem step_lenient_of_none {state : State}
    (h : state.finished = false → machine.program.code[state.pc]? = none) :
    machine.lenient.step state = machine.strict.step state := by
  generalize hafter : machine.strict.step state = outcome
  cases hafter ▸ machine.strict.step_outcome state with
  | finished hfinished => exact step_of_finished hfinished
  | finishes hgoing hend => exact step_of_end hgoing hend
  | outside hgoing hout => exact step_of_outside hgoing hout
  | next hgoing hget | jump hgoing hget | astray hgoing hget | trapped hgoing hget =>
      cases (h hgoing).symm.trans hget

/-- A step of the lenient machine is one of the strict machine, unless that one misses an entry. -/
theorem step_lenient (hlibrary : machine.library.MissesNoKey) (state : State) :
    (machine.lenient.step state = machine.strict.step state ∧
        ¬ MissesKey (machine.strict.step state)) ∨
      MissesKey (machine.strict.step state) ∧ machine.ReadsNil state := by
  by_cases hnone : state.finished = false → machine.program.code[state.pc]? = none
  · refine .inl ⟨step_lenient_of_none hnone, not_missesKey hlibrary ?_⟩
    intro hgoing instruction hget
    cases (hnone hgoing).symm.trans hget
  obtain ⟨hgoing, hsome⟩ := Classical.not_imp.1 hnone
  obtain ⟨instruction, hget⟩ := Option.ne_none_iff_exists'.1 hsome
  have hlenient : machine.lenient.step state =
      machine.lenient.executeStep instruction (fetched state instruction) := step_of_get hgoing hget
  have hstrict : machine.strict.step state =
      machine.strict.executeStep instruction (fetched state instruction) := step_of_get hgoing hget
  have hsupplies := machine.decode_supplies (fetched state instruction) instruction
  generalize hanswer : machine.lenient.decode (fetched state instruction) instruction = answer,
    hdecision : machine.strict.decode (fetched state instruction) instruction = decision
    at hsupplies
  cases hsupplies with
  | same hkey =>
      refine .inl ⟨?_, not_missesKey hlibrary fun _ other hother => ?_⟩
      · rw [hlenient, hstrict, executeStep, executeStep, run_execute, run_execute, hanswer,
          hdecision]
        rfl
      · cases hget.symm.trans hother
        rwa [hdecision]
  | @missing _ key h =>
      rcases h with ⟨hopcode, place, hplace, rfl⟩
      have htrap : machine.strict.step state =
          (.trapped ⟨state.pc, instruction.line, .keyNotFound key⟩, fetched state instruction) := by
        rw [hstrict, executeStep, run_execute, hdecision]
        rfl
      have hruns : machine.lenient.step state = (.running,
          { (fetched state instruction).overwrite place .nil with pc := state.pc + 1 }) := by
        rw [hlenient, executeStep, run_execute, hanswer]
        have hpc : ((fetched state instruction).overwrite place .nil).pc = state.pc :=
          congrArg Registers.pc ((fetched state instruction).registers_overwrite place .nil)
        -- Nil counts as defined, so nothing is reported on the way.
        change (Progress.running, { (fetched state instruction).overwrite place .nil with
          pc := ((fetched state instruction).overwrite place .nil).pc + 1 }) = _
        rw [hpc]
      refine .inr ⟨⟨_, key, congrArg Prod.fst htrap, rfl⟩, congrArg Prod.fst hruns, ?_⟩
      refine ⟨instruction, place, hget, hopcode, hplace, ?_⟩
      have hstores : StoresNil instruction place state
          { (fetched state instruction).overwrite place .nil with pc := state.pc + 1 } :=
        storesNil_overwrite instruction fun address heq =>
          ((state.place_yields instruction.result).ok hplace address heq).2.2
      rw [hruns]
      exact hstores

/-! ## Runs -/

/-- What the lenient machine does from a start in which the strict one takes some steps without a
fault. -/
structure Extends (machine : Machine) (start : State) (n : Nat) : Prop where
  /-- It takes these steps without a fault as well, through the same states. -/
  succeeds : machine.lenient.Succeeds start n
  states : ∀ m ≤ n, machine.lenient.stateAfter start m = machine.strict.stateAfter start m
  /-- If the next step raises another fault than a missing entry, both raise it and leave the same
  state. -/
  fault : ∀ trap, (machine.strict.step (machine.strict.stateAfter start n)).1 = .trapped trap →
    (∀ key, trap.fault ≠ .keyNotFound key) →
      machine.lenient.step (machine.lenient.stateAfter start n) =
        machine.strict.step (machine.strict.stateAfter start n)
  /-- If it misses an entry, the lenient machine reads nil instead. -/
  missing : ∀ trap key,
    (machine.strict.step (machine.strict.stateAfter start n)).1 = .trapped trap →
      trap.fault = .keyNotFound key → machine.ReadsNil (machine.lenient.stateAfter start n)

/-- A step that raises no fault is the same for both machines. -/
theorem step_lenient_of_succeeds (hlibrary : machine.library.MissesNoKey) {state : State}
    (h : machine.strict.SucceedsAt state) :
    machine.lenient.step state = machine.strict.step state := by
  rcases step_lenient hlibrary state with ⟨heq, -⟩ | ⟨⟨trap, key, htrap, -⟩, -⟩
  · exact heq
  · rw [SucceedsAt, htrap] at h
    exact absurd h nofun

/-- As long as the strict machine raises no fault, the lenient one is in the same state. -/
theorem stateAfter_lenient (hlibrary : machine.library.MissesNoKey) {start : State} {n : Nat}
    (h : machine.strict.Succeeds start n) {m : Nat} (hle : m ≤ n) :
    machine.lenient.stateAfter start m = machine.strict.stateAfter start m := by
  induction m with
  | zero => rfl
  | succ m ih =>
      have hstate := ih (Nat.le_of_succ_le hle)
      rw [stateAfter, stateAfter, hstate, step_lenient_of_succeeds hlibrary (h m hle)]

/-- The lenient machine is a conservative extension of the strict one. -/
theorem lenient_extends (machine : Machine) (hlibrary : machine.library.MissesNoKey)
    {start : State} {n : Nat} (h : machine.strict.Succeeds start n) : machine.Extends start n := by
  have hstates (m : Nat) (hle : m ≤ n) := stateAfter_lenient hlibrary h hle
  have hcompare := step_lenient hlibrary (machine.strict.stateAfter start n)
  refine ⟨fun m hlt => ?_, hstates, fun trap htrap hkey => ?_, fun trap key htrap hkey => ?_⟩
  · rw [SucceedsAt, hstates m hlt.le, step_lenient_of_succeeds hlibrary (h m hlt)]
    exact h m hlt
  · rw [hstates n n.le_refl]
    rcases hcompare with ⟨heq, -⟩ | ⟨⟨trap', key, htrap', hfault⟩, -⟩
    · exact heq
    · cases htrap.symm.trans htrap'
      exact absurd hfault (hkey key)
  · rw [hstates n n.le_refl]
    rcases hcompare with ⟨-, hnot⟩ | ⟨-, hreads⟩
    · exact absurd ⟨trap, key, htrap, hkey⟩ hnot
    · exact hreads

def seeker : Machine where
  program := {
    strings := #["k"]
    code := #[⟨.newTable, .absent, ⟨.global, 0⟩, .absent, 1⟩,
      ⟨.tableGet, ⟨.global, 1⟩, ⟨.global, 0⟩, ⟨.string, 0⟩, 2⟩]
    globals := 2 }

def seekerStart : State := { stack := ⟨Array.replicate 4 .undefined, 1, 1, 2⟩ }

/-- The strict machine misses the entry in its second step, where the lenient one reads nil. -/
theorem lenient_extends_seeker :
    seeker.start 4 {} {} = .ok seekerStart ∧ seeker.library.MissesNoKey ∧
      seeker.strict.Succeeds seekerStart 1 ∧ seeker.Extends seekerStart 1 ∧
      (seeker.strict.step (seeker.strict.stateAfter seekerStart 1)).1 =
        .trapped ⟨1, 2, .keyNotFound "k"⟩ ∧
      seeker.ReadsNil (seeker.lenient.stateAfter seekerStart 1) := by
  have hsucceeds : seeker.strict.Succeeds seekerStart 1 := by decide +kernel
  have htrap : (seeker.strict.step (seeker.strict.stateAfter seekerStart 1)).1 =
      .trapped ⟨1, 2, .keyNotFound "k"⟩ := by decide +kernel
  have hextends := lenient_extends seeker Library.standard_missesNoKey hsucceeds
  exact ⟨rfl, Library.standard_missesNoKey, hsucceeds, hextends, htrap,
    hextends.missing _ "k" htrap rfl⟩

end Machine
end CellMachine
