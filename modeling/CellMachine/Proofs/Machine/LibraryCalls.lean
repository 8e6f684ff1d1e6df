import Mathlib
import CellMachine.Proofs.Library.Answers
import CellMachine.Proofs.Machine.Reflection

/-!
# Library calls

A call of a library function borrows four cells below its arguments for the words of its
environment, and gives them back, with the arguments, when the function has answered.  So for the
function that calls it the call does nothing but answer: `State.CallEffect` lists what is different
afterwards, and the words that were saved never stay behind.

The parts are contracts that were proved for other ends: what saving an environment writes, what a
standard function changes, and what a return clears.  Tables are destroyed only on account of what
the cells that were given up held, since the words are numbers and no answer replaces a table.
-/

namespace CellMachine

/-! ## What a call gives up -/

def State.environmentPlaces (state : State) : Set Place :=
  {place | ∃ address, place = .slot address ∧
    state.stack.top < address + Stack.environmentSize ∧ address ≤ state.stack.top}

/-- What a call of a library function gives up: the return register, the cells into which the
environment is saved, and the arguments. -/
def State.givenUp (state : State) : Set Place :=
  {place | place = .result ∨ ∃ address, place = .slot address ∧
    state.stack.top < address + Stack.environmentSize ∧
      address ≤ state.stack.top + state.pending}

/-- A call gives up four cells from the top down, and the pending arguments above it. -/
theorem State.slot_mem_givenUp {state : State} {address : Nat} :
    Place.slot address ∈ state.givenUp ↔
      state.stack.top < address + 4 ∧ address ≤ state.stack.top + state.pending := by
  simp [givenUp, Stack.environmentSize]

structure State.CallEffect (before after : State) : Prop where
  /-- The arguments are off the stack, and the frame is that of the caller. -/
  registers : after.registers = { before.registers with
    top := before.stack.top + before.pending, pending := 0, pc := after.pc }
  /-- All other cells are as they were. -/
  others : ∀ address, Place.slot address ∉ before.givenUp →
    after.stack.read address = before.stack.read address
  /-- The cells that were given up are undefined. -/
  cleared : ∀ address, Place.slot address ∈ before.givenUp →
    after.stack.read address = .undefined
  /-- A table is as it was, or it is a new one in the return register, or it is destroyed on account
  of what was given up. -/
  heap : before.heap.Confined after.heap
    {id | after.result = .table id ∧ before.heap.nodes.size ≤ id}
    {id | ∃ place ∈ before.givenUp, before.read place = .table id}
  /-- The streams and the log are moved on. -/
  streams : before.Advances after

namespace Exec

variable {start prepared answered after : State} {name : String} {function : Exec Unit}

/-! ## Saving the environment -/

/-- A word is written to the cell at the top. -/
theorem pushWord_discards {word : Nat} (hrun : (pushWord word).run start = .ok () after) :
    start.Discards after {.slot start.stack.top} := by
  rcases run_bind_ok hrun with ⟨⟨⟩, between, hwrite, hlower⟩
  cases hwrite
  rcases run_lower_ok hlower with ⟨-, rfl⟩
  have hwritten := @State.discards_overwrite start (.slot start.stack.top)
    (.number (Number.ofNat word)) rfl
  exact hwritten.moved rfl rfl

/-- An environment is written to four cells. -/
theorem saveEnvironment_discards (hrun : saveEnvironment.run start = .ok () after) :
    start.Discards after start.environmentPlaces := by
  rcases run_bind_ok hrun with ⟨state, between, hget, hrun⟩
  cases hget
  rcases run_bind_ok hrun with ⟨⟨⟩, s₁, h₁, hrun⟩
  rcases run_bind_ok hrun with ⟨⟨⟩, s₂, h₂, hrun⟩
  rcases run_bind_ok hrun with ⟨⟨⟩, s₃, h₃, h₄⟩
  have t₁ := (pushWord_pushes h₁).top_eq
  have t₂ := (pushWord_pushes h₂).top_eq
  have t₃ := (pushWord_pushes h₃).top_eq
  have hpos := (pushWord_pushes h₄).top_pos
  have hall := (((pushWord_discards h₁).trans (pushWord_discards h₂)).trans
    (pushWord_discards h₃)).trans (pushWord_discards h₄)
  -- Each word lies one cell below the one before.
  refine hall.mono ?_
  rintro place (((rfl | rfl) | rfl) | rfl) <;>
    exact ⟨_, rfl, by rw [Stack.environmentSize]; omega, by omega⟩

/-- To prepare a call gives up the places into which it writes. -/
theorem prepare_discards (hrun : (prepare name).run start = .ok () prepared) :
    (start.report (.callsLibrary name start.pending)).Discards prepared start.givenUp := by
  rcases run_bind_ok hrun with ⟨⟨⟩, reported, hreport, hrun⟩
  cases hreport
  rcases run_bind_ok hrun with ⟨⟨⟩, saved, hsave, hrun⟩
  rcases run_bind_ok hrun with ⟨⟨⟩, opened, hopen, hnil⟩
  cases hopen
  cases hnil
  have hopened : (start.report (.callsLibrary name start.pending)).Discards
      { saved with stack := { saved.stack with frame := saved.stack.top }, pending := 0 }
      start.environmentPlaces :=
    (saveEnvironment_discards hsave).moved rfl rfl
  refine (hopened.trans (@State.discards_overwrite _ .result .nil rfl)).mono ?_
  rintro place (⟨address, rfl, hlt, hle⟩ | rfl)
  · exact .inr ⟨address, rfl, hlt, hle.trans (Nat.le_add_right _ _)⟩
  · exact .inl rfl

/-! ## Restoring the caller -/

/-- To restore a frame clears the cells between the two tops. -/
theorem restore_discards (state : State) (environment : Environment) :
    state.Discards (restore state environment)
      {place | ∃ address, place = .slot address ∧ state.stack.top < address ∧
        address ≤ environment.top} := by
  have hmoved : state.Discards { state with stack := { state.stack with
      top := environment.top, frame := environment.frame } } ∅ :=
    (State.Discards.refl state).moved rfl rfl
  have hboth := hmoved.trans (State.discards_clear _ (state.stack.top + 1) environment.top)
  rwa [Set.empty_union] at hboth

/-! ## Whole calls -/

section

variable (hfind : Library.standard.find? name = some function)
  (hprepare : (prepare name).run start = .ok () prepared)
  (hanswer : function.run prepared = .ok () answered)
include hfind hprepare hanswer

/-- Tables are destroyed on account of what was given up only: the saved words are numbers, so a
table in a cell that is cleared was there before the call. -/
theorem restored_confined {handles : List TableId} (hprepared : prepared.Counted handles)
    (hnil : prepared.result = .nil) {after : State} (hafter : after.Counted handles)
    (hresult : after.result = answered.result)
    (hrestore : answered.Discards after (start.givenUp \ {.result})) :
    start.heap.Confined after.heap
      {id | after.result = .table id ∧ start.heap.nodes.size ≤ id}
      {id | ∃ place ∈ start.givenUp, start.read place = .table id} := by
  have hsave := prepare_discards hprepare
  have hfunction := Library.standard_confined hfind hprepared (by rw [hnil]; rfl) hanswer
  have hcleared (place : Place) (hplace : place ∈ start.givenUp \ {.result}) (id : TableId)
      (hread : answered.read place = .table id) : start.read place = .table id := by
    have hslot : answered.read place = prepared.read place := by
      rcases hplace with ⟨rfl | ⟨address, rfl, -, -⟩, hne⟩
      · exact absurd rfl hne
      · exact congrArg (fun stack : Stack => stack.read address) (run_standard_ok hfind hanswer).1
    rw [hslot] at hread
    rcases hsave.plain place with hsame | hplain
    · exact hsame ▸ hread
    · rw [hread] at hplain
      cases hplain
  -- Saving, answering and restoring are confined each, and so they are together.
  have hall := (hsave.heap.trans hfunction nofun).trans hrestore.heap ?_
  · refine hall.mono ?_ ?_
    · rintro id ((hid | ⟨hid, hle⟩) | hid)
      · cases hid
      · exact ⟨hresult.trans hid, hsave.heap.follows.size_le.trans hle⟩
      · cases hid
    · rintro id ((hid | hid) | ⟨place, hplace, hread⟩)
      · exact hid
      · cases hid
      · exact ⟨place, hplace.1, hcleared place hplace id hread⟩
  · -- The answer is in the return register, so it is alive.
    rintro id (hid | ⟨hid, -⟩)
    · cases hid
    · exact @State.Counted.isAlive_of_read _ .result _ hafter id (hresult.trans hid)

variable (hbase : start.stack.top + start.pending < start.stack.size)
include hbase

/-- When the function has answered, the four words lie right above the top. -/
theorem answered_top : answered.stack.top + 4 = start.stack.top := by
  have hprepares := prepare_prepares (Nat.lt_of_le_of_lt (Nat.le_add_right _ _) hbase) hprepare
  have hroom := hprepares.room
  have htop : prepared.stack.top = start.call.frame := congrArg Registers.top hprepares.registers_eq
  rw [Stack.environmentSize] at hroom
  rw [(run_standard_ok hfind hanswer).1, htop, start.frame_call]
  omega

/-- What is cleared after the answer are the cells that were given up. -/
theorem restored_places : {place | ∃ address, place = .slot address ∧ answered.stack.top < address ∧
      address ≤ start.stack.top + start.pending} = start.givenUp \ {.result} := by
  have htop := answered_top hfind hprepare hanswer hbase
  ext place
  constructor
  · rintro ⟨address, rfl, hlt, hle⟩
    exact ⟨State.slot_mem_givenUp.2 ⟨by omega, hle⟩, nofun⟩
  · rintro ⟨rfl | ⟨address, rfl, hlt, hle⟩, hne⟩
    · exact absurd rfl hne
    · rw [Stack.environmentSize] at hlt
      exact ⟨address, rfl, by omega, hle⟩

/-- The cells that were given up are undefined afterwards, and the others are as they were. -/
theorem restored_reads {environment : Environment}
    (htop : environment.top = start.stack.top + start.pending) (address : Nat) :
    (Place.slot address ∈ start.givenUp →
      (restore answered environment).stack.read address = .undefined) ∧
    (Place.slot address ∉ start.givenUp →
      (restore answered environment).stack.read address = start.stack.read address) := by
  have hanswered := answered_top hfind hprepare hanswer hbase
  constructor
  · intro haddress
    rw [State.slot_mem_givenUp] at haddress
    exact State.read_clear _ (by omega) (by omega)
  · intro haddress
    have hrestore := restore_discards answered environment
    rw [htop, restored_places hfind hprepare hanswer hbase] at hrestore
    calc
      (restore answered environment).stack.read address = answered.stack.read address :=
        hrestore.others (.slot address) fun h => haddress h.1
      _ = prepared.stack.read address := by rw [(run_standard_ok hfind hanswer).1]
      _ = start.stack.read address := (prepare_discards hprepare).others (.slot address) haddress

/-- What a call of a standard function does to the state that makes it. -/
theorem callLibrary_effect {handles : List TableId} (hcounted : start.Counted handles)
    {target : Nat} {after : State}
    (hcall : (callLibrary name function).run start = .ok target after)
    (hafter : after = restore answered
      ⟨start.stack.top + start.pending, start.stack.frame, target⟩) :
    after.Counted handles ∧ after.result = answered.result ∧ start.CallEffect after := by
  have hprepares := prepare_prepares (Nat.lt_of_le_of_lt (Nat.le_add_right _ _) hbase) hprepare
  have hpreserved := State.counted_preserved handles
  have hprepared : prepared.Counted handles := (prepare_keeps hpreserved name).ok hcounted hprepare
  have hkept : after.Counted handles :=
    (callLibrary_keeps hpreserved name (Library.standard_keeps hpreserved.stable hfind)).ok
      hcounted hcall
  have hrestore : answered.Discards after (start.givenUp \ {.result}) := by
    rw [hafter, ← restored_places hfind hprepare hanswer hbase]
    exact restore_discards answered _
  have hresult : after.result = answered.result := hrestore.others .result fun h => h.2 rfl
  have hreads := @restored_reads _ _ _ _ _ hfind hprepare hanswer hbase
    ⟨start.stack.top + start.pending, start.stack.frame, target⟩ rfl
  rw [← hafter] at hreads
  refine ⟨hkept, hresult, ?_, fun address => (hreads address).2, fun address => (hreads address).1,
    restored_confined hfind hprepare hanswer hprepared hprepares.result_eq hkept hresult
      hrestore, ?_⟩
  · rcases run_standard_ok hfind hanswer with ⟨hstack, hregisters⟩
    have hrestored := (hprepares.restores hstack hregisters target).1
    rw [← hafter] at hrestored
    have hpc : after.pc = start.pc := congrArg Registers.pc hrestored
    rw [hrestored, hpc]
    rfl
  · have hsave := prepare_discards hprepare
    have hprepareStreams : start.Advances prepared :=
      (start.advances_report _).trans (.of_eq hsave.console hsave.log)
    exact (hprepareStreams.trans (Library.standard_advances hfind hanswer)).trans
      (.of_eq hrestore.console hrestore.log)

end

end Exec

/-! ## Steps -/

namespace Machine

variable {machine : Machine} {state : State} {instruction : Instruction} {name : String}
  {function : Exec Unit} {handles : List TableId}

/-- Whether an instruction calls the library function of a name: its operand stands for that
function or for its name. -/
structure CallsLibrary (machine : Machine) (state : State) (instruction : Instruction)
    (name : String) : Prop where
  opcode_eq : instruction.opcode = .call
  target : machine.program.operandCell state instruction.first = .ok (.libraryFunction name) ∨
    machine.program.operandCell state instruction.first = .ok (.text name)

/-- An instruction that names a function of the library is decoded to its call. -/
theorem CallsLibrary.decode (h : machine.CallsLibrary state instruction name)
    (hfind : machine.library.find? name = some function) :
    machine.decode state instruction = .ok (.callLibrary name function) := by
  have hlibrary : Action.callLibrary name <$> machine.library.find name =
      .ok (.callLibrary name function) := by
    rw [Library.find, hfind]
    rfl
  rcases instruction with ⟨opcode, result, first, second, line⟩
  rcases h with ⟨hopcode, htarget⟩
  cases hopcode
  rcases htarget with htarget | htarget
  · simp only [Machine.decode, htarget]
    exact hlibrary
  · simp only [Machine.decode, htarget]
    exact hlibrary

/-- What a step makes of a call whose function has answered: the machine goes on after the call, the
return register holds the answer, the counts are right, and there is no other effect.  The place to
go on is exact up to `2 ^ 53`. -/
structure Resumes (machine : Machine) (state answered : State) (handles : List TableId) : Prop where
  running : state.pc + 1 ≤ 2 ^ 53 → (machine.step state).1 = .running
  pc_eq : state.pc + 1 ≤ 2 ^ 53 → (machine.step state).2.pc = state.pc + 1
  result_eq : (machine.step state).2.result = answered.result
  counted : (machine.step state).2.Counted handles
  effect : state.CallEffect (machine.step state).2

/-- A call of a standard function can be prepared if there is room for the environment; the function
starts with nil in the return register.  If it answers, the step succeeds and leaves no trace in the
frame that makes the call. -/
theorem library_call_resumes (machine : Machine) (hcounted : state.Counted handles)
    (hgoing : state.finished = false) (hroom : Stack.environmentSize ≤ state.stack.top)
    (hbase : state.stack.top + state.pending < state.stack.size)
    (hframe : state.stack.frame < state.stack.size) (hsize : state.stack.size ≤ 2 ^ 53)
    (hget : machine.program.code[state.pc]? = some instruction)
    (hcalls : machine.CallsLibrary state instruction name)
    (hlibrary : machine.library.find? name = some function)
    (hstandard : Library.standard.find? name = some function) :
    ∃ prepared, (Exec.prepare name).run (fetched state instruction) = .ok () prepared ∧
      prepared.result = .nil ∧
      ∀ answered, function.run prepared = .ok () answered →
        machine.Resumes state answered handles := by
  obtain ⟨⟨⟩, prepared, hprepare, -⟩ :=
    (Exec.prepare_takes name).fits (fetched state instruction) hroom
  have hprepares := @Exec.prepare_prepares name (fetched state instruction) prepared
    (Nat.lt_of_le_of_lt (Nat.le_add_right _ _) hbase) hprepare
  refine ⟨prepared, hprepare, hprepares.result_eq, fun answered hanswer => ?_⟩
  rcases step_callLibrary hsize hframe hbase hgoing hget (hcalls.decode hlibrary)
    (Library.standard_leavesStacks name function hstandard) hprepare hanswer with
    ⟨target, restored, progress, pc, hcall, hrestored, hstep, hexact⟩
  rcases @Exec.callLibrary_effect (fetched state instruction) prepared answered name function
    hstandard hprepare hanswer hbase handles hcounted target restored hcall hrestored with
    ⟨hkept, hresult, heffect⟩
  have hreport : state.Advances (fetched state instruction) := state.advances_report _
  refine ⟨fun hpc => ?_, fun hpc => ?_, ?_, ?_, ?_⟩
  · rw [hstep]
    exact (hexact hpc).1
  · rw [hstep]
    exact (hexact hpc).2
  · rw [hstep]
    exact hresult
  · rw [hstep]
    exact hkept
  · rw [hstep]
    exact ⟨congrArg (fun registers => { registers with pc := pc }) heffect.registers,
      heffect.others, heffect.cleared, heffect.heap,
      (hreport.trans heffect.streams).trans (.of_eq rfl rfl)⟩

def copier : Machine where
  program :=
    { libraryFunctions := #["objectcopy"]
      code :=
        #[⟨.newTable, .absent, ⟨.global, 0⟩, .absent, 1⟩,
          ⟨.pushArgument, .absent, ⟨.global, 0⟩, .absent, 2⟩,
          ⟨.call, .absent, ⟨.libraryFunction, 0⟩, .absent, 2⟩]
      globals := 1 }

def copierCalls : State :=
  (copier.step (copier.step { stack := ⟨Array.replicate 7 .undefined, 5, 5, 1⟩ }).2).2

/-- The call is the last instruction, and there are just the four cells that it needs. -/
theorem library_call_resumes_copier :
    copier.Shared 7 copierCalls [] ∧ copierCalls.pc = 2 ∧ copierCalls.stack.top = 4 ∧
      ∃ answered, copier.Resumes copierCalls answered [] ∧
        (copier.step copierCalls).1 = .running ∧
        (copier.step copierCalls).2.pc = copier.program.code.size := by
  have hstart : copier.Shared 7 { stack := ⟨Array.replicate 7 .undefined, 5, 5, 1⟩ } [] :=
    @Shared.start copier 7 {} {} _ rfl
  have hshared : copier.Shared 7 copierCalls [] := hstart.step.step
  have hpc : copierCalls.pc = 2 := by decide +kernel
  have hget : copier.program.code[copierCalls.pc]? =
      some ⟨.call, .absent, ⟨.libraryFunction, 0⟩, .absent, 2⟩ := by
    rw [hpc]
    rfl
  have hcalls : copier.CallsLibrary copierCalls
      ⟨.call, .absent, ⟨.libraryFunction, 0⟩, .absent, 2⟩ "objectcopy" := ⟨rfl, .inl rfl⟩
  obtain ⟨prepared, hprepare, -, hresumes⟩ := copier.library_call_resumes (hshared.counted rfl)
    (by decide +kernel) (by decide +kernel) (by decide +kernel) (by decide +kernel)
    (by decide +kernel) hget hcalls rfl rfl
  -- The copy succeeds in its frame.
  have hsucceeds : (match (Exec.prepare "objectcopy" >>= fun _ => Library.Standard.copy).run
      (fetched copierCalls ⟨.call, .absent, ⟨.libraryFunction, 0⟩, .absent, 2⟩) with
      | .ok _ _ => true
      | .error _ _ => false) = true := by
    decide +kernel
  rw [Exec.run_bind_of_ok hprepare] at hsucceeds
  cases hanswer : Library.Standard.copy.run prepared with
  | error fault after =>
      rw [hanswer] at hsucceeds
      cases hsucceeds
  | ok x answered =>
      have hresumed := hresumes answered hanswer
      have hnear : copierCalls.pc + 1 ≤ 2 ^ 53 := by
        rw [hpc]
        decide
      refine ⟨hshared, hpc, by decide +kernel, answered, hresumed, hresumed.running hnear, ?_⟩
      rw [hresumed.pc_eq hnear, hpc]
      rfl

end Machine
end CellMachine
