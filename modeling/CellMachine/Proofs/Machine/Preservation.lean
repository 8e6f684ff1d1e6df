import Mathlib
import CellMachine.Proofs.Machine.Calls
import CellMachine.Proofs.Machine.Step

/-!
# What instructions preserve

An instruction changes a state by few kinds of changes: it writes a cell that the state offers to a
place, creates a table, stores an entry, and moves the pointers of the stack.  A property that
survives each of these survives every instruction, whether it succeeds or raises a fault half way:
`Exec.perform_keeps`.  Invariants of states are proved by showing that they are `State.Preserved`.
-/

namespace CellMachine

/-! ## Preserved properties -/

/-- Whether the pointers of a stack were moved to where an instruction can move them: the top down,
the frame to the top, or both to addresses of the stack. -/
structure Stack.MovedFrom (after before : Stack) : Prop where
  cells_eq : after.cells = before.cells
  globals_eq : after.globals = before.globals
  top_le : after.top ≤ before.top ∨ after.top < before.size
  frame_le : after.frame = before.frame ∨ after.frame = before.top ∨ after.frame < before.size

def State.HasPlace (state : State) (place : Place) : Prop :=
  ∀ address, place = .slot address → address < state.stack.size

/-- A property of states that survives every kind of change that an instruction makes. -/
structure State.Preserved (property : State → Prop) : Prop where
  report : ∀ state event, property state → property (state.report event)
  console : ∀ state console, property state → property { state with console := console }
  write : ∀ state place cell, state.Offers cell → property state →
    property (state.overwrite place cell)
  table : ∀ state place entries, state.HasPlace place → state.OffersEntries entries →
    property state → property ((state.createTable entries).2.overwrite place
      (.table (state.createTable entries).1))
  insert : ∀ state id key cell, state.Offers (.table id) → state.Offers cell → property state →
    property (state.insertEntry id key cell)
  move : ∀ state stack pending, stack.MovedFrom state.stack → property state →
    property { state with stack := stack, pending := pending }

namespace State

variable {property : State → Prop}

/-- What survives every change survives those of library functions. -/
theorem Preserved.stable (h : Preserved property) : Stable property where
  report := h.report
  console := h.console
  answer state := h.write state .result
  table state entries := h.table state .result entries nofun

theorem Offers.checkDefined {state : State} {cell other : Cell} (h : state.Offers cell) :
    (state.checkDefined other).Offers cell := by
  have hread (place : Place) : (state.checkDefined other).read place = state.read place := by
    rw [State.checkDefined]
    split <;> cases place <;> rfl
  cases h with
  | plain h => exact .plain h
  | place place => exact hread place ▸ .place place
  | entry id key h => exact .entry id key (state.heap_checkDefined other ▸ h)

theorem Preserved.checkDefined (h : Preserved property) {state : State} (cell : Cell)
    (hs : property state) : property (state.checkDefined cell) := by
  rw [State.checkDefined]
  split
  · exact h.report state _ hs
  · exact hs

/-- A copied cell is offered by the state, before and after it was checked. -/
theorem Preserved.assign (h : Preserved property) {state : State} (place : Place) {cell : Cell}
    (hcell : state.Offers cell) (hs : property state) : property (state.assign place cell) :=
  h.write _ place cell hcell.checkDefined (h.checkDefined cell hs)

/-- Clearing writes undefined cells, which hold nothing. -/
theorem Preserved.clear (h : Preserved property) {state : State} (first last : Nat)
    (hs : property state) : property (state.clear first last) :=
  state.clear_induction property hs fun state _ _ _ hs =>
    h.write state _ .undefined (.plain rfl) hs

end State

/-! ## Parts of instructions -/

namespace Exec

variable {property : State → Prop} (h : State.Preserved property)
include h

/-- Moving the top down. -/
theorem updateStack_keeps {f : Stack → Except Fault Stack}
    (hf : ∀ stack, Yields (f stack) fun after =>
      ∃ count, after = { stack with top := stack.top - count }) :
    Keeps property (updateStack f) := by
  refine Meets.updateStack (fun state stack hs hstack => ?_) fun state fault hs hfault =>
    ⟨(hf _).error hfault, hs⟩
  rcases (hf _).ok hstack with ⟨count, rfl⟩
  exact h.move state _ state.pending ⟨rfl, rfl, .inl (Nat.sub_le _ _), .inl rfl⟩ hs

/-- A moved top keeps what survives a moved pointer. -/
theorem lower_keeps : Keeps property (updateStack Stack.lower) :=
  updateStack_keeps h fun stack => stack.lower_yields.mono fun _ hlower => ⟨1, hlower.2⟩

theorem pushWord_keeps (word : Nat) : Keeps property (pushWord word) := by
  refine Keeps.bind (Meets.modify fun state hs => ?_) fun _ => lower_keeps h
  exact h.write state _ _ (.plain rfl) hs

theorem forM_pushWord_keeps (words : List Nat) : Keeps property (words.forM pushWord) := by
  induction words with
  | nil => exact Keeps.pure _
  | cons word words ih =>
      change Keeps _ (pushWord word >>= fun _ => words.forM pushWord)
      exact (pushWord_keeps h word).bind fun _ => ih

/-- A saved environment is four words and a moved top. -/
theorem saveEnvironment_keeps : Keeps property saveEnvironment := by
  refine Keeps.get.bind fun state => (pushWord_keeps h _).bind fun _ => ?_
  exact (pushWord_keeps h _).bind fun _ => (pushWord_keeps h _).bind fun _ => pushWord_keeps h _

theorem openFrame_keeps : Keeps property openFrame :=
  Meets.modify fun state hs =>
    h.move state _ 0 ⟨rfl, rfl, .inl (Nat.le_refl _), .inr (.inl rfl)⟩ hs

/-- Entering moves the frame and the top. -/
theorem enter_keeps (name : String) (localSize : Nat) : Keeps property (enter name localSize) := by
  refine (openFrame_keeps h).bind fun _ => Keeps.bind ?_ fun _ => ?_
  · exact updateStack_keeps h fun stack =>
      (stack.reserve_yields localSize).mono fun _ hreserve => ⟨_, hreserve.2⟩
  · exact Meets.modify fun state hs => h.report state _ hs

/-- Leaving clears cells and restores the pointers. -/
theorem leave_keeps : Keeps property leave := by
  refine Meets.bind (Meets.asks fun state => environment_yields state.stack) fun environment => ?_
  refine Meets.bind (Meets.modify fun state hs => ?_) fun _ => Keeps.pure _
  -- Both pointers are loaded from cells, but they were checked against the stack.
  rcases hs with ⟨hs, -, htop, hframe⟩
  exact h.clear _ _ (h.move state _ state.pending ⟨rfl, rfl, .inr htop, .inr (.inr hframe)⟩ hs)

theorem callUser_keeps (address : Nat) : Keeps property (callUser address) :=
  Keeps.bind (Meets.modify fun state hs => h.report state _ hs) fun _ => saveEnvironment_keeps h

theorem prepare_keeps (name : String) : Keeps property (prepare name) := by
  refine Keeps.bind (Meets.modify fun state hs => h.report state _ hs) fun _ => ?_
  refine (saveEnvironment_keeps h).bind fun _ => (openFrame_keeps h).bind fun _ => ?_
  exact Library.Standard.setResult_keeps h.stable rfl

/-- A call keeps what its function keeps. -/
theorem callLibrary_keeps {function : Exec Unit} (name : String)
    (hfunction : Keeps property function) : Keeps property (callLibrary name function) := by
  rw [callLibrary_eq]
  exact (prepare_keeps h name).bind fun _ => hfunction.bind fun _ => leave_keeps h

/-- A pushed argument is offered by the state. -/
theorem pushArgument_meets {cell : Cell} :
    Meets (fun state => property state ∧ state.Offers cell) (pushArgument cell)
      (fun _ => property) fun fault state => fault.IsLocal ∧ property state := by
  refine Meets.bind (Meets.modify fun state hs => ?_) fun _ => lower_keeps h
  have hassigned := h.assign (.slot state.stack.top) hs.2 hs.1
  exact h.move _ _ _ ⟨rfl, rfl, .inl (Nat.le_refl _), .inl rfl⟩ hassigned

/-! ## Instructions -/

/-- Performing what a state decodes an instruction to. -/
theorem perform_keeps {machine : Machine} (hlibrary : machine.library = .standard) {state : State}
    {instruction : Instruction} {action : Action} (hs : property state)
    (hdecoded : machine.Decoded state instruction action) :
    Meets (fun before => before = state) (perform action) (fun _ => property)
      fun fault state => fault.IsLocal ∧ property state := by
  -- An action starts in the state in which it was decoded, since decoding changes nothing.
  have hpure (before : State → Prop) (hbefore : ∀ state, before state → property state)
      (flow : Flow) : Meets before (pure flow : Exec Flow) (fun _ => property)
        fun fault state => fault.IsLocal ∧ property state :=
    Meets.pure hbefore
  have hmodify {f : State → State} (hf : property (f state)) :
      Meets (fun before => before = state) (modify f : Exec Unit) (fun _ => property)
        fun fault state => fault.IsLocal ∧ property state :=
    Meets.modify fun _ heq => heq ▸ hf
  have hkeeps {α : Type} {m : Exec α} (hm : Keeps property m) :
      Meets (fun before => before = state) m (fun _ => property)
        fun fault state => fault.IsLocal ∧ property state :=
    fun _ heq => hm _ (heq ▸ hs)
  cases hdecoded with
  | skip => exact hpure (· = state) (fun _ heq => heq ▸ hs) _
  | jump target hopcode => exact hpure (· = state) (fun _ heq => heq ▸ hs) _
  | store hplace hcell =>
      exact (hmodify (h.write state _ _ (.plain hcell) hs)).bind fun _ => hpure _ (fun _ hs => hs) _
  | copy hplace hcell =>
      exact (hmodify (h.assign _ hcell hs)).bind fun _ => hpure _ (fun _ hs => hs) _
  | @create place hplace =>
      have hin : state.HasPlace place := fun address heq =>
        ((state.place_yields instruction.first).ok hplace address heq).2.2
      have hcreated := h.table state place [] hin (.inl fun _ hmem => nomatch hmem) hs
      exact (hmodify hcreated).bind fun _ => hpure _ (fun _ hs => hs) _
  | insert hid hcell =>
      exact (hmodify (h.insert state _ _ _ hid hcell hs)).bind fun _ => hpure _ (fun _ hs => hs) _
  | push hcell =>
      refine Meets.bind ?_ fun _ => hpure _ (fun _ hs => hs) _
      rintro _ rfl
      exact pushArgument_meets h _ ⟨hs, hcell⟩
  | callUser hopcode hstart =>
      exact (hkeeps (callUser_keeps h _)).bind fun _ => hpure _ (fun _ hs => hs) _
  | callLibrary hopcode hfind =>
      have hfunction := Library.standard_keeps h.stable (hlibrary ▸ hfind)
      exact (hkeeps (callLibrary_keeps h _ hfunction)).bind fun _ => hpure _ (fun _ hs => hs) _
  | enter name localSize hopcode =>
      exact (hkeeps (enter_keeps h name localSize)).bind fun _ => hpure _ (fun _ hs => hs) _
  | leave hopcode => exact (hkeeps (leave_keeps h)).bind fun _ => hpure _ (fun _ hs => hs) _

/-- Executing an instruction keeps what is preserved, also if it raises a fault. -/
theorem execute_keeps {machine : Machine} (hlibrary : machine.library = .standard)
    (instruction : Instruction) : Keeps property (machine.execute instruction) := by
  refine Meets.bind (Meets.asks fun state => machine.decode_yields state instruction) ?_
  rintro action state ⟨hs, hdecoded⟩
  exact perform_keeps h hlibrary hs hdecoded state rfl

end Exec

/-! ## Finishing -/

theorem State.finished_preserved (finished : Bool) :
    State.Preserved fun state => state.finished = finished where
  report _ _ h := h
  console _ _ h := h
  write state _ _ _ h := (congrArg Registers.finished (state.registers_overwrite _ _)).trans h
  table state _ _ _ _ h := (congrArg Registers.finished
    ((registers_overwrite _ _ _).trans (state.registers_createTable _))).trans h
  insert state id key cell _ _ h :=
    (congrArg Registers.finished (state.registers_insertEntry id key cell)).trans h
  move _ _ _ _ h := h

/-- No action finishes a machine, if the functions of its library leave the registers alone. -/
theorem Exec.perform_finished {machine : Machine} (hlibrary : machine.library.LeavesStacks)
    {state start after : State} {instruction : Instruction} {action : Action} {flow : Flow}
    (hdecoded : machine.Decoded state instruction action)
    (hrun : (perform action).run start = .ok flow after) : after.finished = start.finished := by
  have hpreserved := State.finished_preserved start.finished
  -- Writes keep all registers; calls are put together from computations that keep this one.
  cases hdecoded with
  | skip | jump =>
      cases hrun
      rfl
  | store =>
      cases hrun
      exact congrArg Registers.finished (start.registers_overwrite _ _)
  | copy =>
      cases hrun
      exact congrArg Registers.finished (start.registers_assign _ _)
  | create =>
      cases hrun
      exact congrArg Registers.finished
        ((State.registers_overwrite _ _ _).trans (start.registers_createTable _))
  | @insert id key cell =>
      cases hrun
      exact congrArg Registers.finished (start.registers_insertEntry id key cell)
  | push =>
      rcases run_bind_ok hrun with ⟨⟨⟩, between, hpush, hnext⟩
      cases hnext
      exact congrArg Registers.finished (run_pushArgument_ok hpush).1
  | callUser =>
      rcases run_bind_ok hrun with ⟨⟨⟩, between, hcall, hjump⟩
      cases hjump
      exact (callUser_keeps hpreserved _).ok rfl hcall
  | callLibrary hopcode hfind =>
      rcases run_bind_ok hrun with ⟨target, between, hcall, hjump⟩
      cases hjump
      rw [callLibrary_eq] at hcall
      rcases run_bind_ok hcall with ⟨⟨⟩, prepared, hprepare, hrest⟩
      rcases run_bind_ok hrest with ⟨⟨⟩, answered, hanswer, hleave⟩
      have hprepared : prepared.finished = start.finished :=
        (prepare_keeps hpreserved _).ok rfl hprepare
      have hanswered : answered.finished = prepared.finished :=
        congrArg Registers.finished (hlibrary _ _ hfind _ _ hanswer).2
      exact (leave_keeps hpreserved).ok (hanswered.trans hprepared) hleave
  | enter =>
      rcases run_bind_ok hrun with ⟨⟨⟩, between, henter, hnext⟩
      cases hnext
      exact congrArg Registers.finished (run_enter_ok henter).1
  | leave =>
      rcases run_bind_ok hrun with ⟨target, between, hleave, hjump⟩
      cases hjump
      exact (leave_keeps hpreserved).ok rfl hleave

/-! ## Steps -/

/-- A step keeps what is preserved, if it is the same at every place in the code. -/
theorem Machine.step_keeps {property : State → Prop} (h : State.Preserved property)
    (hmove : ∀ state pc finished, property state →
      property { state with pc := pc, finished := finished })
    {machine : Machine} (hlibrary : machine.library = .standard) {state : State}
    (hs : property state) : property (machine.step state).2 := by
  have hkeeps (instruction : Instruction) := Exec.execute_keeps h hlibrary instruction
  have hfetched (instruction : Instruction) : property (fetched state instruction) :=
    h.report state _ hs
  generalize hafter : machine.step state = after
  cases hafter ▸ machine.step_outcome state with
  | finished | outside => exact hs
  | finishes => exact hmove _ _ true (h.report state .finished hs)
  | @next instruction after _ _ hrun | @jump instruction after _ _ _ hrun =>
      exact hmove after _ after.finished ((hkeeps instruction).ok (hfetched instruction) hrun)
  | @astray instruction _ _ _ _ hrun =>
      exact (hkeeps instruction).ok (hfetched instruction) hrun
  | @trapped instruction _ _ _ _ hrun =>
      exact ((hkeeps instruction).error (hfetched instruction) hrun).2

end CellMachine
