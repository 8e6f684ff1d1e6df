import Mathlib
import CellMachine.Proofs.Machine.Trajectory

/-!
# Free cells

The cells at the top of the stack and below are free.  As long as no step raises a fault they are
undefined, whatever the program does, also if it overwrites the words of its own environments: what
is written lies above the top, the top is moved down past what was pushed, and a return clears what
lies between the two tops before the cells below the new one count as free.

So locals start out undefined, and no text or table stays behind in a cell that is free again:
`Machine.freshCells_of_succeeds`.  After a fault this can fail, since a push that has no room left
has already written its cell.
-/

namespace CellMachine

/-! ## Stacks without leftovers -/

/-- Whether the free cells of a stack, those at the top and below, are undefined. -/
def Stack.Clean (stack : Stack) : Prop :=
  ∀ address ≤ stack.top, stack.read address = .undefined

/-- Moving the top down keeps a stack clean if the cells that stay free are left alone. -/
theorem Stack.Clean.of_read {stack stack' : Stack} (h : stack.Clean)
    (htop : stack'.top ≤ stack.top)
    (hread : ∀ address ≤ stack'.top, stack'.read address = stack.read address) : stack'.Clean := by
  intro address haddress
  rw [hread address haddress]
  exact h address (haddress.trans htop)

namespace State

variable {state : State}

/-- A write above the top. -/
theorem clean_overwrite (h : state.stack.Clean) {place : Place}
    (hplace : ∀ address, place = .slot address → state.stack.top < address) (cell : Cell) :
    (state.overwrite place cell).stack.Clean := by
  have htop : (state.overwrite place cell).stack.top = state.stack.top :=
    congrArg Registers.top (state.registers_overwrite place cell)
  refine h.of_read (Nat.le_of_eq htop) fun address haddress => ?_
  refine state.read_overwrite_of_ne cell fun heq => ?_
  exact absurd (hplace address heq) (Nat.not_lt_of_le (htop ▸ haddress))

/-- A copy above the top leaves the free cells alone. -/
theorem clean_assign (h : state.stack.Clean) {place : Place}
    (hplace : ∀ address, place = .slot address → state.stack.top < address) (cell : Cell) :
    (state.assign place cell).stack.Clean := by
  refine clean_overwrite ?_ ?_ cell
  · rw [state.stack_checkDefined]
    exact h
  · rw [state.stack_checkDefined]
    exact hplace

/-- What an operand names lies above the top. -/
theorem top_lt_of_place {operand : Operand} {place : Place}
    (h : state.place operand = .ok place) (address : Nat) (heq : place = .slot address) :
    state.stack.top < address :=
  ((state.place_yields operand).ok h address heq).2.1

end State

/-! ## Parts of instructions -/

namespace Exec

variable {start after : State}

/-- A word that was pushed is no longer in a free cell. -/
theorem pushWord_clean {word : Nat} (h : start.stack.Clean)
    (hrun : (pushWord word).run start = .ok () after) : after.stack.Clean := by
  have hpushes := pushWord_pushes hrun
  have htop := hpushes.top_eq
  have hpos := hpushes.top_pos
  refine h.of_read (by omega) fun address haddress => hpushes.read_of_ne address ?_
  omega

/-- Between the pushes of an environment the stack is clean as well. -/
theorem forM_pushWord_clean (words : List Nat) (h : start.stack.Clean)
    (hrun : (words.forM pushWord).run start = .ok () after) : after.stack.Clean := by
  induction words generalizing start with
  | nil =>
      cases hrun
      exact h
  | cons word words ih =>
      rcases run_bind_ok hrun with ⟨⟨⟩, between, hpush, hrun⟩
      exact ih (pushWord_clean h hpush) hrun

/-- A saved environment lies above the new top. -/
theorem saveEnvironment_clean (h : start.stack.Clean)
    (hrun : saveEnvironment.run start = .ok () after) : after.stack.Clean := by
  rcases run_bind_ok hrun with ⟨state, between, hget, hrun⟩
  cases hget
  rcases run_bind_ok hrun with ⟨⟨⟩, s₁, h₁, hrun⟩
  rcases run_bind_ok hrun with ⟨⟨⟩, s₂, h₂, hrun⟩
  rcases run_bind_ok hrun with ⟨⟨⟩, s₃, h₃, h₄⟩
  have c₁ := pushWord_clean h h₁
  have c₂ := pushWord_clean c₁ h₂
  have c₃ := pushWord_clean c₂ h₃
  exact pushWord_clean c₃ h₄

/-- An argument that was pushed is no longer in a free cell. -/
theorem pushArgument_clean {cell : Cell} (h : start.stack.Clean)
    (hrun : (pushArgument cell).run start = .ok () after) : after.stack.Clean := by
  rcases run_pushArgument_ok hrun with ⟨hregisters, hpos, hread⟩
  have htop : after.stack.top = start.stack.top - 1 := congrArg Registers.top hregisters
  refine h.of_read (by omega) fun address haddress => hread address ?_
  omega

/-- Locals are reserved among the free cells. -/
theorem enter_clean {name : String} {localSize : Nat} (h : start.stack.Clean)
    (hrun : (enter name localSize).run start = .ok () after) : after.stack.Clean := by
  rcases run_enter_ok hrun with ⟨hregisters, -, hread⟩
  have htop : after.stack.top = start.stack.top - localSize := congrArg Registers.top hregisters
  exact h.of_read (by omega) fun address _ => hread address

/-- Leaving a frame clears the cells that its function had allocated, wherever the top goes. -/
theorem leave_clean {target : Nat} (h : start.stack.Clean)
    (hrun : leave.run start = .ok target after) : after.stack.Clean := by
  rcases run_bind_ok hrun with ⟨environment, between, hdecide, hrest⟩
  rcases run_decide_ok hdecide with ⟨-, rfl⟩
  rcases run_bind_ok hrest with ⟨⟨⟩, between', hrestore, hreturn⟩
  cases hrestore
  cases hreturn
  change (restore between environment).stack.Clean
  have htop : (restore between environment).stack.top = environment.top := by
    exact congrArg Registers.top (State.registers_clear _ _ _)
  intro address haddress
  rw [htop] at haddress
  rcases Nat.lt_or_ge between.stack.top address with hlt | hle
  · exact State.read_clear _ hlt haddress
  · -- A free cell of the function stays as it was, which is undefined.
    calc
      (restore between environment).stack.read address = between.stack.read address :=
        State.read_clear_of_lt _ (.inl (Nat.lt_succ_of_le hle))
      _ = .undefined := h address hle

/-- What the call has pushed is cleared when it returns. -/
theorem callLibrary_clean {name : String} {function : Exec Unit} {target : Nat}
    (hfind : Library.standard.find? name = some function) (h : start.stack.Clean)
    (hrun : (callLibrary name function).run start = .ok target after) : after.stack.Clean := by
  rcases run_bind_ok hrun with ⟨⟨⟩, reported, hreport, hrun⟩
  cases hreport
  rcases run_bind_ok hrun with ⟨⟨⟩, saved, hsave, hrun⟩
  rcases run_bind_ok hrun with ⟨⟨⟩, opened, hopen, hrun⟩
  cases hopen
  rcases run_bind_ok hrun with ⟨⟨⟩, answered, hanswer, hrun⟩
  cases hanswer
  rcases run_bind_ok hrun with ⟨⟨⟩, called, hfunction, hleave⟩
  have hsaved : saved.stack.Clean :=
    @saveEnvironment_clean (start.report (.callsLibrary name start.pending)) saved h hsave
  -- The function leaves the stack alone.
  have hcalled : called.stack.Clean := by
    rw [(run_standard_ok hfind hfunction).1]
    exact hsaved
  exact leave_clean hcalled hleave

/-- An action that succeeds leaves the stack clean. -/
theorem perform_clean {machine : Machine} (hlibrary : machine.library = .standard)
    {instruction : Instruction} {action : Action} {flow : Flow}
    (hdecoded : machine.Decoded start instruction action) (h : start.stack.Clean)
    (hrun : (perform action).run start = .ok flow after) : after.stack.Clean := by
  -- What an operand names lies above the top, and the top moves below all that is pushed.
  cases hdecoded with
  | skip | jump =>
      cases hrun
      exact h
  | store hplace =>
      cases hrun
      exact State.clean_overwrite h (State.top_lt_of_place hplace) _
  | copy hplace =>
      cases hrun
      exact State.clean_assign h (State.top_lt_of_place hplace) _
  | create hplace =>
      cases hrun
      have hstack := start.stack_createTable []
      refine State.clean_overwrite (hstack ▸ h) (fun address heq => ?_) _
      exact hstack ▸ State.top_lt_of_place hplace address heq
  | insert =>
      cases hrun
      exact (start.stack_insertEntry _ _ _).symm ▸ h
  | push =>
      rcases run_bind_ok hrun with ⟨⟨⟩, between, hpush, hrun⟩
      cases hrun
      exact pushArgument_clean h hpush
  | callUser =>
      rcases run_bind_ok hrun with ⟨⟨⟩, between, hcall, hrun⟩
      cases hrun
      rcases run_bind_ok hcall with ⟨⟨⟩, reported, hreport, hsave⟩
      cases hreport
      exact @saveEnvironment_clean (start.report _) _ h hsave
  | callLibrary _ hfind =>
      rcases run_bind_ok hrun with ⟨target, between, hcall, hrun⟩
      cases hrun
      exact callLibrary_clean (hlibrary ▸ hfind) h hcall
  | enter =>
      rcases run_bind_ok hrun with ⟨⟨⟩, between, henter, hrun⟩
      cases hrun
      exact enter_clean h henter
  | leave =>
      rcases run_bind_ok hrun with ⟨target, between, hleave, hrun⟩
      cases hrun
      exact leave_clean h hleave

end Exec

/-! ## Steps -/

namespace Machine

variable {machine : Machine} {stackSize : Nat} {start state : State} {console : Console} {log : Log}

/-- A step without a fault leaves the stack clean. -/
theorem step_clean (hlibrary : machine.library = .standard) (h : state.stack.Clean)
    (hsucceeds : machine.SucceedsAt state) :
    (machine.step state).2.stack.Clean := by
  have hexecute {instruction : Instruction} {flow : Flow} {after : State}
      (hrun : (machine.execute instruction).run (fetched state instruction) = .ok flow after) :
      after.stack.Clean := by
    rcases Exec.run_bind_ok hrun with ⟨action, between, hdecide, hperform⟩
    rcases Exec.run_decide_ok hdecide with ⟨hdecode, rfl⟩
    have hdecoded := (machine.decode_yields _ instruction).ok hdecode
    exact Exec.perform_clean hlibrary hdecoded h hperform
  rw [SucceedsAt] at hsucceeds
  generalize hafter : machine.step state = outcome at hsucceeds ⊢
  cases hafter ▸ machine.step_outcome state with
  | finished | finishes => exact h
  | next hgoing hget hrun | jump hgoing hget hrun =>
      have hclean := hexecute hrun
      exact hclean
  | outside | astray | trapped =>
      rcases hsucceeds with hrunning | hfinished
      · cases hrunning
      · cases hfinished

/-- The free cells are undefined after every step that raises no fault. -/
theorem stateAfter_clean (hlibrary : machine.library = .standard)
    (hstart : machine.start stackSize console log = .ok start) {n : Nat}
    (hsucceeds : machine.Succeeds start n) : (machine.stateAfter start n).stack.Clean := by
  induction n with
  | zero => exact fun address _ => read_of_start hstart address
  | succ n ih =>
      exact step_clean hlibrary (ih (hsucceeds.mono n.le_succ)) (hsucceeds n n.lt_succ_self)

/-! ## The statement -/

/-- Whether a step returns from a function of the program or calls one of the library. -/
def Returns (machine : Machine) (state : State) : Prop :=
  ∃ instruction action, machine.program.code[state.pc]? = some instruction ∧
    machine.decode state instruction = .ok action ∧
      (action = .leave ∨ ∃ name function, action = .callLibrary name function)

/-- What it means for a state that its free cells hold nothing. -/
structure FreshCells (machine : Machine) (state : State) : Prop where
  /-- Every cell at the top or below is undefined. -/
  free : ∀ address ≤ state.stack.top, state.stack.read address = .undefined
  /-- The locals of a function that is entered are there, and are undefined. -/
  locals : ∀ instruction name localSize, machine.program.code[state.pc]? = some instruction →
    machine.decode state instruction = .ok (.enter name localSize) →
    (machine.step state).1 = .running → ∀ index : UInt32, index.toNat < localSize →
      ∃ address, (machine.step state).2.stack.localAddress index = .ok address ∧
        (machine.step state).2.stack.read address = .undefined
  /-- What a function leaves behind when it returns is neither a text nor a table. -/
  returned : machine.Returns state → (machine.step state).1 = .running →
    ∀ address ≤ (machine.step state).2.stack.top,
      (∀ s, (machine.step state).2.stack.read address ≠ .text s) ∧
        ∀ id, (machine.step state).2.stack.read address ≠ .table id
  /-- The cell that a push overwrites is undefined, also between the words of an environment;
  without any words before, this is the cell of an argument. -/
  pushed : ∀ (before : State) (words : List Nat) (after : State), before.stack = state.stack →
    (words.forM Exec.pushWord).run before = .ok () after →
    after.stack.read after.stack.top = .undefined

/-- In every state of a run without a fault, the free cells hold nothing. -/
theorem freshCells_of_succeeds (machine : Machine) (hlibrary : machine.library = .standard)
    (hstart : machine.start stackSize console log = .ok start) (n : Nat)
    (hsucceeds : machine.Succeeds start n) :
    machine.FreshCells (machine.stateAfter start n) := by
  have hclean := stateAfter_clean hlibrary hstart hsucceeds
  have hsound := (reachable_stateAfter hstart n).sound hlibrary
  generalize machine.stateAfter start n = state at hclean hsound
  have hrunning (h : (machine.step state).1 = .running) :
      (machine.step state).2.stack.Clean :=
    step_clean hlibrary hclean (.inl h)
  refine ⟨hclean, ?_, ?_, ?_⟩
  · intro instruction name localSize hget hdecode hstep index hindex
    rcases step_running hstep hget hdecode with ⟨flow, after, hrun, hafter⟩
    rcases Exec.run_bind_ok hrun with ⟨⟨⟩, between, henter, hreturn⟩
    cases hreturn
    rcases hafter with ⟨-, hafter⟩ | ⟨target, hflow, -⟩
    · rw [hafter]
      rcases Exec.run_enter_ok henter with ⟨hregisters, hle, hread⟩
      have hframe : after.stack.frame = state.stack.top := congrArg Registers.frame hregisters
      have htop : after.stack.top = state.stack.top - localSize :=
        congrArg Registers.top hregisters
      have hsize : after.stack.size = state.stack.size := congrArg Registers.size hregisters
      -- The locals lie between the new top and the frame, which was the top before.
      have hroom : localSize ≤ state.stack.top := hle
      have htopLt := hsound.top_lt
      have hsizeEq := hsound.size_eq
      have hlocal : after.stack.localAddress index = .ok (after.stack.frame - index.toNat) :=
        Stack.below_eq (by omega) (by omega)
      refine ⟨_, hlocal, (hread _).trans (hclean _ ?_)⟩
      exact hframe ▸ Nat.sub_le _ _
    · cases hflow
  · intro _ hstep address haddress
    rw [hrunning hstep address haddress]
    exact ⟨fun _ => nofun, fun _ => nofun⟩
  · intro before words after hstack hrun
    exact Exec.forM_pushWord_clean words (hstack ▸ hclean) hrun _ (Nat.le_refl _)

def borrower : Machine where
  program := {
    strings := #["lent"]
    userFunctions := #[⟨2, 1, "f"⟩]
    code := #[⟨.pushArgument, .absent, ⟨.string, 0⟩, .absent, 1⟩,
      ⟨.call, .absent, ⟨.userFunction, 0⟩, .absent, 1⟩,
      ⟨.enter, .absent, ⟨.userFunction, 0⟩, .absent, 2⟩,
      ⟨.assign, ⟨.local, 0⟩, ⟨.formal, 0⟩, .absent, 3⟩,
      ⟨.leave, .absent, .absent, .absent, 4⟩] }

/-- After the return all cells are free, and the two with the text were among them. -/
theorem freshCells_borrower :
    ∃ start, borrower.start 9 {} {} = .ok start ∧ borrower.Succeeds start 5 ∧
      (borrower.stateAfter start 4).stack.read 8 = .text "lent" ∧
      (borrower.stateAfter start 5).stack.top = 8 ∧
      borrower.FreshCells (borrower.stateAfter start 5) := by
  have hstart : borrower.start 9 {} {} =
      .ok { stack := ⟨Array.replicate 9 .undefined, 8, 8, 0⟩ } := rfl
  have hsucceeds : borrower.Succeeds { stack := ⟨Array.replicate 9 .undefined, 8, 8, 0⟩ } 5 := by
    decide +kernel
  exact ⟨_, hstart, hsucceeds, by decide +kernel, by decide +kernel,
    freshCells_of_succeeds borrower rfl hstart 5 hsucceeds⟩

end Machine
end CellMachine
