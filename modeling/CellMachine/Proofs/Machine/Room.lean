import Mathlib
import CellMachine.Proofs.Machine.Calls
import CellMachine.Proofs.Machine.Faults

/-!
# Room on the stack

Some actions make room on the stack: for an argument, for the environment of a call, or for the
locals of a function.  `Exec.Takes` says of a computation that it fails if and only if there is too
little room for it, and composes; so an action overflows the stack exactly if `Action.room` is more
than what is free.  `Machine.Asks` says the same of an instruction and its operands.
-/

namespace CellMachine

def Action.room : Action → Nat
  | .push _ => 1
  | .callUser _ | .callLibrary _ _ => Stack.environmentSize
  | .enter _ localSize => localSize
  | _ => 0

namespace Exec

/-! ## Computations -/

section

variable {α β : Type}

def Overflows (m : Exec α) (start : State) : Prop :=
  ∃ after, m.run start = .error .stackOverflow after

theorem Raises.not_overflows {m : Exec α} (h : Raises (· ≠ .stackOverflow) m) (start : State) :
    ¬ Overflows m start := by
  rintro ⟨after, hrun⟩
  exact h.error hrun rfl

/-- What follows a computation does not overflow the stack, so the whole does if and only if the
computation does. -/
theorem overflows_bind_iff {m : Exec α} {f : α → Exec β}
    (hf : ∀ x, Raises (· ≠ .stackOverflow) (f x)) (start : State) :
    Overflows (m >>= f) start ↔ Overflows m start := by
  cases hrun : m.run start with
  | error fault after =>
      simp only [Overflows, EStateM.run_bind, hrun, EStateM.Result.error.injEq]
  | ok x between =>
      simp only [Overflows, EStateM.run_bind, hrun]
      refine iff_of_false ((hf x).not_overflows between) ?_
      rintro ⟨after, herror⟩
      cases herror

/-- Whether a computation takes a count of free cells.  If there are so many it succeeds, and they
are no longer free; if there are fewer the stack overflows. -/
structure Takes (room : Nat) (m : Exec α) : Prop where
  fits : ∀ start : State, room ≤ start.stack.top →
    ∃ x after, m.run start = .ok x after ∧ after.stack.top + room = start.stack.top
  overflows : ∀ start : State, start.stack.top < room → Overflows m start

/-- A computation overflows if it takes more cells than there are free. -/
theorem Takes.overflows_iff {m : Exec α} {room : Nat} (h : Takes room m) (start : State) :
    Overflows m start ↔ start.stack.top < room := by
  refine ⟨?_, h.overflows start⟩
  rintro ⟨after, hrun⟩
  by_contra hle
  obtain ⟨x, after', hfits, -⟩ := h.fits start (Nat.le_of_not_lt hle)
  cases hrun.symm.trans hfits

theorem Takes.pure (x : α) : Takes 0 (pure x) :=
  ⟨fun start _ => ⟨x, start, rfl, rfl⟩, fun _ hlt => absurd hlt (Nat.not_lt_zero _)⟩

/-- What is changed first is not the top. -/
theorem Takes.modify_bind {f : State → State} {g : Unit → Exec α} {room : Nat}
    (hf : ∀ state, (f state).stack.top = state.stack.top) (hg : Takes room (g ())) :
    Takes room (modify f >>= g) := by
  refine ⟨fun start hle => ?_, fun start hlt => ?_⟩
  · obtain ⟨x, after, hrun, htop⟩ := hg.fits (f start) (by rwa [hf])
    exact ⟨x, after, hrun, htop.trans (hf start)⟩
  · exact hg.overflows (f start) (by rwa [hf])

theorem Takes.get_bind {f : State → Exec α} {room : Nat} (h : ∀ state, Takes room (f state)) :
    Takes room (get >>= f) :=
  ⟨fun start => (h start).fits start, fun start => (h start).overflows start⟩

/-- Two computations in a row take the cells of both. -/
theorem Takes.bind {m : Exec α} {f : α → Exec β} {room room' : Nat} (hm : Takes room m)
    (hf : ∀ x, Takes room' (f x)) : Takes (room + room') (m >>= f) := by
  refine ⟨fun start hle => ?_, fun start hlt => ?_⟩
  · obtain ⟨x, between, hrun, htop⟩ := hm.fits start (by omega)
    obtain ⟨y, after, hrun', htop'⟩ := (hf x).fits between (by omega)
    exact ⟨y, after, (run_bind_of_ok hrun).trans hrun', by omega⟩
  · -- Either the first computation lacks room, or what it leaves is too little for the second.
    rcases Nat.lt_or_ge start.stack.top room with hfirst | hfirst
    · obtain ⟨after, hrun⟩ := hm.overflows start hfirst
      refine ⟨after, ?_⟩
      rw [EStateM.run_bind, hrun]
    · obtain ⟨x, between, hrun, htop⟩ := hm.fits start hfirst
      obtain ⟨after, hrun'⟩ := (hf x).overflows between (by omega)
      exact ⟨after, (run_bind_of_ok hrun).trans hrun'⟩

/-- An operation on the stack takes as many cells as it moves the top down. -/
theorem Takes.updateStack {f : Stack → Except Fault Stack} {room : Nat}
    (hfits : ∀ stack, room ≤ stack.top →
      ∃ stack', f stack = .ok stack' ∧ stack'.top + room = stack.top)
    (hoverflows : ∀ stack, stack.top < room → f stack = .error .stackOverflow) :
    Takes room (updateStack f) := by
  refine ⟨fun start hle => ?_, fun start hlt => ?_⟩
  · obtain ⟨stack', hstack, htop⟩ := hfits start.stack hle
    exact ⟨(), { start with stack := stack' }, run_updateStack_of_ok hstack, htop⟩
  · exact ⟨start, run_updateStack_of_error (hoverflows start.stack hlt)⟩

end

theorem lower_takes : Takes 1 (updateStack Stack.lower) := by
  refine Takes.updateStack (fun stack hle => ?_) fun stack hlt => ?_
  · refine ⟨_, by rw [Stack.lower, if_neg (by omega)], ?_⟩
    exact Nat.sub_add_cancel hle
  · rw [Stack.lower, if_pos (by omega)]

theorem reserve_takes (count : Nat) :
    Takes count (updateStack fun stack => stack.reserve count) := by
  refine Takes.updateStack (fun stack hle => ?_) fun stack hlt => ?_
  · refine ⟨_, by rw [Stack.reserve, if_pos hle], ?_⟩
    exact Nat.sub_add_cancel hle
  · rw [Stack.reserve, if_neg (by omega)]

theorem pushWord_takes (word : Nat) : Takes 1 (pushWord word) := by
  refine Takes.modify_bind (fun state => ?_) lower_takes
  exact congrArg Registers.top (state.registers_overwrite _ _)

/-- An argument takes one cell. -/
theorem pushArgument_takes (cell : Cell) : Takes 1 (pushArgument cell) := by
  refine Takes.modify_bind (fun state => ?_) lower_takes
  exact congrArg Registers.top (state.registers_assign _ _)

/-- A call needs room for the four words of its environment. -/
theorem saveEnvironment_takes : Takes Stack.environmentSize saveEnvironment := by
  refine Takes.get_bind fun state => ?_
  exact (pushWord_takes _).bind fun _ => (pushWord_takes _).bind fun _ =>
    (pushWord_takes _).bind fun _ => pushWord_takes _

/-- Entering a function takes its locals. -/
theorem enter_takes (name : String) (localSize : Nat) : Takes localSize (enter name localSize) := by
  refine Takes.modify_bind (fun _ => rfl) ?_
  have hreport : Takes 0 (modify fun state => state.report (.enters name state.stack.frame)) :=
    Takes.modify_bind (fun _ => rfl) (Takes.pure ())
  exact (reserve_takes localSize).bind fun _ => hreport

/-- A call takes its environment. -/
theorem callUser_takes (address : Nat) : Takes Stack.environmentSize (callUser address) :=
  Takes.modify_bind (fun _ => rfl) saveEnvironment_takes

/-- A library function takes an environment as well. -/
theorem prepare_takes (name : String) : Takes Stack.environmentSize (prepare name) := by
  refine Takes.modify_bind (fun _ => rfl) ?_
  have hframe : Takes 0 (openFrame >>= fun _ => setResult .nil) :=
    Takes.modify_bind (fun _ => rfl) (Takes.modify_bind (fun _ => rfl) (Takes.pure ()))
  exact saveEnvironment_takes.bind fun _ => hframe

/-! ## Actions -/

/-- What makes room raises no other fault than that there is none. -/
theorem Takes.raises {α : Type} {m : Exec α} {room : Nat} (h : Takes room m) :
    Raises (· = .stackOverflow) m := by
  intro start _
  split
  · trivial
  · rename_i fault after hrun
    rcases Nat.lt_or_ge start.stack.top room with hlt | hle
    · obtain ⟨after', hoverflows⟩ := h.overflows start hlt
      cases hrun.symm.trans hoverflows
      rfl
    · obtain ⟨x, after', hfits, -⟩ := h.fits start hle
      cases hrun.symm.trans hfits

/-- An action raises faults of the stack, faults of a frame, and those of a library function. -/
theorem perform_raises {kind : Fault → Prop} (hoverflow : kind .stackOverflow)
    (hframe : ∀ fault, fault.OfFrame → kind fault) {action : Action}
    (hfunction : ∀ name function, action = .callLibrary name function → Raises kind function) :
    Raises kind (perform action) := by
  have htakes {α : Type} {m : Exec α} {room : Nat} (h : Takes room m) : Raises kind m :=
    h.raises.mono fun _ heq => heq ▸ hoverflow
  have hleave : Raises kind leave := leave_raises.mono hframe
  cases action with
  | skip | jump => exact Raises.pure _
  | store | copy | create | insert => exact (Raises.modify _).bind fun _ => Raises.pure _
  | push cell => exact (htakes (pushArgument_takes cell)).bind fun _ => Raises.pure _
  | callUser address => exact (htakes (callUser_takes address)).bind fun _ => Raises.pure _
  | callLibrary name function =>
      refine Raises.bind ?_ fun _ => Raises.pure _
      rw [callLibrary_eq]
      exact (htakes (prepare_takes name)).bind fun _ =>
        (hfunction name function rfl).bind fun _ => hleave
  | enter name localSize =>
      exact (htakes (enter_takes name localSize)).bind fun _ => Raises.pure _
  | leave => exact hleave.bind fun _ => Raises.pure _

/-- An action overflows the stack if and only if there is too little room for it. -/
theorem perform_overflows_iff {action : Action} (hfunction : ∀ name function,
      action = .callLibrary name function → Raises (· ≠ .stackOverflow) function) (start : State) :
    Overflows (perform action) start ↔ start.stack.top < action.room := by
  have hnone {m : Exec Flow} (h : Raises (· ≠ .stackOverflow) m) :
      Overflows m start ↔ start.stack.top < 0 :=
    iff_of_false (h.not_overflows start) (Nat.not_lt_zero _)
  have hleave : Raises (· ≠ .stackOverflow) leave := by
    refine leave_raises.mono ?_
    rintro _ hframe rfl
    exact hframe
  cases action with
  | skip | jump => exact hnone (Raises.pure _)
  | store | copy | create | insert => exact hnone ((Raises.modify _).bind fun _ => Raises.pure _)
  | push cell =>
      exact (overflows_bind_iff (fun _ => Raises.pure _) start).trans
        ((pushArgument_takes cell).overflows_iff start)
  | callUser address =>
      exact (overflows_bind_iff (fun _ => Raises.pure _) start).trans
        ((callUser_takes address).overflows_iff start)
  | callLibrary name function =>
      refine (overflows_bind_iff (fun _ => Raises.pure _) start).trans ?_
      -- After the environment is saved, neither the function nor the return overflows the stack.
      rw [callLibrary_eq]
      refine (overflows_bind_iff (fun _ => ?_) start).trans
        ((prepare_takes name).overflows_iff start)
      exact (hfunction name function rfl).bind fun _ => hleave
  | enter name localSize =>
      exact (overflows_bind_iff (fun _ => Raises.pure _) start).trans
        ((enter_takes name localSize).overflows_iff start)
  | leave => exact hnone (hleave.bind fun _ => Raises.pure _)

end Exec

/-! ## Instructions -/

/-- Two decisions that succeed one after the other succeed each. -/
theorem ok_of_bind {α β : Type} {decision : Except Fault α} {f : α → Except Fault β} {y : β}
    (h : decision >>= f = .ok y) : ∃ x, decision = .ok x ∧ f x = .ok y := by
  cases decision with
  | ok x => exact ⟨x, rfl, h⟩
  | error fault => cases h

theorem Action.room_branch (condition : Bool) (target : Nat) :
    (Action.branch condition target).room = 0 := by
  cases condition <;> rfl

namespace Machine

variable {machine : Machine} {state : State} {instruction : Instruction}

/-- Whether a cell can be called: it is the address of an instruction that enters a function, or the
name of a function of the library. -/
def Callable (machine : Machine) : Cell → Prop
  | .userFunction address => machine.program.startsFunction address.toNat
  | .libraryFunction name | .text name => ∃ function, machine.library.find? name = some function
  | _ => False

/-- How many free cells an instruction asks for, once its operands are resolved. -/
inductive Asks (machine : Machine) (state : State) (instruction : Instruction) : Nat → Prop
  /-- An argument that can be read. -/
  | push {cell : Cell} (hopcode : instruction.opcode = .pushArgument)
      (hcell : machine.program.operandCell state instruction.first = .ok cell) :
      machine.Asks state instruction 1
  /-- The environment of a call of what can be called. -/
  | call {cell : Cell} (hopcode : instruction.opcode = .call)
      (hcell : machine.program.operandCell state instruction.first = .ok cell)
      (hcallable : machine.Callable cell) : machine.Asks state instruction 4
  /-- The locals of a function whose descriptor names the place of the instruction. -/
  | enter {function : UserFunction} (hopcode : instruction.opcode = .enter)
      (hkind : instruction.first.kind = .userFunction)
      (hfunction : machine.program.userFunction instruction.first.value = .ok function)
      (hplace : function.address.toNat = state.pc) :
      machine.Asks state instruction function.localSize.toNat

/-- What can be called is the address of a function or the name of one. -/
theorem callable_of_callAction {cell : Cell} {action : Action}
    (h : machine.callAction cell = .ok action) : machine.Callable cell := by
  unfold callAction at h
  split at h
  · split at h
    · assumption
    · cases h
  · cases hfind : machine.library.find _ with
    | ok function => exact ⟨function, (machine.library.find_yields _).ok hfind⟩
    | error fault =>
        rw [hfind] at h
        cases h
  · cases hfind : machine.library.find _ with
    | ok function => exact ⟨function, (machine.library.find_yields _).ok hfind⟩
    | error fault =>
        rw [hfind] at h
        cases h
  · cases h

/-- Every call takes the room of an environment. -/
theorem callAction_of_callable {cell : Cell} (h : machine.Callable cell) :
    ∃ action, machine.callAction cell = .ok action ∧ action.room = Stack.environmentSize := by
  have hlibrary {name : String} (h : ∃ function, machine.library.find? name = some function) :
      ∃ action, Action.callLibrary name <$> machine.library.find name = .ok action ∧
        action.room = Stack.environmentSize := by
    obtain ⟨function, hfind⟩ := h
    refine ⟨.callLibrary name function, ?_, rfl⟩
    rw [Library.find, hfind]
    rfl
  cases cell with
  | userFunction address => exact ⟨.callUser address.toNat, if_pos h, rfl⟩
  | libraryFunction name | text name => exact hlibrary h
  | _ => exact absurd h not_false

/-- Every call takes the same room. -/
theorem callAction_room {cell : Cell} {action : Action} (h : machine.callAction cell = .ok action) :
    action.room = Stack.environmentSize := by
  obtain ⟨action', haction, hroom⟩ := callAction_of_callable (callable_of_callAction h)
  cases h.symm.trans haction
  exact hroom

/-- What an instruction asks for is the room that its action takes. -/
theorem decode_of_asks {room : Nat} (h : machine.Asks state instruction room) :
    ∃ action, machine.decode state instruction = .ok action ∧ action.room = room := by
  rcases instruction with ⟨opcode, result, first, second, line⟩
  cases h with
  | @push cell hopcode hcell =>
      cases hopcode
      refine ⟨.push cell, ?_, rfl⟩
      simp only [decode, hcell]
      rfl
  | call hopcode hcell hcallable =>
      cases hopcode
      obtain ⟨action, haction, hroom⟩ := callAction_of_callable hcallable
      refine ⟨action, ?_, hroom⟩
      simp only [decode, hcell]
      exact haction
  | @enter function hopcode hkind hfunction hplace =>
      rcases first with ⟨kind, index⟩
      cases hopcode
      cases hkind
      refine ⟨.enter function.name function.localSize.toNat, ?_, rfl⟩
      simp only [decode, Program.enterAction, hfunction, bind, Except.bind, if_pos hplace]
      rfl

/-- No other instruction takes any room. -/
theorem asks_of_decode {action : Action} (h : machine.decode state instruction = .ok action)
    (hroom : action.room ≠ 0) : machine.Asks state instruction action.room := by
  rcases instruction with ⟨opcode, result, first, second, line⟩
  cases opcode
  case pushArgument =>
    obtain ⟨cell, hcell, h⟩ := ok_of_bind h
    cases h
    exact .push rfl hcell
  case call =>
    obtain ⟨cell, hcell, h⟩ := ok_of_bind h
    rw [callAction_room h]
    exact .call rfl hcell (callable_of_callAction h)
  case enter =>
    simp only [decode, Program.enterAction] at h
    split at h
    · rename_i hkind
      obtain ⟨function, hfunction, h⟩ := ok_of_bind h
      split at h
      · rename_i hplace
        cases h
        exact .enter rfl hkind hfunction hplace
      · cases h
    · cases h
  -- The others write to a place, store an entry, or go on elsewhere.
  all_goals
    refine absurd ?_ hroom
    repeat obtain ⟨_, -, h⟩ := ok_of_bind h
    cases h
    first | rfl | exact Action.room_branch _ _ | skip
  split <;> rfl

end Machine
end CellMachine
