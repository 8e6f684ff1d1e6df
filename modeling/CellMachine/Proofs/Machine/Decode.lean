import Mathlib
import CellMachine.Machine.Step
import CellMachine.Proofs.Machine.Contract

/-!
# What decoding yields

Decoding reads the state and changes nothing, so all that later proofs need of it is what its action
can be.  `Machine.Decoded` lists that, one case for each action: which operand names the place that
is written, where the cell comes from, and which instructions go on elsewhere.

A fault of decoding never is that a jump leaves the code; that fault is raised by the step itself,
after the action was performed.
-/

namespace CellMachine

/-! ## Addresses and constants -/

namespace Stack

/-- An address is accepted if its cell is allocated. -/
theorem allocated_yields (stack : Stack) (address : Nat) :
    Yields (stack.allocated address) fun x =>
      x = address ∧ stack.top < x ∧ x < stack.size := by
  rw [allocated]
  split
  · rename_i h
    exact ⟨rfl, h⟩
  · exact Yields.throw fun _ => nofun

/-- A distance is accepted if it leads to a cell that is allocated. -/
theorem below_yields (stack : Stack) (address distance : Nat) :
    Yields (stack.below address distance) fun x =>
      x + distance = address ∧ stack.top < x ∧ x < stack.size := by
  rw [below]
  split
  · rename_i hle
    refine (stack.allocated_yields _).mono fun x hx => ⟨?_, hx.2⟩
    rw [hx.1, Nat.sub_add_cancel hle]
  · exact Yields.throw fun _ => nofun

theorem allocated_eq {stack : Stack} {address : Nat} (htop : stack.top < address)
    (hsize : address < stack.size) : stack.allocated address = .ok address := by
  rw [allocated, if_pos ⟨htop, hsize⟩]

theorem below_eq {stack : Stack} {address distance : Nat}
    (htop : stack.top < address - distance) (hsize : address - distance < stack.size) :
    stack.below address distance = .ok (address - distance) := by
  rw [below, if_pos (by omega), allocated_eq htop hsize]

end Stack

namespace State

/-- How the address of a variable is computed: from the high end of the stack or from the frame. -/
def Addresses (state : State) (operand : Operand) (address : Nat) : Prop :=
  operand.kind = .global ∧ address + operand.value.toNat = state.stack.size - 1 ∨
    operand.kind = .local ∧ address + operand.value.toNat = state.stack.frame ∨
    operand.kind = .formal ∧ address = state.stack.frame + 5 + operand.value.toNat

/-- An operand names the return register, or an allocated cell of the stack. -/
theorem place_yields (state : State) (operand : Operand) :
    Yields (state.place operand) fun place => ∀ address, place = .slot address →
      state.Addresses operand address ∧ state.stack.top < address ∧
        address < state.stack.size := by
  have hslot {decision : Except Fault Nat}
      (h : Yields decision fun address => state.Addresses operand address ∧
        state.stack.top < address ∧ address < state.stack.size) :
      Yields (Place.slot <$> decision) fun place => ∀ address, place = .slot address →
        state.Addresses operand address ∧ state.stack.top < address ∧
          address < state.stack.size :=
    Yields.map (h.mono fun address h other heq => Place.slot.inj heq ▸ h)
  rw [State.place]
  split
  · rename_i hkind
    exact hslot ((state.stack.below_yields _ _).mono fun _ h => ⟨.inl ⟨hkind, h.1⟩, h.2⟩)
  · rename_i hkind
    exact hslot ((state.stack.below_yields _ _).mono fun _ h => ⟨.inr (.inl ⟨hkind, h.1⟩), h.2⟩)
  · rename_i hkind
    exact hslot ((state.stack.allocated_yields _).mono fun _ h => ⟨.inr (.inr ⟨hkind, h.1⟩), h.2⟩)
  · exact fun address h => nomatch h
  · exact Yields.throw fun _ => nofun

end State

namespace Program

variable (program : Program) (state : State)

theorem constant_yields {α : Type} (group : ConstantGroup) (constants : Array α) (index : UInt32) :
    Yields (constant group constants index) fun _ => True := by
  rw [constant]
  split
  · trivial
  · exact Yields.throw fun _ => nofun

/-- No constant is a table. -/
theorem constantCell_yields (operand : Operand) :
    Yields (program.constantCell operand) fun cell => cell.table? = none := by
  rw [constantCell]
  split
  · exact Yields.map ((constant_yields _ _ _).mono fun _ _ => rfl)
  · exact Yields.map ((constant_yields _ _ _).mono fun _ _ => rfl)
  · rfl
  · rfl
  · exact Yields.map ((constant_yields _ _ _).mono fun _ _ => rfl)
  · exact Yields.map ((constant_yields _ _ _).mono fun _ _ => rfl)
  · rfl
  · exact Yields.throw fun _ => nofun

end Program

/-! ## Where cells come from -/

/-- A cell that an action can get hold of: it holds no table, or it stands at a place, or it is an
entry of a table. -/
inductive State.Offers (state : State) : Cell → Prop
  | plain {cell : Cell} (h : cell.table? = none) : state.Offers cell
  | place (place : Place) : state.Offers (state.read place)
  | entry {cell : Cell} (id : TableId) (key : Key) (h : state.heap.get? id key = some cell) :
      state.Offers cell

namespace Program

variable (program : Program) (state : State)

/-- What an operand stands for is a cell that the state offers. -/
theorem source_yields (operand : Operand) :
    Yields (program.source state operand) fun source => state.Offers (state.value source) := by
  rw [source]
  split
  · exact Yields.map ((state.place_yields operand).mono fun place _ => .place place)
  · exact Yields.map ((program.constantCell_yields operand).mono fun _ h => .plain h)

/-- What an operand stands for if it is no place is no table. -/
theorem source_constant_yields (operand : Operand) :
    Yields (program.source state operand) fun source =>
      ∀ cell, source = .constant cell → cell.table? = none := by
  rw [source]
  split
  · exact Yields.map ((state.place_yields operand).mono fun _ _ _ heq => nomatch heq)
  · exact Yields.map ((program.constantCell_yields operand).mono fun _ h _ heq =>
      Source.constant.inj heq ▸ h)

/-- Operands stand for cells that the state offers. -/
theorem operandCell_yields (operand : Operand) :
    Yields (program.operandCell state operand) state.Offers :=
  Yields.map (program.source_yields state operand)

theorem operandNumber_yields (opcode : Opcode) (operand : Operand) :
    Yields (program.operandNumber state opcode operand) fun _ => True := by
  refine Yields.bind (program.operandCell_yields state operand) fun cell _ => ?_
  split
  · trivial
  · exact Yields.throw fun _ => nofun

theorem operandTable_yields (operand : Operand) :
    Yields (program.operandTable state operand) fun id => state.Offers (.table id) := by
  refine Yields.bind (program.operandCell_yields state operand) fun cell hcell => ?_
  split
  · rename_i id hid
    cases cell with
    | table id' =>
        cases hid
        exact hcell
    | _ => cases hid
  · exact Yields.throw fun _ => nofun

end Program

theorem Operand.target_yields (operand : Operand) : Yields operand.target fun _ => True := by
  rw [target]
  split
  · trivial
  · exact Yields.throw fun _ => nofun

theorem Cell.key_yields (cell : Cell) : Yields cell.key fun _ => True := by
  rw [key]
  split
  · trivial
  · exact Yields.throw fun _ => nofun

theorem Cell.compare_yields (a b : Cell) : Yields (a.compare b) fun _ => True := by
  rw [compare]
  split
  · trivial
  · exact Yields.throw fun _ => nofun
  · exact Yields.throw fun _ => nofun

/-- An entry that was looked up is offered by its table. -/
theorem State.lookup_yields (state : State) (missing : MissingKey) (id : TableId) (cell : Cell) :
    Yields (state.lookup missing id cell) state.Offers := by
  refine Yields.bind cell.key_yields fun key _ => ?_
  split
  · rename_i entry hentry
    exact State.Offers.entry id key hentry
  · exact State.Offers.plain rfl
  · exact Yields.throw fun _ => nofun

/-! ## Actions -/

def Opcode.isTransfer : Opcode → Bool
  | jump | jumpEqual | jumpUnequal | jumpIf _ | call | leave => true
  | _ => false

inductive Machine.Decoded (machine : Machine) (state : State) (instruction : Instruction) :
    Action → Prop
  | skip : machine.Decoded state instruction .skip
  | jump (target : Nat) (h : instruction.opcode.isTransfer) :
      machine.Decoded state instruction (.jump target)
  | store {place : Place} {cell : Cell} (hplace : state.place instruction.result = .ok place)
      (hcell : cell.table? = none) : machine.Decoded state instruction (.store place cell)
  | copy {place : Place} {cell : Cell} (hplace : state.place instruction.result = .ok place)
      (hcell : state.Offers cell) : machine.Decoded state instruction (.copy place cell)
  | create {place : Place} (hplace : state.place instruction.first = .ok place) :
      machine.Decoded state instruction (.create place)
  | insert {id : TableId} {key : Key} {cell : Cell} (hid : state.Offers (.table id))
      (hcell : state.Offers cell) : machine.Decoded state instruction (.insert id key cell)
  | push {cell : Cell} (hcell : state.Offers cell) :
      machine.Decoded state instruction (.push cell)
  | callUser {address : Nat} (hopcode : instruction.opcode = .call)
      (hstart : machine.program.startsFunction address) :
      machine.Decoded state instruction (.callUser address)
  | callLibrary {name : String} {function : Exec Unit} (hopcode : instruction.opcode = .call)
      (hfind : machine.library.find? name = some function) :
      machine.Decoded state instruction (.callLibrary name function)
  | enter (name : String) (localSize : Nat) (hopcode : instruction.opcode = .enter) :
      machine.Decoded state instruction (.enter name localSize)
  | leave (hopcode : instruction.opcode = .leave) : machine.Decoded state instruction .leave

/-- A function that was found is one of the library. -/
theorem Library.find_yields (library : Library) (name : String) :
    Yields (library.find name) fun function => library.find? name = some function := by
  rw [find]
  split
  · rename_i function h
    exact h
  · exact Yields.throw fun _ => nofun

namespace Machine

variable (machine : Machine) (state : State)

/-- Calling a cell comes down to a call of a function that is there. -/
theorem callAction_yields {instruction : Instruction} (hopcode : instruction.opcode = .call)
    (cell : Cell) : Yields (machine.callAction cell) (machine.Decoded state instruction) := by
  unfold callAction
  split
  · split
    · rename_i hstart
      exact .callUser hopcode hstart
    · exact Yields.throw fun _ => nofun
  · exact Yields.map ((machine.library.find_yields _).mono fun _ h => .callLibrary hopcode h)
  · exact Yields.map ((machine.library.find_yields _).mono fun _ h => .callLibrary hopcode h)
  · exact Yields.throw fun _ => nofun

/-- Entering comes down to reserving the locals of some function. -/
theorem enterAction_yields (operand : Operand) :
    Yields (machine.program.enterAction state operand) fun action =>
      ∃ name localSize, action = .enter name localSize := by
  rw [Program.enterAction]
  split
  · refine Yields.bind (Program.constant_yields _ _ _) fun function _ => ?_
    split
    · exact ⟨function.name, function.localSize.toNat, rfl⟩
    · exact Yields.throw fun _ => nofun
  · exact Yields.throw fun _ => nofun

/-- Only jumps go on elsewhere. -/
theorem branch_decoded {instruction : Instruction} (h : instruction.opcode.isTransfer)
    (condition : Bool) (target : Nat) :
    machine.Decoded state instruction (.branch condition target) := by
  rw [Action.branch]
  split
  · exact .jump target h
  · exact .skip

/-- An instruction is decoded to an action that `Decoded` lists, or raises a local fault. -/
theorem decode_yields (instruction : Instruction) :
    Yields (machine.decode state instruction) (machine.Decoded state instruction) := by
  rcases instruction with ⟨opcode, result, first, second, line⟩
  have hplace (operand : Operand) := (state.place_yields operand).self
  have hcell (operand : Operand) := machine.program.operandCell_yields state operand
  have hnumber (operand : Operand) := machine.program.operandNumber_yields state opcode operand
  have htable (operand : Operand) := machine.program.operandTable_yields state operand
  -- The operands are resolved in the order of the decoder, so each case follows its own.
  cases opcode with
  | assign =>
      refine (hplace result).bind fun place hp => ?_
      refine (machine.program.source_yields state first).bind fun source hsource => ?_
      -- A copy of a place to itself is left out, so nothing is released by it.
      change Decoded _ _ _ (if _ then _ else _)
      split
      · exact .skip
      · exact .copy hp.1 hsource
  | arithmetic op =>
      refine (hplace result).bind fun place hp => ?_
      refine (hnumber first).bind fun x _ => (hnumber second).bind fun y _ => ?_
      exact Decoded.store hp.1 rfl
  | negate =>
      refine (hplace result).bind fun place hp => ?_
      refine (hnumber first).bind fun x _ => ?_
      exact Decoded.store hp.1 rfl
  | connective op =>
      refine (hplace result).bind fun place hp => ?_
      refine (hcell first).bind fun a _ => (hcell second).bind fun b _ => ?_
      exact Decoded.store hp.1 rfl
  | not =>
      refine (hplace result).bind fun place hp => ?_
      refine (hcell first).bind fun a _ => ?_
      exact Decoded.store hp.1 rfl
  | jump =>
      refine result.target_yields.bind fun target _ => ?_
      exact Decoded.jump target rfl
  | jumpEqual | jumpUnequal =>
      refine result.target_yields.bind fun target _ => ?_
      refine (hcell first).bind fun a _ => (hcell second).bind fun b _ => ?_
      refine (a.compare_yields b).bind fun answer _ => ?_
      exact machine.branch_decoded state rfl _ target
  | jumpIf relation =>
      refine result.target_yields.bind fun target _ => ?_
      refine (hnumber first).bind fun x _ => (hnumber second).bind fun y _ => ?_
      exact machine.branch_decoded state rfl _ target
  | call => exact (hcell first).bind fun cell _ => machine.callAction_yields state rfl cell
  | pushArgument => exact (hcell first).bind fun cell h => Decoded.push h
  | enter =>
      refine (machine.enterAction_yields state first).mono ?_
      rintro _ ⟨name, localSize, rfl⟩
      exact .enter name localSize rfl
  | leave => exact Decoded.leave rfl
  | newTable => exact (hplace first).bind fun place hp => Decoded.create hp.1
  | tableGet =>
      refine (hplace result).bind fun place hp => ?_
      refine (htable first).bind fun id _ => (hcell second).bind fun key _ => ?_
      refine (state.lookup_yields machine.missingKey id key).bind fun entry hentry => ?_
      exact Decoded.copy hp.1 hentry
  | tableSet =>
      refine (htable first).bind fun id hid => (hcell second).bind fun key _ => ?_
      refine (hcell result).bind fun cell h => key.key_yields.bind fun key _ => ?_
      exact Decoded.insert hid h
  | nop => exact Decoded.skip

/-- Where a function starts stands an instruction that enters it. -/
theorem get_of_startsFunction {machine : Machine} {pc : Nat}
    (hstart : machine.program.startsFunction pc) :
    ∃ instruction, machine.program.code[pc]? = some instruction ∧ instruction.opcode = .enter := by
  cases hget : machine.program.code[pc]? with
  | some instruction =>
      exact ⟨instruction, rfl, by simpa [Program.startsFunction, hget] using hstart⟩
  | none => simp [Program.startsFunction, hget] at hstart

/-- Functions start where they are entered. -/
theorem opcode_of_startsFunction {machine : Machine} {pc : Nat} {instruction : Instruction}
    (hget : machine.program.code[pc]? = some instruction)
    (hstart : machine.program.startsFunction pc) : instruction.opcode = .enter := by
  obtain ⟨entry, hentry, hopcode⟩ := get_of_startsFunction hstart
  cases hget.symm.trans hentry
  exact hopcode

/-- The instruction that enters a function does nothing else. -/
theorem decode_enter {instruction : Instruction} {action : Action}
    (hopcode : instruction.opcode = .enter) (h : machine.decode state instruction = .ok action) :
    ∃ name localSize, action = .enter name localSize := by
  rcases instruction with ⟨opcode, result, first, second, line⟩
  cases hopcode
  exact (machine.enterAction_yields state first).ok h

end Machine
end CellMachine
