import Mathlib
import CellMachine.Machine.Call
import CellMachine.Proofs.Machine.Decode

/-!
# Which faults the parts of an instruction raise

The cause of a fault tells how far an instruction has come: decoding complains about operands, and
leaving a frame about words that it cannot read back.  `FaultsIn` says of a decision, and
`Exec.Raises` of a computation, that its faults are all of one kind; the kinds are those of the
parts of an instruction.
-/

namespace CellMachine

/-! ## Kinds of faults -/

namespace Fault

/-- Whether decoding can raise a fault, at any instruction.  It is about what an operand names, what
type that has, or what is called or entered. -/
def OfDecoding : Fault → Prop
  | stackOverflow | keyNotFound _ | corruptEnvironment _ | jumpOutOfRange _ | badArgument _ _
  | stream _ => False
  | _ => True

def OfFrame : Fault → Prop
  | stackBounds _ | corruptEnvironment _ => True
  | _ => False

/-- Whether a standard function can raise a fault: its arguments are not what it needs, or a stream
fails. -/
def OfFunction : Fault → Prop
  | stackBounds _ | corruptEnvironment _ | badArgument _ _ | stream _ => True
  | _ => False

/-- A function that reads a frame can raise the faults of that frame. -/
theorem OfFrame.ofFunction {fault : Fault} (h : fault.OfFrame) : fault.OfFunction := by
  cases fault <;> first | exact h | trivial

end Fault

/-! ## Rules -/

section

variable {α β : Type} {kind : Fault → Prop}

def FaultsIn (kind : Fault → Prop) (decision : Except Fault α) : Prop :=
  ∀ fault, decision = .error fault → kind fault

theorem FaultsIn.ok (x : α) : FaultsIn kind (.ok x) :=
  nofun

theorem FaultsIn.throw {fault : Fault} (h : kind fault) :
    FaultsIn kind (.error fault : Except Fault α) := by
  rintro _ ⟨⟩
  exact h

/-- Faults of a kind are faults of every wider kind. -/
theorem FaultsIn.mono {kind' : Fault → Prop} {decision : Except Fault α}
    (h : FaultsIn kind decision) (hkind : ∀ fault, kind fault → kind' fault) :
    FaultsIn kind' decision :=
  fun fault hfault => hkind fault (h fault hfault)

/-- Two decisions in a row raise what either of them can raise. -/
theorem FaultsIn.bind {decision : Except Fault α} {f : α → Except Fault β}
    (h : FaultsIn kind decision) (hf : ∀ x, FaultsIn kind (f x)) :
    FaultsIn kind (decision >>= f) := by
  cases decision with
  | ok x => exact hf x
  | error fault => exact FaultsIn.throw (h fault rfl)

theorem FaultsIn.map {decision : Except Fault α} (f : α → β) (h : FaultsIn kind decision) :
    FaultsIn kind (f <$> decision) := by
  cases decision with
  | ok x => exact FaultsIn.ok _
  | error fault => exact FaultsIn.throw (h fault rfl)

namespace Exec

def Raises (kind : Fault → Prop) (m : Exec α) : Prop :=
  Meets (fun _ => True) m (fun _ _ => True) fun fault _ => kind fault

/-- A fault that was raised is of the kind. -/
theorem Raises.error {m : Exec α} (h : Raises kind m) {start after : State} {fault : Fault}
    (hrun : m.run start = .error fault after) : kind fault :=
  Meets.error h trivial hrun

theorem Raises.mono {kind' : Fault → Prop} {m : Exec α} (h : Raises kind m)
    (hkind : ∀ fault, kind fault → kind' fault) : Raises kind' m :=
  Meets.mono h (fun _ _ h => h) fun fault _ => hkind fault

theorem Raises.pure (x : α) : Raises kind (pure x) :=
  Meets.pure fun _ _ => trivial

theorem Raises.throw {fault : Fault} (h : kind fault) : Raises kind (throw fault : Exec α) :=
  Meets.throw fun _ _ => h

/-- Two computations in a row raise what either of them can raise. -/
theorem Raises.bind {m : Exec α} {f : α → Exec β} (hm : Raises kind m)
    (hf : ∀ x, Raises kind (f x)) : Raises kind (m >>= f) :=
  Meets.bind hm hf

theorem Raises.get : Raises kind get :=
  Meets.get fun _ _ => trivial

theorem Raises.modify (f : State → State) : Raises kind (modify f) :=
  Meets.modify fun _ _ => trivial

theorem Raises.decide {f : State → Except Fault α} (h : ∀ state, FaultsIn kind (f state)) :
    Raises kind (Exec.decide f) :=
  Meets.decide (fun _ _ _ _ => trivial) fun state fault _ hfault => h state fault hfault

theorem Raises.ofExcept {decision : Except Fault α} (h : FaultsIn kind decision) :
    Raises kind (Exec.ofExcept decision) := by
  cases decision with
  | ok x => exact Raises.pure x
  | error fault => exact Raises.throw (h fault rfl)

/-- Going over a list raises what a single element can raise. -/
theorem Raises.mapM {f : α → Exec β} {list : List α} (h : ∀ x, Raises kind (f x)) :
    Raises kind (list.mapM f) :=
  Meets.mono (Meets.mapM fun x _ => Meets.mono (h x) (fun _ _ _ => trivial) fun _ _ h => h)
    (fun _ _ h => h) fun _ _ h => h

end Exec
end

/-! ## Decoding -/

theorem Stack.allocated_raises (stack : Stack) (address : Nat) :
    FaultsIn Fault.OfDecoding (stack.allocated address) := by
  rw [allocated]
  split
  · exact FaultsIn.ok _
  · exact FaultsIn.throw trivial

theorem Stack.below_raises (stack : Stack) (address distance : Nat) :
    FaultsIn Fault.OfDecoding (stack.below address distance) := by
  rw [below]
  split
  · exact stack.allocated_raises _
  · exact FaultsIn.throw trivial

/-- Resolving a place fails for a reason of decoding. -/
theorem State.place_raises (state : State) (operand : Operand) :
    FaultsIn Fault.OfDecoding (state.place operand) := by
  rw [State.place]
  split
  · exact (state.stack.below_raises _ _).map _
  · exact (state.stack.below_raises _ _).map _
  · exact (state.stack.allocated_raises _).map _
  · exact FaultsIn.ok _
  · exact FaultsIn.throw trivial

namespace Program

variable (program : Program) (state : State)

theorem constant_raises {α : Type} (group : ConstantGroup) (constants : Array α) (index : UInt32) :
    FaultsIn Fault.OfDecoding (constant group constants index) := by
  rw [constant]
  split
  · exact FaultsIn.ok _
  · exact FaultsIn.throw trivial

theorem constantCell_raises (operand : Operand) :
    FaultsIn Fault.OfDecoding (program.constantCell operand) := by
  rw [constantCell]
  split
  · exact (constant_raises _ _ _).map _
  · exact (constant_raises _ _ _).map _
  · exact FaultsIn.ok _
  · exact FaultsIn.ok _
  · exact (constant_raises _ _ _).map _
  · exact (constant_raises _ _ _).map _
  · exact FaultsIn.ok _
  · exact FaultsIn.throw trivial

theorem source_raises (operand : Operand) :
    FaultsIn Fault.OfDecoding (program.source state operand) := by
  rw [source]
  split
  · exact (state.place_raises operand).map _
  · exact (program.constantCell_raises operand).map _

/-- Reading an operand fails for a reason of decoding. -/
theorem operandCell_raises (operand : Operand) :
    FaultsIn Fault.OfDecoding (program.operandCell state operand) :=
  (program.source_raises state operand).map _

theorem operandNumber_raises (opcode : Opcode) (operand : Operand) :
    FaultsIn Fault.OfDecoding (program.operandNumber state opcode operand) := by
  refine (program.operandCell_raises state operand).bind fun cell => ?_
  split
  · exact FaultsIn.ok _
  · exact FaultsIn.throw trivial

theorem operandTable_raises (operand : Operand) :
    FaultsIn Fault.OfDecoding (program.operandTable state operand) := by
  refine (program.operandCell_raises state operand).bind fun cell => ?_
  split
  · exact FaultsIn.ok _
  · exact FaultsIn.throw trivial

theorem enterAction_raises (operand : Operand) :
    FaultsIn Fault.OfDecoding (program.enterAction state operand) := by
  rw [enterAction]
  split
  · refine (constant_raises _ _ _).bind fun function => ?_
    split
    · exact FaultsIn.ok _
    · exact FaultsIn.throw trivial
  · exact FaultsIn.throw trivial

end Program

theorem Operand.target_raises (operand : Operand) : FaultsIn Fault.OfDecoding operand.target := by
  rw [target]
  split
  · exact FaultsIn.ok _
  · exact FaultsIn.throw trivial

theorem Cell.key_raises (cell : Cell) : FaultsIn Fault.OfDecoding cell.key := by
  rw [key]
  split
  · exact FaultsIn.ok _
  · exact FaultsIn.throw trivial

theorem Cell.compare_raises (a b : Cell) : FaultsIn Fault.OfDecoding (a.compare b) := by
  rw [compare]
  split
  · exact FaultsIn.ok _
  · exact FaultsIn.throw trivial
  · exact FaultsIn.throw trivial

theorem Library.find_raises (library : Library) (name : String) :
    FaultsIn Fault.OfDecoding (library.find name) := by
  rw [find]
  split
  · exact FaultsIn.ok _
  · exact FaultsIn.throw trivial

namespace Machine

variable (machine : Machine) (state : State)

/-- What cannot be called is found out by decoding. -/
theorem callAction_raises (cell : Cell) : FaultsIn Fault.OfDecoding (machine.callAction cell) := by
  unfold callAction
  split
  · split
    · exact FaultsIn.ok _
    · exact FaultsIn.throw trivial
  · exact (machine.library.find_raises _).map _
  · exact (machine.library.find_raises _).map _
  · exact FaultsIn.throw trivial

/-- Only reading an entry of a table raises a fault that the other instructions do not. -/
theorem decode_raises {instruction : Instruction} (hopcode : instruction.opcode ≠ .tableGet) :
    FaultsIn Fault.OfDecoding (machine.decode state instruction) := by
  rcases instruction with ⟨opcode, result, first, second, line⟩
  have hplace (operand : Operand) := state.place_raises operand
  have hcell (operand : Operand) := machine.program.operandCell_raises state operand
  have hnumber (operand : Operand) := machine.program.operandNumber_raises state opcode operand
  have htable (operand : Operand) := machine.program.operandTable_raises state operand
  -- Every instruction is resolved operand by operand; only the excluded one looks an entry up.
  cases opcode with
  | assign =>
      refine (hplace result).bind fun place => ?_
      exact (machine.program.source_raises state first).bind fun source => FaultsIn.ok _
  | arithmetic op =>
      refine (hplace result).bind fun place => (hnumber first).bind fun x => ?_
      exact (hnumber second).bind fun y => FaultsIn.ok _
  | negate => exact (hplace result).bind fun place => (hnumber first).bind fun x => FaultsIn.ok _
  | connective op =>
      refine (hplace result).bind fun place => (hcell first).bind fun a => ?_
      exact (hcell second).bind fun b => FaultsIn.ok _
  | not => exact (hplace result).bind fun place => (hcell first).bind fun a => FaultsIn.ok _
  | jump => exact result.target_raises.bind fun target => FaultsIn.ok _
  | jumpEqual | jumpUnequal =>
      refine result.target_raises.bind fun target => (hcell first).bind fun a => ?_
      exact (hcell second).bind fun b => (a.compare_raises b).bind fun answer => FaultsIn.ok _
  | jumpIf relation =>
      refine result.target_raises.bind fun target => (hnumber first).bind fun x => ?_
      exact (hnumber second).bind fun y => FaultsIn.ok _
  | call => exact (hcell first).bind fun cell => machine.callAction_raises cell
  | pushArgument => exact (hcell first).bind fun cell => FaultsIn.ok _
  | enter => exact machine.program.enterAction_raises state first
  | leave => exact FaultsIn.ok _
  | newTable => exact (hplace first).bind fun place => FaultsIn.ok _
  | tableGet => exact absurd rfl hopcode
  | tableSet =>
      refine (htable first).bind fun id => (hcell second).bind fun key => ?_
      exact (hcell result).bind fun cell => key.key_raises.bind fun key => FaultsIn.ok _
  | nop => exact FaultsIn.ok _

/-- Reading an entry of a table raises at most that there is none. -/
theorem decode_tableGet_raises {instruction : Instruction}
    (hopcode : instruction.opcode = .tableGet) :
    FaultsIn (fun fault => fault.OfDecoding ∨ ∃ key, fault = .keyNotFound key)
      (machine.decode state instruction) := by
  rcases instruction with ⟨opcode, result, first, second, line⟩
  cases hopcode
  have hleft {α : Type} {decision : Except Fault α} (h : FaultsIn Fault.OfDecoding decision) :
      FaultsIn (fun fault => fault.OfDecoding ∨ ∃ key, fault = .keyNotFound key) decision :=
    h.mono fun _ => Or.inl
  refine (hleft (state.place_raises result)).bind fun place => ?_
  refine (hleft (machine.program.operandTable_raises state first)).bind fun id => ?_
  refine (hleft (machine.program.operandCell_raises state second)).bind fun cell => ?_
  refine FaultsIn.bind ((hleft cell.key_raises).bind fun key => ?_) fun entry => FaultsIn.ok _
  split
  · exact FaultsIn.ok _
  · exact FaultsIn.ok _
  · exact FaultsIn.throw (.inr ⟨_, rfl⟩)

/-- Decoding never complains that the stack is exhausted. -/
theorem decode_not_overflow {instruction : Instruction} :
    machine.decode state instruction ≠ .error .stackOverflow := by
  intro h
  by_cases hopcode : instruction.opcode = .tableGet
  · rcases machine.decode_tableGet_raises state hopcode _ h with hkind | ⟨key, hkey⟩
    · exact hkind
    · cases hkey
  · exact machine.decode_raises state hopcode _ h

end Machine

/-! ## Frames -/

namespace Stack

variable (stack : Stack)

theorem cell_raises (address : Nat) : FaultsIn Fault.OfFrame (stack.cell address) := by
  rw [cell]
  split
  · exact FaultsIn.ok _
  · exact FaultsIn.throw trivial

theorem word_raises (base offset : Nat) : FaultsIn Fault.OfFrame (stack.word base offset) := by
  refine (stack.cell_raises _).bind fun cell => ?_
  split
  · exact FaultsIn.ok _
  · exact FaultsIn.throw trivial

/-- Reading an argument fails for a reason that lies in the frame. -/
theorem actualAt_raises (base index : Nat) :
    FaultsIn Fault.OfFrame (stack.actualAt base index) := by
  refine (stack.word_raises base _).bind fun count => ?_
  split
  · exact (stack.cell_raises _).bind fun cell => FaultsIn.ok _
  · exact FaultsIn.ok _

theorem callerFrame_raises : FaultsIn Fault.OfFrame stack.callerFrame :=
  (stack.word_raises _ _).bind fun _ => FaultsIn.ok _

end Stack

namespace Exec

/-- An environment that cannot be read is a fault of its frame. -/
theorem environment_raises (stack : Stack) :
    FaultsIn Fault.OfFrame (environment stack) := by
  refine (stack.word_raises _ _).bind fun top => (stack.word_raises _ _).bind fun target => ?_
  refine (stack.word_raises _ _).bind fun frame => ?_
  split
  · exact FaultsIn.ok _
  · exact FaultsIn.throw trivial

/-- Leaving can fail at the environment only. -/
theorem leave_raises : Raises Fault.OfFrame leave := by
  refine (Raises.decide fun state => environment_raises state.stack).bind fun environment => ?_
  exact (Raises.modify _).bind fun _ => Raises.pure _

end Exec
end CellMachine
