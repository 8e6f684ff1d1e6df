import Mathlib
import CellMachine.Machine.Action
import CellMachine.Machine.Call

/-!
# Call stacks

The machine keeps frames, arguments and saved environments in one array of cells.  What they
implement is a list of activations, one for each call of a function of the program that has not
returned: this module has that list, how an action changes it, and which instructions respect it.

Nothing here refers to the cells of a machine.  A base is the address below which an activation
pushes its arguments; the bases and frames of an older activation lie above those of a younger one.
-/

namespace CellMachine

/-! ## Activations -/

/-- A call of a function of the program: where in the code it stands, the frame and the base of the
caller, and how many arguments it passes. -/
structure Call where
  callPc : Nat
  callerFrame : Nat
  callerBase : Nat
  actuals : Nat
  deriving DecidableEq, Repr

def Call.frame (call : Call) : Nat :=
  call.callerBase - (Stack.environmentSize + call.actuals)

def Call.word (call : Call) : EnvironmentWord → Nat
  | .frame => call.callerFrame
  | .top => call.callerBase
  | .returnTo => call.callPc + 1
  | .actuals => call.actuals

/-- A call whose function was entered, with the count of its local slots. -/
structure Activation extends Call where
  localSize : Nat
  deriving DecidableEq, Repr

def Activation.base (activation : Activation) : Nat :=
  activation.frame - activation.localSize

/-- The open calls, the innermost first, over the outermost base; a call may have been made whose
function is not entered yet; some arguments may have been pushed for the next call. -/
structure CallStack where
  outermost : Nat
  activations : List Activation := []
  entering : Option Call := none
  pushed : Nat := 0
  deriving DecidableEq, Repr

def Activation.frameOf (outermost : Nat) : List Activation → Nat
  | [] => outermost
  | activation :: _ => activation.frame

def Activation.baseOf (outermost : Nat) : List Activation → Nat
  | [] => outermost
  | activation :: _ => activation.base

namespace CallStack

def frame (calls : CallStack) : Nat :=
  Activation.frameOf calls.outermost calls.activations

/-- The base in whose place the next argument or environment goes. -/
def base (calls : CallStack) : Nat :=
  Activation.baseOf calls.outermost calls.activations

/-! ## Runs -/

def call (calls : CallStack) (pc : Nat) : Call :=
  ⟨pc, calls.frame, calls.base, calls.pushed⟩

/-- How an action that an instruction at a place in the code is decoded to changes the open calls. A
call of a library function is over when its instruction is. -/
def advance (calls : CallStack) (pc : Nat) : Action → CallStack
  | .push _ => { calls with pushed := calls.pushed + 1 }
  | .callUser _ => { calls with entering := some (calls.call pc), pushed := 0 }
  | .callLibrary _ _ => { calls with pushed := 0 }
  | .enter _ localSize =>
      match calls.entering with
      | some call =>
          { calls with activations := ⟨call, localSize⟩ :: calls.activations, entering := none }
      | none => calls
  | .leave => { calls with activations := calls.activations.tail }
  | _ => calls

def localSize (calls : CallStack) : Nat :=
  match calls.activations with
  | [] => 0
  | activation :: _ => activation.localSize

def actuals (calls : CallStack) : Nat :=
  match calls.activations with
  | [] => 0
  | activation :: _ => activation.actuals

/-- Whether an operand that names a variable names one that is there: a global of the program, or a
local or an argument of the innermost activation. -/
def InRange (calls : CallStack) (globals : Nat) (operand : Operand) : Prop :=
  match operand.kind with
  | .global => operand.value.toNat < globals
  | .local => operand.value.toNat < calls.localSize
  | .formal => operand.value.toNat < calls.actuals
  | _ => True

instance (calls : CallStack) (globals : Nat) (operand : Operand) :
    Decidable (calls.InRange globals operand) :=
  match h : operand.kind with
  | .global => decidable_of_iff (operand.value.toNat < globals) (by rw [InRange, h])
  | .local => decidable_of_iff (operand.value.toNat < calls.localSize) (by rw [InRange, h])
  | .formal => decidable_of_iff (operand.value.toNat < calls.actuals) (by rw [InRange, h])
  | .label | .number | .string | .bool | .nil | .userFunction | .libraryFunction | .result
  | .absent => decidable_of_iff True (by rw [InRange, h])

/-- Whether an instruction respects the open calls: it names variables that are there, functions are
entered by calls only, and an activation is left when no arguments are pending. -/
structure Allows (calls : CallStack) (globals : Nat) (instruction : Instruction) : Prop where
  operands : calls.entering = none →
    ∀ operand ∈ [instruction.result, instruction.first, instruction.second],
      calls.InRange globals operand
  enter : instruction.opcode = .enter → calls.entering ≠ none
  leave : instruction.opcode = .leave → calls.activations ≠ [] ∧ calls.pushed = 0

instance (calls : CallStack) (globals : Nat) (instruction : Instruction) :
    Decidable (calls.Allows globals instruction) :=
  decidable_of_iff
    ((calls.entering = none →
        ∀ operand ∈ [instruction.result, instruction.first, instruction.second],
          calls.InRange globals operand) ∧
      (instruction.opcode = .enter → calls.entering ≠ none) ∧
      (instruction.opcode = .leave → calls.activations ≠ [] ∧ calls.pushed = 0))
    ⟨fun h => ⟨h.1, h.2.1, h.2.2⟩, fun h => ⟨h.operands, h.enter, h.leave⟩⟩

end CallStack

/-! ## Layout -/

/-- Whether a call was made from a frame and a base, with room for its environment. -/
structure Call.From (call : Call) (frame base : Nat) : Prop where
  frame_eq : call.callerFrame = frame
  base_eq : call.callerBase = base
  room : Stack.environmentSize + call.actuals ≤ base

/-- The environment and the arguments of a call fill the cells between its frame and the base of the
caller. -/
theorem Call.From.frame_add {call : Call} {frame base : Nat} (h : call.From frame base) :
    call.frame + 4 + call.actuals = base := by
  have hroom := h.room
  rw [Call.frame, h.base_eq]
  simp only [Stack.environmentSize] at hroom ⊢
  omega

/-- The four words follow on the frame. -/
theorem EnvironmentWord.offset_bounds (word : EnvironmentWord) :
    1 ≤ word.offset ∧ word.offset ≤ 4 := by
  cases word <;> decide

namespace Activation

/-- Whether each activation was called from the next older one, and has its locals below its
frame. -/
inductive Nested (outermost : Nat) : List Activation → Prop
  | nil : Nested outermost []
  | cons {activation : Activation} {rest : List Activation}
      (hcall : activation.From (frameOf outermost rest) (baseOf outermost rest))
      (hlocals : activation.localSize ≤ activation.frame) (h : Nested outermost rest) :
      Nested outermost (activation :: rest)

def IsWord (activations : List Activation) (address : Nat) : Prop :=
  ∃ activation ∈ activations, ∃ word : EnvironmentWord,
    address = activation.frame + word.offset

variable {outermost : Nat}

/-- All words lie above the innermost base and not above the outermost one. -/
theorem Nested.isWord_bounds {activations : List Activation} (h : Nested outermost activations) :
    frameOf outermost activations ≤ outermost ∧ baseOf outermost activations ≤ outermost ∧
      ∀ address, IsWord activations address →
        baseOf outermost activations < address ∧ address ≤ outermost := by
  induction h with
  | nil =>
      refine ⟨Nat.le_refl _, Nat.le_refl _, ?_⟩
      rintro address ⟨activation, hmem, -⟩
      cases hmem
  | @cons activation rest hcall hlocals h ih =>
      rcases ih with ⟨-, hbase, hwords⟩
      have hframe := hcall.frame_add
      simp only [frameOf, baseOf, base]
      refine ⟨by omega, by omega, ?_⟩
      -- The words of the innermost activation lie between its frame and the base of its caller.
      rintro address ⟨other, hmem, word, rfl⟩
      rcases word.offset_bounds with ⟨hlow, hhigh⟩
      rcases List.mem_cons.1 hmem with rfl | hmem
      · exact ⟨by omega, by omega⟩
      · have := hwords _ ⟨other, hmem, word, rfl⟩
        exact ⟨by omega, by omega⟩

/-- The frame, the arguments and the caller of an activation lie below the outermost base. -/
theorem Nested.caller_bounds {activations : List Activation} (h : Nested outermost activations)
    {activation : Activation} (hmem : activation ∈ activations) :
    activation.frame + 4 + activation.actuals = activation.callerBase ∧
      activation.callerBase ≤ outermost ∧ activation.callerFrame ≤ outermost := by
  induction h with
  | nil => cases hmem
  | @cons innermost rest hcall hlocals h ih =>
      rcases List.mem_cons.1 hmem with rfl | hmem
      · rcases h.isWord_bounds with ⟨hframe, hbase, -⟩
        rw [hcall.base_eq, hcall.frame_eq]
        exact ⟨hcall.frame_add, hbase, hframe⟩
      · exact ih hmem

/-- The words of the innermost activation lie right above its frame; those of the older ones lie
above its arguments. -/
theorem Nested.isWord_cons {activation : Activation} {rest : List Activation}
    (h : Nested outermost (activation :: rest)) {address : Nat}
    (hword : IsWord (activation :: rest) address) :
    activation.frame < address ∧ address ≤ activation.frame + 4 ∨
      activation.frame + 4 + activation.actuals < address ∧ address ≤ outermost := by
  cases h with
  | cons hcall hlocals h =>
      rcases hword with ⟨other, hmem, word, rfl⟩
      rcases word.offset_bounds with ⟨hlow, hhigh⟩
      rcases List.mem_cons.1 hmem with rfl | hmem
      · exact .inl ⟨by omega, by omega⟩
      · rcases h.isWord_bounds.2.2 _ ⟨other, hmem, word, rfl⟩ with ⟨hbase, hle⟩
        have hframe := hcall.frame_add
        exact .inr ⟨by omega, hle⟩

end Activation
end CellMachine
