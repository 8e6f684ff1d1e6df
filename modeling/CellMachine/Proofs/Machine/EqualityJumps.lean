import Mathlib
import CellMachine.Proofs.Machine.Step
import CellMachine.Proofs.Table.Keys

/-!
# Equality and its two jumps

To compare two cells the other way round gives the same answer, or the same refusal with its types
exchanged: `Cell.equal_exchange`.  Among the cells of one type that can be equal at all, equality is
an equivalence: `Cell.equal_equivalence`.

Two instructions compare cells, one jumps if they are equal and the other one if they are not.
`Machine.GoesOn` and `Machine.FailsWith` say how an instruction that touches nothing but the place in
the code ends; the main statement is `Machine.equality_jumps`.
-/

namespace CellMachine

/-! ## Equality of cells -/

/-- Being the same quantity goes both ways. -/
theorem Number.same_comm (x y : Float) : same x y = same y x :=
  Bool.eq_iff_iff.2 ⟨same_symm, same_symm⟩

def Incomparable.exchange : Incomparable → Incomparable
  | undefined => undefined
  | types left right => types right left

namespace Cell

def isNaN : Cell → Bool
  | number x => Number.value x = .nan
  | _ => false

variable {a b c : Cell}

/-- The answer does not depend on the order of the two cells. -/
theorem equal_exchange (a b : Cell) :
    b.equal a = (a.equal b).mapError Incomparable.exchange := by
  have hcomm {α : Type} [DecidableEq α] (x y : α) : decide (y = x) = decide (x = y) :=
    decide_eq_decide.2 eq_comm
  -- Where the constructors differ, one rule of the comparison covers both orders.
  cases a with
  | undefined | nil => cases b <;> rfl
  | number x =>
      cases b with
      | number y => exact congrArg Except.ok (Number.same_comm y x)
      | _ => rfl
  | text s =>
      cases b with
      | text t => exact congrArg Except.ok (hcomm s t)
      | _ => rfl
  | bool p =>
      cases b with
      | bool q => exact congrArg Except.ok (hcomm p q)
      | _ => rfl
  | table i =>
      cases b with
      | table j => exact congrArg Except.ok (hcomm i j)
      | _ => rfl
  | userFunction p =>
      cases b with
      | userFunction q => exact congrArg Except.ok (hcomm p q)
      | _ => rfl
  | libraryFunction m =>
      cases b with
      | libraryFunction n => exact congrArg Except.ok (hcomm m n)
      | _ => rfl

/-- A refusal names the types of both cells in their order. -/
theorem equal_types {left right : CellType} (h : a.equal b = .error (.types left right)) :
    left = a.type ∧ right = b.type := by
  cases a <;> cases b <;> cases h
  all_goals exact ⟨rfl, rfl⟩

/-- A defined cell equals itself, unless it holds what is no number. -/
theorem equal_self (hdefined : a.type ≠ .undefined) (hnumber : a.isNaN = false) :
    a.equal a = .ok true := by
  cases a with
  | undefined => exact absurd rfl hdefined
  | number x =>
      have hvalue : Number.value x ≠ .nan := of_decide_eq_false hnumber
      exact congrArg Except.ok ((Number.same_self_iff x).2 hvalue)
  | nil => rfl
  | _ => exact congrArg Except.ok (decide_eq_true rfl)

/-- Equality goes both ways. -/
theorem equal_symm (h : a.equal b = .ok true) : b.equal a = .ok true := by
  rw [equal_exchange, h]
  rfl

/-- Numbers apart, equal cells of one type are the same cell. -/
theorem eq_of_equal (htype : a.type = b.type) (hnumber : a.type ≠ .number)
    (h : a.equal b = .ok true) : a = b := by
  -- Of the other types equality is that of what the cells hold.
  cases a with
  | number x => exact absurd rfl hnumber
  | undefined => cases h
  | nil =>
      cases b with
      | nil => rfl
      | _ => cases htype
  | bool p =>
      cases b <;> cases htype
      exact congrArg bool (of_decide_eq_true (Except.ok.inj h))
  | text s =>
      cases b <;> cases htype
      exact congrArg text (of_decide_eq_true (Except.ok.inj h))
  | table i =>
      cases b <;> cases htype
      exact congrArg table (of_decide_eq_true (Except.ok.inj h))
  | userFunction p =>
      cases b <;> cases htype
      exact congrArg userFunction (of_decide_eq_true (Except.ok.inj h))
  | libraryFunction m =>
      cases b <;> cases htype
      exact congrArg libraryFunction (of_decide_eq_true (Except.ok.inj h))

theorem exists_number (h : a.type = .number) : ∃ x, a = .number x := by
  cases a with
  | number x => exact ⟨x, rfl⟩
  | _ => cases h

/-- Equality of cells of one type carries over from one to the next. -/
theorem equal_trans (hab : a.type = b.type) (hbc : b.type = c.type) (h : a.equal b = .ok true)
    (h' : b.equal c = .ok true) : a.equal c = .ok true := by
  by_cases hnumber : a.type = .number
  · rcases exists_number hnumber with ⟨x, rfl⟩
    rcases exists_number hab.symm with ⟨y, rfl⟩
    rcases exists_number hbc.symm with ⟨z, rfl⟩
    exact congrArg Except.ok (Number.same_trans (Except.ok.inj h) (Except.ok.inj h'))
  · rwa [eq_of_equal hab hnumber h]

/-- Equality is an equivalence of the cells of one type, if they hold something and no NaN. -/
theorem equal_equivalence {type : CellType} (hdefined : type ≠ .undefined) :
    Equivalence fun a b : {c : Cell // c.type = type ∧ c.isNaN = false} =>
      a.1.equal b.1 = .ok true where
  refl a := equal_self (a.2.1.trans_ne hdefined) a.2.2
  symm := equal_symm
  trans {a b c} := equal_trans (a.2.1.trans b.2.1.symm) (b.2.1.trans c.2.1.symm)

end Cell

/-! ## Jumps -/

/-- Exchanged types make another fault of the same code. -/
theorem Cell.compare_exchange (a b : Cell) :
    (∃ answer, a.equal b = .ok answer ∧ a.compare b = .ok answer ∧ b.compare a = .ok answer) ∨
      ∃ fault exchanged, exchanged.code = fault.code ∧ a.compare b = .error fault ∧
        b.compare a = .error exchanged := by
  rw [compare, compare, equal_exchange a b]
  cases a.equal b with
  | ok answer => exact .inl ⟨answer, rfl, rfl, rfl⟩
  | error reason =>
      cases reason with
      | undefined => exact .inr ⟨.undefinedComparison, .undefinedComparison, rfl, rfl, rfl⟩
      | types left right =>
          exact .inr ⟨.typeMismatch left right, .typeMismatch right left, rfl, rfl, rfl⟩

namespace Flow

def branch (condition : Bool) (target : Nat) : Flow :=
  if condition then .jump target else .next

def place (pc : Nat) : Flow → Nat
  | next => pc + 1
  | jump target => target

end Flow

namespace Machine

/-- Whether an instruction goes on with a flow and changes nothing else: a machine that stands at it
goes on there, and the log has one more event. -/
structure GoesOn (machine : Machine) (state : State) (instruction : Instruction) (flow : Flow) :
    Prop where
  run_eq : (machine.execute instruction).run state = .ok flow state
  step_eq : state.finished = false → machine.program.code[state.pc]? = some instruction →
    machine.step state =
      (.running, { fetched state instruction with pc := flow.place state.pc })

/-- Whether an instruction fails and changes nothing: a machine that stands at it stays there, and
the log has one more event. -/
structure FailsWith (machine : Machine) (state : State) (instruction : Instruction)
    (fault : Fault) : Prop where
  run_eq : (machine.execute instruction).run state = .error fault state
  step_eq : state.finished = false → machine.program.code[state.pc]? = some instruction →
    machine.step state =
      (.trapped ⟨state.pc, instruction.line, fault⟩, fetched state instruction)

/-- The instruction that jumps if two operands are equal, or if they are not. -/
def equalityJump (onEqual : Bool) (target line : UInt32) (first second : Operand) : Instruction :=
  match onEqual with
  | true => ⟨.jumpEqual, ⟨.label, target⟩, first, second, line⟩
  | false => ⟨.jumpUnequal, ⟨.label, target⟩, first, second, line⟩

theorem run_branch (condition : Bool) (target : Nat) (state : State) :
    (Exec.perform (.branch condition target)).run state = .ok (.branch condition target) state := by
  cases condition <;> rfl

section

variable {machine : Machine} {state : State} {first second : Operand} {a b : Cell}
  (onEqual : Bool) (target line : UInt32)
  (hfirst : machine.program.operandCell state first = .ok a)
  (hsecond : machine.program.operandCell state second = .ok b)
include hfirst hsecond

/-- Both jumps compare the cells of their operands, once they know where to jump. -/
theorem decode_equalityJump :
    machine.decode state (equalityJump onEqual target line first second) =
      (fun answer => .branch (answer == onEqual) target.toNat) <$> a.compare b := by
  cases onEqual with
  | true =>
      simp only [decode, equalityJump, Operand.target, hfirst, hsecond]
      change (a.compare b >>= fun answer => pure (Action.branch answer target.toNat)) = _
      cases a.compare b with
      | ok answer => cases answer <;> rfl
      | error fault => rfl
  | false =>
      simp only [decode, equalityJump, Operand.target, hfirst, hsecond]
      change (a.compare b >>= fun answer => pure (Action.branch (!answer) target.toNat)) = _
      cases a.compare b with
      | ok answer => cases answer <;> rfl
      | error fault => rfl

/-- The jump is taken if the answer is the one that it waits for. -/
theorem run_equalityJump_ok {answer : Bool} (hcompare : a.compare b = .ok answer) :
    (machine.execute (equalityJump onEqual target line first second)).run state =
      .ok (.branch (answer == onEqual) target.toNat) state := by
  have hdecode := decode_equalityJump onEqual target line hfirst hsecond
  rw [hcompare] at hdecode
  exact (run_execute_of_ok hdecode).trans (run_branch _ _ _)

/-- Cells that cannot be compared are a fault of the jump. -/
theorem run_equalityJump_error {fault : Fault} (hcompare : a.compare b = .error fault) :
    (machine.execute (equalityJump onEqual target line first second)).run state =
      .error fault state := by
  have hdecode := decode_equalityJump onEqual target line hfirst hsecond
  rw [hcompare] at hdecode
  exact run_execute_of_error hdecode

/-- The machine goes on at the target or at the next instruction, and only the log has changed. -/
theorem goesOn_of_compare {answer : Bool} (htarget : target.toNat ≤ machine.program.code.size)
    (hcompare : a.compare b = .ok answer) :
    machine.GoesOn state (equalityJump onEqual target line first second)
      (.branch (answer == onEqual) target.toNat) := by
  refine ⟨run_equalityJump_ok onEqual target line hfirst hsecond hcompare, fun hgoing hget => ?_⟩
  -- To report the instruction changes no operand.
  have hfetched := @run_equalityJump_ok machine
    (fetched state (equalityJump onEqual target line first second)) _ _ _ _ onEqual target line
    hfirst hsecond _ hcompare
  generalize (answer == onEqual) = condition at hfetched ⊢
  cases condition with
  | true => exact step_of_jump hgoing hget hfetched htarget
  | false =>
      rw [step_of_get hgoing hget, executeStep, hfetched]
      rfl

/-- The machine stays where it is, and only the log has changed. -/
theorem failsWith_of_compare {fault : Fault} (hcompare : a.compare b = .error fault) :
    machine.FailsWith state (equalityJump onEqual target line first second) fault := by
  refine ⟨run_equalityJump_error onEqual target line hfirst hsecond hcompare, fun hgoing hget => ?_⟩
  have hfetched := @run_equalityJump_error machine
    (fetched state (equalityJump onEqual target line first second)) _ _ _ _ onEqual target line
    hfirst hsecond _ hcompare
  exact step_of_error hgoing hget hfetched

end

/-- Equality is symmetric, also in what it refuses, and it is an equivalence of the cells of one
type that hold something and no NaN.  Of the two jumps that compare the same operands, both fail
with one fault, or one of them jumps and the other one falls through.  To exchange the operands
changes neither which one jumps nor the code of the fault, and no state is changed but for its place
in the code and the log. -/
theorem equality_jumps :
    (∀ a b : Cell,
      (∃ answer, a.equal b = .ok answer ∧ b.equal a = .ok answer) ∨
        (a.equal b = .error .undefined ∧ b.equal a = .error .undefined) ∨
        a.equal b = .error (.types a.type b.type) ∧ b.equal a = .error (.types b.type a.type)) ∧
      (∀ type : CellType, type ≠ .undefined →
        Equivalence fun a b : {c : Cell // c.type = type ∧ c.isNaN = false} =>
          a.1.equal b.1 = .ok true) ∧
      ∀ (machine : Machine) (state : State) (target line : UInt32) (first second : Operand)
        (a b : Cell), target.toNat ≤ machine.program.code.size →
        machine.program.operandCell state first = .ok a →
        machine.program.operandCell state second = .ok b →
        (∃ fault exchanged, exchanged.code = fault.code ∧ a.compare b = .error fault ∧
          machine.FailsWith state ⟨.jumpEqual, ⟨.label, target⟩, first, second, line⟩ fault ∧
          machine.FailsWith state ⟨.jumpUnequal, ⟨.label, target⟩, first, second, line⟩ fault ∧
          machine.FailsWith state ⟨.jumpEqual, ⟨.label, target⟩, second, first, line⟩ exchanged ∧
          machine.FailsWith state ⟨.jumpUnequal, ⟨.label, target⟩, second, first, line⟩
            exchanged) ∨
        ∃ answer, a.equal b = .ok answer ∧
          machine.GoesOn state ⟨.jumpEqual, ⟨.label, target⟩, first, second, line⟩
            (.branch answer target.toNat) ∧
          machine.GoesOn state ⟨.jumpUnequal, ⟨.label, target⟩, first, second, line⟩
            (.branch (!answer) target.toNat) ∧
          machine.GoesOn state ⟨.jumpEqual, ⟨.label, target⟩, second, first, line⟩
            (.branch answer target.toNat) ∧
          machine.GoesOn state ⟨.jumpUnequal, ⟨.label, target⟩, second, first, line⟩
            (.branch (!answer) target.toNat) := by
  refine ⟨fun a b => ?_, fun _ => Cell.equal_equivalence, ?_⟩
  · have hexchange := Cell.equal_exchange a b
    cases h : a.equal b with
    | ok answer =>
        rw [h] at hexchange
        exact .inl ⟨answer, rfl, hexchange⟩
    | error reason =>
        rw [h] at hexchange
        cases reason with
        | undefined => exact .inr (.inl ⟨rfl, hexchange⟩)
        | types left right =>
            rcases Cell.equal_types h with ⟨rfl, rfl⟩
            exact .inr (.inr ⟨rfl, hexchange⟩)
  · intro machine state target line first second a b htarget hfirst hsecond
    -- All four jumps compare the same two cells, in one order or in the other one.
    rcases a.compare_exchange b with ⟨answer, hequal, hcompare, hexchanged⟩ |
      ⟨fault, exchanged, hcode, hcompare, hexchanged⟩
    · have hgoes (onEqual : Bool) :=
        goesOn_of_compare onEqual target line hfirst hsecond htarget hcompare
      have hgoes' (onEqual : Bool) :=
        goesOn_of_compare onEqual target line hsecond hfirst htarget hexchanged
      have htrue := hgoes true
      have htrue' := hgoes' true
      have hfalse := hgoes false
      have hfalse' := hgoes' false
      rw [beq_true] at htrue htrue'
      rw [beq_false] at hfalse hfalse'
      exact .inr ⟨answer, hequal, htrue, hfalse, htrue', hfalse'⟩
    · have hfails (onEqual : Bool) :=
        failsWith_of_compare onEqual target line hfirst hsecond hcompare
      have hfails' (onEqual : Bool) :=
        failsWith_of_compare onEqual target line hsecond hfirst hexchanged
      exact .inl ⟨fault, exchanged, hcode, hcompare, hfails true, hfails false, hfails' true,
        hfails' false⟩

def comparer : Machine where
  program :=
    { strings := #["x"]
      libraryFunctions := #["print"]
      code := #[⟨.jumpEqual, ⟨.label, 1⟩, ⟨.string, 0⟩, ⟨.libraryFunction, 0⟩, 4⟩] }

/-- A text and a function are refused in both orders, and a text is as true as a truth value. -/
theorem equality_jumps_comparer :
    (Equivalence fun a b : {c : Cell // c.type = .number ∧ c.isNaN = false} =>
        a.1.equal b.1 = .ok true) ∧
      (∃ fault exchanged, exchanged.code = fault.code ∧
        comparer.step { stack := ⟨#[.undefined], 0, 0, 0⟩ } = (.trapped ⟨0, 4, fault⟩,
          fetched { stack := ⟨#[.undefined], 0, 0, 0⟩ }
            ⟨.jumpEqual, ⟨.label, 1⟩, ⟨.string, 0⟩, ⟨.libraryFunction, 0⟩, 4⟩) ∧
        comparer.FailsWith { stack := ⟨#[.undefined], 0, 0, 0⟩ }
          ⟨.jumpUnequal, ⟨.label, 1⟩, ⟨.libraryFunction, 0⟩, ⟨.string, 0⟩, 4⟩ exchanged) ∧
      comparer.GoesOn { stack := ⟨#[.undefined], 0, 0, 0⟩ }
          ⟨.jumpEqual, ⟨.label, 1⟩, ⟨.bool, 1⟩, ⟨.string, 0⟩, 5⟩ (.jump 1) ∧
        comparer.GoesOn { stack := ⟨#[.undefined], 0, 0, 0⟩ }
          ⟨.jumpUnequal, ⟨.label, 1⟩, ⟨.bool, 1⟩, ⟨.string, 0⟩, 5⟩ .next := by
  have h := equality_jumps
  refine ⟨h.2.1 .number (by decide), ?_, ?_⟩
  · rcases h.2.2 comparer { stack := ⟨#[.undefined], 0, 0, 0⟩ } 1 4 ⟨.string, 0⟩
        ⟨.libraryFunction, 0⟩ (.text "x") (.libraryFunction "print") (by decide) rfl rfl with
      ⟨fault, exchanged, hcode, -, hfails, -, -, hexchanged⟩ | ⟨answer, hequal, -⟩
    · exact ⟨fault, exchanged, hcode, hfails.step_eq rfl rfl, hexchanged⟩
    · cases hequal
  · rcases h.2.2 comparer { stack := ⟨#[.undefined], 0, 0, 0⟩ } 1 5 ⟨.bool, 1⟩ ⟨.string, 0⟩
        (.bool true) (.text "x") (by decide) rfl rfl with
      ⟨fault, exchanged, -, hcompare, -⟩ | ⟨answer, hequal, hgoes, hgoes', -⟩
    · cases hcompare
    · cases hequal
      exact ⟨hgoes, hgoes'⟩

end Machine
end CellMachine
