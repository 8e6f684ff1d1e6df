import Mathlib
import CellMachine.Library.Standard
import CellMachine.Proofs.Machine.Mirroring

/-!
# What the standard functions cannot tell apart

A standard function sees its own arguments, those of its caller, the tables and the console.  States
that agree on these get the same answer, or the same fault, from every standard function, and what
it changes can be made the same in both: `Library.standard_lockstep`.

The relation between the states is a parameter, as the property is in `Library.standard_keeps`.
Where the frames lie is not seen by any function, so the relation may let them lie elsewhere.
-/

namespace CellMachine

/-! ## States that look the same -/

structure Stack.SameArguments (stack : Stack) (base : Nat) (stack' : Stack) (base' : Nat) :
    Prop where
  count : stack'.actualsAt base' = stack.actualsAt base
  argument : ∀ index, stack'.actualAt base' index = stack.actualAt base index

/-- Whether two executing functions were both called from the outermost frame, or both from frames
with the same arguments. -/
inductive Stack.SameCaller (stack stack' : Stack) : Prop
  | outermost (h : stack.callerFrame = .ok none) (h' : stack'.callerFrame = .ok none)
  | frame (base base' : Nat) (h : stack.callerFrame = .ok (some base))
      (h' : stack'.callerFrame = .ok (some base'))
      (hsame : stack.SameArguments base stack' base')

/-- A relation between states that look the same to a library function, and that survives the
changes which library functions make. -/
structure State.Linked (related : State → State → Prop) : Prop where
  own : ∀ state state', related state state' →
    state.stack.SameArguments state.stack.frame state'.stack state'.stack.frame
  caller : ∀ state state', related state state' → state.stack.SameCaller state'.stack
  heap_eq : ∀ state state', related state state' → state'.heap = state.heap
  console_eq : ∀ state state', related state state' → state'.console = state.console
  report : ∀ state state' event, related state state' →
    related (state.report event) (state'.report event)
  console : ∀ state state' console, related state state' →
    related { state with console := console } { state' with console := console }
  answer : ∀ state state' cell, related state state' →
    related (state.overwrite .result cell) (state'.overwrite .result cell)
  table : ∀ state state' entries, related state state' →
    related
      ((state.createTable entries).2.overwrite .result (.table (state.createTable entries).1))
      ((state'.createTable entries).2.overwrite .result (.table (state'.createTable entries).1))

namespace Library
namespace Standard

open Exec

variable {related : State → State → Prop} (hlinked : State.Linked related)
include hlinked

/-! ## Reading -/

/-- Functions that are called with the same arguments count the same number of them. -/
theorem actuals_lockstep : Lockstep related Exec.actuals :=
  Lockstep.decide fun state state' hs => (hlinked.own state state' hs).count

/-- An argument is the same wherever the frame lies. -/
theorem argumentOf_lockstep (function : String) (index : Nat) :
    Lockstep related (argumentOf function index) := by
  refine Lockstep.bind (Lockstep.decide fun state state' hs =>
    (hlinked.own state state' hs).argument index) fun cell? => ?_
  split
  · exact Lockstep.pure _
  · exact Lockstep.throw _

theorem numberOf_lockstep (function : String) : Lockstep related (numberOf function) := by
  refine (argumentOf_lockstep hlinked function 0).bind fun cell => ?_
  split
  · exact Lockstep.pure _
  · exact Lockstep.throw _

theorem tableOf_lockstep (function : String) : Lockstep related (tableOf function) := by
  refine (argumentOf_lockstep hlinked function 0).bind fun cell => ?_
  split
  · exact Lockstep.pure _
  · exact Lockstep.throw _

/-- What is done next may depend on the tables, which are the same. -/
theorem heap_lockstep {α : Type} (f : Heap → Exec α) (hf : ∀ heap, Lockstep related (f heap)) :
    Lockstep related (do f (← get).heap) := by
  refine Mirrors.get_bind fun read read' hs => ?_
  rintro _ _ ⟨rfl, rfl⟩
  rw [hlinked.heap_eq _ _ hs]
  exact hf _ _ _ hs

/-- A function that asks for the frame of its caller finds none, or the same arguments there. -/
theorem callerFrame_lockstep {α : Type} {f : Stack → Nat → Except Fault α}
    (hf : ∀ stack stack' base base', stack.SameArguments base stack' base' →
      f stack' base' = f stack base)
    {g : α → Exec Unit} (hg : ∀ x, Lockstep related (g x)) (event : Event) :
    Lockstep related (do
      match ← Exec.callerFrame with
      | some frame => g (← Exec.decide fun state => f state.stack frame)
      | none => Exec.report event) := by
  -- Either both have no caller, or both have one with the same arguments.
  refine Mirrors.bind (fun frame? frame?' state state' => related state state' ∧
    (frame? = none ∧ frame?' = none ∨ ∃ base base', frame? = some base ∧ frame?' = some base' ∧
      state.stack.SameArguments base state'.stack base')) ?_ ?_
  · refine Mirrors.decide fun state state' hs => ?_
    cases hlinked.caller _ _ hs with
    | outermost h h' =>
        rw [h]
        exact ⟨none, h', hs, .inl ⟨rfl, rfl⟩⟩
    | frame base base' h h' hsame =>
        rw [h]
        exact ⟨some base', h', hs, .inr ⟨base, base', rfl, rfl, hsame⟩⟩
  · rintro frame? frame?' state state' ⟨hs, ⟨rfl, rfl⟩ | ⟨base, base', rfl, rfl, hsame⟩⟩
    · exact Lockstep.modify (fun _ _ hs => hlinked.report _ _ event hs) state state' hs
    · have hasked : Mirrors (fun after after' => after = state ∧ after' = state')
          (Exec.decide fun state => f state.stack base)
          (Exec.decide fun state => f state.stack base')
          fun x x' after after' => x = x' ∧ related after after' := by
        refine Mirrors.decide ?_
        rintro _ _ ⟨rfl, rfl⟩
        have heq := hf _ _ _ _ hsame
        split
        · rename_i x hx
          exact ⟨x, heq.trans hx, rfl, hs⟩
        · rename_i fault hfault
          exact .inr (heq.trans hfault)
      refine Mirrors.bind _ hasked ?_ state state' ⟨rfl, rfl⟩
      rintro x x' after after' ⟨rfl, hafter⟩
      exact hg x after after' hafter

/-! ## Console, reflection and numbers -/

/-- The same answer keeps two states related. -/
theorem setResult_lockstep (cell : Cell) : Lockstep related (setResult cell) :=
  Lockstep.modify fun state state' hs => hlinked.answer state state' cell hs

theorem write_lockstep (s : String) : Lockstep related (Exec.write s) := by
  refine Mirrors.get_bind fun read read' hs => ?_
  rw [hlinked.console_eq _ _ hs]
  cases read.console.write s with
  | ok console =>
      rintro _ _ ⟨rfl, rfl⟩
      exact ⟨(), _, rfl, rfl, hlinked.console _ _ console hs⟩
  | error fault => exact Mirrors.throw fault

/-- The same line is taken from the same input. -/
theorem takeLine_lockstep : Lockstep related Exec.takeLine := by
  intro state state' hs
  refine ⟨_, _, rfl, ?_, ?_⟩
  · rw [hlinked.console_eq _ _ hs]
  · rw [hlinked.console_eq _ _ hs]
    exact hlinked.console _ _ _ hs

theorem print_lockstep : Lockstep related print := by
  refine (actuals_lockstep hlinked).bind fun count => ?_
  refine Lockstep.bind (Lockstep.mapM _ fun index => ?_) fun texts => write_lockstep hlinked _
  refine (argumentOf_lockstep hlinked "print" index).bind fun cell => ?_
  exact heap_lockstep hlinked (fun heap => pure (heap.text cell)) fun _ => Lockstep.pure _

theorem input_lockstep : Lockstep related input := by
  refine Lockstep.bind (Lockstep.decide fun state state' hs => ?_) fun _ => ?_
  · rw [hlinked.console_eq _ _ hs]
  refine (takeLine_lockstep hlinked).bind fun bytes => ?_
  split
  · split
    · exact setResult_lockstep hlinked _
    · exact Lockstep.throw _
  · exact Lockstep.pure _

theorem typeName_lockstep : Lockstep related typeName :=
  (argumentOf_lockstep hlinked "typeof" 0).bind fun _ => setResult_lockstep hlinked _

theorem totalArguments_lockstep : Lockstep related totalArguments :=
  callerFrame_lockstep hlinked (fun _ _ _ _ hsame => hsame.count)
    (fun _ => setResult_lockstep hlinked _) _

theorem argument_lockstep : Lockstep related argument := by
  refine (numberOf_lockstep hlinked "argument").bind fun x => ?_
  split
  · exact Lockstep.throw _
  · rename_i index _
    exact callerFrame_lockstep hlinked
      (fun _ _ _ _ hsame => hsame.argument (min index Number.maxWord))
      (fun _ => setResult_lockstep hlinked _) _

theorem textToNumber_lockstep : Lockstep related textToNumber := by
  refine (argumentOf_lockstep hlinked "strtonum" 0).bind fun cell => ?_
  split
  · split
    · exact setResult_lockstep hlinked _
    · exact setResult_lockstep hlinked _
  · exact Lockstep.throw _

theorem sqrt_lockstep : Lockstep related sqrt := by
  refine (numberOf_lockstep hlinked "sqrt").bind fun x => ?_
  split
  · exact setResult_lockstep hlinked _
  · exact Lockstep.pure _

theorem cos_lockstep : Lockstep related cos :=
  (numberOf_lockstep hlinked "cos").bind fun _ => setResult_lockstep hlinked _

theorem sin_lockstep : Lockstep related sin :=
  (numberOf_lockstep hlinked "sin").bind fun _ => setResult_lockstep hlinked _

/-! ## Tables -/

/-- A new table has the same identity in both states. -/
theorem setResultTable_lockstep (entries : List Entry) :
    Lockstep related (setResultTable entries) :=
  Lockstep.modify fun state state' hs => hlinked.table state state' entries hs

theorem totalMembers_lockstep : Lockstep related totalMembers :=
  (tableOf_lockstep hlinked "objecttotalmembers").bind fun id =>
    heap_lockstep hlinked (fun heap => setResult (.number (Number.ofNat (heap.size id))))
      fun _ => setResult_lockstep hlinked _

theorem memberKeys_lockstep : Lockstep related memberKeys := by
  refine (tableOf_lockstep hlinked "objectmemberkeys").bind fun id => ?_
  have hkeys := heap_lockstep hlinked
    (fun heap => setResultTable (listed ((heap.entries id).map fun entry => entry.1.toCell)))
    fun _ => setResultTable_lockstep hlinked _
  exact hkeys

theorem copy_lockstep : Lockstep related copy :=
  (tableOf_lockstep hlinked "objectcopy").bind fun id =>
    heap_lockstep hlinked (fun heap => setResultTable (heap.entries id))
      fun _ => setResultTable_lockstep hlinked _

end Standard

/-- A standard function gives the same answer in states that look the same to it. -/
theorem standard_lockstep {related : State → State → Prop} (hlinked : State.Linked related)
    {name : String} {function : Exec Unit} (h : standard.find? name = some function) :
    Exec.Lockstep related function := by
  have hmem : (name, function) ∈ standard.functions := by
    rcases List.lookup_eq_some_iff.1 h with ⟨l₁, l₂, hlist, -⟩
    rw [hlist]
    simp
  simp only [standard, List.mem_cons, List.not_mem_nil, or_false, Prod.mk.injEq] at hmem
  rcases hmem with ⟨-, rfl⟩ | ⟨-, rfl⟩ | ⟨-, rfl⟩ | ⟨-, rfl⟩ | ⟨-, rfl⟩ | ⟨-, rfl⟩ | ⟨-, rfl⟩ |
    ⟨-, rfl⟩ | ⟨-, rfl⟩ | ⟨-, rfl⟩ | ⟨-, rfl⟩ | ⟨-, rfl⟩
  · exact Standard.print_lockstep hlinked
  · exact Standard.input_lockstep hlinked
  · exact Standard.typeName_lockstep hlinked
  · exact Standard.totalArguments_lockstep hlinked
  · exact Standard.argument_lockstep hlinked
  · exact Standard.textToNumber_lockstep hlinked
  · exact Standard.sqrt_lockstep hlinked
  · exact Standard.cos_lockstep hlinked
  · exact Standard.sin_lockstep hlinked
  · exact Standard.totalMembers_lockstep hlinked
  · exact Standard.memberKeys_lockstep hlinked
  · exact Standard.copy_lockstep hlinked

end Library
end CellMachine
