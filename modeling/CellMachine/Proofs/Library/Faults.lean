import Mathlib
import CellMachine.Library.Standard
import CellMachine.Proofs.Machine.Faults

/-!
# Which faults the standard functions raise

A standard function complains about its arguments, about the frame in which it looks for them, or
about a stream.  So a stack overflow, a missing entry or a jump out of the code is never the doing
of a standard function: `Library.standard_raises`.
-/

namespace CellMachine
namespace Library
namespace Standard

open Exec

/-! ## Arguments -/

/-- Reading a frame raises nothing that a function may not raise. -/
theorem decideFrame_raises {α : Type} {f : State → Except Fault α}
    (h : ∀ state, FaultsIn Fault.OfFrame (f state)) :
    Raises Fault.OfFunction (Exec.decide f) :=
  Raises.mono (Raises.decide h) fun _ hfault => hfault.ofFunction

theorem argumentOf_raises (function : String) (index : Nat) :
    Raises Fault.OfFunction (argumentOf function index) := by
  refine (decideFrame_raises fun state => state.stack.actualAt_raises _ _).bind fun cell? => ?_
  split
  · exact Raises.pure _
  · exact Raises.throw trivial

theorem numberOf_raises (function : String) : Raises Fault.OfFunction (numberOf function) := by
  refine (argumentOf_raises function 0).bind fun cell => ?_
  split
  · exact Raises.pure _
  · exact Raises.throw trivial

theorem tableOf_raises (function : String) : Raises Fault.OfFunction (tableOf function) := by
  refine (argumentOf_raises function 0).bind fun cell => ?_
  split
  · exact Raises.pure _
  · exact Raises.throw trivial

theorem callerFrame_raises : Raises Fault.OfFunction Exec.callerFrame :=
  decideFrame_raises fun state => state.stack.callerFrame_raises

theorem setResult_raises (cell : Cell) : Raises Fault.OfFunction (setResult cell) :=
  Raises.modify _

/-! ## Console -/

theorem write_raises (s : String) : Raises Fault.OfFunction (Exec.write s) := by
  refine Raises.get.bind fun state => ?_
  have hwrite : FaultsIn Fault.OfFunction (state.console.write s) := by
    rw [Console.write]
    split
    · exact FaultsIn.ok _
    · exact FaultsIn.throw trivial
  exact (Raises.ofExcept hwrite).bind fun console => Raises.modify _

theorem flush_raises : Raises Fault.OfFunction Exec.flush := by
  refine Raises.decide fun state => ?_
  rw [Console.flush]
  split
  · exact FaultsIn.ok _
  · exact FaultsIn.throw trivial

theorem print_raises : Raises Fault.OfFunction print := by
  refine (decideFrame_raises fun state => state.stack.word_raises _ _).bind fun count => ?_
  refine Raises.bind (Raises.mapM fun index => ?_) fun texts => write_raises _
  exact (argumentOf_raises "print" index).bind fun _ => Raises.get.bind fun _ => Raises.pure _

theorem input_raises : Raises Fault.OfFunction input := by
  have htake : Raises Fault.OfFunction Exec.takeLine := fun _ _ => trivial
  refine flush_raises.bind fun _ => htake.bind fun bytes => ?_
  split
  · split
    · exact setResult_raises _
    · exact Raises.throw trivial
  · exact Raises.pure _

/-! ## Reflection and numbers -/

theorem typeName_raises : Raises Fault.OfFunction typeName :=
  (argumentOf_raises "typeof" 0).bind fun _ => setResult_raises _

theorem totalArguments_raises : Raises Fault.OfFunction totalArguments := by
  refine callerFrame_raises.bind fun frame? => ?_
  split
  · refine (decideFrame_raises fun state => state.stack.word_raises _ _).bind fun count => ?_
    exact setResult_raises _
  · exact Raises.modify _

theorem argument_raises : Raises Fault.OfFunction argument := by
  refine (numberOf_raises "argument").bind fun x => ?_
  split
  · exact Raises.throw trivial
  · refine callerFrame_raises.bind fun frame? => ?_
    split
    · refine (decideFrame_raises fun state => state.stack.actualAt_raises _ _).bind fun cell? => ?_
      exact setResult_raises _
    · exact Raises.modify _

theorem textToNumber_raises : Raises Fault.OfFunction textToNumber := by
  refine (argumentOf_raises "strtonum" 0).bind fun cell => ?_
  split
  · split
    · exact setResult_raises _
    · exact setResult_raises _
  · exact Raises.throw trivial

theorem sqrt_raises : Raises Fault.OfFunction sqrt := by
  refine (numberOf_raises "sqrt").bind fun x => ?_
  split
  · exact setResult_raises _
  · exact Raises.pure _

theorem cos_raises : Raises Fault.OfFunction cos :=
  (numberOf_raises "cos").bind fun _ => setResult_raises _

theorem sin_raises : Raises Fault.OfFunction sin :=
  (numberOf_raises "sin").bind fun _ => setResult_raises _

/-! ## Tables -/

theorem totalMembers_raises : Raises Fault.OfFunction totalMembers :=
  (tableOf_raises "objecttotalmembers").bind fun _ => Raises.get.bind fun _ => setResult_raises _

theorem memberKeys_raises : Raises Fault.OfFunction memberKeys :=
  (tableOf_raises "objectmemberkeys").bind fun _ => Raises.get.bind fun _ => Raises.modify _

theorem copy_raises : Raises Fault.OfFunction copy :=
  (tableOf_raises "objectcopy").bind fun _ => Raises.get.bind fun _ => Raises.modify _

end Standard

/-- A standard function raises faults about arguments, frames and streams only. -/
theorem standard_raises {name : String} {function : Exec Unit}
    (h : standard.find? name = some function) : Exec.Raises Fault.OfFunction function := by
  have hmem : (name, function) ∈ standard.functions := by
    rcases List.lookup_eq_some_iff.1 h with ⟨l₁, l₂, hlist, -⟩
    rw [hlist]
    simp
  simp only [standard, List.mem_cons, List.not_mem_nil, or_false, Prod.mk.injEq] at hmem
  rcases hmem with ⟨-, rfl⟩ | ⟨-, rfl⟩ | ⟨-, rfl⟩ | ⟨-, rfl⟩ | ⟨-, rfl⟩ | ⟨-, rfl⟩ | ⟨-, rfl⟩ |
    ⟨-, rfl⟩ | ⟨-, rfl⟩ | ⟨-, rfl⟩ | ⟨-, rfl⟩ | ⟨-, rfl⟩
  · exact Standard.print_raises
  · exact Standard.input_raises
  · exact Standard.typeName_raises
  · exact Standard.totalArguments_raises
  · exact Standard.argument_raises
  · exact Standard.textToNumber_raises
  · exact Standard.sqrt_raises
  · exact Standard.cos_raises
  · exact Standard.sin_raises
  · exact Standard.totalMembers_raises
  · exact Standard.memberKeys_raises
  · exact Standard.copy_raises

end Library
end CellMachine
