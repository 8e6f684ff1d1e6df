import Mathlib
import CellMachine.Library.Standard
import CellMachine.Proofs.Machine.Contract
import CellMachine.Proofs.Machine.Decode

/-!
# What the standard functions keep

A standard function asks and then answers.  While it asks it reads, reports events and uses the
console; with its answer it sets the return register, to a new table perhaps, and ends.  So there
are two properties of states, one before the answer and one after it, and `State.Serves` lists what
has to be shown of them.  `Library.standard_answers` concludes that every standard function leads
from the one to the other, unless it raises a fault, and then it has not answered yet.

With one property for both, this says what survives every standard function, whether it answers or
raises a fault: `Library.standard_keeps`.  The safety of the stack, the shape of the frames and the
counts of the heap are three uses of the same contract.
-/

namespace CellMachine

/-! ## Stable properties -/

/-- Entries that a standard function puts into a new table: cells without tables, or the entries of
a table that the stack holds. -/
def State.OffersEntries (state : State) (entries : List Entry) : Prop :=
  (∀ entry ∈ entries, entry.2.table? = none) ∨
    ∃ address id, state.stack.read address = .table id ∧ entries = state.heap.entries id

structure State.Stable (property : State → Prop) : Prop where
  report : ∀ state event, property state → property (state.report event)
  console : ∀ state console, property state → property { state with console := console }
  answer : ∀ state cell, state.Offers cell → property state →
    property (state.overwrite .result cell)
  table : ∀ state entries, state.OffersEntries entries → property state →
    property ((state.createTable entries).2.overwrite .result
      (.table (state.createTable entries).1))

structure State.Serves (asking answered : State → Prop) : Prop where
  report : ∀ state event, asking state → asking (state.report event)
  write : ∀ state console s, state.console.write s = .ok console → asking state →
    asking { state with console := console }
  takeLine : ∀ state, asking state → asking { state with console := state.console.takeLine.2 }
  nothing : ∀ state, asking state → answered state
  answer : ∀ state cell, state.Offers cell → asking state →
    answered (state.overwrite .result cell)
  table : ∀ state entries, state.OffersEntries entries → asking state →
    answered ((state.createTable entries).2.overwrite .result
      (.table (state.createTable entries).1))

/-- A property that survives serves as its own answer. -/
theorem State.Stable.serves {property : State → Prop} (h : Stable property) :
    Serves property property where
  report := h.report
  write state console _ _ := h.console state console
  takeLine state := h.console state _
  nothing _ hs := hs
  answer := h.answer
  table := h.table

/-- A computation that asks and then answers.  Before the answer it may raise a fault. -/
def Exec.Answers (asking answered : State → Prop) (m : Exec Unit) : Prop :=
  Exec.Meets asking m (fun _ => answered) fun fault state => fault.IsLocal ∧ asking state

/-- What is asked first keeps the property that the answer starts from. -/
theorem Exec.Keeps.bind_answers {α : Type} {asking answered : State → Prop} {m : Exec α}
    {f : α → Exec Unit} (hm : Keeps asking m) (hf : ∀ x, Answers asking answered (f x)) :
    Answers asking answered (m >>= f) :=
  Meets.bind hm hf

theorem Exec.Answers.throw {asking answered : State → Prop} {fault : Fault} (h : fault.IsLocal) :
    Answers asking answered (throw fault) :=
  Meets.throw fun _ hs => ⟨h, hs⟩

/-! ## Reading arguments -/

namespace Stack

/-- A cell that can be looked up is the one at the address. -/
theorem cell_yields (stack : Stack) (address : Nat) :
    Yields (stack.cell address) fun cell => cell = stack.read address := by
  rw [cell]
  split
  · rfl
  · exact Yields.throw fun _ => nofun

theorem word_yields (stack : Stack) (base offset : Nat) :
    Yields (stack.word base offset) fun _ => True := by
  refine (stack.cell_yields _).bind fun cell _ => ?_
  split
  · trivial
  · exact Yields.throw fun _ => nofun

/-- An argument that is there is read from the stack. -/
theorem actualAt_yields (stack : Stack) (base index : Nat) :
    Yields (stack.actualAt base index) fun cell? =>
      ∀ cell, cell? = some cell → ∃ address, cell = stack.read address := by
  refine (stack.word_yields base _).bind fun count _ => ?_
  split
  · refine (stack.cell_yields _).bind fun cell hcell => ?_
    rintro cell' ⟨⟩
    exact ⟨_, hcell⟩
  · rintro cell ⟨⟩

theorem callerFrame_yields (stack : Stack) : Yields stack.callerFrame fun _ => True :=
  (stack.word_yields _ _).bind fun _ _ => trivial

end Stack

namespace Library
namespace Standard

open Exec

variable {property : State → Prop}

/-- A required argument is read from the stack. -/
theorem argumentOf_meets (function : String) (index : Nat) :
    Meets property (argumentOf function index)
      (fun cell state => property state ∧ ∃ address, cell = state.stack.read address)
      fun fault state => fault.IsLocal ∧ property state := by
  refine Meets.bind (Meets.asks fun state => state.stack.actualAt_yields state.stack.frame index)
    fun cell? => ?_
  split
  · rename_i cell
    exact Meets.pure fun _ hs => ⟨hs.1, hs.2 cell rfl⟩
  · exact Meets.throw fun _ hs => ⟨fun _ => nofun, hs.1⟩

theorem argumentOf_keeps (function : String) (index : Nat) :
    Keeps property (argumentOf function index) :=
  (argumentOf_meets function index).mono (fun _ _ h => h.1) fun _ _ h => h

theorem numberOf_keeps (function : String) : Keeps property (numberOf function) := by
  refine (argumentOf_keeps function 0).bind fun cell => ?_
  split
  · exact Keeps.pure _
  · exact Keeps.throw fun _ => nofun

/-- A required table is held by the stack. -/
theorem tableOf_meets (function : String) :
    Meets property (tableOf function)
      (fun id state => property state ∧ ∃ address, state.stack.read address = .table id)
      fun fault state => fault.IsLocal ∧ property state := by
  refine Meets.bind (argumentOf_meets function 0) fun cell => ?_
  split
  · rename_i id hid
    refine Meets.pure fun state hs => ⟨hs.1, ?_⟩
    rcases hs.2 with ⟨address, hread⟩
    refine ⟨address, ?_⟩
    rw [← hread]
    cases cell with
    | table id' =>
        cases hid
        rfl
    | _ => cases hid
  · exact Meets.throw fun _ hs => ⟨fun _ => nofun, hs.1⟩

theorem callerFrame_keeps : Keeps property Exec.callerFrame :=
  Meets.decide (fun _ _ hs _ => hs) fun state _ hs hfault =>
    ⟨state.stack.callerFrame_yields.error hfault, hs⟩

theorem flush_keeps : Keeps property Exec.flush := by
  refine Meets.decide (fun _ _ hs _ => hs) fun state fault hs hfault => ⟨?_, hs⟩
  rw [Console.flush] at hfault
  split at hfault
  · cases hfault
  · cases hfault
    exact fun _ => nofun

/-! ## Answers without tables -/

/-- A line is read as a number or a text, never as a table. -/
theorem lineCell_plain (line : List Char) : (lineCell line).table? = none := by
  rw [lineCell]
  split <;> rfl

/-- A list of keys holds no tables. -/
theorem listed_plain (entries : List Entry) :
    ∀ entry ∈ listed (entries.map fun entry => entry.1.toCell), entry.2.table? = none := by
  intro entry hentry
  rw [listed, List.mem_map] at hentry
  rcases hentry with ⟨⟨cell, index⟩, hcell, rfl⟩
  have hmem := List.fst_mem_of_mem_zipIdx hcell
  rw [List.mem_map] at hmem
  rcases hmem with ⟨⟨key, value⟩, _, rfl⟩
  cases key <;> rfl

/-! ## Console, reflection and numbers -/

section

variable {asking answered : State → Prop} (hserves : State.Serves asking answered)
include hserves

/-- A function may end without an answer. -/
theorem answers_of_keeps {m : Exec Unit} (h : Keeps asking m) : Answers asking answered m :=
  h.mono (fun _ => hserves.nothing) fun _ _ h => h

/-- An answer without a table needs nothing to be held. -/
theorem setResult_answers {cell : Cell} (h : cell.table? = none) :
    Answers asking answered (setResult cell) :=
  Meets.modify fun state hs => hserves.answer state cell (.plain h) hs

theorem write_keeps (s : String) : Keeps asking (Exec.write s) := by
  have hwrite (state : State) : Yields (state.console.write s) fun _ => True := by
    rw [Console.write]
    split
    · trivial
    · exact Yields.throw fun _ => nofun
  refine Meets.get_bind fun state hs => ?_
  have hconsole : Meets (fun after => after = state) (Exec.ofExcept (state.console.write s))
      (fun console after => state.console.write s = .ok console ∧ after = state)
      fun fault after => fault.IsLocal ∧ asking after := by
    cases hwritten : state.console.write s with
    | ok console => exact Meets.pure fun _ h => ⟨rfl, h⟩
    | error fault => exact Meets.throw fun _ h => ⟨(hwrite state).error hwritten, h ▸ hs⟩
  exact hconsole.bind fun console _ hwritten => hserves.write state console s hwritten.1 hs

theorem takeLine_keeps : Keeps asking Exec.takeLine :=
  hserves.takeLine

theorem print_answers : Answers asking answered print := by
  refine answers_of_keeps hserves (Keeps.bind (Meets.decide (fun _ _ hs _ => hs)
    fun state fault hs hfault => ⟨(state.stack.word_yields _ _).error hfault, hs⟩) fun count => ?_)
  refine Keeps.bind (Meets.mapM fun index _ => ?_) fun texts => write_keeps hserves _
  exact (argumentOf_keeps "print" index).bind fun cell => Keeps.get.bind fun state => Keeps.pure _

theorem input_answers : Answers asking answered input := by
  refine flush_keeps.bind_answers fun _ => (takeLine_keeps hserves).bind_answers fun bytes => ?_
  split
  · split
    · exact setResult_answers hserves (lineCell_plain _)
    · exact Answers.throw fun _ => nofun
  · exact answers_of_keeps hserves (Keeps.pure _)

theorem report_answers (event : Event) : Answers asking answered (Exec.report event) :=
  answers_of_keeps hserves (Meets.modify fun state hs => hserves.report state event hs)

theorem typeName_answers : Answers asking answered typeName :=
  (argumentOf_keeps "typeof" 0).bind_answers fun _ => setResult_answers hserves rfl

theorem totalArguments_answers : Answers asking answered totalArguments := by
  refine callerFrame_keeps.bind_answers fun frame? => ?_
  split
  · rename_i frame
    refine Keeps.bind_answers (Meets.decide (fun _ _ hs _ => hs) fun state fault hs hfault =>
      ⟨(state.stack.word_yields _ _).error hfault, hs⟩) fun count => ?_
    exact setResult_answers hserves rfl
  · exact report_answers hserves _

theorem argument_answers : Answers asking answered argument := by
  refine (numberOf_keeps "argument").bind_answers fun x => ?_
  split
  · exact Answers.throw fun _ => nofun
  · rename_i index _
    refine callerFrame_keeps.bind_answers fun frame? => ?_
    split
    · rename_i frame
      refine Meets.bind (Meets.asks fun state =>
        state.stack.actualAt_yields frame (min index Number.maxWord)) fun cell? => ?_
      refine Meets.modify fun state hs => ?_
      cases cell? with
      | none => exact hserves.answer state .nil (.plain rfl) hs.1
      | some cell =>
          rcases hs.2 cell rfl with ⟨address, rfl⟩
          exact hserves.answer state _ (.place (.slot address)) hs.1
    · exact report_answers hserves _

theorem textToNumber_answers : Answers asking answered textToNumber := by
  refine (argumentOf_keeps "strtonum" 0).bind_answers fun cell => ?_
  split
  · split
    · exact setResult_answers hserves rfl
    · exact setResult_answers hserves rfl
  · exact Answers.throw fun _ => nofun

theorem sqrt_answers : Answers asking answered sqrt := by
  refine (numberOf_keeps "sqrt").bind_answers fun x => ?_
  split
  · exact setResult_answers hserves rfl
  · exact answers_of_keeps hserves (Keeps.pure _)

theorem cos_answers : Answers asking answered cos :=
  (numberOf_keeps "cos").bind_answers fun _ => setResult_answers hserves rfl

theorem sin_answers : Answers asking answered sin :=
  (numberOf_keeps "sin").bind_answers fun _ => setResult_answers hserves rfl

/-! ## Tables -/

theorem totalMembers_answers : Answers asking answered totalMembers := by
  refine Meets.bind (tableOf_meets "objecttotalmembers") fun id => ?_
  refine Meets.bind (Meets.get fun state hs => hs.1) fun state => ?_
  exact setResult_answers hserves rfl

/-- The keys of a table hold no tables. -/
theorem memberKeys_answers : Answers asking answered memberKeys := by
  refine Meets.bind (tableOf_meets "objectmemberkeys") fun id => ?_
  refine Meets.bind (Meets.get fun state hs => hs.1) fun state => ?_
  exact Meets.modify fun state hs => hserves.table state _ (.inl (listed_plain _)) hs

/-- The entries of the copied table are offered by the table, which the stack holds. -/
theorem copy_answers : Answers asking answered copy := by
  refine Meets.bind (tableOf_meets "objectcopy") fun id => ?_
  -- The entries are read in the state in which the copy is made.
  refine Meets.get_bind fun read hread => Meets.modify fun state hs => ?_
  subst hs
  rcases hread with ⟨hstate, address, haddress⟩
  exact hserves.table state _ (.inr ⟨address, id, haddress, rfl⟩) hstate

end

theorem setResult_keeps (hstable : State.Stable property) {cell : Cell} (h : cell.table? = none) :
    Keeps property (setResult cell) :=
  setResult_answers hstable.serves h

end Standard

/-- A standard function asks and then answers. -/
theorem standard_answers {asking answered : State → Prop} (hserves : State.Serves asking answered)
    {name : String} {function : Exec Unit} (h : standard.find? name = some function) :
    Exec.Answers asking answered function := by
  have hmem : (name, function) ∈ standard.functions := by
    rcases List.lookup_eq_some_iff.1 h with ⟨l₁, l₂, hlist, -⟩
    rw [hlist]
    simp
  -- The library is a fixed list, so there is one case for each of its functions.
  simp only [standard, List.mem_cons, List.not_mem_nil, or_false, Prod.mk.injEq] at hmem
  rcases hmem with ⟨-, rfl⟩ | ⟨-, rfl⟩ | ⟨-, rfl⟩ | ⟨-, rfl⟩ | ⟨-, rfl⟩ | ⟨-, rfl⟩ | ⟨-, rfl⟩ |
    ⟨-, rfl⟩ | ⟨-, rfl⟩ | ⟨-, rfl⟩ | ⟨-, rfl⟩ | ⟨-, rfl⟩
  · exact Standard.print_answers hserves
  · exact Standard.input_answers hserves
  · exact Standard.typeName_answers hserves
  · exact Standard.totalArguments_answers hserves
  · exact Standard.argument_answers hserves
  · exact Standard.textToNumber_answers hserves
  · exact Standard.sqrt_answers hserves
  · exact Standard.cos_answers hserves
  · exact Standard.sin_answers hserves
  · exact Standard.totalMembers_answers hserves
  · exact Standard.memberKeys_answers hserves
  · exact Standard.copy_answers hserves

/-- A standard function keeps every stable property. -/
theorem standard_keeps {property : State → Prop} (hstable : State.Stable property) {name : String}
    {function : Exec Unit} (h : standard.find? name = some function) :
    Exec.Keeps property function :=
  standard_answers hstable.serves h

end Library
end CellMachine
