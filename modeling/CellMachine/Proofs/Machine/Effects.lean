import Mathlib
import CellMachine.Proofs.Heap.Confinement
import CellMachine.Proofs.Machine.Sharing

/-!
# Effects of writes

What a write to a place does to all places, and what it does to the heap besides: no table changes,
and tables are destroyed only on account of the cell that is written over.  A state whose counts are
right keeps what its cells hold.

`State.Discards` says of many writes that they give up what some places hold, and composes: when a
call saves its environment and when a return clears the stack, cells without tables are written to
places that are known.
-/

namespace CellMachine
namespace State

variable {state : State} {place : Place} {cell : Cell} {touched : Set TableId}

/-! ## The same cells and tables -/

structure SameStore (after before : State) : Prop where
  stack : after.stack = before.stack
  result : after.result = before.result
  heap : after.heap = before.heap

theorem SameStore.refl (state : State) : state.SameStore state :=
  ⟨rfl, rfl, rfl⟩

theorem SameStore.read {after before : State} (h : after.SameStore before) (place : Place) :
    after.read place = before.read place := by
  cases place with
  | result => exact h.result
  | slot address => exact congrArg (fun stack : Stack => stack.read address) h.stack

/-- What a state offers depends on its cells and tables only. -/
theorem Offers.congr {before after : State} (h : before.Offers cell)
    (hsame : after.SameStore before) : after.Offers cell := by
  cases h with
  | plain hcell => exact .plain hcell
  | place place => exact hsame.read place ▸ .place place
  | entry id key hentry => exact .entry id key (hsame.heap ▸ hentry)

/-- Whether counts are right depends on the cells and tables only. -/
theorem Counted.congr {before after : State} {handles : List TableId} (h : before.Counted handles)
    (hsame : after.SameStore before) : after.Counted handles := by
  rw [Counted, hsame.heap]
  refine Heap.Counted.congr h fun id => ?_
  rw [roots, roots, hsame.stack, hsame.result]

/-! ## Places -/

/-- Overwriting a place replaces the cell there and no other one. -/
theorem read_overwrite (hplace : state.HasPlace place) (cell : Cell) (other : Place) :
    (state.overwrite place cell).read other = if other = place then cell else state.read other := by
  cases place with
  | result =>
      cases other with
      | result => rfl
      | slot address => rfl
  | slot address =>
      have hlt := hplace address rfl
      cases other with
      | result => exact state.result_overwrite_slot address cell
      | slot other =>
          change (state.overwrite (.slot address) cell).stack.read other = _
          rw [stack_overwrite_slot, Stack.read_set]
          simp only [Place.slot.injEq, hlt, and_true]
          rfl

theorem read_checkDefined (state : State) (cell : Cell) (place : Place) :
    (state.checkDefined cell).read place = state.read place := by
  cases place with
  | result => exact state.result_checkDefined cell
  | slot address => exact congrArg (fun stack => stack.read address) (state.stack_checkDefined cell)

theorem hasPlace_checkDefined (h : state.HasPlace place) (cell : Cell) :
    (state.checkDefined cell).HasPlace place := by
  rw [HasPlace, stack_checkDefined]
  exact h

theorem console_overwrite (state : State) (place : Place) (cell : Cell) :
    (state.overwrite place cell).console = state.console := by
  cases place with
  | result => rfl
  | slot address =>
      rw [overwrite]
      split <;> rfl

/-- Overwriting reports nothing. -/
theorem log_overwrite (state : State) (place : Place) (cell : Cell) :
    (state.overwrite place cell).log = state.log := by
  cases place with
  | result => rfl
  | slot address =>
      rw [overwrite]
      split <;> rfl

/-- An undefined cell is reported, and nothing else is. -/
theorem log_checkDefined (state : State) (cell : Cell) :
    (state.checkDefined cell).log =
      if cell = .undefined then state.log.add .undefinedAssigned else state.log := by
  rw [checkDefined]
  split <;> rfl

theorem console_checkDefined (state : State) (cell : Cell) :
    (state.checkDefined cell).console = state.console := by
  rw [checkDefined]
  split <;> rfl

/-! ## The heap -/

/-- Overwriting lets go of what the place held. -/
theorem confined_overwrite (state : State) (place : Place) (cell : Cell) :
    state.heap.Confined (state.overwrite place cell).heap touched
      {id | state.read place = .table id} := by
  have hwritten (old : Cell) : state.heap.Confined ((state.heap.retain cell).release old) touched
      {id | old = .table id} :=
    (Heap.confined_release _ old).of_retain
  cases place with
  | result => exact hwritten state.result
  | slot address =>
      rw [overwrite]
      split
      · exact hwritten (state.stack.read address)
      · exact .refl state.heap

/-- What a cell of a state holds is alive. -/
theorem Counted.isAlive_of_read {handles : List TableId} (h : state.Counted handles)
    {id : TableId} (hread : state.read place = .table id) : state.heap.isAlive id = true :=
  h.isAlive_of_reaches ⟨id, roots_pos_of_read hread, .refl⟩

/-! ## Cells that are given up -/

/-- Whether cells without tables were written to some places and nothing else has changed, but for
what these places had held. -/
structure Discards (before after : State) (places : Set Place) : Prop where
  others : ∀ place, place ∉ places → after.read place = before.read place
  plain : ∀ place, after.read place = before.read place ∨ (after.read place).table? = none
  heap : before.heap.Confined after.heap ∅ {id | ∃ place ∈ places, before.read place = .table id}
  console : after.console = before.console
  log : after.log = before.log

variable {before between after : State} {places places' : Set Place}

theorem Discards.refl (state : State) : state.Discards state places :=
  ⟨fun _ _ => rfl, fun _ => .inl rfl, .refl _, rfl, rfl⟩

theorem Discards.mono (h : before.Discards after places) (hsub : places ⊆ places') :
    before.Discards after places' := by
  refine ⟨fun place hplace => h.others place fun hmem => hplace (hsub hmem), h.plain, ?_,
    h.console, h.log⟩
  refine h.heap.mono (Set.Subset.refl _) ?_
  rintro id ⟨place, hplace, hread⟩
  exact ⟨place, hsub hplace, hread⟩

/-- What is given up one after the other is given up together. -/
theorem Discards.trans (h : before.Discards between places) (h' : between.Discards after places') :
    before.Discards after (places ∪ places') := by
  refine ⟨fun place hplace => ?_, fun place => ?_, ?_, h'.console.trans h.console,
    h'.log.trans h.log⟩
  · rw [h'.others place fun hmem => hplace (.inr hmem),
      h.others place fun hmem => hplace (.inl hmem)]
  · rcases h'.plain place with hread | hplain
    · rw [hread]
      exact h.plain place
    · exact .inr hplain
  · have hboth := h.heap.trans h'.heap nofun
    rw [Set.union_empty] at hboth
    refine hboth.mono (Set.Subset.refl _) ?_
    rintro id (⟨place, hplace, hread⟩ | ⟨place, hplace, hread⟩)
    · exact ⟨place, .inl hplace, hread⟩
    · -- A table that is still there was there from the start.
      rcases h.plain place with hsame | hplain
      · exact ⟨place, .inr hplace, hsame ▸ hread⟩
      · rw [hread] at hplain
        cases hplain

/-- Moved pointers change no cell. -/
theorem Discards.moved {moved : State} (h : before.Discards after places)
    (hmoved : moved = { after with stack := moved.stack, pending := moved.pending })
    (hcells : moved.stack.cells = after.stack.cells) : before.Discards moved places := by
  rw [hmoved]
  generalize moved.stack = stack at hcells
  have hread (place : Place) :
      State.read { after with stack := stack, pending := moved.pending } place =
        after.read place := by
    cases place with
    | result => rfl
    | slot address =>
        exact congrArg (fun cells : Array Cell => cells.getD address .undefined) hcells
  refine ⟨fun place hplace => ?_, fun place => ?_, h.heap, h.console, h.log⟩
  · rw [hread, h.others place hplace]
  · rw [hread]
    exact h.plain place

/-- A cell without a table gives up what its place held. -/
theorem discards_overwrite (state : State) (place : Place) {cell : Cell}
    (hcell : cell.table? = none) : state.Discards (state.overwrite place cell) {place} := by
  by_cases hplace : state.HasPlace place
  · refine ⟨fun other hne => ?_, fun other => ?_, ?_, state.console_overwrite place cell,
      state.log_overwrite place cell⟩
    · exact (read_overwrite hplace cell other).trans (if_neg hne)
    · rw [read_overwrite hplace]
      split
      · exact .inr hcell
      · exact .inl rfl
    · refine (state.confined_overwrite place cell).mono (Set.Subset.refl _) fun id hread => ?_
      exact ⟨place, rfl, hread⟩
  · rw [overwrite_of_not_hasPlace hplace]
    exact .refl state

/-- Clearing gives up what the cells in the range held. -/
theorem discards_clear (state : State) (first last : Nat) :
    state.Discards (state.clear first last)
      {place | ∃ address, place = .slot address ∧ first ≤ address ∧ address ≤ last} := by
  refine state.clear_induction (fun after => state.Discards after _) (.refl state) ?_
  intro after address hfirst hlast h
  refine (h.trans (@discards_overwrite after (.slot address) .undefined rfl)).mono ?_
  refine Set.union_subset (Set.Subset.refl _) ?_
  rintro _ rfl
  exact ⟨address, rfl, hfirst, hlast⟩

end State
end CellMachine
