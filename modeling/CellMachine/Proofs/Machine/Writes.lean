import Mathlib
import CellMachine.Machine.State

/-!
# Writes

What the operations on states write, and what they leave alone.  Cells are read through
`Stack.read`; all that is neither a cell, nor a table, nor a stream is gathered in `Registers`, and
no write to a place touches those.
-/

namespace CellMachine

/-! ## Cells of the stack -/

namespace Stack

theorem size_set (stack : Stack) (address : Nat) (cell : Cell) :
    (stack.set address cell).size = stack.size :=
  Array.size_setIfInBounds

/-- There are no cells beyond the end of the stack. -/
theorem read_of_ge {stack : Stack} {address : Nat} (h : stack.size ≤ address) :
    stack.read address = .undefined := by
  rw [Stack.size] at h
  rw [read, Array.getD_eq_getD_getElem?, Array.getElem?_eq_none h, Option.getD_none]

/-- Replacing a cell changes what is read at its address only. -/
theorem read_set (stack : Stack) (address : Nat) (cell : Cell) (other : Nat) :
    (stack.set address cell).read other =
      if other = address ∧ address < stack.size then cell else stack.read other := by
  simp only [read, set, size, Array.getD_eq_getD_getElem?, Array.getElem?_setIfInBounds]
  split
  · rename_i h
    subst h
    split
    · rename_i hlt
      simp [hlt]
    · rename_i hlt
      simp [hlt]
  · rename_i h
    simp [Ne.symm h]

end Stack

/-! ## Registers -/

/-- What a state holds besides cells, tables and streams. -/
structure Registers where
  size : Nat
  globals : Nat
  top : Nat
  frame : Nat
  pc : Nat
  pending : Nat
  finished : Bool

namespace State

variable (state : State)

def registers : Registers :=
  ⟨state.stack.size, state.stack.globals, state.stack.top, state.stack.frame, state.pc,
    state.pending, state.finished⟩

theorem registers_checkDefined (cell : Cell) :
    (state.checkDefined cell).registers = state.registers := by
  rw [checkDefined]
  split <;> rfl

theorem stack_checkDefined (cell : Cell) : (state.checkDefined cell).stack = state.stack := by
  rw [checkDefined]
  split <;> rfl

theorem heap_checkDefined (cell : Cell) : (state.checkDefined cell).heap = state.heap := by
  rw [checkDefined]
  split <;> rfl

theorem result_checkDefined (cell : Cell) : (state.checkDefined cell).result = state.result := by
  rw [checkDefined]
  split <;> rfl

/-! ## Writes to places -/

theorem stack_overwrite_result (cell : Cell) :
    (state.overwrite .result cell).stack = state.stack :=
  rfl

/-- Overwriting a slot sets its cell. -/
theorem stack_overwrite_slot (address : Nat) (cell : Cell) :
    (state.overwrite (.slot address) cell).stack = state.stack.set address cell := by
  rw [overwrite]
  split
  · rfl
  · -- A write outside of the stack is none, neither to the state nor to the cells.
    rename_i h
    rw [Stack.size] at h
    rw [Stack.set, Array.setIfInBounds, dif_neg h]

theorem result_overwrite_slot (address : Nat) (cell : Cell) :
    (state.overwrite (.slot address) cell).result = state.result := by
  rw [overwrite]
  split <;> rfl

/-- No write touches a register. -/
theorem registers_overwrite (place : Place) (cell : Cell) :
    (state.overwrite place cell).registers = state.registers := by
  cases place with
  | result => rfl
  | slot address =>
      rw [overwrite]
      split
      · rw [registers, registers]
        congr 1
        exact Stack.size_set state.stack address cell
      · rfl

theorem registers_assign (place : Place) (cell : Cell) :
    (state.assign place cell).registers = state.registers := by
  rw [assign, registers_overwrite, registers_checkDefined]

/-- What is written at one place is not read at another one. -/
theorem read_overwrite_of_ne {place : Place} {address : Nat} (cell : Cell)
    (h : place ≠ .slot address) :
    (state.overwrite place cell).stack.read address = state.stack.read address := by
  cases place with
  | result => rfl
  | slot other =>
      rw [stack_overwrite_slot, Stack.read_set, if_neg]
      rintro ⟨rfl, -⟩
      exact h rfl

theorem read_assign_of_ne {place : Place} {address : Nat} (cell : Cell)
    (h : place ≠ .slot address) :
    (state.assign place cell).stack.read address = state.stack.read address := by
  rw [assign, read_overwrite_of_ne _ _ h, stack_checkDefined]

/-- What was written is read back. -/
theorem read_overwrite_self {address : Nat} (cell : Cell) (h : address < state.stack.size) :
    (state.overwrite (.slot address) cell).stack.read address = cell := by
  rw [stack_overwrite_slot, Stack.read_set, if_pos ⟨rfl, h⟩]

/-! ## Clearing -/

/-- What holds before the cells are cleared and is kept by each of the writes holds afterwards. -/
theorem clear_induction (property : State → Prop) {first last : Nat} (hstart : property state)
    (hstep : ∀ state address, first ≤ address → address ≤ last → property state →
      property (state.overwrite (.slot address) .undefined)) :
    property (state.clear first last) := by
  rw [clear]
  have hrange : ∀ address ∈ List.range' first (min (last + 1) state.stack.size - first),
      first ≤ address ∧ address ≤ last := by
    intro address h
    rw [List.mem_range'_1] at h
    omega
  -- By induction on the addresses, over all states, since each write is made to the last one.
  generalize List.range' first (min (last + 1) state.stack.size - first) = addresses at hrange
  induction addresses generalizing state with
  | nil => exact hstart
  | cons address addresses ih =>
      rw [List.foldl_cons]
      have haddress := hrange address (List.mem_cons_self ..)
      exact ih _ (hstep state address haddress.1 haddress.2 hstart)
        fun other h => hrange other (List.mem_cons_of_mem _ h)

/-- Clearing touches no register. -/
theorem registers_clear (first last : Nat) :
    (state.clear first last).registers = state.registers :=
  state.clear_induction (fun after => after.registers = state.registers) rfl
    fun _ _ _ _ h => (registers_overwrite _ _ _).trans h

theorem result_clear (first last : Nat) : (state.clear first last).result = state.result := by
  refine state.clear_induction (fun after => after.result = state.result) rfl ?_
  intro after address _ _ h
  rw [result_overwrite_slot, h]

/-- Clearing leaves the cells outside of its range alone. -/
theorem read_clear_of_lt {first last address : Nat} (h : address < first ∨ last < address) :
    (state.clear first last).stack.read address = state.stack.read address := by
  refine state.clear_induction
    (fun after => after.stack.read address = state.stack.read address) rfl ?_
  intro after other hfirst hlast hread
  rw [read_overwrite_of_ne, hread]
  intro heq
  cases heq
  omega

/-- A cleared cell is undefined. -/
theorem read_clear {first last address : Nat} (hfirst : first ≤ address) (hlast : address ≤ last) :
    (state.clear first last).stack.read address = .undefined := by
  rw [clear]
  have hmem : address ∈ List.range' first (min (last + 1) state.stack.size - first) ∨
      state.stack.read address = .undefined := by
    rcases Nat.lt_or_ge address state.stack.size with hlt | hge
    · refine .inl (List.mem_range'_1.2 ?_)
      omega
    · exact .inr (Stack.read_of_ge hge)
  generalize List.range' first (min (last + 1) state.stack.size - first) = addresses at hmem
  -- Each write clears its address or leaves alone what an earlier one has cleared.
  induction addresses generalizing state with
  | nil => exact hmem.resolve_left nofun
  | cons other addresses ih =>
      rw [List.foldl_cons]
      refine ih _ ?_
      by_cases heq : other = address
      · right
        rw [stack_overwrite_slot, Stack.read_set]
        split
        · rfl
        · rename_i hout
          exact Stack.read_of_ge (Nat.le_of_not_lt fun hlt => hout ⟨heq.symm, heq ▸ hlt⟩)
      · refine hmem.imp (fun h => ?_) fun h => ?_
        · exact (List.mem_cons.1 h).resolve_left (Ne.symm heq)
        · rw [read_overwrite_of_ne _ _ fun h => heq (Place.slot.inj h), h]

/-! ## Tables -/

theorem stack_insertEntry (id : TableId) (key : Key) (cell : Cell) :
    (state.insertEntry id key cell).stack = state.stack :=
  state.stack_checkDefined cell

theorem registers_insertEntry (id : TableId) (key : Key) (cell : Cell) :
    (state.insertEntry id key cell).registers = state.registers :=
  state.registers_checkDefined cell

/-- Storing an entry is an insertion into the heap. -/
theorem heap_insertEntry (id : TableId) (key : Key) (cell : Cell) :
    (state.insertEntry id key cell).heap = state.heap.insert id key cell :=
  congrArg (fun heap : Heap => heap.insert id key cell) (state.heap_checkDefined cell)

theorem stack_insertEntries (id : TableId) (entries : List Entry) :
    (state.insertEntries id entries).stack = state.stack := by
  induction entries generalizing state with
  | nil => rfl
  | cons entry entries ih =>
      exact (ih (state.insertEntry id entry.1 entry.2)).trans (state.stack_insertEntry _ _ _)

theorem heap_insertEntries (id : TableId) (entries : List Entry) :
    (state.insertEntries id entries).heap = state.heap.insertAll id entries := by
  induction entries generalizing state with
  | nil => rfl
  | cons entry entries ih =>
      have hentry := state.heap_insertEntry id entry.1 entry.2
      exact (ih (state.insertEntry id entry.1 entry.2)).trans
        (congrArg (fun heap : Heap => heap.insertAll id entries) hentry)

theorem result_insertEntries (id : TableId) (entries : List Entry) :
    (state.insertEntries id entries).result = state.result := by
  induction entries generalizing state with
  | nil => rfl
  | cons entry entries ih =>
      exact (ih (state.insertEntry id entry.1 entry.2)).trans (state.result_checkDefined entry.2)

theorem registers_insertEntries (id : TableId) (entries : List Entry) :
    (state.insertEntries id entries).registers = state.registers := by
  induction entries generalizing state with
  | nil => rfl
  | cons entry entries ih =>
      exact (ih (state.insertEntry id entry.1 entry.2)).trans (state.registers_insertEntry _ _ _)

/-- Creating a table leaves the stack alone: it is held by nothing yet. -/
theorem stack_createTable (entries : List Entry) :
    (state.createTable entries).2.stack = state.stack :=
  stack_insertEntries _ _ _

/-- A new table is filled after it was created. -/
theorem heap_createTable (entries : List Entry) :
    (state.createTable entries).2.heap =
      state.heap.create.2.insertAll state.heap.create.1 entries :=
  heap_insertEntries _ _ _

theorem registers_createTable (entries : List Entry) :
    (state.createTable entries).2.registers = state.registers :=
  registers_insertEntries _ _ _

end State
end CellMachine
