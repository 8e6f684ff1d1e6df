import Mathlib
import CellMachine.Proofs.Heap.Reachability
import CellMachine.Proofs.Heap.Survival
import CellMachine.Proofs.Machine.Preservation

/-!
# Sharing

Tables are shared between cells of the stack, the return register, entries of other tables and
handles that are held outside of the machine.  The count of a table is the number of all these, at
every boundary of instructions and whatever the program does: operands may alias the destination,
tables may hold each other, and an instruction may fail half way.

So a table is destroyed in the step in which this number comes to zero.  What can be reached is
never destroyed; what cannot be reached is destroyed but for cycles and what they lead to.
-/

namespace CellMachine

/-! ## Roots -/

/-- The cell that is written is counted among the cells of the stack, the old one no more. -/
theorem Stack.count_set {stack : Stack} {address : Nat} (h : address < stack.cells.size)
    (cell : Cell) (id : TableId) :
    (stack.set address cell).cells.count (.table id) + (stack.read address).holds id =
      stack.cells.count (.table id) + cell.holds id := by
  have hread : stack.read address = stack.cells[address] := by
    rw [Stack.read, Array.getD_eq_getD_getElem?, Array.getElem?_eq_getElem h, Option.getD_some]
  have hset : (stack.set address cell).cells = stack.cells.set address cell h := by
    rw [Stack.set, Array.setIfInBounds_def, dif_pos h]
  have hle : (if stack.cells[address] == Cell.table id then 1 else 0) ≤
      stack.cells.count (.table id) := Array.boole_getElem_le_count h
  rw [hset, Array.count_set h, hread, Cell.holds, Cell.holds]
  simp only [beq_iff_eq] at hle ⊢
  omega

namespace State

/-- How many holders a table has outside of the heap. -/
def roots (state : State) (handles : List TableId) (id : TableId) : Nat :=
  state.stack.cells.count (.table id) + state.result.holds id + handles.count id

/-- How many holders a table has: entries of living tables, cells of the stack, the return register
and handles. -/
def holding (state : State) (handles : List TableId) (id : TableId) : Nat :=
  state.heap.entriesHolding id + state.roots handles id

def Counted (handles : List TableId) (state : State) : Prop :=
  state.heap.Counted (state.roots handles) none

variable {state : State} {handles : List TableId} {id : TableId} {cell : Cell}

/-- A table at a place has a root. -/
theorem roots_pos_of_read {place : Place} (h : state.read place = .table id) :
    0 < state.roots handles id := by
  rw [roots]
  cases place with
  | result =>
      change state.result = .table id at h
      rw [h, Cell.holds_of_table, if_pos rfl]
      omega
  | slot address =>
      have hmem : Cell.table id ∈ state.stack.cells := by
        rw [State.read, Stack.read, Array.getD_eq_getD_getElem?] at h
        cases hcell : state.stack.cells[address]? with
        | none => rw [hcell] at h; cases h
        | some cell =>
            rw [hcell] at h
            exact h ▸ Array.mem_of_getElem? hcell
      have := Array.count_pos_iff.2 hmem
      omega

/-- What a state offers is held by an entry or a root. -/
theorem Counted.held (h : state.Counted handles) (hoffers : state.Offers cell)
    (hcell : cell = .table id) : 0 < state.heap.holders id := by
  cases hoffers with
  | plain hplain => rw [hcell] at hplain; cases hplain
  | place place => exact Heap.Counted.holders_pos_of_root h (roots_pos_of_read hcell)
  | entry parent key hget =>
      -- Entries are counted whether or not their table can be reached.
      rcases Option.bind_eq_some_iff.1 hget with ⟨table, htable, hstored⟩
      have hmem := Table.mem_children_of_get? (hcell ▸ hstored)
      exact Heap.Counted.holders_pos_of_entry h htable hmem

/-! ## Writes -/

/-- A place is written when its new cell is retained: the old one is released. -/
theorem counted_overwrite {place : Place} (hplace : state.HasPlace place)
    (h : (state.heap.retain cell).Counted
      (fun id => state.roots handles id + cell.holds id) none) :
    (state.overwrite place cell).Counted handles := by
  -- The new cell is a root of its own until it stands at the place; then the old one is one.
  cases place with
  | result =>
      refine Heap.Counted.release (h.congr fun id => ?_)
      change state.stack.cells.count (.table id) + cell.holds id + handles.count id +
        state.result.holds id = _
      rw [roots]
      omega
  | slot address =>
      have haddress := hplace address rfl
      rw [overwrite, if_pos haddress]
      refine Heap.Counted.release (h.congr fun id => ?_)
      have hset := Stack.count_set haddress cell id
      change (state.stack.set address cell).cells.count (.table id) + state.result.holds id +
        handles.count id + (state.stack.read address).holds id = _
      rw [roots]
      omega

/-- Nothing is written outside of the stack. -/
theorem overwrite_of_not_hasPlace {place : Place} (h : ¬state.HasPlace place) (cell : Cell) :
    state.overwrite place cell = state := by
  cases place with
  | result => exact absurd nofun h
  | slot address =>
      refine if_neg fun hlt => h fun other heq => ?_
      exact Place.slot.inj heq ▸ hlt

/-- Writing a cell that the state offers keeps the counts right. -/
theorem Counted.write (h : state.Counted handles) (place : Place) (hoffers : state.Offers cell) :
    (state.overwrite place cell).Counted handles := by
  by_cases hplace : state.HasPlace place
  · exact counted_overwrite hplace (Heap.Counted.retain h fun id hcell => h.held hoffers hcell)
  · rw [overwrite_of_not_hasPlace hplace]
    exact h

/-! ## Tables -/

/-- Entries that the stack offers can be stored in a new table. -/
theorem Counted.supplies (h : state.Counted handles) {entries : List Entry}
    (hoffers : state.OffersEntries entries) :
    state.heap.create.2.Supplies (state.roots handles) entries := by
  refine hoffers.imp_right ?_
  rintro ⟨address, source, hread, rfl⟩
  have hsource : state.read (.slot address) = .table source := hread
  have hroots : 0 < state.roots handles source := roots_pos_of_read hsource
  have hheld := Heap.Counted.holders_pos_of_root h hroots
  rcases Heap.exists_node?_of_holders hheld with ⟨node, hnode⟩
  have htable : state.heap.table? source = some node.table := by
    rw [Heap.table?, hnode]
    rfl
  refine ⟨source, node.table, hroots, ?_, ?_⟩
  · rw [Heap.table?, Heap.node?_create, if_neg (Nat.ne_of_lt (Heap.lt_size_of_node? hnode)), hnode]
    rfl
  · rw [Heap.entries, htable]
    exact fun _ hmem => hmem

/-- A new table is filled and then gets its first holder. -/
theorem Counted.table (h : state.Counted handles) {place : Place} (hplace : state.HasPlace place)
    {entries : List Entry} (hoffers : state.OffersEntries entries) :
    ((state.createTable entries).2.overwrite place
      (.table (state.createTable entries).1)).Counted handles := by
  -- Until it is written to its place, the new table is the fresh one and has no root.
  have hfilled := (Heap.Counted.create h).insertAll (h.supplies hoffers)
  have hstack := state.stack_createTable entries
  have hplace' : (state.createTable entries).2.HasPlace place := by
    rw [HasPlace, hstack]
    exact hplace
  have hresult : (state.createTable entries).2.result = state.result :=
    result_insertEntries _ _ _
  refine counted_overwrite hplace' ?_
  rw [state.heap_createTable]
  refine hfilled.hold_fresh.congr ?_
  intro id
  rw [roots, roots, hstack, hresult]
  rfl

/-- Storing an offered cell in an offered table keeps the counts right. -/
theorem Counted.insert (h : state.Counted handles) (key : Key)
    (hid : state.Offers (.table id)) (hcell : state.Offers cell) :
    (state.insertEntry id key cell).Counted handles := by
  have halive : state.heap.node? id ≠ none := by
    rcases Heap.exists_node?_of_holders (h.held hid rfl) with ⟨node, hnode⟩
    rw [hnode]
    exact nofun
  have hinsert := Heap.Counted.insert h halive key fun other heq => h.held hcell heq
  rw [Counted, state.heap_insertEntry]
  refine hinsert.congr ?_
  intro other
  rw [roots, state.stack_insertEntry]
  exact congrArg (fun result : Cell => _ + result.holds other + _) (state.result_checkDefined cell)

/-! ## Preservation -/

/-- Right counts survive every kind of change that an instruction makes. -/
theorem counted_preserved (handles : List TableId) : Preserved (Counted handles) where
  report _ _ h := h
  console _ _ h := h
  write _ place _ hcell h := h.write place hcell
  table _ _ _ hplace hentries h := h.table hplace hentries
  insert _ _ key _ hid hcell h := h.insert key hid hcell
  move state stack pending hmoved h := by
    refine Heap.Counted.congr h ?_
    intro id
    rw [roots, roots, ← hmoved.cells_eq]

theorem follows_overwrite (state : State) (place : Place) (cell : Cell) :
    (state.overwrite place cell).heap.Follows state.heap := by
  have hreleased (old : Cell) : ((state.heap.retain cell).release old).Follows state.heap :=
    (Heap.follows_release _ old).trans (state.heap.follows_retain cell)
  cases place with
  | result => exact hreleased state.result
  | slot address =>
      rw [overwrite]
      split
      · exact hreleased (state.stack.read address)
      · exact .refl state.heap

/-- No instruction brings a destroyed table back. -/
theorem follows_preserved (heap : Heap) : Preserved fun state => state.heap.Follows heap where
  report _ _ h := h
  console _ _ h := h
  write state place cell _ h := (state.follows_overwrite place cell).trans h
  table state place entries _ _ h := by
    refine (follows_overwrite _ place _).trans (.trans ?_ h)
    rw [state.heap_createTable]
    exact (Heap.follows_insertAll _ _ entries).trans state.heap.follows_create
  insert state id key cell _ _ h := by
    rw [state.heap_insertEntry]
    exact (state.heap.follows_insert id key cell).trans h
  move _ _ _ _ h := h

end State

/-! ## Shared tables -/

namespace Machine

variable {machine : Machine} {stackSize : Nat} {state : State} {handles : List TableId}

/-- The states that a machine comes to while tables are shared with handles outside of it: it is
stepped and run in any order, also after faults, and handles of living tables are taken and
dropped. -/
inductive Shared (machine : Machine) (stackSize : Nat) : State → List TableId → Prop
  | start {console : Console} {log : Log} {state : State}
      (h : machine.start stackSize console log = .ok state) : machine.Shared stackSize state []
  | step {state : State} {handles : List TableId} (h : machine.Shared stackSize state handles) :
      machine.Shared stackSize (machine.step state).2 handles
  | run {state : State} {handles : List TableId} (limit : Nat)
      (h : machine.Shared stackSize state handles) :
      machine.Shared stackSize (machine.run limit state).state handles
  | clone {state : State} {handles : List TableId} {id : TableId}
      (h : machine.Shared stackSize state handles) (hid : state.heap.isAlive id = true) :
      machine.Shared stackSize { state with heap := state.heap.retain (.table id) } (id :: handles)
  | drop {state : State} {handles : List TableId} {id : TableId}
      (h : machine.Shared stackSize state handles) (hid : id ∈ handles) :
      machine.Shared stackSize { state with heap := state.heap.release (.table id) }
        (handles.erase id)

/-- At the start there is nothing to count. -/
theorem start_counted {console : Console} {log : Log}
    (h : machine.start stackSize console log = .ok state) : state.Counted [] := by
  simp only [start, Stack.create] at h
  split at h
  · cases h
  · cases h
    refine Heap.counted_empty.congr ?_
    intro id
    rw [State.roots, Array.count_replicate]
    rfl

/-- Every step keeps the counts right, a failing one too. -/
theorem step_counted (hlibrary : machine.library = .standard) (h : state.Counted handles) :
    (machine.step state).2.Counted handles :=
  step_keeps (State.counted_preserved handles) (fun _ _ _ hs => hs) hlibrary h

/-- No step brings a destroyed table back. -/
theorem step_follows (hlibrary : machine.library = .standard) (state : State) :
    (machine.step state).2.heap.Follows state.heap :=
  step_keeps (State.follows_preserved state.heap) (fun _ _ _ hs => hs) hlibrary (.refl state.heap)

/-- The counts are right in every state, for the handles that are held there. -/
theorem Shared.counted (hlibrary : machine.library = .standard)
    (h : machine.Shared stackSize state handles) : state.Counted handles := by
  induction h with
  | start h => exact start_counted h
  | step _ ih => exact step_counted hlibrary ih
  | run limit _ ih => exact run_induction _ (fun _ => step_counted hlibrary) limit ih
  | @clone state handles id _ hid ih =>
      -- A living table has a holder, from which its handle can be taken.
      have hheld : 0 < state.heap.holders id :=
        ih.balanced id ▸ (Heap.Counted.isAlive_iff_pos ih id).1 hid
      refine (Heap.Counted.hold ih hheld).congr ?_
      intro other
      exact (congrArg _ (Cell.count_cons id other handles)).trans (Nat.add_assoc ..).symm
  | @drop state handles id _ hid ih =>
      -- The dropped handle is the one root that is given back.
      have hpending : state.heap.Counted (fun other =>
          state.roots (handles.erase id) other + (Cell.table id).holds other) none := by
        refine Heap.Counted.congr ih ?_
        intro other
        rw [State.roots, State.roots, (List.perm_cons_erase hid).count_eq, Cell.count_cons,
          Nat.add_assoc]
      exact hpending.release

/-- What the counts of a state mean, between two instructions. -/
structure Accounted (machine : Machine) (state : State) (handles : List TableId) : Prop where
  /-- A living table counts its holders. -/
  count : ∀ id, state.heap.isAlive id = true → state.heap.holders id = state.holding handles id
  /-- No operand but a place is a table. -/
  constants : ∀ operand cell id,
    machine.program.source state operand = .ok (.constant cell) → cell ≠ .table id
  /-- A table is alive as long as it has holders. -/
  alive : ∀ id, state.heap.isAlive id = true ↔ 0 < state.holding handles id
  /-- A table is destroyed in the step in which it comes to have no holder. -/
  destroyed : ∀ id, state.heap.isAlive id = true →
    ((machine.step state).2.heap.isAlive id = false ↔
      (machine.step state).2.holding handles id = 0)
  /-- A destroyed table stays destroyed. -/
  gone : ∀ id, id < state.heap.nodes.size → state.heap.isAlive id = false →
    id < (machine.step state).2.heap.nodes.size ∧ (machine.step state).2.heap.isAlive id = false
  /-- What a cell of the stack, the return register or a handle leads to is alive. -/
  reachable : ∀ id, state.heap.Reaches (state.roots handles) id → state.heap.isAlive id = true
  /-- What nothing leads to is alive on cycles and behind them only. -/
  cyclic : ∀ id, state.heap.isAlive id = true → ¬state.heap.Reaches (state.roots handles) id →
    state.heap.Cyclic id

/-- Every state that a machine with the standard library comes to is accounted for. -/
theorem accounted (machine : Machine) (hlibrary : machine.library = .standard) {stackSize : Nat}
    {state : State} {handles : List TableId} (h : machine.Shared stackSize state handles) :
    machine.Accounted state handles := by
  have hcounted : state.heap.Counted (state.roots handles) none := h.counted hlibrary
  have hafter : (machine.step state).2.heap.Counted ((machine.step state).2.roots handles) none :=
    h.step.counted hlibrary
  have hfollows := machine.step_follows hlibrary state
  refine ⟨fun id _ => hcounted.balanced id, ?_, hcounted.isAlive_iff_pos, ?_,
    fun id hid hgone => ⟨Nat.lt_of_lt_of_le hid hfollows.size_le, ?_⟩,
    fun id => hcounted.isAlive_of_reaches, fun id => hcounted.cyclic_of_isAlive⟩
  · rintro operand cell id hsource rfl
    exact nomatch (machine.program.source_constant_yields state operand).ok hsource _ rfl
  · intro id _
    rw [← Bool.not_eq_true, hafter.isAlive_iff_pos]
    exact Nat.not_lt.trans Nat.le_zero
  · rw [Heap.isAlive, Option.isSome_eq_false_iff, Option.isNone_iff_eq_none] at hgone ⊢
    exact hfollows.gone id hid hgone

def selfish : Machine where
  program :=
    { strings := #["self"]
      code :=
        #[⟨.newTable, .absent, ⟨.global, 0⟩, .absent, 1⟩,
          ⟨.tableSet, ⟨.global, 0⟩, ⟨.global, 0⟩, ⟨.string, 0⟩, 2⟩]
      globals := 1 }

/-- The table is held by the global, by its own entry and by a handle. -/
theorem accounted_selfish :
    ∃ state, selfish.Shared 2 state [0] ∧ state.heap.holders 0 = 3 ∧
      selfish.Accounted state [0] := by
  have hstart : selfish.Shared 2 { stack := ⟨#[.undefined, .undefined], 0, 0, 1⟩ } [] :=
    @Shared.start selfish 2 {} {} _ rfl
  have hshared := @Shared.clone selfish 2 _ _ 0 hstart.step.step (by decide +kernel)
  exact ⟨_, hshared, by decide +kernel, accounted selfish rfl hshared⟩

end Machine
end CellMachine
