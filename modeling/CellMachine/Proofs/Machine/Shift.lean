import Mathlib
import CellMachine.Proofs.Machine.Frames
import CellMachine.Proofs.Machine.Mirroring

/-!
# Shifted stacks

A larger stack has its further cells below all others, so what lies at an address of the smaller one
lies some cells higher up in the larger one.  `State.Shifted` says so of two states, and that they
agree on everything else but the log.  The exception are the cells in which open calls have saved
addresses; which ones these are is a parameter.

Each write that is made to both states keeps them shifted, and so does each computation that moves
the top.
-/

namespace CellMachine

/-! ## Moving addresses up -/

def Call.shift (shift : Nat) (call : Call) : Call :=
  { call with
    callerFrame := call.callerFrame + shift
    callerBase := call.callerBase + shift }

def Activation.shift (shift : Nat) (activation : Activation) : Activation :=
  { activation with toCall := activation.toCall.shift shift }

def CallStack.shift (shift : Nat) (calls : CallStack) : CallStack :=
  { calls with
    outermost := calls.outermost + shift
    activations := calls.activations.map (Activation.shift shift)
    entering := calls.entering.map (Call.shift shift) }

def Exec.Environment.shift (shift : Nat) (environment : Environment) : Environment :=
  { environment with top := environment.top + shift, frame := environment.frame + shift }

def Place.shift (shift : Nat) : Place → Place
  | .slot address => .slot (address + shift)
  | .result => .result

def Source.shift (shift : Nat) : Source → Source
  | .place there => .place (there.shift shift)
  | .constant cell => .constant cell

def Action.shift (shift : Nat) : Action → Action
  | .store place cell => .store (place.shift shift) cell
  | .copy place cell => .copy (place.shift shift) cell
  | .create place => .create (place.shift shift)
  | action => action

/-- Whether a call saves an address at an address: the frame or the base of its caller. -/
def Call.SavesAddressAt (call : Call) (address : Nat) : Prop :=
  address = call.frame + EnvironmentWord.frame.offset ∨
    address = call.frame + EnvironmentWord.top.offset

def CallStack.saved (calls : CallStack) : List Call :=
  calls.entering.toList ++ calls.activations.map Activation.toCall

def CallStack.SavesAddressAt (calls : CallStack) (address : Nat) : Prop :=
  ∃ call ∈ calls.saved, call.SavesAddressAt address

/-! ## Shifted cells -/

/-- Whether the cells of a stack lie higher up in another one.  Marked cells may differ, but not in
the tables that they hold. -/
structure Stack.Shifted (shift : Nat) (marked : Nat → Prop) (stack stack' : Stack) : Prop where
  size_eq : stack'.size = stack.size + shift
  globals_eq : stack'.globals = stack.globals
  top_eq : stack'.top = stack.top + shift
  frame_eq : stack'.frame = stack.frame + shift
  read_eq : ∀ address, ¬ marked address → stack'.read (address + shift) = stack.read address
  table_eq : ∀ address, (stack'.read (address + shift)).table? = (stack.read address).table?

/-- Whether two states differ by the place of their cells only. -/
structure State.Shifted (shift : Nat) (marked : Nat → Prop) (state state' : State) : Prop where
  stack : state.stack.Shifted shift marked state'.stack
  heap_eq : state'.heap = state.heap
  result_eq : state'.result = state.result
  pc_eq : state'.pc = state.pc
  pending_eq : state'.pending = state.pending
  finished_eq : state'.finished = state.finished
  console_eq : state'.console = state.console

theorem Stack.Shifted.mono {shift : Nat} {marked marked' : Nat → Prop} {stack stack' : Stack}
    (h : stack.Shifted shift marked stack')
    (hmarked : ∀ address, marked address → marked' address) :
    stack.Shifted shift marked' stack' :=
  { h with read_eq := fun address hnot => h.read_eq address (hnot ∘ hmarked address) }

/-- Cells that hold the same tables may be written at corresponding addresses. -/
theorem Stack.Shifted.set {shift : Nat} {marked : Nat → Prop} {stack stack' : Stack}
    (h : stack.Shifted shift marked stack') (address : Nat) {cell cell' : Cell}
    (htable : cell'.table? = cell.table?) (hcell : ¬ marked address → cell' = cell) :
    (stack.set address cell).Shifted shift marked (stack'.set (address + shift) cell') := by
  have hwritten (other : Nat) : other + shift = address + shift ∧ address + shift < stack'.size ↔
      other = address ∧ address < stack.size := by
    rw [h.size_eq]
    omega
  refine ⟨?_, h.globals_eq, h.top_eq, h.frame_eq, ?_, ?_⟩
  · rw [size_set, size_set, h.size_eq]
  · intro other hother
    rw [read_set, read_set]
    simp only [hwritten]
    split
    · rename_i heq
      exact hcell (heq.1 ▸ hother)
    · exact h.read_eq other hother
  · intro other
    rw [read_set, read_set]
    simp only [hwritten]
    split
    · exact htable
    · exact h.table_eq other

/-! ## Holds of cells -/

namespace Heap

/-- Retaining depends on the table of a cell only. -/
theorem retain_congr (heap : Heap) {cell cell' : Cell} (h : cell'.table? = cell.table?) :
    heap.retain cell' = heap.retain cell := by
  rw [retain, retain, h]

/-- Letting go depends on the table of a cell only. -/
theorem release_congr (heap : Heap) {cell cell' : Cell} (h : cell'.table? = cell.table?) :
    heap.release cell' = heap.release cell := by
  rw [release, release, h]

end Heap

/-! ## Writes -/

namespace State.Shifted

variable {shift : Nat} {marked : Nat → Prop} {state state' : State}

/-- More addresses may be marked. -/
theorem mono (h : state.Shifted shift marked state') {marked' : Nat → Prop}
    (hmarked : ∀ address, marked address → marked' address) : state.Shifted shift marked' state' :=
  { h with stack := h.stack.mono hmarked }

theorem report (h : state.Shifted shift marked state') (event event' : Event) :
    (state.report event).Shifted shift marked (state'.report event') :=
  { h with }

theorem checkDefined (h : state.Shifted shift marked state') (cell : Cell) :
    (state.checkDefined cell).Shifted shift marked (state'.checkDefined cell) := by
  rw [State.checkDefined, State.checkDefined]
  split
  · exact h.report _ _
  · exact h

/-- A write to the cell at one address.  At a marked address the cells may differ. -/
theorem overwrite_slot (h : state.Shifted shift marked state') (address : Nat) {cell cell' : Cell}
    (htable : cell'.table? = cell.table?) (hcell : ¬ marked address → cell' = cell) :
    (state.overwrite (.slot address) cell).Shifted shift marked
      (state'.overwrite (.slot (address + shift)) cell') := by
  have hlt : address + shift < state'.stack.size ↔ address < state.stack.size := by
    rw [h.stack.size_eq]
    omega
  by_cases haddress : address < state.stack.size
  · simp only [State.overwrite, if_pos haddress, if_pos (hlt.2 haddress)]
    refine { h with stack := h.stack.set address htable hcell, heap_eq := ?_ }
    rw [h.heap_eq, Heap.retain_congr _ htable, Heap.release_congr _ (h.stack.table_eq address)]
  · simp only [State.overwrite, if_neg haddress, if_neg fun h => haddress (hlt.1 h)]
    exact h

/-- The same cell at corresponding places keeps two states shifted. -/
theorem overwrite (h : state.Shifted shift marked state') (place : Place) (cell : Cell) :
    (state.overwrite place cell).Shifted shift marked
      (state'.overwrite (place.shift shift) cell) := by
  cases place with
  | slot address => exact h.overwrite_slot address rfl fun _ => rfl
  | result =>
      refine { h with heap_eq := ?_, result_eq := rfl }
      simp only [State.overwrite, Place.shift]
      rw [h.heap_eq, h.result_eq]

theorem assign (h : state.Shifted shift marked state') (place : Place) (cell : Cell) :
    (state.assign place cell).Shifted shift marked (state'.assign (place.shift shift) cell) :=
  (h.checkDefined cell).overwrite place cell

/-- The same entry keeps two states shifted. -/
theorem insertEntry (h : state.Shifted shift marked state') (id : TableId) (key : Key)
    (cell : Cell) :
    (state.insertEntry id key cell).Shifted shift marked (state'.insertEntry id key cell) := by
  have hdefined := h.checkDefined cell
  refine { hdefined with heap_eq := ?_ }
  exact congrArg (fun heap : Heap => heap.insert id key cell) hdefined.heap_eq

theorem insertEntries (h : state.Shifted shift marked state') (id : TableId)
    (entries : List Entry) :
    (state.insertEntries id entries).Shifted shift marked (state'.insertEntries id entries) := by
  induction entries generalizing state state' with
  | nil => exact h
  | cons entry entries ih => exact ih (h.insertEntry id entry.1 entry.2)

/-- A table that is created in both states is the same. -/
theorem createTable (h : state.Shifted shift marked state') (entries : List Entry) :
    (state'.createTable entries).1 = (state.createTable entries).1 ∧
      (state.createTable entries).2.Shifted shift marked (state'.createTable entries).2 := by
  simp only [State.createTable]
  rw [h.heap_eq]
  refine ⟨rfl, insertEntries ?_ _ entries⟩
  exact { h with heap_eq := rfl }

/-- Cells that are cleared in both states are the same, marked or not. -/
theorem clear (h : state.Shifted shift marked state') (first last : Nat) :
    (state.clear first last).Shifted shift
      (fun address => marked address ∧ ¬ (first ≤ address ∧ address ≤ last))
      (state'.clear (first + shift) (last + shift)) := by
  have hkept : (state.clear first last).Shifted shift marked
      (state'.clear (first + shift) (last + shift)) := by
    have hrange : List.range' (first + shift)
        (min (last + shift + 1) state'.stack.size - (first + shift)) =
          (List.range' first (min (last + 1) state.stack.size - first)).map (· + shift) := by
      rw [funext fun address => Nat.add_comm address shift, List.map_add_range', h.stack.size_eq,
        Nat.add_comm first]
      congr 1
      omega
    rw [State.clear, State.clear, hrange, List.foldl_map]
    generalize List.range' first (min (last + 1) state.stack.size - first) = addresses
    clear hrange
    -- By induction on the addresses, over all states, since each write is made to the last one.
    induction addresses generalizing state state' with
    | nil => exact h
    | cons address addresses ih => exact ih (h.overwrite (.slot address) .undefined)
  refine { hkept with stack := { hkept.stack with read_eq := ?_ } }
  intro address hnot
  by_cases hcleared : first ≤ address ∧ address ≤ last
  · rw [State.read_clear _ hcleared.1 hcleared.2, State.read_clear _ (by omega) (by omega)]
  · exact hkept.stack.read_eq address fun hmarked => hnot ⟨hmarked, hcleared⟩

/-- The frame of both states may be moved to their tops. -/
theorem moveFrame (h : state.Shifted shift marked state') :
    State.Shifted shift marked
      { state with stack := { state.stack with frame := state.stack.top }, pending := 0 }
      { state' with stack := { state'.stack with frame := state'.stack.top }, pending := 0 } :=
  { h with
    stack := { h.stack with frame_eq := h.stack.top_eq }
    pending_eq := rfl }

end State.Shifted

/-! ## Moving the top -/

/-- Allocating one cell is allocating some. -/
theorem Stack.lower_eq_reserve (stack : Stack) : stack.lower = stack.reserve 1 := by
  by_cases htop : stack.top = 0
  · rw [lower, reserve, if_pos htop, if_neg (by omega)]
  · rw [lower, reserve, if_neg htop, if_pos (by omega)]

namespace Exec

variable {shift : Nat} {marked : Nat → Prop}

/-- If there is room below the top of one stack, there is below the top of the larger one. -/
theorem reserve_mirrors {top taken : Nat} (count : Nat) :
    Mirrors
      (fun state state' => state.Shifted shift marked state' ∧ state.stack.top + taken = top)
      (updateStack fun stack => stack.reserve count) (updateStack fun stack => stack.reserve count)
      fun _ _ state state' =>
        state.Shifted shift marked state' ∧ state.stack.top + (taken + count) = top := by
  refine Mirrors.updateStack ?_
  rintro state state' ⟨hshifted, htop⟩
  have htop' := hshifted.stack.top_eq
  rw [Stack.reserve, Stack.reserve]
  by_cases hle : count ≤ state.stack.top
  · rw [if_pos hle, if_pos (by omega)]
    refine ⟨_, rfl, { hshifted with stack := { hshifted.stack with top_eq := ?_ } }, ?_⟩
    · change state'.stack.top - count = state.stack.top - count + shift
      omega
    · change state.stack.top - count + (taken + count) = top
      omega
  · rw [if_neg hle]
    exact .inl rfl

/-- A top that moves in both states takes the same cell. -/
theorem lower_mirrors {top taken : Nat} :
    Mirrors
      (fun state state' => state.Shifted shift marked state' ∧ state.stack.top + taken = top)
      (updateStack Stack.lower) (updateStack Stack.lower)
      fun _ _ state state' =>
        state.Shifted shift marked state' ∧ state.stack.top + (taken + 1) = top := by
  rw [show Stack.lower = fun stack : Stack => stack.reserve 1 from
    funext Stack.lower_eq_reserve]
  exact reserve_mirrors 1

/-- Where the pushed words differ, the cell has to be marked. -/
theorem pushWord_mirrors {top taken word word' : Nat}
    (hword : ∀ address, address + taken = top → ¬ marked address → word' = word) :
    Mirrors
      (fun state state' => state.Shifted shift marked state' ∧ state.stack.top + taken = top)
      (pushWord word) (pushWord word')
      fun _ _ state state' =>
        state.Shifted shift marked state' ∧ state.stack.top + (taken + 1) = top := by
  refine Mirrors.bind _ (Mirrors.modify ?_) fun _ _ => lower_mirrors
  rintro state state' ⟨hshifted, htop⟩
  have hstart := state.registers_overwrite (.slot state.stack.top) (.number (Number.ofNat word))
  refine ⟨?_, (congrArg (fun registers => registers.top + taken) hstart).trans htop⟩
  rw [hshifted.stack.top_eq]
  refine hshifted.overwrite_slot _ (by simp only [Cell.table?]) fun hnot => ?_
  rw [hword _ htop hnot]

/-- Saving an environment puts addresses into the second and the third cell below the top. -/
theorem saveEnvironment_mirrors {top : Nat} :
    Mirrors (fun state state' => state.Shifted shift marked state' ∧ state.stack.top = top)
      saveEnvironment saveEnvironment
      fun _ _ state state' =>
        state.Shifted shift
          (fun address => marked address ∨ address + 2 = top ∨ address + 3 = top) state' ∧
        state.stack.top + 4 = top := by
  refine Mirrors.get_bind fun read read' ⟨hshifted, htop⟩ => ?_
  have hmarked : read.Shifted shift
      (fun address => marked address ∨ address + 2 = top ∨ address + 3 = top) read' :=
    hshifted.mono fun _ => .inl
  refine Mirrors.bind _ ?_ fun _ _ => Mirrors.bind _ (pushWord_mirrors ?_) fun _ _ =>
    Mirrors.bind _ (pushWord_mirrors ?_) fun _ _ => pushWord_mirrors ?_
  · refine (@pushWord_mirrors shift _ top 0 _ _ ?_).mono ?_ fun _ _ _ _ h => h
    · exact fun _ _ _ => hshifted.pending_eq
    · rintro _ _ ⟨rfl, rfl⟩
      exact ⟨hmarked, htop⟩
  · exact fun _ _ _ => by rw [hshifted.pc_eq]
  · exact fun _ haddress hnot => absurd (.inr (.inl haddress)) hnot
  · exact fun _ haddress hnot => absurd (.inr (.inr haddress)) hnot

/-- A pushed argument is mirrored at the corresponding address. -/
theorem pushArgument_mirrors (cell : Cell) :
    Mirrors (State.Shifted shift marked) (pushArgument cell) (pushArgument cell)
      fun _ _ => State.Shifted shift marked := by
  refine Mirrors.bind (fun _ _ => State.Shifted shift marked) (Mirrors.modify ?_) ?_
  · intro state state' hshifted
    have hassigned := hshifted.assign (.slot state.stack.top) cell
    simp only [hshifted.stack.top_eq]
    exact { hassigned with pending_eq := congrArg (· + 1) hassigned.pending_eq }
  · intro _ _ state state' hshifted
    have hlower := (@lower_mirrors shift marked state.stack.top 0).mono (fun _ _ h => h)
      fun _ _ _ _ h => h.1
    exact hlower state state' ⟨hshifted, rfl⟩

/-! ## Moving the frame -/

theorem openFrame_mirrors :
    Mirrors (State.Shifted shift marked) openFrame openFrame fun _ _ =>
      State.Shifted shift marked :=
  Mirrors.modify fun _ _ hshifted => hshifted.moveFrame

/-- Entering is mirrored, with the locals at corresponding addresses. -/
theorem enter_mirrors (name : String) (localSize : Nat) :
    Mirrors (State.Shifted shift marked) (enter name localSize) (enter name localSize)
      fun _ _ => State.Shifted shift marked := by
  refine Mirrors.bind _ openFrame_mirrors fun _ _ => ?_
  refine Mirrors.bind (fun _ _ => State.Shifted shift marked) ?_ fun _ _ =>
    Mirrors.modify fun state state' hshifted => hshifted.report _ _
  intro state state' hshifted
  have hreserve := (@reserve_mirrors shift marked state.stack.top 0 localSize).mono
    (fun _ _ h => h) fun _ _ _ _ h => h.1
  exact hreserve state state' ⟨hshifted, rfl⟩

/-- Restoring an environment clears the cells below the top of the caller, marked or not. -/
theorem restore_shifted {state state' : State} (h : state.Shifted shift marked state')
    (environment : Environment) :
    (restore state environment).Shifted shift
      (fun address => marked address ∧
        ¬ (state.stack.top + 1 ≤ address ∧ address ≤ environment.top))
      (restore state' (environment.shift shift)) := by
  have hmoved : State.Shifted shift marked
      { state with stack :=
        { state.stack with top := environment.top, frame := environment.frame } }
      { state' with stack :=
        { state'.stack with
          top := environment.top + shift, frame := environment.frame + shift } } :=
    { h with stack := { h.stack with top_eq := rfl, frame_eq := rfl } }
  have hclear := hmoved.clear (state.stack.top + 1) environment.top
  rw [Nat.add_right_comm, ← h.stack.top_eq] at hclear
  exact hclear

end Exec
end CellMachine
