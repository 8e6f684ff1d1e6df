import Mathlib
import CellMachine.Proofs.Machine.Effects
import CellMachine.Proofs.Machine.Frames
import CellMachine.Proofs.Table.Keys

/-!
# Data instructions

Assignments, arithmetic, connectives and the instructions of tables read their operands before they
write anything, and write one place or one entry.  `Program.Denotes` says which cell an operand
stands for in a state, and `Machine.Computes` which cell an instruction makes of those; neither
speaks of the state afterwards, so it does not matter whether operands name the place that is
written.

`Machine.DataEffect` lists what such an instruction changes.  Whatever else a state holds is as it
was, but for the counts of holders and for the tables that were held by the cell that was written
over.
-/

namespace CellMachine

/-! ## Operands -/

/-- Which place an operand names: a cell of the stack that lies so far from the high end or from the
frame, and above the top, or the return register. -/
inductive State.Names (state : State) : Operand → Place → Prop
  | global {value : UInt32} {address : Nat}
      (haddress : address + value.toNat = state.stack.size - 1)
      (hallocated : state.stack.top < address ∧ address < state.stack.size) :
      state.Names ⟨.global, value⟩ (.slot address)
  | local {value : UInt32} {address : Nat} (haddress : address + value.toNat = state.stack.frame)
      (hallocated : state.stack.top < address ∧ address < state.stack.size) :
      state.Names ⟨.local, value⟩ (.slot address)
  | formal {value : UInt32} {address : Nat}
      (haddress : address = state.stack.frame + 5 + value.toNat)
      (hallocated : state.stack.top < address ∧ address < state.stack.size) :
      state.Names ⟨.formal, value⟩ (.slot address)
  | result {value : UInt32} : state.Names ⟨.result, value⟩ .result

/-- Which cell an operand stands for: what is at the place that it names, or a constant.  An unused
position stands for the undefined cell. -/
inductive Program.Denotes (program : Program) (state : State) : Operand → Cell → Prop
  | place {operand : Operand} {place : Place} (hplace : state.Names operand place) :
      program.Denotes state operand (state.read place)
  | number {value : UInt32} {x : Float} (hconstant : program.numbers[value.toNat]? = some x) :
      program.Denotes state ⟨.number, value⟩ (.number x)
  | text {value : UInt32} {s : String} (hconstant : program.strings[value.toNat]? = some s) :
      program.Denotes state ⟨.string, value⟩ (.text s)
  | bool {value : UInt32} : program.Denotes state ⟨.bool, value⟩ (.bool (value ≠ 0))
  | nil {value : UInt32} : program.Denotes state ⟨.nil, value⟩ .nil
  | userFunction {value : UInt32} {function : UserFunction}
      (hconstant : program.userFunctions[value.toNat]? = some function) :
      program.Denotes state ⟨.userFunction, value⟩ (.userFunction function.address)
  | libraryFunction {value : UInt32} {name : String}
      (hconstant : program.libraryFunctions[value.toNat]? = some name) :
      program.Denotes state ⟨.libraryFunction, value⟩ (.libraryFunction name)
  | absent {value : UInt32} : program.Denotes state ⟨.absent, value⟩ .undefined

/-- An operand names places that are there. -/
theorem State.Names.hasPlace {state : State} {operand : Operand} {place : Place}
    (h : state.Names operand place) : state.HasPlace place := by
  rintro address rfl
  cases h with
  | global _ hallocated => exact hallocated.2
  | «local» _ hallocated => exact hallocated.2
  | formal _ hallocated => exact hallocated.2

/-- Resolving an operand finds the place that it names. -/
theorem State.place_names (state : State) (operand : Operand) :
    Yields (state.place operand) (state.Names operand) := by
  rcases operand with ⟨kind, value⟩
  cases kind with
  | global => exact Yields.map ((state.stack.below_yields _ _).mono fun _ h => .global h.1 h.2)
  | «local» => exact Yields.map ((state.stack.below_yields _ _).mono fun _ h => .local h.1 h.2)
  | formal => exact Yields.map ((state.stack.allocated_yields _).mono fun _ h => .formal h.1 h.2)
  | result => exact .result
  | _ => exact Yields.throw fun _ => nofun

namespace Program

variable (program : Program) (state : State)

/-- A constant is looked up in its group. -/
theorem constant_gets {α : Type} (group : ConstantGroup) (constants : Array α) (index : UInt32) :
    Yields (constant group constants index) fun x => constants[index.toNat]? = some x := by
  rw [constant]
  split
  · rename_i x hx
    exact hx
  · refine Yields.throw fun target h => ?_
    cases h

/-- Reading an operand finds the cell that it denotes. -/
theorem operandCell_denotes (operand : Operand) :
    Yields (program.operandCell state operand) (program.Denotes state operand) := by
  have hplace : Yields (Source.place <$> state.place operand) fun source =>
      program.Denotes state operand (state.value source) :=
    Yields.map ((state.place_names operand).mono fun _ h => .place h)
  refine Yields.map ?_
  rcases operand with ⟨kind, value⟩
  cases kind with
  | global | «local» | formal | result => exact hplace
  | label => exact Yields.throw fun _ => nofun
  | number => exact Yields.map (Yields.map ((constant_gets _ _ _).mono fun _ h => .number h))
  | string => exact Yields.map (Yields.map ((constant_gets _ _ _).mono fun _ h => .text h))
  | bool => exact Denotes.bool
  | nil => exact Denotes.nil
  | userFunction =>
      exact Yields.map (Yields.map ((constant_gets _ _ _).mono fun _ h => .userFunction h))
  | libraryFunction =>
      exact Yields.map (Yields.map ((constant_gets _ _ _).mono fun _ h => .libraryFunction h))
  | absent => exact Denotes.absent

theorem operandNumber_denotes (opcode : Opcode) (operand : Operand) :
    Yields (program.operandNumber state opcode operand) fun x =>
      program.Denotes state operand (.number x) := by
  refine Yields.bind (program.operandCell_denotes state operand) fun cell hcell => ?_
  cases cell with
  | number x => exact hcell
  | _ => exact Yields.throw fun _ => nofun

theorem operandTable_denotes (operand : Operand) :
    Yields (program.operandTable state operand) fun id =>
      program.Denotes state operand (.table id) := by
  refine Yields.bind (program.operandCell_denotes state operand) fun cell hcell => ?_
  cases cell with
  | table id => exact hcell
  | _ => exact Yields.throw fun _ => nofun

end Program

/-! ## What is computed -/

def Opcode.isData : Opcode → Bool
  | assign | arithmetic _ | negate | connective _ | not | newTable | tableGet | tableSet => true
  | _ => false

/-- Which cell an instruction computes from the cells that its operands denote.  A missing entry
counts as nil, if the machine is lenient. -/
inductive Machine.Computes (machine : Machine) (state : State) : Instruction → Cell → Prop
  | assign {result first second : Operand} {line : UInt32} {cell : Cell}
      (hfirst : machine.program.Denotes state first cell) :
      machine.Computes state ⟨.assign, result, first, second, line⟩ cell
  | arithmetic {op : Arithmetic} {result first second : Operand} {line : UInt32} {x y : Float}
      (hfirst : machine.program.Denotes state first (.number x))
      (hsecond : machine.program.Denotes state second (.number y)) :
      machine.Computes state ⟨.arithmetic op, result, first, second, line⟩ (.number (op.apply x y))
  | negate {result first second : Operand} {line : UInt32} {x : Float}
      (hfirst : machine.program.Denotes state first (.number x)) :
      machine.Computes state ⟨.negate, result, first, second, line⟩ (.number (-x))
  | connective {op : Connective} {result first second : Operand} {line : UInt32} {a b : Cell}
      (hfirst : machine.program.Denotes state first a)
      (hsecond : machine.program.Denotes state second b) :
      machine.Computes state ⟨.connective op, result, first, second, line⟩
        (.bool (op.apply a.truth b.truth))
  | not {result first second : Operand} {line : UInt32} {a : Cell}
      (hfirst : machine.program.Denotes state first a) :
      machine.Computes state ⟨.not, result, first, second, line⟩ (.bool !a.truth)
  | entry {result first second : Operand} {line : UInt32} {id : TableId} {address cell : Cell}
      {key : Key} (hfirst : machine.program.Denotes state first (.table id))
      (hsecond : machine.program.Denotes state second address) (hkey : address.key? = .ok key)
      (hentry : state.heap.get? id key = some cell) :
      machine.Computes state ⟨.tableGet, result, first, second, line⟩ cell
  | missing {result first second : Operand} {line : UInt32} {id : TableId} {address : Cell}
      {key : Key} (hfirst : machine.program.Denotes state first (.table id))
      (hsecond : machine.program.Denotes state second address) (hkey : address.key? = .ok key)
      (hentry : state.heap.get? id key = none) (hlenient : machine.missingKey = .nil) :
      machine.Computes state ⟨.tableGet, result, first, second, line⟩ .nil

inductive Machine.Stores (machine : Machine) (state : State) :
    Instruction → TableId → Key → Cell → Prop
  | mk {result first second : Operand} {line : UInt32} {id : TableId} {address cell : Cell}
      {key : Key} (hfirst : machine.program.Denotes state first (.table id))
      (hsecond : machine.program.Denotes state second address) (hkey : address.key? = .ok key)
      (hresult : machine.program.Denotes state result cell) :
      machine.Stores state ⟨.tableSet, result, first, second, line⟩ id key cell

/-! ## Decoding -/

inductive Machine.DataAction (machine : Machine) (state : State) (instruction : Instruction) :
    Action → Prop
  | skip {place : Place} (hplace : state.Names instruction.result place)
      (hcell : machine.Computes state instruction (state.read place)) :
      machine.DataAction state instruction .skip
  | store {place : Place} {cell : Cell} (hplace : state.Names instruction.result place)
      (hcell : machine.Computes state instruction cell) :
      machine.DataAction state instruction (.store place cell)
  | copy {place : Place} {cell : Cell} (hplace : state.Names instruction.result place)
      (hcell : machine.Computes state instruction cell) :
      machine.DataAction state instruction (.copy place cell)
  | create {place : Place} (hopcode : instruction.opcode = .newTable)
      (hplace : state.Names instruction.first place) :
      machine.DataAction state instruction (.create place)
  | insert {id : TableId} {key : Key} {cell : Cell}
      (hstores : machine.Stores state instruction id key cell) :
      machine.DataAction state instruction (.insert id key cell)

theorem Cell.key_gets (cell : Cell) : Yields cell.key fun key => cell.key? = .ok key := by
  rw [key]
  split
  · rename_i key hkey
    exact hkey
  · refine Yields.throw fun target h => ?_
    cases h

/-- What a machine makes of an entry that it looks up. -/
theorem State.lookup_gets (state : State) (missing : MissingKey) (id : TableId) (address : Cell) :
    Yields (state.lookup missing id address) fun cell => ∃ key, address.key? = .ok key ∧
      (state.heap.get? id key = some cell ∨
        state.heap.get? id key = none ∧ missing = .nil ∧ cell = .nil) := by
  refine Yields.bind address.key_gets fun key hkey => ?_
  cases hentry : state.heap.get? id key with
  | some entry => exact ⟨key, hkey, .inl hentry⟩
  | none =>
      cases missing with
      | fault => exact Yields.throw fun _ => nofun
      | nil => exact ⟨key, hkey, .inr ⟨hentry, rfl, rfl⟩⟩

namespace Machine

/-- A source that is the place to be written stands for what is there already. -/
theorem decode_assign (machine : Machine) (state : State) (result first second : Operand)
    (line : UInt32) : Yields (machine.decode state ⟨.assign, result, first, second, line⟩)
      (machine.DataAction state ⟨.assign, result, first, second, line⟩) := by
  refine Yields.bind (state.place_names result) fun place hplace => ?_
  have hdenotes := machine.program.operandCell_denotes state first
  cases hsource : machine.program.source state first with
  | error fault =>
      rw [Program.operandCell, hsource] at hdenotes
      exact hdenotes
  | ok source =>
      rw [Program.operandCell, hsource] at hdenotes
      have hcomputes : machine.Computes state ⟨.assign, result, first, second, line⟩
          (state.value source) := .assign hdenotes
      change DataAction _ _ _ (if _ then _ else _)
      split
      · rename_i hsame
        rw [hsame] at hcomputes
        exact .skip hplace hcomputes
      · exact .copy hplace hcomputes

/-- A data instruction is decoded to an action that its operands account for. -/
theorem decode_data (machine : Machine) (state : State) {instruction : Instruction}
    (hdata : instruction.opcode.isData = true) :
    Yields (machine.decode state instruction) (machine.DataAction state instruction) := by
  rcases instruction with ⟨opcode, result, first, second, line⟩
  have hplace := state.place_names
  have hcell := machine.program.operandCell_denotes state
  have hnumber := machine.program.operandNumber_denotes state opcode
  have htable := machine.program.operandTable_denotes state
  -- Operands are resolved in the order in which the instruction demands them.
  cases opcode with
  | assign => exact machine.decode_assign state result first second line
  | arithmetic op =>
      refine (hplace result).bind fun place hp => ?_
      refine (hnumber first).bind fun x hx => (hnumber second).bind fun y hy => ?_
      exact DataAction.store hp (.arithmetic hx hy)
  | negate =>
      refine (hplace result).bind fun place hp => (hnumber first).bind fun x hx => ?_
      exact DataAction.store hp (.negate hx)
  | connective op =>
      refine (hplace result).bind fun place hp => ?_
      refine (hcell first).bind fun a ha => (hcell second).bind fun b hb => ?_
      exact DataAction.store hp (.connective ha hb)
  | not =>
      refine (hplace result).bind fun place hp => (hcell first).bind fun a ha => ?_
      exact DataAction.store hp (.not ha)
  | newTable => exact (hplace first).bind fun place hp => DataAction.create rfl hp
  | tableGet =>
      refine (hplace result).bind fun place hp => (htable first).bind fun id hid => ?_
      refine (hcell second).bind fun address haddress => ?_
      refine (state.lookup_gets machine.missingKey id address).bind fun cell hlookup => ?_
      rcases hlookup with ⟨key, hkey, hentry | ⟨hentry, hlenient, rfl⟩⟩
      · exact DataAction.copy hp (.entry hid haddress hkey hentry)
      · exact DataAction.copy hp (.missing hid haddress hkey hentry hlenient)
  | tableSet =>
      refine (htable first).bind fun id hid => (hcell second).bind fun address haddress => ?_
      refine (hcell result).bind fun cell h => address.key_gets.bind fun key hkey => ?_
      exact DataAction.insert ⟨hid, haddress, hkey, h⟩
  | _ => nomatch hdata

end Machine

/-! ## Effects -/

/-- What moves on: the place in the code, and the log, which may also report a value that was never
assigned. -/
structure State.Proceeds (before after : State) (instruction : Instruction) : Prop where
  registers : after.registers = { before.registers with pc := before.pc + 1 }
  console : after.console = before.console
  log : after.log = (Machine.fetched before instruction).log ∨
    after.log = (Machine.fetched before instruction).log.add .undefinedAssigned

/-- Whether one place was written and nothing else, but for created tables and for what the cell
that was written over had held. -/
structure State.Writes (before after : State) (place : Place) (cell : Cell)
    (created : Set TableId) : Prop where
  written : after.read place = cell
  others : ∀ other, other ≠ place → after.read other = before.read other
  heap : before.heap.Confined after.heap created {id | before.read place = .table id}

structure State.StoresEntry (before after : State) (id : TableId) (key : Key) (cell : Cell) :
    Prop where
  cells : ∀ place, after.read place = before.read place
  entries : ∃ table table', before.heap.table? id = some table ∧
    after.heap.table? id = some table' ∧
      ∀ other, table'.get? other = if key.same other then some cell else table.get? other
  heap : before.heap.Confined after.heap {id}
    {child | before.heap.get? id key = some (.table child)}

/-- What a data instruction does: it writes the cell that it computes to the place that its result
names, or a new table to the place that its first operand names, or stores an entry. -/
inductive Machine.DataEffect (machine : Machine) (instruction : Instruction)
    (before after : State) : Prop
  | write {place : Place} {cell : Cell} (hplace : before.Names instruction.result place)
      (hcell : machine.Computes before instruction cell)
      (hwrites : before.Writes after place cell ∅)
  | create {place : Place} (hopcode : instruction.opcode = .newTable)
      (hplace : before.Names instruction.first place)
      (hempty : after.heap.table? before.heap.nodes.size = some .empty)
      (hwrites : before.Writes after place (.table before.heap.nodes.size)
        {before.heap.nodes.size})
  | insert {id : TableId} {key : Key} {cell : Cell}
      (hstores : machine.Stores before instruction id key cell)
      (hentry : before.StoresEntry after id key cell)

namespace State

variable {program : Program} {state : State} {operand : Operand} {cell : Cell} {id : TableId}

/-- A table is denoted by what names a place. -/
theorem exists_read_of_denotes (h : program.Denotes state operand (.table id)) :
    ∃ place, state.read place = .table id := by
  generalize hcell : Cell.table id = cell at h
  cases h with
  | @place operand place hplace => exact ⟨place, rfl⟩
  | _ => nomatch hcell

/-- What an operand denotes is a constant or stands at a place. -/
theorem offers_of_denotes (h : program.Denotes state operand cell) : state.Offers cell := by
  cases h with
  | @place operand place hplace => exact .place place
  | _ => exact .plain rfl

/-- What is computed is new or stands in the state already. -/
theorem offers_of_computes {machine : Machine} {instruction : Instruction}
    (h : machine.Computes state instruction cell) : state.Offers cell := by
  cases h with
  | assign hfirst => exact offers_of_denotes hfirst
  | @entry _ _ _ _ id _ _ key _ _ _ hentry => exact .entry id key hentry
  | _ => exact .plain rfl

/-- An entry is stored in a table that some place holds, and under a key that addresses itself. -/
theorem stored_of_stores {machine : Machine} {instruction : Instruction} {key : Key}
    (h : machine.Stores state instruction id key cell) :
    (∃ place, state.read place = .table id) ∧ state.Offers cell ∧ key.same key = true := by
  rcases h with ⟨hfirst, -, hkey, hresult⟩
  exact ⟨exists_read_of_denotes hfirst, offers_of_denotes hresult, (Key.same_self_of_key? hkey).2⟩

end State

namespace State

variable {state : State} {handles : List TableId} {place : Place} {cell : Cell}

/-- What is written does not depend on the place in the code, the streams and the log. -/
theorem Writes.congr {before before' after after' : State} {created : Set TableId}
    (h : before.Writes after place cell created) (hbefore : before'.SameStore before)
    (hafter : after'.SameStore after) : before'.Writes after' place cell created := by
  refine ⟨?_, fun other hne => ?_, ?_⟩
  · rw [hafter.read, h.written]
  · rw [hafter.read, hbefore.read, h.others other hne]
  · rw [hafter.heap, hbefore.heap, hbefore.read]
    exact h.heap

theorem StoresEntry.congr {before before' after after' : State} {id : TableId} {key : Key}
    (h : before.StoresEntry after id key cell) (hbefore : before'.SameStore before)
    (hafter : after'.SameStore after) : before'.StoresEntry after' id key cell := by
  refine ⟨fun place => ?_, ?_, ?_⟩
  · rw [hafter.read, hbefore.read, h.cells]
  · rw [hafter.heap, hbefore.heap]
    exact h.entries
  · rw [hafter.heap, hbefore.heap]
    exact h.heap

/-- Overwriting a place writes that place only. -/
theorem writes_overwrite (hplace : state.HasPlace place) (cell : Cell) :
    state.Writes (state.overwrite place cell) place cell ∅ := by
  refine ⟨?_, fun other hne => ?_, state.confined_overwrite place cell⟩
  · rw [read_overwrite hplace, if_pos rfl]
  · rw [read_overwrite hplace, if_neg hne]

/-- Copying to a place writes that place only. -/
theorem writes_assign (hplace : state.HasPlace place) (cell : Cell) :
    state.Writes (state.assign place cell) place cell ∅ := by
  have hwrites := writes_overwrite (hasPlace_checkDefined hplace cell) cell
  refine ⟨hwrites.written, fun other hne => ?_, ?_⟩
  · exact (hwrites.others other hne).trans (state.read_checkDefined cell other)
  · have hheap := hwrites.heap
    rwa [heap_checkDefined, read_checkDefined] at hheap

/-- A new table that is written to a place stays alive there. -/
theorem writes_create (h : state.Counted handles) (hplace : state.HasPlace place) :
    let id := state.heap.nodes.size
    let after := (state.createTable []).2.overwrite place (.table id)
    after.heap.table? id = some .empty ∧ state.Writes after place (.table id) {id} := by
  intro id after
  have hcounted : after.Counted handles :=
    h.table hplace (.inl fun entry hmem => absurd hmem List.not_mem_nil)
  have hcreated (other : Place) : (state.createTable []).2.read other = state.read other := by
    cases other <;> rfl
  have hwrites := @writes_overwrite (state.createTable []).2 place hplace (.table id)
  have hkept : after.heap.isAlive id = true := hcounted.isAlive_of_read hwrites.written
  have hheap : state.heap.create.2.Confined after.heap ∅ {id | state.read place = .table id} :=
    hcreated place ▸ hwrites.heap
  refine ⟨?_, hwrites.written, fun other hne => ?_, ?_⟩
  · rcases Heap.exists_table?_of_isAlive hkept with ⟨table, htable⟩
    have hempty := hheap.tables id table (Set.notMem_empty id) htable
    rw [Heap.table?, Heap.node?_create, if_pos rfl] at hempty
    cases hempty
    exact htable
  · exact (hwrites.others other hne).trans (hcreated other)
  · have hboth := (@Heap.confined_create ∅ state.heap).trans hheap fun other hother =>
      Set.mem_singleton_iff.1 hother ▸ hkept
    rwa [Set.union_empty, Set.empty_union] at hboth

/-- An entry is stored in a table that a place of the state holds. -/
theorem stores_insert {id : TableId} {key : Key} (h : state.Counted handles)
    (hid : state.read place = .table id) (hcell : state.Offers cell)
    (hkey : key.same key = true) :
    state.StoresEntry (state.insertEntry id key cell) id key cell := by
  have hread (other : Place) : (state.insertEntry id key cell).read other = state.read other :=
    match other with
    | .result => state.result_checkDefined cell
    | .slot address => congrArg (fun stack : Stack => stack.read address)
        (state.stack_insertEntry id key cell)
  have hoffers : state.Offers (.table id) := hid ▸ .place place
  have hcounted : (state.insertEntry id key cell).Counted handles := h.insert key hoffers hcell
  -- The table is still held where it was, so the insertion has not destroyed it.
  have hkept := hcounted.isAlive_of_read ((hread place).trans hid)
  have halive : state.heap.isAlive id = true := h.isAlive_of_read hid
  rcases Heap.exists_table?_of_isAlive halive with ⟨table, htable⟩
  have hwellFormed : table.WellFormed := by
    rcases Option.map_eq_some_iff.1 htable with ⟨node, hnode, rfl⟩
    exact h.wellFormed id node hnode
  rw [heap_insertEntry] at hkept
  refine ⟨hread, ⟨table, table.insert key cell, htable, ?_, ?_⟩, ?_⟩
  · rw [heap_insertEntry]
    exact Heap.table?_insert_self htable hkept
  · exact fun other => hwellFormed.get?_insert hkey cell other
  · rw [heap_insertEntry]
    exact Heap.confined_insert hkept

/-- Nothing is written. -/
theorem writes_nothing (state : State) (place : Place) :
    state.Writes state place (state.read place) ∅ :=
  ⟨rfl, fun _ _ => rfl, .refl state.heap⟩

end State

namespace Machine

open State

variable {machine : Machine} {state : State} {instruction : Instruction} {handles : List TableId}
  {place : Place} {cell : Cell}

/-- The registers, the console and the log after an instruction was performed. -/
theorem proceeds {after : State} (hregisters : after.registers = state.registers)
    (hconsole : after.console = state.console)
    (hlog : after.log = (fetched state instruction).log ∨
      after.log = (fetched state instruction).log.add .undefinedAssigned) :
    state.Proceeds { after with pc := after.pc + 1 } instruction := by
  have hpc : after.pc = state.pc := congrArg Registers.pc hregisters
  refine ⟨?_, hconsole, hlog⟩
  change { after.registers with pc := after.pc + 1 } = _
  rw [hregisters, hpc]

/-- Checking a cell reports one event at most. -/
theorem log_checkDefined_or (state : State) (cell : Cell) :
    (state.checkDefined cell).log = state.log ∨
      (state.checkDefined cell).log = state.log.add .undefinedAssigned := by
  rw [log_checkDefined]
  split
  · exact .inr rfl
  · exact .inl rfl

/-- What a data instruction comes to once its action was performed and only the place in the code
has still to move: the counts of holders are right, and the move completes the effect. -/
structure Performed (machine : Machine) (handles : List TableId) (instruction : Instruction)
    (state after : State) : Prop where
  counted : after.Counted handles
  proceeds : state.Proceeds { after with pc := after.pc + 1 } instruction
  effect : machine.DataEffect instruction state { after with pc := after.pc + 1 }

/-- The fetch before an action and the move after it change no cell and no table. -/
theorem writes_of_fetched {after : State} {created : Set TableId}
    (h : (fetched state instruction).Writes after place cell created) :
    state.Writes { after with pc := after.pc + 1 } place cell created :=
  h.congr ⟨rfl, rfl, rfl⟩ ⟨rfl, rfl, rfl⟩

theorem storesEntry_of_fetched {after : State} {id : TableId} {key : Key}
    (h : (fetched state instruction).StoresEntry after id key cell) :
    state.StoresEntry { after with pc := after.pc + 1 } id key cell :=
  h.congr ⟨rfl, rfl, rfl⟩ ⟨rfl, rfl, rfl⟩

theorem performed_skip (h : state.Counted handles) (hplace : state.Names instruction.result place)
    (hcell : machine.Computes state instruction (state.read place)) :
    machine.Performed handles instruction state (fetched state instruction) := by
  have hwrites := writes_nothing (fetched state instruction) place
  exact ⟨h, proceeds rfl rfl (.inl rfl), .write hplace hcell (writes_of_fetched hwrites)⟩

/-- A computed cell goes to the place that the result names. -/
theorem performed_store (h : state.Counted handles) (hplace : state.Names instruction.result place)
    (hcell : machine.Computes state instruction cell) :
    machine.Performed handles instruction state
      ((fetched state instruction).overwrite place cell) := by
  have hhas : (fetched state instruction).HasPlace place := hplace.hasPlace
  have hoffers : (fetched state instruction).Offers cell :=
    (offers_of_computes hcell).congr ⟨rfl, rfl, rfl⟩
  have hcounted : (fetched state instruction).Counted handles := h
  have hwrites := writes_of_fetched (writes_overwrite hhas cell)
  refine ⟨hcounted.write place hoffers, proceeds ?_ ?_ (.inl ?_), .write hplace hcell hwrites⟩
  · exact registers_overwrite _ place cell
  · exact console_overwrite _ place cell
  · exact log_overwrite _ place cell

/-- A copy differs from a store in that it may report a value that was never assigned. -/
theorem performed_copy (h : state.Counted handles) (hplace : state.Names instruction.result place)
    (hcell : machine.Computes state instruction cell) :
    machine.Performed handles instruction state
      ((fetched state instruction).assign place cell) := by
  have hhas : (fetched state instruction).HasPlace place := hplace.hasPlace
  have hoffers : (fetched state instruction).Offers cell :=
    (offers_of_computes hcell).congr ⟨rfl, rfl, rfl⟩
  have hcounted := (counted_preserved handles).assign place hoffers h
  have hwrites := writes_of_fetched (writes_assign hhas cell)
  refine ⟨hcounted, proceeds ?_ ?_ ?_, .write hplace hcell hwrites⟩
  · exact registers_assign _ place cell
  · exact (console_overwrite _ place cell).trans (console_checkDefined _ cell)
  · rw [assign, log_overwrite]
    exact log_checkDefined_or _ cell

/-- A new table goes to the place that the first operand names. -/
theorem performed_create (h : state.Counted handles) (hopcode : instruction.opcode = .newTable)
    (hplace : state.Names instruction.first place) :
    machine.Performed handles instruction state
      (((fetched state instruction).createTable []).2.overwrite place
        (.table state.heap.nodes.size)) := by
  have hhas : (fetched state instruction).HasPlace place := hplace.hasPlace
  have hcounted : (fetched state instruction).Counted handles := h
  rcases writes_create hcounted hhas with ⟨hempty, hwrites⟩
  have hcounted' := hcounted.table hhas (.inl fun entry hmem => absurd hmem List.not_mem_nil)
  refine ⟨hcounted', proceeds ?_ ?_ (.inl ?_),
    .create hopcode hplace hempty (writes_of_fetched hwrites)⟩
  · exact (registers_overwrite _ place _).trans (registers_createTable _ [])
  · exact console_overwrite _ place _
  · exact log_overwrite _ place _

/-- An entry goes into a table that a place of the state holds, so nothing but what it replaces is
let go of. -/
theorem performed_insert {id : TableId} {key : Key} (h : state.Counted handles)
    (hstores : machine.Stores state instruction id key cell) :
    machine.Performed handles instruction state
      ((fetched state instruction).insertEntry id key cell) := by
  rcases stored_of_stores hstores with ⟨⟨place, hplace⟩, hcell, hself⟩
  have hread : (fetched state instruction).read place = .table id := hplace
  have hcounted : (fetched state instruction).Counted handles := h
  have hoffers : (fetched state instruction).Offers cell := hcell.congr ⟨rfl, rfl, rfl⟩
  have hentry := storesEntry_of_fetched (stores_insert hcounted hread hoffers hself)
  refine ⟨hcounted.insert key (hread ▸ .place place) hoffers, proceeds ?_ ?_ ?_,
    .insert hstores hentry⟩
  · exact registers_insertEntry _ id key cell
  · exact console_checkDefined _ cell
  · exact log_checkDefined_or _ cell

/-- A data instruction that succeeds has its effect, and the counts stay right. -/
theorem run_data {action : Action} {flow : Flow} {after : State} (h : state.Counted handles)
    (haction : machine.DataAction state instruction action)
    (hrun : (Exec.perform action).run (fetched state instruction) = .ok flow after) :
    flow = .next ∧ machine.Performed handles instruction state after := by
  cases haction with
  | skip hplace hcell =>
      cases hrun
      exact ⟨rfl, performed_skip h hplace hcell⟩
  | store hplace hcell =>
      cases hrun
      exact ⟨rfl, performed_store h hplace hcell⟩
  | copy hplace hcell =>
      cases hrun
      exact ⟨rfl, performed_copy h hplace hcell⟩
  | create hopcode hplace =>
      cases hrun
      exact ⟨rfl, performed_create h hopcode hplace⟩
  | insert hstores =>
      cases hrun
      exact ⟨rfl, performed_insert h hstores⟩

/-- A data instruction that succeeds does nothing but what it is for: from the cells that its
operands denote in the state before, whichever of them are at the place that it writes, it computes
a cell and writes it there, or a new table, or stores an entry in a table that other cells may hold
as well.  The counts of holders are right afterwards, all other tables keep their entries, and only
what the cell or the entry that was written over had held is destroyed. -/
theorem data_instruction (machine : Machine) {state : State} {instruction : Instruction}
    {handles : List TableId} (h : state.Counted handles)
    (hget : machine.program.code[state.pc]? = some instruction)
    (hdata : instruction.opcode.isData = true) (hrunning : (machine.step state).1 = .running) :
    machine.DataEffect instruction state (machine.step state).2 ∧
      state.Proceeds (machine.step state).2 instruction ∧
      (machine.step state).2.Counted handles := by
  rcases exists_decode_of_running hrunning with ⟨other, action, hother, hdecode⟩
  cases hget.symm.trans hother
  have haction := (machine.decode_data state hdata).ok hdecode
  rcases step_running hrunning hget hdecode with ⟨flow, after, hrun, hflow⟩
  rcases run_data h haction hrun with ⟨rfl, hperformed⟩
  rcases hflow with ⟨-, hafter⟩ | ⟨target, hjump, -⟩
  · rw [hafter]
    exact ⟨hperformed.effect, hperformed.proceeds, hperformed.counted⟩
  · cases hjump

def descending : Machine where
  program :=
    { strings := #["next"]
      code :=
        #[⟨.newTable, .absent, ⟨.global, 0⟩, .absent, 1⟩,
          ⟨.newTable, .absent, ⟨.global, 1⟩, .absent, 2⟩,
          ⟨.tableSet, ⟨.global, 1⟩, ⟨.global, 0⟩, ⟨.string, 0⟩, 3⟩,
          ⟨.tableGet, ⟨.global, 0⟩, ⟨.global, 0⟩, ⟨.string, 0⟩, 4⟩]
      globals := 2 }

/-- The table that is read is the one that the write lets go of. -/
theorem data_instruction_descending :
    ∃ state, descending.Shared 3 state [] ∧ state.pc = 3 ∧ state.heap.isAlive 0 = true ∧
      (descending.step state).1 = .running ∧
      descending.DataEffect ⟨.tableGet, ⟨.global, 0⟩, ⟨.global, 0⟩, ⟨.string, 0⟩, 4⟩ state
        (descending.step state).2 := by
  have hstart : descending.Shared 3
      { stack := ⟨#[.undefined, .undefined, .undefined], 0, 0, 2⟩ } [] :=
    @Shared.start descending 3 {} {} _ rfl
  have hshared := hstart.step.step.step
  have hget : descending.program.code[3]? =
      some ⟨.tableGet, ⟨.global, 0⟩, ⟨.global, 0⟩, ⟨.string, 0⟩, 4⟩ := rfl
  have hpc : (descending.step (descending.step (descending.step
      { stack := ⟨#[.undefined, .undefined, .undefined], 0, 0, 2⟩ }).2).2).2.pc = 3 := by
    decide +kernel
  have hrunning : (descending.step (descending.step (descending.step (descending.step
      { stack := ⟨#[.undefined, .undefined, .undefined], 0, 0, 2⟩ }).2).2).2).1 = .running := by
    decide +kernel
  exact ⟨_, hshared, hpc, by decide +kernel, hrunning,
    (descending.data_instruction (hshared.counted rfl) (hpc ▸ hget) rfl hrunning).1⟩

end Machine
end CellMachine
