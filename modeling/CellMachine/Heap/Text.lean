import CellMachine.Heap.Basic

/-!
# Texts of tables

A table is written as the list of its entries.  While a table is being written, it is on a stack; a
table that is met again while it is on the stack is a cycle and is written as a mark.  A table that
is met twice on different branches is written out both times.

Each call hands back the stack as it found it.  That is part of what a call yields, for without it
the text would not end: a nested table is put on top of a stack on which it was not yet, and only
living tables are put there.
-/

namespace CellMachine
namespace Heap

/-! ## The measure -/

/-- The living tables that are not on a stack. -/
def offStack (heap : Heap) (seen : List TableId) : List TableId :=
  (List.range heap.nodes.size).filter fun id => heap.isAlive id && id ∉ seen

/-- What is off a stack is alive and not on it. -/
theorem mem_offStack {heap : Heap} {seen : List TableId} {id : TableId} :
    id ∈ heap.offStack seen ↔ heap.isAlive id = true ∧ id ∉ seen := by
  have hlt : heap.isAlive id = true → id < heap.nodes.size := fun h => by
    obtain ⟨node, hnode⟩ := Option.isSome_iff_exists.1 h
    exact lt_size_of_node? hnode
  simp only [offStack, List.mem_filter, List.mem_range, Bool.and_eq_true, decide_eq_true_eq]
  exact ⟨And.right, fun h => ⟨hlt h.1, h⟩⟩

/-- A table that goes on the stack is off it no longer. -/
theorem offStack_cons (heap : Heap) (seen : List TableId) (id : TableId) :
    heap.offStack (id :: seen) = (heap.offStack seen).filter fun other => other ≠ id := by
  rw [offStack, offStack, List.filter_filter]
  exact List.filter_congr fun other _ => by grind

/-- Writing a table that is not on the stack leaves fewer tables to write below it. -/
theorem length_offStack_cons_lt {heap : Heap} {seen : List TableId} {id : TableId} {table : Table}
    (hid : id ∉ seen) (h : heap.table? id = some table) :
    (heap.offStack (id :: seen)).length < (heap.offStack seen).length := by
  have halive : heap.isAlive id = true := by
    rw [isAlive, ← Option.isSome_map (f := Node.table)]
    exact Option.isSome_of_eq_some h
  rw [offStack_cons]
  exact List.length_filter_lt_length_iff_exists.2 ⟨id, mem_offStack.2 ⟨halive, hid⟩, by simp⟩

/-! ## Texts -/

/-- A text inside a table is quoted as it is. -/
def quoted (s : String) : String :=
  "\"" ++ s ++ "\""

def keyText : Key → String
  | .text s => quoted s
  | .number x => Number.text x

/-- The text inside a table of a cell that holds no table. -/
def leafText : Cell → String
  | .text s => quoted s
  | cell => cell.flatText

def entryText (key : Key) (value : String) : String :=
  "\x7b" ++ keyText key ++ " : " ++ value ++ "\x7d"

def listText (entries : List String) : String :=
  "[" ++ String.intercalate ", " entries ++ "]"

/-- What a call has written while the tables of a stack were being written. -/
structure Written (α : Type) (seen : List TableId) where
  output : α
  /-- The stack after the call. -/
  after : List TableId
  /-- How many calls for tables were nested at most; a mark takes one too. -/
  depth : Nat
  balanced : after = seen

mutual

def writeTable (heap : Heap) (seen : List TableId) (id : TableId) : Written String seen :=
  if _hid : id ∈ seen then ⟨"<cycle>", seen, 1, rfl⟩
  else
    match _h : heap.table? id with
    | none => ⟨listText [], seen, 1, rfl⟩
    | some table =>
        let entries := heap.writeEntries (id :: seen) table.entries
        -- The table comes off the stack before its bracket is closed.
        ⟨listText entries.output, entries.after.tail, entries.depth + 1,
          by rw [entries.balanced]; rfl⟩
termination_by ((heap.offStack seen).length, 0)
decreasing_by exact Prod.Lex.left _ _ (length_offStack_cons_lt _hid _h)

def writeEntries (heap : Heap) (seen : List TableId) : List Entry → Written (List String) seen
  | [] => ⟨[], seen, 0, rfl⟩
  | (key, cell) :: rest =>
      let value := heap.writeCell seen cell
      let others := heap.writeEntries value.after rest
      ⟨entryText key value.output :: others.output, others.after, max value.depth others.depth,
        others.balanced.trans value.balanced⟩
termination_by entries => ((heap.offStack seen).length, entries.length + 2)
decreasing_by
  · exact Prod.Lex.right _ (by simp)
  · rw [value.balanced]
    exact Prod.Lex.right _ (by simp)

def writeCell (heap : Heap) (seen : List TableId) : Cell → Written String seen
  | .table id => heap.writeTable seen id
  | cell => ⟨leafText cell, seen, 0, rfl⟩
termination_by ((heap.offStack seen).length, 1)
decreasing_by exact Prod.Lex.right _ Nat.one_pos

end

/-- The text of a cell. -/
def text (heap : Heap) : Cell → String
  | .table id => (heap.writeTable [] id).output
  | cell => cell.flatText

end Heap
end CellMachine
