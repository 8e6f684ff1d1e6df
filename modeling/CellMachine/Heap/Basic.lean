import CellMachine.Table

/-!
# Heap — counted tables

Tables live in a heap and are held by identity.  The heap counts, for each table, how many holders
it has: cells of the stack, the return register, entries of other tables, and whoever else retains
it.  When the last holder lets go, the table is destroyed, and what its entries held is let go as
well.

Releasing works off a list of pending holds, so a chain of any length is released in a loop and not
in nested calls.  Identities are never given out twice.  Tables on a cycle hold each other and are
never destroyed.
-/

namespace CellMachine

/-- A living table with the count of its holders. -/
structure Node where
  holders : Nat
  table : Table

/-- The tables that were ever created; a destroyed one leaves an empty place. -/
structure Heap where
  nodes : Array (Option Node)

namespace Heap

/-! ## Reading -/

def empty : Heap := ⟨#[]⟩

def node? (heap : Heap) (id : TableId) : Option Node :=
  heap.nodes[id]?.join

def table? (heap : Heap) (id : TableId) : Option Table :=
  (heap.node? id).map Node.table

/-- The count of holders of a table; a destroyed one has none. -/
def holders (heap : Heap) (id : TableId) : Nat :=
  match heap.node? id with
  | some node => node.holders
  | none => 0

def isAlive (heap : Heap) (id : TableId) : Bool :=
  (heap.node? id).isSome

def aliveCount (heap : Heap) : Nat :=
  heap.nodes.countP Option.isSome

/-! ## Creating and counting -/

def put (heap : Heap) (id : TableId) (node : Option Node) : Heap :=
  ⟨heap.nodes.setIfInBounds id node⟩

/-- Creates an empty table that has no holder yet. -/
def create (heap : Heap) : TableId × Heap :=
  (heap.nodes.size, ⟨heap.nodes.push (some ⟨0, Table.empty⟩)⟩)

def hold (heap : Heap) (id : TableId) : Heap :=
  match heap.node? id with
  | some node => heap.put id (some { node with holders := node.holders + 1 })
  | none => heap

/-- Counts one more holder of what a cell holds. -/
def retain (heap : Heap) (cell : Cell) : Heap :=
  match cell.table? with
  | some id => heap.hold id
  | none => heap

/-! ## Releasing -/

/-- A living table has a place in the heap. -/
theorem lt_size_of_node? {heap : Heap} {id : TableId} {node : Node}
    (h : heap.node? id = some node) : id < heap.nodes.size := by
  apply Classical.byContradiction
  intro hid
  simp [node?, Array.getElem?_eq_none (Nat.le_of_not_lt hid)] at h

theorem isSome_nodes_of_node? {heap : Heap} {id : TableId} {node : Node}
    (h : heap.node? id = some node) (hid : id < heap.nodes.size) : heap.nodes[id].isSome := by
  rw [node?, Array.getElem?_eq_getElem hid] at h
  cases hn : heap.nodes[id] with
  | none => simp [hn] at h
  | some _ => rfl

theorem aliveCount_pos {heap : Heap} {id : TableId} {node : Node}
    (h : heap.node? id = some node) : 0 < heap.aliveCount := by
  have hid := lt_size_of_node? h
  exact Array.countP_pos_iff.2
    ⟨heap.nodes[id], Array.getElem_mem hid, isSome_nodes_of_node? h hid⟩

/-- Replacing a living table takes it out of the count and puts the new one in, if there is one. -/
theorem aliveCount_put {heap : Heap} {id : TableId} {node : Node} (place : Option Node)
    (h : heap.node? id = some node) :
    (heap.put id place).aliveCount = heap.aliveCount - 1 + if place.isSome then 1 else 0 := by
  have hid := lt_size_of_node? h
  rw [aliveCount, put, Array.setIfInBounds_def, dif_pos hid, Array.countP_set hid,
    if_pos (isSome_nodes_of_node? h hid), aliveCount]

/-- Destroying a living table makes them fewer: this is why a release comes to an end. -/
theorem aliveCount_put_none_lt {heap : Heap} {id : TableId} {node : Node}
    (h : heap.node? id = some node) : (heap.put id none).aliveCount < heap.aliveCount := by
  rw [aliveCount_put none h, if_neg (by decide)]
  exact Nat.sub_lt (aliveCount_pos h) Nat.one_pos

/-- Replacing a living table by another one keeps their count. -/
theorem aliveCount_put_some {heap : Heap} {id : TableId} {node node' : Node}
    (h : heap.node? id = some node) :
    (heap.put id (some node')).aliveCount = heap.aliveCount := by
  rw [aliveCount_put (some node') h, if_pos (Option.isSome_some)]
  exact Nat.sub_add_cancel (aliveCount_pos h)

/-- Lets go of the pending holds one by one.  A table that loses its last holder is destroyed, and
the holds of its entries become pending. -/
def releaseAll (heap : Heap) : List TableId → Heap
  | [] => heap
  | id :: pending =>
      match _h : heap.node? id with
      | none => heap.releaseAll pending
      | some node =>
          if node.holders ≤ 1 then (heap.put id none).releaseAll (node.table.children ++ pending)
          else
            (heap.put id (some { node with holders := node.holders - 1 })).releaseAll pending
termination_by pending => (heap.aliveCount, pending.length)
decreasing_by
  · exact Prod.Lex.right _ (by simp)
  · exact Prod.Lex.left _ _ (aliveCount_put_none_lt _h)
  · rw [aliveCount_put_some _h]
    exact Prod.Lex.right _ (by simp)

def release (heap : Heap) (cell : Cell) : Heap :=
  match cell.table? with
  | some id => heap.releaseAll [id]
  | none => heap

/-! ## Entries -/

def get? (heap : Heap) (id : TableId) (key : Key) : Option Cell :=
  (heap.table? id).bind fun table => table.get? key

/-- Stores a cell under a key of a table.  The new cell is retained before the old one is let go
of. -/
def insert (heap : Heap) (id : TableId) (key : Key) (cell : Cell) : Heap :=
  let heap := heap.retain cell
  match heap.node? id with
  | none => heap
  | some node =>
      let (old, table) := node.table.exchange key cell
      let heap := heap.put id (some { node with table := table })
      match old with
      | some old => heap.release old
      | none => heap

def insertAll (heap : Heap) (id : TableId) (entries : List Entry) : Heap :=
  entries.foldl (fun heap entry => heap.insert id entry.1 entry.2) heap

def entries (heap : Heap) (id : TableId) : List Entry :=
  match heap.table? id with
  | some table => table.entries
  | none => []

def size (heap : Heap) (id : TableId) : Nat :=
  match heap.table? id with
  | some table => table.size
  | none => 0

end Heap
end CellMachine
