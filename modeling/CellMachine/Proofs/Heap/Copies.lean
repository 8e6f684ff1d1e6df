import Mathlib
import CellMachine.Machine.Action
import CellMachine.Proofs.Heap.Confinement

/-!
# New tables and copies

A new table that is filled with entries which it absorbs changes a heap in one way only: each table
gets as many holders more as there are entries that hold it.  `Heap.node?_newTable` says what is at
every place of the heap afterwards.

To copy a table is to make a new one and to set the entries of the first one in it.  That fails if
a stored key is none; `Heap.Keyed` says that there is no such key.
-/

namespace CellMachine
namespace Heap

variable {heap : Heap} {id other : TableId} {node : Node} {entries : List Entry}

/-! ## Filling a table -/

/-- To retain a cell adds a holder to what it holds. -/
theorem node?_retain (heap : Heap) (cell : Cell) (other : TableId) :
    (heap.retain cell).node? other =
      (heap.node? other).map fun node => ⟨node.holders + cell.holds other, node.table⟩ := by
  have hplain (hholds : cell.holds other = 0) (hnode : (heap.retain cell).node? other =
      heap.node? other) : (heap.retain cell).node? other =
        (heap.node? other).map fun node => ⟨node.holders + cell.holds other, node.table⟩ := by
    rw [hnode, hholds]
    simp
  -- Only a cell that holds a table counts, and only for that table.
  cases cell with
  | table id =>
      by_cases heq : other = id
      · subst heq
        cases hnode : heap.node? other with
        | none => simp [retain, Cell.table?, hold, hnode]
        | some node =>
            simp only [retain, Cell.table?, hold, hnode]
            rw [node?_put hnode, if_pos rfl, Cell.holds_of_table, if_pos rfl]
            rfl
      · refine hplain (by rw [Cell.holds_of_table, if_neg heq]) ?_
        simp only [retain, Cell.table?, hold]
        split
        · rw [node?_put ‹_›, if_neg heq]
        · rfl
  | _ => exact hplain rfl rfl

/-- An insertion that takes the place of no table changes one table and adds one holder. -/
theorem node?_insert_of_plain {key : Key} {cell : Cell} (hnode : heap.node? id = some node)
    (hplain : ∀ child, node.table.get? key ≠ some (.table child)) (other : TableId) :
    (heap.insert id key cell).node? other = (heap.node? other).map fun node =>
      ⟨node.holders + cell.holds other,
        if other = id then node.table.insert key cell else node.table⟩ := by
  have hretained := heap.node?_retain cell id
  rw [hnode, Option.map_some] at hretained
  rw [insert_of_plain hretained hplain, node?_put hretained, node?_retain]
  by_cases heq : other = id
  · subst heq
    simp [hnode]
  · simp [heq]

/-- To fill a table that absorbs the entries adds a holder for each entry that holds a table. -/
theorem node?_insertAll (hnode : heap.node? id = some node)
    (habsorbs : node.table.Absorbs entries) (other : TableId) :
    (heap.insertAll id entries).node? other = (heap.node? other).map fun node =>
      ⟨node.holders + entries.countP fun entry => entry.2 = .table other,
        if other = id then node.table.storeAll entries else node.table⟩ := by
  induction entries generalizing heap node with
  | nil => simp [insertAll, Table.storeAll]
  | cons entry entries ih =>
      have hinsert := @node?_insert_of_plain heap id node entry.1 entry.2 hnode habsorbs.1
      have hfirst := hinsert id
      rw [hnode, Option.map_some, if_pos rfl] at hfirst
      refine (ih hfirst habsorbs.2).trans ?_
      rw [hinsert, Option.map_map]
      congr 1
      funext node
      -- The first entry counts once, the others as many times as they hold the table.
      have hcount : node.holders + entry.2.holds other +
          entries.countP (fun entry => entry.2 = .table other) =
            node.holders + (entry :: entries).countP fun entry => entry.2 = .table other := by
        rw [List.countP_cons, Cell.holds]
        simp only [decide_eq_true_eq]
        omega
      by_cases heq : other = id
      · simp only [Function.comp_apply, if_pos heq, hcount]
        rfl
      · simp only [Function.comp_apply, if_neg heq, hcount]

/-! ## New tables -/

def newTable (heap : Heap) (entries : List Entry) : TableId × Heap :=
  let (id, created) := heap.create
  (id, (created.insertAll id entries).hold id)

/-- The new table has one holder besides its own entries, and every table counts the entries that
hold it. -/
theorem node?_newTable (heap : Heap) (habsorbs : Table.empty.Absorbs entries) (other : TableId) :
    (heap.newTable entries).2.node? other =
      if other = heap.nodes.size then
        some ⟨(entries.countP fun entry => entry.2 = .table other) + 1, Table.empty.storeAll entries⟩
      else (heap.node? other).map fun node =>
        ⟨node.holders + entries.countP fun entry => entry.2 = .table other, node.table⟩ := by
  have hempty : heap.create.2.node? heap.nodes.size = some ⟨0, .empty⟩ := by
    rw [node?_create, if_pos rfl]
  have hheld := (heap.create.2.insertAll heap.nodes.size entries).node?_retain
    (.table heap.nodes.size) other
  refine hheld.trans ?_
  rw [node?_insertAll hempty habsorbs, node?_create, Cell.holds_of_table]
  by_cases heq : other = heap.nodes.size
  · simp [heq]
  · simp [heq, Function.comp_def]

/-- What is alive keeps its entries, and is held by the new entries as well. -/
theorem node?_newTable_of_isAlive (habsorbs : Table.empty.Absorbs entries)
    (halive : heap.isAlive other = true) :
    (heap.newTable entries).2.table? other = heap.table? other ∧
      (heap.newTable entries).2.holders other =
        heap.holders other + entries.countP fun entry => entry.2 = .table other := by
  have hnode := heap.node?_newTable habsorbs other
  rw [if_neg (Nat.ne_of_lt (lt_size_of_isAlive halive))] at hnode
  rcases (heap.isAlive_iff other).1 halive with ⟨node, hbefore⟩
  rw [hbefore, Option.map_some] at hnode
  constructor
  · rw [table?_of_node? hnode, table?_of_node? hbefore]
  · rw [holders_of_node? hnode, holders_of_node? hbefore]

/-- The new table has the new entries. -/
theorem table?_newTable (heap : Heap) (habsorbs : Table.empty.Absorbs entries) :
    (heap.newTable entries).2.table? heap.nodes.size = some (Table.empty.storeAll entries) := by
  rw [table?, heap.node?_newTable habsorbs, if_pos rfl]
  rfl

/-- Making a table destroys none. -/
theorem follows_newTable (heap : Heap) (entries : List Entry) :
    (heap.newTable entries).2.Follows heap := by
  have hheld := (heap.create.2.insertAll heap.nodes.size entries).follows_retain
    (.table heap.nodes.size)
  exact (hheld.trans (follows_insertAll ..)).trans heap.follows_create

/-- A new table takes the next place in the heap. -/
theorem size_lt_newTable (heap : Heap) (entries : List Entry) :
    heap.nodes.size < (heap.newTable entries).2.nodes.size := by
  have hcreated : heap.create.2.nodes.size = heap.nodes.size + 1 := Array.size_push ..
  have hfilled := (follows_insertAll heap.create.2 heap.nodes.size entries).size_le
  have hheld := (follows_retain (heap.create.2.insertAll heap.nodes.size entries)
    (.table heap.nodes.size)).size_le
  exact Nat.lt_of_lt_of_le (hcreated ▸ Nat.lt_succ_self _) (hfilled.trans hheld)

variable {roots : TableId → Nat}

/-- What supplies entries supplies them when a table was created as well. -/
theorem Counted.newTable (h : heap.Counted roots none) (hsupplies : heap.Supplies roots entries) :
    (heap.newTable entries).2.Counted
      (fun other => roots other + (Cell.table heap.nodes.size).holds other) none := by
  have hcreated : heap.create.2.Supplies roots entries := by
    refine hsupplies.imp_right ?_
    rintro ⟨source, table, hroots, htable, hsub⟩
    refine ⟨source, table, hroots, ?_, hsub⟩
    have hlt := lt_size_of_isAlive (isAlive_of_table? htable)
    rw [table?, node?_create, if_neg (Nat.ne_of_lt hlt)]
    exact htable
  exact (h.create.insertAll hcreated).hold_fresh

/-- An entry of a living table holds no table that does not exist yet. -/
theorem Counted.countP_size_eq_zero {table : Table} (h : heap.Counted roots none)
    (htable : heap.table? id = some table) :
    (table.entries.countP fun entry => entry.2 = .table heap.nodes.size) = 0 := by
  rw [List.countP_eq_zero]
  intro entry hentry hchild
  have hmem : heap.nodes.size ∈ table.children :=
    List.mem_filterMap.2 ⟨entry, hentry, by rw [of_decide_eq_true hchild]; rfl⟩
  rcases exists_node?_of_holders (h.holders_pos_of_entry htable hmem) with ⟨node, hnode⟩
  exact Nat.lt_irrefl _ (lt_size_of_node? hnode)

/-! ## Setting and copying -/

def set (heap : Heap) (id : TableId) (key value : Cell) : Except Fault Heap := do
  return heap.insert id (← key.key) value

/-- Makes a new table and sets the entries of a table in it, one after the other. -/
def copy (heap : Heap) (id : TableId) : Except Fault (TableId × Heap) := do
  let (copy, created) := heap.create
  let filled ← (heap.entries id).foldlM
    (fun heap entry => heap.set copy entry.1.toCell entry.2) created
  return (copy, filled.hold copy)

/-- A cell that can be set under another one is stored under the key that this is. -/
theorem set_eq_ok {key value : Cell} {after : Heap} (h : heap.set id key value = .ok after) :
    ∃ k, key.key = .ok k ∧ after = heap.insert id k value := by
  rw [set] at h
  cases hkey : key.key with
  | error fault =>
      rw [hkey] at h
      cases h
  | ok k =>
      rw [hkey] at h
      cases h
      exact ⟨k, rfl, rfl⟩

/-- What a cell is as a key is a key as a cell. -/
theorem key_toCell {cell : Cell} {key : Key} (h : cell.key = .ok key) :
    key.toCell.key = .ok key := by
  have haccepted : cell.key? = .ok key := by
    rw [Cell.key] at h
    split at h
    · exact Except.ok.inj h ▸ ‹_›
    · cases h
  exact (Key.same_self_of_key? haccepted).1 ▸ h

/-- Whether the cell of every stored key is that key. -/
def Keyed (heap : Heap) : Prop :=
  ∀ id table, heap.table? id = some table → ∀ entry ∈ table.entries, entry.1.toCell.key = .ok entry.1

theorem Keyed.key_eq (h : heap.Keyed) (id : TableId) :
    ∀ entry ∈ heap.entries id, entry.1.toCell.key = .ok entry.1 := by
  intro entry hentry
  rw [Heap.entries] at hentry
  split at hentry
  · exact h id _ ‹_› entry hentry
  · cases hentry

/-- Keys that are keys can be set. -/
theorem copy_eq (h : heap.Keyed) (id : TableId) :
    heap.copy id = .ok (heap.newTable (heap.entries id)) := by
  have hset (copy : TableId) {entries : List Entry}
      (hkeys : ∀ entry ∈ entries, entry.1.toCell.key = .ok entry.1) (heap : Heap) :
      entries.foldlM (fun heap entry => heap.set copy entry.1.toCell entry.2) heap =
        .ok (heap.insertAll copy entries) := by
    induction entries generalizing heap with
    | nil => rfl
    | cons entry entries ih =>
        have hfirst : heap.set copy entry.1.toCell entry.2 =
            .ok (heap.insert copy entry.1 entry.2) := by
          rw [set, hkeys entry (List.mem_cons_self ..)]
          rfl
        rw [List.foldlM_cons, hfirst]
        exact ih (fun other hother => hkeys other (List.mem_cons_of_mem _ hother)) _
  rw [copy]
  simp only [hset _ (h.key_eq id)]
  exact rfl

/-- The entries of a living table can be stored in a new one, which is the same table then. -/
theorem Counted.absorbs_entries {table : Table} (h : heap.Counted roots none)
    (htable : heap.table? id = some table) :
    Table.empty.Absorbs table.entries ∧ Table.empty.storeAll table.entries = table := by
  rcases Option.map_eq_some_iff.1 htable with ⟨node, hnode, rfl⟩
  have hwellFormed := h.wellFormed id node hnode
  exact ⟨Table.empty_wellFormed.absorbs_news (Table.news_empty hwellFormed.distinct),
    hwellFormed.storeAll_entries⟩

/-- A new table is keyed if its entries are. -/
theorem Keyed.newTable (h : heap.Keyed) (habsorbs : Table.empty.Absorbs entries)
    (hkeys : ∀ entry ∈ (Table.empty.storeAll entries).entries, entry.1.toCell.key = .ok entry.1) :
    (heap.newTable entries).2.Keyed := by
  intro other table htable entry hentry
  by_cases heq : other = heap.nodes.size
  · rw [heq, heap.table?_newTable habsorbs] at htable
    cases htable
    exact hkeys entry hentry
  · rw [table?, heap.node?_newTable habsorbs, if_neg heq, Option.map_map] at htable
    exact h other table htable entry hentry

/-- Storing under a key that is one keeps a heap keyed. -/
theorem Keyed.insert (h : heap.Keyed) (hcounted : heap.Counted roots none) {table : Table}
    (htable : heap.table? id = some table) {key : Key} (hkey : key.toCell.key = .ok key)
    (value : Cell) : (heap.insert id key value).Keyed := by
  intro other after hafter entry hentry
  by_cases heq : other = id
  · subst heq
    rw [table?_insert_self htable (isAlive_of_table? hafter)] at hafter
    cases hafter
    rcases Option.map_eq_some_iff.1 htable with ⟨node, hnode, rfl⟩
    -- The keys are those from before, and the new one perhaps.
    rcases (hcounted.wellFormed other node hnode).mem_keys_insert (List.mem_map_of_mem hentry) with
      hnew | hmem
    · rw [hnew]
      exact hkey
    · rcases List.mem_map.1 hmem with ⟨stored, hstored, hsame⟩
      rw [← hsame]
      exact h other node.table htable stored hstored
  · exact h other after (table?_of_insert heq hafter) entry hentry

end Heap
end CellMachine
