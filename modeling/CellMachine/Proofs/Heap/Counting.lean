import Mathlib
import CellMachine.Heap.Basic
import CellMachine.Proofs.Table.Entries

/-!
# Counting

`Heap.Counted` says that the counts of a heap are right: a table counts the entries that hold it and
the holders outside of the heap, the *roots*, whose number is given for each table.  Each operation
of the heap changes the counts and the numbers of roots together, and there is one lemma for each:

* to hold a table adds a root, to release it takes a root away;
* to insert a cell adds an entry that holds it and makes a root of the old entry, which is released;
* to create a table adds one that has no holder yet, and `Counted` names it.

While tables are destroyed, the pending holds count as roots, so the loop that releases them keeps
the same statement with fewer roots.
-/

namespace CellMachine

/-! ## Entries that hold a table -/

def Cell.holds (cell : Cell) (id : TableId) : Nat :=
  if cell = .table id then 1 else 0

/-- A cell holds its own table once and no other one. -/
theorem Cell.holds_of_table (id other : TableId) :
    (Cell.table id).holds other = if other = id then 1 else 0 := by
  rw [holds]
  simp only [table.injEq, eq_comm]

/-- One more table in a list is one more cell that holds it. -/
theorem Cell.count_cons (id other : TableId) (ids : List TableId) :
    (id :: ids).count other = ids.count other + (Cell.table id).holds other := by
  rw [List.count_cons, holds]
  simp only [beq_iff_eq, table.injEq]

/-- Counting the table of a cell as a list gives how often the cell holds it. -/
theorem Cell.count_toList_table? (cell : Cell) (id : TableId) :
    cell.table?.toList.count id = cell.holds id := by
  cases cell with
  | table other => exact (count_cons other id []).trans (Nat.zero_add _)
  | _ => rfl

namespace Table

variable {table : Table}

theorem empty_children : empty.children = [] := by
  rw [children, empty_entries]
  rfl

/-- The entries before, at and after one entry that hold a table. -/
theorem count_children {before after : List Entry} {key : Key} {cell : Cell}
    (h : table.entries = before ++ (key, cell) :: after) (id : TableId) :
    table.children.count id =
      ((before ++ after).filterMap fun entry => entry.2.table?).count id + cell.holds id := by
  have hcons : ((key, cell) :: after).filterMap (fun entry => entry.2.table?) =
      cell.table?.toList ++ after.filterMap fun entry => entry.2.table? := by
    rw [List.filterMap_cons]
    cases cell.table? <;> rfl
  rw [children, h, List.filterMap_append, List.filterMap_append, hcons, List.count_append,
    List.count_append, List.count_append, cell.count_toList_table?]
  omega

/-- An insertion adds the new cell to what the entries hold and takes the old one away. -/
theorem WellFormed.count_children_insert (h : table.WellFormed) (key : Key) (cell : Cell)
    (id : TableId) :
    (table.insert key cell).children.count id +
        ((table.get? key).map fun old => old.holds id).getD 0 =
      table.children.count id + cell.holds id := by
  rcases h.insert_cases key cell with ⟨hget, before, after, hold, hnew⟩ |
    ⟨old, stored, before, after, hget, -, hold, hnew⟩
  · rw [hget, count_children hnew, children, hold]
    rfl
  · rw [hget, count_children hnew, count_children hold]
    exact Nat.add_right_comm ..

/-- What is stored under a key is an entry. -/
theorem mem_children_of_get? {key : Key} {id : TableId} (h : table.get? key = some (.table id)) :
    id ∈ table.children := by
  rcases Chain.exists_of_get? h with ⟨stored, newer, older, hchain, -⟩
  refine List.mem_filterMap.2 ⟨(stored, .table id), ?_, rfl⟩
  exact (mem_entries_iff table _).2 ⟨key.chain, by rw [hchain]; simp⟩

end Table

namespace Heap

variable {heap : Heap} {id : TableId} {node : Node}

def placeHolding (id : TableId) : Option Node → Nat
  | some node => node.table.children.count id
  | none => 0

@[simp]
theorem placeHolding_some (id : TableId) (holders : Nat) (table : Table) :
    placeHolding id (some ⟨holders, table⟩) = table.children.count id :=
  rfl

/-- How many entries of living tables hold a table. -/
def entriesHolding (heap : Heap) (id : TableId) : Nat :=
  (heap.nodes.toList.map (placeHolding id)).sum

/-! ## Places of the heap -/

/-- What is at the place of a table after it was replaced, and at all other places. -/
theorem node?_put (h : heap.node? id = some node) (place : Option Node) (other : TableId) :
    (heap.put id place).node? other = if other = id then place else heap.node? other := by
  have hid := lt_size_of_node? h
  rw [node?, put, Array.getElem?_setIfInBounds]
  by_cases heq : other = id
  · rw [if_pos heq, if_pos heq.symm, if_pos hid, Option.join_some]
  · rw [if_neg heq, if_neg (Ne.symm heq), node?]

/-- Another place of the heap changes the entries by what is there before and after. -/
theorem entriesHolding_put (h : heap.node? id = some node) (place : Option Node)
    (other : TableId) :
    (heap.put id place).entriesHolding other + node.table.children.count other =
      heap.entriesHolding other + placeHolding other place := by
  have hid := lt_size_of_node? h
  have hplace : heap.nodes.toList[id] = some node := by
    rw [node?, Array.getElem?_eq_getElem hid, Option.join_some] at h
    exact h
  -- The sums are split at the place, and both agree before and behind it.
  have hsplit := List.take_append_drop id heap.nodes.toList
  rw [List.drop_eq_getElem_cons hid, hplace] at hsplit
  have hput : (heap.put id place).nodes.toList = heap.nodes.toList.take id ++
      place :: heap.nodes.toList.drop (id + 1) := by
    rw [put, Array.toList_setIfInBounds, List.set_eq_take_append_cons_drop, Array.length_toList,
      if_pos hid]
  rw [entriesHolding, entriesHolding, hput, congrArg (List.map _) hsplit.symm]
  simp only [List.map_append, List.map_cons, List.sum_append, List.sum_cons]
  rw [placeHolding_some]
  omega

/-- The entries that are counted for a table are those of its parents. -/
theorem entriesHolding_pos_iff :
    0 < heap.entriesHolding id ↔
      ∃ parent table, heap.table? parent = some table ∧ id ∈ table.children := by
  constructor
  · intro h
    rcases List.sum_pos_iff_exists_pos_nat.1 h with ⟨count, hcount, hpos⟩
    rcases List.mem_map.1 hcount with ⟨place, hplace, rfl⟩
    cases place with
    | none => exact absurd hpos (Nat.lt_irrefl 0)
    | some node =>
        rcases List.mem_iff_getElem.1 hplace with ⟨parent, hparent, hget⟩
        refine ⟨parent, node.table, ?_, List.count_pos_iff.1 hpos⟩
        rw [table?, node?, Array.getElem?_eq_getElem hparent, Option.join_some]
        exact congrArg (Option.map Node.table) hget
  · rintro ⟨parent, table, htable, hmem⟩
    rcases Option.map_eq_some_iff.1 htable with ⟨node, hnode, rfl⟩
    have hput := entriesHolding_put hnode none id
    have hpos := List.count_pos_iff.2 hmem
    rw [placeHolding] at hput
    omega

/-! ## Right counts -/

/-- Whether the counts of a heap are right, for the number of roots of each table.  All living
tables have a holder but the fresh one, which was just created. -/
structure Counted (heap : Heap) (roots : TableId → Nat) (fresh : Option TableId) : Prop where
  wellFormed : ∀ id node, heap.node? id = some node → node.table.WellFormed
  balanced : ∀ id, heap.holders id = heap.entriesHolding id + roots id
  held : ∀ id node, heap.node? id = some node → (node.holders = 0 ↔ fresh = some id)
  fresh_alive : ∀ id, fresh = some id → heap.node? id ≠ none

def placeHolders (place : Option Node) : Nat :=
  (place.map Node.holders).getD 0

@[simp]
theorem placeHolders_some (holders : Nat) (table : Table) :
    placeHolders (some ⟨holders, table⟩) = holders :=
  rfl

theorem holders_eq (heap : Heap) (id : TableId) :
    heap.holders id = placeHolders (heap.node? id) := by
  rw [holders]
  cases heap.node? id <;> rfl

/-- The count of holders stands beside the table. -/
theorem holders_of_node? (h : heap.node? id = some node) : heap.holders id = node.holders := by
  rw [holders_eq, h]
  rfl

/-- What counts holders is alive. -/
theorem exists_node?_of_holders (h : 0 < heap.holders id) : ∃ node, heap.node? id = some node := by
  rw [holders_eq] at h
  cases hnode : heap.node? id with
  | none =>
      rw [hnode] at h
      exact absurd h (Nat.lt_irrefl 0)
  | some node => exact ⟨node, rfl⟩

variable {roots roots' : TableId → Nat} {fresh fresh' : Option TableId}

/-- Only the number of roots of each table matters. -/
theorem Counted.congr (h : heap.Counted roots fresh) (heq : ∀ id, roots' id = roots id) :
    heap.Counted roots' fresh :=
  funext heq ▸ h

/-- What a root holds has a holder. -/
theorem Counted.holders_pos_of_root (h : heap.Counted roots fresh) (hid : 0 < roots id) :
    0 < heap.holders id :=
  h.balanced id ▸ Nat.lt_of_lt_of_le hid (Nat.le_add_left ..)

/-- What an entry of a living table holds has a holder. -/
theorem Counted.holders_pos_of_entry (h : heap.Counted roots fresh) {parent : TableId}
    {table : Table} (htable : heap.table? parent = some table) (hmem : id ∈ table.children) :
    0 < heap.holders id := by
  have hpos := entriesHolding_pos_iff.2 ⟨parent, table, htable, hmem⟩
  exact h.balanced id ▸ Nat.lt_of_lt_of_le hpos (Nat.le_add_right ..)

/-- What has holders is not fresh. -/
theorem Counted.fresh_ne (h : heap.Counted roots fresh) (hid : 0 < heap.holders id) :
    fresh ≠ some id := by
  rcases exists_node?_of_holders hid with ⟨node, hnode⟩
  rw [holders_of_node? hnode] at hid
  exact fun heq => Nat.ne_of_gt hid ((h.held id node hnode).2 heq)

/-- Another place of the heap keeps the counts right if the holders and the entries that it adds are
those that the roots lose. -/
theorem Counted.put (h : heap.Counted roots fresh) (hnode : heap.node? id = some node)
    {place : Option Node}
    (hplace : ∀ node', place = some node' →
      node'.table.WellFormed ∧ (node'.holders = 0 ↔ fresh' = some id))
    (hfresh : ∀ other, fresh' = some other →
      (other = id → place ≠ none) ∧ (other ≠ id → fresh = some other))
    (hheld : ∀ other, fresh = some other → other ≠ id → fresh' = some other)
    (hroots : ∀ other,
      roots' other + placeHolding other place + (if other = id then node.holders else 0) =
        roots other + node.table.children.count other +
          (if other = id then placeHolders place else 0)) :
    (heap.put id place).Counted roots' fresh' := by
  -- Well-formed tables, balanced counts, which tables are held, and the fresh table.
  refine ⟨?_, ?_, ?_, ?_⟩
  · intro other node' hnode'
    rw [node?_put hnode] at hnode'
    split at hnode'
    · exact (hplace node' hnode').1
    · exact h.wellFormed other node' hnode'
  · intro other
    have hbalanced := h.balanced other
    have hentries := entriesHolding_put hnode place other
    have hother := hroots other
    rw [holders_eq, node?_put hnode]
    by_cases heq : other = id
    · subst heq
      rw [holders_of_node? hnode] at hbalanced
      simp only [if_pos] at hother ⊢
      omega
    · rw [holders_eq] at hbalanced
      simp only [if_neg heq] at hother ⊢
      omega
  · intro other node' hnode'
    rw [node?_put hnode] at hnode'
    split at hnode'
    · rename_i heq
      exact heq ▸ (hplace node' hnode').2
    · rename_i hne
      rw [h.held other node' hnode']
      exact ⟨fun heq => hheld other heq hne, fun heq => (hfresh other heq).2 hne⟩
  · intro other heq
    rw [node?_put hnode]
    split
    · rename_i hid
      exact (hfresh other heq).1 hid
    · rename_i hne
      exact h.fresh_alive other ((hfresh other heq).2 hne)

/-- A table that stays alive, with other holders or other entries. -/
theorem Counted.replace (h : heap.Counted roots fresh) (hnode : heap.node? id = some node)
    {holders : Nat} {table : Table} (hwellFormed : table.WellFormed)
    (hheld : holders = 0 ↔ fresh = some id)
    (hroots : ∀ other,
      roots' other + table.children.count other + (if other = id then node.holders else 0) =
        roots other + node.table.children.count other + (if other = id then holders else 0)) :
    (heap.put id (some ⟨holders, table⟩)).Counted roots' fresh := by
  refine h.put hnode ?_ ?_ ?_ hroots
  · intro node' heq
    cases heq
    exact ⟨hwellFormed, hheld⟩
  · intro other heq
    exact ⟨fun _ => nofun, fun _ => heq⟩
  · intro other heq _
    exact heq

/-! ## Holding and releasing -/

/-- One more holder of a table is one more root of it. -/
theorem Counted.hold (h : heap.Counted roots fresh) (hid : 0 < heap.holders id) :
    (heap.hold id).Counted (fun other => roots other + (Cell.table id).holds other) fresh := by
  rcases exists_node?_of_holders hid with ⟨node, hnode⟩
  have hheld : node.holders + 1 = 0 ↔ fresh = some id :=
    iff_of_false (Nat.succ_ne_zero _) (h.fresh_ne hid)
  simp only [Heap.hold, hnode]
  refine h.replace hnode (h.wellFormed id node hnode) hheld ?_
  intro other
  rw [Cell.holds_of_table]
  split <;> omega

/-- The first holder of a fresh table makes it like all others. -/
theorem Counted.hold_fresh (h : heap.Counted roots (some id)) :
    (heap.hold id).Counted (fun other => roots other + (Cell.table id).holds other) none := by
  rcases Option.ne_none_iff_exists'.1 (h.fresh_alive id rfl) with ⟨node, hnode⟩
  simp only [Heap.hold, hnode]
  refine h.put hnode ?_ nofun (fun other heq hne => absurd (Option.some.inj heq).symm hne) ?_
  · rintro _ ⟨⟩
    exact ⟨h.wellFormed id node hnode, iff_of_false (Nat.succ_ne_zero _) nofun⟩
  · intro other
    rw [placeHolding_some, placeHolders_some, Cell.holds_of_table]
    split <;> omega

/-- A cell is retained if the table that it holds has a holder. -/
theorem Counted.retain (h : heap.Counted roots fresh) {cell : Cell}
    (hcell : ∀ id, cell = .table id → 0 < heap.holders id) :
    (heap.retain cell).Counted (fun other => roots other + cell.holds other) fresh := by
  cases cell with
  | table id => exact h.hold (hcell id rfl)
  | _ => exact h

/-- The last hold on a table is given back: the table is destroyed, and what its entries hold is
held by roots instead. -/
theorem Counted.destroy
    (h : heap.Counted (fun other => roots other + (Cell.table id).holds other) fresh)
    (hnode : heap.node? id = some node) (hlast : node.holders ≤ 1) :
    (heap.put id none).Counted (fun other => roots other + node.table.children.count other)
      fresh := by
  have hbalanced := h.balanced id
  rw [holders_of_node? hnode, Cell.holds_of_table, if_pos rfl] at hbalanced
  have hne : fresh ≠ some id := by
    apply h.fresh_ne
    rw [holders_of_node? hnode]
    omega
  refine h.put hnode nofun ?_ (fun _ heq _ => heq) ?_
  · intro other heq
    refine ⟨?_, fun _ => heq⟩
    rintro rfl
    exact absurd heq hne
  · intro other
    rw [placeHolding, placeHolders, Option.map_none, Option.getD_none, Cell.holds_of_table]
    split
    · rename_i heq
      rw [heq]
      omega
    · omega

/-- A hold on a table is given back, and others are left. -/
theorem Counted.lessen
    (h : heap.Counted (fun other => roots other + (Cell.table id).holds other) fresh)
    (hnode : heap.node? id = some node) (hmore : ¬node.holders ≤ 1) :
    (heap.put id (some { node with holders := node.holders - 1 })).Counted roots fresh := by
  have hne : fresh ≠ some id := by
    apply h.fresh_ne
    rw [holders_of_node? hnode]
    omega
  refine h.replace hnode (h.wellFormed id node hnode) (iff_of_false (by omega) hne) ?_
  intro other
  rw [Cell.holds_of_table]
  split <;> omega

/-- The pending holds are roots until they are released. -/
theorem Counted.releaseAll {pending : List TableId}
    (h : heap.Counted (fun id => roots id + pending.count id) fresh) :
    (heap.releaseAll pending).Counted roots fresh := by
  -- The first pending hold is given back, the others are roots as before.
  have hfirst {heap : Heap} {id : TableId} {pending : List TableId}
      (h : heap.Counted (fun other => roots other + (id :: pending).count other) fresh) :
      heap.Counted (fun other => roots other + pending.count other + (Cell.table id).holds other)
        fresh := by
    refine h.congr ?_
    intro other
    rw [Cell.count_cons, Nat.add_assoc]
  fun_induction Heap.releaseAll heap pending with
  | case1 heap => exact h
  | case2 heap id pending hnone ih =>
      -- What is held is alive, so this case does not come about.
      have hheld : 0 < heap.holders id := by
        apply h.holders_pos_of_root
        rw [List.count_cons_self]
        omega
      rcases exists_node?_of_holders hheld with ⟨node, hnode⟩
      rw [hnone] at hnode
      cases hnode
  | case3 heap id pending node hnode hlast ih =>
      refine ih (((hfirst h).destroy hnode hlast).congr ?_)
      intro other
      rw [List.count_append]
      omega
  | case4 heap id pending node hnode hmore ih => exact ih ((hfirst h).lessen hnode hmore)

/-- The roots that a cell accounted for are gone when the cell is let go of. -/
theorem Counted.release {cell : Cell}
    (h : heap.Counted (fun id => roots id + cell.holds id) fresh) :
    (heap.release cell).Counted roots fresh := by
  cases cell with
  | table id =>
      refine releaseAll (h.congr fun other => ?_)
      rw [Cell.count_cons, List.count_nil, Nat.zero_add]
  | _ => exact h

/-! ## Entries -/

theorem table?_of_node? (h : heap.node? id = some node) : heap.table? id = some node.table := by
  rw [table?, h, Option.map_some]

/-- Another count of holders changes no table. -/
theorem table?_put_holders (h : heap.node? id = some node) (holders : Nat) (other : TableId) :
    (heap.put id (some { node with holders := holders })).table? other = heap.table? other := by
  rw [table?, node?_put h]
  split
  · rename_i heq
    rw [heq, table?_of_node? h]
    rfl
  · rfl

/-- To retain a cell changes no table. -/
theorem table?_retain (heap : Heap) (cell : Cell) (id : TableId) :
    (heap.retain cell).table? id = heap.table? id := by
  rw [retain]
  split
  · rw [hold]
    split
    · exact table?_put_holders ‹_› _ id
    · rfl
  · rfl

/-- A cell that is held is stored in a living table. -/
theorem Counted.insert (h : heap.Counted roots fresh) (hid : heap.node? id ≠ none) (key : Key)
    {cell : Cell} (hcell : ∀ id, cell = .table id → 0 < heap.holders id) :
    (heap.insert id key cell).Counted roots fresh := by
  have hretained := h.retain hcell
  have htable := heap.table?_retain cell id
  rcases Option.ne_none_iff_exists'.1 hid with ⟨node, hnode⟩
  rw [table?, table?, hnode, Option.map_some, Option.map_eq_some_iff] at htable
  rcases htable with ⟨⟨holders, table⟩, hnode', -⟩
  have hwellFormed : table.WellFormed := hretained.wellFormed id _ hnode'
  have hheld := hretained.held id _ hnode'
  have hcount := hwellFormed.count_children_insert key cell
  simp only [Heap.insert, hnode', Table.exchange_eq]
  -- The entry that is replaced becomes a root before it is released.
  have hput : ((heap.retain cell).put id (some ⟨holders, table.insert key cell⟩)).Counted
      (fun other => roots other + ((table.get? key).map fun old => old.holds other).getD 0)
      fresh := by
    refine hretained.replace hnode' (hwellFormed.insert key cell) hheld ?_
    intro other
    have hother := hcount other
    simp only
    omega
  cases hget : table.get? key with
  | none =>
      rw [hget] at hput
      exact hput
  | some old =>
      rw [hget] at hput
      exact hput.release

/-! ## Creation -/

/-- Without tables there is nothing to count. -/
theorem counted_empty : empty.Counted (fun _ => 0) none := by
  have hnone (id : TableId) : empty.node? id = none := rfl
  refine ⟨?_, fun _ => rfl, ?_, nofun⟩
  · intro id node hnode
    rw [hnone] at hnode
    cases hnode
  · intro id node hnode
    rw [hnone] at hnode
    cases hnode

theorem node?_size (heap : Heap) : heap.node? heap.nodes.size = none := by
  rw [node?, Array.getElem?_eq_none (Nat.le_refl _)]
  rfl

/-- A new table has no holder yet and stands at the end. -/
theorem node?_create (heap : Heap) (id : TableId) :
    heap.create.2.node? id =
      if id = heap.nodes.size then some ⟨0, Table.empty⟩ else heap.node? id := by
  rw [node?, create, Array.getElem?_push]
  split <;> rfl

/-- A new table is fresh. -/
theorem Counted.create (h : heap.Counted roots none) :
    heap.create.2.Counted roots (some heap.create.1) := by
  refine ⟨?_, ?_, ?_, ?_⟩
  · intro id node hnode
    rw [node?_create] at hnode
    split at hnode
    · cases hnode
      exact Table.empty_wellFormed
    · exact h.wellFormed id node hnode
  · intro id
    -- An empty table has no entries that could hold anything.
    have hentries : heap.create.2.entriesHolding id = heap.entriesHolding id := by
      rw [entriesHolding, Heap.create, Array.toList_push, List.map_append, List.sum_append]
      simp [Table.empty_children, entriesHolding]
    rw [hentries, ← h.balanced, holders_eq, holders_eq, node?_create]
    split
    · rename_i heq
      rw [heq, heap.node?_size]
      rfl
    · rfl
  · intro id node hnode
    rw [node?_create] at hnode
    split at hnode
    · rename_i heq
      cases hnode
      exact iff_of_true rfl (congrArg some heq.symm)
    · rename_i hne
      exact (h.held id node hnode).trans
        (iff_of_false nofun fun heq => hne (Option.some.inj heq).symm)
  · intro id heq
    have hid : id = heap.nodes.size := (Option.some.inj heq).symm
    rw [node?_create, if_pos hid]
    exact nofun

end Heap
end CellMachine
