import Mathlib
import CellMachine.Proofs.Heap.Counting

/-!
# Survival

What a heap keeps.  No identity is given out twice, so a destroyed table stays destroyed, whatever
else happens: `Heap.Follows`.  And to release holds changes no table that survives, so the entries
of a table that is held can be stored one after the other in another table: `Counted.insertAll`.
-/

namespace CellMachine
namespace Heap

variable {heap before after : Heap} {id other : TableId} {node : Node}

/-! ## Destroyed tables -/

/-- Whether a heap can come after another one: what was destroyed stays destroyed. -/
structure Follows (after before : Heap) : Prop where
  size_le : before.nodes.size ≤ after.nodes.size
  gone : ∀ id, id < before.nodes.size → before.node? id = none → after.node? id = none

theorem Follows.refl (heap : Heap) : heap.Follows heap :=
  ⟨Nat.le_refl _, fun _ _ h => h⟩

/-- One heap comes after another one by way of a third. -/
theorem Follows.trans {between : Heap} (h : after.Follows between)
    (h' : between.Follows before) : after.Follows before :=
  ⟨Nat.le_trans h'.size_le h.size_le,
    fun id hid hgone => h.gone id (Nat.lt_of_lt_of_le hid h'.size_le) (h'.gone id hid hgone)⟩

/-- Replacing a living table by anything brings no destroyed one back. -/
theorem follows_put (h : heap.node? id = some node) (place : Option Node) :
    (heap.put id place).Follows heap := by
  refine ⟨Nat.le_of_eq Array.size_setIfInBounds.symm, fun other _ hgone => ?_⟩
  rw [node?_put h, if_neg]
  · exact hgone
  · rintro rfl
    rw [h] at hgone
    cases hgone

/-- Counting a holder concerns living tables only. -/
theorem follows_retain (heap : Heap) (cell : Cell) : (heap.retain cell).Follows heap := by
  rw [retain]
  split
  · rw [hold]
    split
    · exact follows_put ‹_› _
    · exact .refl heap
  · exact .refl heap

/-- A release only destroys. -/
theorem follows_releaseAll (heap : Heap) (pending : List TableId) :
    (heap.releaseAll pending).Follows heap := by
  fun_induction Heap.releaseAll heap pending with
  | case1 heap => exact .refl heap
  | case2 heap id pending hnone ih => exact ih
  | case3 heap id pending node hnode hlast ih => exact ih.trans (follows_put hnode none)
  | case4 heap id pending node hnode hmore ih => exact ih.trans (follows_put hnode _)

theorem follows_release (heap : Heap) (cell : Cell) : (heap.release cell).Follows heap := by
  rw [release]
  split
  · exact heap.follows_releaseAll _
  · exact .refl heap

/-- Storing an entry brings no destroyed table back. -/
theorem follows_insert (heap : Heap) (id : TableId) (key : Key) (cell : Cell) :
    (heap.insert id key cell).Follows heap := by
  have hretain := heap.follows_retain cell
  rw [insert]
  split
  · exact hretain
  · rename_i node hnode
    have hput := (follows_put hnode (some { node with
      table := node.table.insert key cell })).trans hretain
    rw [Table.exchange_eq]
    cases node.table.get? key with
    | none => exact hput
    | some old => exact (follows_release _ old).trans hput

theorem follows_insertAll (heap : Heap) (id : TableId) (entries : List Entry) :
    (heap.insertAll id entries).Follows heap := by
  induction entries generalizing heap with
  | nil => exact .refl heap
  | cons entry entries ih =>
      exact (ih (heap.insert id entry.1 entry.2)).trans (heap.follows_insert id entry.1 entry.2)

/-- Creating a table leaves the destroyed ones destroyed. -/
theorem follows_create (heap : Heap) : heap.create.2.Follows heap := by
  refine ⟨?_, ?_⟩
  · rw [create, Array.size_push]
    exact Nat.le_succ _
  · intro id hid hgone
    rw [node?_create, if_neg (Nat.ne_of_lt hid)]
    exact hgone

/-! ## Surviving tables -/

theorem table?_put_of_ne (h : heap.node? id = some node) (place : Option Node)
    (hne : other ≠ id) : (heap.put id place).table? other = heap.table? other := by
  rw [table?, node?_put h, if_neg hne, table?]

/-- A table that survives a release is as it was. -/
theorem table?_of_releaseAll {pending : List TableId} {table : Table}
    (h : (heap.releaseAll pending).table? other = some table) :
    heap.table? other = some table := by
  fun_induction Heap.releaseAll heap pending with
  | case1 heap => exact h
  | case2 heap id pending hnone ih => exact ih h
  | case3 heap id pending node hnode hlast ih =>
      -- The table that is destroyed does not survive.
      have hput := ih h
      by_cases heq : other = id
      · rw [table?, node?_put hnode, if_pos heq] at hput
        cases hput
      · rwa [table?_put_of_ne hnode none heq] at hput
  | case4 heap id pending node hnode hmore ih =>
      -- Only the count of the table changes.
      exact (table?_put_holders hnode _ other).symm.trans (ih h)

/-- A table that is there after a release was there before, with the same entries. -/
theorem table?_of_release {cell : Cell} {table : Table}
    (h : (heap.release cell).table? other = some table) : heap.table? other = some table := by
  rw [release] at h
  split at h
  · exact table?_of_releaseAll h
  · exact h

/-- A table that survives an insertion into another one is as it was. -/
theorem table?_of_insert {key : Key} {cell : Cell} {table : Table} (hne : other ≠ id)
    (h : (heap.insert id key cell).table? other = some table) :
    heap.table? other = some table := by
  rw [← heap.table?_retain cell]
  rw [insert] at h
  split at h
  · exact h
  · rename_i node hnode
    rw [← table?_put_of_ne hnode (some { node with table := node.table.insert key cell }) hne]
    rw [Table.exchange_eq] at h
    cases hget : node.table.get? key with
    | none =>
        rw [hget] at h
        exact h
    | some old =>
        rw [hget] at h
        exact table?_of_release h

/-! ## Storing many entries -/

variable {roots : TableId → Nat} {entries : List Entry}

/-- Whether entries can be stored in a new table: they hold no tables, or they are entries of a
table that has a root. -/
def Supplies (heap : Heap) (roots : TableId → Nat) (entries : List Entry) : Prop :=
  (∀ entry ∈ entries, entry.2.table? = none) ∨
    ∃ source table, 0 < roots source ∧ heap.table? source = some table ∧ entries ⊆ table.entries

/-- A table that stands in an entry to be stored has a holder. -/
theorem Counted.held_of_supplies {fresh : Option TableId} (h : heap.Counted roots fresh)
    (hsupplies : heap.Supplies roots entries) {entry : Entry} (hmem : entry ∈ entries)
    (hentry : entry.2 = .table id) : 0 < heap.holders id := by
  rcases hsupplies with hplain | ⟨source, table, -, htable, hsub⟩
  · have hnone := hplain entry hmem
    rw [hentry] at hnone
    cases hnone
  · have hchild : id ∈ table.children :=
      List.mem_filterMap.2 ⟨entry, hsub hmem, by rw [hentry]; rfl⟩
    exact h.holders_pos_of_entry htable hchild

/-- After one entry was stored, the others can still be. -/
theorem Counted.supplies_insert {fresh : Option TableId} {key : Key} {cell : Cell}
    (h : (heap.insert id key cell).Counted roots fresh) (hid : roots id = 0)
    (hsupplies : heap.Supplies roots entries) :
    (heap.insert id key cell).Supplies roots entries := by
  refine hsupplies.imp_right ?_
  rintro ⟨source, table, hroots, htable, hsub⟩
  -- The entries are stored in a table without roots, so their source is another one and survives.
  have hne : source ≠ id := by
    rintro rfl
    exact absurd hid (Nat.ne_of_gt hroots)
  have hheld : 0 < (heap.insert id key cell).holders source := h.holders_pos_of_root hroots
  rcases exists_node?_of_holders hheld with ⟨node, hnode⟩
  have hafter : (heap.insert id key cell).table? source = some node.table := by
    rw [table?, hnode]
    rfl
  have hbefore := table?_of_insert hne hafter
  rw [htable] at hbefore
  cases hbefore
  exact ⟨source, node.table, hroots, hafter, hsub⟩

/-- Entries that can be stored are stored in the fresh table. -/
theorem Counted.insertAll (h : heap.Counted roots (some id))
    (hsupplies : heap.Supplies roots entries) :
    (heap.insertAll id entries).Counted roots (some id) := by
  induction entries generalizing heap with
  | nil => exact h
  | cons entry entries ih =>
      -- A fresh table has no holder, so in particular no root.
      have hid : roots id = 0 := by
        rcases Option.ne_none_iff_exists'.1 (h.fresh_alive id rfl) with ⟨node, hnode⟩
        have hholders := (h.held id node hnode).2 rfl
        rw [← holders_of_node? hnode, h.balanced] at hholders
        omega
      have hinsert := h.insert (h.fresh_alive id rfl) entry.1
        fun other => h.held_of_supplies hsupplies (List.mem_cons_self ..)
      have hsupplies' := hinsert.supplies_insert hid hsupplies
      refine ih hinsert (hsupplies'.imp ?_ ?_)
      · intro hplain other hmem
        exact hplain other (List.mem_cons_of_mem _ hmem)
      · rintro ⟨source, table, hroots, htable, hsub⟩
        exact ⟨source, table, hroots, htable, fun other hmem => hsub (List.mem_cons_of_mem _ hmem)⟩

end Heap
end CellMachine
