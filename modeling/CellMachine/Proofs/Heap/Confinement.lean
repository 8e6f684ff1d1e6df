import Mathlib
import CellMachine.Proofs.Heap.Reachability
import CellMachine.Proofs.Heap.Survival
import CellMachine.Proofs.Table.Rebuilding

/-!
# Confinement

What an operation does to the heap besides what it is for.  `Heap.Confined` says that all tables but
the ones that an operation is about keep their entries as long as they live, and that a table is
destroyed only if something was released that held it, or that held a destroyed table which held it,
and so on.

Operations that are confined can follow each other.  So a new table can be filled without an effect
on other tables, as long as no entry takes the place of a table: `Table.Absorbs`.
-/

namespace CellMachine
namespace Heap

variable {heap before between after : Heap} {id other : TableId} {node : Node}

def Sheds (before after : Heap) (parent child : TableId) : Prop :=
  before.Edge parent child ∧ after.isAlive parent = false

/-- Whether a heap comes after another one, all tables but the touched ones have kept their entries,
and tables were destroyed on account of the released ones only. -/
structure Confined (before after : Heap) (touched released : Set TableId) : Prop where
  follows : after.Follows before
  tables : ∀ id table, id ∉ touched → after.table? id = some table → before.table? id = some table
  destroyed : ∀ id, before.isAlive id = true → after.isAlive id = false →
    ∃ root ∈ released, Relation.ReflTransGen (Sheds before after) root id

variable {touched touched' released released' : Set TableId}

/-! ## Living tables -/

/-- A table that is alive can be looked up. -/
theorem exists_table?_of_isAlive (h : heap.isAlive id = true) :
    ∃ table, heap.table? id = some table := by
  rw [isAlive_eq] at h
  exact Option.isSome_iff_exists.1 h

theorem isAlive_of_table? {table : Table} (h : heap.table? id = some table) :
    heap.isAlive id = true := by
  rw [isAlive_eq, h]
  rfl

/-- What was destroyed stays so. -/
theorem Follows.isAlive_eq_false (h : after.Follows before) (hid : id < before.nodes.size)
    (hgone : before.isAlive id = false) : after.isAlive id = false := by
  rw [isAlive, Option.isSome_eq_false_iff, Option.isNone_iff_eq_none] at hgone ⊢
  exact h.gone id hid hgone

/-- A table has the edges that it had as long as it has the same entries. -/
theorem Edge.of_table? {child : TableId} (h : after.Edge id child)
    (hid : ∀ table, after.table? id = some table → before.table? id = some table) :
    before.Edge id child := by
  rcases h with ⟨table, htable, hmem⟩
  exact ⟨table, hid table htable, hmem⟩

/-! ## Rules -/

/-- A heap that does not change is confined to nothing. -/
theorem Confined.refl (heap : Heap) : heap.Confined heap touched released := by
  refine ⟨.refl heap, fun _ _ _ h => h, ?_⟩
  intro id halive hgone
  rw [halive] at hgone
  cases hgone

/-- More tables may be named as touched or released. -/
theorem Confined.mono (h : before.Confined after touched released) (htouched : touched ⊆ touched')
    (hreleased : released ⊆ released') : before.Confined after touched' released' := by
  refine ⟨h.follows, fun id table hid => h.tables id table fun hmem => hid (htouched hmem), ?_⟩
  intro id halive hgone
  rcases h.destroyed id halive hgone with ⟨root, hroot, hpath⟩
  exact ⟨root, hreleased hroot, hpath⟩

/-- Confined operations follow each other, if what the first one has touched outlives both. -/
theorem Confined.trans (h : before.Confined between touched released)
    (h' : between.Confined after touched' released')
    (hkept : ∀ id ∈ touched, after.isAlive id = true) :
    before.Confined after (touched ∪ touched') (released ∪ released') := by
  refine ⟨h'.follows.trans h.follows, ?_, ?_⟩
  · intro id table hid htable
    have hbetween := h'.tables id table (fun hmem => hid (.inr hmem)) htable
    exact h.tables id table (fun hmem => hid (.inl hmem)) hbetween
  · intro id halive hgone
    -- A table is destroyed by the first operation or by the second one.
    have hgoes {parent : TableId} (hparent : parent < before.nodes.size)
        (hbetween : between.isAlive parent = false) : after.isAlive parent = false :=
      h'.follows.isAlive_eq_false (Nat.lt_of_lt_of_le hparent h.follows.size_le) hbetween
    by_cases hbetween : between.isAlive id = true
    · -- What the second operation destroys was held before the first one in the same way.
      rcases h'.destroyed id hbetween hgone with ⟨root, hroot, hpath⟩
      refine ⟨root, .inr hroot, Relation.ReflTransGen.mono ?_ root id hpath⟩
      rintro parent child ⟨hedge, hparent⟩
      refine ⟨hedge.of_table? fun table => h.tables parent table ?_, hparent⟩
      intro hmem
      rw [hkept parent hmem] at hparent
      cases hparent
    · rw [Bool.not_eq_true] at hbetween
      rcases h.destroyed id halive hbetween with ⟨root, hroot, hpath⟩
      refine ⟨root, .inl hroot, Relation.ReflTransGen.mono ?_ root id hpath⟩
      rintro parent child ⟨hedge, hparent⟩
      exact ⟨hedge, hgoes (lt_size_of_isAlive hedge.isAlive) hparent⟩

/-! ## Operations -/

/-- A change that leaves the entries of all tables alone touches and destroys nothing. -/
theorem confined_of_table? (hfollows : after.Follows before)
    (h : ∀ id, after.table? id = before.table? id) : before.Confined after touched released := by
  refine ⟨hfollows, fun id table _ htable => h id ▸ htable, ?_⟩
  intro id halive hgone
  rw [isAlive_eq, h id, ← isAlive_eq, halive] at hgone
  cases hgone

/-- What is confined after a cell was retained is so before. -/
theorem Confined.of_retain {cell : Cell} (h : (heap.retain cell).Confined after touched released) :
    heap.Confined after touched released := by
  have hretain : heap.Confined (heap.retain cell) ∅ ∅ :=
    confined_of_table? (heap.follows_retain cell) (heap.table?_retain cell)
  have hboth := hretain.trans h nofun
  rwa [Set.empty_union, Set.empty_union] at hboth

/-- What a release destroys has every property that the pending tables have and destroyed tables
hand on to what they hold. -/
theorem property_of_destroyed {property : TableId → Prop} {pending : List TableId}
    (hpending : ∀ id ∈ pending, property id)
    (hclosed : ∀ parent child, property parent →
      (heap.releaseAll pending).isAlive parent = false → heap.Edge parent child → property child)
    (halive : heap.isAlive id = true) (hgone : (heap.releaseAll pending).isAlive id = false) :
    property id := by
  -- The induction follows the release: the first table loses a holder, or it is destroyed and hands
  -- the property on to what its entries hold.
  fun_induction Heap.releaseAll heap pending with
  | case1 heap =>
      rw [halive] at hgone
      cases hgone
  | case2 heap first pending hnone ih =>
      exact ih (fun id hid => hpending id (List.mem_cons_of_mem _ hid)) hclosed halive hgone
  | case3 heap first pending node hnode hlast ih =>
      have hfirst := hpending first (List.mem_cons_self ..)
      have hsize : first < (heap.put first none).nodes.size := by
        rw [put, Array.size_setIfInBounds]
        exact lt_size_of_node? hnode
      have hdead : (heap.put first none).isAlive first = false := by
        rw [isAlive, node?_put hnode, if_pos rfl]
        rfl
      have hdestroyed := (follows_releaseAll (heap.put first none)
        (node.table.children ++ pending)).isAlive_eq_false hsize hdead
      have htables (parent : TableId) (table : Table)
          (h : (heap.put first none).table? parent = some table) :
          heap.table? parent = some table := by
        by_cases heq : parent = first
        · rw [table?, node?_put hnode, if_pos heq] at h
          cases h
        · rwa [table?_put_of_ne hnode none heq] at h
      by_cases heq : id = first
      · rw [heq]
        exact hfirst
      · refine ih ?_ ?_ ?_ hgone
        · intro child hchild
          rcases List.mem_append.1 hchild with hmem | hmem
          · exact hclosed first child hfirst hdestroyed ⟨node.table, table?_of_node? hnode, hmem⟩
          · exact hpending child (List.mem_cons_of_mem _ hmem)
        · intro parent child hparent hgone hedge
          exact hclosed parent child hparent hgone (hedge.of_table? (htables parent))
        · rw [isAlive, node?_put hnode, if_neg heq]
          exact halive
  | case4 heap first pending node hnode hmore ih =>
      have htables := table?_put_holders hnode (node.holders - 1)
      refine ih ?_ ?_ ?_ hgone
      · exact fun child hmem => hpending child (List.mem_cons_of_mem _ hmem)
      · intro parent child hparent hgone hedge
        exact hclosed parent child hparent hgone (hedge.of_table? fun _ h => htables parent ▸ h)
      · rw [isAlive_eq, htables, ← isAlive_eq]
        exact halive

/-- A release destroys tables on account of the pending holds, and changes no table that survives
it. -/
theorem confined_releaseAll (heap : Heap) (pending : List TableId) :
    heap.Confined (heap.releaseAll pending) touched {id | id ∈ pending} := by
  refine ⟨heap.follows_releaseAll pending, fun _ _ _ h => table?_of_releaseAll h, ?_⟩
  intro id halive hgone
  refine @property_of_destroyed heap id (fun id => ∃ root ∈ pending,
    Relation.ReflTransGen (Sheds heap (heap.releaseAll pending)) root id) pending ?_ ?_ halive hgone
  · exact fun root hroot => ⟨root, hroot, .refl⟩
  · rintro parent child ⟨root, hroot, hpath⟩ hparent hedge
    exact ⟨root, hroot, hpath.tail ⟨hedge, hparent⟩⟩

/-- Letting go of a cell concerns the table that it holds, and what only that table kept alive. -/
theorem confined_release (heap : Heap) (cell : Cell) :
    heap.Confined (heap.release cell) touched {id | cell = .table id} := by
  cases cell with
  | table id =>
      refine (heap.confined_releaseAll [id]).mono (Set.Subset.refl _) ?_
      intro other hother
      rw [List.mem_singleton.1 hother]
      rfl
  | _ => exact .refl heap

/-- A new table is touched and not held by anything. -/
theorem confined_create (heap : Heap) :
    heap.Confined heap.create.2 {heap.nodes.size} released := by
  have htable (id : TableId) (hne : id ≠ heap.nodes.size) :
      heap.create.2.table? id = heap.table? id := by
    rw [table?, node?_create, if_neg hne, table?]
  refine ⟨heap.follows_create, fun id table hid h => htable id hid ▸ h, ?_⟩
  intro id halive hgone
  have hne := Nat.ne_of_lt (lt_size_of_isAlive halive)
  rw [isAlive_eq, htable id hne, ← isAlive_eq, halive] at hgone
  cases hgone

/-- Other entries of a living table. -/
theorem confined_put (hnode : heap.node? id = some node) (holders : Nat) (table : Table) :
    heap.Confined (heap.put id (some ⟨holders, table⟩)) {id} released := by
  refine ⟨follows_put hnode _, fun other table hne h => ?_, ?_⟩
  · rwa [table?_put_of_ne hnode _ hne] at h
  · intro other halive hgone
    rw [isAlive, node?_put hnode] at hgone
    split at hgone
    · cases hgone
    · rw [← isAlive, halive] at hgone
      cases hgone

/-! ## Insertions -/

/-- An insertion retains the cell, puts it into the table, and releases what stood in its place. -/
theorem insert_eq {key : Key} {cell : Cell} (h : (heap.retain cell).node? id = some node) :
    heap.insert id key cell =
      (((heap.retain cell).put id (some { node with table := node.table.insert key cell })).release
        ((node.table.get? key).getD .undefined)) := by
  simp only [insert, h, Table.exchange_eq]
  cases node.table.get? key <;> rfl

/-- A table in which a cell is stored keeps its other entries, if it outlives the cell that stood
there before. -/
theorem table?_insert_self {key : Key} {cell : Cell} {table : Table}
    (htable : heap.table? id = some table)
    (hkept : (heap.insert id key cell).isAlive id = true) :
    (heap.insert id key cell).table? id = some (table.insert key cell) := by
  rcases exists_table?_of_isAlive hkept with ⟨table', htable'⟩
  have hretained := heap.table?_retain cell id
  rw [htable] at hretained
  rcases Option.map_eq_some_iff.1 hretained with ⟨node, hnode, rfl⟩
  have hput := htable'
  rw [insert_eq hnode] at hput
  have hbefore := table?_of_release hput
  rw [table?, node?_put hnode, if_pos rfl] at hbefore
  rw [htable', ← Option.some.inj hbefore]

/-- An insertion touches its own table, and lets go of the cell that was stored there before. -/
theorem confined_insert {key : Key} {cell : Cell}
    (hkept : (heap.insert id key cell).isAlive id = true) :
    heap.Confined (heap.insert id key cell) {id}
      {child | heap.get? id key = some (.table child)} := by
  have halive : (heap.retain cell).isAlive id = true := by
    by_contra hgone
    have hnone : (heap.retain cell).node? id = none := by
      rwa [isAlive, Option.not_isSome_iff_eq_none] at hgone
    rw [insert, hnone] at hkept
    exact hgone hkept
  rcases (isAlive_iff _ id).1 halive with ⟨node, hnode⟩
  have hget : heap.get? id key = node.table.get? key := by
    rw [get?, ← heap.table?_retain cell id, table?_of_node? hnode]
    rfl
  have hinsert : heap.insert id key cell = _ := insert_eq hnode
  -- An insertion replaces the table and then lets go of the cell that was stored there.
  have hput := @confined_put _ id node ∅ hnode node.holders (node.table.insert key cell)
  have hrelease := @confined_release ∅ ((heap.retain cell).put id
    (some { node with table := node.table.insert key cell }))
    ((node.table.get? key).getD .undefined)
  rw [← hinsert] at hrelease
  have hboth := hput.trans hrelease fun other hother => Set.mem_singleton_iff.1 hother ▸ hkept
  rw [Set.union_empty, Set.empty_union] at hboth
  refine hboth.of_retain.mono (Set.Subset.refl _) ?_
  intro child hchild
  change (node.table.get? key).getD .undefined = .table child at hchild
  change heap.get? id key = _
  rw [hget]
  cases hold : node.table.get? key with
  | none =>
      rw [hold] at hchild
      cases hchild
  | some old =>
      rw [hold] at hchild
      exact congrArg some hchild

/-- An insertion that takes the place of no table lets go of nothing. -/
theorem insert_of_plain {key : Key} {cell : Cell} (h : (heap.retain cell).node? id = some node)
    (hplain : ∀ child, node.table.get? key ≠ some (.table child)) :
    heap.insert id key cell =
      (heap.retain cell).put id (some { node with table := node.table.insert key cell }) := by
  rw [insert_eq h]
  cases hold : node.table.get? key with
  | none => rfl
  | some old =>
      cases old with
      | table child => exact absurd hold (hplain child)
      | _ => rfl

end Heap

/-! ## Filling a table -/

/-- Whether entries can be stored in a table one after the other so that none of them takes the
place of a table. -/
def Table.Absorbs : Table → List Entry → Prop
  | _, [] => True
  | table, entry :: entries =>
      (∀ child, table.get? entry.1 ≠ some (.table child)) ∧
        (table.insert entry.1 entry.2).Absorbs entries

namespace Table

variable {table : Table} {entries : List Entry}

/-- Where there are no tables, none is replaced. -/
theorem WellFormed.absorbs_plain (h : table.WellFormed) (hchildren : table.children = [])
    (hplain : ∀ entry ∈ entries, entry.2.table? = none) : table.Absorbs entries := by
  induction entries generalizing table with
  | nil => trivial
  | cons entry entries ih =>
      refine ⟨fun child hget => ?_, ?_⟩
      · have hmem := mem_children_of_get? hget
        rw [hchildren] at hmem
        cases hmem
      · refine ih (h.insert entry.1 entry.2) ?_ fun other hother =>
          hplain other (List.mem_cons_of_mem _ hother)
        -- The new entry is the only one that could hold a table, and does not.
        have hnone : ∀ id, entry.2.holds id = 0 := by
          intro id
          rw [← Cell.count_toList_table?, hplain entry (List.mem_cons_self ..)]
          rfl
        refine List.eq_nil_iff_forall_not_mem.2 fun id hmem => ?_
        have hcount := h.count_children_insert entry.1 entry.2 id
        have hpos := List.count_pos_iff.2 hmem
        rw [hchildren, hnone, List.count_nil] at hcount
        omega

/-- Entries of new and different keys replace nothing. -/
theorem WellFormed.absorbs_news (h : table.WellFormed) (hnews : table.News entries) :
    table.Absorbs entries := by
  induction entries generalizing table with
  | nil => trivial
  | cons entry entries ih =>
      rcases h.news_insert hnews with ⟨hfirst, hrest⟩
      refine ⟨fun child hget => ?_, ih (h.insert entry.1 entry.2) hrest⟩
      rw [hfirst] at hget
      cases hget

end Table

namespace Heap

variable {heap : Heap} {id : TableId} {table : Table} {entries : List Entry}

/-- To fill a table that absorbs the entries touches no other table and destroys none. -/
theorem confined_insertAll (htable : heap.table? id = some table)
    (habsorbs : table.Absorbs entries) :
    heap.Confined (heap.insertAll id entries) {id} ∅ ∧
      (heap.insertAll id entries).isAlive id = true := by
  induction entries generalizing heap table with
  | nil => exact ⟨.refl heap, isAlive_of_table? htable⟩
  | cons entry entries ih =>
      rcases entry with ⟨key, cell⟩
      have hretained := heap.table?_retain cell id
      rw [htable] at hretained
      rcases Option.map_eq_some_iff.1 hretained with ⟨node, hnode, rfl⟩
      have hinsert : heap.insert id key cell = _ := insert_of_plain hnode habsorbs.1
      have htable' : (heap.insert id key cell).table? id = some (node.table.insert key cell) := by
        rw [hinsert, table?, node?_put hnode, if_pos rfl]
        rfl
      rcases ih htable' habsorbs.2 with ⟨hrest, hkept⟩
      have hput := @confined_put _ id node ∅ hnode node.holders (node.table.insert key cell)
      rw [← hinsert] at hput
      refine ⟨?_, hkept⟩
      have hboth := hput.of_retain.trans hrest fun other hother =>
        Set.mem_singleton_iff.1 hother ▸ hkept
      rwa [Set.union_self, Set.union_self] at hboth

/-- A new table that is filled with entries which it absorbs is the only one that is touched. -/
theorem confined_createAll (habsorbs : Table.empty.Absorbs entries) :
    heap.Confined (heap.create.2.insertAll heap.nodes.size entries) {heap.nodes.size} ∅ := by
  have hempty : heap.create.2.table? heap.nodes.size = some .empty := by
    rw [table?, node?_create, if_pos rfl]
    rfl
  rcases confined_insertAll hempty habsorbs with ⟨hfilled, hkept⟩
  have hboth := (@confined_create ∅ heap).trans hfilled fun id hid =>
    Set.mem_singleton_iff.1 hid ▸ hkept
  rwa [Set.union_self, Set.union_self] at hboth

end Heap
end CellMachine
