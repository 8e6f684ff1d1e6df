import Mathlib
import CellMachine.Proofs.Heap.Survival

/-!
# Releasing in any order

`Heap.releaseAll` works off its list from the front, and puts the holds of a destroyed table in
front of the others.  The order does not matter: two holds of different tables are given back by
turns, and what they make pending is given back later, so by induction every permutation of the
list leads to the same heap (`Heap.releaseAll_perm`).

`Heap.Drops` is the plain account of a release, in which the entries of a destroyed table are let go
of, in some order, before anything else happens.  It comes to an end if the counts are right, and
it leads to the same heap as the list (`Counted.drops_iff`).
-/

namespace CellMachine

/-! ## One hold -/

/-- What is left at the place of a table that loses one holder, and the holds of its entries if it
is destroyed. -/
def Node.letGo (node : Node) : Option Node × List TableId :=
  if node.holders ≤ 1 then (none, node.table.children)
  else (some { node with holders := node.holders - 1 }, [])

theorem Cell.eq_table {cell : Cell} {id : TableId} (h : cell.table? = some id) :
    cell = .table id := by
  cases cell with
  | table other => exact congrArg Cell.table (Option.some.inj h)
  | _ => nomatch h

namespace Heap

variable {heap : Heap} {id other : TableId} {node : Node}

def letGo (heap : Heap) (id : TableId) : Heap × List TableId :=
  match heap.node? id with
  | none => (heap, [])
  | some node => (heap.put id node.letGo.1, node.letGo.2)

/-- A hold on a destroyed table is let go of without effect. -/
theorem letGo_of_none (h : heap.node? id = none) : heap.letGo id = (heap, []) := by
  rw [letGo, h]

/-- A hold on a living table takes one holder from it, or the table from the heap. -/
theorem letGo_of_some (h : heap.node? id = some node) :
    heap.letGo id = (heap.put id node.letGo.1, node.letGo.2) := by
  rw [letGo, h]

theorem releaseAll_nil (heap : Heap) : heap.releaseAll [] = heap := by
  rw [releaseAll]

/-- The first hold is let go of, and what becomes pending by that goes first. -/
theorem releaseAll_cons (heap : Heap) (id : TableId) (pending : List TableId) :
    heap.releaseAll (id :: pending) =
      (heap.letGo id).1.releaseAll ((heap.letGo id).2 ++ pending) := by
  rw [releaseAll]
  split
  · rename_i hnone
    rw [letGo_of_none hnone, List.nil_append]
  · rename_i node hnode
    rw [letGo_of_some hnode, Node.letGo]
    split
    · rfl
    · rw [List.nil_append]

theorem release_table (heap : Heap) (id : TableId) :
    heap.release (.table id) = heap.releaseAll [id] :=
  rfl

/-- The size of a release: the living tables first, then the pending holds. -/
def weight (heap : Heap) (pending : List TableId) : ℕ ×ₗ ℕ :=
  toLex (heap.aliveCount, pending.length)

theorem weight_eq {pending pending' : List TableId} (h : pending.length = pending'.length) :
    weight heap pending = weight heap pending' := by
  rw [weight, h, weight]

/-- A release comes nearer to its end with each hold: a table is destroyed, or no new hold becomes
pending. -/
theorem weight_letGo_lt (heap : Heap) (id : TableId) (pending : List TableId) :
    weight (heap.letGo id).1 ((heap.letGo id).2 ++ pending) < weight heap (id :: pending) := by
  rw [weight, weight, Prod.Lex.toLex_lt_toLex]
  cases hnode : heap.node? id with
  | none =>
      rw [letGo_of_none hnode]
      exact .inr ⟨rfl, Nat.lt_succ_self _⟩
  | some node =>
      rw [letGo_of_some hnode, Node.letGo]
      split
      · exact .inl (aliveCount_put_none_lt hnode)
      · exact .inr ⟨aliveCount_put_some hnode, Nat.lt_succ_self _⟩

/-- Letting go of one hold concerns no other table. -/
theorem node?_letGo_of_ne (hne : other ≠ id) :
    (heap.letGo id).1.node? other = heap.node? other := by
  cases hnode : heap.node? id with
  | none => rw [letGo_of_none hnode]
  | some node => rw [letGo_of_some hnode, node?_put hnode, if_neg hne]

/-- Tables at different places are replaced in any order. -/
theorem put_comm (heap : Heap) (hne : id ≠ other) (place place' : Option Node) :
    (heap.put id place).put other place' = (heap.put other place').put id place := by
  rw [put, put, put, put, Array.setIfInBounds_comm _ _ hne]

/-- Holds of different tables are given back by turns, and each of them makes pending what it does
alone. -/
theorem letGo_comm (heap : Heap) (hne : id ≠ other) :
    ∃ joint, (heap.letGo id).1.letGo other = (joint, (heap.letGo other).2) ∧
      (heap.letGo other).1.letGo id = (joint, (heap.letGo id).2) := by
  have hid : (heap.letGo other).1.node? id = heap.node? id := node?_letGo_of_ne hne
  have hother : (heap.letGo id).1.node? other = heap.node? other := node?_letGo_of_ne hne.symm
  cases hnode : heap.node? id with
  | none =>
      rw [hnode] at hid
      rw [letGo_of_none hnode, letGo_of_none hid]
      exact ⟨_, rfl, rfl⟩
  | some node =>
      rw [hnode] at hid
      rw [letGo_of_some hid]
      cases hnode' : heap.node? other with
      | none =>
          rw [hnode'] at hother
          rw [letGo_of_none hother, letGo_of_none hnode', letGo_of_some hnode]
          exact ⟨_, rfl, rfl⟩
      | some node' =>
          rw [hnode'] at hother
          rw [letGo_of_some hother, letGo_of_some hnode', letGo_of_some hnode]
          exact ⟨_, rfl, Prod.ext (heap.put_comm hne.symm _ _) rfl⟩

/-! ## Many holds -/

/-- Pending holds can be let go of in two portions. -/
theorem releaseAll_append (heap : Heap) (first second : List TableId) :
    heap.releaseAll (first ++ second) = (heap.releaseAll first).releaseAll second := by
  fun_induction Heap.releaseAll heap first with
  | case1 heap => rfl
  | case2 heap id pending hnone ih =>
      rw [List.cons_append, releaseAll_cons, letGo_of_none hnone, List.nil_append, ih]
  | case3 heap id pending node hnode hlast ih =>
      rw [List.cons_append, releaseAll_cons, letGo_of_some hnode, Node.letGo, if_pos hlast,
        ← List.append_assoc, ih]
  | case4 heap id pending node hnode hmore ih =>
      rw [List.cons_append, releaseAll_cons, letGo_of_some hnode, Node.letGo, if_neg hmore,
        List.nil_append, ih]

/-- The order of the pending holds does not matter. -/
theorem releaseAll_perm {pending pending' : List TableId} (h : pending.Perm pending') :
    heap.releaseAll pending = heap.releaseAll pending' := by
  -- A hold that is let go of may make many others pending, so the induction is on the weight.
  induction hweight : weight heap pending using WellFoundedLT.induction
    generalizing heap pending pending' with
  | ind _ ih =>
  subst hweight
  cases pending with
  | nil => rw [h.nil_eq]
  | cons id rest =>
  cases pending' with
  | nil => exact absurd h.length_eq (Nat.succ_ne_zero _)
  | cons other rest' =>
  by_cases heq : id = other
  · subst heq
    rw [releaseAll_cons, releaseAll_cons]
    exact ih _ (weight_letGo_lt heap id rest) (((List.perm_cons id).1 h).append_left _) rfl
  · -- Both lists hold both tables: one of them first, the other one somewhere behind it.
    have hmem : other ∈ rest :=
      (List.mem_cons.1 (h.mem_iff.2 (List.mem_cons_self ..))).resolve_left (Ne.symm heq)
    have hrest : rest.Perm (other :: rest.erase other) := List.perm_cons_erase hmem
    have hrest' : rest'.Perm (id :: rest.erase other) := by
      have hswap : (id :: rest).Perm (other :: id :: rest.erase other) :=
        (hrest.cons id).trans (List.Perm.swap ..)
      exact (List.perm_cons other).1 (h.symm.trans hswap)
    generalize rest.erase other = both at hrest hrest'
    have hfirst := weight_letGo_lt heap id rest
    have hsecond := weight_letGo_lt heap other rest'
    rw [weight_eq h.symm.length_eq] at hsecond
    rcases heap.letGo_comm heq with ⟨joint, hjoint, hjoint'⟩
    have hthird := weight_letGo_lt (heap.letGo id).1 other ((heap.letGo id).2 ++ both)
    rw [hjoint] at hthird
    have hboth : weight (heap.letGo id).1 (other :: ((heap.letGo id).2 ++ both)) =
        weight (heap.letGo id).1 ((heap.letGo id).2 ++ rest) :=
      weight_eq ((hrest.append_left _).trans List.perm_middle).symm.length_eq
    calc heap.releaseAll (id :: rest)
        = (heap.letGo id).1.releaseAll ((heap.letGo id).2 ++ rest) := heap.releaseAll_cons id rest
      _ = (heap.letGo id).1.releaseAll (other :: ((heap.letGo id).2 ++ both)) :=
          ih _ hfirst ((hrest.append_left _).trans List.perm_middle) rfl
      _ = joint.releaseAll ((heap.letGo other).2 ++ ((heap.letGo id).2 ++ both)) := by
          rw [releaseAll_cons, hjoint]
      _ = joint.releaseAll ((heap.letGo id).2 ++ ((heap.letGo other).2 ++ both)) := by
          refine ih _ (hthird.trans (hboth ▸ hfirst)) ?_ rfl
          rw [← List.append_assoc, ← List.append_assoc]
          exact List.perm_append_comm.append_right both
      _ = (heap.letGo other).1.releaseAll (id :: ((heap.letGo other).2 ++ both)) := by
          rw [releaseAll_cons, hjoint']
      _ = (heap.letGo other).1.releaseAll ((heap.letGo other).2 ++ rest') :=
          (ih _ hsecond ((hrest'.append_left _).trans List.perm_middle) rfl).symm
      _ = heap.releaseAll (other :: rest') := (heap.releaseAll_cons other rest').symm

/-! ## A plain account -/

/-- Whether dropping cells one after the other leads from a heap to another one.  What is dropped
last of a table destroys it, and its entries are dropped, in any order, before the other cells. -/
inductive Drops : Heap → List Cell → Heap → Prop
  | nil {heap : Heap} : Drops heap [] heap
  | plain {heap after : Heap} {cell : Cell} {cells : List Cell} (hcell : cell.table? = none)
      (rest : Drops heap cells after) : Drops heap (cell :: cells) after
  | shared {heap after : Heap} {id : TableId} {node : Node} {cells : List Cell}
      (hnode : heap.node? id = some node) (hmore : 1 < node.holders)
      (rest : Drops (heap.put id (some { node with holders := node.holders - 1 })) cells after) :
      Drops heap (.table id :: cells) after
  | last {heap between after : Heap} {id : TableId} {node : Node} {cells inner : List Cell}
      (hnode : heap.node? id = some node) (hlast : node.holders = 1)
      (horder : inner.Perm (node.table.entries.map Prod.snd))
      (nested : Drops (heap.put id none) inner between) (rest : Drops between cells after) :
      Drops heap (.table id :: cells) after

def holdsOf (cells : List Cell) : List TableId :=
  cells.filterMap Cell.table?

theorem holdsOf_plain {cell : Cell} (h : cell.table? = none) (cells : List Cell) :
    holdsOf (cell :: cells) = holdsOf cells :=
  List.filterMap_cons_none h

theorem holdsOf_table (id : TableId) (cells : List Cell) :
    holdsOf (.table id :: cells) = id :: holdsOf cells :=
  rfl

theorem holdsOf_append (cells cells' : List Cell) :
    holdsOf (cells ++ cells') = holdsOf cells ++ holdsOf cells' :=
  List.filterMap_append

/-- The entries of a table hold its children. -/
theorem holdsOf_entries (table : Table) :
    holdsOf (table.entries.map Prod.snd) = table.children := by
  rw [holdsOf, List.filterMap_map]
  rfl

/-- The order of cells does not matter to which tables they hold. -/
theorem holdsOf_perm {cells cells' : List Cell} (h : cells.Perm cells') :
    (holdsOf cells).Perm (holdsOf cells') :=
  h.filterMap _

/-- Dropping cells one after the other comes to the same heap as letting go of all that they hold,
in whatever order entries are dropped. -/
theorem Drops.eq_releaseAll {after : Heap} {cells : List Cell} (h : heap.Drops cells after) :
    after = heap.releaseAll (holdsOf cells) := by
  induction h with
  | nil => exact (releaseAll_nil _).symm
  | @plain heap after cell cells hcell _ ih =>
      rw [holdsOf_plain hcell]
      exact ih
  | @shared heap after id node cells hnode hmore _ ih =>
      have hletGo : node.letGo = (some { node with holders := node.holders - 1 }, []) :=
        if_neg (Nat.not_le_of_gt hmore)
      rw [holdsOf_table, releaseAll_cons, letGo_of_some hnode, hletGo]
      exact ih
  | @last heap between after id node cells inner hnode hlast horder _ _ ihNested ihRest =>
      have hletGo : node.letGo = (none, node.table.children) := if_pos (Nat.le_of_eq hlast)
      have hinner : (holdsOf inner).Perm node.table.children :=
        holdsOf_entries node.table ▸ holdsOf_perm horder
      -- The entries were dropped in an order of their own, which does not matter to a release.
      calc after
          = between.releaseAll (holdsOf cells) := ihRest
        _ = ((heap.put id none).releaseAll (holdsOf inner)).releaseAll (holdsOf cells) := by
            rw [← ihNested]
        _ = ((heap.put id none).releaseAll node.table.children).releaseAll (holdsOf cells) := by
            rw [releaseAll_perm hinner]
        _ = heap.releaseAll (holdsOf (.table id :: cells)) := by
            rw [holdsOf_table, releaseAll_cons, letGo_of_some hnode, hletGo, releaseAll_append]

/-- A release creates no table. -/
theorem aliveCount_releaseAll_le (heap : Heap) (pending : List TableId) :
    (heap.releaseAll pending).aliveCount ≤ heap.aliveCount := by
  fun_induction Heap.releaseAll heap pending with
  | case1 heap => exact Nat.le_refl _
  | case2 heap id pending hnone ih => exact ih
  | case3 heap id pending node hnode hlast ih =>
      exact ih.trans (Nat.le_of_lt (aliveCount_put_none_lt hnode))
  | case4 heap id pending node hnode hmore ih =>
      rwa [aliveCount_put_some hnode] at ih

variable {roots : TableId → Nat} {fresh : Option TableId}

/-- A hold that is still to be given up is a pending one. -/
theorem Counted.pending
    (h : heap.Counted (fun other => roots other + (Cell.table id).holds other) fresh) :
    heap.Counted (fun other => roots other + (holdsOf [.table id]).count other) fresh := by
  refine h.congr ?_
  intro other
  rw [holdsOf_table, Cell.count_cons]
  exact congrArg _ (Nat.zero_add _)

/-- Cells whose holds are counted can be dropped: what they hold is alive. -/
theorem Counted.exists_drops {cells : List Cell}
    (h : heap.Counted (fun other => roots other + (holdsOf cells).count other) fresh) :
    ∃ after, heap.Drops cells after := by
  -- The induction is on the living tables first and the cells second: the entries of a destroyed
  -- table may be many cells, but then there is one table less.
  induction hweight : toLex (heap.aliveCount, cells.length) using WellFoundedLT.induction
    generalizing heap roots cells with
  | ind _ ih =>
  subst hweight
  cases cells with
  | nil => exact ⟨heap, .nil⟩
  | cons cell cells =>
  have hshorter : toLex (heap.aliveCount, cells.length) <
      toLex (heap.aliveCount, (cell :: cells).length) :=
    Prod.Lex.toLex_lt_toLex.2 (.inr ⟨rfl, Nat.lt_succ_self _⟩)
  cases htable : cell.table? with
  | none =>
      rw [holdsOf_plain htable] at h
      rcases ih _ hshorter h rfl with ⟨after, hafter⟩
      exact ⟨after, .plain htable hafter⟩
  | some id =>
  obtain rfl : cell = .table id := Cell.eq_table htable
  rw [holdsOf_table] at h
  have hpos : 0 < heap.holders id := by
    apply h.holders_pos_of_root
    rw [List.count_cons_self]
    omega
  rcases exists_node?_of_holders hpos with ⟨node, hnode⟩
  rw [holders_of_node? hnode] at hpos
  have hfirst : heap.Counted (fun other =>
      roots other + (holdsOf cells).count other + (Cell.table id).holds other) fresh := by
    refine h.congr ?_
    intro other
    rw [Cell.count_cons, Nat.add_assoc]
  by_cases hmore : 1 < node.holders
  · -- Others hold the table, so its entries stay.
    have halive := @aliveCount_put_some _ _ _ { node with holders := node.holders - 1 } hnode
    rcases ih _ (halive ▸ hshorter) (hfirst.lessen hnode (Nat.not_le_of_gt hmore)) rfl with
      ⟨after, hafter⟩
    exact ⟨after, .shared hnode hmore hafter⟩
  · -- The entries are dropped first, and the other cells on what that leads to.
    have hlast : node.holders = 1 := by omega
    have hless := aliveCount_put_none_lt hnode
    have hdestroyed := hfirst.destroy hnode (Nat.le_of_eq hlast)
    rw [← holdsOf_entries] at hdestroyed
    rcases ih _ (Prod.Lex.toLex_lt_toLex.2 (.inl hless)) hdestroyed rfl with ⟨between, hbetween⟩
    have hle : between.aliveCount ≤ (heap.put id none).aliveCount :=
      hbetween.eq_releaseAll ▸ aliveCount_releaseAll_le _ _
    have hcounted :
        between.Counted (fun other => roots other + (holdsOf cells).count other) fresh :=
      hbetween.eq_releaseAll ▸ hdestroyed.releaseAll
    rcases ih _ (Prod.Lex.toLex_lt_toLex.2 (.inl (Nat.lt_of_le_of_lt hle hless))) hcounted rfl with
      ⟨after, hafter⟩
    exact ⟨after, .last hnode hlast (.refl _) hbetween hafter⟩

/-- To drop cells one after the other, each with all that it destroys, is to release their holds. -/
theorem Counted.drops_iff {cells : List Cell} {after : Heap}
    (h : heap.Counted (fun other => roots other + (holdsOf cells).count other) fresh) :
    heap.Drops cells after ↔ after = heap.releaseAll (holdsOf cells) := by
  refine ⟨Drops.eq_releaseAll, ?_⟩
  rintro rfl
  rcases h.exists_drops with ⟨after, hafter⟩
  exact hafter.eq_releaseAll ▸ hafter

end Heap
end CellMachine
