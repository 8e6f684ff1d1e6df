import Mathlib
import CellMachine.Proofs.Heap.Counting

/-!
# Reachability

A table leads to the tables that its entries hold.  If the counts of a heap are right, then what a
root leads to is alive, for every edge on the way is counted; and a living table that no root leads
to has a parent that no root leads to either, so one comes to a cycle when one goes from parent to
parent.
-/

namespace CellMachine
namespace Heap

/-! ## Edges -/

def Edge (heap : Heap) (parent child : TableId) : Prop :=
  ∃ table, heap.table? parent = some table ∧ child ∈ table.children

/-- Whether a root leads to a table. -/
def Reaches (heap : Heap) (roots : TableId → Nat) (id : TableId) : Prop :=
  ∃ root, 0 < roots root ∧ Relation.ReflTransGen heap.Edge root id

/-- Whether a table is on a cycle, or a cycle leads to it. -/
def Cyclic (heap : Heap) (id : TableId) : Prop :=
  ∃ start, Relation.TransGen heap.Edge start start ∧ Relation.ReflTransGen heap.Edge start id

variable {heap : Heap} {roots : TableId → Nat} {id : TableId}

/-- A table is alive if something is left at its place. -/
theorem isAlive_iff (heap : Heap) (id : TableId) :
    heap.isAlive id = true ↔ ∃ node, heap.node? id = some node :=
  Option.isSome_iff_exists

theorem isAlive_eq (heap : Heap) (id : TableId) : heap.isAlive id = (heap.table? id).isSome :=
  (Option.isSome_map ..).symm

/-- Only living tables have entries. -/
theorem Edge.isAlive {parent child : TableId} (h : heap.Edge parent child) :
    heap.isAlive parent = true := by
  rcases h with ⟨table, htable, -⟩
  rcases Option.map_eq_some_iff.1 htable with ⟨node, hnode, -⟩
  exact (heap.isAlive_iff parent).2 ⟨node, hnode⟩

/-- A living table was created. -/
theorem lt_size_of_isAlive (h : heap.isAlive id = true) : id < heap.nodes.size := by
  rcases (heap.isAlive_iff id).1 h with ⟨node, hnode⟩
  exact lt_size_of_node? hnode

/-! ## Living tables -/

/-- A table is alive as long as an entry or a root holds it. -/
theorem Counted.isAlive_iff_pos (h : heap.Counted roots none) (id : TableId) :
    heap.isAlive id = true ↔ 0 < heap.entriesHolding id + roots id := by
  rw [← h.balanced id, isAlive_iff]
  constructor
  · rintro ⟨node, hnode⟩
    rw [holders_of_node? hnode]
    exact Nat.pos_of_ne_zero fun hzero => nomatch (h.held id node hnode).1 hzero
  · exact exists_node?_of_holders

/-- What a root leads to is alive. -/
theorem Counted.isAlive_of_reaches (h : heap.Counted roots none)
    (hreaches : heap.Reaches roots id) : heap.isAlive id = true := by
  rcases hreaches with ⟨root, hroot, hpath⟩
  rw [h.isAlive_iff_pos]
  cases hpath with
  | refl => exact Nat.lt_of_lt_of_le hroot (Nat.le_add_left ..)
  | tail _ hedge =>
      exact Nat.lt_of_lt_of_le (entriesHolding_pos_iff.2 ⟨_, hedge⟩) (Nat.le_add_right ..)

/-! ## Cycles -/

/-- In a finite set in which everything has a predecessor, a cycle leads to each member. -/
theorem exists_cycle {edge : TableId → TableId → Prop} (members : Set TableId)
    (hfinite : members.Finite) (hparent : ∀ a ∈ members, ∃ b ∈ members, edge b a)
    (hid : id ∈ members) :
    ∃ start, Relation.TransGen edge start start ∧ Relation.ReflTransGen edge start id := by
  by_contra hnone
  -- Among the members that lead to the table there would be a first one, but it has a predecessor.
  let leading : Set TableId := {a ∈ members | Relation.ReflTransGen edge a id}
  have hfinite' : Finite leading := (hfinite.subset (Set.sep_subset _ _)).to_subtype
  let before (a b : leading) : Prop := Relation.TransGen edge a b
  have : Std.Irrefl before := ⟨fun a hcycle => hnone ⟨a, hcycle, a.2.2⟩⟩
  have : IsTrans _ before := ⟨fun _ _ _ => Relation.TransGen.trans⟩
  have hwf := Finite.wellFounded_of_trans_of_irrefl before
  rcases hwf.has_min Set.univ ⟨⟨id, hid, .refl⟩, trivial⟩ with ⟨first, -, hfirst⟩
  rcases hparent first first.2.1 with ⟨parent, hmem, hedge⟩
  exact hfirst ⟨parent, hmem, .head hedge first.2.2⟩ trivial (.single hedge)

/-- A living table that no root leads to is on a cycle or behind one. -/
theorem Counted.cyclic_of_isAlive (h : heap.Counted roots none) (halive : heap.isAlive id = true)
    (hreaches : ¬heap.Reaches roots id) : heap.Cyclic id := by
  refine exists_cycle {id | heap.isAlive id = true ∧ ¬heap.Reaches roots id} ?_ ?_
    ⟨halive, hreaches⟩
  · exact (Set.finite_lt_nat heap.nodes.size).subset fun id hid => lt_size_of_isAlive hid.1
  · rintro child ⟨halive, hreaches⟩
    have hroots : roots child = 0 :=
      Nat.eq_zero_of_not_pos fun hpos => hreaches ⟨child, hpos, .refl⟩
    have hpos := (h.isAlive_iff_pos child).1 halive
    rw [hroots, Nat.add_zero] at hpos
    rcases entriesHolding_pos_iff.1 hpos with ⟨parent, hedge⟩
    refine ⟨parent, ⟨Edge.isAlive hedge, ?_⟩, hedge⟩
    rintro ⟨root, hroot, hpath⟩
    exact hreaches ⟨root, hroot, hpath.tail hedge⟩

end Heap
end CellMachine
