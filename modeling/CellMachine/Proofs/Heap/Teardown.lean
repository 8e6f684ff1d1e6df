import Mathlib
import CellMachine.Proofs.Heap.Reachability
import CellMachine.Proofs.Heap.Release

/-!
# Destructors

A table whose last holder lets go is destroyed by its destructor, which takes all entries out of it
and lets go of them one by one.  An entry that holds the last hold on another table destroys that
table too: the entries of the other table are taken out and join those that wait, and then the
destructor of the other table runs, on a table that has no entries any more.

`Teardown.Step` is one step of the destructors that are running, and any of the waiting entries may
be next.  Every run ends, and in the heap to which `Heap.release` leads, as does dropping the
entries one inside the other; and no destructor but the outermost one ever has an entry to let go
of, so at most two of them are running (`Heap.Counted.teardown`).
-/

namespace CellMachine

def Table.drain (table : Table) : List Entry × Table :=
  (table.entries, Table.empty)

/-! ## States -/

/-- How far a destructor has come: it was entered for what is left of a table, or it is working off
entries that it has taken out. -/
inductive Destructor
  | entered (table : Table)
  | working (pending : List Entry)

namespace Destructor

def cells : Destructor → List Cell
  | entered table => table.entries.map Prod.snd
  | working pending => pending.map Prod.snd

def length : Destructor → Nat
  | entered table => table.entries.length + 2
  | working pending => pending.length + 1

end Destructor

/-- A heap, the destructors that are running, the innermost first, and the tables that were
destroyed, the latest first. -/
structure Teardown where
  heap : Heap
  destructors : List Destructor
  destroyed : List TableId

namespace Teardown

/-- The last hold on a table is given up: the table is destroyed and its destructor entered. -/
def start (heap : Heap) (id : TableId) : Teardown :=
  match heap.node? id with
  | some node => ⟨heap.put id none, [.entered node.table], [id]⟩
  | none => ⟨heap, [], []⟩

def cells (state : Teardown) : List Cell :=
  state.destructors.flatMap Destructor.cells

/-- Whether at most one destructor runs inside of another one, and has nothing to let go of. -/
def Shallow (state : Teardown) : Prop :=
  state.destructors.length ≤ 2 ∧ ∀ inner ∈ state.destructors.dropLast, inner.cells = []

/-! ## Steps -/

inductive Step : Teardown → Teardown → Prop
  | drain {heap : Heap} {table : Table} {outer : List Destructor} {destroyed : List TableId} :
      Step ⟨heap, .entered table :: outer, destroyed⟩
        ⟨heap, .working table.drain.1 :: outer, destroyed⟩
  | plain {heap : Heap} {before after : List Entry} {entry : Entry} {outer : List Destructor}
      {destroyed : List TableId} (hentry : entry.2.table? = none) :
      Step ⟨heap, .working (before ++ entry :: after) :: outer, destroyed⟩
        ⟨heap, .working (before ++ after) :: outer, destroyed⟩
  | shared {heap : Heap} {id : TableId} {node : Node} {before after : List Entry} {key : Key}
      {outer : List Destructor} {destroyed : List TableId} (hnode : heap.node? id = some node)
      (hmore : 1 < node.holders) :
      Step ⟨heap, .working (before ++ (key, .table id) :: after) :: outer, destroyed⟩
        ⟨heap.put id (some { node with holders := node.holders - 1 }),
          .working (before ++ after) :: outer, destroyed⟩
  | last {heap : Heap} {id : TableId} {node : Node} {before after : List Entry} {key : Key}
      {outer : List Destructor} {destroyed : List TableId} (hnode : heap.node? id = some node)
      (hlast : node.holders = 1) :
      Step ⟨heap, .working (before ++ (key, .table id) :: after) :: outer, destroyed⟩
        ⟨heap.put id none, .entered node.table.drain.2 ::
          .working (before ++ after ++ node.table.drain.1) :: outer, id :: destroyed⟩
  | leave {heap : Heap} {outer : List Destructor} {destroyed : List TableId} :
      Step ⟨heap, .working [] :: outer, destroyed⟩ ⟨heap, outer, destroyed⟩

def weight (state : Teardown) : ℕ ×ₗ ℕ :=
  toLex (state.heap.aliveCount, (state.destructors.map Destructor.length).sum)

/-- Every step makes a teardown smaller, so it comes to an end. -/
theorem Step.weight_lt {state next : Teardown} (h : Step state next) :
    next.weight < state.weight := by
  rw [weight, weight, Prod.Lex.toLex_lt_toLex]
  cases h with
  | drain =>
      refine .inr ⟨rfl, ?_⟩
      simp [Destructor.length, Table.drain]
  | plain hentry =>
      refine .inr ⟨rfl, ?_⟩
      simp [Destructor.length]
  | shared hnode hmore =>
      refine .inr ⟨Heap.aliveCount_put_some hnode, ?_⟩
      simp [Destructor.length]
  | last hnode hlast => exact .inl (Heap.aliveCount_put_none_lt hnode)
  | leave =>
      refine .inr ⟨rfl, ?_⟩
      simp [Destructor.length]

/-- No teardown goes on for ever. -/
theorem step_wellFounded : WellFounded fun next state => Step state next :=
  Subrelation.wf Step.weight_lt (InvImage.wf weight wellFounded_lt)

/-! ## What a step makes of the waiting cells -/

/-- The entry that is picked waits in front of the others. -/
theorem cells_pick {heap : Heap} {before after : List Entry} {entry : Entry}
    {outer : List Destructor} {destroyed : List TableId} :
    (Teardown.cells ⟨heap, .working (before ++ entry :: after) :: outer, destroyed⟩).Perm
      (entry.2 :: Teardown.cells ⟨heap, .working (before ++ after) :: outer, destroyed⟩) := by
  have hpick : ((before ++ entry :: after).map Prod.snd).Perm
      (entry.2 :: (before ++ after).map Prod.snd) := (List.perm_middle).map Prod.snd
  exact hpick.append_right _

/-- A drained table has nothing to let go of, and what was taken out of it waits with the others. -/
theorem cells_drained {heap : Heap} {table : Table} {waiting : List Entry}
    {outer : List Destructor} {destroyed : List TableId} :
    (Teardown.cells ⟨heap, .entered table.drain.2 :: .working (waiting ++ table.drain.1) :: outer,
      destroyed⟩).Perm (table.entries.map Prod.snd ++
        Teardown.cells ⟨heap, .working waiting :: outer, destroyed⟩) := by
  have hempty : (Destructor.entered table.drain.2).cells = [] := by
    rw [Destructor.cells, Table.drain, Table.empty_entries]
    rfl
  have hwaiting : ((waiting ++ table.entries).map Prod.snd).Perm
      (table.entries.map Prod.snd ++ waiting.map Prod.snd) := by
    rw [List.map_append]
    exact List.perm_append_comm
  rw [cells, List.flatMap_cons, hempty, List.nil_append, List.flatMap_cons, cells,
    List.flatMap_cons, ← List.append_assoc]
  exact hwaiting.append_right _

/-! ## What a teardown keeps -/

end Teardown

namespace Heap

variable {heap : Heap} {id : TableId}

def heldBy (heap : Heap) (parents : List TableId) (id : TableId) : Nat :=
  (parents.map fun parent => placeHolding id (heap.node? parent)).sum

/-- What is held by some tables is held by the first or by the others. -/
theorem heldBy_cons {parent : TableId} {table : Table} (h : heap.table? parent = some table)
    (parents : List TableId) :
    heap.heldBy (parent :: parents) id = table.children.count id + heap.heldBy parents id := by
  rcases Option.map_eq_some_iff.1 h with ⟨node, hnode, rfl⟩
  rw [heldBy, List.map_cons, List.sum_cons, hnode, placeHolding_some]
  rfl

end Heap

namespace Teardown

open Heap

/-- What is known of a teardown at each step, about the heap in which it began. -/
structure Tracks (before : Heap) (roots : TableId → Nat) (fresh : Option TableId) (id : TableId)
    (state : Teardown) : Prop where
  counted : state.heap.Counted (fun other => roots other + (holdsOf state.cells).count other) fresh
  result : state.heap.releaseAll (holdsOf state.cells) = before.release (.table id)
  shallow : state.Shallow
  tables : ∀ other table, state.heap.table? other = some table → before.table? other = some table
  nodup : state.destroyed.Nodup
  destroyed : ∀ other, other ∈ state.destroyed ↔
    before.isAlive other = true ∧ state.heap.isAlive other = false
  entries : ∀ other, before.entriesHolding other =
    state.heap.entriesHolding other + before.heldBy state.destroyed other

variable {before : Heap} {roots : TableId → Nat} {fresh : Option TableId} {id : TableId}
  {state next : Teardown}

/-- Steps that leave the heap alone only have to keep the cells that hold tables. -/
theorem Tracks.of_cells (h : Tracks before roots fresh id state) (hheap : next.heap = state.heap)
    (hdestroyed : next.destroyed = state.destroyed)
    (hcells : (holdsOf next.cells).Perm (holdsOf state.cells)) (hshallow : next.Shallow) :
    Tracks before roots fresh id next := by
  refine ⟨?_, ?_, hshallow, hheap ▸ h.tables, hdestroyed ▸ h.nodup, ?_, ?_⟩
  · rw [hheap]
    refine h.counted.congr ?_
    intro other
    rw [hcells.count_eq]
  · rw [hheap, releaseAll_perm hcells]
    exact h.result
  · rw [hheap, hdestroyed]
    exact h.destroyed
  · rw [hheap, hdestroyed]
    exact h.entries

/-- Another innermost destructor, on top of the same ones. -/
theorem Shallow.replace {heap heap' : Heap} {inner inner' : Destructor} {outer : List Destructor}
    {destroyed destroyed' : List TableId} (h : Shallow ⟨heap, inner :: outer, destroyed⟩)
    (hinner : inner.cells = [] → inner'.cells = []) :
    Shallow ⟨heap', inner' :: outer, destroyed'⟩ := by
  refine ⟨h.1, ?_⟩
  cases outer with
  | nil => exact fun d hd => nomatch hd
  | cons outermost rest =>
      have hall := List.forall_mem_cons.1 h.2
      exact List.forall_mem_cons.2 ⟨hinner hall.1, hall.2⟩

/-- When the inner destructor returns, the outer one is alone. -/
theorem Shallow.leave {heap : Heap} {inner : Destructor} {outer : List Destructor}
    {destroyed : List TableId} (h : Shallow ⟨heap, inner :: outer, destroyed⟩) :
    Shallow ⟨heap, outer, destroyed⟩ := by
  refine ⟨Nat.le_of_succ_le h.1, ?_⟩
  cases outer with
  | nil => exact fun d hd => nomatch hd
  | cons outermost rest => exact (List.forall_mem_cons.1 h.2).2

/-- A destructor that has an entry to let go of is the outermost one. -/
theorem Shallow.enter {heap heap' : Heap} {pending pending' : List Entry} {table : Table}
    {outer : List Destructor} {destroyed destroyed' : List TableId}
    (h : Shallow ⟨heap, .working pending :: outer, destroyed⟩) (hne : pending ≠ []) :
    Shallow ⟨heap', .entered table.drain.2 :: .working pending' :: outer, destroyed'⟩ := by
  cases outer with
  | nil =>
      refine ⟨Nat.le_refl 2, ?_⟩
      intro inner hinner
      rw [List.mem_singleton.1 hinner, Destructor.cells, Table.drain, Table.empty_entries]
      rfl
  | cons outermost rest =>
      have hcells : (Destructor.working pending).cells = [] := h.2 _ (List.mem_cons_self ..)
      exact absurd (List.map_eq_nil_iff.1 hcells) hne

section
variable {heap : Heap} {child : TableId} {node : Node} {first rest : List Entry} {key : Key}
  {outer : List Destructor} {destroyed : List TableId}

/-- The entry that is picked is one hold more than what waits besides. -/
theorem Tracks.pick
    (h : Tracks before roots fresh id
      ⟨heap, .working (first ++ (key, .table child) :: rest) :: outer, destroyed⟩) :
    heap.Counted (fun other => roots other +
        (holdsOf (cells ⟨heap, .working (first ++ rest) :: outer, destroyed⟩)).count other +
        (Cell.table child).holds other) fresh ∧
      heap.releaseAll (child ::
        holdsOf (cells ⟨heap, .working (first ++ rest) :: outer, destroyed⟩)) =
          before.release (.table id) := by
  have hpick := holdsOf_perm (@cells_pick heap first rest (key, .table child) outer destroyed)
  rw [holdsOf_table] at hpick
  constructor
  · refine h.counted.congr ?_
    intro other
    rw [hpick.count_eq, Cell.count_cons, Nat.add_assoc]
  · rw [← releaseAll_perm hpick]
    exact h.result

/-- An entry whose table has other holders takes one of them with it. -/
theorem Tracks.shared
    (h : Tracks before roots fresh id
      ⟨heap, .working (first ++ (key, .table child) :: rest) :: outer, destroyed⟩)
    (hnode : heap.node? child = some node) (hmore : 1 < node.holders) :
    Tracks before roots fresh id
      ⟨heap.put child (some { node with holders := node.holders - 1 }),
        .working (first ++ rest) :: outer, destroyed⟩ := by
  rcases h.pick with ⟨hcounted, hresult⟩
  refine ⟨hcounted.lessen hnode (Nat.not_le_of_gt hmore), ?_, ?_, ?_, h.nodup, ?_, ?_⟩
  · have hletGo : node.letGo = (some { node with holders := node.holders - 1 }, []) :=
      if_neg (Nat.not_le_of_gt hmore)
    rw [releaseAll_cons, letGo_of_some hnode, hletGo] at hresult
    exact hresult
  · exact h.shallow.replace fun hcells => absurd (List.map_eq_nil_iff.1 hcells) (by simp)
  · intro other table htable
    exact h.tables other table ((table?_put_holders hnode _ other).symm.trans htable)
  · intro other
    rw [isAlive_eq _ other, isAlive_eq _ other, table?_put_holders hnode, ← isAlive_eq,
      ← isAlive_eq]
    exact h.destroyed other
  · intro other
    have hput := entriesHolding_put hnode (some { node with holders := node.holders - 1 }) other
    rw [placeHolding_some] at hput
    rw [Nat.add_right_cancel hput]
    exact h.entries other

/-- An entry that is the last holder of its table destroys it, and the destructor of that table is
entered. -/
theorem Tracks.last
    (h : Tracks before roots fresh id
      ⟨heap, .working (first ++ (key, .table child) :: rest) :: outer, destroyed⟩)
    (hnode : heap.node? child = some node) (hlast : node.holders = 1) :
    Tracks before roots fresh id
      ⟨heap.put child none, .entered node.table.drain.2 ::
        .working (first ++ rest ++ node.table.drain.1) :: outer, child :: destroyed⟩ := by
  rcases h.pick with ⟨hcounted, hresult⟩
  have htable : heap.table? child = some node.table := table?_of_node? hnode
  have hbefore : before.table? child = some node.table := h.tables child _ htable
  have halive : heap.isAlive child = true := (heap.isAlive_iff child).2 ⟨node, hnode⟩
  -- What is still to be let go of: the drained entries, and all that was before.
  have hcells : (holdsOf (cells ⟨heap.put child none, .entered node.table.drain.2 ::
      .working (first ++ rest ++ node.table.drain.1) :: outer, child :: destroyed⟩)).Perm
        (node.table.children ++
          holdsOf (cells ⟨heap, .working (first ++ rest) :: outer, destroyed⟩)) := by
    have hdrained := holdsOf_perm (@cells_drained heap node.table (first ++ rest) outer destroyed)
    rwa [holdsOf_append, holdsOf_entries] at hdrained
  refine ⟨?_, ?_, h.shallow.enter (by simp), ?_, ?_, ?_, ?_⟩
  · refine (hcounted.destroy hnode (Nat.le_of_eq hlast)).congr ?_
    intro other
    rw [hcells.count_eq, List.count_append]
    omega
  · have hletGo : node.letGo = (none, node.table.children) := if_pos (Nat.le_of_eq hlast)
    rw [releaseAll_cons, letGo_of_some hnode, hletGo] at hresult
    rw [releaseAll_perm hcells]
    exact hresult
  · intro other table hother
    by_cases heq : other = child
    · rw [heq, table?, node?_put hnode, if_pos rfl] at hother
      cases hother
    · rw [table?_put_of_ne hnode none heq] at hother
      exact h.tables other table hother
  · refine List.nodup_cons.2 ⟨?_, h.nodup⟩
    intro hmem
    have hgone := ((h.destroyed child).1 hmem).2
    rw [halive] at hgone
    cases hgone
  · intro other
    rw [List.mem_cons, h.destroyed]
    by_cases heq : other = child
    · have hgone : (heap.put child none).isAlive child = false := by
        rw [isAlive, node?_put hnode, if_pos rfl]
        rfl
      subst heq
      simp [isAlive_eq before, hbefore, hgone]
    · have hsame : (heap.put child none).isAlive other = heap.isAlive other := by
        rw [isAlive, node?_put hnode, if_neg heq, isAlive]
      simp [heq, hsame]
  · intro other
    have hput := entriesHolding_put hnode none other
    rw [placeHolding, Nat.add_zero] at hput
    -- The entries that the heap loses are those of the table that is destroyed.
    calc before.entriesHolding other
        = heap.entriesHolding other + before.heldBy destroyed other := h.entries other
      _ = (heap.put child none).entriesHolding other +
            before.heldBy (child :: destroyed) other := by
          rw [← hput, heldBy_cons hbefore, Nat.add_assoc]

end

/-- What is known of a teardown is kept by every step. -/
theorem Tracks.step (h : Tracks before roots fresh id state) (hstep : Step state next) :
    Tracks before roots fresh id next := by
  cases hstep with
  | drain => exact h.of_cells rfl rfl (.refl _) (h.shallow.replace fun hcells => hcells)
  | @plain heap first rest entry outer destroyed hentry =>
      refine h.of_cells rfl rfl ?_ (h.shallow.replace fun hcells => ?_)
      · have hpick := holdsOf_perm (@cells_pick heap first rest entry outer destroyed)
        rw [holdsOf_plain hentry] at hpick
        exact hpick.symm
      · exact absurd (List.map_eq_nil_iff.1 hcells) (by simp)
  | leave => exact h.of_cells rfl rfl (.refl _) h.shallow.leave
  | shared hnode hmore => exact h.shared hnode hmore
  | last hnode hlast => exact h.last hnode hlast

/-- A teardown can go on until no destructor is running: what a waiting entry holds is alive. -/
theorem Tracks.exists_step (h : Tracks before roots fresh id state)
    (hrunning : state.destructors ≠ []) : ∃ next, Step state next := by
  rcases state with ⟨heap, destructors, destroyed⟩
  cases destructors with
  | nil => exact absurd rfl hrunning
  | cons inner outer =>
  cases inner with
  | entered table => exact ⟨_, .drain⟩
  | working pending =>
  cases pending with
  | nil => exact ⟨_, .leave⟩
  | cons entry pending =>
  rcases entry with ⟨key, cell⟩
  cases hcell : cell.table? with
  | none => exact ⟨_, @Step.plain heap [] pending (key, cell) outer destroyed hcell⟩
  | some child =>
      obtain rfl := Cell.eq_table hcell
      -- The counts are right, so a table in a pending entry is still alive.
      have hcounted := (@Tracks.pick before roots fresh id heap child [] pending key outer destroyed
        h).1
      have hpos : 0 < heap.holders child := by
        apply hcounted.holders_pos_of_root
        rw [Cell.holds_of_table, if_pos rfl]
        exact Nat.succ_pos _
      rcases exists_node?_of_holders hpos with ⟨node, hnode⟩
      rw [holders_of_node? hnode] at hpos
      by_cases hmore : 1 < node.holders
      · exact ⟨_, @Step.shared heap child node [] pending key outer destroyed hnode hmore⟩
      · exact ⟨_, @Step.last heap child node [] pending key outer destroyed hnode (by omega)⟩

/-- Before the last hold is given up, it is all that waits. -/
theorem tracks_before (key : Key)
    (h : before.Counted (fun other => roots other + (Cell.table id).holds other) fresh) :
    Tracks before roots fresh id ⟨before, [.working [(key, .table id)]], []⟩ := by
  refine ⟨h.pending, rfl, ⟨Nat.le_succ 1, fun _ hd => nomatch hd⟩, fun _ _ htable => htable, .nil,
    ?_, ?_⟩
  · intro other
    refine ⟨fun hmem => (nomatch hmem), ?_⟩
    rintro ⟨halive, hgone⟩
    rw [halive] at hgone
    cases hgone
  · intro other
    exact (Nat.add_zero _).symm

/-- The destructor is entered: its table is destroyed, and its entries are still to be dropped. -/
theorem tracks_start
    (h : before.Counted (fun other => roots other + (Cell.table id).holds other) fresh)
    (hlast : before.holders id = 1) : Tracks before roots fresh id (start before id) := by
  rcases exists_node?_of_holders (hlast ▸ Nat.one_pos) with ⟨node, hnode⟩
  rw [holders_of_node? hnode] at hlast
  have hstart : start before id = ⟨before.put id none, [.entered node.table], [id]⟩ := by
    rw [start, hnode]
  have htracks := @Tracks.last before roots fresh id before id node [] [] (.text "") [] []
    (tracks_before (.text "") h) hnode hlast
  rw [hstart]
  refine htracks.of_cells rfl rfl (holdsOf_perm ?_) ⟨Nat.le_succ 1, fun _ hd => nomatch hd⟩
  exact (@cells_drained (before.put id none) node.table [] [] [id]).symm

/-- What is known of a teardown holds from its start to its end. -/
theorem tracks_of_run
    (h : before.Counted (fun other => roots other + (Cell.table id).holds other) fresh)
    (hlast : before.holders id = 1) (hrun : Relation.ReflTransGen Step (start before id) state) :
    Tracks before roots fresh id state := by
  induction hrun with
  | refl => exact tracks_start h hlast
  | tail _ hstep ih => exact ih.step hstep

/-- What has become of a heap: these tables were destroyed, each of them once, and the others are as
they were but for the holders that they lost. -/
structure Leaves (before after : Heap) (gone : List TableId) : Prop where
  nodup : gone.Nodup
  destroyed : ∀ other, other ∈ gone ↔
    before.isAlive other = true ∧ after.isAlive other = false
  tables : ∀ other, after.isAlive other = true → after.table? other = before.table? other
  holders : ∀ other, after.isAlive other = true →
    before.holders other = after.holders other + before.heldBy gone other

/-- What a teardown has done when no destructor is running any more. -/
theorem Tracks.leaves (h : Tracks before roots fresh id state)
    (hbefore : before.Counted (fun other => roots other + (Cell.table id).holds other) fresh)
    (hlast : before.holders id = 1) (hended : state.destructors = []) :
    state.heap = before.release (.table id) ∧ Leaves before state.heap state.destroyed := by
  have hcells : state.cells = [] := by
    rw [cells, hended]
    rfl
  have hcounted : state.heap.Counted roots fresh := by
    refine h.counted.congr ?_
    intro other
    rw [hcells]
    rfl
  refine ⟨?_, h.nodup, h.destroyed, ?_, ?_⟩
  · rw [← h.result, hcells]
    exact (releaseAll_nil _).symm
  · intro other halive
    rw [isAlive_eq] at halive
    rcases Option.isSome_iff_exists.1 halive with ⟨table, htable⟩
    rw [htable, h.tables other table htable]
  · intro other halive
    have hentries := h.entries other
    have hbalanced := hbefore.balanced other
    have hbalanced' := hcounted.balanced other
    have hne : other ≠ id := by
      -- The table that was dropped has no other holder, so it is not among the living ones.
      rintro rfl
      rcases (state.heap.isAlive_iff other).1 halive with ⟨node, hnode⟩
      rw [hlast, Cell.holds_of_table, if_pos rfl] at hbalanced
      rw [holders_of_node? hnode] at hbalanced'
      have hfresh := (hcounted.held other node hnode).1 (by omega)
      exact hbefore.fresh_ne (hlast ▸ Nat.one_pos) hfresh
    rw [Cell.holds_of_table, if_neg hne] at hbalanced
    omega

end Teardown

namespace Heap

open Teardown

/-- When the last holder of a table lets go, its destructor comes to an end, in whatever order it
takes the entries, and in the heap to which the release of the hold leads.  At any time at most one
destructor runs inside of the outermost one, and it has nothing to let go of.  The tables that were
destroyed have been destroyed once, the others keep their entries and lose the holders that were
entries of destroyed tables; and the plain account of the release leads to the same heap. -/
theorem Counted.teardown {heap : Heap} {roots : TableId → Nat} {fresh : Option TableId}
    {id : TableId}
    (h : heap.Counted (fun other => roots other + (Cell.table id).holds other) fresh)
    (hlast : heap.holders id = 1) :
    Acc (fun next state => Step state next) (start heap id) ∧
    (∀ state, Relation.ReflTransGen Step (start heap id) state →
      state.Shallow ∧
      (state.destructors ≠ [] → ∃ next, Step state next) ∧
      (state.destructors = [] →
        state.heap = heap.release (.table id) ∧ Leaves heap state.heap state.destroyed)) ∧
    (∀ after, heap.Drops [.table id] after ↔ after = heap.release (.table id)) := by
  refine ⟨step_wellFounded.apply _, fun state hrun => ?_, fun after => ?_⟩
  · have htracks := tracks_of_run h hlast hrun
    exact ⟨htracks.shallow, htracks.exists_step, htracks.leaves h hlast⟩
  · exact h.pending.drops_iff

/-- A table with a root is stored in a table with a root. -/
theorem Counted.link {heap : Heap} {roots : TableId → Nat} {fresh : Option TableId}
    {parent child : TableId} (h : heap.Counted roots fresh) (hparent : 0 < roots parent)
    (hchild : 0 < roots child) (key : Key) :
    (heap.insert parent key (.table child)).Counted roots fresh := by
  rcases exists_node?_of_holders (h.holders_pos_of_root hparent) with ⟨node, hnode⟩
  refine h.insert (by simp [hnode]) key ?_
  rintro _ ⟨⟩
  exact h.holders_pos_of_root hchild

/-- Three tables, each with a root.  The first one holds the second one twice, the second one holds
the third one, and the third one holds itself. -/
def rooted : Heap :=
  let bare := ((empty.create.2.hold 0).create.2.hold 1).create.2.hold 2
  let doubled := (bare.insert 0 (.text "left") (.table 1)).insert 0 (.text "right") (.table 1)
  (doubled.insert 1 (.text "next") (.table 2)).insert 2 (.text "self") (.table 2)

def linked : Heap :=
  (rooted.letGo 1).1

theorem linked_counted :
    linked.Counted (fun other => (Cell.table 2).holds other + (Cell.table 0).holds other) none := by
  have hbare : (((empty.create.2.hold 0).create.2.hold 1).create.2.hold 2).Counted (fun other =>
      (Cell.table 2).holds other + (Cell.table 0).holds other + (Cell.table 1).holds other)
      none := by
    refine counted_empty.create.hold_fresh.create.hold_fresh.create.hold_fresh.congr ?_
    intro other
    change _ = 0 + (Cell.table 0).holds other + (Cell.table 1).holds other +
      (Cell.table 2).holds other
    omega
  have hleft := @Counted.link _ _ _ 0 1 hbare (by decide) (by decide) (.text "left")
  have hright := @Counted.link _ _ _ 0 1 hleft (by decide) (by decide) (.text "right")
  have hnext := @Counted.link _ _ _ 1 2 hright (by decide) (by decide) (.text "next")
  have hrooted : rooted.Counted (fun other =>
      (Cell.table 2).holds other + (Cell.table 0).holds other + (Cell.table 1).holds other) none :=
    @Counted.link _ _ _ 2 2 hnext (by decide) (by decide) (.text "self")
  have hpending : (rooted.letGo 1).2 = [] := by decide +kernel
  have hreleased := hrooted.release
  rwa [release_table, releaseAll_cons, hpending, List.nil_append, releaseAll_nil] at hreleased

/-- The first table destroys the second one, at the second of its two entries, and the third one
loses one of its three holders. -/
theorem teardown_linked :
    linked.Counted (fun other => (Cell.table 2).holds other + (Cell.table 0).holds other) none ∧
      linked.holders 0 = 1 ∧
      (∀ state, Relation.ReflTransGen Step (start linked 0) state → state.destructors = [] →
        state.heap = linked.release (.table 0)) ∧
      (linked.release (.table 0)).isAlive 1 = false ∧
      linked.holders 2 = 3 ∧ (linked.release (.table 0)).holders 2 = 2 := by
  have hlast : linked.holders 0 = 1 := by decide +kernel
  have hteardown := linked_counted.teardown hlast
  have hrelease : linked.release (.table 0) =
      ((((linked.letGo 0).1.letGo 1).1.letGo 1).1.letGo 2).1 := by
    have hfirst : (linked.letGo 0).2 = [1, 1] := by decide +kernel
    have hleft : ((linked.letGo 0).1.letGo 1).2 = [] := by decide +kernel
    have hright : (((linked.letGo 0).1.letGo 1).1.letGo 1).2 = [2] := by decide +kernel
    have hnext : ((((linked.letGo 0).1.letGo 1).1.letGo 1).1.letGo 2).2 = [] := by decide +kernel
    rw [release_table, releaseAll_cons, hfirst, List.append_nil, releaseAll_cons, hleft,
      List.nil_append, releaseAll_cons, hright, List.append_nil, releaseAll_cons, hnext,
      List.nil_append, releaseAll_nil]
  refine ⟨linked_counted, hlast, fun state hrun hended => ((hteardown.2.1 state hrun).2.2 hended).1,
    ?_, by decide +kernel, ?_⟩
  · rw [hrelease]
    decide +kernel
  · rw [hrelease]
    decide +kernel

end Heap
end CellMachine
