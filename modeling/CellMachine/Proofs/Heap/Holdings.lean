import Mathlib
import CellMachine.Proofs.Heap.Copies

/-!
# Tables that are held by handles

From outside, tables are held by handles.  `Holdings` is a heap with the handles on its tables, and
`Holdings.Step` lists what can be done with them.  `Holdings.Built` are those that come about in
this way from nothing; a table of theirs may be stored in another one, or in itself.

Each step keeps the counts right and the keys valid, so whatever was done before, every table that
is held can be copied: `Holdings.Built.sound`.  And a step changes no table but the one that it
sets, so two tables are independent of each other however they came about:
`Holdings.Run.table?_eq`.
-/

namespace CellMachine

structure Holdings where
  heap : Heap
  handles : List TableId

namespace Holdings

/-- One thing that is done with tables, and the table that is set by it if one is. -/
inductive Step : Holdings → Option TableId → Holdings → Prop
  /-- A table is created. -/
  | create {heap : Heap} {handles : List TableId} :
      Step ⟨heap, handles⟩ none ⟨(heap.newTable []).2, (heap.newTable []).1 :: handles⟩
  /-- A handle is cloned, or one is fetched from an entry. -/
  | clone {heap : Heap} {handles : List TableId} {id : TableId} (halive : heap.isAlive id = true) :
      Step ⟨heap, handles⟩ none ⟨heap.hold id, id :: handles⟩
  /-- An entry is set.  What it holds is alive; it may be the same table. -/
  | set {heap after : Heap} {handles : List TableId} {id : TableId} {key value : Cell}
      (hid : id ∈ handles) (hvalue : ∀ child, value = .table child → heap.isAlive child = true)
      (hset : heap.set id key value = .ok after) :
      Step ⟨heap, handles⟩ (some id) ⟨after, handles⟩
  /-- A table is copied. -/
  | copy {heap after : Heap} {handles : List TableId} {id copy : TableId} (hid : id ∈ handles)
      (hcopy : heap.copy id = .ok (copy, after)) :
      Step ⟨heap, handles⟩ none ⟨after, copy :: handles⟩
  /-- A handle is dropped. -/
  | drop {heap : Heap} {handles : List TableId} {id : TableId} (hid : id ∈ handles) :
      Step ⟨heap, handles⟩ none ⟨heap.release (.table id), handles.erase id⟩

inductive Run : Holdings → List TableId → Holdings → Prop
  | refl (held : Holdings) : Run held [] held
  | tail {first between last : Holdings} {targets : List TableId} {target : Option TableId}
      (hrun : Run first targets between) (hstep : Step between target last) :
      Run first (target.toList ++ targets) last

/-- Whether tables and handles come about from nothing. -/
def Built (held : Holdings) : Prop :=
  ∃ targets, Run ⟨.empty, []⟩ targets held

/-- Whether the counts are right, with the handles for roots, and all keys are keys. -/
structure Sound (held : Holdings) : Prop where
  counted : held.heap.Counted held.handles.count none
  keyed : held.heap.Keyed

variable {held first last : Holdings} {target : Option TableId} {targets : List TableId}
  {id : TableId}

/-! ## What is held -/

/-- A table with a handle is alive. -/
theorem Sound.exists_table? (h : held.Sound) (hid : id ∈ held.handles) :
    ∃ table, held.heap.table? id = some table := by
  have hroot : 0 < held.handles.count id := List.count_pos_iff.2 hid
  exact Heap.exists_table?_of_isAlive (h.counted.isAlive_of_reaches ⟨id, hroot, .refl⟩)

/-- What is alive has a holder. -/
theorem Sound.holders_pos (h : held.Sound) (halive : held.heap.isAlive id = true) :
    0 < held.heap.holders id := by
  rw [h.counted.balanced]
  exact (h.counted.isAlive_iff_pos id).1 halive

/-- The entries of a table with a handle can be stored in a new table. -/
theorem supplies (hid : id ∈ held.handles) {table : Table}
    (htable : held.heap.table? id = some table) :
    held.heap.Supplies held.handles.count table.entries :=
  .inr ⟨id, table, List.count_pos_iff.2 hid, htable, fun _ hmem => hmem⟩

/-- A copy is a new table with the same entries. -/
theorem Sound.copy_eq (h : held.Sound) {table : Table} (htable : held.heap.table? id = some table) :
    held.heap.copy id = .ok (held.heap.newTable table.entries) := by
  rw [Heap.copy_eq h.keyed, Heap.entries, htable]

/-! ## One step -/

/-- A new table with a handle of its own. -/
theorem Sound.newTable (h : held.Sound) {entries : List Entry}
    (hsupplies : held.heap.Supplies held.handles.count entries)
    (habsorbs : Table.empty.Absorbs entries)
    (hkeys : ∀ entry ∈ (Table.empty.storeAll entries).entries, entry.1.toCell.key = .ok entry.1) :
    Sound ⟨(held.heap.newTable entries).2, (held.heap.newTable entries).1 :: held.handles⟩ where
  counted := (h.counted.newTable hsupplies).congr fun _ => Cell.count_cons ..
  keyed := h.keyed.newTable habsorbs hkeys

/-- Whatever is done with tables keeps the counts right. -/
theorem Sound.step (h : held.Sound) (hstep : Step held target last) : last.Sound := by
  cases hstep with
  | create =>
      refine h.newTable (.inl nofun) trivial ?_
      intro entry hentry
      change entry ∈ Table.empty.entries at hentry
      rw [Table.empty_entries] at hentry
      cases hentry
  | clone halive =>
      refine ⟨(h.counted.hold (h.holders_pos halive)).congr fun _ => Cell.count_cons .., ?_⟩
      intro other table htable
      exact h.keyed other table ((Heap.table?_retain _ (.table _) other).symm.trans htable)
  | @set heap after handles id key value hid hvalue hset =>
      rcases Heap.set_eq_ok hset with ⟨k, hkey, rfl⟩
      rcases h.exists_table? hid with ⟨table, htable⟩
      -- A table with a handle is alive, so there is something to store in.
      have hnode : heap.node? id ≠ none := by
        intro hnone
        rw [Heap.table?, hnone] at htable
        cases htable
      have hheld (child : TableId) (hchild : value = .table child) : 0 < heap.holders child :=
        h.holders_pos (hvalue child hchild)
      exact ⟨h.counted.insert hnode k hheld,
        h.keyed.insert h.counted htable (Heap.key_toCell hkey) value⟩
  | @copy heap after handles id copy hid hcopy =>
      rcases h.exists_table? hid with ⟨table, htable⟩
      rcases h.counted.absorbs_entries htable with ⟨habsorbs, hsame⟩
      rw [h.copy_eq htable] at hcopy
      cases hcopy
      exact h.newTable (supplies hid htable) habsorbs (hsame.symm ▸ h.keyed id table htable)
  | @drop heap handles id hid =>
      have hpending : heap.Counted (fun other => (handles.erase id).count other +
          (Cell.table id).holds other) none := by
        refine h.counted.congr fun other => ?_
        rw [← Cell.count_cons, (List.perm_cons_erase hid).count_eq]
      refine ⟨hpending.release, ?_⟩
      intro other table htable
      exact h.keyed other table (Heap.table?_of_release htable)

/-- No identity is given out twice, whatever is done. -/
theorem Step.follows (h : held.Sound) (hstep : Step held target last) :
    last.heap.Follows held.heap := by
  cases hstep with
  | create => exact Heap.follows_newTable _ _
  | clone halive => exact Heap.follows_retain _ (.table _)
  | set hid hvalue hset =>
      rcases Heap.set_eq_ok hset with ⟨k, -, rfl⟩
      exact Heap.follows_insert ..
  | copy hid hcopy =>
      rcases h.exists_table? hid with ⟨table, htable⟩
      rw [h.copy_eq htable] at hcopy
      cases hcopy
      exact Heap.follows_newTable _ _
  | drop hid => exact Heap.follows_release _ (.table _)

/-- A table that was there before and survives is as it was, unless the step sets it. -/
theorem Step.table?_eq (h : held.Sound) (hstep : Step held target last) (htarget : target ≠ some id)
    (hold : id < held.heap.nodes.size) {table : Table} (htable : last.heap.table? id = some table) :
    held.heap.table? id = some table := by
  have hnew {heap : Heap} {entries : List Entry} (hsize : id < heap.nodes.size)
      (habsorbs : Table.empty.Absorbs entries)
      (htable : (heap.newTable entries).2.table? id = some table) : heap.table? id = some table := by
    rw [Heap.table?, heap.node?_newTable habsorbs, if_neg (Nat.ne_of_lt hsize), Option.map_map]
      at htable
    exact htable
  cases hstep with
  | create => exact @hnew _ [] hold trivial htable
  | clone halive => exact (Heap.table?_retain _ (.table _) id).symm.trans htable
  | set hid hvalue hset =>
      rcases Heap.set_eq_ok hset with ⟨k, -, rfl⟩
      exact Heap.table?_of_insert (fun heq => htarget (congrArg some heq.symm)) htable
  | copy hid hcopy =>
      rcases h.exists_table? hid with ⟨source, hsource⟩
      rw [h.copy_eq hsource] at hcopy
      cases hcopy
      exact hnew hold (h.counted.absorbs_entries hsource).1 htable
  | drop hid => exact Heap.table?_of_release htable

/-! ## Many steps -/

theorem sound_empty : Sound ⟨.empty, []⟩ := by
  refine ⟨Heap.counted_empty, ?_⟩
  intro id table htable
  cases htable

/-- Many steps keep the counts right. -/
theorem Run.sound (h : first.Sound) (hrun : Run first targets last) : last.Sound := by
  induction hrun with
  | refl => exact h
  | tail hrun hstep ih => exact ih.step hstep

/-- What came about from nothing has the right counts. -/
theorem Built.sound (h : held.Built) : held.Sound := by
  rcases h with ⟨targets, hrun⟩
  exact hrun.sound sound_empty

/-- No step brings a destroyed table back. -/
theorem Run.follows (h : first.Sound) (hrun : Run first targets last) :
    last.heap.Follows first.heap := by
  induction hrun with
  | refl => exact .refl _
  | tail hrun hstep ih => exact (hstep.follows (hrun.sound h)).trans ih

/-- A table that was there before and survives is as it was, if it was not set meanwhile. -/
theorem Run.table?_eq (h : first.Sound) (hrun : Run first targets last) (htargets : id ∉ targets)
    (hold : id < first.heap.nodes.size) {table : Table}
    (htable : last.heap.table? id = some table) : first.heap.table? id = some table := by
  -- By induction from behind: a table that survives the last step was alive before it.
  induction hrun with
  | refl => exact htable
  | @tail between last targets target hrun hstep ih =>
      rw [List.mem_append, not_or] at htargets
      have htarget : target ≠ some id := by
        rintro rfl
        exact htargets.1 (List.mem_singleton.2 rfl)
      have hsize := Nat.lt_of_lt_of_le hold (hrun.follows h).size_le
      exact ih htargets.2 (hstep.table?_eq (hrun.sound h) htarget hsize htable)

end Holdings
end CellMachine
