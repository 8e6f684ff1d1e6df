import Mathlib
import CellMachine.Heap.Text
import CellMachine.Proofs.Heap.Reachability

/-!
# The display of tables

What is written of a table is the text of a drawing: a tree of nested tables in which some places
hold a mark instead of a table.  The drawing is defined by recursion on the path of the tables that
enclose a place, and `Heap.output_writeCell` shows that the writer, which hands a stack from call to
call, has that path on its stack at each call.

The places of the drawing are the branches of the heap, that is the walks along edges that end as
soon as they come to a table for the second time.  A place holds a mark if its branch ended that
way, and a table with all of its entries if not.
-/

namespace CellMachine

/-! ## Drawings -/

/-- A cell as it is displayed: a table nested in itself is only marked. -/
inductive Drawing
  | flat (cell : Cell)
  | mark (id : TableId)
  | table (id : TableId) (entries : List (Key × Drawing))

namespace Drawing

def plainText : Cell → String
  | .text s => "\"" ++ s ++ "\""
  | cell => cell.flatText

def text : Drawing → String
  | flat cell => plainText cell
  | mark _ => "<cycle>"
  | table _ entries =>
      "[" ++ String.intercalate ", " (entries.map fun entry =>
        "\x7b" ++ plainText entry.1.toCell ++ " : " ++ entry.2.text ++ "\x7d") ++ "]"
termination_by drawing => sizeOf drawing
decreasing_by
  have := List.sizeOf_lt_of_mem ‹entry ∈ entries›
  rcases entry with ⟨key, part⟩
  simp only [Prod.mk.sizeOf_spec, table.sizeOf_spec] at this ⊢
  omega

/-- Whether a part stands in a drawing at a place that the tables of a path enclose, the innermost
first. -/
inductive Occurs (drawing : Drawing) : List TableId → Drawing → Prop
  | root : drawing.Occurs [] drawing
  | entry {path : List TableId} {id : TableId} {entries : List (Key × Drawing)}
      {entry : Key × Drawing} :
      drawing.Occurs path (.table id entries) → entry ∈ entries →
        drawing.Occurs (id :: path) entry.2

end Drawing

namespace Heap

variable {heap : Heap} {path : List TableId} {root id child : TableId} {cell : Cell}

/-! ## Entries -/

/-- A table that was destroyed has no entries. -/
theorem mem_entries_iff {entry : Entry} :
    entry ∈ heap.entries id ↔ ∃ table, heap.table? id = some table ∧ entry ∈ table.entries := by
  rw [entries]
  cases heap.table? id with
  | none => simp
  | some table => simp

/-- An edge is an entry that holds a table. -/
theorem edge_iff : heap.Edge id child ↔ ∃ key, (key, .table child) ∈ heap.entries id := by
  simp only [mem_entries_iff, Edge, Table.children, List.mem_filterMap]
  constructor
  · rintro ⟨table, htable, ⟨key, cell⟩, hmem, hcell⟩
    obtain rfl : cell = .table child := by
      cases cell <;> first | exact congrArg _ (Option.some.inj hcell) | cases hcell
    exact ⟨key, table, htable, hmem⟩
  · rintro ⟨key, table, htable, hmem⟩
    exact ⟨table, htable, _, hmem, rfl⟩

/-! ## The drawing of a table -/

/-- The drawing of a cell below a path. -/
def draw (heap : Heap) (path : List TableId) : Cell → Drawing
  | .table id =>
      if id ∈ path then .mark id
      else
        .table id ((heap.entries id).attach.map fun entry =>
          (entry.1.1, heap.draw (id :: path) entry.1.2))
  | cell => .flat cell
termination_by (heap.offStack path).length
decreasing_by
  obtain ⟨table, htable, -⟩ := mem_entries_iff.1 entry.2
  exact length_offStack_cons_lt ‹id ∉ path› htable

/-- A table on the path is only marked. -/
theorem draw_of_mem (h : id ∈ path) : heap.draw path (.table id) = .mark id := by
  rw [draw, if_pos h]

/-- A table off the path is drawn with its entries, below the path with that table on it. -/
theorem draw_of_not_mem (h : id ∉ path) :
    heap.draw path (.table id) =
      .table id ((heap.entries id).map fun entry =>
        (entry.1, heap.draw (id :: path) entry.2)) := by
  let drawn (entry : Entry) : Key × Drawing := (entry.1, heap.draw (id :: path) entry.2)
  rw [draw, if_neg h]
  exact congrArg (Drawing.table id) (List.attach_map_val (f := drawn))

/-- Marks stand for the tables on the path and for nothing else. -/
theorem draw_eq_mark_iff :
    heap.draw path cell = .mark id ↔ cell = .table id ∧ id ∈ path := by
  constructor
  · fun_cases heap.draw path cell with
    | case1 id hid => rintro ⟨⟩; exact ⟨rfl, hid⟩
    | case2 => rintro ⟨⟩
    | case3 => rintro ⟨⟩
  · rintro ⟨rfl, hid⟩
    exact draw_of_mem hid

/-- What is drawn with its entries is a table off the path. -/
theorem draw_eq_table_iff {parts : List (Key × Drawing)} :
    heap.draw path cell = .table id parts ↔ cell = .table id ∧ id ∉ path ∧
      parts = (heap.entries id).map fun entry => (entry.1, heap.draw (id :: path) entry.2) := by
  constructor
  · intro h
    have hcell : cell = .table id ∧ id ∉ path := by
      revert h
      fun_cases heap.draw path cell with
      | case1 => rintro ⟨⟩
      | case2 id hid => rintro ⟨⟩; exact ⟨rfl, hid⟩
      | case3 => rintro ⟨⟩
    rw [hcell.1, draw_of_not_mem hcell.2] at h
    exact ⟨hcell.1, hcell.2, (Drawing.table.inj h).2.symm⟩
  · rintro ⟨rfl, hid, rfl⟩
    exact draw_of_not_mem hid

def drawing (heap : Heap) (id : TableId) : Drawing :=
  heap.draw [] (.table id)

/-! ## The writer -/

/-- What follows on an entry is written with the stack that the entry has left, which is the stack
that it has found. -/
theorem writeEntries_cons (heap : Heap) (seen : List TableId) (entry : Entry) (rest : List Entry) :
    (heap.writeEntries seen (entry :: rest)).output =
        entryText entry.1 (heap.writeCell seen entry.2).output ::
          (heap.writeEntries seen rest).output ∧
      (heap.writeEntries seen (entry :: rest)).depth =
        max (heap.writeCell seen entry.2).depth (heap.writeEntries seen rest).depth := by
  rcases entry with ⟨key, cell⟩
  rw [writeEntries]
  dsimp only
  rw [(heap.writeCell seen cell).balanced]
  exact ⟨rfl, rfl⟩

/-- Entries are written one by one, and what one of them has written does not matter to the next. -/
theorem output_writeEntries (heap : Heap) (seen : List TableId) (entries : List Entry) :
    (heap.writeEntries seen entries).output =
      entries.map fun entry => entryText entry.1 (heap.writeCell seen entry.2).output := by
  induction entries with
  | nil => rw [writeEntries]; rfl
  | cons entry rest ih => rw [(heap.writeEntries_cons seen entry rest).1, ih, List.map_cons]

/-- Entries nest as deep as the deepest of them. -/
theorem depth_writeEntries_le {seen : List TableId} {entries : List Entry} {n : Nat}
    (h : ∀ entry ∈ entries, (heap.writeCell seen entry.2).depth ≤ n) :
    (heap.writeEntries seen entries).depth ≤ n := by
  induction entries with
  | nil => rw [writeEntries]; exact Nat.zero_le n
  | cons entry rest ih =>
      rw [List.forall_mem_cons] at h
      rw [(heap.writeEntries_cons seen entry rest).2]
      exact Nat.max_le.2 ⟨h.1, ih h.2⟩

theorem writeTable_of_mem (h : id ∈ path) :
    heap.writeTable path id = ⟨"<cycle>", path, 1, rfl⟩ := by
  rw [writeTable, dif_pos h]

/-- A table off the path is written as the list of its entries, one level deeper than they are. -/
theorem writeTable_of_not_mem (h : id ∉ path) :
    (heap.writeTable path id).output =
        listText (heap.writeEntries (id :: path) (heap.entries id)).output ∧
      (heap.writeTable path id).depth =
        (heap.writeEntries (id :: path) (heap.entries id)).depth + 1 := by
  rw [writeTable, dif_neg h, entries]
  split <;> rename_i htable
  · rw [htable, writeEntries]
    exact ⟨rfl, rfl⟩
  · rw [htable]
    exact ⟨rfl, rfl⟩

/-- A cell without a table is written as it is drawn. -/
theorem leafText_eq (cell : Cell) : leafText cell = Drawing.plainText cell := by
  cases cell with
  | text s => rfl
  | _ => rfl

theorem entryText_eq (key : Key) (value : String) :
    entryText key value = "\x7b" ++ Drawing.plainText key.toCell ++ " : " ++ value ++ "\x7d" := by
  cases key with
  | text s => rfl
  | number x => rfl

/-- The writer writes the drawing. -/
theorem output_writeCell (heap : Heap) (path : List TableId) (cell : Cell) :
    (heap.writeCell path cell).output = (heap.draw path cell).text := by
  induction path, cell using draw.induct heap with
  | case1 path id hid => rw [draw_of_mem hid, writeCell, writeTable_of_mem hid, Drawing.text]
  | case2 path id hid ih =>
      rw [draw_of_not_mem hid, writeCell, (writeTable_of_not_mem hid).1, output_writeEntries,
        Drawing.text, List.map_map]
      refine congrArg listText (List.map_congr_left fun entry hentry => ?_)
      exact (entryText_eq _ _).trans (by rw [ih ⟨entry, hentry⟩]; rfl)
  | case3 path cell hflat =>
      rw [draw, writeCell, Drawing.text, leafText_eq]
      · exact hflat
      · exact hflat

/-- Each table that is being written takes one from those that are not, and a mark may be written
inside of the last one. -/
theorem depth_writeCell_le (heap : Heap) (path : List TableId) (cell : Cell) :
    (heap.writeCell path cell).depth ≤ (heap.offStack path).length + 1 := by
  induction path, cell using draw.induct heap with
  | case1 path id hid =>
      rw [writeCell, writeTable_of_mem hid]
      exact Nat.succ_le_succ (Nat.zero_le _)
  | case2 path id hid ih =>
      rw [writeCell, (writeTable_of_not_mem hid).2]
      refine Nat.succ_le_succ (depth_writeEntries_le fun entry hentry => ?_)
      obtain ⟨table, htable, -⟩ := mem_entries_iff.1 hentry
      exact (ih ⟨entry, hentry⟩).trans (length_offStack_cons_lt hid htable)
  | case3 path cell hflat =>
      rw [writeCell]
      · exact Nat.zero_le _
      · exact hflat

/-- Off the empty stack are all living tables. -/
theorem length_offStack_nil (heap : Heap) : (heap.offStack []).length = heap.aliveCount := by
  have hnodes : heap.nodes.toList = (List.range heap.nodes.size).map heap.node? := by
    refine List.ext_getElem (by simp) fun i hi _ => ?_
    have hi : i < heap.nodes.size := by simpa using hi
    simp [node?, hi]
  rw [aliveCount, ← Array.countP_toList, hnodes, List.countP_map, List.countP_eq_length_filter]
  simp [offStack, isAlive, Function.comp_def]

/-! ## Branches -/

/-- Whether a walk along edges from a root has come to a table by way of a path, the last table
first.  The walk goes on from a table only if it has not met it before. -/
inductive Branch (heap : Heap) (root : TableId) : List TableId → TableId → Prop
  | root : heap.Branch root [] root
  | edge {path : List TableId} {id child : TableId} :
      heap.Branch root path id → id ∉ path → heap.Edge id child →
        heap.Branch root (id :: path) child

/-- A branch goes along edges, and the tables on its path lead to its end. -/
theorem Branch.reaches (h : heap.Branch root path id) :
    Relation.ReflTransGen heap.Edge root id ∧
      ∀ enclosing ∈ path, Relation.TransGen heap.Edge enclosing id := by
  induction h with
  | root => exact ⟨.refl, nofun⟩
  | edge _ _ hedge ih =>
      refine ⟨ih.1.tail hedge, fun enclosing hmem => ?_⟩
      rcases List.mem_cons.1 hmem with rfl | hmem
      · exact .single hedge
      · exact (ih.2 enclosing hmem).tail hedge

/-- If no branch comes to a table twice, then branches lead wherever edges lead. -/
theorem Branch.extend (hnone : ∀ path id, heap.Branch root path id → id ∉ path)
    (h : heap.Branch root path id) (hreaches : Relation.ReflTransGen heap.Edge id child) :
    ∃ path', path ⊆ path' ∧ heap.Branch root path' child := by
  induction hreaches with
  | refl => exact ⟨path, List.Subset.refl path, h⟩
  | tail _ hedge ih =>
      obtain ⟨path', hsubset, h'⟩ := ih
      exact ⟨_ :: path', List.subset_cons_of_subset _ hsubset, h'.edge (hnone _ _ h') hedge⟩

/-- A branch that comes to a table twice is there exactly if a cycle can be reached. -/
theorem exists_branch_mem_iff :
    (∃ path id, heap.Branch root path id ∧ id ∈ path) ↔
      ∃ id, Relation.ReflTransGen heap.Edge root id ∧ Relation.TransGen heap.Edge id id := by
  constructor
  · rintro ⟨path, id, hbranch, hmem⟩
    exact ⟨id, hbranch.reaches.1, hbranch.reaches.2 id hmem⟩
  · rintro ⟨id, hreaches, hcycle⟩
    by_contra hnone
    have hnone : ∀ path id, heap.Branch root path id → id ∉ path :=
      fun path id hbranch hmem => hnone ⟨path, id, hbranch, hmem⟩
    -- Once around the cycle, the table is on the path of the branch that comes back to it.
    obtain ⟨path, -, hbranch⟩ := Branch.root.extend hnone hreaches
    obtain ⟨next, hedge, hback⟩ := Relation.TransGen.head'_iff.1 hcycle
    obtain ⟨path', hsubset, hbranch'⟩ :=
      (hbranch.edge (hnone _ _ hbranch) hedge).extend hnone hback
    exact hnone _ _ hbranch' (hsubset List.mem_cons_self)

/-! ## The places of a drawing -/

/-- What stands at a place is the drawing of a cell below the path of the place, and if the cell
holds a table, a branch comes to it there. -/
theorem exists_of_occurs {part : Drawing} (h : (heap.drawing root).Occurs path part) :
    ∃ cell, heap.draw path cell = part ∧
      ∀ id, cell = .table id → heap.Branch root path id := by
  induction h with
  | root => exact ⟨.table root, rfl, fun id hid => Cell.table.inj hid ▸ .root⟩
  | entry _ hentry ih =>
      obtain ⟨cell, hpart, hbranch⟩ := ih
      obtain ⟨hcell, hid, rfl⟩ := draw_eq_table_iff.1 hpart
      obtain ⟨stored, hstored, rfl⟩ := List.mem_map.1 hentry
      refine ⟨stored.2, rfl, fun child hchild => (hbranch _ hcell).edge hid ?_⟩
      exact edge_iff.2 ⟨stored.1, hchild ▸ hstored⟩

/-- A branch leads to a place of the drawing. -/
theorem Branch.occurs (h : heap.Branch root path id) :
    (heap.drawing root).Occurs path (heap.draw path (.table id)) := by
  induction h with
  | root => exact .root
  | @edge path id child _ hid hedge ih =>
      obtain ⟨key, hmem⟩ := edge_iff.1 hedge
      rw [draw_of_not_mem hid] at ih
      exact ih.entry (List.mem_map_of_mem hmem)

/-- The marks stand where a branch comes to a table that encloses the place. -/
theorem occurs_mark_iff :
    (heap.drawing root).Occurs path (.mark id) ↔ heap.Branch root path id ∧ id ∈ path := by
  constructor
  · intro h
    obtain ⟨cell, hpart, hbranch⟩ := exists_of_occurs h
    obtain ⟨hcell, hid⟩ := draw_eq_mark_iff.1 hpart
    exact ⟨hbranch id hcell, hid⟩
  · rintro ⟨hbranch, hid⟩
    exact draw_of_mem hid ▸ hbranch.occurs

/-- The tables stand where a branch comes to a table that does not enclose the place, with all of
their entries. -/
theorem occurs_table_iff {parts : List (Key × Drawing)} :
    (heap.drawing root).Occurs path (.table id parts) ↔
      heap.Branch root path id ∧ id ∉ path ∧
        parts = (heap.entries id).map fun entry => (entry.1, heap.draw (id :: path) entry.2) := by
  constructor
  · intro h
    obtain ⟨cell, hpart, hbranch⟩ := exists_of_occurs h
    obtain ⟨hcell, hid, hparts⟩ := draw_eq_table_iff.1 hpart
    exact ⟨hbranch id hcell, hid, hparts⟩
  · rintro ⟨hbranch, hid, rfl⟩
    exact draw_of_not_mem hid ▸ hbranch.occurs

/-- A drawing depends on those tables of the path only to which the cell leads. -/
theorem draw_congr {path' : List TableId}
    (h : ∀ start, cell = .table start → ∀ id, Relation.ReflTransGen heap.Edge start id →
      (id ∈ path ↔ id ∈ path')) : heap.draw path cell = heap.draw path' cell := by
  induction path, cell using draw.induct heap generalizing path' with
  | case1 path id hid => rw [draw_of_mem hid, draw_of_mem ((h id rfl id .refl).1 hid)]
  | case2 path id hid ih =>
      rw [draw_of_not_mem hid, draw_of_not_mem (mt (h id rfl id .refl).2 hid)]
      -- Below the table, it is on both paths.
      refine congrArg (Drawing.table id) (List.map_congr_left fun entry hentry =>
        Prod.ext rfl (ih ⟨entry, hentry⟩ fun start hstart other hother => ?_))
      have hedge : heap.Edge id start := edge_iff.2 ⟨entry.1, hstart ▸ hentry⟩
      simp only [List.mem_cons, h id rfl other (.head hedge hother)]
  | case3 path cell hflat => rw [draw, draw] <;> exact hflat

/-! ## The text of a table -/

/-- The text of a table is the text of its drawing. -/
theorem text_table (heap : Heap) (id : TableId) :
    heap.text (.table id) = (heap.drawing id).text := by
  rw [text, drawing, ← output_writeCell, writeCell]

/-- A table that holds itself. -/
example :
    let heap : Heap := ⟨#[some ⟨1, Table.empty.insert (.text "me") (.table 0)⟩]⟩
    heap.text (.table 0) = "[\x7b\"me\" : <cycle>\x7d]" := by
  intro heap
  have hentries : heap.entries 0 = [(.text "me", .table 0)] := by decide +kernel
  rw [text_table, drawing, draw_of_not_mem List.not_mem_nil, hentries]
  simp only [List.map_cons, List.map_nil, draw_of_mem List.mem_cons_self, Drawing.text]
  decide +kernel

/-- The text of a table at a place from which none of the tables around it can be reached is the
text of the table by itself, at each such place. -/
theorem text_eq_of_occurs {parts : List (Key × Drawing)}
    (hoccurs : (heap.drawing root).Occurs path (.table id parts))
    (hnone : ∀ enclosing ∈ path, ¬Relation.ReflTransGen heap.Edge id enclosing) :
    (Drawing.table id parts).text = heap.text (.table id) := by
  obtain ⟨-, hid, hparts⟩ := occurs_table_iff.1 hoccurs
  rw [text_table, hparts, ← draw_of_not_mem hid]
  refine congrArg Drawing.text (draw_congr fun start hstart other hother => ?_)
  obtain rfl := Cell.table.inj hstart
  exact iff_of_false (fun hmem => hnone other hmem hother) List.not_mem_nil

/-- The text of a table is the text of its drawing, and no more tables are written inside each other
than are alive, not counting a mark.  At a place of the drawing to which a branch of the heap comes,
there is a mark if the table encloses the place, and else the table with all of its entries in their
order.  So a table to which several branches come is written out at each of them: as it is by
itself, unless one of the tables around it can be reached from it.  There are marks exactly if a
cycle can be reached. -/
theorem text_marks_back_references (heap : Heap) (root : TableId) :
    heap.text (.table root) = (heap.drawing root).text ∧
      (heap.writeTable [] root).depth ≤ heap.aliveCount + 1 ∧
      (∀ path id, (heap.drawing root).Occurs path (.mark id) ↔
        heap.Branch root path id ∧ id ∈ path) ∧
      (∀ path id parts, (heap.drawing root).Occurs path (.table id parts) ↔
        heap.Branch root path id ∧ id ∉ path ∧
          parts = (heap.entries id).map fun entry =>
            (entry.1, heap.draw (id :: path) entry.2)) ∧
      (∀ path id parts, (heap.drawing root).Occurs path (.table id parts) →
        (∀ enclosing ∈ path, ¬Relation.ReflTransGen heap.Edge id enclosing) →
          (Drawing.table id parts).text = heap.text (.table id)) ∧
      ((∃ path id, (heap.drawing root).Occurs path (.mark id)) ↔
        ∃ id, Relation.ReflTransGen heap.Edge root id ∧ Relation.TransGen heap.Edge id id) := by
  refine ⟨heap.text_table root, ?depth, fun path id => occurs_mark_iff,
    fun path id parts => occurs_table_iff, fun path id parts => text_eq_of_occurs, ?cycles⟩
  case depth =>
    have h := heap.depth_writeCell_le [] (.table root)
    rwa [length_offStack_nil, writeCell] at h
  case cycles =>
    simp only [occurs_mark_iff]
    exact exists_branch_mem_iff

def tangled : Heap :=
  ⟨#[some ⟨2, ((Table.empty.insert (.text "self") (.table 0)).insert (.text "left") (.table 1)).insert
      (.number 1) (.table 1)⟩,
    some ⟨2, Table.empty⟩]⟩

/-- The first table is marked below itself, and the other one is written out. -/
theorem text_marks_back_references_tangled :
    (tangled.writeTable [] 0).depth ≤ 3 ∧
      (tangled.drawing 0).Occurs [0] (.mark 0) ∧ (tangled.drawing 0).Occurs [0] (.table 1 []) ∧
      (∀ enclosing ∈ [0], ¬Relation.ReflTransGen tangled.Edge 1 enclosing) ∧
      (Drawing.table 1 []).text = tangled.text (.table 1) := by
  have hself : tangled.Edge 0 0 := edge_iff.2 ⟨.text "self", by decide +kernel⟩
  have hleft : tangled.Edge 0 1 := edge_iff.2 ⟨.text "left", by decide +kernel⟩
  have hentries : tangled.entries 1 = [] := by decide +kernel
  have hroot {id : TableId} (hedge : tangled.Edge 0 id) : tangled.Branch 0 [0] id :=
    Branch.root.edge List.not_mem_nil hedge
  have hnone : ∀ enclosing ∈ [0], ¬Relation.ReflTransGen tangled.Edge 1 enclosing := by
    intro enclosing hmem hreaches
    obtain rfl := List.mem_singleton.1 hmem
    rcases hreaches.cases_head with heq | ⟨next, hedge, -⟩
    · cases heq
    · obtain ⟨key, hkey⟩ := edge_iff.1 hedge
      rw [hentries] at hkey
      cases hkey
  have h := text_marks_back_references tangled 0
  have hmark := (h.2.2.1 [0] 0).2 ⟨hroot hself, List.mem_cons_self⟩
  have htable := (h.2.2.2.1 [0] 1 []).2 ⟨hroot hleft, by decide, by rw [hentries]; rfl⟩
  exact ⟨h.2.1, hmark, htable, hnone, h.2.2.2.2.1 [0] 1 [] htable hnone⟩

end Heap
end CellMachine
