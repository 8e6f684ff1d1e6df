import Mathlib
import CellMachine.Proofs.Heap.Holdings
import CellMachine.Proofs.Library.Standard
import CellMachine.Proofs.Machine.Room
import CellMachine.Proofs.Machine.Writes
import CellMachine.Proofs.Number.Word

/-!
# Copies and lists of keys

Two standard functions answer with a new table: one copies a table, the other one lists its keys
under the natural numbers.  `Heap.Copied` and `Heap.Lists` say what the new table is and that
nothing else changes but the counts of what it holds.  The main statement is
`Holdings.Built.copies_and_lists`.

The keys are listed under numbers, which tell all natural numbers up to `2 ^ 53` apart and no
further ones.  No memory holds a table of that many entries, but nothing in a heap rules it out.
-/

namespace CellMachine

/-! ## Numbers that list -/

namespace Number

theorem same_ofNat_self {n : Nat} (h : n ≤ 2 ^ 53) : same (ofNat n) (ofNat n) = true := by
  rw [same_self_iff, value_ofNat h]
  nofun

/-- Natural numbers that are not rounded are different keys. -/
theorem eq_of_same_ofNat {m n : Nat} (hm : m ≤ 2 ^ 53) (hn : n ≤ 2 ^ 53)
    (h : same (ofNat m) (ofNat n) = true) : m = n := by
  have hzero {k : Nat} (hk : k ≤ 2 ^ 53) (h : isZero (ofNat k) = true) : k = 0 := by
    rcases value_of_isZero h with ⟨negative, hvalue⟩
    rw [value_ofNat hk] at hvalue
    cases negative with
    | true => cases hvalue
    | false =>
        have hproduct : k * one = 0 := by simpa using hvalue
        exact (Nat.mul_eq_zero.1 hproduct).resolve_right one_pos.ne'
  rcases (same_iff _ _).1 h with ⟨heq, -⟩ | ⟨hmzero, hnzero⟩
  · have hword := toWord?_ofNat hm
    rw [heq, toWord?_ofNat hn] at hword
    exact (Option.some.inj hword).symm
  · rw [hzero hm hmzero, hzero hn hnzero]

end Number

namespace Library
namespace Standard

variable {cells : List Cell}

theorem length_listed (cells : List Cell) : (listed cells).length = cells.length := by
  rw [listed, List.length_map, List.length_zipIdx]

/-- The cells stand under their positions. -/
theorem getElem_listed {i : Nat} (h : i < (listed cells).length) :
    (listed cells)[i] = (.number (Number.ofNat i), cells.get ⟨i, length_listed cells ▸ h⟩) := by
  simp [listed]

/-- Listed cells have different keys. -/
theorem news_listed (h : cells.length ≤ 2 ^ 53) : Table.empty.News (listed cells) := by
  refine Table.news_empty (List.pairwise_iff_getElem.2 ?_)
  intro i j hi hj hlt
  rw [getElem_listed hi, getElem_listed hj, Bool.eq_false_iff]
  intro hsame
  rw [length_listed] at hi hj
  exact Nat.ne_of_lt hlt (Number.eq_of_same_ofNat (by omega) (by omega) hsame)

end Standard
end Library

/-! ## What the answers are -/

namespace Heap

/-- Whether a new table is a copy of another one, and nothing changed but what the copy holds. -/
structure Copied (before : Heap) (id copy : TableId) (after : Heap) : Prop where
  /-- The copy is another table, and was not there before. -/
  ne : copy ≠ id
  new : before.nodes.size ≤ copy
  /-- Who asked for the copy is the only one that holds it. -/
  holders_copy : after.holders copy = 1
  size_eq : after.size copy = before.size id
  /-- The same keys in the same order, with the same cells. -/
  entries_eq : after.entries copy = before.entries id
  get?_eq : ∀ key, after.get? copy key = before.get? id key
  /-- Whatever was alive before has the entries that it had. -/
  others : ∀ other, before.isAlive other = true → after.table? other = before.table? other
  /-- Each entry of the copy holds what it holds once more. -/
  counts : ∀ other, before.isAlive other = true → after.holders other =
    before.holders other + (before.entries id).countP fun entry => entry.2 = .table other

/-- Whether a new table is filled with the keys of another one, and nothing else changed. -/
structure Lists (before : Heap) (id list : TableId) (after : Heap) : Prop where
  new : before.nodes.size ≤ list
  holders_list : after.holders list = 1
  /-- No key but the numbers from zero on, below the count of the keys. -/
  get?_eq_none : ∀ key, (∀ i < before.size id, Key.same (.number (Number.ofNat i)) key = false) →
    after.get? list key = none
  others : ∀ other, before.isAlive other = true →
    after.table? other = before.table? other ∧ after.holders other = before.holders other

variable {heap : Heap} {id : TableId} {table : Table} {entries : List Entry}

theorem size_of_table? (h : heap.table? id = some table) : heap.size id = table.size := by
  rw [size, h]

/-- The entries of a living table are those of the table. -/
theorem entries_of_table? (h : heap.table? id = some table) : heap.entries id = table.entries := by
  rw [Heap.entries, h]

theorem get?_of_table? (h : heap.table? id = some table) (key : Key) :
    heap.get? id key = table.get? key := by
  rw [get?, h]
  rfl

/-- The size of a table is the count of its entries. -/
theorem size_entries (heap : Heap) (id : TableId) : (heap.entries id).length = heap.size id := by
  rw [Heap.entries, size]
  split
  · rw [Table.size_eq, Table.keys, List.length_map]
  · rfl

end Heap

/-! ## Calls -/

namespace Library
namespace Standard

variable {state : State} {id : TableId}

/-- A function finds the table that it is passed. -/
theorem run_tableOf (function : String)
    (h : state.stack.actualAt state.stack.frame 0 = .ok (some (.table id))) :
    (tableOf function).run state = .ok id state := by
  have hactual : (Exec.actual 0).run state = .ok (some (.table id)) state :=
    Exec.run_decide_of_ok h
  have hargument : (argumentOf function 0).run state = .ok (.table id) state := by
    rw [argumentOf, Exec.run_bind_of_ok hactual]
    rfl
  rw [tableOf, Exec.run_bind_of_ok hargument]
  rfl

/-- The answer is the new table, which is held by the return register then. -/
theorem run_setResultTable (hplain : state.result.table? = none) (entries : List Entry) :
    ∃ answered, (Exec.setResultTable entries).run state = .ok () answered ∧
      answered.result = .table (state.heap.newTable entries).1 ∧
      answered.heap = (state.heap.newTable entries).2 := by
  refine ⟨_, rfl, rfl, ?_⟩
  have hresult : (state.createTable entries).2.result = state.result :=
    State.result_insertEntries _ _ _
  change ((state.createTable entries).2.heap.retain (.table (state.createTable entries).1)).release
    (state.createTable entries).2.result = _
  rw [hresult, Heap.release, hplain, State.heap_createTable]
  rfl

/-- The answer of a copy is a new table with the same entries. -/
theorem run_copy (h : state.stack.actualAt state.stack.frame 0 = .ok (some (.table id)))
    (hplain : state.result.table? = none) :
    ∃ answered, copy.run state = .ok () answered ∧
      answered.result = .table (state.heap.newTable (state.heap.entries id)).1 ∧
      answered.heap = (state.heap.newTable (state.heap.entries id)).2 := by
  rw [copy, Exec.run_bind_of_ok (run_tableOf _ h)]
  exact run_setResultTable hplain _

/-- The answer of a key list is a new table with the keys under their positions. -/
theorem run_memberKeys (h : state.stack.actualAt state.stack.frame 0 = .ok (some (.table id)))
    (hplain : state.result.table? = none) :
    ∃ answered, memberKeys.run state = .ok () answered ∧
      answered.result = .table (state.heap.newTable
        (listed ((state.heap.entries id).map fun entry => entry.1.toCell))).1 ∧
      answered.heap = (state.heap.newTable
        (listed ((state.heap.entries id).map fun entry => entry.1.toCell))).2 := by
  rw [memberKeys, Exec.run_bind_of_ok (run_tableOf _ h)]
  exact run_setResultTable hplain _

end Standard
end Library

/-! ## The statement -/

namespace Holdings

open Library.Standard

variable {held : Holdings} {id : TableId}

/-- What is made of the entries of a table is a copy of it. -/
theorem Sound.copied (h : held.Sound) {table : Table} (htable : held.heap.table? id = some table) :
    held.heap.Copied id held.heap.nodes.size (held.heap.newTable table.entries).2 := by
  rcases h.counted.absorbs_entries htable with ⟨habsorbs, hsame⟩
  have hlt := Heap.lt_size_of_isAlive (Heap.isAlive_of_table? htable)
  have hcopy := held.heap.table?_newTable habsorbs
  rw [hsame] at hcopy
  have hnode := held.heap.node?_newTable habsorbs held.heap.nodes.size
  rw [if_pos rfl, h.counted.countP_size_eq_zero htable] at hnode
  refine ⟨(Nat.ne_of_lt hlt).symm, Nat.le_refl _, Heap.holders_of_node? hnode, ?_, ?_, ?_, ?_, ?_⟩
  · rw [Heap.size_of_table? hcopy, Heap.size_of_table? htable]
  · rw [Heap.entries_of_table? hcopy, Heap.entries_of_table? htable]
  · intro key
    rw [Heap.get?_of_table? hcopy, Heap.get?_of_table? htable]
  · exact fun other halive => (Heap.node?_newTable_of_isAlive habsorbs halive).1
  · intro other halive
    rw [Heap.entries_of_table? htable]
    exact (Heap.node?_newTable_of_isAlive habsorbs halive).2

/-- The keys of a table, listed in a new table. -/
theorem lists (heap : Heap) (id : TableId) :
    heap.Lists id heap.nodes.size
      (heap.newTable (listed ((heap.entries id).map fun entry => entry.1.toCell))).2 := by
  have hplain := listed_plain (heap.entries id)
  generalize hcells : (heap.entries id).map (fun entry => entry.1.toCell) = cells at hplain
  have habsorbs : Table.empty.Absorbs (listed cells) :=
    Table.empty_wellFormed.absorbs_plain Table.empty_children hplain
  -- Keys are no tables, so listing them adds no holder.
  have hcount (other : TableId) :
      ((listed cells).countP fun entry => entry.2 = .table other) = 0 := by
    rw [List.countP_eq_zero]
    intro entry hentry hchild
    have hnone := hplain entry hentry
    rw [of_decide_eq_true hchild] at hnone
    cases hnone
  have hnode := heap.node?_newTable habsorbs heap.nodes.size
  rw [if_pos rfl, hcount] at hnode
  refine ⟨Nat.le_refl _, Heap.holders_of_node? hnode, ?_, ?_⟩
  · intro key hkey
    rw [Heap.get?_of_table? (heap.table?_newTable habsorbs),
      (Table.empty_wellFormed.storeAll _).get?_eq_none_iff]
    intro entry hentry
    rcases Table.empty_wellFormed.mem_keys_storeAll (List.mem_map_of_mem hentry) with hmem | hmem
    · rcases List.mem_map.1 hmem with ⟨stored, hstored, hsame⟩
      rcases List.mem_iff_getElem.1 hstored with ⟨i, hi, rfl⟩
      rw [← hsame, getElem_listed]
      refine hkey i ?_
      rwa [length_listed, ← hcells, List.length_map, Heap.size_entries] at hi
    · rw [Table.keys, Table.empty_entries] at hmem
      cases hmem
  · intro other halive
    have hother := Heap.node?_newTable_of_isAlive habsorbs halive
    rw [hcount] at hother
    exact hother

/-- Below the numbers that are rounded, each key is listed under its place. -/
theorem listed_in_order (heap : Heap) {cells : List Cell}
    (habsorbs : Table.empty.Absorbs (listed cells)) (hlength : cells.length ≤ 2 ^ 53) :
    (heap.newTable (listed cells)).2.size heap.nodes.size = cells.length ∧
      ∀ (i : Nat) (hi : i < cells.length),
        (heap.newTable (listed cells)).2.get? heap.nodes.size (.number (Number.ofNat i)) =
          some cells[i] := by
  have htable := heap.table?_newTable habsorbs
  have hnews := news_listed hlength
  constructor
  · rw [Heap.size_of_table? htable, Table.empty_wellFormed.size_storeAll hnews, length_listed,
      Table.size_eq, Table.keys, Table.empty_entries]
    rfl
  · intro i hi
    have hlisted : i < (listed cells).length := (length_listed cells).symm ▸ hi
    have hmem := List.getElem_mem hlisted
    rw [getElem_listed] at hmem
    rw [Heap.get?_of_table? htable, (Table.empty_wellFormed.storeAll _).get?_eq_some_iff]
    exact ⟨_, (Table.empty_wellFormed.mem_storeAll_iff hnews _).2 (.inl hmem),
      Number.same_ofNat_self (by omega)⟩

/-- A table that is held can be copied and its keys can be listed, however it was built.  The copy
has the same entries in the same order, nothing else changes but the counts of what it holds, and
whatever is done later, only what is set itself changes.  The standard functions answer with these
tables. -/
theorem Built.copies_and_lists (h : held.Built) (hid : id ∈ held.handles) :
    ∃ copied after, held.heap.copy id = .ok (copied, after) ∧ held.heap.Copied id copied after ∧
      (∀ targets later, Run ⟨after, copied :: held.handles⟩ targets later →
        (id ∉ targets → later.heap.isAlive id = true →
          later.heap.entries id = held.heap.entries id) ∧
        (copied ∉ targets → later.heap.isAlive copied = true →
          later.heap.entries copied = held.heap.entries id)) ∧
      ∀ state : State, state.heap = held.heap → state.result.table? = none →
        state.stack.actualAt state.stack.frame 0 = .ok (some (.table id)) →
        (∃ answered, copy.run state = .ok () answered ∧ answered.result = .table copied ∧
          answered.heap = after) ∧
        ∃ answered list, memberKeys.run state = .ok () answered ∧ answered.result = .table list ∧
          held.heap.Lists id list answered.heap ∧
          (held.heap.size id ≤ 2 ^ 53 → answered.heap.size list = held.heap.size id ∧
            ∀ (i : Nat) (hi : i < (held.heap.entries id).length),
              answered.heap.get? list (.number (Number.ofNat i)) =
                some (held.heap.entries id)[i].1.toCell) := by
  have hsound := h.sound
  rcases hsound.exists_table? hid with ⟨table, htable⟩
  have hcopied := hsound.copied htable
  have hcopy := hsound.copy_eq htable
  have hentries := Heap.entries_of_table? htable
  refine ⟨_, _, hcopy, hcopied, ?_, ?_⟩
  · intro targets later hrun
    have hafter : Sound ⟨(held.heap.newTable table.entries).2,
        held.heap.nodes.size :: held.handles⟩ := hsound.step (.copy hid hcopy)
    -- Both are there when the copy is made, and a table that is not set afterwards stays the same.
    have hkept {other : TableId} (hother : other ∉ targets)
        (hlt : other < (held.heap.newTable table.entries).2.nodes.size)
        (halive : later.heap.isAlive other = true) :
        later.heap.entries other = (held.heap.newTable table.entries).2.entries other := by
      rcases Heap.exists_table?_of_isAlive halive with ⟨last, hlast⟩
      rw [Heap.entries_of_table? hlast,
        Heap.entries_of_table? (hrun.table?_eq hafter hother hlt hlast)]
    have hlarger := held.heap.size_lt_newTable table.entries
    constructor
    · intro htargets halive
      have hbefore := Heap.isAlive_of_table? htable
      have hlt := Nat.lt_trans (Heap.lt_size_of_isAlive hbefore) hlarger
      rw [hkept htargets hlt halive, hentries,
        Heap.entries_of_table? ((hcopied.others id hbefore).trans htable)]
    · intro htargets halive
      exact (hkept htargets hlarger halive).trans hcopied.entries_eq
  · rintro state hheap hplain hactual
    have hrunCopy := run_copy hactual hplain
    have hrunKeys := run_memberKeys hactual hplain
    rw [hheap, hentries] at hrunCopy
    rw [hheap] at hrunKeys
    refine ⟨hrunCopy, ?_⟩
    rcases hrunKeys with ⟨answered, hrun, hresult, hanswered⟩
    refine ⟨answered, _, hrun, hresult, ?_, ?_⟩
    · rw [hanswered]
      exact lists held.heap id
    · intro hsize
      have habsorbs := Table.empty_wellFormed.absorbs_plain Table.empty_children
        (listed_plain (held.heap.entries id))
      have horder := listed_in_order held.heap habsorbs
        (by rwa [List.length_map, Heap.size_entries])
      rw [hanswered]
      constructor
      · exact horder.1.trans (by rw [List.length_map, Heap.size_entries])
      · intro i hi
        have hlisted := horder.2 i (by rwa [List.length_map])
        rwa [List.getElem_map] at hlisted

def looped : Holdings where
  heap :=
    let bare := ((Heap.empty.newTable []).2.newTable []).2
    (bare.insert 0 (.text "self") (.table 0)).insert 0 (.number (Number.ofNat 7)) (.table 1)
  handles := [1, 0]

theorem looped_built : looped.Built := by
  have hcreated := ((Run.refl ⟨.empty, []⟩).tail .create).tail .create
  have hself := hcreated.tail (@Step.set _ _ _ 0 (.text "self") (.table 0) (by decide)
    (by rintro child ⟨⟩; decide +kernel) rfl)
  have hkey : (Cell.number (Number.ofNat 7)).key = .ok (.number (Number.ofNat 7)) := by
    rw [Cell.key, Cell.key?, if_neg (by decide +kernel)]
  have hset (heap : Heap) : heap.set 0 (.number (Number.ofNat 7)) (.table 1) =
      .ok (heap.insert 0 (.number (Number.ofNat 7)) (.table 1)) := by
    rw [Heap.set, hkey]
    rfl
  have hother := hself.tail (.set (by decide) (by rintro child ⟨⟩; decide +kernel) (hset _))
  exact ⟨_, hother⟩

/-- The copy of a table that holds itself holds the table and not itself. -/
theorem copies_and_lists_looped : looped.Built ∧ 0 ∈ looped.handles ∧
    looped.heap.size 0 = 2 ∧ looped.heap.holders 0 = 2 ∧ looped.heap.holders 1 = 2 ∧
      ∃ copied after, looped.heap.copy 0 = .ok (copied, after) ∧ copied ≠ 0 ∧
        after.size copied = 2 ∧ after.get? copied (.text "self") = some (.table 0) ∧
        after.holders 0 = 3 ∧ after.holders 1 = 3 := by
  have hmem : 0 ∈ looped.handles := by decide
  have hsize : looped.heap.size 0 = 2 := by
    rw [← Heap.size_entries]
    decide +kernel
  rcases looped_built.copies_and_lists hmem with ⟨copied, after, hcopy, hcopied, -⟩
  refine ⟨looped_built, hmem, hsize, by decide +kernel, by decide +kernel, copied, after, hcopy,
    hcopied.ne, hcopied.size_eq.trans hsize, ?_, ?_, ?_⟩
  · rw [hcopied.get?_eq]
    decide +kernel
  · rw [hcopied.counts 0 (by decide +kernel)]
    decide +kernel
  · rw [hcopied.counts 1 (by decide +kernel)]
    decide +kernel

end Holdings
end CellMachine
