import Mathlib
import CellMachine.Proofs.Table.Entries

/-!
# Rebuilding a table from its entries

Entries of new and different keys that are stored in a table go to the front of their chains, and
leave everything else where it is.  A table lists each chain from its oldest entry on, so to store
its entries in an empty table makes all its chains again, in the same order:
`WellFormed.storeAll_entries`.
-/

namespace CellMachine
namespace Table

variable {table : Table} {key : Key} {cell : Cell} {entries : List Entry}

def storeAll (table : Table) (entries : List Entry) : Table :=
  entries.foldl (fun table entry => table.insert entry.1 entry.2) table

/-- Whether entries have keys that are not stored yet and address different entries. -/
structure News (table : Table) (entries : List Entry) : Prop where
  unknown : ∀ entry ∈ entries, table.get? entry.1 = none
  distinct : entries.Pairwise fun a b => a.1.same b.1 = false

theorem get?_empty (key : Key) : empty.get? key = none := by
  rw [empty_wellFormed.get?_eq_none_iff, empty_entries]
  intro entry hentry
  cases hentry

/-- To an empty table all entries are new whose keys differ. -/
theorem news_empty (hdistinct : entries.Pairwise fun a b => a.1.same b.1 = false) :
    empty.News entries :=
  ⟨fun entry _ => get?_empty entry.1, hdistinct⟩

/-! ## One new entry -/

/-- A new entry stands first in the chain of its key. -/
theorem chains_insert_of_unknown (h : table.get? key = none) (cell : Cell)
    (i : Fin (2 * Key.groupSize)) :
    (table.insert key cell).chains.get i =
      if key.chain = i then (key, cell) :: table.chains.get i else table.chains.get i := by
  have hchain : (Chain.exchange key cell table.chains[key.chain]).2 =
      (key, cell) :: table.chains[key.chain] := by
    have hget : Chain.get? key table.chains[key.chain] = none := h
    rw [Chain.exchange, hget]
  change (table.chains.set key.chain (Chain.exchange key cell table.chains[key.chain]).2)[(i : Nat)]
    = _
  rw [hchain, Vector.getElem_set]
  by_cases hi : key.chain = i
  · subst hi
    rw [if_pos rfl, if_pos rfl]
    rfl
  · rw [if_neg fun hval => hi (Fin.ext hval), if_neg hi]
    rfl

/-- What addresses neither a stored key nor the new one is not stored afterwards. -/
theorem WellFormed.get?_insert_of_unknown (h : table.WellFormed) (hkey : table.get? key = none)
    {other : Key} (hother : table.get? other = none) (hne : key.same other = false) :
    (table.insert key cell).get? other = none := by
  rw [(h.insert key cell).get?_eq_none_iff]
  rcases h.insert_cases key cell with ⟨-, before, after, hold, hnew⟩ | ⟨_, _, _, _, hget, -⟩
  · have hothers := h.get?_eq_none_iff.1 hother
    intro stored hstored
    rw [hold] at hothers
    rw [hnew, List.mem_append, List.mem_cons] at hstored
    rcases hstored with hmem | rfl | hmem
    · exact hothers stored (List.mem_append_left _ hmem)
    · exact hne
    · exact hothers stored (List.mem_append_right _ hmem)
  · rw [hkey] at hget
    cases hget

/-- An insertion stores no key but its own. -/
theorem WellFormed.mem_keys_insert (h : table.WellFormed) {other : Key}
    (hother : other ∈ (table.insert key cell).keys) : other = key ∨ other ∈ table.keys := by
  rcases h.keys_insert key cell with ⟨-, before, after, hold, hnew⟩ | ⟨-, hnew⟩
  · rw [hnew, List.mem_append, List.mem_cons] at hother
    rw [hold, List.mem_append]
    rcases hother with hmem | rfl | hmem
    · exact .inr (.inl hmem)
    · exact .inl rfl
    · exact .inr (.inr hmem)
  · exact .inr (hnew ▸ hother)

/-- After the first one of new entries the others are new still. -/
theorem WellFormed.news_insert (h : table.WellFormed) {entry : Entry}
    (hnews : table.News (entry :: entries)) :
    table.get? entry.1 = none ∧ (table.insert entry.1 entry.2).News entries := by
  have hdistinct := List.pairwise_cons.1 hnews.distinct
  have hfirst := hnews.unknown entry (List.mem_cons_self ..)
  refine ⟨hfirst, ?_, hdistinct.2⟩
  intro other hother
  exact h.get?_insert_of_unknown hfirst (hnews.unknown other (List.mem_cons_of_mem _ hother))
    (hdistinct.1 other hother)

/-! ## All new entries -/

/-- Storing entries keeps a table well-formed. -/
theorem WellFormed.storeAll (h : table.WellFormed) (entries : List Entry) :
    (table.storeAll entries).WellFormed := by
  induction entries generalizing table with
  | nil => exact h
  | cons entry entries ih => exact ih (h.insert entry.1 entry.2)

/-- No key is stored but those of the entries, whether they are new or not. -/
theorem WellFormed.mem_keys_storeAll (h : table.WellFormed)
    (hkey : key ∈ (table.storeAll entries).keys) : key ∈ entries.map Prod.fst ∨ key ∈ table.keys := by
  induction entries generalizing table with
  | nil => exact .inr hkey
  | cons entry entries ih =>
      rw [List.map_cons, List.mem_cons]
      rcases ih (h.insert entry.1 entry.2) hkey with hlater | hearlier
      · exact .inl (.inr hlater)
      · rcases h.mem_keys_insert hearlier with hfirst | hbefore
        · exact .inl (.inl hfirst)
        · exact .inr hbefore

/-- New entries stand in front of their chains, the last one first. -/
theorem WellFormed.chains_storeAll (h : table.WellFormed) (hnews : table.News entries)
    (i : Fin (2 * Key.groupSize)) :
    (table.storeAll entries).chains.get i =
      (entries.filter fun entry => entry.1.chain = i).reverse ++ table.chains.get i := by
  induction entries generalizing table with
  | nil => rfl
  | cons entry entries ih =>
      rcases h.news_insert hnews with ⟨hfirst, hrest⟩
      have hstored := ih (h.insert entry.1 entry.2) hrest
      rw [chains_insert_of_unknown hfirst] at hstored
      refine hstored.trans ?_
      -- The first entry is in front of the old chain, and the later ones are in front of it.
      by_cases hi : entry.1.chain = i
      · simp [hi]
      · simp [hi]

/-- Nothing but the new entries is added. -/
theorem WellFormed.mem_storeAll_iff (h : table.WellFormed) (hnews : table.News entries)
    (entry : Entry) :
    entry ∈ (table.storeAll entries).entries ↔ entry ∈ entries ∨ entry ∈ table.entries := by
  have hchain (i : Fin (2 * Key.groupSize)) : entry ∈ (table.storeAll entries).chains[i] ↔
      entry ∈ entries ∧ entry.1.chain = i ∨ entry ∈ table.chains[i] := by
    change entry ∈ (table.storeAll entries).chains.get i ↔ _
    rw [h.chains_storeAll hnews, List.mem_append, List.mem_reverse, List.mem_filter,
      decide_eq_true_eq]
    rfl
  simp only [mem_entries_iff, hchain, exists_or, exists_and_left, exists_eq', and_true]

/-- Every new entry counts. -/
theorem WellFormed.size_storeAll (h : table.WellFormed) (hnews : table.News entries) :
    (table.storeAll entries).size = entries.length + table.size := by
  induction entries generalizing table with
  | nil => exact (Nat.zero_add _).symm
  | cons entry entries ih =>
      rcases h.news_insert hnews with ⟨hfirst, hrest⟩
      calc
        ((table.insert entry.1 entry.2).storeAll entries).size
            = entries.length + (table.insert entry.1 entry.2).size :=
          ih (h.insert entry.1 entry.2) hrest
        _ = (entry :: entries).length + table.size := by
          rw [size_insert, if_pos hfirst, List.length_cons]
          omega

/-! ## The entries of a table -/

/-- The entries of one chain are a stretch of all entries, and no other entry is at home there. -/
theorem WellFormed.filter_entries (h : table.WellFormed) (i : Fin (2 * Key.groupSize)) :
    table.entries.filter (fun entry => entry.1.chain = i) = (table.chains.get i).reverse := by
  have hi : (i : Nat) < table.chains.toList.length := by
    rw [Vector.length_toList]
    exact i.isLt
  have hhome (j : Nat) (hj : j < table.chains.toList.length) (entry : Entry)
      (hmem : entry ∈ table.chains.toList[j]) : (entry.1.chain : Nat) = j := by
    rw [Vector.length_toList] at hj
    exact congrArg Fin.val (h.home ⟨j, hj⟩ entry (by simpa using hmem))
  have hothers {chains : List (List Entry)} (hchains : ∀ chain ∈ chains,
      ∃ (j : Nat) (hj : j < table.chains.toList.length),
        table.chains.toList[j] = chain ∧ j ≠ (i : Nat)) :
      (chains.flatMap List.reverse).filter (fun entry => entry.1.chain = i) = [] := by
    rw [List.filter_eq_nil_iff]
    intro entry hentry hchain
    rcases List.mem_flatMap.1 hentry with ⟨chain, hmem, hreverse⟩
    rcases hchains chain hmem with ⟨j, hj, rfl, hne⟩
    have hat := hhome j hj entry (List.mem_reverse.1 hreverse)
    exact hne (hat.symm.trans (congrArg Fin.val (of_decide_eq_true hchain)))
  -- The chains before this one, this one, and the chains behind it.
  have hsplit := List.take_append_drop (i : Nat) table.chains.toList
  rw [List.drop_eq_getElem_cons hi] at hsplit
  rw [entries, ← hsplit, List.flatMap_append, List.flatMap_cons, List.filter_append,
    List.filter_append, hothers, hothers, List.nil_append, List.append_nil,
    List.filter_eq_self.2]
  · rw [Vector.getElem_toList]
    rfl
  · intro entry hentry
    exact decide_eq_true (Fin.ext (hhome i hi entry (List.mem_reverse.1 hentry)))
  · intro chain hchain
    rcases List.mem_iff_getElem.1 hchain with ⟨j, hj, rfl⟩
    rw [List.length_drop] at hj
    exact ⟨(i : Nat) + 1 + j, by omega, by rw [List.getElem_drop], by omega⟩
  · intro chain hchain
    rcases List.mem_iff_getElem.1 hchain with ⟨j, hj, rfl⟩
    rw [List.length_take] at hj
    exact ⟨j, by omega, by rw [List.getElem_take], by omega⟩

/-- To store the entries of a table in an empty one makes the same table again. -/
theorem WellFormed.storeAll_entries (h : table.WellFormed) :
    empty.storeAll table.entries = table := by
  have hchains : (empty.storeAll table.entries).chains = table.chains := by
    refine Vector.ext fun i hi => ?_
    have hstored := empty_wellFormed.chains_storeAll (news_empty h.distinct) ⟨i, hi⟩
    have hempty := empty_wellFormed.filter_entries ⟨i, hi⟩
    rw [empty_entries, List.filter_nil, eq_comm, List.reverse_eq_nil_iff] at hempty
    rw [h.filter_entries, List.reverse_reverse, hempty, List.append_nil] at hstored
    exact hstored
  cases table
  exact congrArg Table.mk hchains

end Table
end CellMachine
