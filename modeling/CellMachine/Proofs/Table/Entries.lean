import Mathlib
import CellMachine.Proofs.Table.Keys

/-!
# Entries

A table is well-formed if every entry stands in the chain of its key and no two entries have keys
that address the same entry.  On such a table an insertion does one of two things to the list of
entries, and `WellFormed.insert_cases` says which: it replaces one cell, or it puts one entry in
between.  What tables keep for programs and what the heap counts are both read off this one
statement.
-/

namespace CellMachine

/-! ## Chains -/

namespace Chain

variable {key : Key} {cell : Cell} {chain : List Entry}

/-- Nothing is found in a chain if no key addresses the same entry. -/
theorem get?_eq_none_iff :
    get? key chain = none ↔ ∀ entry ∈ chain, entry.1.same key = false := by
  simp [get?]

/-- A stored key splits the chain at its entry. -/
theorem exists_of_get? {old : Cell} (h : get? key chain = some old) :
    ∃ stored newer older, chain = newer ++ (stored, old) :: older ∧ stored.same key = true := by
  rw [get?, Option.map_eq_some_iff] at h
  rcases h with ⟨⟨stored, old'⟩, hfind, rfl⟩
  rcases List.find?_eq_some_iff_append.1 hfind with ⟨hsame, newer, older, hchain, -⟩
  exact ⟨stored, newer, older, hchain, hsame⟩

/-- A key that addresses no entry replaces none. -/
theorem replace_of_ne (h : ∀ entry ∈ chain, entry.1.same key = false) :
    replace key cell chain = chain := by
  refine (List.map_congr_left fun entry hmem => ?_).trans (List.map_id chain)
  rw [h entry hmem]
  rfl

/-- If no two entries of a chain address the same one, the entry of a key alone is replaced. -/
theorem replace_split {stored : Key} {old : Cell} {newer older : List Entry}
    (hsame : stored.same key = true)
    (hdistinct : (newer ++ (stored, old) :: older).Pairwise fun a b => b.1.same a.1 = false) :
    replace key cell (newer ++ (stored, old) :: older) = newer ++ (stored, cell) :: older := by
  rw [List.pairwise_append, List.pairwise_cons] at hdistinct
  rcases hdistinct with ⟨-, ⟨holder, -⟩, hnewer⟩
  -- What addresses another entry than the stored key addresses another one than the key.
  have hne {entry : Entry} (hentry : entry.1.same stored = false) :
      entry.1.same key = false := by
    by_contra htrue
    have := Key.same_trans (Bool.not_eq_false _ ▸ htrue) (Key.same_symm hsame)
    rw [hentry] at this
    cases this
  have hunchanged : replace key cell newer = newer ∧ replace key cell older = older := by
    constructor
    · apply replace_of_ne
      intro entry hmem
      apply hne
      rw [Key.same_comm]
      exact hnewer entry hmem (stored, old) (List.mem_cons_self ..)
    · apply replace_of_ne
      intro entry hmem
      exact hne (holder entry hmem)
  calc
    replace key cell (newer ++ (stored, old) :: older)
        = replace key cell newer ++ (if stored.same key then (stored, cell)
            else (stored, old)) :: replace key cell older := by
          rw [replace, List.map_append, List.map_cons]
          rfl
    _ = newer ++ (stored, cell) :: older := by
          rw [if_pos hsame, hunchanged.1, hunchanged.2]

/-- A chain grows by the entry of a new key; the entry of a known key is replaced in its place. -/
theorem length_exchange (key : Key) (cell : Cell) (chain : List Entry) :
    (exchange key cell chain).2.length =
      if get? key chain = none then chain.length + 1 else chain.length := by
  rw [exchange]
  cases get? key chain with
  | none => rfl
  | some old => exact List.length_map _

end Chain

/-! ## Well-formed tables -/

namespace Table

/-- Whether every entry stands in the chain of its key, and no two address the same entry. -/
structure WellFormed (table : Table) : Prop where
  home : ∀ (i : Fin (2 * Key.groupSize)), ∀ entry ∈ table.chains[i], entry.1.chain = i
  distinct : table.entries.Pairwise fun a b => a.1.same b.1 = false

variable {table : Table} {key other : Key} {cell : Cell}

/-- The entries are those of all chains. -/
theorem mem_entries_iff (table : Table) (entry : Entry) :
    entry ∈ table.entries ↔ ∃ i : Fin (2 * Key.groupSize), entry ∈ table.chains[i] := by
  simp only [entries, List.mem_flatMap, List.mem_reverse, Vector.mem_toList_iff]
  constructor
  · rintro ⟨chain, hchain, hmem⟩
    rcases Vector.mem_iff_getElem.1 hchain with ⟨i, hi, rfl⟩
    exact ⟨⟨i, hi⟩, hmem⟩
  · rintro ⟨i, hmem⟩
    exact ⟨table.chains[i], Vector.getElem_mem _, hmem⟩

theorem empty_entries : empty.entries = [] := by
  rw [entries, List.flatMap_eq_nil_iff]
  intro chain hchain
  rw [empty, Vector.toList_replicate] at hchain
  rw [List.eq_of_mem_replicate hchain]
  rfl

theorem empty_wellFormed : empty.WellFormed := by
  refine ⟨fun i entry hmem => ?_, by rw [empty_entries]; exact .nil⟩
  have := (mem_entries_iff empty entry).2 ⟨i, hmem⟩
  rw [empty_entries] at this
  cases this

/-- Entries with keys of the same entry are equal. -/
theorem WellFormed.eq_of_same (h : table.WellFormed) {a b : Entry} (ha : a ∈ table.entries)
    (hb : b ∈ table.entries) (hsame : a.1.same b.1 = true) : a = b := by
  by_contra hne
  have hsymm : Std.Symm fun a b : Entry => a.1.same b.1 = false :=
    ⟨fun a b h => by rw [Key.same_comm, h]⟩
  rw [h.distinct.forall ha hb hne] at hsame
  cases hsame

/-- What is stored under a key is the cell of the entry that the key addresses. -/
theorem WellFormed.get?_eq_some_iff (h : table.WellFormed) :
    table.get? key = some cell ↔
      ∃ stored, (stored, cell) ∈ table.entries ∧ stored.same key = true := by
  constructor
  · intro hget
    rcases Chain.exists_of_get? hget with ⟨stored, newer, older, hchain, hsame⟩
    refine ⟨stored, (mem_entries_iff table _).2 ⟨key.chain, ?_⟩, hsame⟩
    rw [hchain]
    simp
  · rintro ⟨stored, hmem, hsame⟩
    rcases (mem_entries_iff table _).1 hmem with ⟨i, hi⟩
    have hhome : key.chain = i := (Key.chain_eq_of_same hsame).symm.trans (h.home i _ hi)
    cases hget : table.get? key with
    | none =>
        -- The entry is at home in the chain that was searched.
        have := Chain.get?_eq_none_iff.1 hget _ (hhome ▸ hi)
        rw [hsame] at this
        cases this
    | some old =>
        rcases Chain.exists_of_get? hget with ⟨found, newer, older, hchain, hfound⟩
        have hmem' : (found, old) ∈ table.entries :=
          (mem_entries_iff table _).2 ⟨key.chain, by rw [hchain]; simp⟩
        have heq := h.eq_of_same hmem' hmem (Key.same_trans hfound (Key.same_symm hsame))
        cases heq
        rfl

/-- Nothing is found in a table if no key in any chain addresses the same entry. -/
theorem WellFormed.get?_eq_none_iff (h : table.WellFormed) :
    table.get? key = none ↔ ∀ entry ∈ table.entries, entry.1.same key = false := by
  constructor
  · intro hget entry hmem
    by_contra hsame
    have := h.get?_eq_some_iff.2 ⟨entry.1, hmem, Bool.not_eq_false _ ▸ hsame⟩
    rw [hget] at this
    cases this
  · intro hall
    cases hget : table.get? key with
    | none => rfl
    | some old =>
        rcases h.get?_eq_some_iff.1 hget with ⟨stored, hmem, hsame⟩
        rw [hall _ hmem] at hsame
        cases hsame

/-! ## Insertions -/

/-- Another chain in its place changes one stretch of the entries. -/
theorem entries_set (table : Table) (i : Fin (2 * Key.groupSize)) (chain : List Entry) :
    ∃ before after, table.entries = before ++ table.chains[i].reverse ++ after ∧
      (Table.mk (table.chains.set i chain)).entries = before ++ chain.reverse ++ after := by
  refine ⟨(table.chains.toList.take i).flatMap List.reverse,
    (table.chains.toList.drop (i + 1)).flatMap List.reverse, ?_, ?_⟩
  · have hi : (i : Nat) < table.chains.toList.length := by
      rw [Vector.length_toList]
      exact i.isLt
    have hsplit := List.take_append_drop i table.chains.toList
    rw [List.drop_eq_getElem_cons hi] at hsplit
    rw [entries, congrArg (List.flatMap List.reverse) hsplit.symm]
    simp
  · rw [entries, Vector.toList_set, List.set_eq_take_append_cons_drop]
    simp

/-- An insertion puts one new entry in between, or replaces the cell of one entry. -/
theorem WellFormed.insert_cases (h : table.WellFormed) (key : Key) (cell : Cell) :
    (table.get? key = none ∧ ∃ before after, table.entries = before ++ after ∧
        (table.insert key cell).entries = before ++ (key, cell) :: after) ∨
      ∃ old stored before after, table.get? key = some old ∧ stored.same key = true ∧
        table.entries = before ++ (stored, old) :: after ∧
        (table.insert key cell).entries = before ++ (stored, cell) :: after := by
  rcases table.entries_set key.chain (Chain.exchange key cell table.chains[key.chain]).2 with
    ⟨before, after, hold, hnew⟩
  change (table.insert key cell).entries = _ at hnew
  cases hget : table.get? key with
  | none =>
      -- The newest entry stands first in its chain, and chains are listed from behind.
      have hget' : Chain.get? key table.chains[key.chain] = none := hget
      refine .inl ⟨rfl, before ++ table.chains[key.chain].reverse, after, hold, ?_⟩
      rw [hnew, Chain.exchange, hget']
      simp
  | some old =>
      have hget' : Chain.get? key table.chains[key.chain] = some old := hget
      rcases Chain.exists_of_get? hget' with ⟨stored, newer, older, hchain, hsame⟩
      -- The chain is a stretch of the entries, so its entries are distinct as well.
      have hdistinct := h.distinct
      rw [hold, List.pairwise_append, List.pairwise_append, hchain, List.pairwise_reverse]
        at hdistinct
      have hreplace : Chain.replace key cell (newer ++ (stored, old) :: older) =
          newer ++ (stored, cell) :: older := Chain.replace_split hsame hdistinct.1.2.1
      refine .inr ⟨old, stored, before ++ older.reverse, newer.reverse ++ after, rfl, hsame, ?_, ?_⟩
      · rw [hold, hchain]
        simp
      · rw [hnew, Chain.exchange, hget', hchain]
        simp only [hreplace]
        simp

/-- An entry of a new key stands between old ones; a known key changes no key. -/
theorem WellFormed.keys_insert (h : table.WellFormed) (key : Key) (cell : Cell) :
    (table.get? key = none ∧ ∃ before after, table.keys = before ++ after ∧
        (table.insert key cell).keys = before ++ key :: after) ∨
      table.get? key ≠ none ∧ (table.insert key cell).keys = table.keys := by
  rcases h.insert_cases key cell with ⟨hget, before, after, hold, hnew⟩ |
    ⟨old, stored, before, after, hget, -, hold, hnew⟩
  · refine .inl ⟨hget, before.map Prod.fst, after.map Prod.fst, ?_, ?_⟩
    · rw [keys, hold, List.map_append]
    · rw [keys, hnew, List.map_append, List.map_cons]
  · refine .inr ⟨by simp [hget], ?_⟩
    rw [keys, keys, hnew, hold, List.map_append, List.map_cons, List.map_append, List.map_cons]

/-- Every entry stays in the chain of its key. -/
theorem insert_home (h : table.WellFormed) (i : Fin (2 * Key.groupSize)) :
    ∀ entry ∈ (table.insert key cell).chains[i], entry.1.chain = i := by
  intro entry hmem
  change entry ∈ (table.chains.set key.chain
    (Chain.exchange key cell table.chains[key.chain]).2)[(i : Nat)] at hmem
  rw [Vector.getElem_set] at hmem
  split at hmem
  · rename_i hi
    have hi : key.chain = i := Fin.ext hi
    rw [Chain.exchange] at hmem
    split at hmem
    · rcases List.mem_map.1 hmem with ⟨stored, hstored, rfl⟩
      have hhome := h.home _ stored hstored
      split
      · exact hhome.trans hi
      · exact hhome.trans hi
    · rcases List.mem_cons.1 hmem with rfl | hmem
      · exact hi
      · exact (h.home _ entry hmem).trans hi
  · exact h.home i entry hmem

/-- An insertion keeps a table well-formed. -/
theorem WellFormed.insert (h : table.WellFormed) (key : Key) (cell : Cell) :
    (table.insert key cell).WellFormed := by
  refine ⟨insert_home h, ?_⟩
  rcases h.insert_cases key cell with ⟨hget, before, after, hold, hnew⟩ |
    ⟨old, stored, before, after, hget, hsame, hold, hnew⟩
  · -- The key is new, so it addresses none of the entries around it.
    have hdistinct := h.distinct
    have hothers := h.get?_eq_none_iff.1 hget
    rw [hold] at hdistinct hothers
    rw [List.pairwise_append] at hdistinct
    rcases hdistinct with ⟨hbefore, hafter, hacross⟩
    rw [hnew, List.pairwise_append, List.pairwise_cons]
    refine ⟨hbefore, ⟨?_, hafter⟩, ?_⟩
    · intro entry hmem
      rw [Key.same_comm]
      exact hothers entry (List.mem_append_right _ hmem)
    · intro a ha b hb
      rcases List.mem_cons.1 hb with rfl | hb
      · exact hothers a (List.mem_append_left _ ha)
      · exact hacross a ha b hb
  · -- The keys are the old ones, and distinctness speaks of keys only.
    have hdistinct := h.distinct
    rw [hold, List.pairwise_append, List.pairwise_cons] at hdistinct
    rcases hdistinct with ⟨hbefore, ⟨hfirst, hafter⟩, hacross⟩
    rw [hnew, List.pairwise_append, List.pairwise_cons]
    refine ⟨hbefore, ⟨hfirst, hafter⟩, fun a ha b hb => ?_⟩
    rcases List.mem_cons.1 hb with rfl | hb
    · exact hacross a ha (stored, old) (List.mem_cons_self ..)
    · exact hacross a ha b (List.mem_cons_of_mem _ hb)

/-- Reading after an insertion. -/
theorem WellFormed.get?_insert (h : table.WellFormed) (hkey : key.same key = true) (cell : Cell)
    (other : Key) :
    (table.insert key cell).get? other =
      if key.same other then some cell else table.get? other := by
  have hnew := h.insert key cell
  -- Both kinds of insertion come to this: one entry of the key, and all others as they were.
  obtain ⟨stored, before, after, hsame, hentries, hothers⟩ : ∃ stored before after,
      stored.same key = true ∧ (table.insert key cell).entries = before ++ (stored, cell) :: after ∧
        ∀ entry, entry.1.same stored = false →
          (entry ∈ table.entries ↔ entry ∈ before ++ after) := by
    rcases h.insert_cases key cell with ⟨-, before, after, hold, hnew⟩ |
      ⟨old, stored, before, after, -, hsame, hold, hnew⟩
    · exact ⟨key, before, after, hkey, hnew, fun entry _ => by rw [hold]⟩
    · refine ⟨stored, before, after, hsame, hnew, fun entry hne => ?_⟩
      have hself := Key.same_trans hsame (Key.same_symm hsame)
      rw [hold, List.mem_append, List.mem_append, List.mem_cons]
      constructor
      · rintro (hmem | rfl | hmem)
        · exact .inl hmem
        · rw [hself] at hne
          cases hne
        · exact .inr hmem
      · rintro (hmem | hmem)
        · exact .inl hmem
        · exact .inr (.inr hmem)
  by_cases hother : key.same other = true
  · rw [if_pos hother]
    refine hnew.get?_eq_some_iff.2 ⟨stored, ?_, Key.same_trans hsame hother⟩
    rw [hentries]
    simp
  · rw [if_neg hother]
    -- An entry of the other key is none of the new entry, so it is there before and after.
    refine Option.ext ?_
    intro found
    rw [hnew.get?_eq_some_iff, h.get?_eq_some_iff]
    refine exists_congr fun address => and_congr_left ?_
    intro haddress
    have hne : address.same stored = false := by
      by_contra htrue
      have htrue := Bool.not_eq_false _ ▸ htrue
      exact hother (Key.same_trans (Key.same_symm (Key.same_trans htrue hsame)) haddress)
    have hself : (address, found) ≠ (stored, cell) := by
      rintro ⟨⟩
      rw [Key.same_trans hsame (Key.same_symm hsame)] at hne
      cases hne
    rw [hothers (address, found) hne, hentries]
    simp [hself]

/-! ## Order and size -/

/-- Texts are listed before numbers. -/
theorem WellFormed.keys_split (h : table.WellFormed) :
    ∃ texts numbers, table.keys = texts ++ numbers ∧ (∀ key ∈ texts, ∃ s, key = .text s) ∧
      ∀ key ∈ numbers, ∃ x, key = .number x := by
  have hchain (j : Nat) (hj : j < table.chains.toList.length) (entry : Entry)
      (hmem : entry ∈ table.chains.toList[j]) : (entry.1.chain : Nat) = j := by
    rw [Vector.length_toList] at hj
    exact congrArg Fin.val (h.home ⟨j, hj⟩ entry (by simpa using hmem))
  -- The chains of texts come first; a key in one of them is at home there, so it is a text.
  refine ⟨((table.chains.toList.take Key.groupSize).flatMap List.reverse).map Prod.fst,
    ((table.chains.toList.drop Key.groupSize).flatMap List.reverse).map Prod.fst, ?_, ?_, ?_⟩
  · rw [← List.map_append, ← List.flatMap_append, List.take_append_drop]
    rfl
  · intro key hkey
    simp only [List.mem_map, List.mem_flatMap, List.mem_reverse] at hkey
    rcases hkey with ⟨entry, ⟨chain, hmem, hentry⟩, rfl⟩
    rcases List.mem_take_iff_getElem.1 hmem with ⟨j, hj, rfl⟩
    have hj' := hchain j (by omega) entry hentry
    cases hkey : entry.1 with
    | text s => exact ⟨s, rfl⟩
    | number x =>
        rw [hkey, Key.chain] at hj'
        simp only at hj'
        omega
  · intro key hkey
    simp only [List.mem_map, List.mem_flatMap, List.mem_reverse] at hkey
    rcases hkey with ⟨entry, ⟨chain, hmem, hentry⟩, rfl⟩
    rcases List.mem_drop_iff_getElem.1 hmem with ⟨j, hj, rfl⟩
    have hj' := hchain (Key.groupSize + j) (by omega) entry hentry
    cases hkey : entry.1 with
    | text s =>
        have := Key.hashText_lt s
        rw [hkey, Key.chain] at hj'
        simp only at hj'
        omega
    | number x => exact ⟨x, rfl⟩

/-- The size is the count of keys. -/
theorem size_eq (table : Table) : table.size = table.keys.length := by
  have hfold (chains : List (List Entry)) (n : Nat) :
      chains.foldl (fun n chain => n + chain.length) n =
        n + (chains.flatMap List.reverse).length := by
    induction chains generalizing n with
    | nil => rfl
    | cons chain chains ih =>
        rw [List.foldl_cons, ih, List.flatMap_cons, List.length_append, List.length_reverse]
        omega
  rw [size, keys, List.length_map, entries, ← Vector.foldl_toList, hfold, Nat.zero_add]

theorem size_empty : empty.size = 0 := by
  rw [size_eq, keys, empty_entries]
  rfl

/-- The size of a table is what a counter of its new entries would show: an insertion adds one if
the table did not have the key, and nothing if it did. -/
theorem size_insert (table : Table) (key : Key) (cell : Cell) :
    (table.insert key cell).size =
      if table.get? key = none then table.size + 1 else table.size := by
  rcases table.entries_set key.chain (Chain.exchange key cell table.chains[key.chain]).2 with
    ⟨before, after, hold, hnew⟩
  change (table.insert key cell).entries = _ at hnew
  have hlength := Chain.length_exchange key cell table.chains[key.chain]
  change _ = if table.get? key = none then _ else _ at hlength
  rw [size_eq, size_eq, keys, keys, List.length_map, List.length_map, hold, hnew]
  simp only [List.length_append, List.length_reverse, hlength]
  split <;> omega

end Table
end CellMachine
