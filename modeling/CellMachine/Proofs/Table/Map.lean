import Mathlib
import CellMachine.Machine.Action
import CellMachine.Proofs.Table.Entries

/-!
# Tables as finite maps

What a table is for a program, which stores and reads entries under cells: a finite map.  The map is
described by the list of all sets so far, without chains and hashes: two keys are the same if they
are equal texts or if they are numbers that compare equal.  The main statement is
`Table.ofSets_maps`.
-/

namespace CellMachine

/-! ## The description -/

namespace Cell

def isKey : Cell → Bool
  | text _ => true
  | number x => x == x
  | _ => false

def sameKey : Cell → Cell → Bool
  | text s, text t => s = t
  | number x, number y => x == y
  | _, _ => false

end Cell

/-- What was stored last under a key. -/
def lastSet (sets : List (Cell × Cell)) (key : Cell) : Option Cell :=
  (sets.reverse.find? fun set => set.1.sameKey key).map Prod.snd

/-- The keys under which something was stored, each as it was spelled first. -/
def distinctKeys (sets : List (Cell × Cell)) : List Cell :=
  sets.foldl (fun keys set =>
    if set.1.isKey && !keys.any (set.1.sameKey ·) then keys ++ [set.1] else keys) []

namespace Table

def set (table : Table) (key value : Cell) : Except Fault Table := do
  return table.insert (← key.key) value

def get (table : Table) (key : Cell) : Except Fault (Option Cell) := do
  return table.get? (← key.key)

/-- The table after a list of sets; a set that fails leaves the table as it was. -/
def ofSets (sets : List (Cell × Cell)) : Table :=
  sets.foldl (fun table set =>
    match table.set set.1 set.2 with
    | .ok table => table
    | .error _ => table) empty

def keyCells (table : Table) : List Cell :=
  table.keys.map Key.toCell

/-- Whether a table is the finite map that a list of sets describes. -/
structure Maps (table : Table) (sets : List (Cell × Cell)) : Prop where
  /-- What is no key can be neither read nor set. -/
  refuses : ∀ key, key.isKey = false → ∃ refusal, table.get key = .error (.unsupportedKey refusal) ∧
    ∀ value, table.set key value = .error (.unsupportedKey refusal)
  /-- A key reads what was stored last under the same key. -/
  answers : ∀ key, key.isKey = true → table.get key = .ok (lastSet sets key)
  /-- A table is as large as there are distinct keys. -/
  size_eq : table.size = (distinctKeys sets).length
  /-- The distinct keys are listed as they were spelled first. -/
  keys_perm : table.keyCells.Perm (distinctKeys sets)
  /-- No two listed keys are the same. -/
  keys_once : table.keyCells.Pairwise fun a b => a.sameKey b = false
  /-- Every key that was set is listed. -/
  keys_all : ∀ set ∈ sets, set.1.isKey = true → ∃ key ∈ table.keyCells, key.sameKey set.1 = true
  /-- Texts are listed before numbers. -/
  keys_split : ∃ texts numbers, table.keyCells = texts ++ numbers ∧
    (∀ key ∈ texts, ∃ s, key = .text s) ∧ ∀ key ∈ numbers, ∃ x, key = .number x
  /-- Setting a known key changes neither the listed keys nor their order. -/
  set_known : ∀ key value, lastSet sets key ≠ none →
    ∃ after, table.set key value = .ok after ∧ after.keyCells = table.keyCells
  /-- Setting a new key lists it between the others. -/
  set_new : ∀ key value, key.isKey = true → lastSet sets key = none →
    ∃ after before behind, table.set key value = .ok after ∧ table.keyCells = before ++ behind ∧
      after.keyCells = before ++ key :: behind
  /-- Two keys address the same entry just when they compare equal. -/
  same_entry : ∀ a b, a.isKey = true → b.isKey = true →
    ((∀ value after, table.set a value = .ok after → after.get b = .ok (some value)) ↔
      a.equal b = .ok true)

end Table

/-! ## Keys and cells -/

namespace Cell

theorem sameKey_toCell (k l : Key) : k.toCell.sameKey l.toCell = k.same l := by
  cases k with
  | text s => cases l <;> rfl
  | number x =>
      cases l with
      | text t => rfl
      | number y => exact (Number.same_eq_beq x y).symm

theorem isKey_toCell (k : Key) : k.toCell.isKey = k.same k := by
  cases k with
  | text s => exact (decide_eq_true rfl).symm
  | number x => exact (Number.same_eq_beq x x).symm

/-- A cell that is a key is the cell of its key. -/
theorem key_of_isKey {cell : Cell} (h : cell.isKey = true) :
    ∃ key : Key, cell.key = .ok key ∧ cell = key.toCell ∧ key.same key = true := by
  have haccepted : ∃ key, cell.key? = .ok key := by
    cases cell with
    | text s => exact ⟨.text s, rfl⟩
    | number x =>
        have hsame : Number.same x x = true := (Number.same_eq_beq x x).trans h
        refine ⟨.number x, ?_⟩
        rw [key?, if_neg ((Number.same_self_iff x).1 hsame)]
    | _ => cases h
  rcases haccepted with ⟨key, hkey⟩
  refine ⟨key, ?_, Key.same_self_of_key? hkey⟩
  rw [Cell.key, hkey]

/-- What is no key is refused. -/
theorem key_of_not_isKey {cell : Cell} (h : cell.isKey = false) :
    ∃ refusal, cell.key = .error (.unsupportedKey refusal) := by
  cases cell with
  | text s => cases h
  | number x =>
      have hvalue : Number.value x = .nan := by
        by_contra hne
        have := (Number.same_self_iff x).2 hne
        rw [Number.same_eq_beq] at this
        rw [isKey, this] at h
        cases h
      refine ⟨.notANumber, ?_⟩
      rw [key, key?, if_pos hvalue]
  | _ => exact ⟨_, rfl⟩

/-- Only keys are the same key. -/
theorem isKey_of_sameKey {a b : Cell} (h : a.sameKey b = true) :
    a.isKey = true ∧ b.isKey = true := by
  cases a with
  | text s =>
      cases b with
      | text t => exact ⟨rfl, rfl⟩
      | _ => cases h
  | number x =>
      cases b with
      | number y =>
          have hsame : Number.same x y = true := (Number.same_eq_beq x y).trans h
          have hx := Number.same_trans hsame (Number.same_symm hsame)
          have hy := Number.same_trans (Number.same_symm hsame) hsame
          exact ⟨(Number.same_eq_beq x x).symm.trans hx, (Number.same_eq_beq y y).symm.trans hy⟩
      | _ => cases h
  | _ => cases h

/-- Keys are the same just when they compare equal. -/
theorem equal_toCell_iff (k l : Key) : k.toCell.equal l.toCell = .ok true ↔ k.same l = true := by
  cases k with
  | text s =>
      cases l with
      | text t => simp [Key.toCell, equal, Key.same]
      | number y => simp [Key.toCell, equal, Key.same]
  | number x =>
      cases l with
      | text t => simp [Key.toCell, equal, Key.same]
      | number y => simp [Key.toCell, equal, Key.same]

end Cell

/-! ## One more set -/

/-- The last set decides for its own key, and the earlier ones for all others. -/
theorem lastSet_append (sets : List (Cell × Cell)) (set : Cell × Cell) (key : Cell) :
    lastSet (sets ++ [set]) key =
      if set.1.sameKey key then some set.2 else lastSet sets key := by
  rw [lastSet, List.reverse_append, List.reverse_singleton, List.singleton_append, List.find?_cons]
  cases set.1.sameKey key <;> rfl

/-- Only keys are stored under. -/
theorem isKey_of_lastSet {sets : List (Cell × Cell)} {key : Cell} (h : lastSet sets key ≠ none) :
    key.isKey = true := by
  rcases Option.ne_none_iff_exists'.1 h with ⟨stored, hstored⟩
  rw [lastSet, Option.map_eq_some_iff] at hstored
  rcases hstored with ⟨set, hfind, -⟩
  have hsame : set.1.sameKey key = true := by simpa using List.find?_some hfind
  exact (Cell.isKey_of_sameKey hsame).2

/-- A key is new if no earlier one was the same. -/
theorem distinctKeys_append (sets : List (Cell × Cell)) (set : Cell × Cell) :
    distinctKeys (sets ++ [set]) =
      if set.1.isKey && !(distinctKeys sets).any (set.1.sameKey ·) then
        distinctKeys sets ++ [set.1] else distinctKeys sets := by
  rw [distinctKeys, List.foldl_append]
  rfl

namespace Table

theorem set_of_key {key value : Cell} {k : Key} (table : Table) (h : key.key = .ok k) :
    table.set key value = .ok (table.insert k value) := by
  rw [set, h]
  rfl

theorem get_of_key {key : Cell} {k : Key} (table : Table) (h : key.key = .ok k) :
    table.get key = .ok (table.get? k) := by
  rw [get, h]
  rfl

/-- What is kept while a table is set: it holds what the sets say, under the keys that they say. -/
structure Tracks (table : Table) (sets : List (Cell × Cell)) : Prop where
  wellFormed : table.WellFormed
  lookup : ∀ key : Key, key.same key = true → table.get? key = lastSet sets key.toCell
  keys_perm : table.keyCells.Perm (distinctKeys sets)

variable {table : Table} {sets : List (Cell × Cell)}

theorem WellFormed.any_keyCells (h : table.WellFormed) (key : Key) :
    table.keyCells.any (key.toCell.sameKey ·) = (table.get? key).isSome := by
  rw [Bool.eq_iff_iff, ← Option.ne_none_iff_isSome, ne_eq, h.get?_eq_none_iff]
  simp only [keyCells, keys, List.any_map, List.any_eq_true, Function.comp_apply,
    Cell.sameKey_toCell, not_forall, Bool.not_eq_false, exists_prop]
  exact exists_congr fun entry => and_congr_right fun _ => by rw [Key.same_comm]

/-- What was set under a key before is what the table has of it. -/
theorem Tracks.any_distinctKeys (h : table.Tracks sets) (key : Key) :
    (distinctKeys sets).any (key.toCell.sameKey ·) = (table.get? key).isSome := by
  rw [← h.keys_perm.any_eq, h.wellFormed.any_keyCells]

/-- One more set is one more insertion. -/
theorem Tracks.insert (h : table.Tracks sets) {key : Key} (hkey : key.same key = true)
    (value : Cell) : (table.insert key value).Tracks (sets ++ [(key.toCell, value)]) := by
  refine ⟨h.wellFormed.insert key value, ?_, ?_⟩
  · intro other hother
    rw [h.wellFormed.get?_insert hkey, lastSet_append, Cell.sameKey_toCell, h.lookup other hother]
  · rw [distinctKeys_append, Cell.isKey_toCell, hkey, h.any_distinctKeys]
    rcases h.wellFormed.keys_insert key value with ⟨hget, before, behind, hold, hnew⟩ | ⟨hget, hnew⟩
    · -- The description adds the new key at the end, the table somewhere in between.
      have hperm := h.keys_perm
      rw [keyCells, hold, List.map_append] at hperm
      rw [hget, keyCells, hnew, List.map_append, List.map_cons]
      exact List.perm_middle.trans ((hperm.cons _).trans (List.perm_append_singleton _ _).symm)
    · rw [Option.ne_none_iff_isSome.1 hget, keyCells, hnew]
      exact h.keys_perm

/-- A set that fails changes neither the table nor what should be in it. -/
theorem Tracks.skip (h : table.Tracks sets) {key : Cell} (hkey : key.isKey = false)
    (value : Cell) : table.Tracks (sets ++ [(key, value)]) := by
  -- What is no key is the same key as nothing.
  have hsame (other : Cell) : key.sameKey other = false := by
    by_contra htrue
    have := (Cell.isKey_of_sameKey (Bool.not_eq_false _ ▸ htrue)).1
    rw [hkey] at this
    cases this
  refine ⟨h.wellFormed, ?_, ?_⟩
  · intro other hother
    rw [lastSet_append, hsame]
    exact h.lookup other hother
  · rw [distinctKeys_append, hkey]
    exact h.keys_perm

theorem ofSets_append (sets : List (Cell × Cell)) (key value : Cell) :
    ofSets (sets ++ [(key, value)]) =
      match (ofSets sets).set key value with
      | .ok table => table
      | .error _ => ofSets sets := by
  rw [ofSets, List.foldl_append]
  rfl

/-- A table holds what the sets say, after any list of them. -/
theorem ofSets_tracks (sets : List (Cell × Cell)) : (ofSets sets).Tracks sets := by
  -- By induction on the last set, since each set acts on what the sets before it left.
  induction sets using List.reverseRecOn with
  | nil =>
      refine ⟨empty_wellFormed, ?_, ?_⟩
      · intro key _
        rw [show ofSets [] = empty from rfl, empty_wellFormed.get?_eq_none_iff.2]
        · rfl
        · rw [empty_entries]
          exact fun entry hmem => nomatch hmem
      · rw [show ofSets [] = empty from rfl, keyCells, keys, empty_entries]
        exact .nil
  | append_singleton sets set ih =>
      rcases set with ⟨key, value⟩
      rw [ofSets_append]
      cases hkey : key.isKey with
      | true =>
          rcases Cell.key_of_isKey hkey with ⟨k, hk, rfl, hself⟩
          rw [set_of_key _ hk]
          exact ih.insert hself value
      | false =>
          rcases Cell.key_of_not_isKey hkey with ⟨refusal, hrefusal⟩
          rw [set, hrefusal]
          exact ih.skip hkey value

/-! ## The statement -/

/-- No key is listed twice. -/
theorem Tracks.keys_once (h : table.Tracks sets) :
    table.keyCells.Pairwise fun a b => a.sameKey b = false := by
  rw [keyCells, keys, List.map_map, List.pairwise_map]
  exact h.wellFormed.distinct.imp fun hne => (Cell.sameKey_toCell _ _).trans hne

/-- Every key that was set is listed. -/
theorem Tracks.keys_all (h : table.Tracks sets) {set : Cell × Cell} (hmem : set ∈ sets)
    (hkey : set.1.isKey = true) : ∃ key ∈ table.keyCells, key.sameKey set.1 = true := by
  rcases Cell.key_of_isKey hkey with ⟨k, -, hcell, hself⟩
  have hstored : lastSet sets set.1 ≠ none := by
    rw [lastSet, ne_eq, Option.map_eq_none_iff, List.find?_eq_none]
    intro hnone
    refine hnone set (List.mem_reverse.2 hmem) ?_
    rw [hcell, Cell.sameKey_toCell, hself]
  rw [hcell, ← h.lookup k hself, Option.ne_none_iff_isSome, ← h.wellFormed.any_keyCells,
    List.any_eq_true] at hstored
  rcases hstored with ⟨key, hlisted, hsame⟩
  refine ⟨key, hlisted, ?_⟩
  rcases List.mem_map.1 hlisted with ⟨other, -, rfl⟩
  rwa [hcell, Cell.sameKey_toCell, Key.same_comm, ← Cell.sameKey_toCell]

theorem WellFormed.keyCells_split (h : table.WellFormed) :
    ∃ texts numbers, table.keyCells = texts ++ numbers ∧ (∀ key ∈ texts, ∃ s, key = .text s) ∧
      ∀ key ∈ numbers, ∃ x, key = .number x := by
  rcases h.keys_split with ⟨texts, numbers, hkeys, htexts, hnumbers⟩
  refine ⟨texts.map Key.toCell, numbers.map Key.toCell, ?_, ?_, ?_⟩
  · rw [keyCells, hkeys, List.map_append]
  · intro cell hcell
    rcases List.mem_map.1 hcell with ⟨key, hkey, rfl⟩
    rcases htexts key hkey with ⟨s, rfl⟩
    exact ⟨s, rfl⟩
  · intro cell hcell
    rcases List.mem_map.1 hcell with ⟨key, hkey, rfl⟩
    rcases hnumbers key hkey with ⟨x, rfl⟩
    exact ⟨x, rfl⟩

/-- What is stored under one key is read under another one just when they compare equal. -/
theorem WellFormed.same_entry (h : table.WellFormed) {a b : Cell} (ha : a.isKey = true)
    (hb : b.isKey = true) :
    (∀ value after, table.set a value = .ok after → after.get b = .ok (some value)) ↔
      a.equal b = .ok true := by
  rcases Cell.key_of_isKey ha with ⟨k, hk, rfl, hself⟩
  rcases Cell.key_of_isKey hb with ⟨l, hl, rfl, -⟩
  rw [Cell.equal_toCell_iff]
  have hread (value : Cell) : (table.insert k value).get l.toCell =
      .ok (if k.same l then some value else table.get? l) := by
    rw [get_of_key _ hl, h.get?_insert hself]
  constructor
  · -- Two different cells cannot both be what was stored under the other key before.
    intro hall
    by_contra hne
    have hnil := hall .nil _ (set_of_key table hk)
    have hundefined := hall .undefined _ (set_of_key table hk)
    rw [hread, if_neg hne] at hnil hundefined
    cases Except.ok.inj (hnil.symm.trans hundefined)
  · intro hsame value after hset
    rw [set_of_key table hk] at hset
    cases hset
    rw [hread, if_pos hsame]

/-- A table that keeps track of its sets is the finite map that they describe. -/
theorem Tracks.maps (h : table.Tracks sets) : table.Maps sets := by
  refine ⟨?_, ?_, ?_, h.keys_perm, h.keys_once, fun set => h.keys_all, h.wellFormed.keyCells_split,
    ?_, ?_, fun a b => h.wellFormed.same_entry⟩
  · intro key hkey
    rcases Cell.key_of_not_isKey hkey with ⟨refusal, hrefusal⟩
    refine ⟨refusal, ?_, ?_⟩
    · rw [get, hrefusal]
      rfl
    · intro value
      rw [set, hrefusal]
      rfl
  · intro key hkey
    rcases Cell.key_of_isKey hkey with ⟨k, hk, rfl, hself⟩
    rw [get_of_key _ hk, h.lookup k hself]
  · rw [size_eq, ← h.keys_perm.length_eq, keyCells, List.length_map]
  -- Whether a key is known is the same question for the table and for the description.
  · intro key value hlast
    rcases Cell.key_of_isKey (isKey_of_lastSet hlast) with ⟨k, hk, rfl, hself⟩
    rw [← h.lookup k hself] at hlast
    refine ⟨_, set_of_key _ hk, ?_⟩
    rcases h.wellFormed.keys_insert k value with ⟨hget, -⟩ | ⟨-, hnew⟩
    · exact absurd hget hlast
    · rw [keyCells, keyCells, hnew]
  · intro key value hkey hlast
    rcases Cell.key_of_isKey hkey with ⟨k, hk, rfl, hself⟩
    rw [← h.lookup k hself] at hlast
    rcases h.wellFormed.keys_insert k value with ⟨-, before, behind, hold, hnew⟩ | ⟨hget, -⟩
    · refine ⟨_, before.map Key.toCell, behind.map Key.toCell, set_of_key _ hk, ?_, ?_⟩
      · rw [keyCells, hold, List.map_append]
      · rw [keyCells, hnew, List.map_append, List.map_cons]
    · exact absurd hlast hget

/-- A table that was created and set is the finite map that the sets describe; a set under what is
no key changes nothing. -/
theorem ofSets_maps (sets : List (Cell × Cell)) :
    (ofSets sets).Maps sets ∧
      ∀ key value, key.isKey = false → ofSets (sets ++ [(key, value)]) = ofSets sets := by
  refine ⟨(ofSets_tracks sets).maps, fun key value hkey => ?_⟩
  rcases Cell.key_of_not_isKey hkey with ⟨refusal, hrefusal⟩
  rw [ofSets_append, set, hrefusal]
  rfl

end Table
end CellMachine
