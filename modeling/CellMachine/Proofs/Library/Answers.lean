import Mathlib
import CellMachine.Proofs.Library.Standard
import CellMachine.Proofs.Machine.Effects

/-!
# How standard functions answer

A standard function that succeeds consumes input, writes output and reports events, and then it
leaves the return register alone, puts there a cell that the state offers, or a new table with
entries that the state offers.  `State.Answered` lists these three ways.

If the return register holds no table before, no table is destroyed on the way: a new table takes
the entries of another one, whose keys are all different, or plain cells, so nothing is replaced
while it is filled.
-/

namespace CellMachine

/-! ## Streams -/

/-- A text that can be written is added at the end of the output. -/
theorem Console.write_eq {console after : Console} {s : String} (h : console.write s = .ok after) :
    after = { console with output := console.output ++ s } := by
  rw [write] at h
  split at h
  · exact (Except.ok.inj h).symm
  · cases h

/-- What is left after a line was taken is the end of what was there. -/
theorem Console.takeLine_eq (console : Console) :
    ∃ rest, rest <:+ console.input ∧ console.takeLine.2 = { console with input := rest } := by
  rw [takeLine]
  split
  · exact ⟨[], List.nil_suffix, rfl⟩
  · rename_i b rest hrest
    refine ⟨rest, ?_, rfl⟩
    exact (List.suffix_cons b rest).trans (hrest ▸ List.dropWhile_suffix _)

namespace State

variable {before between after : State}

/-- Whether input was consumed from the front, output was added at the end, and events were
reported. -/
structure Advances (before after : State) : Prop where
  input : after.console.input <:+ before.console.input
  output : ∃ s, after.console.output = before.console.output ++ s
  capacity : after.console.capacity = before.console.capacity
  flushable : after.console.flushable = before.console.flushable
  log : ∃ events, after.log = before.log.addAll events

theorem Advances.of_eq (hconsole : after.console = before.console) (hlog : after.log = before.log) :
    before.Advances after := by
  refine ⟨?_, ⟨"", ?_⟩, ?_, ?_, [], hlog⟩
  · rw [hconsole]
  · rw [hconsole, String.append_empty]
  · rw [hconsole]
  · rw [hconsole]

theorem Advances.refl (state : State) : state.Advances state :=
  .of_eq rfl rfl

/-- Streams that advance twice have advanced. -/
theorem Advances.trans (h : before.Advances between) (h' : between.Advances after) :
    before.Advances after := by
  rcases h.output with ⟨s, hs⟩
  rcases h'.output with ⟨t, ht⟩
  rcases h.log with ⟨events, hevents⟩
  rcases h'.log with ⟨more, hmore⟩
  refine ⟨h'.input.trans h.input, ⟨s ++ t, ?_⟩, h'.capacity.trans h.capacity,
    h'.flushable.trans h.flushable, events ++ more, ?_⟩
  · rw [ht, hs, String.append_assoc]
  · rw [hmore, hevents, Log.addAll, Log.addAll, Log.addAll, List.foldl_append]

theorem advances_report (state : State) (event : Event) : state.Advances (state.report event) :=
  ⟨List.suffix_rfl, ⟨"", String.append_empty.symm⟩, rfl, rfl, [event], rfl⟩

/-- Writing adds to the output. -/
theorem advances_write (state : State) {console : Console} {s : String}
    (h : state.console.write s = .ok console) :
    state.Advances { state with console := console } := by
  rw [Console.write_eq h]
  exact ⟨List.suffix_rfl, ⟨s, rfl⟩, rfl, rfl, [], rfl⟩

/-- Taking a line consumes the front of the input. -/
theorem advances_takeLine (state : State) :
    state.Advances { state with console := state.console.takeLine.2 } := by
  rcases state.console.takeLine_eq with ⟨rest, hrest, heq⟩
  rw [heq]
  exact ⟨hrest, ⟨"", String.append_empty.symm⟩, rfl, rfl, [], rfl⟩

theorem advances_overwrite (state : State) (place : Place) (cell : Cell) :
    state.Advances (state.overwrite place cell) :=
  .of_eq (state.console_overwrite place cell) (state.log_overwrite place cell)

/-- An entry may be undefined, and then it is reported. -/
theorem advances_insertEntry (state : State) (id : TableId) (key : Key) (cell : Cell) :
    state.Advances (state.insertEntry id key cell) := by
  have hchecked : state.Advances (state.checkDefined cell) := by
    rw [checkDefined]
    split
    · exact state.advances_report _
    · exact .refl state
  exact hchecked.trans (.of_eq rfl rfl)

/-- Filling a table may report undefined values and nothing else. -/
theorem advances_createTable (state : State) (entries : List Entry) :
    state.Advances (state.createTable entries).2 := by
  have hinsert (state : State) (id : TableId) :
      state.Advances (state.insertEntries id entries) := by
    induction entries generalizing state with
    | nil => exact .refl state
    | cons entry entries ih =>
        exact (state.advances_insertEntry id entry.1 entry.2).trans (ih _)
  have hcreate : state.Advances { state with heap := state.heap.create.2 } := .of_eq rfl rfl
  exact hcreate.trans (hinsert _ _)

/-- All that functions do moves the streams and the log on. -/
theorem advances_serves (start : State) : Serves start.Advances start.Advances where
  report state event h := h.trans (state.advances_report event)
  write state _ _ hwrite h := h.trans (state.advances_write hwrite)
  takeLine state h := h.trans state.advances_takeLine
  nothing _ h := h
  answer state cell _ h := h.trans (state.advances_overwrite .result cell)
  table state entries _ h :=
    (h.trans (state.advances_createTable entries)).trans (advances_overwrite _ .result _)

/-! ## Answers -/

/-- What becomes of a state when a function answers: nothing, or the return register is set to a
cell or to a new table. -/
inductive Answered (asked : State) : State → Prop
  | nothing : asked.Answered asked
  | cell {cell : Cell} (hcell : asked.Offers cell) : asked.Answered (asked.overwrite .result cell)
  | table {entries : List Entry} (hentries : asked.OffersEntries entries) :
      asked.Answered ((asked.createTable entries).2.overwrite .result
        (.table (asked.createTable entries).1))

/-- Until a function answers, cells and tables are as they were. -/
theorem answered_serves (start : State) :
    Serves (fun state => state.SameStore start) fun after =>
      ∃ asked : State, asked.SameStore start ∧ asked.Answered after where
  report _ _ h := ⟨h.stack, h.result, h.heap⟩
  write _ _ _ _ h := ⟨h.stack, h.result, h.heap⟩
  takeLine _ h := ⟨h.stack, h.result, h.heap⟩
  nothing state h := ⟨state, h, .nothing⟩
  answer state _ hcell h := ⟨state, h, .cell hcell⟩
  table state _ hentries h := ⟨state, h, .table hentries⟩

/-- Entries that a function is offered can be stored in a new table without replacing anything. -/
theorem Counted.absorbs_offered {state : State} {handles : List TableId}
    (h : state.Counted handles) {entries : List Entry} (hentries : state.OffersEntries entries) :
    Table.empty.Absorbs entries := by
  rcases hentries with hplain | ⟨address, id, -, rfl⟩
  · exact Table.empty_wellFormed.absorbs_plain Table.empty_children hplain
  · rw [Heap.entries]
    split
    · rename_i table htable
      rcases Option.map_eq_some_iff.1 htable with ⟨node, hnode, rfl⟩
      have hdistinct := (h.wellFormed id node hnode).distinct
      exact Table.empty_wellFormed.absorbs_news (Table.news_empty hdistinct)
    · trivial

/-- An answer touches no table but the one that it creates, and destroys none, if the return
register held no table. -/
theorem Answered.confined {asked : State} {handles : List TableId} (h : asked.Counted handles)
    (hnil : asked.result.table? = none) (hanswered : asked.Answered after) :
    asked.heap.Confined after.heap
      {id | after.result = .table id ∧ asked.heap.nodes.size ≤ id} ∅ := by
  have hwritten (state : State) (hresult : state.result = asked.result) (cell : Cell)
      (touched : Set TableId) :
      state.heap.Confined (state.overwrite .result cell).heap touched ∅ := by
    refine (state.confined_overwrite .result cell).mono (Set.Subset.refl _) fun id hread => ?_
    rw [← hresult, show state.result = .table id from hread] at hnil
    cases hnil
  cases hanswered with
  | nothing => exact .refl _
  | cell hcell => exact hwritten asked rfl _ _
  | @table entries hentries =>
      have hfilled := asked.heap.confined_createAll (h.absorbs_offered hentries)
      have hresult : (asked.createTable entries).2.result = asked.result :=
        result_insertEntries _ _ _
      have hanswer := hwritten (asked.createTable entries).2 hresult
        (.table (asked.createTable entries).1) ∅
      rw [asked.heap_createTable] at hanswer
      -- The register holds the new table, so it is alive afterwards.
      have hcounted := h.table (fun _ => nofun : asked.HasPlace .result) hentries
      have hkept := @Counted.isAlive_of_read _ .result _ hcounted asked.heap.nodes.size rfl
      have hboth := hfilled.trans hanswer fun id hid => Set.mem_singleton_iff.1 hid ▸ hkept
      rw [Set.union_empty, Set.union_empty] at hboth
      refine hboth.mono ?_ (Set.Subset.refl _)
      rintro _ rfl
      exact ⟨rfl, Nat.le_refl _⟩

end State

namespace Library

variable {name : String} {function : Exec Unit} {start after : State}

/-- No standard function takes output back or puts input in front. -/
theorem standard_advances (hfind : standard.find? name = some function)
    (hrun : function.run start = .ok () after) : start.Advances after :=
  (standard_answers start.advances_serves hfind).ok (.refl start) hrun

/-- A standard function touches no table but a new one in the return register, and destroys none, if
that held no table before. -/
theorem standard_confined (hfind : standard.find? name = some function) {handles : List TableId}
    (h : start.Counted handles) (hnil : start.result.table? = none)
    (hrun : function.run start = .ok () after) :
    start.heap.Confined after.heap
      {id | after.result = .table id ∧ start.heap.nodes.size ≤ id} ∅ := by
  rcases (standard_answers start.answered_serves hfind).ok (.refl start) hrun with
    ⟨asked, hsame, hanswered⟩
  rw [← hsame.heap]
  exact hanswered.confined (h.congr hsame) (hsame.result ▸ hnil)

end Library
end CellMachine
