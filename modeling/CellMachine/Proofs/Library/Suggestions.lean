import Mathlib
import CellMachine.Proofs.Machine.LibraryCalls
import CellMachine.Proofs.Text.Order

/-!
# Suggestions for unknown names

Of the names within distance `3`, the nearest one is suggested, and of equally near ones the one
whose bytes come first.  This is the least element of a linear order, so a list of names may come in
any order, and with repetitions: `Machine.suggestion_is_least`.  In particular, the fault that a
call of an unknown library function raises depends on the set of the registered names only.
-/

namespace CellMachine
namespace Distance

/-! ## The order of candidates -/

/-- Whether a candidate is to be preferred to another one: it is nearer to the name, or as near and
its bytes come first. -/
def Prefers (name : String) (candidate other : String) : Prop :=
  distance name candidate < distance name other ∨
    distance name candidate = distance name other ∧ Utf8.encode candidate < Utf8.encode other

/-- Whether a text is the candidate to suggest for a name. -/
structure IsSuggestion (name : String) (candidates : List String) (best : String) : Prop where
  mem : best ∈ candidates
  near : distance name best ≤ 3
  least : ∀ candidate ∈ candidates, distance name candidate ≤ 3 →
    candidate = best ∨ Prefers name best candidate

/-- Preference is the order of the pairs of distance and text. -/
theorem prefers_iff {name candidate other : String} :
    Prefers name candidate other ↔
      toLex (distance name candidate, candidate) < toLex (distance name other, other) := by
  rw [Prefers, Utf8.encode_lt_encode_iff, Prod.Lex.toLex_lt_toLex]

/-- Comparing candidates is comparing pairs. -/
theorem precedes_iff (p q : Candidate) : precedes p q = true ↔ toLex p < toLex q := by
  rw [precedes, decide_eq_true_iff, Prod.Lex.toLex_lt_toLex]

/-! ## The loop -/

/-- Keeping the better of two candidates is taking the lesser pair. -/
theorem better_some (p q : Candidate) :
    better (some p) q = some (ofLex (min (toLex p) (toLex q))) := by
  rw [better]
  split
  · rename_i h
    rw [min_eq_right ((precedes_iff q p).1 h).le]
    rfl
  · rename_i h
    rw [min_eq_left (not_lt.1 fun hlt => h ((precedes_iff q p).2 hlt))]
    rfl

/-- Walking over candidates finds the least pair. -/
theorem foldl_better_some (candidates : List Candidate) (p : Candidate) :
    candidates.foldl better (some p) =
      some (ofLex ((candidates.map toLex).foldl min (toLex p))) := by
  induction candidates generalizing p with
  | nil => rfl
  | cons q candidates ih =>
      rw [List.foldl_cons, better_some, ih, List.map_cons, List.foldl_cons]
      rfl

/-- The loop computes a minimum. -/
theorem foldl_better (candidates : List Candidate) :
    candidates.foldl better none = (candidates.map toLex).min?.map ofLex := by
  cases candidates with
  | nil => rfl
  | cons p candidates => exact foldl_better_some candidates p

/-! ## The closest candidate -/

/-- The candidates among which the loop chooses. -/
theorem mem_near_iff {name candidate : String} {candidates : List String} {d : Nat} :
    (d, candidate) ∈ (candidates.map fun candidate => (distance name candidate, candidate)).filter
        (fun candidate => candidate.1 ≤ reach) ↔
      candidate ∈ candidates ∧ distance name candidate = d ∧ d ≤ 3 := by
  rw [List.mem_filter, List.mem_map, decide_eq_true_iff]
  constructor
  · rintro ⟨⟨other, hmem, hother⟩, hnear⟩
    cases hother
    exact ⟨hmem, rfl, hnear⟩
  · rintro ⟨hmem, rfl, hnear⟩
    exact ⟨⟨candidate, hmem, rfl⟩, hnear⟩

/-- The candidate that is chosen comes first in the order of distances and texts. -/
theorem closest?_eq_some_iff {name best : String} {candidates : List String} :
    closest? name candidates = some best ↔ IsSuggestion name candidates best := by
  rw [closest?, foldl_better, Option.map_map, Option.map_eq_some_iff]
  constructor
  · rintro ⟨p, hmin, rfl⟩
    rw [List.min?_eq_some_iff, List.mem_map] at hmin
    rcases hmin with ⟨⟨⟨d, best⟩, hbest, rfl⟩, hleast⟩
    rcases mem_near_iff.1 hbest with ⟨hmem, rfl, hnear⟩
    refine ⟨hmem, hnear, fun candidate hcandidate hnear' => ?_⟩
    have hle := hleast (toLex (distance name candidate, candidate))
      (List.mem_map_of_mem (mem_near_iff.2 ⟨hcandidate, rfl, hnear'⟩))
    rcases hle.eq_or_lt with heq | hlt
    · exact .inl (congrArg Prod.snd (toLex.injective heq)).symm
    · exact .inr (prefers_iff.2 hlt)
  · rintro ⟨hmem, hnear, hleast⟩
    refine ⟨toLex (distance name best, best), List.min?_eq_some_iff.2 ⟨?_, ?_⟩, rfl⟩
    · exact List.mem_map_of_mem (mem_near_iff.2 ⟨hmem, rfl, hnear⟩)
    · intro q hq
      rcases List.mem_map.1 hq with ⟨⟨d, candidate⟩, hcandidate, rfl⟩
      rcases mem_near_iff.1 hcandidate with ⟨hmem', rfl, hnear'⟩
      rcases hleast candidate hmem' hnear' with rfl | hprefers
      · exact le_refl _
      · exact (prefers_iff.1 hprefers).le

/-- Nothing is suggested if all candidates are out of reach. -/
theorem closest?_eq_none_iff {name : String} {candidates : List String} :
    closest? name candidates = none ↔ ∀ candidate ∈ candidates, 3 < distance name candidate := by
  rw [closest?, foldl_better, Option.map_map, Option.map_eq_none_iff, List.min?_eq_none_iff,
    List.map_eq_nil_iff, List.eq_nil_iff_forall_not_mem]
  constructor
  · intro h candidate hmem
    refine Nat.lt_of_not_le fun hnear => h (distance name candidate, candidate) ?_
    exact mem_near_iff.2 ⟨hmem, rfl, hnear⟩
  · rintro h ⟨d, candidate⟩ hcandidate
    rcases mem_near_iff.1 hcandidate with ⟨hmem, rfl, hnear⟩
    exact absurd (h candidate hmem) (Nat.not_lt.2 hnear)

/-- Only the set of the candidates matters. -/
theorem closest?_congr (name : String) {candidates others : List String}
    (h : ∀ candidate, candidate ∈ candidates ↔ candidate ∈ others) :
    closest? name candidates = closest? name others := by
  refine Option.ext fun best => ?_
  have hiff : IsSuggestion name candidates best ↔ IsSuggestion name others best := by
    constructor
    · rintro ⟨hmem, hnear, hleast⟩
      exact ⟨(h best).1 hmem, hnear, fun other hother => hleast other ((h other).2 hother)⟩
    · rintro ⟨hmem, hnear, hleast⟩
      exact ⟨(h best).2 hmem, hnear, fun other hother => hleast other ((h other).1 hother)⟩
  rw [closest?_eq_some_iff, closest?_eq_some_iff, hiff]

end Distance

/-! ## Calls of unknown functions -/

namespace Machine

open Distance

variable {machine : Machine} {state : State} {instruction : Instruction} {name : String}

/-- A call of a function that the library does not have fails when it is decoded. -/
theorem CallsLibrary.decode_unknown (h : machine.CallsLibrary state instruction name)
    (hunknown : machine.library.find? name = none) :
    machine.decode state instruction =
      .error (.unknownLibraryFunction name (closest? name machine.library.names)) := by
  have hlibrary : Action.callLibrary name <$> machine.library.find name =
      .error (.unknownLibraryFunction name (closest? name machine.library.names)) := by
    rw [Library.find, hunknown]
    rfl
  rcases instruction with ⟨opcode, result, first, second, line⟩
  rcases h with ⟨hopcode, htarget⟩
  cases hopcode
  rcases htarget with htarget | htarget
  · simp only [Machine.decode, htarget]
    exact hlibrary
  · simp only [Machine.decode, htarget]
    exact hlibrary

/-- There is no suggestion exactly if all candidates are out of reach, and otherwise it is the least
one in reach, in the order of distances and, among equal ones, of bytes.  So candidates can come in
any order, and the fault of a call of an unknown function is the same whatever the order in which
the names of the library are gone through. -/
theorem suggestion_is_least (name : String) (candidates : List String) :
    (closest? name candidates = none ↔ ∀ candidate ∈ candidates, 3 < distance name candidate) ∧
      (∀ best, closest? name candidates = some best ↔ IsSuggestion name candidates best) ∧
      (∀ others : List String, others.Perm candidates →
        closest? name others = closest? name candidates) ∧
      ∀ (machine : Machine) (state : State) (instruction : Instruction) (names : List String),
        state.finished = false → machine.program.code[state.pc]? = some instruction →
        machine.CallsLibrary state instruction name → machine.library.find? name = none →
        names.Perm machine.library.names →
        machine.step state = (.trapped ⟨state.pc, instruction.line,
          .unknownLibraryFunction name (closest? name names)⟩, fetched state instruction) := by
  have hperm {names others : List String} (h : names.Perm others) :
      closest? name names = closest? name others :=
    closest?_congr name fun _ => h.mem_iff
  refine ⟨closest?_eq_none_iff, fun _ => closest?_eq_some_iff, fun _ => hperm, ?_⟩
  intro machine state instruction names hgoing hget hcalls hunknown hnames
  have hdecode : machine.decode (fetched state instruction) instruction = _ :=
    (⟨hcalls.opcode_eq, hcalls.target⟩ :
      machine.CallsLibrary (fetched state instruction) instruction name).decode_unknown hunknown
  rw [hperm hnames]
  exact step_of_error hgoing hget (run_execute_of_error hdecode)

def misspeller : Machine where
  program :=
    { libraryFunctions := #["cot"]
      code := #[⟨.call, .absent, ⟨.libraryFunction, 0⟩, .absent, 7⟩] }
  library := ⟨[("cut", pure ()), ("bat", pure ()), ("cat", pure ())]⟩

/-- Two candidates are equally near, and one of them occurs twice. -/
theorem suggestion_is_least_misspeller :
    IsSuggestion "cot" ["cut", "bat", "cat", "cut"] "cat" ∧
      ["cat", "cut", "cut", "bat"].Perm ["cut", "bat", "cat", "cut"] ∧
      closest? "cot" ["cat", "cut", "cut", "bat"] = closest? "cot" ["cut", "bat", "cat", "cut"] ∧
      ["bat", "cat", "cut"].Perm misspeller.library.names ∧
      misspeller.step { stack := ⟨#[.undefined], 0, 0, 0⟩ } =
        (.trapped ⟨0, 7, .unknownLibraryFunction "cot" (closest? "cot" ["bat", "cat", "cut"])⟩,
          fetched { stack := ⟨#[.undefined], 0, 0, 0⟩ }
            ⟨.call, .absent, ⟨.libraryFunction, 0⟩, .absent, 7⟩) := by
  have h := suggestion_is_least "cot" ["cut", "bat", "cat", "cut"]
  have hbest : closest? "cot" ["cut", "bat", "cat", "cut"] = some "cat" := by decide +kernel
  have hothers : ["cat", "cut", "cut", "bat"].Perm ["cut", "bat", "cat", "cut"] := by decide
  have hnames : ["bat", "cat", "cut"].Perm misspeller.library.names := by decide
  have hcalls : misspeller.CallsLibrary { stack := ⟨#[.undefined], 0, 0, 0⟩ }
      ⟨.call, .absent, ⟨.libraryFunction, 0⟩, .absent, 7⟩ "cot" := ⟨rfl, .inl rfl⟩
  exact ⟨(h.2.1 "cat").1 hbest, hothers, h.2.2.1 _ hothers, hnames,
    h.2.2.2 misspeller _ _ _ rfl rfl hcalls rfl hnames⟩

end Machine
end CellMachine
