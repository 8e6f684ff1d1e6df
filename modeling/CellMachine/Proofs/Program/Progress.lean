import Mathlib
import CellMachine.Proofs.Program.Truncation

/-!
# Progress of readers

The counts and lengths in a program file go up to `2 ^ 32 - 1`, whatever follows them, so they do not
bound the work of the loader in any useful way.  What bounds it is progress: a reader that succeeds
has taken at least one byte, and no reader takes bytes that are not there.

Readers hand on the bytes that are left.  `Reader.Moves` says the same in offsets of a source, and
`Reader.Slices` says which bytes between two offsets are taken out, and that both are offsets of the
source.

`Metered` goes through the sections as the loader does and counts the rounds of its loops, also on
the way to a fault.  The main statement is `Program.loading_progresses`.
-/

namespace CellMachine
namespace Reader

variable {α β : Type} {src : Bytes} {pos : Nat}

/-! ## Offsets -/

/-- The bytes from one offset of a source up to another one; nothing if they are not in order, or if
the source ends before the second one. -/
def slice? (src : Bytes) (start stop : Nat) : Option Bytes :=
  if start ≤ stop ∧ stop ≤ src.length then some ((src.drop start).take (stop - start)) else none

def Moves (src : Bytes) (pos : Nat) (m : Reader α) : Prop :=
  ∀ x rest, m.run (src.drop pos) = .ok (x, rest) →
    ∃ next, pos < next ∧ next ≤ src.length ∧ rest = src.drop next

def tokenOf (part : Section) (word rest : Bytes) : Except LoadFault (List Char × Bytes) :=
  if word = [] then .error (.truncated part)
  else
    match Utf8.decode? word with
    | some cs => .ok (cs, rest)
    | none => .error (.malformed part (String.ofList (Utf8.decodeLossy word)))

def textOf (part : Section) (content : Option Bytes) (rest : Bytes) :
    Except LoadFault (String × Bytes) :=
  match content with
  | some bytes => .ok (String.ofList (Utf8.decodeLossy bytes), rest)
  | none => .error (.truncated part)

/-- Which bytes of a source are taken out by the two readers that take some out as a whole. -/
structure Slices (src : Bytes) (pos : Nat) (part : Section) : Prop where
  /-- The bytes of a token are there, whether it is a text or not. -/
  token : ∃ start stop word, pos ≤ start ∧ slice? src start stop = some word ∧
    (token part).run (src.drop pos) = tokenOf part word (src.drop stop)
  /-- The bytes of a text are as many as its count says, and if they are not there, none of them
  is taken out. -/
  text : ∀ (length : UInt32) (next : Nat), next ≤ src.length →
    (count part).run (src.drop pos) = .ok (length, src.drop next) →
    (text part).run (src.drop pos) = textOf part
      (slice? src (next + 1) (next + 1 + length.toNat)) (src.drop (next + 1 + length.toNat))

/-- What stands between two parts of a source is a slice of it. -/
theorem slice?_middle {front middle rest : Bytes} (hpos : pos ≤ src.length)
    (h : src.drop pos = front ++ (middle ++ rest)) :
    slice? src (pos + front.length) (pos + front.length + middle.length) = some middle ∧
      src.drop (pos + front.length + middle.length) = rest := by
  have hlength := congrArg List.length h
  simp only [List.length_drop, List.length_append] at hlength
  have hfront : src.drop (pos + front.length) = middle ++ rest := by
    rw [← List.drop_drop, h, List.drop_left]
  constructor
  · rw [slice?, if_pos ⟨by omega, by omega⟩, hfront, Nat.add_sub_cancel_left, List.take_left]
  · rw [← List.drop_drop, hfront, List.drop_left]

/-! ## Readers that take something -/

/-- Whether a reader that succeeds has taken at least one byte off the front. -/
def Consumes (m : Reader α) : Prop :=
  ∀ bytes x rest, m.run bytes = .ok (x, rest) → ∃ piece, piece ≠ [] ∧ bytes = piece ++ rest

/-- It is enough that the first reader of a sequence takes something. -/
theorem Consumes.bind {m : Reader α} {f : α → Reader β} (hm : Consumes m)
    (hf : ∀ x, Local (f x)) : Consumes (m >>= f) := by
  intro bytes y rest h
  rcases run_bind_iff.1 h with ⟨x, middle, hfirst, hsecond⟩
  rcases hm bytes x middle hfirst with ⟨first, hne, rfl⟩
  rcases (hf x).continued hsecond with ⟨second, rfl, -⟩
  exact ⟨first ++ second, List.append_ne_nil_of_left_ne_nil hne _, (List.append_assoc ..).symm⟩

/-- A reader that consumes leaves fewer bytes. -/
theorem Consumes.length_lt {m : Reader α} (hm : Consumes m) {bytes rest : Bytes} {x : α}
    (h : m.run bytes = .ok (x, rest)) : rest.length < bytes.length := by
  rcases hm bytes x rest h with ⟨piece, hne, rfl⟩
  have hpos := List.length_pos_of_ne_nil hne
  rw [List.length_append]
  omega

/-- Taking bytes off the front moves on in the source. -/
theorem Consumes.moves {m : Reader α} (hm : Consumes m) (hpos : pos ≤ src.length) :
    Moves src pos m := by
  intro x rest h
  rcases hm _ x rest h with ⟨piece, hne, hsplit⟩
  have hpiece := List.length_pos_of_ne_nil hne
  have hlength := congrArg List.length hsplit
  rw [List.length_drop, List.length_append] at hlength
  refine ⟨pos + piece.length, by omega, by omega, ?_⟩
  rw [← List.drop_drop, hsplit, List.drop_left]

/-- A token has at least one character. -/
theorem token_consumes (part : Section) : Consumes (token part) := by
  intro bytes cs rest h
  rcases token_run_ok h with ⟨blanks, rfl, -, hne, -⟩
  refine ⟨blanks ++ Utf8.bytes cs, ?_, (List.append_assoc ..).symm⟩
  exact List.append_ne_nil_of_right_ne_nil _ (Utf8.bytes_ne_nil hne)

theorem parsed_consumes (part : Section) (parse? : List Char → Option α) :
    Consumes (parsed part parse?) :=
  (token_consumes part).bind fun _ => Local.option _ _

/-- A count is a token. -/
theorem count_consumes (part : Section) : Consumes (count part) :=
  parsed_consumes part count?

theorem text_consumes (part : Section) : Consumes (text part) :=
  (count_consumes part).bind fun _ => (block_local part _).bind fun _ => .pure _

theorem coded_consumes (part : Section) (ofCode? : Nat → Option α) (unknown : Nat → LoadFault) :
    Consumes (coded part ofCode? unknown) :=
  (count_consumes part).bind fun _ => Local.option _ _

theorem operand_consumes (index : Nat) : Consumes (operand index) :=
  (coded_consumes _ _ _).bind fun _ => (count_local _).bind fun _ => .pure _

/-- An instruction takes at least its opcode. -/
theorem instruction_consumes (index : Nat) : Consumes (instruction index) :=
  (coded_consumes _ _ _).bind fun _ => (operand_local index).bind fun _ =>
    (operand_local index).bind fun _ => (operand_local index).bind fun _ => .pure _

theorem magic_consumes : Consumes magic := by
  refine (token_consumes .magic).bind fun cs => ?_
  split
  · exact .throw _
  · exact .pure _

theorem userFunction_consumes : Consumes userFunction :=
  (count_consumes _).bind fun _ => (count_local _).bind fun _ => (text_local _).bind fun _ =>
    .pure _

/-! ## Slices -/

/-- A token is a slice of the source, and what is left starts at the end of that slice. -/
theorem token_slice (part : Section) (hpos : pos ≤ src.length) :
    ∃ start stop word, pos ≤ start ∧ slice? src start stop = some word ∧
      (token part).run (src.drop pos) = tokenOf part word (src.drop stop) := by
  have hsplit : src.drop pos = (src.drop pos).takeWhile Blank.isByte ++
      (((src.drop pos).dropWhile Blank.isByte).takeWhile (fun b => !Blank.isByte b) ++
        ((src.drop pos).dropWhile Blank.isByte).dropWhile (fun b => !Blank.isByte b)) := by
    rw [List.takeWhile_append_dropWhile, List.takeWhile_append_dropWhile]
  rcases slice?_middle hpos hsplit with ⟨hslice, hrest⟩
  refine ⟨_, _, _, Nat.le_add_right _ _, hslice, ?_⟩
  rw [hrest]
  rfl

/-- The length of a text may be anything: its bytes are taken out if they are there. -/
theorem text_slice {part : Section} {length : UInt32} {next : Nat} (hnext : next ≤ src.length)
    (hcount : (count part).run (src.drop pos) = .ok (length, src.drop next)) :
    (text part).run (src.drop pos) = textOf part
      (slice? src (next + 1) (next + 1 + length.toNat)) (src.drop (next + 1 + length.toNat)) := by
  rw [text, run_bind_of_ok hcount]
  have hlength : (src.drop next).length = src.length - next := List.length_drop
  cases hbytes : src.drop next with
  | nil =>
      rw [hbytes, List.length_nil] at hlength
      rw [slice?, if_neg (by omega)]
      rfl
  | cons separator bytes =>
      rw [hbytes, List.length_cons] at hlength
      have hdrop : src.drop (next + 1) = bytes := by
        rw [← List.drop_drop, hbytes, List.drop_one, List.tail_cons]
      -- Behind the separator there may be fewer bytes than the count says.
      by_cases hfits : bytes.length < length.toNat
      · have hblock : (block part length.toNat).run (separator :: bytes) =
            .error (.truncated part) := if_pos hfits
        rw [slice?, if_neg (by omega), StateT.run_bind, hblock]
        rfl
      · have hblock : (block part length.toNat).run (separator :: bytes) =
            .ok (bytes.take length.toNat, bytes.drop length.toNat) := if_neg hfits
        rw [slice?, if_pos ⟨by omega, by omega⟩, run_bind_of_ok hblock, Nat.add_sub_cancel_left,
          ← @List.drop_drop _ length.toNat (next + 1), hdrop]
        rfl

/-- Both readers stay inside of the source. -/
theorem slices (hpos : pos ≤ src.length) (part : Section) : Slices src pos part where
  token := token_slice part hpos
  text := fun _ _ hnext hcount => text_slice hnext hcount

end Reader

/-! ## Counting rounds -/

/-- A reader that counts the rounds of its loops; a fault keeps the count. -/
def Metered (α : Type) : Type :=
  Bytes → Nat × Except LoadFault (α × Bytes)

namespace Metered

open Reader

instance : Monad Metered where
  pure x := fun bytes => (0, .ok (x, bytes))
  bind m f := fun bytes =>
    match m bytes with
    | (n, .ok (x, rest)) => (n + (f x rest).1, (f x rest).2)
    | (n, .error fault) => (n, .error fault)

variable {α β : Type}

def once (m : Reader α) : Metered α := fun bytes => (0, m.run bytes)

/-- A reader that makes up a round of a loop. -/
def round (m : Reader α) : Metered α := fun bytes => (1, m.run bytes)

def items (item : Nat → Reader α) (index : Nat) : Nat → Metered (List α)
  | 0 => pure []
  | n + 1 => do
      let x ← round (item index)
      let xs ← items item (index + 1) n
      pure (x :: xs)

def counted (part : Section) (item : Nat → Reader α) : Metered (Array α) := do
  let n ← once (count part)
  let xs ← items item 0 n.toNat
  pure xs.toArray

def sections : Metered Program := do
  let strings ← counted .stringCount fun _ => text .string
  let numbers ← counted .numberCount fun _ => number .number
  let userFunctions ← counted .functionCount fun _ => userFunction
  let libraryFunctions ← counted .libraryCount fun _ => text .libraryName
  let code ← counted .instructionCount instruction
  let globals ← once (count .globalCount)
  pure ⟨strings, numbers, userFunctions, libraryFunctions, code, globals.toNat⟩

def program : Metered Program := do
  once magic
  sections

/-! ### The count is all that is added -/

def Meters (metered : Metered α) (m : Reader α) : Prop :=
  ∀ bytes, (metered bytes).2 = m.run bytes

theorem Meters.once (m : Reader α) : Meters (once m) m :=
  fun _ => rfl

theorem Meters.round (m : Reader α) : Meters (round m) m :=
  fun _ => rfl

theorem Meters.pure (x : α) : Meters (pure x) (pure x) :=
  fun _ => rfl

/-- Metered readers in a row do what the readers do. -/
theorem Meters.bind {metered : Metered α} {m : Reader α} {f : α → Metered β} {g : α → Reader β}
    (hm : Meters metered m) (hf : ∀ x, Meters (f x) (g x)) : Meters (metered >>= f) (m >>= g) := by
  intro bytes
  have hfirst := hm bytes
  rw [StateT.run_bind, ← hfirst]
  change (match metered bytes with
    | (n, .ok (x, rest)) => (n + (f x rest).1, (f x rest).2)
    | (n, .error fault) => (n, .error fault)).2 = _
  rcases metered bytes with ⟨n, fault | ⟨x, rest⟩⟩
  · rfl
  · exact hf x rest

/-- Counting the rounds does not change what is read. -/
theorem Meters.items (item : Nat → Reader α) (n index : Nat) :
    Meters (items item index n) (Reader.items item index n) := by
  induction n generalizing index with
  | zero => exact .pure []
  | succ n ih => exact (Meters.round _).bind fun _ => (ih (index + 1)).bind fun _ => .pure _

theorem Meters.counted (part : Section) (item : Nat → Reader α) :
    Meters (counted part item) (Reader.counted part item) :=
  (Meters.once _).bind fun n => (Meters.items item n.toNat 0).bind fun _ => .pure _

/-- The metered reader of programs is the reader of programs. -/
theorem meters_program : Meters program Reader.program :=
  (Meters.once magic).bind fun _ =>
    (Meters.counted .stringCount fun _ => text .string).bind fun _ =>
    (Meters.counted .numberCount fun _ => number .number).bind fun _ =>
    (Meters.counted .functionCount fun _ => userFunction).bind fun _ =>
    (Meters.counted .libraryCount fun _ => text .libraryName).bind fun _ =>
    (Meters.counted .instructionCount instruction).bind fun _ =>
    (Meters.once (count .globalCount)).bind fun _ => .pure _

/-! ### Rounds are paid for by bytes -/

/-- Whether each round takes a byte, but for one that fails. -/
structure Bounded (metered : Metered α) : Prop where
  ok : ∀ {bytes rest n x}, metered bytes = (n, .ok (x, rest)) → n + rest.length ≤ bytes.length
  error : ∀ {bytes n fault}, metered bytes = (n, .error fault) → n ≤ bytes.length + 1

theorem Bounded.pure (x : α) : Bounded (pure x) where
  ok := by
    intro bytes rest n y h
    cases h
    exact (Nat.zero_add _).le
  error := by
    intro bytes n fault h
    cases h

theorem Bounded.once {m : Reader α} (hm : Local m) : Bounded (once m) where
  ok := by
    intro bytes rest n x h
    rcases Prod.mk.inj h with ⟨rfl, hrun⟩
    rcases hm.continued hrun with ⟨piece, rfl, -⟩
    rw [List.length_append]
    omega
  error := by
    intro bytes n fault h
    rw [← (Prod.mk.inj h).1]
    exact Nat.zero_le _

/-- A round takes a byte. -/
theorem Bounded.round {m : Reader α} (hm : Consumes m) : Bounded (round m) where
  ok := by
    intro bytes rest n x h
    rcases Prod.mk.inj h with ⟨rfl, hrun⟩
    have hlt := hm.length_lt hrun
    omega
  error := by
    intro bytes n fault h
    rw [← (Prod.mk.inj h).1]
    exact Nat.le_add_left _ _

/-- A sequence succeeds if both of its parts do, and the rounds of both count. -/
theorem bind_ok_iff {metered : Metered α} {f : α → Metered β} {bytes rest : Bytes} {n : Nat}
    {y : β} : (metered >>= f) bytes = (n, .ok (y, rest)) ↔
      ∃ k l x middle, metered bytes = (k, .ok (x, middle)) ∧
        f x middle = (l, .ok (y, rest)) ∧ n = k + l := by
  change (match metered bytes with
    | (n, .ok (x, rest)) => (n + (f x rest).1, (f x rest).2)
    | (n, .error fault) => (n, .error fault)) = _ ↔ _
  rcases metered bytes with ⟨k, fault | ⟨x, middle⟩⟩
  · constructor
    · intro h
      cases h
    · rintro ⟨_, _, _, _, h, -⟩
      cases h
  · constructor
    · intro h
      rcases Prod.mk.inj h with ⟨rfl, hanswer⟩
      exact ⟨k, (f x middle).1, x, middle, rfl, Prod.ext rfl hanswer, rfl⟩
    · rintro ⟨_, l, _, _, ⟨⟩, hf, rfl⟩
      change (k + (f x middle).1, (f x middle).2) = _
      rw [hf]

/-- Rounds and bytes of two readers in a row add up. -/
theorem Bounded.bind {metered : Metered α} {f : α → Metered β} (hm : Bounded metered)
    (hf : ∀ x, Bounded (f x)) : Bounded (metered >>= f) where
  ok := by
    intro bytes rest n y h
    rcases bind_ok_iff.1 h with ⟨k, l, x, middle, hfirst, hsecond, rfl⟩
    have hk := hm.ok hfirst
    have hl := (hf x).ok hsecond
    omega
  error := by
    intro bytes n fault h
    change (match metered bytes with
      | (n, .ok (x, rest)) => (n + (f x rest).1, (f x rest).2)
      | (n, .error fault) => (n, .error fault)) = _ at h
    rcases hfirst : metered bytes with ⟨k, cause | ⟨x, middle⟩⟩
    · rw [hfirst] at h
      cases h
      exact hm.error hfirst
    · rw [hfirst] at h
      rcases Prod.mk.inj h with ⟨rfl, hanswer⟩
      -- What the first part has left pays for the rounds of the second one.
      have hk := hm.ok hfirst
      have hl : (f x middle).1 ≤ middle.length + 1 := (hf x).error (Prod.ext rfl hanswer)
      omega

/-- Each item takes a byte, so there are no more rounds than bytes. -/
theorem Bounded.items {item : Nat → Reader α} (hitem : ∀ index, Consumes (item index))
    (n index : Nat) : Bounded (items item index n) := by
  induction n generalizing index with
  | zero => exact .pure []
  | succ n ih =>
      exact (Bounded.round (hitem index)).bind fun _ => (ih (index + 1)).bind fun _ => .pure _

theorem Bounded.counted (part : Section) {item : Nat → Reader α}
    (hitem : ∀ index, Consumes (item index)) : Bounded (counted part item) :=
  (Bounded.once (count_local part)).bind fun n => (Bounded.items hitem n.toNat 0).bind fun _ =>
    .pure _

theorem bounded_sections : Bounded sections :=
  (Bounded.counted .stringCount fun _ => text_consumes .string).bind fun _ =>
    (Bounded.counted .numberCount fun _ => parsed_consumes .number _).bind fun _ =>
    (Bounded.counted .functionCount fun _ => userFunction_consumes).bind fun _ =>
    (Bounded.counted .libraryCount fun _ => text_consumes .libraryName).bind fun _ =>
    (Bounded.counted .instructionCount instruction_consumes).bind fun _ =>
    (Bounded.once (count_local .globalCount)).bind fun _ => .pure _

/-- Reading a program goes round no more often than it takes bytes. -/
theorem bounded_program : Bounded program :=
  (Bounded.once magic_local).bind fun _ => bounded_sections

/-! ### A round for each item -/

theorem once_ok_iff {m : Reader α} {bytes rest : Bytes} {n : Nat} {x : α} :
    once m bytes = (n, .ok (x, rest)) ↔ n = 0 ∧ m.run bytes = .ok (x, rest) := by
  rw [once, Prod.mk.injEq, eq_comm (a := 0)]

theorem pure_ok_iff {x y : α} {bytes rest : Bytes} {n : Nat} :
    (pure x : Metered α) bytes = (n, .ok (y, rest)) ↔ n = 0 ∧ x = y ∧ bytes = rest := by
  change ((0, .ok (x, bytes)) : Nat × Except LoadFault (α × Bytes)) = _ ↔ _
  rw [Prod.mk.injEq, eq_comm (a := 0), Except.ok.injEq, Prod.mk.injEq]

/-- Items that are all read take one round each. -/
theorem items_rounds {item : Nat → Reader α} {n index k : Nat} {bytes rest : Bytes} {xs : List α}
    (h : items item index n bytes = (k, .ok (xs, rest))) : k = xs.length := by
  induction n generalizing index k bytes rest xs with
  | zero =>
      rcases pure_ok_iff.1 h with ⟨rfl, rfl, -⟩
      rfl
  | succ n ih =>
      rcases bind_ok_iff.1 h with ⟨first, others, x, middle, hround, htail, hk⟩
      rcases bind_ok_iff.1 htail with ⟨l, none, ys, left, hitems, hpure, hl⟩
      rcases pure_ok_iff.1 hpure with ⟨hnone, rfl, -⟩
      have hone : first = 1 := (Prod.mk.inj hround).1.symm
      have hys := ih hitems
      rw [List.length_cons]
      omega

/-- The rounds of a section are its items. -/
theorem counted_rounds {part : Section} {item : Nat → Reader α} {k : Nat} {bytes rest : Bytes}
    {xs : Array α} (h : counted part item bytes = (k, .ok (xs, rest))) : k = xs.size := by
  rcases bind_ok_iff.1 h with ⟨first, others, n, middle, hcount, htail, hk⟩
  rcases bind_ok_iff.1 htail with ⟨l, none, ys, left, hitems, hpure, hl⟩
  rcases pure_ok_iff.1 hpure with ⟨hnone, rfl, -⟩
  have hzero := (once_ok_iff.1 hcount).1
  have hys := items_rounds hitems
  rw [List.size_toArray]
  omega

end Metered

/-! ## Loading -/

namespace Program

open Reader

def itemCount (program : Program) : Nat :=
  program.strings.size + program.numbers.size + program.userFunctions.size +
    program.libraryFunctions.size + program.code.size

/-- A program that is read has cost as many rounds as it has items. -/
theorem rounds_eq_itemCount {bytes rest : Bytes} {k : Nat} {program : Program}
    (h : Metered.sections bytes = (k, .ok (program, rest))) : k = program.itemCount := by
  rcases Metered.bind_ok_iff.1 h with ⟨k₁, l₁, strings, b₁, h₁, t₁, e₁⟩
  rcases Metered.bind_ok_iff.1 t₁ with ⟨k₂, l₂, numbers, b₂, h₂, t₂, e₂⟩
  rcases Metered.bind_ok_iff.1 t₂ with ⟨k₃, l₃, userFunctions, b₃, h₃, t₃, e₃⟩
  rcases Metered.bind_ok_iff.1 t₃ with ⟨k₄, l₄, libraryFunctions, b₄, h₄, t₄, e₄⟩
  rcases Metered.bind_ok_iff.1 t₄ with ⟨k₅, l₅, code, b₅, h₅, t₅, e₅⟩
  rcases Metered.bind_ok_iff.1 t₅ with ⟨k₆, l₆, globals, b₆, h₆, t₆, e₆⟩
  rcases Metered.pure_ok_iff.1 t₆ with ⟨hnone, rfl, -⟩
  have r₁ := Metered.counted_rounds h₁
  have r₂ := Metered.counted_rounds h₂
  have r₃ := Metered.counted_rounds h₃
  have r₄ := Metered.counted_rounds h₄
  have r₅ := Metered.counted_rounds h₅
  have r₆ := (Metered.once_ok_iff.1 h₆).1
  simp only [itemCount]
  omega

/-- The magic number takes a byte too, so the items of a program are fewer than its bytes. -/
theorem rounds_lt {bytes rest : Bytes} {k : Nat} {program : Program}
    (h : Metered.program bytes = (k, .ok (program, rest))) :
    k = program.itemCount ∧ k < bytes.length := by
  rcases Metered.bind_ok_iff.1 h with ⟨first, l, _, middle, hmagic, hsections, hk⟩
  rcases Metered.once_ok_iff.1 hmagic with ⟨hnone, hread⟩
  have hlt := magic_consumes.length_lt hread
  have hle := Metered.bounded_sections.ok hsections
  have hcount := rounds_eq_itemCount hsections
  omega

/-- From any offset of a source, a reader that succeeds ends at a later offset of it, and what is
taken out as a whole lies between two offsets, whatever lengths the source declares.  So the loops of
the loader go round at most once more than there are bytes, whether it fails or not, and a program
has fewer items than its file has bytes. -/
theorem loading_progresses (src : Bytes) :
    (∀ pos ≤ src.length,
      (∀ part, Moves src pos (token part) ∧ Moves src pos (count part) ∧
        Moves src pos (Reader.number part) ∧ Moves src pos (text part) ∧ Slices src pos part) ∧
      ∀ index, Moves src pos (operand index)) ∧
    ((Metered.program src).2 = Reader.program.run src ∧
      (Metered.program src).1 ≤ src.length + 1) ∧
    ∀ loaded, load src = .ok loaded →
      (Metered.program src).1 = loaded.program.itemCount ∧
        loaded.program.itemCount < src.length := by
  refine ⟨fun pos hpos => ⟨fun part => ?_, fun index => ?_⟩, ⟨Metered.meters_program src, ?_⟩, ?_⟩
  · exact ⟨(token_consumes part).moves hpos, (count_consumes part).moves hpos,
      (parsed_consumes part _).moves hpos, (text_consumes part).moves hpos, slices hpos part⟩
  · exact (operand_consumes index).moves hpos
  · rcases hrun : Metered.program src with ⟨k, fault | ⟨program, rest⟩⟩
    · exact Metered.bounded_program.error hrun
    · have hlt := (rounds_lt hrun).2
      exact hlt.le.trans (Nat.le_succ _)
  · intro loaded hload
    rcases run_of_load hload with ⟨rest, hread⟩
    have hanswer := (Metered.meters_program src).trans hread
    rcases rounds_lt (Prod.ext rfl hanswer) with ⟨hcount, hlt⟩
    exact ⟨hcount, hcount ▸ hlt⟩

/-- The loose file holds a string, a name and an instruction.  A text that declares the largest
length there is takes nothing out of a short source. -/
theorem loading_progresses_loose :
    load (Utf8.bytes loose) = .ok ⟨tidy, some 54⟩ ∧ (Metered.program (Utf8.bytes loose)).1 = 3 ∧
      3 < (Utf8.bytes loose).length ∧
      (text .string).run (Utf8.bytes "4294967295 ab".toList) = .error (.truncated .string) := by
  have hload : load (Utf8.bytes loose) = .ok ⟨tidy, some 54⟩ := by
    decide +kernel
  rcases (loading_progresses (Utf8.bytes loose)).2.2 _ hload with ⟨hrounds, hlt⟩
  have hshort := ((loading_progresses (Utf8.bytes "4294967295 ab".toList)).1 0 (Nat.zero_le _)).1
    .string
  refine ⟨hload, hrounds, hlt, ?_⟩
  exact (hshort.2.2.2.2.text 4294967295 10 (by decide +kernel) (by decide +kernel)).trans
    (by decide +kernel)

end Program
end CellMachine
