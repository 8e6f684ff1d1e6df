import Mathlib
import CellMachine.Proofs.Program.Grammar
import CellMachine.Proofs.Program.RoundTrip

/-!
# Cut and continued program files

A reader takes a piece off the front of its bytes and looks at most one byte further, to see that
its last token ends there.  So it reads the same piece whatever follows it, and off a part of the
piece it fails or comes to the end of the bytes.  `Reader.Local` says both, and composes.

A file that is cut before the count of its globals runs out before that count is read, wherever the
cut is: inside of a token, of which a shorter one may be left that is read as well, inside of a
text, or between two pieces.  Behind the count nothing is read any more.  The main statement is
`Program.load_cut_and_continued`.
-/

namespace CellMachine
namespace Reader

variable {α β : Type}

/-! ## Readers that take a piece -/

/-- Whether a reader takes a piece off the front, and depends on nothing but the piece and on where
its last token may end. -/
structure Local (m : Reader α) : Prop where
  /-- The same is read in front of other bytes, if a token may end before them as well. -/
  continued : ∀ {bytes rest : Bytes} {x : α}, m.run bytes = .ok (x, rest) →
    ∃ piece, bytes = piece ++ rest ∧
      ∀ left, (Ends rest → Ends left) → m.run (piece ++ left) = .ok (x, left)
  /-- Off a part of the piece nothing is left. -/
  cut : ∀ {piece rest part left : Bytes} {x y : α}, m.run (piece ++ rest) = .ok (x, rest) →
    part <+: piece → m.run part = .ok (y, left) → left = []

/-- Where a token may end depends on the first byte only. -/
theorem ends_append {second rest left : Bytes} (h : Ends rest → Ends left) :
    Ends (second ++ rest) → Ends (second ++ left) := by
  cases second with
  | nil => exact h
  | cons b second =>
      intro hends c hc
      exact hends c hc

/-- What stands behind a piece that is not empty does not matter. -/
theorem ends_append_of_ne_nil {second rest left : Bytes} (hne : second ≠ []) :
    Ends (second ++ rest) → Ends (second ++ left) := by
  rcases List.exists_cons_of_ne_nil hne with ⟨b, second, rfl⟩
  intro hends c hc
  exact hends c hc

/-- A token may end before a part of some bytes if it may end before these. -/
theorem ends_of_isPrefix {part bytes : Bytes} (hpart : part <+: bytes) (h : Ends bytes) :
    Ends part := by
  rcases hpart with ⟨after, rfl⟩
  cases part with
  | nil =>
      intro c hc
      cases hc
  | cons b part =>
      intro c hc
      exact h c hc

/-- No bytes leave no bytes. -/
theorem Local.left_of_nil {m : Reader α} (hm : Local m) {x : α} {left : Bytes}
    (h : m.run [] = .ok (x, left)) : left = [] := by
  rcases hm.continued h with ⟨piece, hpiece, -⟩
  exact (List.append_eq_nil_iff.1 hpiece.symm).2

theorem Local.pure (x : α) : Local (pure x) where
  continued := by
    intro bytes rest y h
    cases h
    exact ⟨[], rfl, fun left _ => rfl⟩
  cut := by
    intro piece rest part left y z h hpart hleft
    cases hleft
    have hpiece : piece = [] := by
      simpa using (run_pure_iff.1 h).2
    exact List.prefix_nil.1 (hpiece ▸ hpart)

theorem Local.throw (fault : LoadFault) : Local (throw fault : Reader α) where
  continued := by
    intro bytes rest y h
    cases h
  cut := by
    intro piece rest part left y z h
    cases h

/-- Two local readers are local one after the other. -/
theorem Local.bind {m : Reader α} {f : α → Reader β} (hm : Local m) (hf : ∀ x, Local (f x)) :
    Local (m >>= f) where
  continued := by
    intro bytes rest y h
    rcases run_bind_iff.1 h with ⟨x, middle, hfirst, hsecond⟩
    rcases hm.continued hfirst with ⟨first, rfl, hfirst'⟩
    rcases (hf x).continued hsecond with ⟨second, rfl, hsecond'⟩
    refine ⟨first ++ second, (List.append_assoc ..).symm, ?_⟩
    intro left hleft
    rw [List.append_assoc]
    exact run_bind_iff.2 ⟨x, second ++ left, hfirst' _ (ends_append hleft), hsecond' left hleft⟩
  cut := by
    intro piece rest part left y z h hpart hleft
    rcases run_bind_iff.1 h with ⟨x, middle, hfirst, hsecond⟩
    rcases run_bind_iff.1 hleft with ⟨x', middle', hfirst', hsecond'⟩
    rcases hm.continued hfirst with ⟨first, hbytes, hcontinued⟩
    rcases (hf x).continued hsecond with ⟨second, rfl, -⟩
    have hpiece : piece = first ++ second := by
      rw [← List.append_assoc] at hbytes
      exact List.append_cancel_right hbytes
    rw [hpiece] at hpart
    rw [hbytes] at hfirst
    rcases Nat.le_total part.length first.length with hle | hle
    · -- The cut is in the first piece, so the second reader has nothing to read.
      have hfirstPart : part <+: first :=
        List.prefix_of_prefix_length_le hpart (List.prefix_append first second) hle
      have hnone : middle' = [] := hm.cut hfirst hfirstPart hfirst'
      rw [hnone] at hsecond'
      exact (hf x').left_of_nil hsecond'
    · -- The first piece is there, and the second reader runs on a part of its own.
      rcases List.prefix_of_prefix_length_le (List.prefix_append first second) hpart hle with
        ⟨part, rfl⟩
      have hsecondPart : part <+: second := (List.prefix_append_right_inj first).1 hpart
      have hmiddle : part <+: second ++ rest := hsecondPart.trans (List.prefix_append ..)
      have hsame := hcontinued part (ends_of_isPrefix hmiddle)
      rw [hsame] at hfirst'
      cases hfirst'
      exact (hf x).cut hsecond hsecondPart hsecond'

/-- To look something up takes nothing. -/
theorem Local.option (x? : Option α) (fault : LoadFault) :
    Local (match x? with
      | some x => (Pure.pure x : Reader α)
      | none => MonadExcept.throw fault) := by
  cases x? with
  | none => exact .throw fault
  | some x => exact .pure x

/-! ## Tokens and texts -/

/-- Blanks and what is not blank can be told apart in one way. -/
theorem blanks_unique {blanks blanks' word word' : Bytes}
    (hblank : ∀ b ∈ blanks, Blank.isByte b = true) (hblank' : ∀ b ∈ blanks', Blank.isByte b = true)
    (hword : ∀ b, word.head? = some b → Blank.isByte b = false)
    (hword' : ∀ b, word'.head? = some b → Blank.isByte b = false)
    (h : blanks ++ word = blanks' ++ word') : blanks = blanks' ∧ word = word' := by
  have hdrop {blanks word : Bytes} (hblank : ∀ b ∈ blanks, Blank.isByte b = true)
      (hword : ∀ b, word.head? = some b → Blank.isByte b = false) :
      (blanks ++ word).dropWhile Blank.isByte = word := by
    rw [List.dropWhile_append_of_pos hblank]
    cases word with
    | nil => rfl
    | cons b word =>
        have hb := hword b rfl
        simp [hb]
  have hsame : word = word' := by
    rw [← hdrop hblank hword, h, hdrop hblank' hword']
  rw [hsame] at h
  exact ⟨List.append_cancel_right h, hsame⟩

/-- A token depends on its own bytes and on where it may end. -/
theorem token_local (part : Section) : Local (token part) where
  continued := by
    intro bytes rest cs h
    rcases token_run_ok h with ⟨blanks, rfl, hblank, hne, hsolid, hends⟩
    refine ⟨blanks ++ Utf8.bytes cs, (List.append_assoc ..).symm, ?_⟩
    intro left hleft
    rw [List.append_assoc]
    exact token_run part hblank hne hsolid (hleft hends)
  cut := by
    intro piece rest short left cs ds h hshort hleft
    rcases token_run_ok h with ⟨blanks, hbytes, hblank, -, hsolid, -⟩
    rcases token_run_ok hleft with ⟨blanks', rfl, hblank', hne, hsolid', hends⟩
    rw [← List.append_assoc] at hbytes
    have hpiece : piece = blanks ++ Utf8.bytes cs := List.append_cancel_right hbytes
    rcases hshort with ⟨after, hafter⟩
    rw [hpiece, List.append_assoc, List.append_assoc] at hafter
    -- The shorter token starts where the whole one starts, so what is left is a part of that.
    have hsame : Utf8.bytes ds ++ (left ++ after) = Utf8.bytes cs := by
      refine (blanks_unique hblank' hblank ?_ ?_ hafter).2
      · intro b hb
        rcases List.exists_cons_of_ne_nil (Utf8.bytes_ne_nil hne) with ⟨c, word, hword⟩
        rw [hword] at hb hsolid'
        cases hb
        exact hsolid' _ (List.mem_cons_self ..)
      · intro b hb
        exact hsolid b (List.mem_of_mem_head? hb)
    cases left with
    | nil => rfl
    | cons b left =>
        have hblankByte := hends b rfl
        have hsolidByte := hsolid b (by rw [← hsame]; simp)
        rw [hblankByte] at hsolidByte
        cases hsolidByte

theorem parsed_local (part : Section) (parse? : List Char → Option α) :
    Local (parsed part parse?) :=
  (token_local part).bind fun _ => Local.option _ _

theorem count_local (part : Section) : Local (count part) :=
  parsed_local part count?

/-- A block takes its bytes whatever they are and whatever follows. -/
theorem block_local (part : Section) (length : Nat) : Local (block part length) where
  continued := by
    intro bytes rest content h
    rcases block_run_iff.1 h with ⟨separator, rfl, hlength⟩
    exact ⟨separator :: content, rfl,
      fun left _ => block_run_iff.2 ⟨separator, rfl, hlength⟩⟩
  cut := by
    intro piece rest short left content content' h hshort hleft
    rcases block_run_iff.1 h with ⟨separator, hbytes, hlength⟩
    rcases block_run_iff.1 hleft with ⟨separator', rfl, hlength'⟩
    have hpiece : piece = separator :: content := by
      rw [← List.cons_append] at hbytes
      exact List.append_cancel_right hbytes
    -- A block takes as many bytes as it is asked for, and the part has no more than that.
    have hle := hshort.length_le
    rw [hpiece] at hle
    simp only [List.length_cons, List.length_append] at hle
    exact List.eq_nil_of_length_eq_zero (by omega)

/-- A text is a count and a block. -/
theorem text_local (part : Section) : Local (text part) :=
  (count_local part).bind fun _ => (block_local part _).bind fun _ => .pure _

/-! ## Sections -/

theorem coded_local (part : Section) (ofCode? : Nat → Option α) (unknown : Nat → LoadFault) :
    Local (coded part ofCode? unknown) :=
  (count_local part).bind fun _ => Local.option _ _

theorem operand_local (index : Nat) : Local (operand index) :=
  (coded_local _ _ _).bind fun _ => (count_local _).bind fun _ => .pure _

theorem instruction_local (index : Nat) : Local (instruction index) :=
  (coded_local _ _ _).bind fun _ => (operand_local index).bind fun _ =>
    (operand_local index).bind fun _ => (operand_local index).bind fun _ => .pure _

theorem userFunction_local : Local userFunction :=
  (count_local _).bind fun _ => (count_local _).bind fun _ => (text_local _).bind fun _ => .pure _

/-- Items are local if each of them is. -/
theorem items_local {item : Nat → Reader α} (hitem : ∀ index, Local (item index))
    (n index : Nat) : Local (items item index n) := by
  induction n generalizing index with
  | zero => exact .pure []
  | succ n ih => exact (hitem index).bind fun _ => (ih (index + 1)).bind fun _ => .pure _

theorem counted_local (part : Section) {item : Nat → Reader α}
    (hitem : ∀ index, Local (item index)) : Local (counted part item) :=
  (count_local part).bind fun n => (items_local hitem n.toNat 0).bind fun _ => .pure _

theorem magic_local : Local magic := by
  refine (token_local .magic).bind fun cs => ?_
  split
  · exact .throw _
  · exact .pure _

end Reader

/-! ## The count of the globals -/

namespace Phrase

/-- A program without the count of its globals, which is left open. -/
inductive IsFront : Phrase (Nat → Program)
  | mk {bytes b₁ b₂ b₃ b₄ b₅ rest : Bytes} {strings : Array String} {numbers : Array Float}
      {userFunctions : Array UserFunction} {libraryFunctions : Array String}
      {code : Array Instruction} (magic : IsCount bytes 340200501 b₁)
      (section₁ : IsSection IsText b₁ strings b₂) (section₂ : IsSection IsNumber b₂ numbers b₃)
      (section₃ : IsSection IsFunction b₃ userFunctions b₄)
      (section₄ : IsSection IsText b₄ libraryFunctions b₅)
      (section₅ : IsSection IsInstruction b₅ code rest) :
      IsFront bytes (fun globals =>
        ⟨strings, numbers, userFunctions, libraryFunctions, code, globals⟩) rest

/-- The token that counts the globals of a program: the offset of its first byte and the offset just
past it. -/
inductive GlobalCount (bytes : Bytes) : Nat → Nat → Prop
  | mk {taken blanks word rest : Bytes} {front : Nat → Program} {globals : UInt32}
      (split : bytes = taken ++ (blanks ++ (word ++ rest)))
      (before : IsFront bytes front (blanks ++ (word ++ rest)))
      (blank : ∀ b ∈ blanks, Blank.isByte b = true) (nonempty : word ≠ [])
      (solid : ∀ b ∈ word, Blank.isByte b = false)
      (count : IsCount (word ++ rest) globals rest) :
      GlobalCount bytes (taken ++ blanks).length (taken ++ blanks ++ word).length

/-- A count is blanks and a token. -/
theorem IsCount.split {bytes rest : Bytes} {n : UInt32} (h : IsCount bytes n rest) :
    ∃ blanks word, bytes = blanks ++ (word ++ rest) ∧ word ≠ [] ∧
      (∀ b ∈ blanks, Blank.isByte b = true) ∧ (∀ b ∈ word, Blank.isByte b = false) ∧
        IsCount (word ++ rest) n rest := by
  have hword {cs : List Char} (htoken : IsToken bytes cs rest) :
      ∃ blanks, bytes = blanks ++ (Utf8.bytes cs ++ rest) ∧ Utf8.bytes cs ≠ [] ∧
        (∀ b ∈ blanks, Blank.isByte b = true) ∧ (∀ b ∈ Utf8.bytes cs, Blank.isByte b = false) ∧
          IsToken (Utf8.bytes cs ++ rest) cs rest := by
    cases htoken with
    | @mk blanks _ _ hblank hne hsolid hends =>
        refine ⟨blanks, rfl, Utf8.bytes_ne_nil hne, hblank, hsolid, ?_⟩
        simpa using @IsToken.mk [] _ _ nofun hne hsolid hends
  cases h with
  | plain htoken hvalue =>
      rcases hword htoken with ⟨blanks, hsplit, hne, hblank, hsolid, hbare⟩
      exact ⟨blanks, _, hsplit, hne, hblank, hsolid, .plain hbare hvalue⟩
  | signed htoken hvalue =>
      rcases hword htoken with ⟨blanks, hsplit, hne, hblank, hsolid, hbare⟩
      exact ⟨blanks, _, hsplit, hne, hblank, hsolid, .signed hbare hvalue⟩

end Phrase

namespace Reader

open Phrase

def front : Reader (Nat → Program) := do
  magic
  let strings ← counted .stringCount fun _ => text .string
  let numbers ← counted .numberCount fun _ => number .number
  let userFunctions ← counted .functionCount fun _ => userFunction
  let libraryFunctions ← counted .libraryCount fun _ => text .libraryName
  let code ← counted .instructionCount instruction
  pure fun globals => ⟨strings, numbers, userFunctions, libraryFunctions, code, globals⟩

/-- A program is read as its front and the count of its globals. -/
theorem program_eq : program = (front >>= fun complete => count .globalCount >>= fun globals =>
    pure (complete globals.toNat)) := by
  simp only [program, front, bind_assoc, pure_bind]

/-- The front of a program is read if one is there. -/
theorem front_follows : Follows front IsFront := by
  intro bytes x rest
  have htext (part : Section) (_ : Nat) := text_follows part
  have hnumber (_ : Nat) := number_follows .number
  rw [front, magic_follows.bind_iff]
  simp only [(counted_follows .stringCount (htext .string)).bind_iff,
    (counted_follows .numberCount hnumber).bind_iff,
    (counted_follows .functionCount fun _ => userFunction_follows).bind_iff,
    (counted_follows .libraryCount (htext .libraryName)).bind_iff,
    (counted_follows .instructionCount instruction_follows).bind_iff, run_pure_iff]
  constructor
  · rintro ⟨_, _, h₀, _, _, h₁, _, _, h₂, _, _, h₃, _, _, h₄, _, _, h₅, rfl, rfl⟩
    exact .mk h₀ h₁ h₂ h₃ h₄ h₅
  · rintro ⟨h₀, h₁, h₂, h₃, h₄, h₅⟩
    exact ⟨(), _, h₀, _, _, h₁, _, _, h₂, _, _, h₃, _, _, h₄, _, _, h₅, rfl, rfl⟩

theorem front_local : Local front :=
  magic_local.bind fun _ => (counted_local _ fun _ => text_local _).bind fun _ =>
    (counted_local _ fun _ => parsed_local _ _).bind fun _ =>
    (counted_local _ fun _ => userFunction_local).bind fun _ =>
    (counted_local _ fun _ => text_local _).bind fun _ =>
    (counted_local _ instruction_local).bind fun _ => .pure _

/-- A program is read if its front is, and a count after it. -/
theorem program_run_iff {bytes rest : Bytes} {x : Program} :
    program.run bytes = .ok (x, rest) ↔ ∃ complete middle globals,
      front.run bytes = .ok (complete, middle) ∧
        (count .globalCount).run middle = .ok (globals, rest) ∧ complete globals.toNat = x := by
  rw [program_eq, run_bind_iff]
  constructor
  · rintro ⟨complete, middle, hfront, h⟩
    rcases run_bind_iff.1 h with ⟨globals, left, hcount, hpure⟩
    rcases run_pure_iff.1 hpure with ⟨rfl, rfl⟩
    exact ⟨complete, middle, globals, hfront, hcount, rfl⟩
  · rintro ⟨complete, middle, globals, hfront, hcount, rfl⟩
    exact ⟨complete, middle, hfront, run_bind_iff.2 ⟨globals, rest, hcount, rfl⟩⟩

/-- No count is read off blanks. -/
theorem count_blanks {part : Section} {blanks rest : Bytes} {n : UInt32}
    (hblank : ∀ b ∈ blanks, Blank.isByte b = true) :
    (count part).run blanks ≠ .ok (n, rest) := by
  intro h
  rcases ((count_follows part _ _ _).1 h).split with ⟨front, word, hsplit, hne, -, hsolid, -⟩
  rcases List.exists_cons_of_ne_nil hne with ⟨b, word, rfl⟩
  have hb := hblank b (by rw [hsplit]; simp)
  rw [hsolid b (List.mem_cons_self ..)] at hb
  cases hb

end Reader

namespace Phrase

/-- No bytes have two counts of globals. -/
theorem GlobalCount.unique {bytes : Bytes} {start stop start' stop' : Nat}
    (h : GlobalCount bytes start stop) (h' : GlobalCount bytes start' stop') :
    start' = start ∧ stop' = stop := by
  have hhead {word rest : Bytes} (hne : word ≠ []) (hsolid : ∀ b ∈ word, Blank.isByte b = false) :
      ∀ b, (word ++ rest).head? = some b → Blank.isByte b = false := by
    intro b hb
    rcases List.exists_cons_of_ne_nil hne with ⟨c, word, rfl⟩
    cases hb
    exact hsolid _ (List.mem_cons_self ..)
  cases h with
  | @mk taken blanks word rest front globals hsplit hbefore hblank hne hsolid hcount =>
  cases h' with
  | @mk taken' blanks' word' rest' front' globals' hsplit' hbefore' hblank' hne' hsolid' hcount' =>
      -- The front ends in one place, and so does the count behind it.
      have hfront := ((Reader.front_follows _ _ _).2 hbefore).symm.trans
        ((Reader.front_follows _ _ _).2 hbefore')
      have hmiddle := (Prod.mk.inj (Except.ok.inj hfront)).2
      rcases Reader.blanks_unique hblank hblank' (hhead hne hsolid) (hhead hne' hsolid') hmiddle with
        ⟨hblanks, hwords⟩
      rw [hwords] at hcount
      have hread := ((Reader.count_follows .globalCount _ _ _).2 hcount).symm.trans
        ((Reader.count_follows .globalCount _ _ _).2 hcount')
      have hrest : rest = rest' := (Prod.mk.inj (Except.ok.inj hread)).2
      have hword : word = word' := by
        rw [hrest] at hwords
        exact List.append_cancel_right hwords
      have htaken : taken = taken' := by
        rw [hsplit, hmiddle] at hsplit'
        exact List.append_cancel_right hsplit'
      rw [htaken, hblanks, hword]
      exact ⟨rfl, rfl⟩

end Phrase

/-! ## Loading -/

namespace Program

open Phrase

/-- What is left after a program is blank, or it is reported from its first byte that is not. -/
theorem load_of_run {bytes rest : Bytes} {program : Program}
    (h : Reader.program.run bytes = .ok (program, rest)) :
    load bytes = .ok ⟨program, if rest.dropWhile Blank.isByte = [] then none
      else some (bytes.length - (rest.dropWhile Blank.isByte).length)⟩ := by
  change (Reader.program.run bytes >>= _ : Except LoadFault Loaded) = _
  rw [h]
  rfl

/-- A program that was loaded was read, with some bytes left. -/
theorem run_of_load {bytes : Bytes} {loaded : Loaded} (h : load bytes = .ok loaded) :
    ∃ rest, Reader.program.run bytes = .ok (loaded.program, rest) := by
  cases hread : Reader.program.run bytes with
  | error fault =>
      rw [load_error hread] at h
      cases h
  | ok answer =>
      rw [load_of_run hread] at h
      cases h
      exact ⟨answer.2, rfl⟩

/-- A file is refused if its front leaves blanks only. -/
theorem load_of_front_blank {bytes : Bytes}
    (h : ∀ complete left, Reader.front.run bytes = .ok (complete, left) →
      ∀ b ∈ left, Blank.isByte b = true) :
    ∃ fault, load bytes = .error fault := by
  cases hread : Reader.program.run bytes with
  | error fault => exact ⟨fault, load_error hread⟩
  | ok answer =>
      rcases Reader.program_run_iff.1 hread with ⟨complete, middle, globals, hfront, hcount, -⟩
      exact absurd hcount (Reader.count_blanks (h complete middle hfront))

/-- There is a warning of trailing data if more than blanks is left. -/
theorem warns_of_run {bytes rest : Bytes} {program : Program}
    (h : Reader.program.run bytes = .ok (program, rest)) :
    ∃ loaded, load bytes = .ok loaded ∧ loaded.program = program ∧
      ((∃ offset, Event.trailingData offset ∈ loaded.events) ↔
        ∃ b ∈ rest, Blank.isByte b = false) := by
  refine ⟨_, load_of_run h, rfl, ?_⟩
  have hdrop : rest.dropWhile Blank.isByte = [] ↔ ∀ b ∈ rest, Blank.isByte b = true :=
    List.dropWhile_eq_nil_iff
  by_cases hblank : rest.dropWhile Blank.isByte = []
  · have hall := hdrop.1 hblank
    constructor
    · rintro ⟨offset, hmem⟩
      simp [Loaded.events, hblank] at hmem
    · rintro ⟨b, hb, hsolid⟩
      rw [hall b hb] at hsolid
      cases hsolid
  · constructor
    · intro _
      simpa using mt hdrop.2 hblank
    · intro _
      exact ⟨bytes.length - (rest.dropWhile Blank.isByte).length, by simp [Loaded.events, hblank]⟩

/-- A program file that is cut at the count of its globals or anywhere before it is refused.  If it
is cut behind that count, at most blanks follow at once, and then anything, it is the same program,
with a warning if more than blanks follows. -/
theorem load_cut_and_continued {bytes : Bytes} {loaded : Loaded} (h : load bytes = .ok loaded) :
    ∃ start stop, GlobalCount bytes start stop ∧
      (∀ start' stop', GlobalCount bytes start' stop' → start' = start ∧ stop' = stop) ∧
      (∀ k ≤ start, ∃ fault, load (bytes.take k) = .error fault) ∧
      ∀ tail, Reader.Ends tail → ∃ again, load (bytes.take stop ++ tail) = .ok again ∧
        again.program = loaded.program ∧
        ((∃ offset, Event.trailingData offset ∈ again.events) ↔
          ∃ b ∈ tail, Blank.isByte b = false) := by
  rcases run_of_load h with ⟨rest, hread⟩
  rcases Reader.program_run_iff.1 hread with ⟨complete, middle, globals, hfront, hcount, hprogram⟩
  rcases ((Reader.count_follows _ _ _ _).1 hcount).split with
    ⟨blanks, word, rfl, hne, hblank, hsolid, hbare⟩
  rcases Reader.front_local.continued hfront with ⟨taken, rfl, hcontinued⟩
  have hplace : GlobalCount (taken ++ (blanks ++ (word ++ rest))) (taken ++ blanks).length
      (taken ++ blanks ++ word).length :=
    .mk rfl ((Reader.front_follows _ _ _).1 hfront) hblank hne hsolid hbare
  refine ⟨_, _, hplace, fun start' stop' => hplace.unique, ?_, ?_⟩
  · intro k hk
    have hpart : (taken ++ (blanks ++ (word ++ rest))).take k <+: taken ++ blanks := by
      rw [← List.append_assoc, List.take_append_of_le_length hk]
      exact List.take_prefix k _
    refine load_of_front_blank ?_
    intro complete' left hleft b hb
    generalize (taken ++ (blanks ++ (word ++ rest))).take k = part at hpart hleft
    rcases Nat.le_total part.length taken.length with hle | hle
    · -- The cut is in the front, which then leaves nothing.
      have hfrontPart : part <+: taken :=
        List.prefix_of_prefix_length_le hpart (List.prefix_append ..) hle
      rw [Reader.front_local.cut hfront hfrontPart hleft] at hb
      cases hb
    · -- The front is there, and some of the blanks behind it.
      rcases List.prefix_of_prefix_length_le (List.prefix_append ..) hpart hle with ⟨part, rfl⟩
      have hblanks : part <+: blanks := (List.prefix_append_right_inj taken).1 hpart
      have hsame := hcontinued part fun _ c hc =>
        hblank c (hblanks.subset (List.mem_of_mem_head? hc))
      rw [hsame] at hleft
      cases hleft
      exact hblank b (hblanks.subset hb)
  · intro tail hends
    have htake : (taken ++ (blanks ++ (word ++ rest))).take (taken ++ blanks ++ word).length =
        taken ++ (blanks ++ word) := by
      rw [← List.append_assoc blanks, ← List.append_assoc taken, ← List.append_assoc taken,
        List.take_left]
    rw [htake, List.append_assoc]
    have hword : blanks ++ word ≠ [] := List.append_ne_nil_of_right_ne_nil _ hne
    -- The front is followed by the same byte as before, and the count may end before the tail.
    have hfront' : Reader.front.run (taken ++ (blanks ++ word ++ tail)) =
        .ok (complete, blanks ++ word ++ tail) := by
      refine hcontinued _ ?_
      rw [← List.append_assoc]
      exact Reader.ends_append_of_ne_nil hword
    have hcount' : (Reader.count .globalCount).run (blanks ++ word ++ tail) =
        .ok (globals, tail) := by
      rcases (Reader.count_local _).continued hcount with ⟨piece, hpiece, hagain⟩
      have hsame : blanks ++ word = piece := by
        rw [← List.append_assoc] at hpiece
        exact List.append_cancel_right hpiece
      rw [hsame]
      exact hagain tail fun _ => hends
    have hread' := Reader.program_run_iff.2 ⟨complete, _, globals, hfront', hcount', hprogram⟩
    exact warns_of_run hread'

theorem load_cut_and_continued_loose :
    load (Utf8.bytes loose) = .ok ⟨tidy, some 54⟩ ∧
      ∃ start stop, GlobalCount (Utf8.bytes loose) start stop ∧
        (∀ start' stop', GlobalCount (Utf8.bytes loose) start' stop' →
          start' = start ∧ stop' = stop) ∧
        (∀ k ≤ start, ∃ fault, load ((Utf8.bytes loose).take k) = .error fault) ∧
        ∀ tail, Reader.Ends tail → ∃ again, load ((Utf8.bytes loose).take stop ++ tail) =
          .ok again ∧ again.program = tidy ∧
          ((∃ offset, Event.trailingData offset ∈ again.events) ↔
            ∃ b ∈ tail, Blank.isByte b = false) := by
  have h : load (Utf8.bytes loose) = .ok ⟨tidy, some 54⟩ := by
    decide +kernel
  exact ⟨h, load_cut_and_continued h⟩

end Program
end CellMachine
