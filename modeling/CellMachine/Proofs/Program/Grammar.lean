import Mathlib
import CellMachine.Proofs.Program.RoundTrip

/-!
# The grammar of program files

The form of a program file is given by phrases.  A phrase relates bytes, what their first part
means, and the bytes that are left.  Phrases say which bytes are programs; they do not say how the
bytes are to be taken apart, nor what is wrong with bytes that are no program.

`Reader.Follows` compares a reader with a phrase.  Every reader follows the phrase of its part, so
the loader accepts the bytes that start with a program and no others: `Program.load_grammar`.
-/

namespace CellMachine

/-! ## Phrases -/

/-- A relation between bytes, what their first part means, and the bytes that are left. -/
abbrev Phrase (α : Type) := Bytes → α → Bytes → Prop

namespace Phrase

/-- A token: blanks, and then the bytes of some characters, none of them blank, up to a blank byte
or the end. -/
inductive IsToken : Phrase (List Char)
  | mk {blanks rest : Bytes} {cs : List Char} (blank : ∀ b ∈ blanks, Blank.isByte b = true)
      (nonempty : cs ≠ []) (solid : ∀ b ∈ Utf8.bytes cs, Blank.isByte b = false)
      (maximal : Reader.Ends rest) : IsToken (blanks ++ (Utf8.bytes cs ++ rest)) cs rest

inductive Stands : List Char → Nat → Prop
  | digit {c : Char} (digit : c.isDigit = true) : Stands [c] (c.toNat - '0'.toNat)
  | next {cs : List Char} {c : Char} {n : Nat} (front : Stands cs n) (digit : c.isDigit = true) :
      Stands (cs ++ [c]) (10 * n + (c.toNat - '0'.toNat))

/-- A count: a token of digits, maybe after a plus sign, that stands for thirty-two bits. -/
inductive IsCount : Phrase UInt32
  | plain {bytes rest : Bytes} {digits : List Char} {n : UInt32}
      (token : IsToken bytes digits rest) (value : Stands digits n.toNat) : IsCount bytes n rest
  | signed {bytes rest : Bytes} {digits : List Char} {n : UInt32}
      (token : IsToken bytes ('+' :: digits) rest) (value : Stands digits n.toNat) :
      IsCount bytes n rest

inductive IsNumber : Phrase Float
  | mk {bytes rest : Bytes} {cs : List Char} {x : Float} (token : IsToken bytes cs rest)
      (value : Number.parse? cs = some x) : IsNumber bytes x rest

/-- A text: a count, one byte more, and as many bytes as the count says, whatever they are. -/
inductive IsText : Phrase String
  | mk {bytes content rest : Bytes} {n : UInt32} {separator : UInt8}
      (count : IsCount bytes n (separator :: (content ++ rest)))
      (length : content.length = n.toNat) :
      IsText bytes (String.ofList (Utf8.decodeLossy content)) rest

section
variable {α : Type}

inductive AreItems (item : Phrase α) : Phrase (List α)
  | nil {rest : Bytes} : AreItems item rest [] rest
  | cons {bytes middle rest : Bytes} {x : α} {xs : List α} (head : item bytes x middle)
      (tail : AreItems item middle xs rest) : AreItems item bytes (x :: xs) rest

inductive IsSection (item : Phrase α) : Phrase (Array α)
  | mk {bytes middle rest : Bytes} {n : UInt32} {xs : List α} (count : IsCount bytes n middle)
      (items : AreItems item middle xs rest) (length : xs.length = n.toNat) :
      IsSection item bytes xs.toArray rest

/-- A wire code: a count that is a place in a list. -/
inductive IsCode (all : List α) : Phrase α
  | mk {bytes rest : Bytes} {n : UInt32} {x : α} (count : IsCount bytes n rest)
      (place : all[n.toNat]? = some x) : IsCode all bytes x rest

end

inductive IsOperand : Phrase Operand
  | mk {bytes middle rest : Bytes} {kind : OperandKind} {value : UInt32}
      (first : IsCode OperandKind.all bytes kind middle) (second : IsCount middle value rest) :
      IsOperand bytes ⟨kind, value⟩ rest

inductive IsInstruction : Phrase Instruction
  | mk {bytes b₁ b₂ b₃ rest : Bytes} {opcode : Opcode} {result first second : Operand}
      (code : IsCode Opcode.all bytes opcode b₁) (operand₁ : IsOperand b₁ result b₂)
      (operand₂ : IsOperand b₂ first b₃) (operand₃ : IsOperand b₃ second rest) :
      IsInstruction bytes ⟨opcode, result, first, second, 0⟩ rest

inductive IsFunction : Phrase UserFunction
  | mk {bytes b₁ b₂ rest : Bytes} {address localSize : UInt32} {name : String}
      (count₁ : IsCount bytes address b₁) (count₂ : IsCount b₁ localSize b₂)
      (text : IsText b₂ name rest) : IsFunction bytes ⟨address, localSize, name⟩ rest

/-- A program: the magic number, its five sections and the count of its globals. -/
inductive IsProgram : Phrase Program
  | mk {bytes b₁ b₂ b₃ b₄ b₅ b₆ rest : Bytes} {strings : Array String} {numbers : Array Float}
      {userFunctions : Array UserFunction} {libraryFunctions : Array String}
      {code : Array Instruction} {globals : UInt32} (magic : IsCount bytes 340200501 b₁)
      (section₁ : IsSection IsText b₁ strings b₂) (section₂ : IsSection IsNumber b₂ numbers b₃)
      (section₃ : IsSection IsFunction b₃ userFunctions b₄)
      (section₄ : IsSection IsText b₄ libraryFunctions b₅)
      (section₅ : IsSection IsInstruction b₅ code b₆) (count : IsCount b₆ globals rest) :
      IsProgram bytes ⟨strings, numbers, userFunctions, libraryFunctions, code, globals.toNat⟩ rest

/-! ## What a phrase leaves -/

/-- What is left after a token is the end of the bytes. -/
theorem IsToken.suffix {bytes rest : Bytes} {cs : List Char} (h : IsToken bytes cs rest) :
    rest <:+ bytes := by
  cases h with
  | @mk blanks _ cs =>
      rw [← List.append_assoc]
      exact List.suffix_append ..

theorem IsCount.suffix {bytes rest : Bytes} {n : UInt32} (h : IsCount bytes n rest) :
    rest <:+ bytes := by
  cases h with
  | plain token => exact token.suffix
  | signed token => exact token.suffix

theorem IsNumber.suffix {bytes rest : Bytes} {x : Float} (h : IsNumber bytes x rest) :
    rest <:+ bytes := by
  cases h with
  | mk token => exact token.suffix

theorem IsText.suffix {bytes rest : Bytes} {s : String} (h : IsText bytes s rest) :
    rest <:+ bytes := by
  cases h with
  | @mk _ content _ _ separator count =>
      have hrest : rest <:+ separator :: (content ++ rest) :=
        (List.suffix_append content rest).trans (List.suffix_cons ..)
      exact hrest.trans count.suffix

/-- What is left after items is the end of the bytes, if each of them leaves such an end. -/
theorem AreItems.suffix {α : Type} {item : Phrase α}
    (hitem : ∀ bytes x rest, item bytes x rest → rest <:+ bytes) {bytes rest : Bytes} {xs : List α}
    (h : AreItems item bytes xs rest) : rest <:+ bytes := by
  induction h with
  | nil => exact List.suffix_refl _
  | cons head _ ih => exact ih.trans (hitem _ _ _ head)

theorem IsSection.suffix {α : Type} {item : Phrase α}
    (hitem : ∀ bytes x rest, item bytes x rest → rest <:+ bytes) {bytes rest : Bytes} {xs : Array α}
    (h : IsSection item bytes xs rest) : rest <:+ bytes := by
  cases h with
  | mk count items => exact (items.suffix hitem).trans count.suffix

theorem IsCode.suffix {α : Type} {all : List α} {bytes rest : Bytes} {x : α}
    (h : IsCode all bytes x rest) : rest <:+ bytes := by
  cases h with
  | mk count => exact count.suffix

theorem IsOperand.suffix {bytes rest : Bytes} {operand : Operand}
    (h : IsOperand bytes operand rest) : rest <:+ bytes := by
  cases h with
  | mk first second => exact second.suffix.trans first.suffix

/-- What is left after an instruction is the end of the bytes. -/
theorem IsInstruction.suffix {bytes rest : Bytes} {instruction : Instruction}
    (h : IsInstruction bytes instruction rest) : rest <:+ bytes := by
  cases h with
  | mk code operand₁ operand₂ operand₃ =>
      exact operand₃.suffix.trans
        (operand₂.suffix.trans (operand₁.suffix.trans code.suffix))

theorem IsFunction.suffix {bytes rest : Bytes} {function : UserFunction}
    (h : IsFunction bytes function rest) : rest <:+ bytes := by
  cases h with
  | mk count₁ count₂ text => exact text.suffix.trans (count₂.suffix.trans count₁.suffix)

/-- A program is the first part of the bytes: what it leaves stands at their end. -/
theorem IsProgram.suffix {bytes rest : Bytes} {program : Program}
    (h : IsProgram bytes program rest) : rest <:+ bytes := by
  cases h with
  | mk magic section₁ section₂ section₃ section₄ section₅ count =>
      have htext (bytes : Bytes) (s : String) (rest : Bytes) (h : IsText bytes s rest) := h.suffix
      have hcode := section₅.suffix fun _ _ _ h => h.suffix
      have hnames := section₄.suffix htext
      have hfunctions := section₃.suffix fun _ _ _ h => h.suffix
      have hnumbers := section₂.suffix fun _ _ _ h => h.suffix
      have hstrings := section₁.suffix htext
      exact count.suffix.trans (hcode.trans (hnames.trans (hfunctions.trans
        (hnumbers.trans (hstrings.trans magic.suffix)))))

end Phrase

/-! ## Readers and phrases -/

namespace Reader

open Phrase

variable {α β : Type}

/-- Whether a reader takes what a phrase describes, and succeeds on nothing else. -/
def Follows (m : Reader α) (phrase : Phrase α) : Prop :=
  ∀ bytes x rest, m.run bytes = .ok (x, rest) ↔ phrase bytes x rest

/-- A sequence of readers succeeds exactly if both do, the second on what the first has left. -/
theorem run_bind_iff {m : Reader α} {f : α → Reader β} {bytes rest : Bytes} {y : β} :
    (m >>= f).run bytes = .ok (y, rest) ↔
      ∃ x middle, m.run bytes = .ok (x, middle) ∧ (f x).run middle = .ok (y, rest) := by
  constructor
  · intro h
    rw [StateT.run_bind] at h
    cases hfirst : m.run bytes with
    | error fault =>
        rw [hfirst] at h
        cases h
    | ok answer =>
        rw [hfirst] at h
        exact ⟨answer.1, answer.2, rfl, h⟩
  · rintro ⟨x, middle, hfirst, hrest⟩
    rw [run_bind_of_ok hfirst]
    exact hrest

/-- The first reader of a sequence may be replaced by the phrase that it follows. -/
theorem Follows.bind_iff {m : Reader α} {phrase : Phrase α} (hm : Follows m phrase)
    {f : α → Reader β} {bytes rest : Bytes} {y : β} :
    (m >>= f).run bytes = .ok (y, rest) ↔
      ∃ x middle, phrase bytes x middle ∧ (f x).run middle = .ok (y, rest) := by
  simp only [run_bind_iff, hm _ _ _]

theorem run_pure_iff {x y : α} {bytes rest : Bytes} :
    (pure x : Reader α).run bytes = .ok (y, rest) ↔ x = y ∧ bytes = rest := by
  constructor
  · intro h
    cases h
    exact ⟨rfl, rfl⟩
  · rintro ⟨rfl, rfl⟩
    rfl

/-- A reader that looks something up and takes nothing. -/
theorem run_option_iff (x? : Option α) {y : α} {fault : LoadFault} {bytes rest : Bytes} :
    (match x? with
      | some x => pure x
      | none => throw fault : Reader α).run bytes = .ok (y, rest) ↔ x? = some y ∧ bytes = rest := by
  cases x? with
  | none => exact ⟨fun h => (nomatch h), fun h => (nomatch h.1)⟩
  | some x => simp only [run_pure_iff, Option.some.injEq]

/-! ## Tokens -/

/-- A token is read if one is there. -/
theorem token_follows (part : Section) : Follows (token part) IsToken := by
  intro bytes cs rest
  constructor
  · intro h
    rcases token_run_ok h with ⟨blanks, rfl, hblank, hne, hsolid, hends⟩
    exact .mk hblank hne hsolid hends
  · rintro ⟨hblank, hne, hsolid, hends⟩
    exact token_run part hblank hne hsolid hends

/-- The value of digits is the sum of their values, each ten times what stands one place further
right. -/
theorem stands_iff {cs : List Char} {n : Nat} :
    Stands cs n ↔ cs ≠ [] ∧ cs.all Char.isDigit = true ∧ Number.ofDigits cs = n := by
  constructor
  · intro h
    induction h with
    | digit hdigit =>
        refine ⟨List.cons_ne_nil _ _, by simpa using hdigit, ?_⟩
        rw [Number.ofDigits, Nat.ofDigitChars_cons]
        exact Nat.zero_add _
    | @next cs c n _ hdigit ih =>
        rcases ih with ⟨_, hall, hvalue⟩
        refine ⟨List.append_ne_nil_of_right_ne_nil _ (List.cons_ne_nil _ _), ?_, ?_⟩
        · rw [List.all_append, hall, List.all_cons, hdigit]
          rfl
        · rw [Number.ofDigits, Nat.ofDigitChars_append, Nat.ofDigitChars_cons]
          rw [Number.ofDigits] at hvalue
          rw [hvalue]
          rfl
  · rintro ⟨hne, hall, rfl⟩
    -- By induction from the last digit on, as the value grows.
    induction cs using List.reverseRecOn with
    | nil => exact absurd rfl hne
    | append_singleton cs c ih =>
        rw [List.all_append, Bool.and_eq_true] at hall
        have hdigit : c.isDigit = true := by simpa using hall.2
        cases cs with
        | nil =>
            have hvalue : Number.ofDigits [c] = c.toNat - '0'.toNat := Nat.zero_add _
            exact hvalue ▸ .digit hdigit
        | cons d ds =>
            have hfront := ih (List.cons_ne_nil _ _) hall.1
            rw [Number.ofDigits, Nat.ofDigitChars_append, Nat.ofDigitChars_cons]
            exact .next hfront hdigit

/-- A text is read as a count if it is digits that stand for thirty-two bits. -/
theorem digits_count_iff {body : List Char} {n : UInt32} :
    (if body ≠ [] ∧ body.all Char.isDigit ∧ Number.ofDigits body < UInt32.size then
      some (UInt32.ofNat (Number.ofDigits body)) else none) = some n ↔ Stands body n.toNat := by
  rw [stands_iff, Option.ite_none_right_eq_some, Option.some.injEq]
  constructor
  · rintro ⟨⟨hne, hall, hlt⟩, rfl⟩
    exact ⟨hne, hall, (UInt32.toNat_ofNat_of_lt' hlt).symm⟩
  · rintro ⟨hne, hall, hvalue⟩
    refine ⟨⟨hne, hall, hvalue ▸ n.toNat_lt⟩, ?_⟩
    rw [hvalue, UInt32.ofNat_toNat]

/-- A plus sign is not a digit, so it is either left out or the first character. -/
theorem count?_iff {cs : List Char} {n : UInt32} :
    count? cs = some n ↔
      Stands cs n.toNat ∨ ∃ digits, cs = '+' :: digits ∧ Stands digits n.toNat := by
  by_cases hsign : ∃ body, cs = '+' :: body
  · rcases hsign with ⟨body, rfl⟩
    have hplus : ¬Stands ('+' :: body) n.toNat := by
      intro h
      have hall := (stands_iff.1 h).2.1
      rw [List.all_cons] at hall
      cases hall
    rw [count?, digits_count_iff, or_iff_right hplus]
    refine ⟨fun h => ⟨body, rfl, h⟩, ?_⟩
    rintro ⟨_, hcs, h⟩
    cases hcs
    exact h
  · have hplain : ¬∃ digits, cs = '+' :: digits ∧ Stands digits n.toNat := by
      rintro ⟨digits, h, -⟩
      exact hsign ⟨digits, h⟩
    rw [count?, digits_count_iff, or_iff_left hplain]
    exact fun body h => hsign ⟨body, h⟩

/-- A token is read if it can be parsed. -/
theorem parsed_follows (part : Section) {parse? : List Char → Option α} :
    Follows (parsed part parse?) fun bytes x rest =>
      ∃ cs, IsToken bytes cs rest ∧ parse? cs = some x := by
  intro bytes x rest
  rw [parsed, (token_follows part).bind_iff]
  constructor
  · rintro ⟨cs, _, htoken, hanswer⟩
    rcases (run_option_iff (parse? cs)).1 hanswer with ⟨hparse, rfl⟩
    exact ⟨cs, htoken, hparse⟩
  · rintro ⟨cs, htoken, hparse⟩
    exact ⟨cs, rest, htoken, (run_option_iff (parse? cs)).2 ⟨hparse, rfl⟩⟩

/-- A count is read if one is there. -/
theorem count_follows (part : Section) : Follows (count part) IsCount := by
  intro bytes n rest
  rw [count, parsed_follows]
  simp only [count?_iff]
  constructor
  · rintro ⟨cs, htoken, hvalue | ⟨digits, rfl, hvalue⟩⟩
    · exact .plain htoken hvalue
    · exact .signed htoken hvalue
  · rintro (⟨htoken, hvalue⟩ | ⟨htoken, hvalue⟩)
    · exact ⟨_, htoken, .inl hvalue⟩
    · exact ⟨_, htoken, .inr ⟨_, rfl, hvalue⟩⟩

theorem number_follows (part : Section) : Follows (number part) IsNumber := by
  intro bytes x rest
  rw [number, parsed_follows]
  constructor
  · rintro ⟨cs, htoken, hvalue⟩
    exact .mk htoken hvalue
  · rintro ⟨htoken, hvalue⟩
    exact ⟨_, htoken, hvalue⟩

/-! ## Texts -/

/-- A block is one byte and as many bytes as asked for. -/
theorem block_run_iff {part : Section} {length : Nat} {bytes content rest : Bytes} :
    (block part length).run bytes = .ok (content, rest) ↔
      ∃ separator, bytes = separator :: (content ++ rest) ∧ content.length = length := by
  change block part length bytes = _ ↔ _
  cases bytes with
  | nil =>
      constructor
      · intro h
        cases h
      · rintro ⟨_, h, -⟩
        cases h
  | cons separator bytes =>
      rw [block]
      constructor
      · intro h
        split at h
        · cases h
        · rename_i hlength
          cases h
          exact ⟨separator, by rw [List.take_append_drop],
            List.length_take_of_le (Nat.le_of_not_lt hlength)⟩
      · rintro ⟨_, hbytes, rfl⟩
        cases hbytes
        rw [if_neg (by simp), List.take_left, List.drop_left]

/-- A text is read if one is there. -/
theorem text_follows (part : Section) : Follows (text part) IsText := by
  intro bytes s rest
  rw [text, (count_follows part).bind_iff]
  constructor
  · rintro ⟨n, middle, hcount, h⟩
    rcases run_bind_iff.1 h with ⟨content, _, hblock, h⟩
    rcases run_pure_iff.1 h with ⟨rfl, rfl⟩
    rcases block_run_iff.1 hblock with ⟨separator, rfl, hlength⟩
    exact .mk hcount hlength
  · rintro ⟨hcount, hlength⟩
    exact ⟨_, _, hcount, run_bind_iff.2 ⟨_, _, block_run_iff.2 ⟨_, rfl, hlength⟩,
      run_pure_iff.2 ⟨rfl, rfl⟩⟩⟩

/-! ## Sections -/

/-- A code is read if it is the place of something in the list. -/
theorem coded_follows (part : Section) (all : List α) (unknown : Nat → LoadFault) :
    Follows (coded part (fun code => all[code]?) unknown) (IsCode all) := by
  intro bytes x rest
  rw [coded, (count_follows part).bind_iff]
  constructor
  · rintro ⟨n, _, hcount, hanswer⟩
    rcases (run_option_iff all[n.toNat]?).1 hanswer with ⟨hplace, rfl⟩
    exact .mk hcount hplace
  · rintro ⟨hcount, hplace⟩
    exact ⟨_, _, hcount, (run_option_iff all[_]?).2 ⟨hplace, rfl⟩⟩

/-- Items are read one after the other, as many as there should be. -/
theorem items_follows {item : Nat → Reader α} {phrase : Phrase α}
    (hitem : ∀ index, Follows (item index) phrase) (n index : Nat) :
    Follows (items item index n) fun bytes xs rest =>
      AreItems phrase bytes xs rest ∧ xs.length = n := by
  -- The induction is on the count of items; the reader stops there, and so do the items.
  induction n generalizing index with
  | zero =>
      intro bytes xs rest
      rw [items, run_pure_iff]
      constructor
      · rintro ⟨rfl, rfl⟩
        exact ⟨.nil, rfl⟩
      · rintro ⟨hitems, hlength⟩
        cases hitems with
        | nil => exact ⟨rfl, rfl⟩
        | cons => nomatch hlength
  | succ n ih =>
      intro bytes xs rest
      rw [items, (hitem index).bind_iff]
      simp only [(ih (index + 1)).bind_iff, run_pure_iff]
      constructor
      · rintro ⟨x, middle, hhead, xs, _, ⟨htail, rfl⟩, rfl, rfl⟩
        exact ⟨.cons hhead htail, rfl⟩
      · rintro ⟨hitems, hlength⟩
        cases hitems with
        | nil => nomatch hlength
        | cons hhead htail =>
            exact ⟨_, _, hhead, _, _, ⟨htail, Nat.succ.inj hlength⟩, rfl, rfl⟩

theorem counted_follows (part : Section) {item : Nat → Reader α} {phrase : Phrase α}
    (hitem : ∀ index, Follows (item index) phrase) :
    Follows (counted part item) (IsSection phrase) := by
  intro bytes xs rest
  rw [counted, (count_follows part).bind_iff]
  simp only [(items_follows hitem _ 0).bind_iff, run_pure_iff]
  constructor
  · rintro ⟨n, middle, hcount, items, _, ⟨hitems, hlength⟩, rfl, rfl⟩
    exact .mk hcount hitems hlength
  · rintro ⟨hcount, hitems, hlength⟩
    exact ⟨_, _, hcount, _, _, ⟨hitems, hlength⟩, rfl, rfl⟩

/-- An operand is read if one is there. -/
theorem operand_follows (index : Nat) : Follows (operand index) IsOperand := by
  intro bytes x rest
  have hkind : Follows (coded .operandKind OperandKind.ofCode? fun code =>
      .unknownOperandKind code index) (IsCode OperandKind.all) := coded_follows _ _ _
  rw [operand, hkind.bind_iff]
  simp only [(count_follows .operandValue).bind_iff, run_pure_iff]
  constructor
  · rintro ⟨kind, _, hkind, value, _, hvalue, rfl, rfl⟩
    exact .mk hkind hvalue
  · rintro ⟨hkind, hvalue⟩
    exact ⟨_, _, hkind, _, _, hvalue, rfl, rfl⟩

/-- An instruction is read if one is there. -/
theorem instruction_follows (index : Nat) : Follows (instruction index) IsInstruction := by
  intro bytes x rest
  have hopcode : Follows (coded .opcode Opcode.ofCode? fun code =>
      .unknownOpcode code index) (IsCode Opcode.all) := coded_follows _ _ _
  rw [instruction, hopcode.bind_iff]
  simp only [(operand_follows index).bind_iff, run_pure_iff]
  constructor
  · rintro ⟨_, _, hcode, _, _, h₁, _, _, h₂, _, _, h₃, rfl, rfl⟩
    exact .mk hcode h₁ h₂ h₃
  · rintro ⟨hcode, h₁, h₂, h₃⟩
    exact ⟨_, _, hcode, _, _, h₁, _, _, h₂, _, _, h₃, rfl, rfl⟩

theorem userFunction_follows : Follows userFunction IsFunction := by
  intro bytes x rest
  rw [userFunction, (count_follows .functionAddress).bind_iff]
  simp only [(count_follows .functionLocals).bind_iff, (text_follows .functionName).bind_iff,
    run_pure_iff]
  constructor
  · rintro ⟨_, _, haddress, _, _, hlocals, _, _, hname, rfl, rfl⟩
    exact .mk haddress hlocals hname
  · rintro ⟨haddress, hlocals, hname⟩
    exact ⟨_, _, haddress, _, _, hlocals, _, _, hname, rfl, rfl⟩

/-! ## Programs -/

theorem magic_follows : Follows magic fun bytes _ rest => IsCount bytes 340200501 rest := by
  intro bytes x rest
  have hmagic : IsCount bytes 340200501 rest ↔
      ∃ cs, IsToken bytes cs rest ∧ count? cs = some 340200501 :=
    (count_follows .magic bytes 340200501 rest).symm.trans (parsed_follows .magic bytes _ rest)
  change _ ↔ IsCount bytes 340200501 rest
  rw [magic, (token_follows .magic).bind_iff, hmagic]
  constructor
  · rintro ⟨cs, middle, htoken, hanswer⟩
    split at hanswer
    · cases hanswer
    · rename_i hvalue
      cases hanswer
      exact ⟨cs, htoken, not_not.1 hvalue⟩
  · rintro ⟨cs, htoken, hvalue⟩
    have hmagic : count? cs = some (UInt32.ofNat magicNumber) := hvalue
    refine ⟨cs, rest, htoken, ?_⟩
    rw [if_neg (not_not.2 hmagic)]
    rfl

/-- A program is read if one is there: the reader and the grammar agree. -/
theorem program_follows : Follows program IsProgram := by
  intro bytes x rest
  have htext (part : Section) (_ : Nat) := text_follows part
  have hnumber (_ : Nat) := number_follows .number
  rw [program, magic_follows.bind_iff]
  simp only [(counted_follows .stringCount (htext .string)).bind_iff,
    (counted_follows .numberCount hnumber).bind_iff,
    (counted_follows .functionCount fun _ => userFunction_follows).bind_iff,
    (counted_follows .libraryCount (htext .libraryName)).bind_iff,
    (counted_follows .instructionCount instruction_follows).bind_iff,
    (count_follows .globalCount).bind_iff, run_pure_iff]
  constructor
  · rintro ⟨_, _, h₀, _, _, h₁, _, _, h₂, _, _, h₃, _, _, h₄, _, _, h₅, _, _, h₆, rfl, rfl⟩
    exact .mk h₀ h₁ h₂ h₃ h₄ h₅ h₆
  · rintro ⟨h₀, h₁, h₂, h₃, h₄, h₅, h₆⟩
    exact ⟨(), _, h₀, _, _, h₁, _, _, h₂, _, _, h₃, _, _, h₄, _, _, h₅, _, _, h₆, rfl, rfl⟩

/-! ## Failures -/

end Reader

/-- What can be wrong with bytes that do not start with a program. -/
def LoadFault.OfForm : LoadFault → Prop
  | .unreadable _ _ => False
  | .badMagic _ | .truncated _ | .malformed _ _ => True
  | .unknownOpcode code _ => 24 < code
  | .unknownOperandKind code _ => 11 < code

namespace Reader

def Refuses (m : Reader α) : Prop :=
  ∀ bytes fault, m.run bytes = .error fault → fault.OfForm

/-- Two readers that fail for reasons of form do so one after the other. -/
theorem Refuses.bind {m : Reader α} {f : α → Reader β} (hm : Refuses m)
    (hf : ∀ x, Refuses (f x)) : Refuses (m >>= f) := by
  intro bytes fault h
  rw [StateT.run_bind] at h
  cases hfirst : m.run bytes with
  | error cause =>
      rw [hfirst] at h
      cases h
      exact hm bytes fault hfirst
  | ok answer =>
      rw [hfirst] at h
      exact hf answer.1 answer.2 fault h

theorem Refuses.pure (x : α) : Refuses (pure x) :=
  fun _ _ h => nomatch h

theorem Refuses.option {x? : Option α} {fault : LoadFault} (h : x? = none → fault.OfForm) :
    Refuses (match x? with
      | some x => (Pure.pure x : Reader α)
      | none => throw fault) := by
  cases x? with
  | some x => exact .pure x
  | none =>
      intro bytes _ hrun
      cases hrun
      exact h rfl

theorem token_refuses (part : Section) : Refuses (token part) := by
  intro bytes fault h
  change token part bytes = _ at h
  simp only [token] at h
  split at h
  · cases h
    trivial
  split at h
  · cases h
  · cases h
    trivial

theorem parsed_refuses (part : Section) (parse? : List Char → Option α) :
    Refuses (parsed part parse?) :=
  (token_refuses part).bind fun _ => Refuses.option fun _ => trivial

theorem count_refuses (part : Section) : Refuses (count part) :=
  parsed_refuses part count?

theorem text_refuses (part : Section) : Refuses (text part) := by
  refine (count_refuses part).bind fun length => Refuses.bind ?_ fun _ => Refuses.pure _
  intro bytes fault h
  change block part length.toNat bytes = _ at h
  cases bytes with
  | nil =>
      cases h
      trivial
  | cons separator bytes =>
      rw [block] at h
      split at h
      · cases h
        trivial
      · cases h

/-- A code that stands for nothing is a reason of form. -/
theorem coded_refuses (part : Section) (all : List α) (unknown : Nat → LoadFault)
    (h : ∀ code, all.length ≤ code → (unknown code).OfForm) :
    Refuses (coded part (fun code => all[code]?) unknown) :=
  (count_refuses part).bind fun _ => Refuses.option fun hnone =>
    h _ (List.getElem?_eq_none_iff.1 hnone)

/-- Items are refused for the reason that one of them is. -/
theorem items_refuses {item : Nat → Reader α} (hitem : ∀ index, Refuses (item index))
    (n index : Nat) : Refuses (items item index n) := by
  induction n generalizing index with
  | zero => exact .pure []
  | succ n ih => exact (hitem index).bind fun _ => (ih (index + 1)).bind fun _ => .pure _

theorem counted_refuses (part : Section) {item : Nat → Reader α}
    (hitem : ∀ index, Refuses (item index)) : Refuses (counted part item) :=
  (count_refuses part).bind fun n => (items_refuses hitem n.toNat 0).bind fun _ => .pure _

theorem operand_refuses (index : Nat) : Refuses (operand index) :=
  (coded_refuses .operandKind OperandKind.all (.unknownOperandKind · index)
      fun _ h => h).bind fun _ => (count_refuses .operandValue).bind fun _ => .pure _

theorem instruction_refuses (index : Nat) : Refuses (instruction index) :=
  (coded_refuses .opcode Opcode.all (.unknownOpcode · index) fun _ h => h).bind fun _ =>
    (operand_refuses index).bind fun _ => (operand_refuses index).bind fun _ =>
      (operand_refuses index).bind fun _ => .pure _

theorem userFunction_refuses : Refuses userFunction :=
  (count_refuses .functionAddress).bind fun _ => (count_refuses .functionLocals).bind fun _ =>
    (text_refuses .functionName).bind fun _ => .pure _

theorem magic_refuses : Refuses magic := by
  refine (token_refuses .magic).bind fun cs => ?_
  intro bytes fault h
  split at h
  · cases h
    trivial
  · cases h

/-- Bytes are refused only for their form. -/
theorem program_refuses : Refuses program :=
  magic_refuses.bind fun _ =>
    (counted_refuses .stringCount fun _ => text_refuses .string).bind fun _ =>
    (counted_refuses .numberCount fun _ => parsed_refuses .number _).bind fun _ =>
    (counted_refuses .functionCount fun _ => userFunction_refuses).bind fun _ =>
    (counted_refuses .libraryCount fun _ => text_refuses .libraryName).bind fun _ =>
    (counted_refuses .instructionCount instruction_refuses).bind fun _ =>
    (count_refuses .globalCount).bind fun _ => .pure _

end Reader

/-! ## Loading -/

namespace Program

open Phrase

/-- What is loaded is the program that was read. -/
theorem load_ok {bytes rest : Bytes} {program : Program}
    (h : Reader.program.run bytes = .ok (program, rest)) :
    (load bytes).map Loaded.program = .ok program := by
  change ((Reader.program.run bytes >>= _ : Except LoadFault Loaded)).map _ = _
  rw [h]
  rfl

/-- What is not read is not loaded. -/
theorem load_error {bytes : Bytes} {fault : LoadFault}
    (h : Reader.program.run bytes = .error fault) : load bytes = .error fault := by
  change (Reader.program.run bytes >>= _ : Except LoadFault Loaded) = _
  rw [h]
  rfl

/-- The loader accepts exactly the bytes that start with a program of the grammar, and answers with
that program; no bytes start with two programs, or with one that ends in two places.  All other
bytes are refused, and for a reason that lies in their form. -/
theorem load_grammar (bytes : Bytes) :
    (∀ program, (load bytes).map Loaded.program = .ok program ↔
      ∃ taken rest, bytes = taken ++ rest ∧ IsProgram bytes program rest) ∧
    (∀ program other rest left, IsProgram bytes program rest → IsProgram bytes other left →
      program = other ∧ rest = left) ∧
    ((∃ program rest, IsProgram bytes program rest) ∨
      ∃ fault, load bytes = .error fault ∧ fault.OfForm) := by
  -- Loading is reading a program, with a note on what is left behind it.
  have hfollows := Reader.program_follows bytes
  refine ⟨fun program => ⟨fun h => ?_, ?_⟩, fun program other rest left hprogram hother => ?_, ?_⟩
  · cases hread : Reader.program.run bytes with
    | error fault =>
        rw [load_error hread] at h
        cases h
    | ok answer =>
        rw [load_ok hread] at h
        cases h
        have hprogram := (hfollows _ _).1 hread
        rcases hprogram.suffix with ⟨taken, hbytes⟩
        exact ⟨taken, answer.2, hbytes.symm, hprogram⟩
  · rintro ⟨taken, rest, _, hprogram⟩
    exact load_ok ((hfollows _ _).2 hprogram)
  · have hread := ((hfollows _ _).2 hprogram).symm.trans ((hfollows _ _).2 hother)
    exact Prod.mk.inj (Except.ok.inj hread)
  · cases hread : Reader.program.run bytes with
    | error fault =>
        exact .inr ⟨fault, load_error hread, Reader.program_refuses bytes fault hread⟩
    | ok answer => exact .inl ⟨answer.1, answer.2, (hfollows _ _).1 hread⟩

/-- A program may be followed by anything, and its tokens may be separated by any blanks. -/
example : IsProgram (Utf8.bytes loose) tidy (Utf8.bytes " end".toList) :=
  (Reader.program_follows _ _ _).1 (by decide +kernel)

end Program
end CellMachine
