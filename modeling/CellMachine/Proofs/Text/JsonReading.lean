import Mathlib
import CellMachine.Text.Json
import CellMachine.Proofs.Number.Decimal

/-!
# Reading JSON

A reader of JSON texts, to say what a text that was written is worth.  It reads blanks between all
parts, every way to escape a character, pairs of surrogates, and numbers of the usual form; a number
keeps its text.  Truth values, which `Json` does not have, are refused like anything else that is no
JSON.  A text has at most one value, since the reader is a function.

The readers of nested parts take a bound on their depth and length, and the length of the text is
enough: `Json.read?_compact` states that a value that is written on one line is read as itself.
-/

namespace CellMachine
namespace Json

/-! ## Strings -/

def hexDigit? (c : Char) : Option Nat :=
  if c.isDigit then some (c.toNat - '0'.toNat)
  else if 'a' ≤ c.toLower ∧ c.toLower ≤ 'f' then some (c.toLower.toNat - 'a'.toNat + 10)
  else none

def codeUnit? : List Char → Option (Nat × List Char)
  | c₁ :: c₂ :: c₃ :: c₄ :: rest => do
      let d₁ ← hexDigit? c₁
      let d₂ ← hexDigit? c₂
      let d₃ ← hexDigit? c₃
      let d₄ ← hexDigit? c₄
      some (((d₁ * 16 + d₂) * 16 + d₃) * 16 + d₄, rest)
  | _ => none

/-- The character of a code unit, or of it and the one that is escaped next, if the two are
surrogates. -/
def unitChar? (unit : Nat) (rest : List Char) : Option (Char × List Char) :=
  if unit < 0xd800 ∨ 0xe000 ≤ unit then some (Char.ofNat unit, rest)
  else
    match rest with
    | '\\' :: 'u' :: rest => do
        let (low, rest) ← codeUnit? rest
        if unit < 0xdc00 ∧ 0xdc00 ≤ low ∧ low < 0xe000 then
          some (Char.ofNat (0x10000 + (unit - 0xd800) * 0x400 + (low - 0xdc00)), rest)
        else none
    | _ => none

def escaped? : List Char → Option (Char × List Char)
  | '"' :: rest => some ('"', rest)
  | '\\' :: rest => some ('\\', rest)
  | '/' :: rest => some ('/', rest)
  | 'b' :: rest => some ('\x08', rest)
  | 'f' :: rest => some ('\x0c', rest)
  | 'n' :: rest => some ('\n', rest)
  | 'r' :: rest => some ('\r', rest)
  | 't' :: rest => some ('\t', rest)
  | 'u' :: rest => do
      let (unit, rest) ← codeUnit? rest
      unitChar? unit rest
  | _ => none

/-- A character inside of a string; control characters have to be escaped. -/
def character? : List Char → Option (Char × List Char)
  | [] => none
  | c :: rest =>
      if c = '\\' then escaped? rest
      else if c = '"' ∨ c.toNat < 0x20 then none
      else some (c, rest)

def content? : Nat → List Char → Option (List Char × List Char)
  | 0, _ => none
  | bound + 1, cs =>
      if cs.head? = some '"' then some ([], cs.drop 1)
      else do
        let (c, rest) ← character? cs
        let (more, rest) ← content? bound rest
        some (c :: more, rest)

/-! ## Numbers -/

def isNumeric (c : Char) : Bool :=
  c.isDigit || c ∈ ['-', '+', '.', 'e', 'E']

def isExponent : List Char → Bool
  | [] => true
  | c :: rest =>
      let digits := (Number.spanSign rest).2
      (c = 'e' || c = 'E') && digits ≠ [] && digits.all Char.isDigit

/-- Whether the places of a number and an exponent follow, up to the end, or less of them. -/
def isFraction : List Char → Bool
  | '.' :: rest => (Number.spanDigits rest).1 ≠ [] && isExponent (Number.spanDigits rest).2
  | cs => isExponent cs

/-- Whether a text is a number: a minus sign if it is negative, digits without a leading zero, and
maybe places and an exponent. -/
def isNumeral (cs : List Char) : Bool :=
  let body := if cs.head? = some '-' then cs.drop 1 else cs
  let (whole, rest) := Number.spanDigits body
  whole ≠ [] && (whole.length = 1 || whole.head? ≠ some '0') && isFraction rest

/-- The longest run of characters that can be part of a number, if it is one. -/
def numeral? (cs : List Char) : Option (List Char × List Char) :=
  if isNumeral (cs.takeWhile isNumeric) then
    some (cs.takeWhile isNumeric, cs.dropWhile isNumeric)
  else none

/-! ## Values -/

def isBlank (c : Char) : Bool :=
  c ∈ [' ', '\t', '\n', '\r']

def skip (cs : List Char) : List Char :=
  cs.dropWhile isBlank

section
variable {α : Type}

def items? (close : Char) (item? : List Char → Option (α × List Char)) :
    Nat → List Char → Option (List α × List Char)
  | 0, _ => none
  | bound + 1, cs => do
      let (x, rest) ← item? cs
      match skip rest with
      | [] => none
      | c :: rest =>
          if c = close then some ([x], rest)
          else if c = ',' then do
            let (xs, rest) ← items? close item? bound rest
            some (x :: xs, rest)
          else none

/-- No items, or some with commas between them, up to a closing character. -/
def sequence? (close : Char) (item? : List Char → Option (α × List Char)) (bound : Nat)
    (cs : List Char) : Option (List α × List Char) :=
  if (skip cs).head? = some close then some ([], (skip cs).drop 1) else items? close item? bound cs

def member? (value? : List Char → Option (α × List Char)) (bound : Nat) (cs : List Char) :
    Option ((String × α) × List Char) :=
  match skip cs with
  | '"' :: rest => do
      let (name, rest) ← content? bound rest
      match skip rest with
      | ':' :: rest => do
          let (x, rest) ← value? rest
          some ((String.ofList name, x), rest)
      | _ => none
  | _ => none

end

def value? : Nat → List Char → Option (Json × List Char)
  | 0, _ => none
  | bound + 1, cs =>
      match skip cs with
      | [] => none
      | c :: rest =>
          if c = '"' then
            (content? bound rest).map fun (s, rest) => (.string (String.ofList s), rest)
          else if c = '[' then
            (sequence? ']' (value? bound) bound rest).map fun (elements, rest) =>
              (.array elements, rest)
          else if c = '\x7b' then
            (sequence? '\x7d' (member? (value? bound) bound) bound rest).map fun (fields, rest) =>
              (.object fields, rest)
          else if c = 'n' then
            if rest.take 3 = ['u', 'l', 'l'] then some (.null, rest.drop 3) else none
          else
            (numeral? (c :: rest)).map fun (text, rest) => (.number text, rest)

def read? (s : String) : Option Json :=
  match value? (s.length + 1) s.toList with
  | some (value, rest) => if skip rest = [] then some value else none
  | none => none

/-! ## Characters of strings -/

/-- Every hexadecimal digit is read back. -/
theorem hexDigit?_digitChar : ∀ d < 16, hexDigit? (Nat.digitChar d) = some d := by
  decide +kernel

/-- The four digits of a control character are read back. -/
theorem codeUnit?_digitChar {n : Nat} (h : n < 0x100) (rest : List Char) :
    codeUnit? ('0' :: '0' :: Nat.digitChar (n / 16) :: Nat.digitChar (n % 16) :: rest) =
      some (n, rest) := by
  have hzero : hexDigit? '0' = some 0 := rfl
  have hhigh := hexDigit?_digitChar (n / 16) (by omega)
  have hlow := hexDigit?_digitChar (n % 16) (by omega)
  simp only [codeUnit?, hhigh, hlow, hzero, Option.bind_eq_bind, Option.bind_some, Nat.zero_mul,
    Nat.zero_add, Nat.div_add_mod']

/-- What a character is written as is read as that character. -/
theorem character?_escape (c : Char) (rest : List Char) :
    character? (escape c ++ rest) = some (c, rest) := by
  rw [escape.eq_def]
  split
  -- The characters with an escape of their own are read by evaluation.
  any_goals rfl
  rename_i hquote hbackslash _ _ _ _ _
  split
  · rename_i hcontrol
    have hunit := codeUnit?_digitChar (show c.toNat < 0x100 by omega) rest
    have hchar : unitChar? c.toNat rest = some (Char.ofNat c.toNat, rest) :=
      if_pos (.inl (by omega))
    change (codeUnit? ('0' :: '0' :: _ :: _ :: rest)).bind (fun x => unitChar? x.1 x.2) = _
    rw [hunit, Option.bind_some, hchar, Char.ofNat_toNat]
  · rename_i hplain
    have hspecial : ¬ (c = '"' ∨ c.toNat < 0x20) := not_or.2 ⟨hquote, hplain⟩
    exact (if_neg hbackslash).trans (if_neg hspecial)

/-- A character inside of a string is not taken for its end. -/
theorem escape_head? (c : Char) (rest : List Char) : (escape c ++ rest).head? ≠ some '"' := by
  rw [escape.eq_def]
  split
  any_goals simp
  split
  · simp
  · simpa

/-- Escaped characters are read back up to the closing quote. -/
theorem content?_escape {s : List Char} {bound : Nat} (hbound : s.length < bound)
    (rest : List Char) : content? bound (s.flatMap escape ++ '"' :: rest) = some (s, rest) := by
  induction s generalizing bound with
  | nil =>
      rcases Nat.exists_eq_add_one_of_ne_zero (Nat.ne_zero_of_lt hbound) with ⟨bound, rfl⟩
      rfl
  | cons c s ih =>
      rcases Nat.exists_eq_add_one_of_ne_zero (Nat.ne_zero_of_lt hbound) with ⟨bound, rfl⟩
      have hmore := ih (Nat.lt_of_succ_lt_succ hbound)
      rw [List.flatMap_cons, List.append_assoc, content?, if_neg (escape_head? c _),
        character?_escape]
      simp only [Option.bind_eq_bind, Option.bind_some, hmore]

/-- An escape is written in visible characters. -/
theorem visible_escape (c : Char) : ∀ x ∈ escape c, 0x20 ≤ x.toNat := by
  have hdigit : ∀ d < 16, 0x20 ≤ (Nat.digitChar d).toNat := by decide +kernel
  have hlow := hdigit (c.toNat % 16) (by omega)
  rw [escape.eq_def]
  split
  any_goals simp
  split
  · have hhigh := hdigit (c.toNat / 16) (by omega)
    simp [hhigh, hlow]
  · rename_i hplain
    simpa using hplain

/-- Nothing in a string is a control character. -/
theorem visible_quote (s : String) : ∀ x ∈ quote s, 0x20 ≤ x.toNat := by
  intro x hx
  simp only [quote, List.cons_append, List.mem_cons, List.mem_append, List.mem_flatMap,
    List.not_mem_nil, or_false] at hx
  rcases hx with rfl | ⟨c, -, hx⟩ | rfl
  · decide
  · exact visible_escape c x hx
  · decide

theorem length_le_quote (s : String) : s.length + 2 ≤ (quote s).length := by
  have hescape (c : Char) : 1 ≤ (escape c).length := by
    rw [escape.eq_def]
    split
    any_goals simp
    split <;> simp
  have hflat (cs : List Char) : cs.length ≤ (cs.flatMap escape).length := by
    induction cs with
    | nil => exact Nat.zero_le _
    | cons c cs ih =>
        have := hescape c
        rw [List.length_cons, List.flatMap_cons, List.length_append]
        omega
  have := hflat s.toList
  rw [String.length_toList] at this
  simpa [quote] using this

/-! ## Numerals -/

theorem isNumeric_of_isDigit {c : Char} (h : c.isDigit = true) : isNumeric c = true := by
  rw [isNumeric, h, Bool.true_or]

theorem ne_of_isNumeric {c d : Char} (hc : isNumeric c = true) (hd : isNumeric d = false) :
    c ≠ d := by
  rintro rfl
  exact Bool.false_ne_true (hd.symm.trans hc)

theorem isBlank_of_isNumeric {c : Char} (h : isNumeric c = true) : isBlank c = false := by
  have hne {d : Char} (hd : isNumeric d = false) := ne_of_isNumeric h hd
  have hspace := hne (show isNumeric ' ' = false by decide)
  have htab := hne (show isNumeric '\t' = false by decide)
  have hfeed := hne (show isNumeric '\n' = false by decide)
  have hreturn := hne (show isNumeric '\r' = false by decide)
  simp [isBlank, hspace, htab, hfeed, hreturn]

theorem visible_of_isNumeric {c : Char} (h : isNumeric c = true) : 0x20 ≤ c.toNat := by
  simp only [isNumeric, Bool.or_eq_true, decide_eq_true_eq] at h
  rcases h with h | h
  · exact (Number.toNat_of_isDigit h).1.trans' (by decide)
  · exact (show ∀ x ∈ ['-', '+', '.', 'e', 'E'], 0x20 ≤ x.toNat by simp) c h

/-- Numbers other than zero have no leading zero. -/
theorem head?_toDigits {n : Nat} (h : n ≠ 0) : (Nat.toDigits 10 n).head? ≠ some '0' := by
  induction n using Nat.strongRecOn with
  | ind n ih =>
    rcases Nat.lt_or_ge n 10 with hlt | hge
    · have hdigit : ∀ d < 10, d ≠ 0 → some (Nat.digitChar d) ≠ some '0' := by
        decide +kernel
      rw [Nat.toDigits_of_lt_base hlt]
      exact hdigit n hlt h
    · have hhead := ih (n / 10) (by omega) (by omega)
      rw [Nat.toDigits_of_base_le (by decide) hge,
        List.head?_append_of_ne_nil _ Nat.toDigits_ne_nil]
      exact hhead

/-- Natural numbers are written without leading zeros. -/
theorem isNumeral_toDigits (n : Nat) : isNumeral (Nat.toDigits 10 n) = true := by
  have hdigits : ∀ c ∈ Nat.toDigits 10 n, c.isDigit = true :=
    fun c hc => Number.isDigit_of_mem_digits hc
  have hminus : (Nat.toDigits 10 n).head? ≠ some '-' := by
    intro hhead
    exact absurd (hdigits _ (List.mem_of_mem_head? hhead)) (by decide)
  have hzero : (Nat.toDigits 10 n).length = 1 ∨ (Nat.toDigits 10 n).head? ≠ some '0' := by
    rcases Nat.eq_zero_or_pos n with rfl | hpos
    · exact .inl rfl
    · exact .inr (head?_toDigits (Nat.ne_of_gt hpos))
  have hne : Nat.toDigits 10 n ≠ [] := Nat.toDigits_ne_nil
  rw [isNumeral, if_neg hminus, Number.spanDigits_self hdigits]
  simpa [hne, isFraction, isExponent] using hzero

/-- What is read of a numeral as a whole are characters of numbers. -/
theorem numeric_of_numeral {text : List Char} (h : numeral? text = some (text, [])) :
    isNumeral text = true ∧ ∀ c ∈ text, isNumeric c = true := by
  rw [numeral?] at h
  split at h
  · rename_i hnumeral
    simp only [Option.some.injEq, Prod.mk.injEq] at h
    rw [h.1] at hnumeral
    exact ⟨hnumeral, List.takeWhile_eq_self_iff.1 h.1⟩
  · cases h

/-- A number ends where no character of a number follows. -/
theorem numeral?_append {text rest : List Char} (h : numeral? text = some (text, []))
    (hrest : ∀ c, rest.head? = some c → isNumeric c = false) :
    numeral? (text ++ rest) = some (text, rest) := by
  rcases numeric_of_numeral h with ⟨hnumeral, hnumeric⟩
  have hnone : rest.takeWhile isNumeric = [] ∧ rest.dropWhile isNumeric = rest := by
    cases rest with
    | nil => exact ⟨rfl, rfl⟩
    | cons c rest => simp [hrest c rfl]
  rw [numeral?, List.takeWhile_append_of_pos hnumeric, List.dropWhile_append_of_pos hnumeric,
    hnone.1, hnone.2, List.append_nil, if_pos hnumeral]

/-! ## Sequences -/

section
variable {α : Type} {write : α → List Char} {item? : List Char → Option (α × List Char)}
  {close : Char} {xs : List α} {bound : Nat}

theorem skip_cons {c : Char} (h : isBlank c = false) (rest : List Char) :
    skip (c :: rest) = c :: rest :=
  List.dropWhile_cons_of_neg (by rw [h]; exact Bool.false_ne_true)

/-- Items are read back if each of them is, whether a comma stands behind it or the closing
character. -/
theorem items?_intercalate (hblank : isBlank close = false) (hcomma : close ≠ ',')
    (hne : xs ≠ []) (hbound : xs.length ≤ bound)
    (hitem : ∀ x ∈ xs, ∀ c ∈ [close, ','], ∀ rest,
      item? (write x ++ c :: rest) = some (x, c :: rest)) (rest : List Char) :
    items? close item? bound ([','].intercalate (xs.map write) ++ close :: rest) =
      some (xs, rest) := by
  induction xs generalizing bound with
  | nil => exact absurd rfl hne
  | cons x xs ih =>
      rcases Nat.exists_eq_add_one_of_ne_zero (Nat.ne_zero_of_lt hbound) with ⟨bound, rfl⟩
      have hfirst := hitem x (List.mem_cons_self ..)
      -- The closing character stands behind the last item, a comma behind all others.
      cases xs with
      | nil =>
          rw [List.map_singleton, List.intercalate_singleton, items?,
            hfirst close (List.mem_cons_self ..)]
          simp only [Option.bind_eq_bind, Option.bind_some, skip_cons hblank, if_true]
      | cons y ys =>
          have hmore := ih (List.cons_ne_nil _ _) (Nat.le_of_succ_le_succ hbound)
            fun z hz => hitem z (List.mem_cons_of_mem _ hz)
          have hskip := skip_cons (show isBlank ',' = false by decide)
          rw [List.map_cons, List.map_cons, List.intercalate_cons_cons, ← List.map_cons,
            List.append_assoc, List.append_assoc, List.singleton_append, items?,
            hfirst ',' (by simp)]
          simp only [Option.bind_eq_bind, Option.bind_some, hskip, if_neg (Ne.symm hcomma),
            if_true, hmore]

theorem exists_intercalate (text : List Char) (texts : List (List Char)) :
    ∃ more, [','].intercalate (text :: texts) = text ++ more := by
  cases texts with
  | nil => exact ⟨[], by rw [List.intercalate_singleton, List.append_nil]⟩
  | cons next texts => exact ⟨_, by rw [List.intercalate_cons_cons, List.append_assoc]⟩

/-- A sequence is read back if its items are, and if none of them starts as the sequence ends. -/
theorem sequence?_intercalate (hblank : isBlank close = false) (hcomma : close ≠ ',')
    (hbound : xs.length ≤ bound)
    (hstart : ∀ x ∈ xs, ∃ c cs, write x = c :: cs ∧ isBlank c = false ∧ c ≠ close)
    (hitem : ∀ x ∈ xs, ∀ c ∈ [close, ','], ∀ rest,
      item? (write x ++ c :: rest) = some (x, c :: rest)) (rest : List Char) :
    sequence? close item? bound ([','].intercalate (xs.map write) ++ close :: rest) =
      some (xs, rest) := by
  cases xs with
  | nil =>
      have hskip := skip_cons hblank rest
      rw [List.map_nil, List.intercalate_nil, List.nil_append, sequence?, hskip]
      exact if_pos rfl
  | cons x xs =>
      rcases hstart x (List.mem_cons_self ..) with ⟨c, cs, hwrite, hc, hne⟩
      rcases exists_intercalate (write x) (xs.map write) with ⟨more, hmore⟩
      have hhead : (skip ([','].intercalate ((x :: xs).map write) ++ close :: rest)).head? ≠
          some close := by
        rw [List.map_cons, hmore, hwrite, List.cons_append, List.cons_append, skip_cons hc]
        simpa using hne
      rw [sequence?, if_neg hhead]
      exact items?_intercalate hblank hcomma (List.cons_ne_nil _ _) hbound hitem rest

theorem length_le_intercalate {texts : List (List Char)} (h : ∀ text ∈ texts, text ≠ []) :
    texts.length ≤ ([','].intercalate texts).length := by
  induction texts with
  | nil => exact Nat.le_refl _
  | cons text texts ih =>
      have hpos := List.length_pos_of_ne_nil (h text (List.mem_cons_self ..))
      have hle := ih fun other hother => h other (List.mem_cons_of_mem _ hother)
      cases texts with
      | nil => rwa [List.intercalate_singleton]
      | cons next texts =>
          rw [List.intercalate_cons_cons, List.length_append, List.length_append, List.length_cons]
          omega

theorem length_le_intercalate_of_mem {texts : List (List Char)} {text : List Char}
    (h : text ∈ texts) : text.length ≤ ([','].intercalate texts).length := by
  induction texts with
  | nil => cases h
  | cons first texts ih =>
      cases texts with
      | nil => rw [List.intercalate_singleton, List.mem_singleton.1 h]
      | cons next texts =>
          rw [List.intercalate_cons_cons, List.length_append, List.length_append]
          rcases List.mem_cons.1 h with rfl | h
          · omega
          · exact (ih h).trans (Nat.le_add_left _ _)

theorem visible_intercalate {texts : List (List Char)}
    (h : ∀ text ∈ texts, ∀ c ∈ text, 0x20 ≤ c.toNat) :
    ∀ c ∈ [','].intercalate texts, 0x20 ≤ c.toNat := by
  induction texts with
  | nil => exact nofun
  | cons text texts ih =>
      have hmore := ih fun other hother => h other (List.mem_cons_of_mem _ hother)
      have hfirst := h text (List.mem_cons_self ..)
      cases texts with
      | nil => rwa [List.intercalate_singleton]
      | cons next texts =>
          intro c hc
          rw [List.intercalate_cons_cons, List.append_assoc] at hc
          rcases List.mem_append.1 hc with hc | hc
          · exact hfirst c hc
          rcases List.mem_cons.1 hc with rfl | hc
          · decide
          · exact hmore c hc

end

/-! ## Values that are written -/

/-- Elements are written with commas between them. -/
theorem compactElements_eq (elements : List Json) :
    compactElements elements = [','].intercalate (elements.map compactChars) := by
  induction elements with
  | nil => rfl
  | cons element elements ih =>
      cases elements with
      | nil => rw [compactElements, List.map_singleton, List.intercalate_singleton]
      | cons next elements =>
          rw [compactElements, ih, List.map_cons, List.map_cons, List.map_cons,
            List.intercalate_cons_cons, List.append_assoc, List.singleton_append]
          exact List.cons_ne_nil _ _

def fieldChars (field : String × Json) : List Char :=
  quote field.1 ++ ':' :: compactChars field.2

/-- Fields are written with commas between them. -/
theorem compactFields_eq (fields : List (String × Json)) :
    compactFields fields = [','].intercalate (fields.map fieldChars) := by
  induction fields with
  | nil => rfl
  | cons field fields ih =>
      cases fields with
      | nil => rw [compactFields, List.map_singleton, List.intercalate_singleton, fieldChars]
      | cons next fields =>
          rw [compactFields, ih, List.map_cons, List.map_cons, List.map_cons,
            List.intercalate_cons_cons, List.append_assoc, List.singleton_append]
          · simp [fieldChars]
          · exact List.cons_ne_nil _ _

/-- Whether every number in a value is a number by its text. -/
inductive Proper : Json → Prop
  | null : Proper .null
  | number {text : List Char} (h : numeral? text = some (text, [])) : Proper (.number text)
  | string (s : String) : Proper (.string s)
  | array {elements : List Json} (h : ∀ x ∈ elements, Proper x) : Proper (.array elements)
  | object {fields : List (String × Json)} (h : ∀ field ∈ fields, Proper field.2) :
      Proper (.object fields)

theorem proper_ofNat (n : Nat) : Proper (.ofNat n) := by
  have hnumeric : ∀ c ∈ Nat.toDigits 10 n, isNumeric c = true :=
    fun c hc => isNumeric_of_isDigit (Number.isDigit_of_mem_digits hc)
  refine .number ?_
  rw [numeral?, List.takeWhile_eq_self_iff.2 hnumeric, List.dropWhile_eq_nil_iff.2 hnumeric,
    if_pos (isNumeral_toDigits n)]

/-- No value starts with a blank or with the end of an array. -/
theorem Proper.start {value : Json} (h : Proper value) :
    ∃ c cs, value.compactChars = c :: cs ∧ isBlank c = false ∧ c ≠ ']' := by
  cases h with
  | null => exact ⟨_, _, rfl, by decide, by decide⟩
  | number h =>
      rename_i text
      rcases numeric_of_numeral h with ⟨hnumeral, hnumeric⟩
      cases text with
      | nil => cases hnumeral
      | cons c cs =>
          have hc := hnumeric c (List.mem_cons_self ..)
          exact ⟨c, cs, rfl, isBlank_of_isNumeric hc, ne_of_isNumeric hc (by decide)⟩
  | string => exact ⟨_, _, rfl, by decide, by decide⟩
  | array => exact ⟨_, _, rfl, by decide, by decide⟩
  | object => exact ⟨_, _, rfl, by decide, by decide⟩

/-- The first character decides what is read. -/
theorem value?_cons {c : Char} (h : isBlank c = false) (bound : Nat) (rest : List Char) :
    value? (bound + 1) (c :: rest) =
      if c = '"' then
        (content? bound rest).map fun (s, rest) => (.string (String.ofList s), rest)
      else if c = '[' then
        (sequence? ']' (value? bound) bound rest).map fun (elements, rest) =>
          (.array elements, rest)
      else if c = '\x7b' then
        (sequence? '\x7d' (member? (value? bound) bound) bound rest).map fun (fields, rest) =>
          (.object fields, rest)
      else if c = 'n' then
        if rest.take 3 = ['u', 'l', 'l'] then some (.null, rest.drop 3) else none
      else
        (numeral? (c :: rest)).map fun (text, rest) => (.number text, rest) := by
  rw [value?, skip_cons h]

theorem content?_toList {s : String} {bound : Nat} (h : s.length < bound) (rest : List Char) :
    content? bound (s.toList.flatMap escape ++ ['"'] ++ rest) = some (s.toList, rest) := by
  rw [List.append_assoc]
  exact content?_escape (by rwa [String.length_toList]) rest

/-- A field is read back if its value is. -/
theorem member?_fieldChars {item? : List Char → Option (Json × List Char)} {bound : Nat}
    {field : String × Json} {rest : List Char} (hname : field.1.length < bound)
    (hitem : item? (field.2.compactChars ++ rest) = some (field.2, rest)) :
    member? item? bound (fieldChars field ++ rest) = some (field, rest) := by
  have hcontent := content?_toList hname (':' :: (field.2.compactChars ++ rest))
  have htext : fieldChars field ++ rest = '"' :: (field.1.toList.flatMap escape ++ ['"'] ++
      ':' :: (field.2.compactChars ++ rest)) := by
    simp [fieldChars, quote]
  have hskip := skip_cons (show isBlank '"' = false by decide)
  have hcolon := skip_cons (show isBlank ':' = false by decide)
  rw [htext, member?, hskip]
  simp only [hcontent, hcolon, hitem, Option.bind_eq_bind, Option.bind_some, String.ofList_toList]

/-- Whether a value is read back from any text that starts with its characters, if no character of a
number follows them. -/
def ReadsBack (value : Json) : Prop :=
  ∀ {bound : Nat} {rest : List Char}, value.compactChars.length < bound →
    (∀ c, rest.head? = some c → isNumeric c = false) →
      value? bound (value.compactChars ++ rest) = some (value, rest)

theorem readsBack_number {text : List Char} (h : numeral? text = some (text, [])) :
    ReadsBack (.number text) := by
  rintro (_ | bound) rest hbound hrest
  · cases hbound
  have hnumeral := numeral?_append h hrest
  rcases numeric_of_numeral h with ⟨htext, hnumeric⟩
  cases text with
  | nil => cases htext
  | cons c cs =>
      have hc := hnumeric c (List.mem_cons_self ..)
      rw [compactChars, List.cons_append, value?_cons (isBlank_of_isNumeric hc),
        if_neg (ne_of_isNumeric hc (by decide)), if_neg (ne_of_isNumeric hc (by decide)),
        if_neg (ne_of_isNumeric hc (by decide)), if_neg (ne_of_isNumeric hc (by decide)),
        ← List.cons_append, hnumeral, Option.map_some]

/-- Every text is read back. -/
theorem readsBack_string (s : String) : ReadsBack (.string s) := by
  rintro (_ | bound) rest hbound -
  · cases hbound
  have hlength := length_le_quote s
  have hshort : s.length < bound := by
    rw [compactChars] at hbound
    omega
  have hcontent := content?_toList hshort rest
  rw [compactChars, quote, List.cons_append, List.cons_append, value?_cons (by decide), if_pos rfl,
    hcontent, Option.map_some]
  exact congrArg (fun text => some (Json.string text, rest)) String.ofList_toList

/-- An array is read back if its elements are. -/
theorem readsBack_array {elements : List Json} (h : ∀ x ∈ elements, Proper x)
    (ih : ∀ x ∈ elements, ReadsBack x) : ReadsBack (.array elements) := by
  rintro (_ | bound) rest hbound -
  · cases hbound
  rw [compactChars, compactElements_eq] at hbound ⊢
  simp only [List.length_cons, List.length_append, List.length_nil] at hbound
  have hcount : elements.length ≤ ([','].intercalate (elements.map compactChars)).length := by
    rw [← List.length_map compactChars]
    refine length_le_intercalate fun text htext => ?_
    rcases List.mem_map.1 htext with ⟨x, hx, rfl⟩
    rcases (h x hx).start with ⟨c, cs, hcs, -⟩
    exact hcs ▸ List.cons_ne_nil _ _
  have hitem : ∀ x ∈ elements, ∀ c ∈ [']', ','], ∀ more,
      value? bound (x.compactChars ++ c :: more) = some (x, c :: more) := by
    intro x hx c hc more
    have hlength := length_le_intercalate_of_mem (List.mem_map_of_mem (f := compactChars) hx)
    refine ih x hx (by omega) ?_
    -- What follows an element cannot be taken for a part of a number.
    rintro _ ⟨⟩
    rcases List.mem_pair.1 hc with rfl | rfl <;> decide
  have hsequence := sequence?_intercalate (by decide) (by decide)
    (show elements.length ≤ bound by omega) (fun x hx => (h x hx).start) hitem rest
  rw [List.cons_append, List.cons_append, List.append_assoc, List.singleton_append,
    value?_cons (by decide), if_neg (by decide), if_pos rfl, hsequence, Option.map_some]

/-- An object is read back if the values of its fields are. -/
theorem readsBack_object {fields : List (String × Json)}
    (ih : ∀ field ∈ fields, ReadsBack field.2) : ReadsBack (.object fields) := by
  rintro (_ | bound) rest hbound -
  · cases hbound
  rw [compactChars, compactFields_eq] at hbound ⊢
  simp only [List.length_cons, List.length_append, List.length_nil] at hbound
  -- Each field has a character at least, so the bound on the text bounds the fields.
  have hcount : fields.length ≤ ([','].intercalate (fields.map fieldChars)).length := by
    rw [← List.length_map fieldChars]
    refine length_le_intercalate fun text htext => ?_
    rcases List.mem_map.1 htext with ⟨field, -, rfl⟩
    exact List.cons_ne_nil _ _
  have hstart : ∀ field ∈ fields, ∃ c cs, fieldChars field = c :: cs ∧ isBlank c = false ∧
      c ≠ '\x7d' := fun field _ => ⟨_, _, rfl, by decide, by decide⟩
  have hitem : ∀ field ∈ fields, ∀ c ∈ ['\x7d', ','], ∀ more,
      member? (value? bound) bound (fieldChars field ++ c :: more) = some (field, c :: more) := by
    intro field hfield c hc more
    have hlength := length_le_intercalate_of_mem (List.mem_map_of_mem (f := fieldChars) hfield)
    have hname := length_le_quote field.1
    simp only [fieldChars, List.length_append, List.length_cons] at hlength
    refine member?_fieldChars (by omega) (ih field hfield (by omega) ?_)
    rintro _ ⟨⟩
    rcases List.mem_pair.1 hc with rfl | rfl <;> decide
  have hsequence := sequence?_intercalate (by decide) (by decide)
    (show fields.length ≤ bound by omega) hstart hitem rest
  rw [List.cons_append, List.cons_append, List.append_assoc, List.singleton_append,
    value?_cons (by decide), if_neg (by decide), if_neg (by decide), if_pos rfl, hsequence,
    Option.map_some]

/-- Every value whose numbers are numbers is read back. -/
theorem Proper.readsBack {value : Json} (h : Proper value) : ReadsBack value := by
  induction h with
  | null =>
      rintro (_ | bound) rest hbound -
      · cases hbound
      · rfl
  | number h => exact readsBack_number h
  | string s => exact readsBack_string s
  | array h ih => exact readsBack_array h ih
  | object h ih => exact readsBack_object ih

/-- A value that is written on one line is read as itself. -/
theorem read?_compact {value : Json} (h : Proper value) : read? value.compact = some value := by
  have hread : value? (value.compactChars.length + 1) (value.compactChars ++ []) =
      some (value, []) := h.readsBack (Nat.lt_succ_self _) nofun
  rw [List.append_nil] at hread
  rw [read?, compact, String.length_ofList, String.toList_ofList, hread]
  rfl

/-- The reader is not lenient: a string with a line break in it is no JSON, nor is a number with a
leading zero, or a text with anything behind its value. -/
example : (["\"\n\"", "07", "null null"].map read?).all Option.isNone = true := by
  decide +kernel

/-- No control character is written, so a value that is written stays on its line. -/
theorem Proper.visible {value : Json} (h : Proper value) :
    ∀ c ∈ value.compactChars, 0x20 ≤ c.toNat := by
  -- Arrays and objects put their parts between two brackets.
  have henclosed {first last : Char} {cs : List Char} (hfirst : 0x20 ≤ first.toNat)
      (hlast : 0x20 ≤ last.toNat) (hcs : ∀ c ∈ cs, 0x20 ≤ c.toNat) :
      ∀ c ∈ first :: cs ++ [last], 0x20 ≤ c.toNat := by
    intro c hc
    rcases List.mem_append.1 hc with hc | hc
    · rcases List.mem_cons.1 hc with rfl | hc
      · exact hfirst
      · exact hcs c hc
    · exact List.mem_singleton.1 hc ▸ hlast
  induction h with
  | null => simp [compactChars]
  | number h => exact fun c hc => visible_of_isNumeric ((numeric_of_numeral h).2 c hc)
  | string s => exact visible_quote s
  | array h ih =>
      rw [compactChars, compactElements_eq]
      refine henclosed (by decide) (by decide) (visible_intercalate fun text htext => ?_)
      rcases List.mem_map.1 htext with ⟨x, hx, rfl⟩
      exact ih x hx
  | object h ih =>
      rw [compactChars, compactFields_eq]
      refine henclosed (by decide) (by decide) (visible_intercalate fun text htext => ?_)
      rcases List.mem_map.1 htext with ⟨field, hfield, rfl⟩
      intro c hc
      rcases List.mem_append.1 hc with hc | hc
      · exact visible_quote field.1 c hc
      rcases List.mem_cons.1 hc with rfl | hc
      · decide
      · exact ih field hfield c hc

end Json
end CellMachine
