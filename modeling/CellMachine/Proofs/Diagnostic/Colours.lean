import Mathlib
import CellMachine.Diagnostic.Report

/-!
# Colours are added to a report and nothing else

A coloured report differs from the plain one by the sequences that select how text looks.  To say so
of the finished text, `Terminal.glyphs` takes any text apart, from the left to the right, into such
sequences and into characters that stand for themselves.  The characters that are shown are then
those of the plain report, and the sequences are styles with a reset behind each of them:
`Diagnostic.coloured_adds_selections`.

What a diagnostic says may hold brackets, digits and letters of any kind, but no escape character: a
terminal could not tell its sequences from those of the report.
-/

namespace CellMachine
namespace Terminal

/-! ## Taking a text apart -/

/-- What a terminal finds in a text: a character to show, or a sequence with its parameters. -/
inductive Glyph
  | character (c : Char)
  | select (parameters : List Char)
  deriving DecidableEq, Repr

def isParameter (c : Char) : Bool :=
  c.isDigit || c = ';'

/-- The parameters of the sequence with which a text starts, and the text behind it. -/
def selection? : List Char → Option (List Char × List Char)
  | '\x1b' :: '[' :: rest =>
      if (rest.dropWhile isParameter).head? = some 'm' then
        some (rest.takeWhile isParameter, (rest.dropWhile isParameter).drop 1)
      else none
  | _ => none

/-- Whether a sequence with the given parameters takes all styles back; none stand for a zero. -/
def isReset (parameters : List Char) : Bool :=
  parameters = [] || parameters = ['0']

/-- The first glyph of a text that starts with the given character, and the text behind it. -/
def glyph (c : Char) (rest : List Char) : Glyph × List Char :=
  match selection? (c :: rest) with
  | some (parameters, after) => (.select parameters, after)
  | none => (.character c, rest)

theorem glyph_length_le (c : Char) (rest : List Char) : (glyph c rest).2.length ≤ rest.length := by
  rw [glyph]
  split
  · rename_i parameters after h
    simp only [selection?] at h
    split at h
    · rename_i content heq
      split at h
      · cases h
        have hsuffix :=
          (List.drop_suffix 1 _).trans (List.dropWhile_suffix (l := content) isParameter)
        have hle := hsuffix.length_le
        rw [(List.cons.inj heq).2]
        exact hle.trans (Nat.le_succ _)
      · cases h
    · cases h
  · exact Nat.le_refl _

def glyphs : List Char → List Glyph
  | [] => []
  | c :: rest => (glyph c rest).1 :: glyphs (glyph c rest).2
termination_by cs => cs.length
decreasing_by exact Nat.lt_succ_of_le (glyph_length_le c rest)

def Glyph.shown? : Glyph → Option Char
  | character c => some c
  | select _ => none

def Glyph.parameters? : Glyph → Option (List Char)
  | character _ => none
  | select parameters => some parameters

/-- A text without its sequences. -/
def shown (cs : List Char) : List Char :=
  (glyphs cs).filterMap Glyph.shown?

def selections (cs : List Char) : List (List Char) :=
  (glyphs cs).filterMap Glyph.parameters?

/-! ## Texts and sequences -/

/-- A character that is no escape shows itself. -/
theorem glyphs_cons {c : Char} (h : c ≠ '\x1b') (rest : List Char) :
    glyphs (c :: rest) = .character c :: glyphs rest := by
  have hnone : selection? (c :: rest) = none := by
    unfold selection?
    split
    · rename_i heq
      exact absurd (List.cons.inj heq).1 h
    · rfl
  rw [glyphs, glyph, hnone]

/-- A text without an escape is shown as it is, whatever else it holds. -/
theorem glyphs_text {cs : List Char} (h : '\x1b' ∉ cs) (rest : List Char) :
    glyphs (cs ++ rest) = cs.map .character ++ glyphs rest := by
  induction cs with
  | nil => rfl
  | cons c cs ih =>
      rcases not_or.1 (mt List.mem_cons.2 h) with ⟨hne, hcs⟩
      rw [List.cons_append, glyphs_cons (Ne.symm hne), ih hcs, List.map_cons, List.cons_append]

/-- A sequence ends at its own letter, whatever text stands behind it. -/
theorem glyphs_selectGraphic {parameters : List Char}
    (h : ∀ c ∈ parameters, isParameter c = true) (rest : List Char) :
    glyphs (selectGraphic parameters ++ rest) = .select parameters :: glyphs rest := by
  have hm : isParameter 'm' = false := by decide +kernel
  have htake : (parameters ++ 'm' :: rest).takeWhile isParameter = parameters := by
    rw [List.takeWhile_append_of_pos h, List.takeWhile_cons_of_neg (by simp [hm]),
      List.append_nil]
  have hdrop : (parameters ++ 'm' :: rest).dropWhile isParameter = 'm' :: rest := by
    rw [List.dropWhile_append_of_pos h, List.dropWhile_cons_of_neg (by simp [hm])]
  have hsome : selection? ('\x1b' :: '[' :: (parameters ++ 'm' :: rest)) =
      some (parameters, rest) := by
    simp only [selection?, htake, hdrop]
    rfl
  have htext : selectGraphic parameters ++ rest = '\x1b' :: '[' :: (parameters ++ 'm' :: rest) := by
    simp [selectGraphic]
  rw [htext, glyphs, glyph, hsome]

/-! ## Spans -/

def ofSpan (span : Span) : List Glyph :=
  match span.style with
  | some style => .select style.parameters :: span.plain.map .character ++ [.select ['0']]
  | none => span.plain.map .character

theorem isParameter_of_style (style : Style) : ∀ c ∈ style.parameters, isParameter c = true := by
  rw [← List.all_eq_true]
  cases style <;> rfl

/-- No style takes styles back. -/
theorem isReset_of_style (style : Style) : isReset style.parameters = false := by
  cases style <;> rfl

/-- A terminal finds of a coloured span what the span is made of, whatever follows it. -/
theorem glyphs_span {span : Span} (h : '\x1b' ∉ span.plain) (rest : List Char) :
    glyphs (span.coloured ++ rest) = ofSpan span ++ glyphs rest := by
  rcases span with ⟨_ | style, text⟩
  · exact glyphs_text h rest
  · have htext : '\x1b' ∉ text.toList := h
    have hreset : ∀ c ∈ ['0'], isParameter c = true := List.all_eq_true.1 rfl
    change glyphs (selectGraphic style.parameters ++ text.toList ++ selectGraphic ['0'] ++ rest) = _
    rw [List.append_assoc, List.append_assoc, glyphs_selectGraphic (isParameter_of_style style),
      glyphs_text htext, glyphs_selectGraphic hreset]
    simp [ofSpan, Span.plain]

/-- A terminal reads a report span by span. -/
theorem glyphs_spans {spans : List Span} (h : ∀ span ∈ spans, '\x1b' ∉ span.plain) :
    glyphs (spans.flatMap Span.coloured) = spans.flatMap ofSpan := by
  induction spans with
  | nil => simp [glyphs]
  | cons span spans ih =>
      rw [List.flatMap_cons, List.flatMap_cons, glyphs_span (h span (List.mem_cons_self ..)),
        ih fun other hother => h other (List.mem_cons_of_mem _ hother)]

/-- What is shown of spans is their plain text. -/
theorem shown_spans {spans : List Span} (h : ∀ span ∈ spans, '\x1b' ∉ span.plain) :
    shown (spans.flatMap Span.coloured) = spans.flatMap Span.plain := by
  have hspan (span : Span) : (ofSpan span).filterMap Glyph.shown? = span.plain := by
    rcases span with ⟨_ | style, text⟩ <;>
      simp [ofSpan, Glyph.shown?, List.filterMap_cons, List.filterMap_map, Function.comp_def,
        Span.plain]
  rw [shown, glyphs_spans h, List.filterMap_flatMap]
  simp only [hspan]

/-- What is selected in spans are their styles, with a reset behind each of them. -/
theorem selections_spans {spans : List Span} (h : ∀ span ∈ spans, '\x1b' ∉ span.plain) :
    selections (spans.flatMap Span.coloured) =
      (spans.filterMap Span.style).flatMap fun style => [style.parameters, ['0']] := by
  rw [selections, glyphs_spans h, List.filterMap_flatMap]
  induction spans with
  | nil => rfl
  | cons span spans ih =>
      rw [List.flatMap_cons, ih fun other hother => h other (List.mem_cons_of_mem _ hother)]
      rcases span with ⟨_ | style, text⟩ <;>
        simp [ofSpan, Glyph.parameters?, List.filterMap_map, Function.comp_def]

end Terminal

/-! ## Reports -/

namespace Diagnostic

open Terminal

/-- Whether the coloured report is the plain one with styles and resets added. -/
structure AddsSelections (diagnostic : Diagnostic) : Prop where
  shown_eq : shown diagnostic.coloured.toList = diagnostic.plain.toList
  plain : '\x1b' ∉ diagnostic.plain.toList
  /-- A style comes first, and each one is reset before the next one and at the end. -/
  alternate : ∃ styles : List (List Char), styles ≠ [] ∧
    (∀ style ∈ styles, isReset style = false) ∧
      selections diagnostic.coloured.toList = styles.flatMap fun style => [style, ['0']]

theorem escape_not_mem_digits (n : Nat) : '\x1b' ∉ Nat.toDigits 10 n := by
  intro h
  have hdigit := Nat.isDigit_of_mem_toDigits (by decide) (by decide) h
  exact absurd hdigit (by decide +kernel)

/-- A place is told in words and numerals. -/
theorem escape_not_mem_locationText (location : Location) :
    '\x1b' ∉ (locationText location).toList := by
  have hinstruction := escape_not_mem_digits location.instruction
  have hline := escape_not_mem_digits location.line.toNat
  rw [locationText]
  split
  · simp [hinstruction]
  · simp [hinstruction, hline]

theorem escape_not_mem_name (severity : Severity) : '\x1b' ∉ severity.name.toList := by
  cases severity <;> decide +kernel

/-- What stands below the head has no escape if its text has none. -/
theorem escape_not_mem_detail {style : Style} {mark text : String} (hmark : '\x1b' ∉ mark.toList)
    (htext : '\x1b' ∉ text.toList) : ∀ span ∈ detail style mark text, '\x1b' ∉ span.plain := by
  simp [detail, raw, styled, Span.plain, hmark, htext]

/-- Whether nothing that a diagnostic says holds an escape. -/
structure WithoutEscape (diagnostic : Diagnostic) : Prop where
  code : ∀ code ∈ diagnostic.code, '\x1b' ∉ code.toList
  message : '\x1b' ∉ diagnostic.message.toList
  notes : ∀ note ∈ diagnostic.notes, '\x1b' ∉ note.toList
  suggestion : ∀ suggestion ∈ diagnostic.suggestion, '\x1b' ∉ suggestion.toList

variable {diagnostic : Diagnostic}

/-- The head holds no escape if the code holds none. -/
theorem WithoutEscape.head (h : diagnostic.WithoutEscape) :
    '\x1b' ∉ diagnostic.head.toList := by
  have hname := escape_not_mem_name diagnostic.severity
  have hcode := h.code
  rw [Diagnostic.head]
  split
  · rename_i code heq
    simp [hname, hcode code heq]
  · exact hname

/-- The spans of a report hold no escape if what the diagnostic says holds none. -/
theorem WithoutEscape.spans (h : diagnostic.WithoutEscape) :
    ∀ span ∈ diagnostic.spans, '\x1b' ∉ span.plain := by
  have hdetails {α : Type} {xs : List α} {style : Style} {mark : String} {text : α → String}
      (hmark : '\x1b' ∉ mark.toList) (htext : ∀ x ∈ xs, '\x1b' ∉ (text x).toList) :
      ∀ span ∈ xs.flatMap (fun x => detail style mark (text x)), '\x1b' ∉ span.plain := by
    intro span hspan
    rcases List.mem_flatMap.1 hspan with ⟨x, hx, hspan⟩
    exact escape_not_mem_detail hmark (htext x hx) span hspan
  have harrow : '\x1b' ∉ "-->".toList := by decide +kernel
  have hbar : '\x1b' ∉ "=".toList := by decide +kernel
  have hhead := h.head
  have hmessage := h.message
  have hcode := h.code
  have hnotes := h.notes
  have hsuggestion := h.suggestion
  intro span hspan
  simp only [Diagnostic.spans, List.mem_append] at hspan
  -- The head with the message, the place, the notes, the suggestion, and where to read more.
  rcases hspan with (((hspan | hspan) | hspan) | hspan) | hspan
  · revert span
    simp [raw, styled, Span.plain, hhead, hmessage]
  · exact hdetails harrow (fun location _ => escape_not_mem_locationText location) span hspan
  · refine hdetails hbar (fun note hnote => ?_) span hspan
    have := hnotes note hnote
    simp [this]
  · refine hdetails hbar (fun suggestion hmem => ?_) span hspan
    have := hsuggestion suggestion (Option.mem_toList.1 hmem)
    simp [this]
  · refine hdetails hbar (fun code hmem => ?_) span hspan
    have := hcode code (Option.mem_toList.1 hmem)
    simp [this]

/-- If no text of a diagnostic holds an escape, its coloured report is its plain one with sequences
added: what is left without them is the plain report, which holds no escape, and they are styles,
each of them followed by a reset. -/
theorem coloured_adds_selections (h : diagnostic.WithoutEscape) : diagnostic.AddsSelections := by
  have hspans := h.spans
  refine ⟨?_, ?_, (diagnostic.spans.filterMap Span.style).map Style.parameters, ?_, ?_, ?_⟩
  · rw [coloured, plain, String.toList_ofList, String.toList_ofList, shown_spans hspans]
  · rw [plain, String.toList_ofList]
    intro hmem
    rcases List.mem_flatMap.1 hmem with ⟨span, hspan, hescape⟩
    exact hspans span hspan hescape
  · -- The head is styled in every report.
    exact List.cons_ne_nil _ _
  · intro parameters hmem
    rcases List.mem_map.1 hmem with ⟨style, -, rfl⟩
    exact isReset_of_style style
  · rw [coloured, String.toList_ofList, selections_spans hspans, List.flatMap_map]

def bracketed : Diagnostic where
  message := "[31m0;1m"
  code := some "[0m"
  location := some ⟨4, 12⟩
  notes := ["", "m"]
  suggestion := some "1"

theorem coloured_adds_selections_bracketed :
    bracketed.WithoutEscape ∧ bracketed.AddsSelections ∧
      selections bracketed.coloured.toList = [['1', ';', '3', '1'], ['0'], ['1'], ['0'],
        ['3', '6'], ['0'], ['2'], ['0'], ['2'], ['0'], ['2'], ['0'], ['2'], ['0']] := by
  have h : bracketed.WithoutEscape := by
    constructor <;> decide +kernel
  refine ⟨h, coloured_adds_selections h, ?_⟩
  rw [coloured, String.toList_ofList, selections_spans h.spans]
  rfl

def forged : Diagnostic where
  message := ""
  code := some "\x1b[0m"

/-- The code of a diagnostic is written into its report, so it matters as well. -/
theorem forged_code_shows : ¬ ∀ diagnostic : Diagnostic,
    '\x1b' ∉ diagnostic.message.toList → (∀ note ∈ diagnostic.notes, '\x1b' ∉ note.toList) →
      (∀ suggestion ∈ diagnostic.suggestion, '\x1b' ∉ suggestion.toList) →
      diagnostic.AddsSelections := by
  intro h
  have hforged := h forged (by decide +kernel) (by decide +kernel) (by decide +kernel)
  exact hforged.plain (by decide +kernel)

end Diagnostic
end CellMachine
