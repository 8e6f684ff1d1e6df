import CellMachine.Diagnostic.Basic

/-!
# Reports — diagnostics as text

A report is a list of spans, some of which have a style.  Plain text ignores the styles; coloured
text puts a terminal sequence in front of each styled span and a reset behind it.  So the two texts
differ in these sequences only.
-/

namespace CellMachine

/-! ## Styles -/

inductive Style
  | bold
  | boldRed
  | boldYellow
  | cyan
  | dim
  deriving DecidableEq, Repr

def Style.parameters : Style → List Char
  | bold => ['1']
  | boldRed => ['1', ';', '3', '1']
  | boldYellow => ['1', ';', '3', '3']
  | cyan => ['3', '6']
  | dim => ['2']

/-- A terminal sequence that selects how text looks. -/
def selectGraphic (parameters : List Char) : List Char :=
  '\x1b' :: '[' :: parameters ++ ['m']

def resetGraphic : List Char :=
  selectGraphic ['0']

structure Span where
  style : Option Style
  text : String
  deriving DecidableEq, Repr

namespace Span

def plain (span : Span) : List Char :=
  span.text.toList

def coloured (span : Span) : List Char :=
  match span.style with
  | some style => selectGraphic style.parameters ++ span.text.toList ++ resetGraphic
  | none => span.text.toList

end Span

/-! ## Reports -/

namespace Diagnostic

def raw (s : String) : Span := ⟨none, s⟩

def styled (style : Style) (s : String) : Span := ⟨some style, s⟩

def headStyle : Severity → Style
  | .error => .boldRed
  | .warning => .boldYellow

def head (diagnostic : Diagnostic) : String :=
  match diagnostic.code with
  | some code => diagnostic.severity.name ++ "[" ++ code ++ "]"
  | none => diagnostic.severity.name

/-- The text of a place; an unknown line is left out. -/
def locationText (location : Location) : String :=
  let instruction := "instruction " ++ toString location.instruction
  if location.line = 0 then instruction
  else instruction ++ ", line " ++ toString location.line.toNat

def detail (style : Style) (mark text : String) : List Span :=
  [raw "  ", styled style mark, raw (" " ++ text ++ "\n")]

/-- The spans of a report: the head with the message, then the place, the notes, the suggestion and
where to read more, each on a line of its own. -/
def spans (diagnostic : Diagnostic) : List Span :=
  [styled (headStyle diagnostic.severity) diagnostic.head, raw ": ",
    styled .bold diagnostic.message, raw "\n"] ++
  diagnostic.location.toList.flatMap
    (fun location => detail .cyan "-->" (locationText location)) ++
  diagnostic.notes.flatMap (fun note => detail .dim "=" ("note: " ++ note)) ++
  diagnostic.suggestion.toList.flatMap
    (fun suggestion => detail .dim "=" ("suggestion: " ++ suggestion)) ++
  diagnostic.code.toList.flatMap
    (fun code => detail .dim "=" ("run `avm --explain " ++ code ++ "` for details"))

def plain (diagnostic : Diagnostic) : String :=
  String.ofList (diagnostic.spans.flatMap Span.plain)

def coloured (diagnostic : Diagnostic) : String :=
  String.ofList (diagnostic.spans.flatMap Span.coloured)

end Diagnostic
end CellMachine
