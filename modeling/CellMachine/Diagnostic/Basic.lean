import CellMachine.Fault
import CellMachine.Text.Json

/-!
# Diagnostics — what a user is told

A diagnostic has a severity, a message, and possibly a stable code, a place in the program, notes
and a suggestion.  Every fault is one, with the notes and suggestions that belong to it.
-/

namespace CellMachine

inductive Severity
  | error
  | warning
  deriving DecidableEq, Repr

def Severity.name : Severity → String
  | error => "error"
  | warning => "warning"

/-- A place in a program; the source line is zero when it is unknown. -/
structure Location where
  instruction : Nat
  line : UInt32
  deriving DecidableEq, Repr

structure Diagnostic where
  severity : Severity := .error
  message : String
  code : Option String := none
  location : Option Location := none
  notes : List String := []
  suggestion : Option String := none
  deriving DecidableEq, Repr

namespace Diagnostic

/-! ## Faults -/

def loadNotes : LoadFault → List String
  | .badMagic _ => ["the file was not produced by a compatible compiler"]
  | .unknownOpcode _ _ | .unknownOperandKind _ _ =>
      ["the program may have been compiled for a different VM version"]
  | _ => []

def ofLoadFault (fault : LoadFault) : Diagnostic where
  message := fault.message
  code := some fault.code
  notes := loadNotes fault

def notesOf : Fault → List String
  | .stackOverflow => ["the program may recurse without bound"]
  | _ => []

def suggestionOf : Fault → Option String
  | .unknownLibraryFunction _ suggestion =>
      suggestion.map fun name => "did you mean '" ++ name ++ "'?"
  | .keyNotFound _ => some "run with --lenient-keys to read missing keys as nil"
  | _ => none

def ofFault (fault : Fault) : Diagnostic where
  message := fault.message
  code := some fault.code
  notes := notesOf fault
  suggestion := suggestionOf fault

def ofTrap (trap : Trap) : Diagnostic :=
  { ofFault trap.fault with location := some ⟨trap.pc, trap.line⟩ }

/-! ## JSON -/

def field {α : Type} (name : String) (x : Option α) (json : α → Json) : List (String × Json) :=
  (x.map fun x => (name, json x)).toList

/-- The source line of a diagnostic, if it is known. -/
def line? (diagnostic : Diagnostic) : Option UInt32 :=
  diagnostic.location.bind fun location =>
    if location.line = 0 then none else some location.line

/-- The JSON value of a diagnostic; its fields are sorted by name. -/
def toJson (diagnostic : Diagnostic) : Json :=
  .object (field "code" diagnostic.code .string ++
    field "instruction" diagnostic.location (fun location => .ofNat location.instruction) ++
    field "line" diagnostic.line? (fun line => .ofNat line.toNat) ++
    [("message", .string diagnostic.message),
      ("notes", .array (diagnostic.notes.map .string)),
      ("severity", .string diagnostic.severity.name)] ++
    field "suggestion" diagnostic.suggestion .string)

end Diagnostic
end CellMachine
