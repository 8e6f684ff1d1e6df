import CellMachine.Instruction
import CellMachine.Text.Quoted

/-!
# Events — what a machine reports besides its output

Loading and running a program report events.  Each event has a level; a log keeps the events that
are at least as severe as its threshold.  The text of an event is its level, its message and its
fields.
-/

namespace CellMachine

/-- How severe an event is; `trace` is the least severe level. -/
inductive Level
  | warn
  | debug
  | trace
  deriving DecidableEq, Repr

namespace Level

def name : Level → String
  | warn => "WARN"
  | debug => "DEBUG"
  | trace => "TRACE"

/-- The place of a level, starting with the most severe one. -/
def rank : Level → Nat
  | warn => 0
  | debug => 1
  | trace => 2

end Level

inductive Event
  | undefinedAssigned
  | outsideFunction (libraryFunction : String)
  | trailingData (offset : Nat)
  | loaded (strings numbers userFunctions libraryFunctions instructions globals : Nat)
  | finished
  | callsUser (address actuals : Nat)
  | callsLibrary (name : String) (actuals : Nat)
  | executes (pc : Nat) (op : Opcode) (top frame : Nat)
  | enters (name : String) (frame : Nat)
  deriving DecidableEq, Repr

namespace Event

def level : Event → Level
  | undefinedAssigned | outsideFunction _ | trailingData _ => .warn
  | loaded .. | finished | callsUser .. | callsLibrary .. => .debug
  | executes .. | enters .. => .trace

def field (name value : String) : String :=
  " " ++ name ++ "=" ++ value

def message : Event → String
  | undefinedAssigned => "assigning from undefined content"
  | outsideFunction name => "'" ++ name ++ "' called outside a function"
  | trailingData offset =>
      "ignoring trailing data after global count" ++ field "offset" (toString offset)
  | loaded strings numbers userFunctions libraryFunctions instructions globals =>
      "program loaded" ++ field "strings" (toString strings) ++
        field "numbers" (toString numbers) ++ field "user_funcs" (toString userFunctions) ++
        field "lib_funcs" (toString libraryFunctions) ++
        field "instructions" (toString instructions) ++ field "globals" (toString globals)
  | finished => "execution finished"
  | callsUser address actuals =>
      "call user function" ++ field "address" (toString address) ++
        field "actuals" (toString actuals)
  | callsLibrary name actuals =>
      "call library function" ++ field "name" (Quoted.quote name) ++
        field "actuals" (toString actuals)
  | executes pc op top frame =>
      "execute" ++ field "pc" (toString pc) ++ field "op" op.name ++
        field "top" (toString top) ++ field "fp" (toString frame)
  | enters name frame => "enter function" ++ field "name" name ++ field "fp" (toString frame)

def text (event : Event) : String :=
  event.level.name ++ " " ++ event.message

end Event

/-- The events so far that reach a threshold, the latest first. -/
structure Log where
  threshold : Level := .warn
  latest : List Event := []
  deriving DecidableEq, Repr

namespace Log

/-- Keeps an event if it is severe enough. -/
def add (log : Log) (event : Event) : Log :=
  if event.level.rank ≤ log.threshold.rank then { log with latest := event :: log.latest } else log

def addAll (log : Log) (events : List Event) : Log :=
  events.foldl add log

def events (log : Log) : List Event :=
  log.latest.reverse

end Log
end CellMachine
