import CellMachine.CommandLine.Options
import CellMachine.Diagnostic.Explanation
import CellMachine.Diagnostic.Report
import CellMachine.Machine.Step
import CellMachine.Program.Listing
import CellMachine.Program.Reader

/-!
# Sessions — a command from its arguments to its outcome

A command comes to an outcome: what is written to the two output streams, and an exit code.  All
commands but one have their outcome at once.  To run a program is a session, a machine with a state,
which lasts as long as the machine runs; whoever drives the session advances it and asks for its
outcome.
-/

namespace CellMachine

/-- How a command ends. -/
structure Outcome where
  exitCode : UInt32
  output : String := ""
  errors : String := ""
  deriving DecidableEq, Inhabited, Repr

/-! ## Outcomes -/

namespace Outcome

def versionText : String := "avm 0.1.0\n"

def usage : String :=
  "Usage: avm [OPTIONS] <PROGRAM>\n"

def helpText : String :=
  String.join
    ["Run a compiled AVM program\n\n",
      usage,
      "\nArguments:\n",
      "  <PROGRAM>            Program file produced by the compiler\n",
      "\nOptions:\n",
      "      --json           Print fatal diagnostics as one-line JSON\n",
      "      --dump           Print the loaded program before running\n",
      "      --stack-size <N> Number of cells in the execution stack [default: ",
      toString Machine.defaultStackSize,
      "]\n",
      "      --lenient-keys   Read missing table keys as nil instead of aborting\n",
      "      --trace          Log every executed instruction\n",
      "      --explain <CODE> Explain an error code, e.g. AVM-R003\n",
      "  -h, --help           Print help\n",
      "  -V, --version        Print version\n"]

def ofUsageFault (fault : UsageFault) : Outcome where
  exitCode := 1
  errors := "error: " ++ fault.message ++ "\n\n" ++ usage

def codeLine (explanation : Explanation) : String :=
  "  " ++ Program.padded 10 explanation.code ++ explanation.title ++ "\n"

def explain (code : String) : Outcome :=
  match Explanation.find? code with
  | some explanation => { exitCode := 0, output := explanation.text }
  | none =>
      { exitCode := 1
        errors := "unknown error code '" ++ code ++ "'; known codes:\n" ++
          String.join (Explanation.all.map codeLine) }

def failure (options : Options) (diagnostic : Diagnostic) (output : String) : Outcome where
  exitCode := 1
  output := output
  errors := if options.json then diagnostic.toJson.compact ++ "\n" else diagnostic.plain

end Outcome

/-! ## Sessions -/

/-- A program that is being run. -/
structure Session where
  options : Options
  machine : Machine
  run : Machine.Run

namespace Session

def preamble (options : Options) (program : Program) : String :=
  if !options.dump then ""
  else if options.json then program.toJson.pretty ++ "\n"
  else program.listing ++ "\n"

def machineOf (options : Options) (program : Program) : Machine where
  program := program
  missingKey := if options.lenientKeys then .nil else .fault

def logOf (options : Options) : Log where
  threshold := if options.trace then .trace else .warn

/-- Opens a session for a program file, whose content may be missing for a cause. -/
def start (options : Options) (path : String) (content : Except String Bytes) (input : Bytes) :
    Except Outcome Session := do
  let failed (fault : LoadFault) : Outcome :=
    .failure options (.ofLoadFault fault) ""
  let bytes ← content.mapError fun cause => failed (.unreadable path cause)
  let loaded ← (Program.load bytes).mapError failed
  let machine := machineOf options loaded.program
  let output := preamble options loaded.program
  let console : Console := { input := input, output := output }
  let log := (logOf options).addAll loaded.events
  match machine.start (options.stackSize.getD Machine.defaultStackSize) console log with
  | .ok state => return ⟨options, machine, ⟨0, .running, state⟩⟩
  | .error fault => throw (.failure options (.ofFault fault) output)

def advance (limit : Nat) (session : Session) : Session :=
  { session with run := Machine.Run.advance session.machine limit session.run }

/-! ### Streams

The driver of a session may hand over the output as it gathers, and may give the input line by
line. -/

def withState (session : Session) (state : State) : Session :=
  { session with run := { session.run with state := state } }

def takeOutput (session : Session) : String × Session :=
  let state := session.run.state
  (state.console.output,
    session.withState { state with console := { state.console with output := "" } })

def takeEvents (session : Session) : List String × Session :=
  let state := session.run.state
  (state.log.events.map Event.text,
    session.withState { state with log := { state.log with latest := [] } })

/-- Whether the next instruction reads a line while no input is left. -/
def wantsLine (session : Session) : Bool :=
  let state := session.run.state
  match session.run.progress, session.machine.program.code[state.pc]? with
  | .running, some instruction =>
      match session.machine.decode state instruction with
      | .ok (.callLibrary "input" _) => state.console.input = []
      | _ => false
  | _, _ => false

def feed (session : Session) (line : Bytes) : Session :=
  let state := session.run.state
  session.withState
    { state with console := { state.console with input := state.console.input ++ line } }

/-! ### Ending -/

/-- The outcome of a session, once its machine has stopped. -/
def outcome? (session : Session) : Option Outcome :=
  let state := session.run.state
  let output := state.console.output
  let failed (trap : Trap) : Outcome := .failure session.options (.ofTrap trap) output
  match session.run.progress with
  | .running => none
  | .trapped trap => some (failed trap)
  | .finished =>
      match Machine.close state with
      | .trapped trap => some (failed trap)
      | _ => some { exitCode := 0, output := output }

end Session
end CellMachine
