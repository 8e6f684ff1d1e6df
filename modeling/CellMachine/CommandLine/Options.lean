import CellMachine.Machine.Basic

/-!
# Options — reading the command line

Arguments are read from left to right.  The first one that is wrong, or that asks for help or for
the version, decides.  An option is used at most once; its value stands behind an equals sign or is
the next argument, which must not look like an option.  Behind a double dash nothing is an option.
-/

namespace CellMachine

structure Options where
  program : Option String := none
  json : Bool := false
  dump : Bool := false
  stackSize : Option Nat := none
  lenientKeys : Bool := false
  trace : Bool := false
  explain : Option String := none
  deriving DecidableEq, Repr

inductive Command
  | help
  | version
  | explain (code : String)
  | run (program : String) (options : Options)
  deriving DecidableEq, Repr

inductive UsageFault
  | unknownArgument (argument : String)
  | repeatedOption (name : String)
  | unexpectedValue (name value : String)
  | missingValue (name : String)
  | invalidValue (name value : String)
  | missingProgram
  deriving DecidableEq, Repr

def UsageFault.message : UsageFault → String
  | unknownArgument argument => "unexpected argument '" ++ argument ++ "'"
  | repeatedOption name => "option '" ++ name ++ "' cannot be used more than once"
  | unexpectedValue name value => "unexpected value '" ++ value ++ "' for '" ++ name ++ "'"
  | missingValue name => "a value is required for '" ++ name ++ "'"
  | invalidValue name value => "invalid value '" ++ value ++ "' for '" ++ name ++ "'"
  | missingProgram => "a program file is required"

namespace Options

/-! ## Single options -/

inductive Switch
  | json
  | dump
  | lenientKeys
  | trace
  deriving DecidableEq, Repr

inductive Setting
  | stackSize
  | explain
  deriving DecidableEq, Repr

inductive LongOption
  | help
  | version
  | switch (switch : Switch)
  | setting (setting : Setting)
  deriving DecidableEq, Repr

def longOption? : String → Option LongOption
  | "--help" => some .help
  | "--version" => some .version
  | "--json" => some (.switch .json)
  | "--dump" => some (.switch .dump)
  | "--lenient-keys" => some (.switch .lenientKeys)
  | "--trace" => some (.switch .trace)
  | "--stack-size" => some (.setting .stackSize)
  | "--explain" => some (.setting .explain)
  | _ => none

def turnOn (options : Options) (name : String) : Switch → Except UsageFault Options
  | .json => if options.json then repeated else .ok { options with json := true }
  | .dump => if options.dump then repeated else .ok { options with dump := true }
  | .lenientKeys =>
      if options.lenientKeys then repeated else .ok { options with lenientKeys := true }
  | .trace => if options.trace then repeated else .ok { options with trace := true }
where
  /-- The switch is on already. -/
  repeated : Except UsageFault Options := .error (.repeatedOption name)

/-- The machine word written by decimal digits after an optional plus sign. -/
def word? (s : String) : Option Nat :=
  let body := match s.toList with
    | '+' :: body => body
    | body => body
  if body ≠ [] ∧ body.all Char.isDigit ∧ Number.ofDigits body ≤ Number.maxWord then
    some (Number.ofDigits body)
  else none

def assign (options : Options) (name value : String) : Setting → Except UsageFault Options
  | .stackSize =>
      match options.stackSize, word? value with
      | some _, _ => .error (.repeatedOption name)
      | none, none => .error (.invalidValue name value)
      | none, some size => .ok { options with stackSize := some size }
  | .explain =>
      match options.explain with
      | some _ => .error (.repeatedOption name)
      | none => .ok { options with explain := some value }

/-- Takes an argument that is no option: the program file, which is not empty. -/
def takeProgram (options : Options) (argument : String) : Except UsageFault Options :=
  match options.program with
  | some _ => .error (.unknownArgument argument)
  | none =>
      if argument = "" then .error (.invalidValue "program" argument)
      else .ok { options with program := some argument }

/-! ## Arguments -/

inductive Shape
  | endOfOptions
  | long (name : String) (value : Option String)
  | short (letter : Char)
  | plain
  deriving DecidableEq, Repr

/-- The shape of an argument.  A single dash is no option. -/
def shape (argument : String) : Shape :=
  match argument.toList with
  | ['-', '-'] => .endOfOptions
  | '-' :: '-' :: cs =>
      let name := String.ofList ('-' :: '-' :: cs.takeWhile (· ≠ '='))
      match cs.dropWhile (· ≠ '=') with
      | [] => .long name none
      | _ :: value => .long name (some (String.ofList value))
  | '-' :: letter :: _ => .short letter
  | _ => .plain

/-- What a list of arguments comes to: a request that is answered at once, or options. -/
inductive Reading
  | help
  | version
  | options (options : Options)
  deriving DecidableEq, Repr

def read (options : Options) : List String → Except UsageFault Reading
  | [] => .ok (.options options)
  | argument :: rest =>
      match shape argument with
      | .endOfOptions => .options <$> rest.foldlM takeProgram options
      | .plain => do (← options.takeProgram argument).read rest
      | .short 'h' => .ok .help
      | .short 'V' => .ok .version
      | .short _ => .error (.unknownArgument argument)
      | .long name value =>
          match longOption? name, value with
          | none, _ => .error (.unknownArgument argument)
          | some .help, none => .ok .help
          | some .version, none => .ok .version
          | some (.switch switch), none => do (← options.turnOn name switch).read rest
          | some (.setting setting), some value => do
              (← options.assign name value setting).read rest
          | some (.setting setting), none =>
              match rest with
              | [] => .error (.missingValue name)
              | value :: rest =>
                  if shape value = .plain then do
                    (← options.assign name value setting).read rest
                  else .error (.missingValue name)
          | some _, some value => .error (.unexpectedValue name value)

end Options

/-! ## Commands -/

/-- What a list of arguments asks for.  An explanation is given in place of a run. -/
def Command.ofArguments (arguments : List String) : Except UsageFault Command := do
  match ← Options.read {} arguments with
  | .help => return .help
  | .version => return .version
  | .options options =>
      match options.explain, options.program with
      | some code, _ => return .explain code
      | none, some program => return .run program options
      | none, none => throw .missingProgram

end CellMachine
