import CellMachine.Event
import CellMachine.Program.Basic
import CellMachine.Text.Blank

/-!
# Reading program files

A program file is read from its bytes.  A token is a run of bytes that are not blank, after any
blank bytes, and has to be a text; a count is a token of decimal digits with an optional plus sign
that fits into thirty-two bits; a text is a count, one byte that is skipped whatever it is, and that
many bytes, in which broken pieces are replaced.  Every reader takes bytes from the front and hands
on the rest.

What follows the last token is ignored; `Loaded` remembers where it starts, if it is more than
blanks.
-/

namespace CellMachine

/-- A reader takes bytes from the front of the input, or fails. -/
abbrev Reader := StateT Bytes (Except LoadFault)

namespace Reader

/-! ## Tokens -/

def token (part : Section) : Reader (List Char) := fun bytes =>
  let start := bytes.dropWhile Blank.isByte
  let word := start.takeWhile fun b => !Blank.isByte b
  let rest := start.dropWhile fun b => !Blank.isByte b
  if word = [] then .error (.truncated part)
  else
    match Utf8.decode? word with
    | some cs => .ok (cs, rest)
    | none => .error (.malformed part (String.ofList (Utf8.decodeLossy word)))

/-- The count written by a token, if it is one. -/
def count? (cs : List Char) : Option UInt32 :=
  let body := match cs with
    | '+' :: body => body
    | body => body
  if body ≠ [] ∧ body.all Char.isDigit ∧ Number.ofDigits body < UInt32.size then
    some (UInt32.ofNat (Number.ofDigits body))
  else none

def parsed {α : Type} (part : Section) (parse? : List Char → Option α) : Reader α := do
  let cs ← token part
  match parse? cs with
  | some x => pure x
  | none => throw (.malformed part (String.ofList cs))

def count (part : Section) : Reader UInt32 :=
  parsed part count?

def number (part : Section) : Reader Float :=
  parsed part Number.parse?

/-! ## Texts -/

/-- Skips one byte and takes the given count of bytes. -/
def block (part : Section) (length : Nat) : Reader Bytes
  | [] => .error (.truncated part)
  | _ :: bytes =>
      if bytes.length < length then .error (.truncated part)
      else .ok (bytes.take length, bytes.drop length)

/-- Reads a text after its length in bytes. -/
def text (part : Section) : Reader String := do
  let length ← count part
  let bytes ← block part length.toNat
  pure (String.ofList (Utf8.decodeLossy bytes))

/-! ## Instructions -/

/-- Reads a code and looks up what it stands for. -/
def coded {α : Type} (part : Section) (ofCode? : Nat → Option α) (unknown : Nat → LoadFault) :
    Reader α := do
  let code ← count part
  match ofCode? code.toNat with
  | some x => pure x
  | none => throw (unknown code.toNat)

def operand (index : Nat) : Reader Operand := do
  let kind ← coded .operandKind OperandKind.ofCode? fun code => .unknownOperandKind code index
  let value ← count .operandValue
  pure ⟨kind, value⟩

/-- Reads the instruction with the given index.  Its source line is not known. -/
def instruction (index : Nat) : Reader Instruction := do
  let opcode ← coded .opcode Opcode.ofCode? fun code => .unknownOpcode code index
  let result ← operand index
  let first ← operand index
  let second ← operand index
  pure ⟨opcode, result, first, second, 0⟩

/-! ## Sections -/

def items {α : Type} (item : Nat → Reader α) (index : Nat) : Nat → Reader (List α)
  | 0 => pure []
  | n + 1 => do
      let x ← item index
      let xs ← items item (index + 1) n
      pure (x :: xs)

def counted {α : Type} (part : Section) (item : Nat → Reader α) : Reader (Array α) := do
  let n ← count part
  let xs ← items item 0 n.toNat
  pure xs.toArray

def userFunction : Reader UserFunction := do
  let address ← count .functionAddress
  let localSize ← count .functionLocals
  let name ← text .functionName
  pure ⟨address, localSize, name⟩

def magic : Reader Unit := do
  let cs ← token .magic
  if count? cs ≠ some (UInt32.ofNat magicNumber) then throw (.badMagic (String.ofList cs))

/-- Reads a program up to the count of its globals. -/
def program : Reader Program := do
  magic
  let strings ← counted .stringCount fun _ => text .string
  let numbers ← counted .numberCount fun _ => number .number
  let userFunctions ← counted .functionCount fun _ => userFunction
  let libraryFunctions ← counted .libraryCount fun _ => text .libraryName
  let code ← counted .instructionCount instruction
  let globals ← count .globalCount
  pure ⟨strings, numbers, userFunctions, libraryFunctions, code, globals.toNat⟩

end Reader

/-! ## Loading -/

/-- A program as it was loaded, with the offset of trailing data. -/
structure Loaded where
  program : Program
  trailing : Option Nat
  deriving DecidableEq

namespace Loaded

def events (loaded : Loaded) : List Event :=
  let program := loaded.program
  (loaded.trailing.map Event.trailingData).toList ++
    [.loaded program.strings.size program.numbers.size program.userFunctions.size
      program.libraryFunctions.size program.code.size program.globals]

end Loaded

def Program.load (bytes : Bytes) : Except LoadFault Loaded := do
  let (program, rest) ← Reader.program bytes
  let rest := rest.dropWhile Blank.isByte
  pure ⟨program, if rest = [] then none else some (bytes.length - rest.length)⟩

end CellMachine
