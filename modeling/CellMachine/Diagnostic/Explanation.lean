/-!
# Explanations — what each code means

Every stable code has an explanation: a short title, and a text that says when the fault is raised
and what to do about it.
-/

namespace CellMachine

structure Explanation where
  code : String
  title : String
  body : List String
  deriving DecidableEq, Repr

namespace Explanation

/-- The full text: a heading, an empty line, and the body. -/
def text (explanation : Explanation) : String :=
  String.join
    ((("## " ++ explanation.code ++ ": " ++ explanation.title) :: "" :: explanation.body).map
      fun line => line ++ "\n")

/-! ## Program files -/

def ofLoading : List Explanation := [
  ⟨"AVM-L001", "cannot read program file",
    ["The program file given on the command line could not be opened or read.",
      "Check that the path exists and is readable."]⟩,
  ⟨"AVM-L002", "bad magic number",
    ["Every program file starts with the number 340200501. Any other first",
      "token means the file is not an AVM program, or was produced by an",
      "incompatible compiler."]⟩,
  ⟨"AVM-L003", "truncated program file",
    ["The file ended before a section was complete. Sections are read in this",
      "order: strings, numbers, user functions, library functions, instructions,",
      "and finally the global count. A string whose declared length runs past",
      "the end of the file is also truncated."]⟩,
  ⟨"AVM-L004", "malformed token",
    ["A count, length or number could not be parsed. Counts, lengths, opcodes",
      "and operand values are non-negative integers; number constants are",
      "decimal floats.",
      "",
      "**Example:**",
      "",
      "    340200501",
      "    0",
      "    two",
      "",
      "`two` is not a valid number count."]⟩,
  ⟨"AVM-L005", "unknown opcode",
    ["An instruction uses an opcode outside 0..=24. Valid opcodes are assign,",
      "add, sub, mul, div, mod, uminus, and, or, not, jump, jeq, jne, jle, jge,",
      "jlt, jgt, call, pusharg, funcenter, funcexit, newtable, tablegetelem,",
      "tablesetelem and nop, numbered in that order."]⟩,
  ⟨"AVM-L006", "unknown operand kind",
    ["An operand uses a kind outside 0..=11. Valid kinds are label, global,",
      "formal, local, number, string, bool, nil, userfunc, libfunc, retval and",
      "absent, numbered in that order."]⟩]

/-! ## Running programs -/

def ofRunning : List Explanation := [
  ⟨"AVM-R001", "operand is not a number",
    ["Arithmetic (add, sub, mul, div, mod, uminus) and ordering jumps (jle,",
      "jge, jlt, jgt) only accept numbers. There is no implicit conversion;",
      "use `strtonum` to turn a string into a number."]⟩,
  ⟨"AVM-R002", "value is not a table",
    ["`tablegetelem` and `tablesetelem` were applied to something other than a",
      "table. Create tables with `newtable` before indexing them."]⟩,
  ⟨"AVM-R003", "type mismatch in equality",
    ["`jeq` and `jne` compare values of the same type. A boolean on either side",
      "compares truthiness and nil on either side is only equal to nil; any",
      "other mix of types, such as a string against a number, is an error.",
      "",
      "**Example:**",
      "",
      "    \"x\" == 0"]⟩,
  ⟨"AVM-R004", "undefined value in equality",
    ["One side of `jeq` or `jne` was never assigned. Assign every variable",
      "before comparing it."]⟩,
  ⟨"AVM-R005", "unsupported table key",
    ["Tables are keyed by strings and numbers only. Booleans, nil, tables,",
      "functions, undefined values and NaN cannot be used as keys."]⟩,
  ⟨"AVM-R006", "stack overflow",
    ["The execution stack is full. This usually means unbounded recursion.",
      "The stack size can be raised with `--stack-size`."]⟩,
  ⟨"AVM-R007", "stack address out of bounds",
    ["A global, local or formal operand resolved to a stack cell outside the",
      "allocated region. The program file does not match the frame layout the",
      "VM expects, which points to a compiler bug."]⟩,
  ⟨"AVM-R008", "table key not found",
    ["`tablegetelem` read a key the table does not contain. Run with",
      "`--lenient-keys` to read missing keys as nil instead."]⟩,
  ⟨"AVM-R009", "unknown library function",
    ["A call named a library function that is not registered. The standard",
      "library provides print, input, typeof, totalarguments, argument,",
      "strtonum, sqrt, cos, sin, objecttotalmembers, objectmemberkeys and",
      "objectcopy."]⟩,
  ⟨"AVM-R010", "value is not callable",
    ["`call` was given a value that is neither a user function, a library",
      "function nor a string naming a library function."]⟩,
  ⟨"AVM-R011", "invalid operand",
    ["An operand kind was used where it makes no sense, for example a constant",
      "as the destination of an assignment or a non-label as a jump target.",
      "This indicates a compiler bug."]⟩,
  ⟨"AVM-R012", "constant index out of range",
    ["An operand referenced a string, number, user function or library",
      "function constant that the program file does not define."]⟩,
  ⟨"AVM-R013", "no function at address",
    ["A call jumped to an instruction that is not a `funcenter`, or a",
      "`funcenter` was reached that no user function descriptor points at."]⟩,
  ⟨"AVM-R014", "corrupt call environment",
    ["`funcexit` found something other than a saved frame in the environment",
      "words. This happens when a function returns without having been called,",
      "or when a program overwrites its own frame."]⟩,
  ⟨"AVM-R015", "program counter out of range",
    ["A jump or return targeted an instruction past the end of the code."]⟩,
  ⟨"AVM-R016", "bad library function argument",
    ["A library function was called with too few arguments or with an argument",
      "of the wrong type, such as `sqrt(\"x\")`."]⟩,
  ⟨"AVM-R017", "I/O error",
    ["Reading standard input or writing standard output failed."]⟩]

/-! ## Lookup -/

def all : List Explanation :=
  ofLoading ++ ofRunning

/-- A code without regard to the case of ASCII letters. -/
def folded (code : String) : List Char :=
  code.toList.map Char.toLower

def find? (code : String) : Option Explanation :=
  all.find? fun explanation => folded explanation.code = folded code

end Explanation
end CellMachine
