/-!
# JSON — values and their two layouts

A small JSON type for what the project writes: diagnostics and programs.  Objects keep their fields
in the order in which they are given.  Numbers are given as texts, because their layout belongs to
the number and not to JSON.

* `Json.compact` writes a value on one line without spaces;
* `Json.pretty` gives every element and field a line of its own, indented by two spaces a level.
-/

namespace CellMachine

inductive Json
  | null
  | number (text : List Char)
  | string (text : String)
  | array (elements : List Json)
  | object (fields : List (String × Json))

namespace Json

def ofNat (n : Nat) : Json :=
  .number (Nat.toDigits 10 n)

/-! ## Strings -/

/-- A character inside a JSON string.  Quotes, backslashes and control characters are escaped, all
else stands for itself. -/
def escape (c : Char) : List Char :=
  match c with
  | '"' => ['\\', '"']
  | '\\' => ['\\', '\\']
  | '\n' => ['\\', 'n']
  | '\r' => ['\\', 'r']
  | '\t' => ['\\', 't']
  | '\x08' => ['\\', 'b']
  | '\x0c' => ['\\', 'f']
  | c =>
      if c.toNat < 0x20 then
        ['\\', 'u', '0', '0', Nat.digitChar (c.toNat / 16), Nat.digitChar (c.toNat % 16)]
      else [c]

def quote (s : String) : List Char :=
  '"' :: s.toList.flatMap escape ++ ['"']

/-! ## Compact layout -/

mutual

def compactChars : Json → List Char
  | .null => ['n', 'u', 'l', 'l']
  | .number text => text
  | .string text => quote text
  | .array elements => '[' :: compactElements elements ++ [']']
  | .object fields => '\x7b' :: compactFields fields ++ ['\x7d']

def compactElements : List Json → List Char
  | [] => []
  | [element] => compactChars element
  | element :: elements => compactChars element ++ ',' :: compactElements elements

def compactFields : List (String × Json) → List Char
  | [] => []
  | [(name, field)] => quote name ++ ':' :: compactChars field
  | (name, field) :: fields =>
      quote name ++ ':' :: (compactChars field ++ ',' :: compactFields fields)

end

def compact (value : Json) : String :=
  String.ofList value.compactChars

/-! ## Pretty layout -/

/-- A line break and the indentation of a level. -/
def newline (level : Nat) : List Char :=
  '\n' :: List.replicate (2 * level) ' '

mutual

/-- The characters of a value at a level of indentation; empty arrays and objects stay closed. -/
def prettyChars (level : Nat) : Json → List Char
  | .null => ['n', 'u', 'l', 'l']
  | .number text => text
  | .string text => quote text
  | .array [] => ['[', ']']
  | .array (element :: elements) =>
      '[' :: newline (level + 1) ++ prettyElements (level + 1) (element :: elements) ++
        newline level ++ [']']
  | .object [] => ['\x7b', '\x7d']
  | .object (field :: fields) =>
      '\x7b' :: newline (level + 1) ++ prettyFields (level + 1) (field :: fields) ++
        newline level ++ ['\x7d']

def prettyElements (level : Nat) : List Json → List Char
  | [] => []
  | [element] => prettyChars level element
  | element :: elements =>
      prettyChars level element ++ ',' :: newline level ++ prettyElements level elements

def prettyFields (level : Nat) : List (String × Json) → List Char
  | [] => []
  | [(name, field)] => quote name ++ ':' :: ' ' :: prettyChars level field
  | (name, field) :: fields =>
      quote name ++ ':' :: ' ' :: prettyChars level field ++ ',' :: newline level ++
        prettyFields level fields

end

def pretty (value : Json) : String :=
  String.ofList (value.prettyChars 0)

end Json
end CellMachine
