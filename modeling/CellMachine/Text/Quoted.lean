import CellMachine.Text.Unprintable

/-!
# Quoted — texts in double quotes

Listings and log fields show a text in double quotes.  Quotes, backslashes and five common controls
are escaped by a letter, every other unprintable character by its code point in braces; all else
stands for itself.
-/

namespace CellMachine
namespace Quoted

/-- The escape of a character inside quotes. -/
def escape (c : Char) : List Char :=
  match c with
  | '"' => ['\\', '"']
  | '\\' => ['\\', '\\']
  | '\n' => ['\\', 'n']
  | '\r' => ['\\', 'r']
  | '\t' => ['\\', 't']
  | '\x00' => ['\\', '0']
  | c =>
      if Unprintable.isChar c then
        '\\' :: 'u' :: '\x7b' :: Nat.toDigits 16 c.toNat ++ ['\x7d']
      else [c]

def quote (s : String) : String :=
  String.ofList ('"' :: s.toList.flatMap escape ++ ['"'])

end Quoted
end CellMachine
