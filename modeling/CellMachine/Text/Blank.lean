/-!
# Blank — white space

Two sets of white space occur.  A program file separates its tokens by the five blank characters
that are single bytes; a line of input and a text to be read as a number are trimmed of all
characters that Unicode counts as white space.
-/

namespace CellMachine
namespace Blank

/-! ## Single bytes -/

/-- The bytes that separate tokens: space, tab, line feed, form feed and carriage return. -/
def isByte (b : UInt8) : Bool :=
  b = 0x20 ∨ b = 0x09 ∨ b = 0x0a ∨ b = 0x0c ∨ b = 0x0d

/-! ## Characters -/

/-- The code points with the Unicode property of white space, as closed ranges. -/
def ranges : List (Nat × Nat) :=
  [(0x09, 0x0d), (0x20, 0x20), (0x85, 0x85), (0xa0, 0xa0), (0x1680, 0x1680), (0x2000, 0x200a),
    (0x2028, 0x2029), (0x202f, 0x202f), (0x205f, 0x205f), (0x3000, 0x3000)]

def isChar (c : Char) : Bool :=
  ranges.any fun (low, high) => low ≤ c.toNat ∧ c.toNat ≤ high

def dropEnd (p : Char → Bool) (cs : List Char) : List Char :=
  (cs.reverse.dropWhile p).reverse

def trim (cs : List Char) : List Char :=
  dropEnd isChar (cs.dropWhile isChar)

end Blank
end CellMachine
