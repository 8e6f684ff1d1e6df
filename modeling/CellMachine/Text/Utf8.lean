/-!
# UTF-8 — bytes and texts

Texts travel as bytes.  `Utf8.encode` writes them; `Utf8.pieces` takes any bytes apart into
characters and broken pieces, and the two readers differ only in what they make of a broken piece:

* `Utf8.decode?` refuses it;
* `Utf8.decodeLossy` puts one replacement character in its place.

A broken piece is as long as a prefix of some character can be: it ends before the first byte that
cannot continue it.
-/

namespace CellMachine

abbrev Bytes := List UInt8

namespace Utf8

/-! ## Writing -/

def encode (s : String) : Bytes :=
  s.toUTF8.toList

/-! ## Reading one piece -/

/-- The ranges in which the bytes after the first one of a character have to lie, and the bits that
the first byte contributes; nothing if no character starts with that byte. -/
def lead? (b : UInt8) : Option (Nat × List (UInt8 × UInt8)) :=
  let n := b.toNat
  -- The narrower ranges shut out overlong forms, surrogates and what lies above `0x10ffff`.
  if n ≤ 0x7f then some (n, [])
  else if n < 0xc2 then none
  else if n ≤ 0xdf then some (n - 0xc0, [(0x80, 0xbf)])
  else if n = 0xe0 then some (0, [(0xa0, 0xbf), (0x80, 0xbf)])
  else if n = 0xed then some (0xd, [(0x80, 0x9f), (0x80, 0xbf)])
  else if n ≤ 0xef then some (n - 0xe0, [(0x80, 0xbf), (0x80, 0xbf)])
  else if n = 0xf0 then some (0, [(0x90, 0xbf), (0x80, 0xbf), (0x80, 0xbf)])
  else if n ≤ 0xf3 then some (n - 0xf0, [(0x80, 0xbf), (0x80, 0xbf), (0x80, 0xbf)])
  else if n = 0xf4 then some (4, [(0x80, 0x8f), (0x80, 0xbf), (0x80, 0xbf)])
  else none

/-- Collects six bits from each further byte, as long as the bytes lie in their ranges.  The rest
starts at the first byte that does not belong to the character. -/
def follow (code : Nat) : List (UInt8 × UInt8) → Bytes → Option Nat × Bytes
  | [], rest => (some code, rest)
  | _ :: _, [] => (none, [])
  | (low, high) :: ranges, b :: rest =>
      if low ≤ b ∧ b ≤ high then follow (code * 64 + (b.toNat - 0x80)) ranges rest
      else (none, b :: rest)

/-- What is left after a character is no longer than what was left before. -/
theorem follow_length_le (code : Nat) (ranges : List (UInt8 × UInt8)) (bytes : Bytes) :
    (follow code ranges bytes).2.length ≤ bytes.length := by
  induction ranges generalizing code bytes with
  | nil => simp [follow]
  | cons range ranges ih =>
      cases bytes with
      | nil => simp [follow]
      | cons b rest =>
          rw [follow]
          split
          · exact Nat.le_succ_of_le (ih _ _)
          · simp

/-- The first piece of a sequence that starts with the given byte: a character, or nothing for a
broken piece, and the bytes after it. -/
def piece (b : UInt8) (rest : Bytes) : Option Char × Bytes :=
  match lead? b with
  | none => (none, rest)
  | some (code, ranges) =>
      let (code?, rest) := follow code ranges rest
      (code?.map Char.ofNat, rest)

/-- Every piece takes at least its first byte. -/
theorem piece_length_le (b : UInt8) (rest : Bytes) : (piece b rest).2.length ≤ rest.length := by
  rw [piece]
  split
  · exact Nat.le_refl _
  · exact follow_length_le _ _ _

/-! ## Reading texts -/

/-- All pieces of a sequence, broken ones as `none`. -/
def pieces : Bytes → List (Option Char)
  | [] => []
  | b :: rest => (piece b rest).1 :: pieces (piece b rest).2
termination_by bytes => bytes.length
decreasing_by exact Nat.lt_succ_of_le (piece_length_le b rest)

def decode? (bytes : Bytes) : Option (List Char) :=
  (pieces bytes).mapM id

/-- The text of the bytes with a replacement character for each broken piece. -/
def decodeLossy (bytes : Bytes) : List Char :=
  (pieces bytes).map fun c => c.getD '\ufffd'

end Utf8
end CellMachine
