import CellMachine.Fault
import CellMachine.Text.Utf8

/-!
# Console — the streams of a running program

A program reads lines of bytes and writes texts.  Writing and flushing can be refused: a console may
have a capacity, and a write that would exceed it fails as a whole.
-/

namespace CellMachine

/-- The input that is left and the output so far. -/
structure Console where
  input : Bytes := []
  output : String := ""
  capacity : Option Nat := none
  flushable : Bool := true
  deriving DecidableEq

namespace Console

/-! ## Output -/

def fits (console : Console) (bytes : Nat) : Bool :=
  match console.capacity with
  | some capacity => console.output.utf8ByteSize + bytes ≤ capacity
  | none => true

def write (console : Console) (s : String) : Except Fault Console :=
  if console.fits s.utf8ByteSize then .ok { console with output := console.output ++ s }
  else .error (.stream "write refused")

def flush (console : Console) : Except Fault Unit :=
  if console.flushable then .ok () else .error (.stream "flush refused")

/-! ## Input -/

def lineFeed : UInt8 := 10

/-- Takes the next line with the byte that ends it.  At the end of the input the line is empty. -/
def takeLine (console : Console) : Bytes × Console :=
  let line := console.input.takeWhile (· ≠ lineFeed)
  match console.input.dropWhile (· ≠ lineFeed) with
  | [] => (line, { console with input := [] })
  | b :: rest => (line ++ [b], { console with input := rest })

end Console
end CellMachine
