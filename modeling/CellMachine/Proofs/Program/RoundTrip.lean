import Mathlib
import CellMachine.Proofs.Program.Reading

/-!
# Program files are read back

A program whose counts and lengths fit into thirty-two bits is written and read back as it was, but
for the source lines, which are not written: `Program.round_trip`.

The writer ends its lines, and the readers want their blanks in front.  `Program.write_eq` moves the
line ends, so that the file is the magic number, pieces with a blank in front, and one line end that
is left over.
-/

namespace CellMachine

open Reader

/-! ## Programs that fit -/

namespace Program

/-- Whether all counts and lengths of a program can be written as thirty-two bits. -/
structure Fits (program : Program) : Prop where
  strings : program.strings.size < UInt32.size
  numbers : program.numbers.size < UInt32.size
  userFunctions : program.userFunctions.size < UInt32.size
  libraryFunctions : program.libraryFunctions.size < UInt32.size
  code : program.code.size < UInt32.size
  globals : program.globals < UInt32.size
  texts : ∀ s ∈ program.strings, s.utf8ByteSize < UInt32.size
  functionNames : ∀ f ∈ program.userFunctions, f.name.utf8ByteSize < UInt32.size
  libraryNames : ∀ name ∈ program.libraryFunctions, name.utf8ByteSize < UInt32.size

end Program

def Instruction.withoutLine (instruction : Instruction) : Instruction :=
  { instruction with line := 0 }

def Program.withoutLines (program : Program) : Program :=
  { program with code := program.code.map Instruction.withoutLine }

/-! ## Pieces with a blank in front -/

namespace Program

def textLine (s : String) : List Char :=
  '\n' :: sizedText s

def numberPiece (x : Float) : List Char :=
  ' ' :: Number.plain x

def functionLine (function : UserFunction) : List Char :=
  '\n' :: (writeNat function.address.toNat ' ' ++ writeNat function.localSize.toNat ' ' ++
    sizedText function.name)

def instructionLine (instruction : Instruction) : List Char :=
  '\n' :: (Number.digits instruction.opcode.code ++ writeOperand instruction.result ++
    writeOperand instruction.first ++ writeOperand instruction.second)

/-- A line end behind each piece is a line end in front of each piece and one more behind them. -/
theorem rotate {α : Type} {write line : α → List Char} {c : Char}
    (h : ∀ x, c :: write x = line x ++ [c]) (xs : List α) :
    c :: xs.flatMap write = xs.flatMap line ++ [c] := by
  induction xs with
  | nil => rfl
  | cons x xs ih =>
      calc c :: (write x ++ xs.flatMap write)
          = line x ++ (c :: xs.flatMap write) := by
            rw [← List.cons_append, h, List.append_assoc, List.singleton_append]
        _ = line x ++ xs.flatMap line ++ [c] := by rw [ih, List.append_assoc]

/-- The pieces of a program file behind its magic number. -/
def pieces (program : Program) : List Char :=
  ('\n' :: Number.digits program.strings.size ++ program.strings.toList.flatMap textLine) ++
    (('\n' :: Number.digits program.numbers.size ++
      program.numbers.toList.flatMap numberPiece) ++
    (('\n' :: Number.digits program.userFunctions.size ++
      program.userFunctions.toList.flatMap functionLine) ++
    (('\n' :: Number.digits program.libraryFunctions.size ++
      program.libraryFunctions.toList.flatMap textLine) ++
    (('\n' :: Number.digits program.code.size ++
      program.code.toList.flatMap instructionLine) ++
    ('\n' :: Number.digits program.globals)))))

/-- A program file is the magic number, the pieces and a line end. -/
theorem write_eq (program : Program) :
    program.write = Number.digits magicNumber ++ program.pieces ++ ['\n'] := by
  have hsection {α : Type} {write line : α → List Char}
      (h : ∀ x, '\n' :: write x = line x ++ ['\n']) (n : Nat) (xs : List α) :
      writeNat n '\n' ++ xs.flatMap write = Number.digits n ++ xs.flatMap line ++ ['\n'] := by
    rw [writeNat, List.append_assoc, List.singleton_append, rotate h, List.append_assoc]
  have htext (s : String) : '\n' :: writeText s = textLine s ++ ['\n'] := rfl
  have hfunction (f : UserFunction) : '\n' :: writeFunction f = functionLine f ++ ['\n'] := by
    simp [writeFunction, functionLine, writeText, sizedText]
  have hinstruction (i : Instruction) :
      '\n' :: writeInstruction i = instructionLine i ++ ['\n'] := rfl
  have hnumbers : (fun x => ' ' :: Number.plain x) = numberPiece := rfl
  rw [write, hsection htext, hnumbers, hsection hfunction, hsection htext, hsection hinstruction]
  simp only [writeNat, pieces, List.append_assoc, List.cons_append, List.nil_append]

end Program

/-! ## Reading the pieces -/

namespace Reader

/-- Thirty-two bits are read back from their digits. -/
theorem word_reads (part : Section) {c : Char} (hc : ∀ d ∈ [c], d = ' ' ∨ d = '\n') (w : UInt32) :
    Reads (count part) (c :: Number.digits w.toNat) w := by
  have hcount := count_reads part hc w.toNat_lt_size
  rwa [UInt32.ofNat_toNat] at hcount

/-- A function is read back as it was written. -/
theorem userFunction_reads {function : UserFunction}
    (h : function.name.utf8ByteSize < UInt32.size) :
    Reads userFunction (Program.functionLine function) function := by
  have hsplit : Program.functionLine function =
      ('\n' :: Number.digits function.address.toNat) ++
        ((' ' :: Number.digits function.localSize.toNat) ++ (' ' :: sizedText function.name)) := by
    simp [Program.functionLine, Program.writeNat]
  have hname : Reads (text .functionName) (' ' :: sizedText function.name) function.name :=
    text_reads .functionName lead_space h
  rw [hsplit]
  exact (word_reads _ lead_newline _).bind (Separated.cons (.inl rfl) _)
    ((word_reads _ lead_space _).bind (Separated.cons (.inl rfl) _)
      (hname.next (Reads.pure _)))

/-- What a code stands for is read from its digits. -/
theorem coded_reads {α : Type} (part : Section) {ofCode? : Nat → Option α}
    {unknown : Nat → LoadFault} {c : Char} (hc : ∀ d ∈ [c], d = ' ' ∨ d = '\n') {code : Nat}
    (hlt : code < UInt32.size) {x : α} (hx : ofCode? code = some x) :
    Reads (coded part ofCode? unknown) (c :: Number.digits code) x := by
  refine (count_reads part hc hlt).next ?_
  simp only [UInt32.toNat_ofNat_of_lt' hlt, hx]
  exact Reads.pure x

/-- An operand is read back as it was written. -/
theorem operand_reads (operand : Operand) (index : Nat) :
    Reads (Reader.operand index) (Program.writeOperand operand) operand := by
  have hcode : operand.kind.code < UInt32.size := by
    cases operand.kind <;> decide
  have hsplit : Program.writeOperand operand =
      (' ' :: Number.digits operand.kind.code) ++ (' ' :: Number.digits operand.value.toNat) := by
    simp [Program.writeOperand, Program.writeNat]
  rw [hsplit]
  exact (coded_reads _ lead_space hcode (OperandKind.ofCode?_code _)).bind
    (Separated.cons (.inl rfl) _) ((word_reads _ lead_space _).next (Reads.pure _))

/-- An instruction is read back, but for its source line. -/
theorem instruction_reads (instruction : Instruction) (index : Nat) :
    Reads (Reader.instruction index) (Program.instructionLine instruction)
      instruction.withoutLine := by
  have hcode : instruction.opcode.code < UInt32.size := by
    have hlt : instruction.opcode.code < Opcode.all.length :=
      (List.getElem?_eq_some_iff.1 (Opcode.ofCode?_code _)).1
    exact hlt.trans (by decide)
  have hoperand (operand : Operand) : Separated (Program.writeOperand operand) :=
    Separated.cons (.inl rfl) _
  have hsplit : Program.instructionLine instruction =
      ('\n' :: Number.digits instruction.opcode.code) ++
        (Program.writeOperand instruction.result ++ (Program.writeOperand instruction.first ++
          Program.writeOperand instruction.second)) := by
    simp [Program.instructionLine]
  rw [hsplit]
  exact (coded_reads _ lead_newline hcode (Opcode.ofCode?_code _)).bind
    (hoperand instruction.result) ((operand_reads instruction.result index).bind
      (hoperand instruction.first) ((operand_reads instruction.first index).bind
        (hoperand instruction.second) ((operand_reads instruction.second index).next
          (Reads.pure _))))

theorem magic_reads : Reads magic (Number.digits magicNumber) () := by
  have hmagic : magicNumber < UInt32.size := by decide
  have htoken := @token_reads .magic [] _ (fun _ hc => nomatch hc)
    (Number.digits_ne_nil magicNumber) (digits_visible magicNumber)
  refine Reads.next htoken ?_
  rw [if_neg (not_not.2 (count?_digits hmagic))]
  exact Reads.pure ()

/-- The readers of the sections take the pieces of a program file. -/
theorem program_reads {program : Program} (h : program.Fits) :
    Reads Reader.program (Number.digits magicNumber ++ program.pieces) program.withoutLines := by
  have hstrings := counted_reads .stringCount program.strings h.strings
    (fun _ _ => Separated.cons (.inr rfl) _) fun s hs _ =>
      text_reads .string lead_newline (h.texts s hs)
  have hnumbers := counted_reads .numberCount program.numbers h.numbers
    (fun _ _ => Separated.cons (.inl rfl) _) fun x _ _ => number_reads .number lead_space x
  have hfunctions := counted_reads .functionCount program.userFunctions h.userFunctions
    (fun _ _ => Separated.cons (.inr rfl) _) fun f hf _ =>
      userFunction_reads (h.functionNames f hf)
  have hlibrary := counted_reads .libraryCount program.libraryFunctions h.libraryFunctions
    (fun _ _ => Separated.cons (.inr rfl) _) fun name hname _ =>
      text_reads .libraryName lead_newline (h.libraryNames name hname)
  have hcode := counted_reads .instructionCount program.code h.code
    (fun _ _ => Separated.cons (.inr rfl) _) fun instruction _ index =>
      instruction_reads instruction index
  have hglobals := count_reads .globalCount lead_newline h.globals
  rw [Array.map_id'] at hstrings hnumbers hfunctions hlibrary
  -- The line end in front of a section ends the last token of the section before.
  have hline (cs : List Char) : Separated ('\n' :: cs) := Separated.cons (.inr rfl) cs
  refine magic_reads.bind (hline _) (hstrings.bind (hline _) (hnumbers.bind (hline _)
    (hfunctions.bind (hline _) (hlibrary.bind (hline _) (hcode.bind (hline _)
      (hglobals.next ?_))))))
  rw [UInt32.toNat_ofNat_of_lt' h.globals]
  exact Reads.pure _

/-! ## Lines -/

/-- What is read has no source lines. -/
theorem program_gives : Gives program fun program => program.withoutLines = program := by
  have hinstruction (index : Nat) :
      Gives (instruction index) fun instruction => instruction.withoutLine = instruction :=
    Gives.last fun _ => Gives.last fun _ => Gives.last fun _ => Gives.last fun _ =>
      Gives.pure rfl
  refine Gives.last fun _ => Gives.last fun _ => Gives.last fun _ => Gives.last fun _ =>
    Gives.last fun _ => (Gives.counted .instructionCount hinstruction).bind fun code hcode =>
      Gives.last fun _ => Gives.pure ?_
  have hmap : code.map Instruction.withoutLine = code := by
    rw [Array.map_congr_left hcode, Array.map_id']
  rw [Program.withoutLines, hmap]

end Reader

/-! ## Files -/

namespace Program

/-- A program that fits is read back from its file, and nothing is left over. -/
theorem load_encode {program : Program} (h : program.Fits) :
    load (Utf8.encode program.encode) = .ok ⟨program.withoutLines, none⟩ := by
  have hread := program_reads h (Utf8.bytes ['\n']) (by rintro b ⟨⟩; rfl)
  have hbytes : Utf8.encode program.encode =
      Utf8.bytes (Number.digits magicNumber ++ program.pieces) ++ Utf8.bytes ['\n'] := by
    rw [Utf8.encode_eq, encode, String.toList_ofList, write_eq, Utf8.bytes_append]
  change (Reader.program.run _ >>= _) = _
  rw [hbytes, hread]
  rfl

/-- A program that was loaded has no source lines. -/
theorem withoutLines_of_load {bytes : Bytes} {loaded : Loaded} (h : load bytes = .ok loaded) :
    loaded.program.withoutLines = loaded.program := by
  change (Reader.program.run bytes >>= _) = _ at h
  cases hread : Reader.program.run bytes with
  | error fault =>
      rw [hread] at h
      nomatch h
  | ok answer =>
      rw [hread] at h
      cases h
      exact program_gives bytes answer.1 answer.2 hread

/-- Source lines are not written. -/
theorem encode_withoutLines (program : Program) : program.withoutLines.encode = program.encode := by
  simp only [encode, write, withoutLines, Array.size_map, Array.toList_map, List.flatMap_map]
  rfl

/-- A program that fits is read back from its file as it was, but for the source lines, with the
same numbers down to the last bit, and nothing is left over.  So writing what was read from any file
and reading it again changes nothing, and the files of two programs that fit are the same exactly if
the programs differ in their source lines only. -/
theorem round_trip (program : Program) (h : program.Fits) :
    load (Utf8.encode program.encode) = .ok ⟨program.withoutLines, none⟩ ∧
    (∀ bytes trailing, load bytes = .ok ⟨program, trailing⟩ →
      load (Utf8.encode program.encode) = .ok ⟨program, none⟩) ∧
    (∀ other : Program, other.Fits →
      (other.encode = program.encode ↔ other.withoutLines = program.withoutLines)) := by
  have hload := load_encode h
  refine ⟨hload, fun bytes trailing hbytes => ?_, fun other hother => ⟨fun hfile => ?_,
    fun hlines => ?_⟩⟩
  · have hlines : program.withoutLines = program := withoutLines_of_load hbytes
    rw [hload, hlines]
  · have hboth := load_encode hother
    rw [hfile, hload] at hboth
    exact congrArg Loaded.program (Except.ok.inj hboth.symm)
  · rw [← encode_withoutLines other, hlines, encode_withoutLines]

/-- A program with texts that are empty, look like tokens, or have line ends and characters of more
than one byte, and with a source line. -/
def awkward : Program where
  strings := #["", "3 4", "0\n1 a", "é𝄞"]
  numbers := #[0.1, -0.0, Float.ofBits 0x7ff8000000000001, Float.ofBits 1]
  userFunctions := #[⟨1, 2, " f"⟩]
  libraryFunctions := #["\n"]
  code := #[⟨.jump, ⟨.label, 4294967295⟩, ⟨.absent, 0⟩, ⟨.string, 1⟩, 12⟩]
  globals := 4294967295

def loose : List Char :=
  "340200501\t 1\r\n3\n4 5 +0 0 1\n2 é 1 10\n 1 7 11 00 5 3 2 end".toList

def tidy : Program where
  strings := #["4 5"]
  libraryFunctions := #["é"]
  code := #[⟨.jump, ⟨.global, 7⟩, ⟨.absent, 0⟩, ⟨.string, 3⟩, 0⟩]
  globals := 2

theorem round_trip_awkward :
    (awkward.Fits ∧ load (Utf8.encode awkward.encode) = .ok ⟨awkward.withoutLines, none⟩) ∧
      tidy.Fits ∧ load (Utf8.bytes loose) = .ok ⟨tidy, some 54⟩ ∧
        load (Utf8.encode tidy.encode) = .ok ⟨tidy, none⟩ ∧ tidy.encode ≠ awkward.encode := by
  have hawkward : awkward.Fits := by
    constructor <;> decide
  have htidy : tidy.Fits := by
    constructor <;> decide
  have hload : load (Utf8.bytes loose) = .ok ⟨tidy, some 54⟩ := by
    decide +kernel
  have hne : tidy.encode ≠ awkward.encode := by
    intro hfile
    have hlines := ((round_trip awkward hawkward).2.2 tidy htidy).1 hfile
    exact absurd (congrArg globals hlines) (by decide)
  exact ⟨⟨hawkward, (round_trip awkward hawkward).1⟩, htidy, hload,
    (round_trip tidy htidy).2.1 _ _ hload, hne⟩

end Program
end CellMachine
