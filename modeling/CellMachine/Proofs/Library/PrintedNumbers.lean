import Mathlib
import CellMachine.Library.Standard
import CellMachine.Proofs.Machine.Addresses
import CellMachine.Proofs.Number.Shown
import CellMachine.Proofs.Text.Utf8

/-!
# Numbers on the console

A program prints numbers, reads lines and turns texts into numbers.  What one standard function
writes for a number the two others read, as a number that stands for it: a line of input ends with a
line feed, with a carriage return in front perhaps, or with the input, and a text is taken as it is.

The two readers agree on all texts, and not only on those of numbers, but for what they answer if a
text is no number: `Standard.Agrees` says so.  The main statement is
`Standard.printed_numbers_read_back`.
-/

namespace CellMachine

/-! ## Lines -/

namespace Blank

/-- What is dropped from the end is all that has the property, and no more. -/
theorem dropEnd_append {p : Char → Bool} {cs ending : List Char}
    (hending : ∀ c ∈ ending, p c = true) (hcs : ∀ c, cs.getLast? = some c → p c = false) :
    dropEnd p (cs ++ ending) = cs := by
  have hrest : ∀ c, cs.reverse.head? = some c → p c = false := by
    rwa [List.head?_reverse]
  have hreverse : cs.reverse.dropWhile p = cs.reverse := by
    cases hcs : cs.reverse with
    | nil => rfl
    | cons c rest => exact List.dropWhile_cons_of_neg (by simp [hrest c (hcs ▸ rfl)])
  rw [dropEnd, List.reverse_append, List.dropWhile_append_of_pos (by simpa using hending), hreverse,
    List.reverse_reverse]

/-- Nothing is trimmed of a text without blanks. -/
theorem trim_eq {cs : List Char} (h : ∀ c ∈ cs, isChar c = false) : trim cs = cs := by
  have hfront : cs.dropWhile isChar = cs := by
    cases cs with
    | nil => rfl
    | cons c rest => exact List.dropWhile_cons_of_neg (by simp [h c (List.mem_cons_self ..)])
  have hback : dropEnd isChar (cs ++ []) = cs :=
    dropEnd_append nofun fun c hc => h c (List.mem_of_mem_getLast? hc)
  rw [List.append_nil] at hback
  rwa [trim, hfront]

theorem isChar_of_visible {c : Char} (h : 0x20 < c.toNat ∧ c.toNat ≤ 0x7f) : isChar c = false := by
  simp [isChar, ranges]
  omega

end Blank

namespace Console

/-- Whether an input starts with a line, which goes up to the byte that ends it, or to the end of
the input if there is no such byte. -/
structure NextLine (input line rest : Bytes) : Prop where
  split : input = line ++ rest
  inner : lineFeed ∉ line.dropLast
  ended : line.getLast? = some lineFeed ∨ rest = []

/-- The next line is the one that is taken. -/
theorem takeLine_of_nextLine {console : Console} {line rest : Bytes}
    (h : NextLine console.input line rest) :
    console.takeLine = (line, { console with input := rest }) := by
  rcases h with ⟨hsplit, hinner, hended⟩
  rcases List.eq_nil_or_concat line with rfl | ⟨front, b, rfl⟩
  · rcases hended with hended | rfl
    · cases hended
    · rw [takeLine, hsplit]
      rfl
  rw [List.concat_eq_append] at *
  rw [List.dropLast_concat] at hinner
  have hfront : ∀ x ∈ front, decide (x ≠ lineFeed) = true :=
    fun x hx => decide_eq_true fun heq => hinner (heq ▸ hx)
  rw [takeLine, hsplit, List.append_assoc, List.takeWhile_append_of_pos hfront,
    List.dropWhile_append_of_pos hfront]
  -- No byte but the last one can end the line.
  by_cases hb : b = lineFeed
  · simp [hb]
  · rcases hended with hended | rfl
    · rw [List.getLast?_concat] at hended
      exact absurd (Option.some.inj hended) hb
    · simp [hb]

end Console

/-! ## Runs of standard functions -/

/-- Reading many things that change nothing reads them in the same state. -/
theorem Exec.run_mapM {α β : Type} {f : α → Exec β} {g : α → β} {xs : List α} {state : State}
    (h : ∀ x ∈ xs, (f x).run state = .ok (g x) state) :
    (xs.mapM f).run state = .ok (xs.map g) state := by
  induction xs with
  | nil => rfl
  | cons x xs ih =>
      have hmore := ih fun y hy => h y (List.mem_cons_of_mem _ hy)
      rw [List.mapM_cons, run_bind_of_ok (h x (List.mem_cons_self ..)), run_bind_of_ok hmore]
      rfl

structure State.Passes (state : State) (cells : List Cell) : Prop where
  count : state.stack.actualsAt state.stack.frame = .ok cells.length
  actual : ∀ i (h : i < cells.length),
    state.stack.actualAt state.stack.frame i = .ok (some (cells.get ⟨i, h⟩))

namespace Library
namespace Standard

variable {state : State} {cells : List Cell} {cell : Cell}

/-- An argument that was passed is found. -/
theorem run_argumentOf (function : String) {index : Nat}
    (h : state.stack.actualAt state.stack.frame index = .ok (some cell)) :
    (argumentOf function index).run state = .ok cell state := by
  have hactual : (Exec.actual index).run state = .ok (some cell) state := Exec.run_decide_of_ok h
  rw [argumentOf, Exec.run_bind_of_ok hactual]
  rfl

/-- What fits into the output is written. -/
theorem run_write {s : String} (h : state.console.fits s.utf8ByteSize = true) :
    (Exec.write s).run state = .ok ()
      { state with console := { state.console with output := state.console.output ++ s } } := by
  change (Exec.ofExcept (state.console.write s) >>= fun console =>
    set { state with console := console }).run state = _
  rw [Console.write, if_pos h]
  rfl

/-- What is printed are the texts of all arguments, one after the other. -/
theorem run_print (h : state.Passes cells)
    (hfits : state.console.fits (String.join (cells.map state.heap.text)).utf8ByteSize = true) :
    print.run state = .ok () { state with
      console := { state.console with
        output := state.console.output ++ String.join (cells.map state.heap.text) } } := by
  have hcount : Exec.actuals.run state = .ok cells.length state := Exec.run_decide_of_ok h.count
  -- Texts are made one by one, and making one changes nothing.
  have htext : ∀ index ∈ List.range cells.length,
      (do
        let cell ← argumentOf "print" index
        return (← get).heap.text cell : Exec String).run state =
          .ok (state.heap.text (cells.getD index .undefined)) state := by
    intro index hindex
    have hlt := List.mem_range.1 hindex
    rw [Exec.run_bind_of_ok (run_argumentOf "print" (h.actual index hlt)),
      List.getD_eq_getElem _ _ hlt]
    rfl
  have hmap : (List.range cells.length).map
      (fun index => state.heap.text (cells.getD index .undefined)) =
        cells.map state.heap.text := by
    refine List.ext_getElem (by simp) fun i hi _ => ?_
    rw [List.length_map, List.length_range] at hi
    simp [hi]
  rw [print, Exec.run_bind_of_ok hcount, Exec.run_bind_of_ok (Exec.run_mapM htext), hmap]
  exact run_write hfits

/-- A text is turned into the number that it is between blanks, or into nil. -/
theorem run_textToNumber {s : String}
    (h : state.stack.actualAt state.stack.frame 0 = .ok (some (.text s))) :
    textToNumber.run state = .ok () (state.overwrite .result
      (((Number.parse? (Blank.trim s.toList)).map .number).getD .nil)) := by
  rw [textToNumber, Exec.run_bind_of_ok (run_argumentOf "strtonum" h)]
  cases hparse : Number.parse? (Blank.trim s.toList) <;> simp only [hparse] <;> rfl

/-- A line is turned into the number that it is between blanks, or into its text. -/
theorem run_input {line rest : Bytes} {cs : List Char} (hflushable : state.console.flushable = true)
    (hline : Console.NextLine state.console.input line rest) (hne : line ≠ [])
    (hdecode : Utf8.decode? line = some cs) :
    input.run state = .ok ()
      (({ state with console := { state.console with input := rest } }).overwrite .result
        (lineCell (Blank.dropEnd isLineEnd cs))) := by
  have hflush : Exec.flush.run state = .ok () state := Exec.run_decide_of_ok (if_pos hflushable)
  have htake : Exec.takeLine.run state =
      .ok line { state with console := { state.console with input := rest } } := by
    change EStateM.Result.ok state.console.takeLine.1
      { state with console := state.console.takeLine.2 } = _
    rw [Console.takeLine_of_nextLine hline]
  rw [input, Exec.run_bind_of_ok hflush, Exec.run_bind_of_ok htake]
  simp only [if_pos hne, hdecode]
  rfl

/-! ## The two readers -/

/-- Whether what a line and a text are turned into is alike: the same number, or else the text in
the one place and nil in the other one. -/
structure Alike (s : String) (typed converted : Cell) : Prop where
  number : ∀ x, typed = .number x ↔ converted = .number x
  text : (∀ x, converted ≠ .number x) → typed = .text s ∧ converted = .nil

/-- Whether the two readers agree on a text, which is all of the next line but the characters that
end it. -/
def Agrees (s : String) : Prop :=
  ∀ (asking passing : State) (line rest : Bytes) (ending : List Char) (more : List Cell),
    Console.NextLine asking.console.input line rest → line ≠ [] →
    Utf8.decode? line = some (s.toList ++ ending) →
    (∀ c ∈ ending, c = '\n' ∨ c = '\r') →
    (∀ c, s.toList.getLast? = some c → c ≠ '\n' ∧ c ≠ '\r') →
    asking.console.flushable = true →
    passing.Passes (.text s :: more) →
    ∃ typed converted, input.run asking = .ok () typed ∧
      textToNumber.run passing = .ok () converted ∧ typed.console.input = rest ∧
      Alike s typed.result converted.result

/-- A line and a text with the same characters are read alike. -/
theorem alike_lineCell (s : String) :
    Alike s (lineCell s.toList)
      (((Number.parse? (Blank.trim s.toList)).map .number).getD .nil) := by
  rw [lineCell]
  cases Number.parse? (Blank.trim s.toList) with
  | some x => exact ⟨fun _ => Iff.rfl, fun h => absurd rfl (h x)⟩
  | none => exact ⟨fun x => by simp, fun _ => ⟨by simp, rfl⟩⟩

theorem isLineEnd_eq_true {c : Char} (h : c = '\n' ∨ c = '\r') : isLineEnd c = true :=
  decide_eq_true h

theorem isLineEnd_eq_false {c : Char} (h : c ≠ '\n' ∧ c ≠ '\r') : isLineEnd c = false :=
  decide_eq_false (not_or.2 h)

/-- The two readers agree on all texts. -/
theorem agrees (s : String) : Agrees s := by
  intro asking passing line rest ending more hline hne hdecode hending hs hflushable hpasses
  have htyped := run_input hflushable hline hne hdecode
  rw [Blank.dropEnd_append (fun c hc => isLineEnd_eq_true (hending c hc))
    fun c hc => isLineEnd_eq_false (hs c hc)] at htyped
  have hconverted := run_textToNumber (hpasses.actual 0 (Nat.succ_pos _))
  exact ⟨_, _, htyped, hconverted, rfl, alike_lineCell s⟩

/-! ## Texts of numbers -/

/-- Whether a number is printed, and what is printed of it is read as another number. -/
structure PrintedAs (x y : Float) : Prop where
  /-- What is printed of the number alone is its text. -/
  printed : ∀ state : State, state.Passes [.number x] →
    state.console.fits (Number.text x).utf8ByteSize = true →
    print.run state = .ok () { state with
      console := { state.console with output := state.console.output ++ Number.text x } }
  converted : ∀ (state : State) (more : List Cell),
    state.Passes (.text (Number.text x) :: more) →
    textToNumber.run state = .ok () (state.overwrite .result (.number y))
  /-- A line ends with one or two characters, or where the input ends. -/
  typed : ∀ (state : State) (ending : String) (rest : Bytes), state.console.flushable = true →
    ending = "\n" ∨ ending = "\r\n" ∨ ending = "" ∧ rest = [] →
    state.console.input = Utf8.encode (Number.text x ++ ending) ++ rest →
    input.run state = .ok ()
      (({ state with console := { state.console with input := rest } }).overwrite .result
        (.number y))
  /-- A whole number is printed as an integer, which is the same number. -/
  whole : ∀ negative k, Number.value x = .finite negative (k * Number.one) → k < 10 ^ 15 →
    Number.IsInteger x (Number.integer negative k)

/-- No blank stands at the ends of a number's text. -/
theorem trim_shown (x : Float) : Blank.trim (Number.shown x) = Number.shown x :=
  Blank.trim_eq fun c hc => Blank.isChar_of_visible ((Number.shown_visible x).2 c hc)

/-- The text of a number is one line. -/
theorem lineFeed_not_mem_shown (x : Float) :
    Console.lineFeed ∉ Utf8.bytes (Number.shown x) := by
  have hvisible := (Number.shown_visible x).2
  intro hmem
  rw [Utf8.bytes_of_all_ascii fun c hc => (hvisible c hc).2] at hmem
  rcases List.mem_map.1 hmem with ⟨c, hc, heq⟩
  have hbounds := hvisible c hc
  have hnat : c.toNat % 256 = 10 := congrArg UInt8.toNat heq
  omega

/-- The text of a number and what may end it are the next line of an input. -/
theorem nextLine_text (x : Float) {ending : String} {rest : Bytes}
    (h : ending = "\n" ∨ ending = "\r\n" ∨ ending = "" ∧ rest = []) :
    Console.NextLine (Utf8.encode (Number.text x ++ ending) ++ rest)
      (Utf8.encode (Number.text x ++ ending)) rest := by
  have hinner := lineFeed_not_mem_shown x
  rw [Utf8.encode_eq, String.toList_append, Utf8.bytes_append, Number.text, String.toList_ofList]
  have hnone : Utf8.bytes "".toList = [] := rfl
  have hfeed : Utf8.bytes "\n".toList = [Console.lineFeed] := by decide +kernel
  have hboth : Utf8.bytes "\r\n".toList = [13, Console.lineFeed] := by decide +kernel
  rcases h with rfl | rfl | ⟨rfl, rfl⟩
  · refine ⟨rfl, ?_, .inl ?_⟩
    · rw [hfeed, List.dropLast_concat]
      exact hinner
    · rw [hfeed, List.getLast?_concat]
  · refine ⟨rfl, ?_, .inl ?_⟩
    · rw [hboth, List.dropLast_append_of_ne_nil (List.cons_ne_nil _ _)]
      exact List.not_mem_append hinner (by decide)
    · rw [hboth]
      simp
  · refine ⟨rfl, ?_, .inr rfl⟩
    rw [hnone, List.append_nil]
    exact fun hmem => hinner (List.mem_of_mem_dropLast hmem)

/-- Each number is printed as a number that stands for it. -/
theorem exists_printedAs (x : Float) : ∃ y, Number.StandsFor y x ∧ PrintedAs x y := by
  rcases Number.parse?_shown x with ⟨y, hparse, hstands⟩
  have htext : (Number.text x).toList = Number.shown x := String.toList_ofList
  refine ⟨y, hstands, ?_, ?_, ?_, fun _ _ hvalue hk => Number.isInteger_of_value hvalue hk⟩
  · intro state hpasses hfits
    have hjoin : String.join ([.number x].map state.heap.text) = Number.text x :=
      String.empty_append
    have hprint := run_print hpasses (hjoin ▸ hfits)
    rwa [hjoin] at hprint
  · intro state more hpasses
    rw [run_textToNumber (hpasses.actual 0 (Nat.succ_pos _)), htext, trim_shown, hparse]
    rfl
  · intro state ending rest hflushable hending hinput
    have hline := nextLine_text x hending
    rw [← hinput] at hline
    have hne : Utf8.encode (Number.text x ++ ending) ≠ [] := by
      rw [Utf8.encode_eq, String.toList_append, htext]
      exact Utf8.bytes_ne_nil (List.append_ne_nil_of_left_ne_nil (Number.shown_visible x).1 _)
    have hdecode : Utf8.decode? (Utf8.encode (Number.text x ++ ending)) =
        some (Number.shown x ++ ending.toList) := by
      rw [Utf8.encode_eq, Utf8.decode?_bytes, String.toList_append, htext]
    -- What ends the line is cut off, and nothing of the text of a number is.
    have hcut : Blank.dropEnd isLineEnd (Number.shown x ++ ending.toList) = Number.shown x := by
      refine Blank.dropEnd_append (List.all_eq_true.1 ?_) fun c hc => ?_
      · rcases hending with rfl | rfl | ⟨rfl, -⟩ <;> decide
      · have hvisible := (Number.shown_visible x).2 c (List.mem_of_mem_getLast? hc)
        refine isLineEnd_eq_false ⟨?_, ?_⟩ <;> rintro rfl <;> exact absurd hvisible (by decide)
    rw [run_input hflushable hline hne hdecode, hcut, lineCell, trim_shown, hparse]

/-- What is printed of a number is read back by the library as a number that stands for it, from a
text and from a line alike, and the two agree on any other text. -/
theorem printed_numbers_read_back :
    (∀ x, ∃ y, Number.StandsFor y x ∧ PrintedAs x y) ∧ ∀ s, Agrees s :=
  ⟨exists_printedAs, agrees⟩

def called (cell : Cell) (input : Bytes) : State where
  stack := ⟨#[.undefined, .undefined, .undefined, .undefined, .number (Number.ofNat 1), cell],
    0, 0, 0⟩
  console := { input }

theorem called_passes (cell : Cell) (input : Bytes) : (called cell input).Passes [cell] := by
  have hcount : (called cell input).stack.actualsAt 0 = .ok 1 :=
    Stack.word_of_read (show 4 < 6 by decide) rfl (Number.toWord?_ofNat (by decide))
  refine ⟨hcount, fun i hi => ?_⟩
  rw [List.length_singleton, Nat.lt_one_iff] at hi
  subst hi
  exact Stack.actualAt_of_lt hcount Nat.one_pos

/-- A negative zero is printed without its sign. -/
theorem printed_numbers_read_back_zero :
    (∃ y, Number.value y = .finite false 0 ∧
      print.run (called (.number (Number.ofBits true 0)) []) =
        .ok () { called (.number (Number.ofBits true 0)) [] with console := { output := "0" } } ∧
      input.run (called .nil [0x30, 13, 10, 0x31]) =
        .ok () ((called .nil [0x31]).overwrite .result (.number y))) ∧
    ∃ typed converted, input.run (called .nil [0x31, 0x78, 10]) = .ok () typed ∧
      textToNumber.run (called (.text "1x") []) = .ok () converted ∧
      typed.result = .text "1x" ∧ converted.result = .nil := by
  rcases printed_numbers_read_back with ⟨hprinted, hagrees⟩
  constructor
  · rcases hprinted (Number.ofBits true 0) with ⟨y, hstands, hprint⟩
    have htext : Number.text (Number.ofBits true 0) = "0" := by decide +kernel
    refine ⟨y, hstands.zero (Number.isZero_ofBits true), ?_, ?_⟩
    · have hrun := hprint.printed _ (called_passes _ []) rfl
      rw [htext] at hrun
      exact hrun
    · exact hprint.typed (called .nil [0x30, 13, 10, 0x31]) "\r\n" [0x31] rfl (.inr (.inl rfl))
        (by rw [htext]; decide +kernel)
  · rcases hagrees "1x" (called .nil [0x31, 0x78, 10]) (called (.text "1x") []) [0x31, 0x78, 10] []
      ['\n'] [] ⟨rfl, by decide, .inl rfl⟩ (by decide) (by decide +kernel) (by simp) (by simp) rfl
      (called_passes _ []) with ⟨typed, converted, htyped, hconverted, -, halike⟩
    have hparse : Number.parse? (Blank.trim "1x".toList) = none := by decide +kernel
    have hnil := run_textToNumber ((called_passes (.text "1x") []).actual 0 Nat.one_pos)
    rw [hparse, hconverted] at hnil
    cases hnil
    exact ⟨typed, _, htyped, hconverted, halike.text nofun⟩

end Standard
end Library
end CellMachine
