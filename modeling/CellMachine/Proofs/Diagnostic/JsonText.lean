import Mathlib
import CellMachine.Diagnostic.Basic
import CellMachine.Proofs.Text.JsonReading

/-!
# The JSON text of a diagnostic

A diagnostic is told to other programs as one line of JSON.  `Diagnostic.Tells` lists what the
object on that line has to say, name by name; an object that says so is enough to make the
diagnostic again, with `Diagnostic.ofJson?`.  The line is read by `Json.read?`, which knows nothing
of diagnostics.

The main statement is `Diagnostic.json_loses_nothing`.
-/

namespace CellMachine

/-! ## Parts of JSON values -/

namespace Json

def field? (name : String) : Json → Option Json
  | .object fields => fields.lookup name
  | _ => none

def text? : Json → Option String
  | .string s => some s
  | _ => none

def texts? : Json → Option (List String)
  | .array elements => elements.mapM text?
  | _ => none

def nat? : Json → Option Nat
  | .number text => if text.all Char.isDigit then some (Number.ofDigits text) else none
  | _ => none

/-- An array of texts is read back as those texts. -/
theorem texts?_array (texts : List String) : texts? (.array (texts.map .string)) = some texts := by
  rw [texts?, List.mapM_map]
  induction texts with
  | nil => rfl
  | cons text texts ih =>
      rw [List.mapM_cons, ih]
      rfl

/-- A natural number is read back from its numeral. -/
theorem nat?_ofNat (n : Nat) : nat? (.ofNat n) = some n := by
  have hdigits : (Nat.toDigits 10 n).all Char.isDigit = true :=
    List.all_eq_true.2 fun c hc => Number.isDigit_of_mem_digits hc
  rw [ofNat, nat?, if_pos hdigits]
  exact congrArg some (Number.ofDigits_digits n)

theorem bind_nat? {α : Type} (x : Option α) (n : α → Nat) :
    (x.map fun y => Json.ofNat (n y)).bind nat? = x.map n := by
  cases x with
  | none => rfl
  | some y => exact nat?_ofNat (n y)

theorem bind_text? (x : Option String) : (x.map Json.string).bind text? = x := by
  cases x <;> rfl

end Json

def Severity.ofName? (name : String) : Option Severity :=
  [error, warning].find? fun severity => severity.name = name

/-- The name of a severity tells it. -/
theorem Severity.ofName?_name (severity : Severity) : ofName? severity.name = some severity := by
  cases severity <;> rfl

namespace Diagnostic

open Json

/-! ## What is told -/

/-- The names that can be in the object of a diagnostic. -/
def fieldNames : List String :=
  ["code", "instruction", "line", "message", "notes", "severity", "suggestion"]

/-- Whether the fields of an object tell a diagnostic: each name at most once and no other ones, and
behind it what the diagnostic has of it, if it has any. -/
structure Tells (fields : List (String × Json)) (diagnostic : Diagnostic) : Prop where
  distinct : (fields.map Prod.fst).Nodup
  known : ∀ name ∈ fields.map Prod.fst, name ∈ fieldNames
  severity : fields.lookup "severity" = some (.string diagnostic.severity.name)
  message : fields.lookup "message" = some (.string diagnostic.message)
  notes : fields.lookup "notes" = some (.array (diagnostic.notes.map .string))
  code : fields.lookup "code" = diagnostic.code.map .string
  suggestion : fields.lookup "suggestion" = diagnostic.suggestion.map .string
  instruction : fields.lookup "instruction" =
    diagnostic.location.map fun location => .ofNat location.instruction
  /-- The line is left out where it is unknown. -/
  line : fields.lookup "line" =
    (diagnostic.location.filter fun location => location.line ≠ 0).map fun location =>
      .ofNat location.line.toNat

def placeOf (instruction line : Option Nat) : Option Location :=
  instruction.map fun instruction => ⟨instruction, .ofNat (line.getD 0)⟩

def ofJson? (value : Json) : Option Diagnostic := do
  let severity ← Severity.ofName? (← (← value.field? "severity").text?)
  let message ← (← value.field? "message").text?
  let notes ← (← value.field? "notes").texts?
  some
    { severity, message, notes
      code := (value.field? "code").bind text?
      location := placeOf ((value.field? "instruction").bind nat?) ((value.field? "line").bind nat?)
      suggestion := (value.field? "suggestion").bind text? }

/-- A place is known by its instruction, and by its line unless that is zero. -/
theorem placeOf_location (place : Option Location) :
    placeOf (place.map Location.instruction)
      ((place.filter fun location => location.line ≠ 0).map fun location => location.line.toNat) =
        place := by
  rcases place with _ | ⟨instruction, line⟩
  · rfl
  · by_cases hline : line = 0 <;> simp [placeOf, Option.filter_some, hline]

/-- What is told is enough to make the diagnostic again. -/
theorem Tells.ofJson? {fields : List (String × Json)} {diagnostic : Diagnostic}
    (h : Tells fields diagnostic) : ofJson? (.object fields) = some diagnostic := by
  simp only [Diagnostic.ofJson?, field?, h.severity, h.message, h.notes, h.code, h.suggestion,
    h.instruction, h.line, Option.bind_eq_bind, Option.bind_some, text?, Severity.ofName?_name,
    texts?_array, bind_text?, bind_nat?, placeOf_location]

/-! ## What is written -/

section
variable {α : Type} {name key : String} {x : Option α} {json : α → Json}

/-- Behind a name stands what the field of that name has. -/
theorem lookup_field : (field name x json).lookup name = x.map json := by
  cases x with
  | none => rfl
  | some x => simp [field]

/-- A field is not found behind another name. -/
theorem lookup_field_of_ne (h : key ≠ name) : (field name x json).lookup key = none := by
  cases x with
  | none => rfl
  | some x =>
      have hkey : (key == name) = false := beq_eq_false_iff_ne.2 h
      simp [field, List.lookup_cons, hkey]

/-- A field has its own name or is missing. -/
theorem field_sublist : ((field name x json).map Prod.fst).Sublist [name] := by
  cases x with
  | none => exact List.nil_sublist _
  | some x => exact List.Sublist.refl _

theorem proper_field (h : ∀ y, Proper (json y)) :
    ∀ entry ∈ field name x json, Proper entry.2 := by
  intro entry hentry
  cases x with
  | none => cases hentry
  | some y => exact List.mem_singleton.1 hentry ▸ h y

end

/-- What is written of a line that may be unknown. -/
theorem line?_eq (diagnostic : Diagnostic) :
    diagnostic.line?.map (fun line => Json.ofNat line.toNat) =
      (diagnostic.location.filter fun location => location.line ≠ 0).map fun location =>
        .ofNat location.line.toNat := by
  rcases hplace : diagnostic.location with _ | ⟨instruction, line⟩
  · simp [line?, hplace]
  · by_cases hline : line = 0 <;> simp [line?, hplace, hline]

/-- What is written tells the diagnostic. -/
theorem tells_toJson (diagnostic : Diagnostic) :
    ∃ fields, diagnostic.toJson = .object fields ∧ Tells fields diagnostic := by
  refine ⟨_, rfl, ?_⟩
  generalize hfields : _ ++ field "suggestion" diagnostic.suggestion .string = fields
  have hline := line?_eq diagnostic
  -- The fields are written in the order of their names, some of them left out.
  have hnames : (fields.map Prod.fst).Sublist fieldNames := by
    change List.Sublist _
      (["code"] ++ ["instruction"] ++ ["line"] ++ ["message", "notes", "severity"] ++
        ["suggestion"])
    rw [← hfields]
    simp only [List.map_append]
    exact (((field_sublist.append field_sublist).append field_sublist).append (.refl _)).append
      field_sublist
  constructor
  case distinct => exact hnames.nodup (by decide)
  case known => exact fun name hname => hnames.subset hname
  all_goals
    rw [← hfields]
    simp [List.lookup_append, List.lookup_cons, lookup_field, lookup_field_of_ne, hline]

/-- Nothing in the value of a diagnostic is a number that cannot be read. -/
theorem proper_toJson (diagnostic : Diagnostic) : Proper diagnostic.toJson := by
  refine .object fun entry hentry => ?_
  simp only [List.mem_append, List.mem_cons, List.not_mem_nil, or_false] at hentry
  rcases hentry with (((hentry | hentry) | hentry) | (rfl | rfl | rfl)) | hentry
  · exact proper_field .string entry hentry
  · exact proper_field (fun _ => proper_ofNat _) entry hentry
  · exact proper_field (fun _ => proper_ofNat _) entry hentry
  · exact .string _
  · refine .array fun note hnote => ?_
    rcases List.mem_map.1 hnote with ⟨text, -, rfl⟩
    exact .string text
  · exact .string _
  · exact proper_field .string entry hentry

/-- The text of a diagnostic is one line, since no control character stands in it, and it is read as
an object that tells the diagnostic and nothing else.  The diagnostic can be made from it again, so
no other one has the same text. -/
theorem json_loses_nothing (diagnostic : Diagnostic) :
    (∀ c ∈ diagnostic.toJson.compact.toList, 0x20 ≤ c.toNat) ∧
      (∃ fields, read? diagnostic.toJson.compact = some (.object fields) ∧
        Tells fields diagnostic) ∧
      (read? diagnostic.toJson.compact).bind ofJson? = some diagnostic ∧
      ∀ other : Diagnostic, other.toJson.compact = diagnostic.toJson.compact ↔
        other = diagnostic := by
  have hremade (diagnostic : Diagnostic) :
      (read? diagnostic.toJson.compact).bind ofJson? = some diagnostic := by
    rcases tells_toJson diagnostic with ⟨fields, hfields, htells⟩
    rw [read?_compact (proper_toJson diagnostic), Option.bind_some, hfields, htells.ofJson?]
  rcases tells_toJson diagnostic with ⟨fields, hfields, htells⟩
  refine ⟨?_, ⟨fields, ?_, htells⟩, hremade diagnostic, fun other => ⟨fun h => ?_, ?_⟩⟩
  · rw [compact, String.toList_ofList]
    exact (proper_toJson diagnostic).visible
  · rw [read?_compact (proper_toJson diagnostic), hfields]
  · have hother := hremade other
    rw [h, hremade diagnostic] at hother
    exact (Option.some.inj hother).symm
  · rintro rfl
    rfl

/-- A place without a line is told by its instruction alone, and a text may hold anything. -/
example :
    (toJson { message := "\"a\\\n\x00", location := some ⟨4, 0⟩ }).compact =
      "\x7b\"instruction\":4,\"message\":\"\\\"a\\\\\\n\\u0000\"," ++
        "\"notes\":[],\"severity\":\"error\"\x7d" := by
  decide +kernel

end Diagnostic
end CellMachine
