import Mathlib
import CellMachine.Program.Reader
import CellMachine.Program.Writer
import CellMachine.Proofs.Number.Decimal
import CellMachine.Proofs.Text.Utf8

/-!
# What readers take

A token ends where a blank byte or the end of the input follows, so what a reader takes depends on
what comes after it.  `Reader.Reads` says that a reader takes certain characters and yields an
answer whenever a token may end there.  Pieces that start with a blank can be put one after the
other, and the blank in front of each of them ends the one before.

A text is taken by its length in bytes, so its own blanks and digits do not matter.

`Reader.Gives` is about all answers of a reader, whatever the bytes are.
-/

namespace CellMachine
namespace Reader

/-! ## Pieces -/

/-- Whether a token may end before these bytes. -/
def Ends (rest : Bytes) : Prop :=
  ∀ b, rest.head? = some b → Blank.isByte b = true

/-- Whether a piece is empty or starts with a space or a line end. -/
def Separated (cs : List Char) : Prop :=
  ∀ c, cs.head? = some c → c = ' ' ∨ c = '\n'

/-- Whether a reader takes these characters and yields this answer, whatever follows. -/
def Reads {α : Type} (m : Reader α) (cs : List Char) (x : α) : Prop :=
  ∀ rest, Ends rest → m.run (Utf8.bytes cs ++ rest) = .ok (x, rest)

theorem isByte_of_separator {c : Char} (h : c = ' ' ∨ c = '\n') :
    c.toNat ≤ 0x7f ∧ Blank.isByte (UInt8.ofNat c.toNat) = true := by
  rcases h with rfl | rfl <;> decide

theorem isByte_of_visible {n : Nat} (h : 0x20 < n ∧ n ≤ 0x7f) :
    Blank.isByte (UInt8.ofNat n) = false := by
  have hn : (UInt8.ofNat n).toNat = n := UInt8.toNat_ofNat_of_lt' (by
    rw [UInt8.size]
    omega)
  have hne (m : UInt8) (hm : m.toNat ≤ 0x20) : UInt8.ofNat n ≠ m := by
    intro heq
    rw [heq] at hn
    omega
  simp only [Blank.isByte, hne 0x20 (by decide), hne 0x09 (by decide), hne 0x0a (by decide),
    hne 0x0c (by decide), hne 0x0d (by decide), or_self, decide_false]

theorem Separated.nil : Separated [] :=
  fun _ h => nomatch h

theorem Separated.cons {c : Char} (h : c = ' ' ∨ c = '\n') (cs : List Char) :
    Separated (c :: cs) := by
  rintro _ ⟨⟩
  exact h

/-- A piece that is separated ends the token before it. -/
theorem Separated.ends {cs : List Char} (hcs : Separated cs) {rest : Bytes} (h : Ends rest) :
    Ends (Utf8.bytes cs ++ rest) := by
  cases cs with
  | nil => exact h
  | cons c cs =>
      rcases isByte_of_separator (hcs c rfl) with ⟨hascii, hblank⟩
      rw [Utf8.bytes_cons, Utf8.bytes_of_ascii hascii]
      rintro b ⟨⟩
      exact hblank

theorem lead_newline : ∀ c ∈ ['\n'], c = ' ' ∨ c = '\n' :=
  fun _ hc => .inr (List.mem_singleton.1 hc)

theorem lead_space : ∀ c ∈ [' '], c = ' ' ∨ c = '\n' :=
  fun _ hc => .inl (List.mem_singleton.1 hc)

variable {α β : Type}

/-- A reader that succeeds hands over what is left. -/
theorem run_bind_of_ok {m : Reader α} {f : α → Reader β} {bytes rest : Bytes} {x : α}
    (h : m.run bytes = .ok (x, rest)) : (m >>= f).run bytes = (f x).run rest := by
  rw [StateT.run_bind, h]
  rfl

theorem Reads.pure (x : α) : Reads (pure x) [] x :=
  fun _ _ => rfl

/-- Two pieces are read one after the other if the second one is separated from the first. -/
theorem Reads.bind {m : Reader α} {f : α → Reader β} {cs ds : List Char} {x : α} {y : β}
    (hm : Reads m cs x) (hds : Separated ds) (hf : Reads (f x) ds y) :
    Reads (m >>= f) (cs ++ ds) y := by
  intro rest hrest
  rw [Utf8.bytes_append, List.append_assoc, run_bind_of_ok (hm _ (hds.ends hrest))]
  exact hf rest hrest

/-- What is done with an answer may take nothing. -/
theorem Reads.next {m : Reader α} {f : α → Reader β} {cs : List Char} {x : α} {y : β}
    (hm : Reads m cs x) (hf : Reads (f x) [] y) : Reads (m >>= f) cs y := by
  have hbind := hm.bind Separated.nil hf
  rwa [List.append_nil] at hbind

/-! ## Tokens -/

/-- Bytes up to a blank one, or up to the end, are taken together. -/
theorem span_of_ends {solid rest : Bytes} (hsolid : ∀ b ∈ solid, Blank.isByte b = false)
    (hrest : Ends rest) :
    (solid ++ rest).takeWhile (fun b => !Blank.isByte b) = solid ∧
      (solid ++ rest).dropWhile (fun b => !Blank.isByte b) = rest := by
  have hall : ∀ b ∈ solid, (!Blank.isByte b) = true := by
    intro b hb
    rw [hsolid b hb, Bool.not_false]
  rw [List.takeWhile_append_of_pos hall, List.dropWhile_append_of_pos hall]
  cases rest with
  | nil => exact ⟨List.append_nil solid, rfl⟩
  | cons b rest =>
      have hb := hrest b rfl
      simp [hb]

/-- Blanks and a run of bytes that are not blank are read as the text of that run. -/
theorem token_run (part : Section) {blanks rest : Bytes} {word : List Char}
    (hblank : ∀ b ∈ blanks, Blank.isByte b = true) (hne : word ≠ [])
    (hsolid : ∀ b ∈ Utf8.bytes word, Blank.isByte b = false) (hrest : Ends rest) :
    (token part).run (blanks ++ (Utf8.bytes word ++ rest)) = .ok (word, rest) := by
  have hbytesNe := Utf8.bytes_ne_nil hne
  have hstart : (Utf8.bytes word ++ rest).dropWhile Blank.isByte = Utf8.bytes word ++ rest := by
    rcases List.exists_cons_of_ne_nil hbytesNe with ⟨b, bs, hbytes⟩
    have hb := hsolid b (hbytes ▸ List.mem_cons_self ..)
    rw [hbytes, List.cons_append, List.dropWhile_cons_of_neg (by simpa using hb)]
  rcases span_of_ends hsolid hrest with ⟨htake, hdrop⟩
  change token part (blanks ++ (Utf8.bytes word ++ rest)) = _
  rw [token, List.dropWhile_append_of_pos hblank, hstart, htake, hdrop]
  simp only [if_neg hbytesNe, Utf8.decode?_bytes]

/-- What is read as a token is a run of bytes up to a blank one, or up to the end. -/
theorem token_run_ok {part : Section} {bytes rest : Bytes} {cs : List Char}
    (h : (token part).run bytes = .ok (cs, rest)) :
    ∃ blanks, bytes = blanks ++ (Utf8.bytes cs ++ rest) ∧ (∀ b ∈ blanks, Blank.isByte b = true) ∧
      cs ≠ [] ∧ (∀ b ∈ Utf8.bytes cs, Blank.isByte b = false) ∧ Ends rest := by
  change token part bytes = _ at h
  simp only [token] at h
  split at h
  · cases h
  · rename_i hne
    split at h
    · rename_i cs' hdecode
      cases h
      -- What was decoded is what was taken between the blanks.
      have hword := Utf8.decode?_eq_some_iff.1 hdecode
      refine ⟨bytes.takeWhile Blank.isByte, ?_, fun b hb => List.mem_takeWhile_imp hb, ?_, ?_, ?_⟩
      · rw [← hword, List.takeWhile_append_dropWhile, List.takeWhile_append_dropWhile]
      · rintro rfl
        exact hne hword
      · intro b hb
        rw [← hword] at hb
        simpa using List.mem_takeWhile_imp hb
      · intro b hb
        have hhead := List.head?_dropWhile_not (fun b => !Blank.isByte b)
          (bytes.dropWhile Blank.isByte)
        rw [hb] at hhead
        simpa using hhead
    · cases h

/-- A run of visible characters is a token. -/
theorem token_reads (part : Section) {lead word : List Char}
    (hlead : ∀ c ∈ lead, c = ' ' ∨ c = '\n') (hne : word ≠ [])
    (hword : ∀ c ∈ word, 0x20 < c.toNat ∧ c.toNat ≤ 0x7f) :
    Reads (token part) (lead ++ word) word := by
  intro rest hrest
  have hleadBytes := Utf8.bytes_of_all_ascii fun c hc => (isByte_of_separator (hlead c hc)).1
  have hwordBytes := Utf8.bytes_of_all_ascii fun c hc => (hword c hc).2
  have hblank : ∀ b ∈ Utf8.bytes lead, Blank.isByte b = true := by
    rw [hleadBytes]
    intro b hb
    rcases List.mem_map.1 hb with ⟨c, hc, rfl⟩
    exact (isByte_of_separator (hlead c hc)).2
  have hsolid : ∀ b ∈ Utf8.bytes word, Blank.isByte b = false := by
    rw [hwordBytes]
    intro b hb
    rcases List.mem_map.1 hb with ⟨c, hc, rfl⟩
    exact isByte_of_visible (hword c hc)
  rw [Utf8.bytes_append, List.append_assoc]
  exact token_run part hblank hne hsolid hrest

/-- What a token stands for is read from it. -/
theorem parsed_reads (part : Section) {parse? : List Char → Option α} {lead word : List Char}
    {x : α} (hlead : ∀ c ∈ lead, c = ' ' ∨ c = '\n') (hne : word ≠ [])
    (hword : ∀ c ∈ word, 0x20 < c.toNat ∧ c.toNat ≤ 0x7f) (hparse : parse? word = some x) :
    Reads (parsed part parse?) (lead ++ word) x := by
  refine (token_reads part hlead hne hword).next ?_
  simp only [hparse]
  exact Reads.pure x

theorem digits_visible (n : Nat) : ∀ c ∈ Number.digits n, 0x20 < c.toNat ∧ c.toNat ≤ 0x7f := by
  intro c hc
  have hbounds := Number.toNat_of_isDigit (Number.isDigit_of_mem_digits hc)
  omega

/-- The digits of a count are read back, if thirty-two bits hold it. -/
theorem count?_digits {n : Nat} (hn : n < UInt32.size) :
    count? (Number.digits n) = some (UInt32.ofNat n) := by
  have hne := Number.digits_ne_nil n
  have hplus (body : List Char) : Number.digits n ≠ '+' :: body := by
    intro heq
    have hdigit : '+'.isDigit = true :=
      @Number.isDigit_of_mem_digits n _ (heq ▸ List.mem_cons_self ..)
    exact absurd hdigit (by decide)
  have hall : (Number.digits n).all Char.isDigit = true :=
    List.all_eq_true.2 fun c hc => Number.isDigit_of_mem_digits hc
  have hvalue : Number.ofDigits (Number.digits n) = n := Number.ofDigits_digits n
  rw [count?, if_pos ⟨hne, hall, hvalue.symm ▸ hn⟩, hvalue]
  exact hplus

/-- A count is read from its digits. -/
theorem count_reads (part : Section) {lead : List Char} (hlead : ∀ c ∈ lead, c = ' ' ∨ c = '\n')
    {n : Nat} (hn : n < UInt32.size) :
    Reads (count part) (lead ++ Number.digits n) (UInt32.ofNat n) :=
  parsed_reads part hlead (Number.digits_ne_nil n) (digits_visible n) (count?_digits hn)

/-- A number is read from its plain text. -/
theorem number_reads (part : Section) {lead : List Char} (hlead : ∀ c ∈ lead, c = ' ' ∨ c = '\n')
    (x : Float) : Reads (number part) (lead ++ Number.plain x) x :=
  parsed_reads part hlead (Number.plain_visible x).1 (Number.plain_visible x).2
    (Number.parse?_plain x)

/-! ## Texts -/

/-- The byte after a count is skipped, and as many bytes as the count says are taken, whatever they
are. -/
theorem block_run (part : Section) (s : String) {c : Char} (hc : c.toNat ≤ 0x7f) (rest : Bytes) :
    (block part s.utf8ByteSize).run (Utf8.bytes (c :: s.toList) ++ rest) =
      .ok (Utf8.bytes s.toList, rest) := by
  have hlength := Utf8.length_bytes s
  rw [Utf8.bytes_cons, Utf8.bytes_of_ascii hc]
  change block part s.utf8ByteSize (UInt8.ofNat c.toNat :: (Utf8.bytes s.toList ++ rest)) = _
  rw [block, if_neg (by rw [List.length_append]; omega), ← hlength, List.take_left, List.drop_left]

def sizedText (s : String) : List Char :=
  Program.writeNat s.utf8ByteSize ' ' ++ s.toList

/-- A text of any content is read by its length. -/
theorem text_reads (part : Section) {lead : List Char} (hlead : ∀ c ∈ lead, c = ' ' ∨ c = '\n')
    {s : String} (hs : s.utf8ByteSize < UInt32.size) :
    Reads (text part) (lead ++ sizedText s) s := by
  intro rest hrest
  have hsplit : lead ++ sizedText s =
      lead ++ Number.digits s.utf8ByteSize ++ ' ' :: s.toList := by
    simp [sizedText, Program.writeNat]
  have hspace : Separated (' ' :: s.toList) := Separated.cons (.inl rfl) _
  rw [hsplit, Utf8.bytes_append, List.append_assoc, text,
    run_bind_of_ok (count_reads part hlead hs _ (hspace.ends hrest)),
    UInt32.toNat_ofNat_of_lt' hs, run_bind_of_ok (block_run part s (by decide) rest),
    Utf8.decodeLossy_bytes, String.ofList_toList]
  rfl

/-! ## Items -/

/-- Pieces that are separated each are separated together. -/
theorem separated_flatMap {write : α → List Char} {xs : List α}
    (h : ∀ x ∈ xs, Separated (write x)) : Separated (xs.flatMap write) := by
  induction xs with
  | nil => exact Separated.nil
  | cons x xs ih =>
      rw [List.flatMap_cons]
      intro c hc
      cases hx : write x with
      | nil =>
          rw [hx, List.nil_append] at hc
          exact ih (fun y hy => h y (List.mem_cons_of_mem _ hy)) c hc
      | cons d ds =>
          rw [hx] at hc
          exact h x (List.mem_cons_self ..) c (hx ▸ hc)

/-- Items are read one after the other if each of them starts with a blank. -/
theorem items_reads {item : Nat → Reader β} {write : α → List Char} {f : α → β} (xs : List α)
    (hwrite : ∀ x ∈ xs, Separated (write x))
    (hitem : ∀ x ∈ xs, ∀ index, Reads (item index) (write x) (f x)) (index : Nat) :
    Reads (items item index xs.length) (xs.flatMap write) (xs.map f) := by
  -- By induction on the list, for every index of its first item.
  induction xs generalizing index with
  | nil => exact Reads.pure []
  | cons x xs ih =>
      have hseparated := separated_flatMap fun y hy => hwrite y (List.mem_cons_of_mem _ hy)
      rw [List.flatMap_cons, List.map_cons]
      refine (hitem x (List.mem_cons_self ..) index).bind hseparated (Reads.next ?_ (Reads.pure _))
      exact ih (fun y hy => hwrite y (List.mem_cons_of_mem _ hy))
        (fun y hy => hitem y (List.mem_cons_of_mem _ hy)) (index + 1)

/-- A count after a line end is read, and as many items. -/
theorem counted_reads (part : Section) {item : Nat → Reader β} {write : α → List Char} {f : α → β}
    (xs : Array α) (hsize : xs.size < UInt32.size) (hwrite : ∀ x ∈ xs, Separated (write x))
    (hitem : ∀ x ∈ xs, ∀ index, Reads (item index) (write x) (f x)) :
    Reads (counted part item) ('\n' :: Number.digits xs.size ++ xs.toList.flatMap write)
      (xs.map f) := by
  have hcount := count_reads part lead_newline hsize
  have hitems := items_reads xs.toList (fun x hx => hwrite x (Array.mem_toList_iff.1 hx))
    (fun x hx => hitem x (Array.mem_toList_iff.1 hx)) 0
  refine hcount.bind (separated_flatMap fun x hx => hwrite x (Array.mem_toList_iff.1 hx))
    (Reads.next (x := xs.toList.map f) ?_ ?_)
  · rw [UInt32.toNat_ofNat_of_lt' hsize, ← Array.length_toList]
    exact hitems
  · rw [← Array.toList_map, Array.toArray_toList]
    exact Reads.pure _

/-! ## Answers -/

def Gives (m : Reader α) (P : α → Prop) : Prop :=
  ∀ bytes x rest, m.run bytes = .ok (x, rest) → P x

theorem Gives.any (m : Reader α) : Gives m fun _ => True :=
  fun _ _ _ _ => trivial

theorem Gives.pure {x : α} {P : α → Prop} (h : P x) : Gives (pure x) P := by
  rintro bytes _ _ ⟨⟩
  exact h

/-- The answers of two readers in a row are answers of the second. -/
theorem Gives.bind {m : Reader α} {f : α → Reader β} {P : α → Prop} {Q : β → Prop}
    (hm : Gives m P) (hf : ∀ x, P x → Gives (f x) Q) : Gives (m >>= f) Q := by
  intro bytes y rest hrun
  rw [StateT.run_bind] at hrun
  cases hfirst : m.run bytes with
  | error fault =>
      rw [hfirst] at hrun
      cases hrun
  | ok answer =>
      rw [hfirst] at hrun
      exact hf answer.1 (hm bytes answer.1 answer.2 hfirst) answer.2 y rest hrun

/-- Only the last reader of a sequence matters. -/
theorem Gives.last {m : Reader α} {f : α → Reader β} {Q : β → Prop}
    (hf : ∀ x, Gives (f x) Q) : Gives (m >>= f) Q :=
  (Gives.any m).bind fun x _ => hf x

/-- If every item has a property, all items of a list do. -/
theorem Gives.items {item : Nat → Reader α} {P : α → Prop} (h : ∀ index, Gives (item index) P)
    (n index : Nat) : Gives (items item index n) fun xs => ∀ x ∈ xs, P x := by
  induction n generalizing index with
  | zero => exact Gives.pure fun x hx => nomatch hx
  | succ n ih =>
      exact (h index).bind fun x hx => (ih (index + 1)).bind fun xs hxs =>
        Gives.pure (List.forall_mem_cons.2 ⟨hx, hxs⟩)

theorem Gives.counted (part : Section) {item : Nat → Reader α} {P : α → Prop}
    (h : ∀ index, Gives (item index) P) :
    Gives (counted part item) fun xs => ∀ x ∈ xs, P x :=
  Gives.last fun n => (Gives.items h n.toNat 0).bind fun _ hxs =>
    Gives.pure fun x hx => hxs x (List.mem_toArray.1 hx)

end Reader
end CellMachine
