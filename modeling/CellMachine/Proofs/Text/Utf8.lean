import Mathlib
import CellMachine.Text.Utf8

/-!
# Reading what was written

The bytes of a text are those of its characters, one character after the other, and the first piece
of the bytes of a character is that character.  So both readers give back the text whose bytes they
read: no piece of it is broken.

Conversely, a piece that is not broken consists of the bytes of its character, so that
`Utf8.decode?` accepts the bytes of texts and no others.
-/

namespace CellMachine
namespace Utf8

/-! ## Bytes of characters -/

def bytes (cs : List Char) : Bytes :=
  cs.flatMap String.utf8EncodeChar

theorem bytes_append (cs ds : List Char) : bytes (cs ++ ds) = bytes cs ++ bytes ds :=
  List.flatMap_append

theorem bytes_cons (c : Char) (cs : List Char) :
    bytes (c :: cs) = String.utf8EncodeChar c ++ bytes cs :=
  List.flatMap_cons

theorem toList_loop (array : ByteArray) (i : Nat) (done : Bytes) :
    ByteArray.toList.loop array i done = done.reverse ++ array.data.toList.drop i := by
  fun_induction ByteArray.toList.loop array i done with
  | case1 i done h ih =>
      have hi : i < array.data.toList.length := by simpa using h
      rw [ih, List.drop_eq_getElem_cons hi]
      simp [ByteArray.get!, h]
  | case2 i done h =>
      rw [List.drop_eq_nil_of_le (by simpa using Nat.le_of_not_lt h), List.append_nil]

/-- The bytes of a text are those of its characters. -/
theorem encode_eq (s : String) : encode s = bytes s.toList := by
  have harray : s.toUTF8 = (bytes s.toList).toByteArray := String.utf8Encode_toList.symm
  rw [encode, harray, ByteArray.toList, toList_loop, List.toList_data_toByteArray]
  rfl

theorem length_bytes (s : String) : (bytes s.toList).length = s.utf8ByteSize := by
  have harray : s.toByteArray = (bytes s.toList).toByteArray := String.utf8Encode_toList.symm
  rw [← String.size_toByteArray, harray, List.size_toByteArray]

/-- A character of the first block is one byte. -/
theorem bytes_of_ascii {c : Char} (h : c.toNat ≤ 0x7f) :
    String.utf8EncodeChar c = [UInt8.ofNat c.toNat] := by
  rw [String.utf8EncodeChar.eq_1]
  exact if_pos h

theorem bytes_of_all_ascii {cs : List Char} (h : ∀ c ∈ cs, c.toNat ≤ 0x7f) :
    bytes cs = cs.map fun c => UInt8.ofNat c.toNat := by
  induction cs with
  | nil => rfl
  | cons c cs ih =>
      rw [bytes_cons, bytes_of_ascii (h c (List.mem_cons_self ..)),
        ih fun d hd => h d (List.mem_cons_of_mem _ hd)]
      rfl

/-! ## The first piece -/

/-- The ranges of the bytes that follow the first one of a character with three bytes. -/
theorem lead?_three : ∀ m < 16, lead? (UInt8.ofNat (m + 224)) =
    some (m, [if m = 0 then (0xa0, 0xbf) else if m = 13 then (0x80, 0x9f) else (0x80, 0xbf),
      (0x80, 0xbf)]) := by
  decide

/-- The ranges of the bytes that follow the first one of a character with four bytes. -/
theorem lead?_four : ∀ m < 5, lead? (UInt8.ofNat (m + 240)) =
    some (m, [if m = 0 then (0x90, 0xbf) else if m = 4 then (0x80, 0x8f) else (0x80, 0xbf),
      (0x80, 0xbf), (0x80, 0xbf)]) := by
  decide

theorem lead?_two : ∀ m < 32, m < 2 ∨
    lead? (UInt8.ofNat (m + 192)) = some (m, [(0x80, 0xbf)]) := by
  decide

theorem lead?_one {n : Nat} (h : n ≤ 0x7f) : lead? (UInt8.ofNat n) = some (n, []) := by
  have hn : (UInt8.ofNat n).toNat = n := UInt8.toNat_ofNat_of_lt' (by
    rw [UInt8.size]
    omega)
  rw [lead?, hn]
  exact if_pos h

/-- A byte in its range contributes six bits. -/
theorem follow_cons {code m : Nat} {range : UInt8 × UInt8} {ranges : List (UInt8 × UInt8)}
    {rest : Bytes} (hm : m < 64) (h : range.1.toNat ≤ m + 128 ∧ m + 128 ≤ range.2.toNat) :
    follow code (range :: ranges) (UInt8.ofNat (m + 128) :: rest) =
      follow (code * 64 + m) ranges rest := by
  have hbyte : (UInt8.ofNat (m + 128)).toNat = m + 128 := UInt8.toNat_ofNat_of_lt' (by
    rw [UInt8.size]
    omega)
  rw [follow, if_pos, hbyte, Nat.add_sub_cancel]
  rw [UInt8.le_iff_toNat_le, UInt8.le_iff_toNat_le, hbyte]
  exact h

/-- In the usual range, any six bits are allowed. -/
theorem follow_usual {code m : Nat} {ranges : List (UInt8 × UInt8)} {rest : Bytes} (hm : m < 64) :
    follow code ((0x80, 0xbf) :: ranges) (UInt8.ofNat (m + 128) :: rest) =
      follow (code * 64 + m) ranges rest :=
  follow_cons hm ⟨Nat.le_add_left 128 m, Nat.add_le_add_right (Nat.le_of_lt_succ hm) 128⟩

theorem piece_of_follow {b : UInt8} {tail rest : Bytes} {code n : Nat}
    {ranges : List (UInt8 × UInt8)} (hlead : lead? b = some (code, ranges))
    (hfollow : follow code ranges tail = (some n, rest)) :
    piece b tail = (some (Char.ofNat n), rest) := by
  simp only [piece, hlead, hfollow, Option.map_some]

/-- The first piece of the bytes of a character is that character. -/
theorem exists_piece (c : Char) (rest : Bytes) :
    ∃ b tail, String.utf8EncodeChar c ++ rest = b :: tail ∧ piece b tail = (some c, rest) := by
  obtain ⟨n, hn⟩ : ∃ n, c.val.toNat = n := ⟨_, rfl⟩
  have hchar : Char.ofNat n = c := hn ▸ Char.ofNat_toNat c
  have hvalid : n < 0xd800 ∨ 0xdfff < n ∧ n < 0x110000 := hn ▸ c.valid
  rw [String.utf8EncodeChar.eq_1, hn, ← hchar]
  -- The length of a character fixes its first byte; the ranges of the second byte leave out what
  -- would be shorter, a surrogate or too large.
  split
  · rename_i hone
    refine ⟨_, rest, rfl, piece_of_follow (lead?_one hone) ?_⟩
    rw [follow]
  split
  · rename_i hone htwo
    refine ⟨UInt8.ofNat (n / 64 % 32 + 192), UInt8.ofNat (n % 64 + 128) :: rest, rfl,
      piece_of_follow ((lead?_two _ (by omega)).resolve_left (by omega)) ?_⟩
    rw [follow_usual (by omega), follow]
    exact congrArg (fun k => (some k, rest)) (by omega)
  split
  · rename_i hone htwo hthree
    refine ⟨UInt8.ofNat (n / 4096 % 16 + 224),
      UInt8.ofNat (n / 64 % 64 + 128) :: UInt8.ofNat (n % 64 + 128) :: rest, rfl,
      piece_of_follow (lead?_three _ (by omega)) ?_⟩
    rw [follow_cons (by omega) (by split_ifs <;> simp <;> omega), follow_usual (by omega), follow]
    exact congrArg (fun k => (some k, rest)) (by omega)
  · rename_i hone htwo hthree
    refine ⟨UInt8.ofNat (n / 262144 % 8 + 240),
      UInt8.ofNat (n / 4096 % 64 + 128) :: UInt8.ofNat (n / 64 % 64 + 128) ::
        UInt8.ofNat (n % 64 + 128) :: rest, rfl,
      piece_of_follow (lead?_four _ (by omega)) ?_⟩
    rw [follow_cons (by omega) (by split_ifs <;> simp <;> omega), follow_usual (by omega),
      follow_usual (by omega), follow]
    exact congrArg (fun k => (some k, rest)) (by omega)

/-! ## What a piece was written from -/

/-- The bytes of the character with a code. -/
theorem encodeChar_ofNat {n : Nat} (h : n.isValidChar) :
    String.utf8EncodeChar (Char.ofNat n) =
      if n ≤ 0x7f then [UInt8.ofNat n]
      else if n ≤ 0x7ff then [UInt8.ofNat (n / 64 % 32 + 192), UInt8.ofNat (n % 64 + 128)]
      else if n ≤ 0xffff then
        [UInt8.ofNat (n / 4096 % 16 + 224), UInt8.ofNat (n / 64 % 64 + 128),
          UInt8.ofNat (n % 64 + 128)]
      else
        [UInt8.ofNat (n / 262144 % 8 + 240), UInt8.ofNat (n / 4096 % 64 + 128),
          UInt8.ofNat (n / 64 % 64 + 128), UInt8.ofNat (n % 64 + 128)] := by
  have hn : (Char.ofNat n).val.toNat = n := (Char.toNat_ofNat n).trans (if_pos h)
  rw [String.utf8EncodeChar.eq_1, hn]

/-- The bytes that continue a character lie in their ranges, and each of them adds six bits. -/
theorem follow_some {code n : Nat} {ranges : List (UInt8 × UInt8)} {bytes rest : Bytes}
    (h : follow code ranges bytes = (some n, rest)) :
    ∃ taken, bytes = taken ++ rest ∧
      List.Forall₂ (fun b range => range.1 ≤ b ∧ b ≤ range.2) taken ranges ∧
      n = taken.foldl (fun code b => code * 64 + (b.toNat - 0x80)) code := by
  induction ranges generalizing code bytes with
  | nil =>
      cases h
      exact ⟨[], rfl, .nil, rfl⟩
  | cons range ranges ih =>
      cases bytes with
      | nil => cases h
      | cons b bytes =>
          rw [follow] at h
          by_cases hrange : range.1 ≤ b ∧ b ≤ range.2
          · rw [if_pos hrange] at h
            rcases ih h with ⟨taken, rfl, hranges, hn⟩
            refine ⟨b :: taken, rfl, .cons hrange hranges, ?_⟩
            rw [List.foldl_cons]
            exact hn
          · rw [if_neg hrange] at h
            cases h

theorem ofNat_eq {n : Nat} {b : UInt8} (h : n = b.toNat) : UInt8.ofNat n = b := by
  rw [h, UInt8.ofNat_toNat]

/-- What the first byte of a character says about the others. -/
theorem lead?_cases {b : UInt8} {code : Nat} {ranges : List (UInt8 × UInt8)}
    (h : lead? b = some (code, ranges)) :
    (b.toNat ≤ 0x7f ∧ code = b.toNat ∧ ranges = []) ∨
    (0xc2 ≤ b.toNat ∧ b.toNat ≤ 0xdf ∧ code = b.toNat - 0xc0 ∧ ranges = [(0x80, 0xbf)]) ∨
    (∃ low high : UInt8, 0xe0 ≤ b.toNat ∧ b.toNat ≤ 0xef ∧ code = b.toNat - 0xe0 ∧
      ranges = [(low, high), (0x80, 0xbf)] ∧ 0x80 ≤ low.toNat ∧ high.toNat ≤ 0xbf ∧
      (b.toNat = 0xe0 → 0xa0 ≤ low.toNat) ∧ (b.toNat = 0xed → high.toNat ≤ 0x9f)) ∨
    (∃ low high : UInt8, 0xf0 ≤ b.toNat ∧ b.toNat ≤ 0xf4 ∧ code = b.toNat - 0xf0 ∧
      ranges = [(low, high), (0x80, 0xbf), (0x80, 0xbf)] ∧ 0x80 ≤ low.toNat ∧ high.toNat ≤ 0xbf ∧
      (b.toNat = 0xf0 → 0x90 ≤ low.toNat) ∧ (b.toNat = 0xf4 → high.toNat ≤ 0x8f)) := by
  simp only [lead?] at h
  split_ifs at h with hone hbad htwo hlow hhigh hthree hleast hfour hmost <;>
    obtain ⟨rfl, rfl⟩ := Prod.mk.inj (Option.some.inj h)
  · exact .inl ⟨hone, rfl, rfl⟩
  · exact .inr (.inl ⟨by omega, htwo, rfl, rfl⟩)
  · exact .inr (.inr (.inl ⟨0xa0, 0xbf, by omega, by omega, by omega, rfl, by simp [hlow]⟩))
  · exact .inr (.inr (.inl ⟨0x80, 0x9f, by omega, by omega, by omega, rfl, by simp [hhigh]⟩))
  · exact .inr (.inr (.inl ⟨0x80, 0xbf, by omega, by omega, rfl, rfl, by simp [hlow, hhigh]⟩))
  · exact .inr (.inr (.inr ⟨0x90, 0xbf, by omega, by omega, by omega, rfl, by simp [hleast]⟩))
  · exact .inr (.inr (.inr ⟨0x80, 0xbf, by omega, by omega, rfl, rfl, by simp; omega⟩))
  · exact .inr (.inr (.inr ⟨0x80, 0x8f, by omega, by omega, by omega, rfl, by simp; omega⟩))

/-- A byte in a range, in numbers. -/
theorem range_toNat {b low high : UInt8} (h : low ≤ b ∧ b ≤ high) :
    low.toNat ≤ b.toNat ∧ b.toNat ≤ high.toNat :=
  ⟨UInt8.le_iff_toNat_le.1 h.1, UInt8.le_iff_toNat_le.1 h.2⟩

/-- The bytes of a character of the second block. -/
theorem encodeChar_two {b x : UInt8} (hb : 0xc2 ≤ b.toNat ∧ b.toNat ≤ 0xdf)
    (hx : 0x80 ≤ x.toNat ∧ x.toNat ≤ 0xbf) :
    String.utf8EncodeChar (Char.ofNat ((b.toNat - 0xc0) * 64 + (x.toNat - 0x80))) = [b, x] := by
  rw [encodeChar_ofNat (.inl (by omega)), if_neg (by omega), if_pos (by omega),
    ofNat_eq (b := b) (by omega), ofNat_eq (b := x) (by omega)]

/-- The bytes of a character of the third block: the second byte shuts out what is shorter and the
surrogates. -/
theorem encodeChar_three {b x y : UInt8} (hb : 0xe0 ≤ b.toNat ∧ b.toNat ≤ 0xef)
    (hx : 0x80 ≤ x.toNat ∧ x.toNat ≤ 0xbf) (hy : 0x80 ≤ y.toNat ∧ y.toNat ≤ 0xbf)
    (hleast : b.toNat = 0xe0 → 0xa0 ≤ x.toNat) (hsurrogate : b.toNat = 0xed → x.toNat ≤ 0x9f) :
    String.utf8EncodeChar (Char.ofNat (((b.toNat - 0xe0) * 64 + (x.toNat - 0x80)) * 64 +
      (y.toNat - 0x80))) = [b, x, y] := by
  have hvalid :
      (((b.toNat - 0xe0) * 64 + (x.toNat - 0x80)) * 64 + (y.toNat - 0x80)).isValidChar := by
    unfold Nat.isValidChar
    omega
  rw [encodeChar_ofNat hvalid, if_neg (by omega), if_neg (by omega), if_pos (by omega),
    ofNat_eq (b := b) (by omega), ofNat_eq (b := x) (by omega), ofNat_eq (b := y) (by omega)]

/-- The bytes of a character of the last block. -/
theorem encodeChar_four {b x y z : UInt8} (hb : 0xf0 ≤ b.toNat ∧ b.toNat ≤ 0xf4)
    (hx : 0x80 ≤ x.toNat ∧ x.toNat ≤ 0xbf) (hy : 0x80 ≤ y.toNat ∧ y.toNat ≤ 0xbf)
    (hz : 0x80 ≤ z.toNat ∧ z.toNat ≤ 0xbf) (hleast : b.toNat = 0xf0 → 0x90 ≤ x.toNat)
    (hmost : b.toNat = 0xf4 → x.toNat ≤ 0x8f) :
    String.utf8EncodeChar (Char.ofNat ((((b.toNat - 0xf0) * 64 + (x.toNat - 0x80)) * 64 +
      (y.toNat - 0x80)) * 64 + (z.toNat - 0x80))) = [b, x, y, z] := by
  have hvalid : ((((b.toNat - 0xf0) * 64 + (x.toNat - 0x80)) * 64 + (y.toNat - 0x80)) * 64 +
      (z.toNat - 0x80)).isValidChar := by
    unfold Nat.isValidChar
    omega
  rw [encodeChar_ofNat hvalid, if_neg (by omega), if_neg (by omega), if_neg (by omega),
    ofNat_eq (b := b) (by omega), ofNat_eq (b := x) (by omega), ofNat_eq (b := y) (by omega),
    ofNat_eq (b := z) (by omega)]

/-- The bytes of a first byte and those that continue it are the bytes of one character. -/
theorem encodeChar_of_follow {b : UInt8} {code n : Nat} {ranges : List (UInt8 × UInt8)}
    {tail rest : Bytes} (hlead : lead? b = some (code, ranges))
    (hfollow : follow code ranges tail = (some n, rest)) :
    b :: tail = String.utf8EncodeChar (Char.ofNat n) ++ rest := by
  rcases follow_some hfollow with ⟨taken, rfl, hranges, rfl⟩
  rw [← List.cons_append]
  refine congrArg (· ++ rest) ?_
  have husual {x : UInt8} (h : (0x80 : UInt8) ≤ x ∧ x ≤ (0xbf : UInt8)) :
      0x80 ≤ x.toNat ∧ x.toNat ≤ 0xbf := range_toNat h
  -- The first byte tells how many follow: none, one, two or three.
  rcases lead?_cases hlead with ⟨hb, hcode, rfl⟩ | ⟨hlow, hhigh, hcode, rfl⟩ |
    ⟨low, high, hb, hb', hcode, rfl, hrange⟩ | ⟨low, high, hb, hb', hcode, rfl, hrange⟩
  · rw [List.forall₂_nil_right_iff.1 hranges, List.foldl_nil, hcode,
      encodeChar_ofNat (.inl (by omega)), if_pos hb, UInt8.ofNat_toNat]
  · rcases List.forall₂_cons_right_iff.1 hranges with ⟨x, _, hx, hnil, rfl⟩
    rw [List.forall₂_nil_right_iff.1 hnil, List.foldl_cons, List.foldl_nil, hcode]
    exact (encodeChar_two ⟨hlow, hhigh⟩ (husual hx)).symm
  · rcases List.forall₂_cons_right_iff.1 hranges with ⟨x, _, hx, hmore, rfl⟩
    rcases List.forall₂_cons_right_iff.1 hmore with ⟨y, _, hy, hnil, rfl⟩
    have hbounds : low.toNat ≤ x.toNat ∧ x.toNat ≤ high.toNat := range_toNat hx
    rw [List.forall₂_nil_right_iff.1 hnil, List.foldl_cons, List.foldl_cons, List.foldl_nil, hcode]
    exact (encodeChar_three ⟨hb, hb'⟩ (by omega) (husual hy) (by omega) (by omega)).symm
  · rcases List.forall₂_cons_right_iff.1 hranges with ⟨x, _, hx, hmore, rfl⟩
    rcases List.forall₂_cons_right_iff.1 hmore with ⟨y, _, hy, hlast, rfl⟩
    rcases List.forall₂_cons_right_iff.1 hlast with ⟨z, _, hz, hnil, rfl⟩
    have hbounds : low.toNat ≤ x.toNat ∧ x.toNat ≤ high.toNat := range_toNat hx
    rw [List.forall₂_nil_right_iff.1 hnil, List.foldl_cons, List.foldl_cons, List.foldl_cons,
      List.foldl_nil, hcode]
    exact (encodeChar_four ⟨hb, hb'⟩ (by omega) (husual hy) (husual hz) (by omega)
      (by omega)).symm

/-- The bytes of a piece that is a character are the bytes of that character. -/
theorem encodeChar_of_piece {b : UInt8} {tail rest : Bytes} {c : Char}
    (h : piece b tail = (some c, rest)) : b :: tail = String.utf8EncodeChar c ++ rest := by
  cases hlead : lead? b with
  | none =>
      rw [piece, hlead] at h
      cases h
  | some start =>
      rcases start with ⟨code, ranges⟩
      cases hfollow : follow code ranges tail with
      | mk n? left =>
          simp only [piece, hlead, hfollow, Prod.mk.injEq] at h
          rcases h with ⟨hchar, rfl⟩
          rcases Option.map_eq_some_iff.1 hchar with ⟨n, rfl, rfl⟩
          exact encodeChar_of_follow hlead hfollow

/-! ## Texts -/

theorem pieces_bytes (cs : List Char) : pieces (bytes cs) = cs.map some := by
  induction cs with
  | nil =>
      rw [bytes, List.flatMap_nil, pieces]
      rfl
  | cons c cs ih =>
      rcases exists_piece c (bytes cs) with ⟨b, tail, hbytes, hpiece⟩
      rw [bytes_cons, hbytes, pieces, hpiece, ih]
      rfl

theorem decode?_bytes (cs : List Char) : decode? (bytes cs) = some cs := by
  rw [decode?, pieces_bytes]
  induction cs with
  | nil => rfl
  | cons c cs ih => rw [List.map_cons, List.mapM_cons, ih]; rfl

theorem decodeLossy_bytes (cs : List Char) : decodeLossy (bytes cs) = cs := by
  rw [decodeLossy, pieces_bytes, List.map_map]
  exact List.map_id cs

/-- Bytes are read as a text exactly if they are the bytes of that text. -/
theorem decode?_eq_some_iff {input : Bytes} {cs : List Char} :
    decode? input = some cs ↔ input = bytes cs := by
  refine ⟨fun h => ?_, fun h => h ▸ decode?_bytes cs⟩
  rw [decode?] at h
  -- By induction on the pieces of the bytes, for every text.
  induction input using pieces.induct generalizing cs with
  | case1 =>
      rw [pieces] at h
      cases h
      rfl
  | case2 b rest ih =>
      rw [pieces, List.mapM_cons] at h
      rcases Option.bind_eq_some_iff.1 h with ⟨c, hc, h⟩
      rcases Option.bind_eq_some_iff.1 h with ⟨cs', hcs, h⟩
      cases h
      rw [bytes_cons, ← ih hcs]
      exact encodeChar_of_piece (Prod.ext hc rfl)

theorem bytes_ne_nil {cs : List Char} (h : cs ≠ []) : bytes cs ≠ [] := by
  intro hnil
  have hdecode := decode?_bytes cs
  rw [hnil] at hdecode
  exact h (Option.some.inj (hdecode.symm.trans (decode?_bytes [])))

end Utf8
end CellMachine
