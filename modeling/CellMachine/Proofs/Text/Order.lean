import Mathlib
import CellMachine.Proofs.Text.Utf8

/-!
# The order of texts

Texts are ordered by their characters, the first one that differs decides.  The bytes of texts are
in the same order: `Utf8.encode_lt_encode_iff`.
-/

namespace CellMachine
namespace Utf8

/-- The first byte decides, unless it is the same. -/
theorem cons_lt_cons {m n : Nat} {rest rest' : Bytes} (hle : m ≤ n) (hn : n < 256)
    (h : m = n → rest < rest') : UInt8.ofNat m :: rest < UInt8.ofNat n :: rest' := by
  have hm : (UInt8.ofNat m).toNat = m := UInt8.toNat_ofNat_of_lt' (Nat.lt_of_le_of_lt hle hn)
  rw [List.cons_lt_cons_iff, UInt8.lt_iff_toNat_lt, hm, UInt8.toNat_ofNat_of_lt' hn]
  rcases Nat.lt_or_eq_of_le hle with hlt | rfl
  · exact .inl hlt
  · exact .inr ⟨rfl, h rfl⟩

theorem cons_lt_cons_of_lt {m n : Nat} {rest rest' : Bytes} (hlt : m < n) (hn : n < 256) :
    UInt8.ofNat m :: rest < UInt8.ofNat n :: rest' :=
  cons_lt_cons hlt.le hn fun h => absurd h hlt.ne

/-- The bytes of two different characters differ before one of them ends. -/
theorem encodeChar_append_lt {c d : Char} (h : c < d) (rest rest' : Bytes) :
    String.utf8EncodeChar c ++ rest < String.utf8EncodeChar d ++ rest' := by
  obtain ⟨m, hm⟩ : ∃ m, c.val.toNat = m := ⟨_, rfl⟩
  obtain ⟨n, hn⟩ : ∃ n, d.val.toNat = n := ⟨_, rfl⟩
  have hlt : m < n := by
    rw [← hm, ← hn]
    exact UInt32.lt_iff_toNat_lt.1 h
  have hvalid : n < 0xd800 ∨ 0xdfff < n ∧ n < 0x110000 := hn ▸ d.valid
  rw [String.utf8EncodeChar.eq_1, String.utf8EncodeChar.eq_1, hm, hn]
  -- Of two lengths, the shorter one has the smaller first byte.
  split_ifs
  · exact cons_lt_cons_of_lt hlt (by omega)
  · exact cons_lt_cons_of_lt (by omega) (by omega)
  · exact cons_lt_cons_of_lt (by omega) (by omega)
  · exact cons_lt_cons_of_lt (by omega) (by omega)
  · omega
  · exact cons_lt_cons (by omega) (by omega) fun _ => cons_lt_cons_of_lt (by omega) (by omega)
  · exact cons_lt_cons_of_lt (by omega) (by omega)
  · exact cons_lt_cons_of_lt (by omega) (by omega)
  · omega
  · omega
  · exact cons_lt_cons (by omega) (by omega) fun _ => cons_lt_cons (by omega) (by omega) fun _ =>
      cons_lt_cons_of_lt (by omega) (by omega)
  · exact cons_lt_cons_of_lt (by omega) (by omega)
  · omega
  · omega
  · omega
  · exact cons_lt_cons (by omega) (by omega) fun _ => cons_lt_cons (by omega) (by omega) fun _ =>
      cons_lt_cons (by omega) (by omega) fun _ => cons_lt_cons_of_lt (by omega) (by omega)

/-- A list of characters that comes before another one has bytes that come before the other's. -/
theorem bytes_lt_bytes {cs ds : List Char} (h : cs < ds) : bytes cs < bytes ds := by
  induction h with
  | @nil d ds =>
      obtain ⟨b, rest, hbytes⟩ := List.exists_cons_of_ne_nil
        (bytes_ne_nil (List.cons_ne_nil d ds))
      rw [hbytes]
      exact List.nil_lt_cons b rest
  | @cons d cs ds _ ih =>
      rw [bytes_cons, bytes_cons]
      exact List.append_left_lt ih
  | @rel c cs d ds hcd =>
      rw [bytes_cons, bytes_cons]
      exact encodeChar_append_lt hcd _ _

/-- One text comes before another one exactly if its bytes do. -/
theorem encode_lt_encode_iff (s t : String) : encode s < encode t ↔ s < t := by
  rw [encode_eq, encode_eq, String.lt_iff_toList_lt]
  refine ⟨fun h => ?_, bytes_lt_bytes⟩
  rcases lt_trichotomy s.toList t.toList with hlt | heq | hgt
  · exact hlt
  · rw [heq] at h
    exact absurd h (List.lt_irrefl _)
  · exact absurd (bytes_lt_bytes hgt) (List.lt_asymm h)

end Utf8
end CellMachine
