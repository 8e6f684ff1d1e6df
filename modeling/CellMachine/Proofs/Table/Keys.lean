import Mathlib
import CellMachine.Table
import CellMachine.Proofs.Number.Equality

/-!
# Keys

To address the same entry is a partial equivalence of keys: it is symmetric and transitive, and
every key that a cell can be is related to itself.  Both hashes respect it, so keys of the same
entry are looked for in the same chain.
-/

namespace CellMachine

/-! ## Numbers -/

namespace Number

theorem value_of_isZero {x : Float} (h : isZero x = true) :
    ∃ negative, value x = .finite negative 0 := by
  have hmagnitude := (isZero_iff x).1 h
  refine ⟨decide (signBit ≤ x.toBits.toNat), ?_⟩
  rw [value, hmagnitude, if_pos (by decide)]
  rfl

/-- Numbers are the same quantity if they are the same number, or zeros. -/
theorem same_iff (x y : Float) :
    same x y = true ↔ x = y ∧ value x ≠ .nan ∨ isZero x = true ∧ isZero y = true := by
  rw [same]
  split
  · rename_i h
    cases toBits_injective h
    constructor
    · intro hvalue
      exact .inl ⟨rfl, by simpa using hvalue⟩
    · rintro (⟨-, hvalue⟩ | ⟨hzero, -⟩)
      · simpa using hvalue
      · rcases value_of_isZero hzero with ⟨negative, hvalue⟩
        simp [hvalue]
  · rename_i h
    have hne : x ≠ y := fun heq => h (congrArg Float.toBits heq)
    simp [hne]

theorem same_symm {x y : Float} (h : same x y = true) : same y x = true := by
  rw [same_iff] at h ⊢
  rcases h with ⟨rfl, hvalue⟩ | ⟨hx, hy⟩
  · exact .inl ⟨rfl, hvalue⟩
  · exact .inr ⟨hy, hx⟩

/-- Being the same quantity carries over from one number to the next. -/
theorem same_trans {x y z : Float} (hxy : same x y = true) (hyz : same y z = true) :
    same x z = true := by
  rw [same_iff] at hxy hyz ⊢
  rcases hxy with ⟨rfl, -⟩ | ⟨hx, hy⟩
  · exact hyz
  · rcases hyz with ⟨rfl, -⟩ | ⟨-, hz⟩
    · exact .inr ⟨hx, hy⟩
    · exact .inr ⟨hx, hz⟩

/-- Everything that is a number is the same as itself. -/
theorem same_self_iff (x : Float) : same x x = true ↔ value x ≠ .nan := by
  rw [same_iff]
  constructor
  · rintro (⟨-, hvalue⟩ | ⟨hzero, -⟩)
    · exact hvalue
    · rcases value_of_isZero hzero with ⟨negative, hvalue⟩
      simp [hvalue]
  · exact fun hvalue => .inl ⟨rfl, hvalue⟩

end Number

/-! ## Keys -/

namespace Key

/-- Zeros of both signs have one hash, so one chain. -/
theorem hashNumber_of_isZero {x : Float} (h : Number.isZero x = true) : hashNumber x = 0 := by
  rcases Number.value_of_isZero h with ⟨negative, hvalue⟩
  have hint : Number.toInt? x = some 0 := by
    rw [Number.toInt?, hvalue]
    simp only [Nat.zero_mod, if_true, Nat.zero_div]
    cases negative <;> rfl
  rw [hashNumber, hint]
  rfl

variable {k l m : Key}

theorem same_symm (h : k.same l = true) : l.same k = true := by
  cases k with
  | text s =>
      cases l with
      | text t => simpa [same, eq_comm] using h
      | number y => cases h
  | number x =>
      cases l with
      | text t => cases h
      | number y => exact Number.same_symm h

theorem same_comm (k l : Key) : k.same l = l.same k :=
  Bool.eq_iff_iff.2 ⟨same_symm, same_symm⟩

theorem same_trans (hkl : k.same l = true) (hlm : l.same m = true) : k.same m = true := by
  cases k with
  | text s =>
      cases l with
      | number y => cases hkl
      | text t =>
          cases m with
          | number z => cases hlm
          | text u =>
              simp only [same, decide_eq_true_eq] at hkl hlm ⊢
              exact hkl.trans hlm
  | number x =>
      cases l with
      | text t => cases hkl
      | number y =>
          cases m with
          | text u => cases hlm
          | number z => exact Number.same_trans hkl hlm

/-- Keys of the same entry have the same chain. -/
theorem chain_eq_of_same (h : k.same l = true) : k.chain = l.chain := by
  cases k with
  | text s =>
      cases l with
      | number y => cases h
      | text t =>
          simp only [same, decide_eq_true_eq] at h
          rw [h]
  | number x =>
      cases l with
      | text t => cases h
      | number y =>
          -- Zeros of both signs differ in their bits, but the hash is that of the whole number.
          rcases (Number.same_iff x y).1 h with ⟨rfl, -⟩ | ⟨hx, hy⟩
          · rfl
          · rw [chain, chain]
            congr 2
            rw [hashNumber_of_isZero hx, hashNumber_of_isZero hy]

/-- A cell that is a key is the cell of that key, and the key addresses its own entry. -/
theorem same_self_of_key? {cell : Cell} (h : cell.key? = .ok k) :
    cell = k.toCell ∧ k.same k = true := by
  cases cell with
  | text s =>
      cases h
      exact ⟨rfl, decide_eq_true rfl⟩
  | number x =>
      rw [Cell.key?] at h
      split at h
      · cases h
      · rename_i hvalue
        cases h
        exact ⟨rfl, (Number.same_self_iff x).2 hvalue⟩
  | _ => cases h

end Key
end CellMachine
