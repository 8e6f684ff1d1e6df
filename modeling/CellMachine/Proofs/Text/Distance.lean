import Mathlib
import CellMachine.Text.Distance

/-!
# What the distance counts

`Distance.Edit` inserts, deletes or replaces one character anywhere in a text, and `Distance.Edits`
counts edits that are made one after the other.  The distance of two texts is the least count of
edits that turn one into the other, so it is a metric: `Distance.distance_metric`.

Two facts meet in the recurrence `Distance.apart`, which goes through two lists of characters from
their heads.  The rows tabulate it for the beginnings of the texts, read backwards, and no edit
changes it by more than one.  To read both texts backwards changes nothing, since edits can be read
backwards as well.
-/

namespace CellMachine
namespace Distance

/-! ## Edits -/

inductive Edit : List Char → List Char → Prop
  | insert (before after : List Char) (c : Char) : Edit (before ++ after) (before ++ c :: after)
  | delete (before after : List Char) (c : Char) : Edit (before ++ c :: after) (before ++ after)
  | replace (before after : List Char) (c d : Char) :
      Edit (before ++ c :: after) (before ++ d :: after)

/-- Whether so many edits turn one list of characters into another one. -/
inductive Edits : Nat → List Char → List Char → Prop
  | refl (a : List Char) : Edits 0 a a
  | step {n : Nat} {a b c : List Char} (hedit : Edit a b) (hedits : Edits n b c) :
      Edits (n + 1) a c

variable {a b c : List Char} {m n : Nat}

/-- What is inserted can be deleted again, and what was replaced can be put back. -/
theorem Edit.symm (h : Edit a b) : Edit b a := by
  cases h with
  | insert before after x => exact .delete before after x
  | delete before after x => exact .insert before after x
  | replace before after x y => exact .replace before after y x

theorem Edit.cons (x : Char) (h : Edit a b) : Edit (x :: a) (x :: b) := by
  cases h with
  | insert before after y => exact .insert (x :: before) after y
  | delete before after y => exact .delete (x :: before) after y
  | replace before after y z => exact .replace (x :: before) after y z

theorem Edit.reverse (h : Edit a b) : Edit a.reverse b.reverse := by
  cases h with
  | insert before after x => simpa using Edit.insert after.reverse before.reverse x
  | delete before after x => simpa using Edit.delete after.reverse before.reverse x
  | replace before after x y => simpa using Edit.replace after.reverse before.reverse x y

/-- Edits can be made behind a character. -/
theorem Edits.cons (x : Char) (h : Edits n a b) : Edits n (x :: a) (x :: b) := by
  induction h with
  | refl a => exact .refl (x :: a)
  | step hedit _ ih => exact .step (hedit.cons x) ih

/-- Edits from one text to a second, and on to a third. -/
theorem Edits.trans (hab : Edits m a b) (hbc : Edits n b c) : Edits (m + n) a c := by
  induction hab with
  | refl a => rwa [Nat.zero_add]
  | step hedit _ ih =>
      rw [Nat.add_right_comm]
      exact .step hedit (ih hbc)

/-- Edits can be taken back. -/
theorem Edits.symm (h : Edits n a b) : Edits n b a := by
  induction h with
  | refl a => exact .refl a
  | step hedit _ ih => exact ih.trans (.step hedit.symm (.refl _))

theorem Edits.reverse (h : Edits n a b) : Edits n a.reverse b.reverse := by
  induction h with
  | refl a => exact .refl a.reverse
  | step hedit _ ih => exact .step hedit.reverse ih

/-- Of two ways, the shorter one will do. -/
theorem Edits.min (hm : Edits m a b) (hn : Edits n a b) : Edits (min m n) a b := by
  rcases min_choice m n with h | h
  · rwa [h]
  · rwa [h]

/-- Without an edit a text stays as it is. -/
theorem edits_zero_iff : Edits 0 a b ↔ a = b := by
  constructor
  · intro h
    cases h
    rfl
  · rintro rfl
    exact .refl a

/-! ## The recurrence -/

/-- How far two lists of characters are apart.  Where both go on, the first character of one of them
is left out, or both are, which is free if they agree. -/
def apart : List Char → List Char → Nat
  | [], b => b.length
  | a, [] => a.length
  | x :: a, y :: b =>
      min (min (apart a (y :: b) + 1) (apart (x :: a) b + 1))
        (apart a b + if x = y then 0 else 1)

theorem apart_nil (b : List Char) : apart [] b = b.length := by
  rw [apart]

theorem apart_nil_right (a : List Char) : apart a [] = a.length := by
  cases a with
  | nil => rw [apart]
  | cons x a => rw [apart]; nofun

/-- The recurrence of the distance, at two texts that both go on. -/
theorem apart_cons_cons (x y : Char) (a b : List Char) :
    apart (x :: a) (y :: b) =
      min (min (apart a (y :: b) + 1) (apart (x :: a) b + 1))
        (apart a b + if x = y then 0 else 1) := by
  rw [apart]

/-! ## Rows -/

/-- A row, or what is left of it: what the recurrence yields for a text and all continuations of
another one, both read backwards. -/
def row (a left : List Char) : List Char → List Nat
  | [] => [apart a left]
  | d :: ds => apart a left :: row a (d :: left) ds

theorem row_eq_cons (a left b : List Char) :
    row a left b = apart a left :: (row a left b).tail := by
  cases b with
  | nil => rfl
  | cons d b => rfl

/-- The last entry of a row is the distance of the whole texts. -/
theorem getD_row (a left b : List Char) :
    (row a left b).getD b.length 0 = apart a (b.reverse ++ left) := by
  induction b generalizing left with
  | nil => rfl
  | cons d b ih =>
      rw [row, List.length_cons, List.getD_cons_succ, ih, List.reverse_cons, List.append_assoc,
        List.singleton_append]

theorem row_nil (left b : List Char) :
    row [] left b = List.range' left.length (b.length + 1) := by
  induction b generalizing left with
  | nil => rw [row, apart_nil]; rfl
  | cons d b ih => rw [row, apart_nil, ih, List.length_cons]; rfl

/-- An entry is followed by what the recurrence yields. -/
theorem fillRow_eq (c : Char) (a left b : List Char) :
    fillRow c (apart (c :: a) left) b (row a left b) = (row (c :: a) left b).tail := by
  induction b generalizing left with
  | nil => rfl
  | cons d b ih =>
      rw [row, row_eq_cons a (d :: left) b, fillRow, ← apart_cons_cons, ← row_eq_cons, ih, row,
        List.tail_cons, ← row_eq_cons]

/-- One more character leads from a row to the next one. -/
theorem nextRow_eq (c : Char) (a b : List Char) :
    nextRow b (row a [] b) c (a.length + 1) = row (c :: a) [] b := by
  have hfirst : a.length + 1 = apart (c :: a) [] := by rw [apart_nil_right, List.length_cons]
  rw [nextRow, hfirst, fillRow_eq, ← row_eq_cons]

/-- The characters of a text lead from the row of what stands before them to the row of it all. -/
theorem foldl_nextRow (a b before : List Char) :
    (a.zipIdx (before.length + 1)).foldl
        (fun row entry => nextRow b row entry.1 entry.2) (row before [] b) =
      row (a.reverse ++ before) [] b := by
  induction a generalizing before with
  | nil => rfl
  | cons c a ih =>
      rw [List.zipIdx_cons, List.foldl_cons, nextRow_eq, List.reverse_cons, List.append_assoc]
      exact ih (c :: before)

/-- Filling row after row yields the row of the recurrence. -/
theorem lastRow_eq (a b : List Char) : lastRow a b = row a.reverse [] b := by
  have hfirst : firstRow b = row [] [] b := by
    rw [firstRow, row_nil, List.range_eq_range']
    rfl
  rw [lastRow, hfirst]
  exact (foldl_nextRow a b []).trans (by rw [List.append_nil])

/-- The row program computes the distance of the texts read backwards. -/
theorem distance_eq_apart (a b : String) :
    distance a b = apart a.toList.reverse b.toList.reverse := by
  rw [distance, lastRow_eq, ← String.length_toList, getD_row, List.append_nil]

/-! ## The recurrence counts edits -/

/-- A text is not apart from itself. -/
theorem apart_self (a : List Char) : apart a a = 0 := by
  induction a with
  | nil => rw [apart_nil, List.length_nil]
  | cons x a ih =>
      rw [apart_cons_cons, if_pos rfl, ih]
      exact Nat.min_zero _

/-- One character more is one edit more at most. -/
theorem apart_cons_le (x : Char) (a b : List Char) : apart (x :: a) b ≤ apart a b + 1 := by
  cases b with
  | nil => rw [apart_nil_right, apart_nil_right, List.length_cons]
  | cons y b =>
      rw [apart_cons_cons]
      exact (min_le_left _ _).trans (min_le_left _ _)

theorem apart_cons_right_le (y : Char) (a b : List Char) : apart a (y :: b) ≤ apart a b + 1 := by
  cases a with
  | nil => rw [apart_nil, apart_nil, List.length_cons]
  | cons x a =>
      rw [apart_cons_cons]
      exact (min_le_left _ _).trans (min_le_right _ _)

theorem apart_cons_cons_le (x y : Char) (a b : List Char) :
    apart (x :: a) (y :: b) ≤ apart a b + 1 := by
  rw [apart_cons_cons]
  refine (min_le_right _ _).trans ?_
  split
  · exact Nat.le_succ _
  · exact Nat.le_refl _

/-- A character in front of a text brings it nearer to another one by at most one. -/
theorem apart_le_cons (x : Char) (a b : List Char) : apart a b ≤ apart (x :: a) b + 1 := by
  induction b with
  | nil =>
      rw [apart_nil_right, apart_nil_right, List.length_cons]
      omega
  | cons y b ih =>
      have hright := apart_cons_right_le y a b
      rw [apart_cons_cons]
      omega

/-- Which character stands in front makes a difference of at most one. -/
theorem apart_replace (x y : Char) (a b : List Char) :
    apart (x :: a) b ≤ apart (y :: a) b + 1 := by
  induction b with
  | nil => simp [apart_nil_right]
  | cons z b ih =>
      have hleft := apart_cons_le x a (z :: b)
      have hright := apart_cons_right_le z (x :: a) b
      have hdiagonal := apart_cons_cons_le x z a b
      rw [apart_cons_cons y]
      omega

/-- What makes a difference of at most one does so behind a further character. -/
theorem apart_cons_mono {a a' : List Char} (x : Char) (h : ∀ b, apart a b ≤ apart a' b + 1)
    (b : List Char) : apart (x :: a) b ≤ apart (x :: a') b + 1 := by
  induction b with
  | nil =>
      have hnil := h []
      simp only [apart_nil_right, List.length_cons] at hnil ⊢
      omega
  | cons y b ih =>
      have hleft := h (y :: b)
      have hboth := h b
      rw [apart_cons_cons, apart_cons_cons]
      split <;> omega

/-- An edit makes a difference of at most one. -/
theorem Edit.apart_le (h : Edit a b) (c : List Char) : apart a c ≤ apart b c + 1 := by
  -- What the edit does behind the characters that stand before it.
  have hbehind {a b : List Char} (hab : ∀ c, apart a c ≤ apart b c + 1) (before : List Char) :
      ∀ c, apart (before ++ a) c ≤ apart (before ++ b) c + 1 := by
    induction before with
    | nil => exact hab
    | cons x before ih => exact apart_cons_mono x ih
  cases h with
  | insert before after x => exact hbehind (apart_le_cons x after) before c
  | delete before after x => exact hbehind (apart_cons_le x after) before c
  | replace before after x y => exact hbehind (apart_replace x y after) before c

/-- No fewer edits do. -/
theorem Edits.apart_le (h : Edits n a b) : apart a b ≤ n := by
  induction h with
  | refl a => exact (apart_self a).le
  | step hedit _ ih => exact (hedit.apart_le _).trans (Nat.succ_le_succ ih)

/-- So many edits do: each case of the recurrence is one edit in front, or none. -/
theorem edits_apart (a b : List Char) : Edits (apart a b) a b := by
  induction a generalizing b with
  | nil =>
      rw [apart_nil]
      induction b with
      | nil => exact .refl []
      | cons y b ih => exact .step (.insert [] [] y) (ih.cons y)
  | cons x a ih =>
      induction b with
      | nil =>
          have hnil := ih []
          rw [apart_nil_right] at hnil
          rw [apart_nil_right]
          exact .step (.delete [] a x) hnil
      | cons y b ihRight =>
          -- The three ways of the recurrence, each as one edit and the edits of what is left.
          have hleft : Edits (apart a (y :: b) + 1) (x :: a) (y :: b) :=
            .step (.delete [] a x) (ih (y :: b))
          have hright : Edits (apart (x :: a) b + 1) (x :: a) (y :: b) :=
            .step (.insert [] (x :: a) y) (ihRight.cons y)
          have hboth : Edits (apart a b + if x = y then 0 else 1) (x :: a) (y :: b) := by
            split
            · rename_i hxy
              exact hxy ▸ (ih b).cons x
            · exact .step (.replace [] a x y) ((ih b).cons y)
          rw [apart_cons_cons]
          exact (hleft.min hright).min hboth

/-- The distance is the least count of edits. -/
theorem distance_isLeast (a b : String) :
    IsLeast {n | Edits n a.toList b.toList} (distance a b) := by
  rw [distance_eq_apart]
  refine ⟨?_, fun _ h => h.reverse.apart_le⟩
  have hedits := (edits_apart a.toList.reverse b.toList.reverse).reverse
  rwa [List.reverse_reverse, List.reverse_reverse] at hedits

/-! ## The metric -/

/-- The distance of two texts is the least count of insertions, deletions and replacements of single
characters that turn one into the other.  So it is the same in both directions, zero for equal texts
only, and no greater than a way round by a third text. -/
theorem distance_metric (a b : String) :
    IsLeast {n | Edits n a.toList b.toList} (distance a b) ∧
      distance a b = distance b a ∧ (distance a b = 0 ↔ a = b) ∧
      ∀ c, distance a c ≤ distance a b + distance b c := by
  have hedits (a b : String) : Edits (distance a b) a.toList b.toList := (distance_isLeast a b).1
  have hle {n : Nat} {a b : String} (h : Edits n a.toList b.toList) : distance a b ≤ n :=
    (distance_isLeast a b).2 h
  refine ⟨distance_isLeast a b, ?_, ?_, ?_⟩
  · exact Nat.le_antisymm (hle (hedits b a).symm) (hle (hedits a b).symm)
  · constructor
    · intro h
      have hnone := hedits a b
      rw [h] at hnone
      exact String.toList_inj.1 (edits_zero_iff.1 hnone)
    · rintro rfl
      exact Nat.le_zero.1 (hle (.refl a.toList))
  · exact fun c => hle ((hedits a b).trans (hedits b c))

example : distance "kitten" "sitting" = 3 := by
  decide +kernel

end Distance
end CellMachine
