import Mathlib.Algebra.Ring.Nat
import Mathlib.Data.List.Basic

/-!
# Pieces that lie side by side

A position in front of the end of the last piece is in one piece.
-/

namespace EbpfProfiler.Lib

variable {α : Type} (size : α → ℕ)

/-- The positions that pieces take together. -/
def extent : List α → ℕ
  | [] => 0
  | x :: xs => size x + extent xs

/-- A position is in a piece, behind some others. -/
def Covers (pieces : List α) (i : ℕ) (before : List α) (x : α) (after : List α) : Prop :=
  pieces = before ++ x :: after ∧ extent size before ≤ i ∧ i < extent size before + size x

lemma exists_covers {pieces : List α} {i : ℕ} (h : i < extent size pieces) :
    ∃ before x after, Covers size pieces i before x after := by
  induction pieces generalizing i with
  | nil => exact absurd h (Nat.not_lt_zero i)
  | cons x xs ih =>
    by_cases hx : i < size x
    · exact ⟨[], x, xs, rfl, Nat.zero_le i, by rwa [extent, zero_add]⟩
    · have hrest : i - size x < extent size xs := by
        rw [extent] at h
        omega
      obtain ⟨before, y, after, rfl, hle, hlt⟩ := ih hrest
      refine ⟨x :: before, y, after, rfl, ?_, ?_⟩
      · rw [extent]
        omega
      · rw [extent]
        omega

lemma extent_append (xs ys : List α) :
    extent size (xs ++ ys) = extent size xs + extent size ys := by
  induction xs with
  | nil => exact (zero_add _).symm
  | cons x xs ih => rw [List.cons_append, extent, extent, ih, add_assoc]

lemma Covers.end_le {pieces : List α} {i : ℕ} {before : List α} {x : α} {after : List α}
    (h : Covers size pieces i before x after) :
    extent size before + size x ≤ extent size pieces := by
  rw [h.1, extent_append, extent]
  omega

end EbpfProfiler.Lib
