import Mathlib.Order.Basic
import Mathlib.Order.Monotone.Basic

/-!
# Sequence locks

Two equal stamps that are not zero enclose a time without changes (`Seqlock.keeps_of_stamp_eq`).
-/

namespace EbpfProfiler.Lib

/-- A writer: `stamp` of a state, the greatest one so far, and what the protection `keeps`. -/
structure Seqlock {σ : Type} (stamp last : σ → ℕ) (keeps : σ → σ → Prop) (run : ℕ → σ) : Prop where
  refl : ∀ s, keeps s s
  trans : ∀ {s s' s''}, keeps s s' → keeps s' s'' → keeps s s''
  step : ∀ n, stamp (run (n + 1)) = 0 ∨
    (stamp (run (n + 1)) = stamp (run n) ∧ keeps (run n) (run (n + 1))) ∨
    last (run n) < stamp (run (n + 1))
  last_le : ∀ n, last (run n) ≤ last (run (n + 1))
  stamp_eq : ∀ n, stamp (run n) ≠ 0 → stamp (run n) = last (run n)

namespace Seqlock

variable {σ : Type} {stamp last : σ → ℕ} {keeps : σ → σ → Prop} {run : ℕ → σ}

section
variable (h : Seqlock stamp last keeps run)
include h

lemma last_mono {i j : ℕ} (hij : i ≤ j) : last (run i) ≤ last (run j) :=
  monotone_nat_of_le_succ (f := fun n => last (run n)) h.last_le hij

/-- No stamp exceeds the greatest one of a later state. -/
lemma stamp_le_last {i j : ℕ} (hij : i ≤ j) : stamp (run i) ≤ last (run j) := by
  by_cases hzero : stamp (run i) = 0
  · omega
  · rw [h.stamp_eq i hzero]
    exact h.last_mono hij

lemma keeps_of_stamp_eq {i j : ℕ} (hij : i ≤ j) (heq : stamp (run i) = stamp (run j))
    (hne : stamp (run i) ≠ 0) {k : ℕ} (hik : i ≤ k) (hkj : k ≤ j) : keeps (run i) (run k) := by
  induction j, hij using Nat.le_induction generalizing k with
  | base =>
    have hk : k = i := by omega
    rw [hk]
    exact h.refl _
  | succ j hij ih =>
    rcases h.step j with hzero | ⟨hsame, hkeeps⟩ | hnew
    · exact absurd (heq.trans hzero) hne
    · rcases Nat.lt_or_eq_of_le hkj with hlt | rfl
      · exact ih (heq.trans hsame) hik (by omega)
      · exact h.trans (ih (heq.trans hsame) hij le_rfl) hkeeps
    · -- a new stamp is greater than the one that was found first
      have hle := h.stamp_le_last hij
      omega

end

end Seqlock

end EbpfProfiler.Lib
