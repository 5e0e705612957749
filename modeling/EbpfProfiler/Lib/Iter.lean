import Mathlib.Init

/-!
# Iterators that can fail

`next` gives an item or the end, and the state for the next call.
-/

namespace EbpfProfiler.Lib

variable {σ ε α : Type} {next : σ → Except ε (Option α × σ)} {s : σ} {xs ys : List α}

/-- Called again and again, the iterator gives these items and then its end. -/
inductive Yields (next : σ → Except ε (Option α × σ)) : σ → List α → Prop
  | done {s s' : σ} (h : next s = .ok (none, s')) : Yields next s []
  | more {s s' : σ} {x : α} {xs : List α} (h : next s = .ok (some x, s'))
      (rest : Yields next s' xs) :
    Yields next s (x :: xs)

lemma Yields.unique (h : Yields next s xs) (h' : Yields next s ys) : xs = ys := by
  induction h generalizing ys with
  | done h =>
    cases h' with
    | done => rfl
    | more h' => rw [h] at h'; cases h'
  | more h _ ih =>
    cases h' with
    | done h' => rw [h] at h'; cases h'
    | more h' rest' =>
      rw [h] at h'
      cases h'
      rw [ih rest']

/-- Only the next call counts. -/
lemma Yields.congr {s' : σ} (h : Yields next s xs) (heq : next s' = next s) :
    Yields next s' xs := by
  cases h with
  | done h => exact .done (heq.trans h)
  | more h rest => exact .more (heq.trans h) rest

end EbpfProfiler.Lib
