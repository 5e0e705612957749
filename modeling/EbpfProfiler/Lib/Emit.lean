import Mathlib.Data.List.Basic

/-!
# Computations that hand items to a visitor

The visitor may depend on all items before, and may fail.
-/

namespace EbpfProfiler.Lib

/-- The state is what the visitor was given so far. -/
abbrev Emit (ε β : Type) := ExceptT ε (StateM (List β))

def visit {ε β : Type} (visitor : List β → β → Except ε Unit) (b : β) : Emit ε β Unit :=
  fun out => (visitor out b, out ++ [b])

def visitOption {ε β : Type} (visitor : List β → β → Except ε Unit) : Option β → Emit ε β Unit
  | none => pure ()
  | some b => visit visitor b

variable {ε α β γ : Type}

def ofResult (r : Except ε α) : Emit ε β α := fun out => (r, out)

/-- What the visitor was given when the computation ended. -/
def emitted (x : Emit ε β α) : List β := (x.run.run []).2

/-- The computation ends with a value and has handed over the items. -/
def Emits (x : Emit ε β α) (bs : List β) (a : α) : Prop := ∀ out, x.run.run out = (.ok a, out ++ bs)

variable {x : Emit ε β α} {bs : List β} {a : α} {visitor : List β → β → Except ε Unit}

lemma Emits.emitted_eq (h : Emits x bs a) : emitted x = bs := by
  rw [emitted, h []]
  rfl

lemma emits_pure (a : α) : Emits (pure a : Emit ε β α) [] a := by
  intro out
  rw [List.append_nil]
  rfl

lemma emits_ofResult {r : Except ε α} (h : r = .ok a) : Emits (ofResult r : Emit ε β α) [] a := by
  subst h
  intro out
  rw [List.append_nil]
  rfl

lemma Emits.bind {f : α → Emit ε β γ} {cs : List β} {c : γ} (hx : Emits x bs a)
    (hf : Emits (f a) cs c) : Emits (x >>= f) (bs ++ cs) c := by
  intro out
  rw [← List.append_assoc, ← hf (out ++ bs)]
  show (ExceptT.run (x >>= f)).run out = _
  rw [ExceptT.run_bind, StateT.run_bind, hx out]
  rfl

lemma Emits.seq {y : Emit ε β γ} {cs : List β} {c : γ} (hx : Emits x bs a)
    (hy : Emits y cs c) : Emits (x >>= fun _ => y) (bs ++ cs) c :=
  Emits.bind hx hy

lemma emits_visit (hvisitor : ∀ out b, visitor out b = .ok ())
    (b : β) : Emits (visit visitor b) [b] () := by
  intro out
  rw [← hvisitor out b]
  rfl

lemma emits_visitOption (hvisitor : ∀ out b, visitor out b = .ok ()) (o : Option β) :
    Emits (visitOption visitor o) o.toList () := by
  cases o with
  | none => exact emits_pure ()
  | some b => exact emits_visit hvisitor b

/-- A loop hands over what its rounds do, one after the other. -/
lemma Emits.forM {f : α → Emit ε β PUnit} {g : α → List β} {xs : List α}
    (h : ∀ x ∈ xs, Emits (f x) (g x) PUnit.unit) : Emits (xs.forM f) (xs.flatMap g) PUnit.unit := by
  induction xs with
  | nil => exact emits_pure _
  | cons x xs ih =>
    apply (h x List.mem_cons_self).seq
    apply ih
    intro y hy
    exact h y (List.mem_cons_of_mem x hy)

end EbpfProfiler.Lib
