import Mathlib.Logic.Basic

/-!
# Computations with state, errors and panics

A `Comp σ α` leaves a state behind also when it fails: what was changed stays changed.
-/

namespace EbpfProfiler.Lib

variable {τ : Type}

/-- How a call can end without a value; with `hang` it does not end. -/
inductive Fault where
  | error (text : String)
  | panic (text : String)
  | hang
  deriving DecidableEq

/-- A computation over the state `σ`. -/
def Comp (σ α : Type) : Type := σ → Except Fault α × σ

namespace Comp

variable {σ α β : Type}

def exec (x : Comp σ α) (s : σ) : Except Fault α × σ := x s

instance : Monad (Comp σ) where
  pure a := fun s => (.ok a, s)
  bind x f := fun s =>
    match x s with
    | (.ok a, s') => f a s'
    | (.error e, s') => (.error e, s')

instance : LawfulMonad (Comp σ) :=
  LawfulMonad.mk' (Comp σ)
    (by
      intro α x
      funext s
      change (match x s with | (.ok a, t) => _ | (.error e, t) => _) = x s
      rcases x s with ⟨r, t⟩
      cases r <;> rfl)
    (by
      intro α β a f
      rfl)
    (by
      intro α β γ x f g
      funext s
      change (match (match x s with | (.ok a, t) => f a t | (.error e, t) => (.error e, t)) with
        | (.ok b, t) => g b t | (.error e, t) => (.error e, t)) = _
      change _ = (match x s with | (.ok a, t) => (f a >>= g) t | (.error e, t) => (.error e, t))
      rcases x s with ⟨r, t⟩
      cases r <;> rfl)

def get : Comp σ σ := fun s => (.ok s, s)

def set (s : σ) : Comp σ Unit := fun _ => (.ok (), s)

def modify (f : σ → σ) : Comp σ Unit := fun s => (.ok (), f s)

/-- A loop over a list, which ends with the first error. -/
def each (f : α → Comp σ Unit) : List α → Comp σ Unit
  | [] => pure ()
  | a :: as => f a >>= fun _ => each f as

def error (text : String) : Comp σ α := fun s => (.error (.error text), s)

def panic (text : String) : Comp σ α := fun s => (.error (.panic text), s)

/-- Go on forever. -/
def hang : Comp σ α := fun s => (.error .hang, s)

/-- A result that does not depend on the state. -/
def lift (r : Except Fault α) : Comp σ α := fun s => (r, s)

/-- The value of a computation, or the error that it returns. -/
def attempt (x : Comp σ α) : Comp σ (Except String α) := fun s =>
  match x s with
  | (.ok a, t) => (.ok (.ok a), t)
  | (.error (.error err), t) => (.ok (.error err), t)
  | (.error f, t) => (.error f, t)

/-- Run a computation and then another one in any case (`defer`). -/
def deferring (last : Comp σ Unit) (x : Comp σ α) : Comp σ α := do
  let r ← attempt x
  last
  match r with
  | .ok a => pure a
  | .error err => error err

/-- Put a context in front of the text of an error; a panic passes. -/
def wrapError (context : String) (x : Comp σ α) : Comp σ α := fun s =>
  match x s with
  | (.error (.error err), t) => (.error (.error s!"{context}: {err}"), t)
  | r => r

/-- Run a computation on a part of the state. -/
def zoom {τ : Type} (part : σ → τ) (put : τ → σ → σ) (x : Comp τ α) : Comp σ α := fun s =>
  ((exec x (part s)).1, put (exec x (part s)).2 s)

@[simp] lemma exec_get (s : σ) : exec get s = (.ok s, s) := rfl

@[simp] lemma exec_set (s t : σ) : exec (set t) s = (.ok (), t) := rfl

@[simp] lemma exec_panic (text : String) (s : σ) :
    exec (panic text : Comp σ α) s = (.error (.panic text), s) := rfl

variable {x : Comp σ α} {s t : σ} {a : α} {f : α → Comp σ β} {last : Comp σ Unit}

lemma exec_wrapError_ok_iff {context : String} :
    exec (wrapError context x) s = (.ok a, t) ↔ exec x s = (.ok a, t) := by
  unfold exec wrapError
  rcases x s with ⟨(_ | _ | _) | _, u⟩ <;> simp

lemma exec_wrapError_ok (h : exec x s = (.ok a, t)) (context : String) :
    exec (wrapError context x) s = (.ok a, t) := exec_wrapError_ok_iff.mpr h

lemma exec_wrapError_error {err : String} (h : exec x s = (.error (.error err), t))
    (context : String) :
    exec (wrapError context x) s = (.error (.error s!"{context}: {err}"), t) := by
  unfold exec at h
  rw [exec, wrapError, h]

lemma exec_wrapError_fault {f : Fault} (h : exec x s = (.error f, t))
    (context : String) : ∃ g, exec (wrapError context x) s = (.error g, t) := by
  unfold exec at h
  cases f <;> exact ⟨_, by rw [exec, wrapError, h]⟩

lemma exec_wrapError_snd (context : String) (x : Comp σ α) (s : σ) :
    (exec (wrapError context x) s).2 = (exec x s).2 := by
  unfold exec wrapError
  split
  · next h => rw [h]
  · rfl

lemma exec_bind (x : Comp σ α) (f : α → Comp σ β) (s : σ) : exec (x >>= f) s =
      match exec x s with
      | (.ok a, t) => exec (f a) t
      | (.error e, t) => (.error e, t) := rfl

lemma exec_bind_of_ok (h : exec x s = (.ok a, t))
    (f : α → Comp σ β) : exec (x >>= f) s = exec (f a) t := by
  rw [exec_bind, h]

lemma exec_return (h : exec x s = (.ok a, t)) (f : α → β) :
    exec (x >>= fun a => pure (f a)) s = (.ok (f a), t) := by
  rw [exec_bind_of_ok h]
  rfl

lemma exec_bind_of_error {e : Fault} (h : exec x s = (.error e, t))
    (f : α → Comp σ β) : exec (x >>= f) s = (.error e, t) := by
  rw [exec_bind, h]

lemma exec_bind_cases (x : Comp σ α) (f : α → Comp σ β) (s : σ) :
    (∃ a t, exec x s = (.ok a, t) ∧ exec (x >>= f) s = exec (f a) t) ∨
      ∃ e t, exec x s = (.error e, t) ∧ exec (x >>= f) s = (.error e, t) := by
  rcases hx : exec x s with ⟨r, t⟩
  cases r with
  | ok a => exact .inl ⟨a, t, rfl, exec_bind_of_ok hx f⟩
  | error e => exact .inr ⟨e, t, rfl, exec_bind_of_error hx f⟩

lemma exec_bind_ok {u : σ} {b : β} : exec (x >>= f) s = (.ok b, u) ↔
      ∃ a t, exec x s = (.ok a, t) ∧ exec (f a) t = (.ok b, u) := by
  rcases exec_bind_cases x f s with ⟨a, t, hx, h⟩ | ⟨e, t, hx, h⟩ <;> simp [hx, h, and_assoc]

lemma exec_bind_error {u : σ} {e : Fault} :
    exec (x >>= f) s = (.error e, u) ↔ exec x s = (.error e, u) ∨
      ∃ a t, exec x s = (.ok a, t) ∧ exec (f a) t = (.error e, u) := by
  rcases exec_bind_cases x f s with ⟨a, t, hx, h⟩ | ⟨e, t, hx, h⟩ <;> simp [hx, h, and_assoc]

@[simp] lemma exec_get_bind (f : σ → Comp σ α) (s : σ) : exec (get >>= f) s = exec (f s) s := rfl

@[simp] lemma exec_set_bind (t : σ) (f : Unit → Comp σ α) (s : σ) :
    exec (set t >>= f) s = exec (f ()) t := rfl

lemma exec_attempt_ok_iff : exec (attempt x) s = (.ok (.ok a), t) ↔ exec x s = (.ok a, t) := by
  unfold exec attempt
  rcases x s with ⟨(_ | _ | _) | _, u⟩ <;> simp

lemma exec_attempt_error_iff {text : String} :
    exec (attempt x) s = (.ok (.error text), t) ↔ exec x s = (.error (.error text), t) := by
  unfold exec attempt
  rcases x s with ⟨(_ | _ | _) | _, u⟩ <;> simp

lemma exec_attempt_ne_error (x : Comp σ α) (s t : σ) (text : String) :
    exec (attempt x) s ≠ (.error (.error text), t) := by
  unfold exec attempt
  rcases x s with ⟨(_ | _ | _) | _, u⟩ <;> simp

lemma exec_deferring_error {text : String}
    (h : exec (deferring last x) s = (.error (.error text), t)) :
    ∃ r u, exec (attempt x) s = (.ok r, u) ∧
      (exec last u = (.ok (), t) ∨ exec last u = (.error (.error text), t)) := by
  rcases exec_bind_error.mp h with h | ⟨r, u, hr, h⟩
  · exact absurd h (exec_attempt_ne_error x s t text)
  · refine ⟨r, u, hr, ?_⟩
    rcases exec_bind_error.mp h with h | ⟨_, v, hv, h⟩
    · exact .inr h
    · left
      cases r <;> cases h
      exact hv

lemma exec_deferring_ok (h : exec (deferring last x) s = (.ok a, t)) :
    ∃ u, exec x s = (.ok a, u) ∧ exec last u = (.ok (), t) := by
  obtain ⟨r, u, hr, h⟩ := exec_bind_ok.mp h
  obtain ⟨_, v, hv, h⟩ := exec_bind_ok.mp h
  cases r with
  | error err => cases h
  | ok b =>
    cases h
    exact ⟨u, exec_attempt_ok_iff.mp hr, hv⟩

@[simp] lemma exec_zoom (part : σ → τ) (put : τ → σ → σ) (x : Comp τ α) (s : σ) :
    exec (zoom part put x) s = ((exec x (part s)).1, put (exec x (part s)).2 s) := rfl

lemma exec_zoom_ok {part : σ → τ} {put : τ → σ → σ} {x : Comp τ α} {a : α} {s t : σ} :
    exec (zoom part put x) s = (.ok a, t) ↔ ∃ c, exec x (part s) = (.ok a, c) ∧ t = put c s := by
  rw [exec_zoom]
  rcases exec x (part s) with ⟨r, c⟩
  simp [and_assoc, eq_comm]

/-! ## Triples -/

/-- Partial correctness: from `P`, a value is returned with `Q`. -/
def Triple (P : σ → Prop) (x : Comp σ α) (Q : α → σ → Prop) : Prop :=
  ∀ s a t, P s → exec x s = (.ok a, t) → Q a t

namespace Triple

variable {P P' : σ → Prop} {Q Q' : α → σ → Prop} {R : β → σ → Prop} {x : Comp σ α}

lemma conseq (h : Triple P x Q) (hP : ∀ s, P' s → P s) (hQ : ∀ a s, Q a s → Q' a s) :
    Triple P' x Q' := by
  intro s a t hs hx
  exact hQ a t (h s a t (hP s hs) hx)

/-- A fact that does not depend on the state. -/
lemma assume {V : Prop} (h : V → Triple P x Q) : Triple (fun s => P s ∧ V) x Q := by
  intro s a t hs hx
  exact h hs.2 s a t hs.1 hx

protected lemma pure {a : α} (h : ∀ s, P s → Q a s) : Triple P (pure a) Q := by
  intro s b t hs hx
  cases hx
  exact h s hs

protected lemma error (text : String) : Triple P (error text) Q := by
  intro s a t _ hx
  cases hx

protected lemma panic (text : String) : Triple P (panic text) Q := by
  intro s a t _ hx
  cases hx

lemma bind {f : α → Comp σ β} (hx : Triple P x Q) (hf : ∀ a, Triple (Q a) (f a) R) :
    Triple P (x >>= f) R := by
  intro s b u hs h
  obtain ⟨a, t, ha, hb⟩ := exec_bind_ok.mp h
  exact hf a t b u (hx s a t hs ha) hb

protected lemma get : Triple P get fun a t => a = t ∧ P t := by
  intro s a t hs h
  cases h
  exact ⟨rfl, hs⟩

protected lemma set {t : σ} {Q : Unit → σ → Prop} (h : ∀ s, P s → Q () t) :
    Triple P (set t) Q := by
  intro s a u hs hx
  cases hx
  exact h s hs

lemma wrapError (context : String) (h : Triple P x Q) : Triple P (wrapError context x) Q := by
  intro s a t hs hx
  exact h s a t hs (exec_wrapError_ok_iff.mp hx)

/-- What is deferred runs after a value is known. -/
lemma deferring {last : Comp σ Unit} (hx : Triple P x Q)
    (hlast : ∀ a, Triple (Q a) last fun _ t => Q' a t) : Triple P (deferring last x) Q' := by
  intro s a t hs h
  obtain ⟨u, hu, ht⟩ := exec_deferring_ok h
  exact hlast a u () t (hx s a u hs hu) ht

lemma zoom {part : σ → τ} {put : τ → σ → σ} {y : Comp τ α} {V : α → Prop}
    (hy : Triple (fun _ => True) y fun a _ => V a) (hP : ∀ s c, P s → P (put c s)) :
    Triple P (zoom part put y) fun a t => P t ∧ V a := by
  intro s a t hs h
  obtain ⟨hval, hstate⟩ := Prod.mk.inj h
  rw [← hstate]
  exact ⟨hP s _ hs, hy (part s) a _ trivial (Prod.ext hval rfl)⟩

end Triple

/-! ## Properties of the state at every exit -/

/-- The computation keeps the property, whether it returns, fails or panics. -/
def Keeps (P : σ → Prop) (x : Comp σ α) : Prop := ∀ s, P s → P (exec x s).2

section Keeps

variable {P : σ → Prop}

lemma keeps_pure (a : α) : Keeps P (pure a : Comp σ α) := fun _ h => h

lemma keeps_error (text : String) : Keeps P (error text : Comp σ α) := fun _ h => h

lemma keeps_panic (text : String) : Keeps P (panic text : Comp σ α) := fun _ h => h

lemma keeps_set {t : σ} (h : P t) : Keeps P (set t) := fun _ _ => h

variable {x : Comp σ α}

lemma Keeps.bind {f : α → Comp σ β} (hx : Keeps P x) (hf : ∀ a, Keeps P (f a)) :
    Keeps P (x >>= f) := by
  intro s hs
  have hs' := hx s hs
  rw [exec_bind]
  rcases h : exec x s with ⟨r, t⟩
  rw [h] at hs'
  cases r with
  | ok a => exact hf a t hs'
  | error e => exact hs'

lemma keeps_lift (r : Except Fault α) : Keeps P (lift r : Comp σ α) := fun _ h => h

lemma keeps_hang : Keeps P (hang : Comp σ α) := fun _ h => h

lemma Keeps.attempt (hx : Keeps P x) : Keeps P (attempt x) := by
  intro s hs
  have hs' := hx s hs
  unfold exec Comp.attempt at *
  rcases h : x s with ⟨(_ | _ | _) | _, t⟩ <;> rwa [h] at hs'

lemma Keeps.each {f : α → Comp σ Unit} (hf : ∀ a, Keeps P (f a)) :
    ∀ as : List α, Keeps P (each f as)
  | [] => keeps_pure ()
  | a :: as => (hf a).bind fun _ => Keeps.each hf as

lemma keeps_get_bind {f : σ → Comp σ α} (hf : ∀ s, P s → Keeps P (f s)) :
    Keeps P (get >>= f) := fun s hs => hf s hs s hs

lemma Keeps.wrapError (hx : Keeps P x) (context : String) : Keeps P (wrapError context x) := by
  intro s hs
  rw [exec_wrapError_snd]
  exact hx s hs

lemma Keeps.zoom {R : τ → Prop} {part : σ → τ} {put : τ → σ → σ} {x : Comp τ α} (hx : Keeps R x)
    (hpart : ∀ s, P s → R (part s)) (hput : ∀ s c, P s → R c → P (put c s)) :
    Keeps P (zoom part put x) := fun s hs => hput s _ hs (hx (part s) (hpart s hs))

end Keeps

/-! ## Panics -/

def Panics (x : Comp σ α) (s : σ) : Prop := ∃ text t, exec x s = (.error (.panic text), t)

lemma panics_bind (x : Comp σ α) (f : α → Comp σ β) (s : σ) :
    Panics (x >>= f) s ↔ Panics x s ∨ ∃ a t, exec x s = (.ok a, t) ∧ Panics (f a) t := by
  rcases exec_bind_cases x f s with ⟨a, t, hx, h⟩ |
    ⟨e, t, hx, h⟩ <;> simp [Panics, hx, h, and_assoc]

lemma panics_zoom (part : σ → τ) (put : τ → σ → σ) (x : Comp τ α) (s : σ) :
    Panics (zoom part put x) s ↔ Panics x (part s) := by
  unfold Panics
  rw [exec_zoom]
  rcases exec x (part s) with ⟨r, t⟩
  simp

def NoPanic (x : Comp σ α) : Prop := ∀ s, ¬Panics x s

lemma noPanic_pure (a : α) : NoPanic (pure a : Comp σ α) := by
  rintro s ⟨text, t, h⟩
  cases h

lemma noPanic_error (text : String) : NoPanic (error text : Comp σ α) := by
  rintro s ⟨text, t, h⟩
  cases h

lemma noPanic_get : NoPanic (get : Comp σ σ) := by
  rintro s ⟨text, t, h⟩
  cases h

lemma noPanic_set (t : σ) : NoPanic (set t) := by
  rintro s ⟨text, t, h⟩
  cases h

lemma NoPanic.bind (hx : NoPanic x) (hf : ∀ a, NoPanic (f a)) : NoPanic (x >>= f) := by
  intro s h
  obtain h | ⟨a, t, _, h⟩ := (panics_bind x f s).mp h
  · exact hx s h
  · exact hf a t h

lemma NoPanic.wrapError (hx : NoPanic x) (context : String) : NoPanic (wrapError context x) := by
  rintro s ⟨text, t, h⟩
  unfold exec Comp.wrapError at h
  split at h
  · cases h
  · exact hx s ⟨text, t, h⟩

lemma NoPanic.attempt (hx : NoPanic x) : NoPanic (attempt x) := by
  rintro s ⟨text, t, h⟩
  unfold exec Comp.attempt at h
  split at h
  · cases h
  · cases h
  · next hx' =>
    cases h
    exact hx s ⟨text, t, hx'⟩

lemma NoPanic.zoom {part : σ → τ} {put : τ → σ → σ} {x : Comp τ α} (hx : NoPanic x) :
    NoPanic (zoom part put x) := by
  intro s h
  exact hx (part s) ((panics_zoom part put x s).mp h)

/-! ## Computations that do not end -/

def Hangs (x : Comp σ α) (s : σ) : Prop := ∃ t, exec x s = (.error .hang, t)

lemma hangs_of_fst (h : (exec x s).1 = .error .hang) : Hangs x s :=
  ⟨(exec x s).2, Prod.ext h rfl⟩

lemma hangs_bind (x : Comp σ α) (f : α → Comp σ β) (s : σ) :
    Hangs (x >>= f) s ↔ Hangs x s ∨ ∃ a t, exec x s = (.ok a, t) ∧ Hangs (f a) t := by
  rcases exec_bind_cases x f s with ⟨a, t, hx, h⟩ | ⟨e, t, hx, h⟩ <;> simp [Hangs, hx, h, and_assoc]

lemma hangs_zoom (part : σ → τ) (put : τ → σ → σ) (x : Comp τ α) (s : σ) :
    Hangs (zoom part put x) s ↔ Hangs x (part s) := by
  unfold Hangs
  rw [exec_zoom]
  rcases exec x (part s) with ⟨r, t⟩
  simp

@[simp] lemma hangs_wrapError (context : String) (x : Comp σ α) (s : σ) :
    Hangs (wrapError context x) s ↔ Hangs x s := by
  unfold Hangs exec wrapError
  rcases x s with ⟨(_ | _ | _) | _, t⟩ <;> simp

lemma hangs_attempt (x : Comp σ α) (s : σ) : Hangs (attempt x) s ↔ Hangs x s := by
  unfold Hangs exec attempt
  rcases x s with ⟨(_ | _ | _) | _, t⟩ <;> simp

@[simp] lemma hangs_get_bind (f : σ → Comp σ α) (s : σ) : Hangs (get >>= f) s ↔
    Hangs (f s) s := .rfl

@[simp] lemma hangs_set_bind (t : σ) (f : Unit → Comp σ α) (s : σ) :
    Hangs (set t >>= f) s ↔ Hangs (f ()) t := .rfl

def Halts (x : Comp σ α) : Prop := ∀ s, ¬Hangs x s

lemma halts_pure (a : α) : Halts (pure a : Comp σ α) := by
  rintro s ⟨t, h⟩
  cases h

lemma halts_error (text : String) : Halts (error text : Comp σ α) := by
  rintro s ⟨t, h⟩
  cases h

lemma halts_panic (text : String) : Halts (panic text : Comp σ α) := by
  rintro s ⟨t, h⟩
  cases h

lemma halts_get : Halts (get : Comp σ σ) := by
  rintro s ⟨t, h⟩
  cases h

lemma halts_set (t : σ) : Halts (set t) := by
  rintro s ⟨t, h⟩
  cases h

lemma Halts.bind (hx : Halts x) (hf : ∀ a, Halts (f a)) : Halts (x >>= f) := by
  intro s h
  rcases (hangs_bind x f s).mp h with h | ⟨a, t, _, h⟩
  · exact hx s h
  · exact hf a t h

lemma Halts.attempt (hx : Halts x) : Halts (attempt x) := by
  intro s h
  exact hx s ((hangs_attempt x s).mp h)

lemma Halts.hangs_bind (hx : Halts x) (f : α → Comp σ β) (s : σ) :
    Hangs (x >>= f) s ↔ ∃ a t, exec x s = (.ok a, t) ∧ Hangs (f a) t := by
  rw [Comp.hangs_bind, or_iff_right (hx s)]

lemma hangs_deferring (hlast : Halts last) (x : Comp σ α) (s : σ) :
    Hangs (deferring last x) s ↔ Hangs x s := by
  rw [deferring, hangs_bind, hangs_attempt]
  constructor
  · rintro (h | ⟨r, t, _, h⟩)
    · exact h
    · obtain ⟨_, u, _, v, h⟩ := (hlast.hangs_bind _ t).mp h
      cases r <;> cases h
  · exact .inl

end Comp

end EbpfProfiler.Lib
