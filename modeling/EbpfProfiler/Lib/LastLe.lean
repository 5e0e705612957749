import Mathlib.Data.List.Chain
import Mathlib.Order.Basic

/-!
# Step tables: the last row at or below a key

Tables may be cut and glued, and repeated rows dropped; where a row depends on the distance from
its key, only if it is `Flat`.
-/

namespace EbpfProfiler.Lib

open List Option

variable {a : ℕ}

variable {β γ : Type*}

/-! ## Reading a step table -/

/-- The last row, in list order, whose key is at most `a`. -/
def lastLe : List (ℕ × β) → ℕ → Option (ℕ × β)
  | [], _ => none
  | e :: l, a => (lastLe l a).or (if e.1 ≤ a then some e else none)

@[simp] lemma lastLe_nil (a : ℕ) : lastLe ([] : List (ℕ × β)) a = none := rfl

lemma lastLe_cons (e : ℕ × β) (l : List (ℕ × β)) (a : ℕ) :
    lastLe (e :: l) a = (lastLe l a).or (if e.1 ≤ a then some e else none) := rfl

variable {e : ℕ × β} {l : List (ℕ × β)}

lemma lastLe_cons_of_le (h : e.1 ≤ a) (l : List (ℕ × β)) :
    lastLe (e :: l) a = (lastLe l a).or (some e) := by
  rw [lastLe_cons, if_pos h]

lemma lastLe_cons_of_lt (h : a < e.1) (l : List (ℕ × β)) : lastLe (e :: l) a = lastLe l a := by
  rw [lastLe_cons, if_neg (by omega), or_none]

lemma lastLe_append (l m : List (ℕ × β)) (a : ℕ) :
    lastLe (l ++ m) a = (lastLe m a).or (lastLe l a) := by
  induction l with
  | nil => simp
  | cons e l ih => rw [cons_append, lastLe_cons, ih, lastLe_cons, Option.or_assoc]

lemma lastLe_eq_none (h : ∀ e ∈ l, a < e.1) : lastLe l a = none := by
  induction l with
  | nil => rfl
  | cons e l ih =>
    rw [lastLe_cons_of_lt (h e (mem_cons_self ..))]
    exact ih fun x hx => h x (mem_cons_of_mem _ hx)

lemma lastLe_isSome (he : e ∈ l) (h : e.1 ≤ a) : (lastLe l a).isSome := by
  induction l with
  | nil => cases he
  | cons x l ih =>
    rw [lastLe_cons]
    rcases mem_cons.mp he with rfl | he
    · simp [h]
    · simp [ih he]

lemma lastLe_append_cons {m : List (ℕ × β)} (he : e.1 ≤ a) (hm : ∀ x ∈ m, a < x.1) :
    lastLe (l ++ e :: m) a = some e := by
  rw [lastLe_append, lastLe_cons_of_le he, lastLe_eq_none hm]
  simp

/-! ## Dropping repeated rows -/

section DropRepeats

/-- The value in force after a table, `p` being the one before it. -/
def valueAfter (p : Option β) (l : List (ℕ × β)) : Option β := (l.getLast?.map (·.2)).or p

variable (p : Option β)

@[simp] lemma valueAfter_concat (l : List (ℕ × β)) (e : ℕ × β) :
    valueAfter p (l ++ [e]) = some e.2 := by
  simp [valueAfter]

lemma valueAfter_cons (e : ℕ × β) (l : List (ℕ × β)) :
    valueAfter p (e :: l) = valueAfter (some e.2) l := by
  cases l with
  | nil => rfl
  | cons x l => simp [valueAfter, getLast?_cons]

variable [DecidableEq β]

/-- Drop the rows that repeat the value in force; `p` is the one before the table. -/
def dropRepeats (p : Option β) : List (ℕ × β) → List (ℕ × β)
  | [] => []
  | e :: l => if p = some e.2 then dropRepeats p l else e :: dropRepeats (some e.2) l

lemma dropRepeats_append (l m : List (ℕ × β)) :
    dropRepeats p (l ++ m) = dropRepeats p l ++ dropRepeats (valueAfter p l) m := by
  induction l generalizing p with
  | nil => rfl
  | cons e l ih =>
    rw [cons_append, dropRepeats, dropRepeats, valueAfter_cons]
    split
    · next h => rw [ih, h]
    · rw [ih, cons_append]

lemma valueAfter_dropRepeats (l : List (ℕ × β)) :
    valueAfter p (dropRepeats p l) = valueAfter p l := by
  induction l generalizing p with
  | nil => rfl
  | cons e l ih =>
    rw [dropRepeats, valueAfter_cons]
    split
    · next h => rw [ih, h]
    · rw [valueAfter_cons, ih]

lemma dropRepeats_mem {p : Option β} {l : List (ℕ × β)} {e : ℕ × β}
    (h : e ∈ dropRepeats p l) : e ∈ l := by
  induction l generalizing p with
  | nil => cases h
  | cons x l ih =>
    rw [dropRepeats] at h
    split at h
    · exact mem_cons_of_mem _ (ih h)
    · rcases mem_cons.mp h with rfl | h
      · exact mem_cons_self ..
      · exact mem_cons_of_mem _ (ih h)

/-- The last row kept is the first of the run of equal values that ends the table. -/
lemma getLast?_dropRepeats (l : List (ℕ × β)) (y : ℕ × β)
    (h : (l ++ [y]).IsChain fun x z => x.2 = z.2 → x.1 ≤ z.1) :
    ∃ e, (dropRepeats none (l ++ [y])).getLast? = some e ∧ e.2 = y.2 ∧ e.1 ≤ y.1 := by
  -- the run is extended one row at a time, so the induction is on the table's end
  induction l using reverseRecOn generalizing y with
  | nil => exact ⟨y, by simp [dropRepeats], rfl, le_refl _⟩
  | append_singleton l x ih =>
    rw [dropRepeats_append, valueAfter_concat]
    by_cases hxy : x.2 = y.2
    · obtain ⟨e, he, hev, hek⟩ := ih x (h.left_of_append)
      have hle : x.1 ≤ y.1 := by
        have h' : ([x] ++ [y]).IsChain fun x z => x.2 = z.2 → x.1 ≤ z.1 := by
          rw [append_assoc] at h
          exact h.right_of_append
        simpa [hxy] using h'
      refine ⟨e, ?_, hev.trans hxy, le_trans hek hle⟩
      rw [dropRepeats, if_pos (by rw [hxy]), dropRepeats, append_nil]
      exact he
    · rw [dropRepeats, if_neg (by simpa using hxy)]
      simp [dropRepeats]

end DropRepeats

/-! ## Tables of programs -/

/-- What the table says at `a`: the last row in range, read at its distance from `a`. -/
def readAt (read : β → ℕ → γ) (l : List (ℕ × β)) (a : ℕ) : Option γ :=
  (lastLe l a).map fun e => read e.2 (a - e.1)

section ReadAt

variable (read : β → ℕ → γ)

lemma readAt_append (l m : List (ℕ × β)) (a : ℕ) :
    readAt read (l ++ m) a = (readAt read m a).or (readAt read l a) := by
  rw [readAt, lastLe_append, readAt, readAt]
  cases lastLe m a <;> simp

lemma readAt_cons (e : ℕ × β) (l : List (ℕ × β)) (a : ℕ) : readAt read (e :: l) a =
      (readAt read l a).or (if e.1 ≤ a then some (read e.2 (a - e.1)) else none) := by
  rw [← singleton_append, readAt_append]
  congr 1
  rw [readAt, lastLe_cons]
  split <;> simp

lemma readAt_cons_mk (k : ℕ) (v : β) (l : List (ℕ × β)) (a : ℕ) : readAt read ((k, v) :: l) a =
      (readAt read l a).or (if k ≤ a then some (read v (a - k)) else none) :=
  readAt_cons read (k, v) l a

variable {l : List (ℕ × β)}

lemma readAt_eq_none (h : ∀ e ∈ l, a < e.1) : readAt read l a = none := by
  rw [readAt, lastLe_eq_none h, map_none]

lemma readAt_isSome {e : ℕ × β} (he : e ∈ l) (h : e.1 ≤ a) : (readAt read l a).isSome := by
  rw [readAt, isSome_map]
  exact lastLe_isSome he h

/-- A value whose reading does not depend on the distance. -/
def Flat (v : β) : Prop := ∀ d, read v d = read v 0

variable {read}

lemma Flat.eq {v : β} (h : Flat read v) (d d' : ℕ) : read v d = read v d' :=
  (h d).trans (h d').symm

variable [DecidableEq β]

/-- **Dropping repeats is invisible** when repeated values read the same at every distance and keys
do not decrease. -/
lemma readAt_dropRepeats (l : List (ℕ × β)) (a : ℕ)
    (h : l.IsChain fun x y => x.2 = y.2 → x.1 ≤ y.1 ∧ Flat read y.2) :
    readAt read (dropRepeats none l) a = readAt read l a := by
  -- with the row `e` in force, dropping the repeats of `e` that follow changes nothing
  have key : ∀ (l : List (ℕ × β)) (e : ℕ × β),
      ((e :: l).IsChain fun x y => x.2 = y.2 → x.1 ≤ y.1 ∧ Flat read y.2) →
      readAt read (e :: dropRepeats (some e.2) l) a = readAt read (e :: l) a := by
    intro l
    induction l with
    | nil => intro e _; rfl
    | cons y l ih =>
      intro e hc
      obtain ⟨hey, hyl⟩ := isChain_cons_cons.mp hc
      rw [dropRepeats]
      by_cases hv : e.2 = y.2
      · rw [if_pos (by rw [hv])]
        obtain ⟨hle, hflat⟩ := hey hv
        have hel : (e :: l).IsChain fun x y => x.2 = y.2 → x.1 ≤ y.1 ∧ Flat read y.2 := by
          cases l with
          | nil => simp
          | cons z l =>
            obtain ⟨hyz, hzl⟩ := isChain_cons_cons.mp hyl
            refine isChain_cons_cons.mpr ⟨fun hez => ?_, hzl⟩
            obtain ⟨hyz', hfz⟩ := hyz (hv.symm.trans hez)
            exact ⟨le_trans hle hyz', hfz⟩
        rw [ih e hel, readAt_cons, readAt_cons, readAt_cons]
        cases readAt read l a with
        | some r => simp
        | none =>
          by_cases hya : y.1 ≤ a
          · simp [hya, le_trans hle hya, hv, hflat.eq (a - e.1) (a - y.1)]
          · simp [hya]
      · rw [if_neg (by simpa using hv), readAt_cons, ih y hyl, ← readAt_cons]
  cases l with
  | nil => rfl
  | cons e l => simpa [dropRepeats] using key l e h

end ReadAt

end EbpfProfiler.Lib
