import Mathlib.Data.List.Nodup

/-!
# A least-recently-used cache

What holds of every pair that is added holds of every pair that is found (`Sound`).
-/

namespace EbpfProfiler.Lib

open List

variable {κ ν : Type*} [DecidableEq κ]

/-- A cache with at most `capacity` entries, none of them for the same key. -/
structure Lru (κ ν : Type*) where
  capacity : ℕ
  entries : List (κ × ν)
  nodup : (entries.map Prod.fst).Nodup
  bounded : entries.length ≤ capacity

namespace Lru

def empty (capacity : ℕ) : Lru κ ν := ⟨capacity, [], by simp, by simp⟩

def others (c : Lru κ ν) (k : κ) : List (κ × ν) := c.entries.filter (·.1 ≠ k)

variable {c : Lru κ ν} {k : κ} {v : ν}

lemma mem_others {e : κ × ν} : e ∈ c.others k ↔ e ∈ c.entries ∧ e.1 ≠ k := by
  simp [others]

lemma others_nodup (c : Lru κ ν) (k : κ) : ((c.others k).map Prod.fst).Nodup :=
  c.nodup.sublist (filter_sublist.map Prod.fst)

lemma cons_others_nodup (c : Lru κ ν) (k : κ) (v : ν) :
    (((k, v) :: c.others k).map Prod.fst).Nodup := by
  rw [map_cons, nodup_cons]
  refine ⟨fun h => ?_, c.others_nodup k⟩
  obtain ⟨e, he, hk⟩ := mem_map.mp h
  exact (mem_others.mp he).2 hk

def lookup (c : Lru κ ν) (k : κ) : Option ν :=
  (c.entries.find? (·.1 = k)).map Prod.snd

lemma lookup_mem (h : c.lookup k = some v) : (k, v) ∈ c.entries := by
  obtain ⟨e, he, hv⟩ := Option.map_eq_some_iff.mp h
  have hk : e.1 = k := by simpa using find?_some he
  have hmem := mem_of_find?_eq_some he
  rwa [show e = (k, v) from Prod.ext hk hv] at hmem

/-- The entry of a key that is present, moved to the front. -/
def touch (c : Lru κ ν) (k : κ) (v : ν) (h : (k, v) ∈ c.entries) : Lru κ ν where
  capacity := c.capacity
  entries := (k, v) :: c.others k
  nodup := c.cons_others_nodup k v
  bounded := by
    -- The filter drops at least the entry that comes back in front.
    have hlt : (c.others k).length < c.entries.length := by
      rw [others, length_filter_lt_length_iff_exists]
      exact ⟨(k, v), h, by simp⟩
    have := c.bounded
    rw [length_cons]
    omega

/-- Look a key up and mark it as used. -/
def get (c : Lru κ ν) (k : κ) : Option ν × Lru κ ν :=
  match h : c.lookup k with
  | some v => (some v, c.touch k v (lookup_mem h))
  | none => (none, c)

/-- Store a value for a key; a full cache loses its least recently used entry. -/
def add (c : Lru κ ν) (k : κ) (v : ν) : Lru κ ν where
  capacity := c.capacity
  entries := ((k, v) :: c.others k).take c.capacity
  nodup := (c.cons_others_nodup k v).sublist ((take_sublist _ _).map Prod.fst)
  bounded := by rw [length_take]; exact Nat.min_le_left _ _

lemma get_fst (c : Lru κ ν) (k : κ) : (c.get k).1 = c.lookup k := by
  unfold get
  split
  · next h => exact h.symm
  · next h => exact h.symm

lemma get_of_none (h : c.lookup k = none) : c.get k = (none, c) := by
  unfold get
  split <;> simp_all

lemma get_of_some (h : c.lookup k = some v) : c.get k = (some v, c.touch k v (lookup_mem h)) := by
  unfold get
  split
  · next hv =>
    cases hv.symm.trans h
    rfl
  · next hv => cases hv.symm.trans h

/-! ## What an entry says -/

def Sound (R : κ → ν → Prop) (c : Lru κ ν) : Prop := ∀ e ∈ c.entries, R e.1 e.2

variable {R : κ → ν → Prop} {c : Lru κ ν}

omit [DecidableEq κ] in
lemma sound_empty (capacity : ℕ) : Sound R (empty capacity : Lru κ ν) := by
  intro e he
  cases he

lemma Sound.lookup (h : Sound R c) (hv : c.lookup k = some v) : R k v :=
  h _ (lookup_mem hv)

lemma Sound.get (h : Sound R c) (k : κ) : Sound R (c.get k).2 := by
  unfold Lru.get
  split
  · next v hv =>
    intro e he
    rcases mem_cons.mp he with rfl | he
    · exact h.lookup hv
    · exact h e (mem_others.mp he).1
  · exact h

lemma Sound.add (h : Sound R c) (hkv : R k v) : Sound R (c.add k v) := by
  intro e he
  rcases mem_cons.mp (mem_of_mem_take he) with rfl | he
  · exact hkv
  · exact h e (mem_others.mp he).1

lemma lookup_add (c : Lru κ ν) (k : κ) (v : ν) (h : 0 < c.capacity) :
    (c.add k v).lookup k = some v := by
  obtain ⟨n, hn⟩ := Nat.exists_eq_succ_of_ne_zero (Nat.ne_of_gt h)
  simp [lookup, add, hn]

/-! ## Memoised functions -/

/-- The value of a key from the cache; one that is missing is computed and added. -/
def memo (k : κ) (value : ν) (c : Lru κ ν) : ν × Lru κ ν :=
  match c.get k with
  | (some v, c) => (v, c)
  | (none, c) => (value, c.add k value)

lemma memo_fst (k : κ) (value : ν) (c : Lru κ ν) :
    (c.memo k value).1 = (c.lookup k).getD value := by
  rw [← get_fst, memo]
  rcases c.get k with ⟨_ | v, c⟩ <;> rfl

lemma memo_empty (k : κ) (value : ν) (n : ℕ) :
    (empty n : Lru κ ν).memo k value = (value, (empty n).add k value) := rfl

lemma Sound.memo (h : Sound R c) {value : ν} (hv : R k value) : Sound R (c.memo k value).2 := by
  have hget := h.get k
  rw [Lru.memo]
  split
  · next heq =>
    rw [heq] at hget
    exact hget
  · next heq =>
    rw [heq] at hget
    exact hget.add hv

end Lru

/-- The answers to a sequence of calls. -/
def answers {α σ ρ : Type*} (step : α → σ → ρ × σ) : List α → σ → List ρ
  | [], _ => []
  | a :: as, s => (step a s).1 :: answers step as (step a s).2

/-- If an invariant makes each answer right, the answers to all calls are right. -/
lemma answers_eq_map {α σ ρ : Type*} {step : α → σ → ρ × σ} {f : α → ρ} {I : σ → Prop} {as : List α}
    {s : σ} (hs : I s) (hstep : ∀ a ∈ as, ∀ s, I s → (step a s).1 = f a ∧ I (step a s).2) :
    answers step as s = as.map f := by
  induction as generalizing s with
  | nil => rfl
  | cons a as ih =>
    obtain ⟨hanswer, hnext⟩ := hstep a mem_cons_self s hs
    rw [answers, hanswer, ih hnext fun b hb => hstep b (mem_cons_of_mem a hb), map_cons]

end EbpfProfiler.Lib
