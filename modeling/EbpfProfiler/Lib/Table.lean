import Mathlib.Algebra.Ring.Nat
import Mathlib.Data.List.AList
import Mathlib.Algebra.BigOperators.Group.List.Basic

/-!
# Sums over the entries of a finite map

Inserting and erasing change `total` by the term of the one key they touch.
-/

namespace EbpfProfiler.Lib

open List

/-- A finite map from `κ` to `ν`. -/
abbrev Table (κ ν : Type*) := AList fun _ : κ => ν

namespace Table

variable {κ ν : Type*}

/-- The sum of `f` over the entries. -/
def total (f : κ → ν → ℕ) (t : Table κ ν) : ℕ := (t.entries.map fun e => f e.1 e.2).sum

variable {f : κ → ν → ℕ} {t : Table κ ν} {k : κ} {v : ν} {l : List (κ × ν)}

lemma total_congr {g : κ → ν → ℕ}
    (h : ∀ e ∈ t.entries, f e.1 e.2 = g e.1 e.2) : total f t = total g t := by
  unfold total
  rw [map_congr_left h]

variable [DecidableEq κ]

lemma mem_entries_iff : ⟨k, v⟩ ∈ t.entries ↔ t.lookup k = some v := AList.mem_lookup_iff.symm

/-- The term of a key, zero if the map has no entry for it. -/
def termAt (f : κ → ν → ℕ) (t : Table κ ν) (k : κ) : ℕ := (t.lookup k).elim 0 (f k)

@[simp] lemma termAt_some (h : t.lookup k = some v) : termAt f t k = f k v := by
  rw [termAt, h]
  rfl

@[simp] lemma termAt_none (h : t.lookup k = none) : termAt f t k = 0 := by
  rw [termAt, h]
  rfl

lemma entries_perm_erase (h : t.lookup k = some v) :
    t.entries.Perm (⟨k, v⟩ :: (t.erase k).entries) := by
  have hk : k ∈ t.keys := AList.lookup_isSome.mp (by rw [h]; rfl)
  obtain ⟨w, l₁, l₂, -, hl, herase⟩ := exists_of_kerase hk
  have hw : t.lookup k = some w := mem_entries_iff.mp (by rw [hl]; simp)
  have hvw : v = w := Option.some.inj (h.symm.trans hw)
  have hentries : (t.erase k).entries = l₁ ++ l₂ := herase
  rw [hentries, hl, hvw]
  exact perm_middle

lemma entries_erase_of_none (h : t.lookup k = none) : (t.erase k).entries = t.entries :=
  kerase_of_notMem_keys (AList.lookup_eq_none.mp h)

lemma total_erase_add (f : κ → ν → ℕ) (t : Table κ ν) (k : κ) :
    total f (t.erase k) + termAt f t k = total f t := by
  cases h : t.lookup k with
  | some v =>
    have hsum := ((entries_perm_erase h).map fun e => f e.1 e.2).sum_eq
    rw [map_cons, sum_cons] at hsum
    rw [termAt_some h, total, total, hsum, add_comm]
  | none => rw [termAt_none h, total, total, entries_erase_of_none h, add_zero]

lemma total_add_termAt {g : κ → ν → ℕ} (h : ∀ j, j ≠ k → f j = g j)
    (t : Table κ ν) : total f t + termAt g t k = total g t + termAt f t k := by
  have hf := total_erase_add f t k
  have hg := total_erase_add g t k
  have herase : total f (t.erase k) = total g (t.erase k) := by
    refine total_congr fun e he => ?_
    have hlookup : (t.erase k).lookup e.1 = some e.2 := mem_entries_iff.mp he
    have hne : e.1 ≠ k := by
      intro hek
      rw [hek, AList.lookup_erase] at hlookup
      cases hlookup
    rw [h e.1 hne]
  omega

section
variable (f : κ → ν → ℕ) (t : Table κ ν) (k : κ) (v : ν)

lemma total_insert : total f (t.insert k v) = f k v + total f (t.erase k) := by
  rfl

lemma total_insert_add : total f (t.insert k v) + termAt f t k = f k v + total f t := by
  have := total_erase_add f t k
  rw [total_insert]
  omega

end

/-! ### Maps from lists -/

/-- The map of a list of entries; later ones replace earlier ones. -/
def ofList (l : List (κ × ν)) : Table κ ν := l.foldl (fun t e => t.insert e.1 e.2) ∅

lemma lookup_foldl_insert (hnodup : (l.map Prod.fst).Nodup) (t : Table κ ν) (k : κ)
    (v : ν) : (l.foldl (fun t e => t.insert e.1 e.2) t).lookup k = some v ↔
      (k, v) ∈ l ∨ k ∉ l.map Prod.fst ∧ t.lookup k = some v := by
  induction l generalizing t with
  | nil => simp
  | cons e l ih =>
    rw [map_cons, nodup_cons] at hnodup
    rw [foldl_cons, ih hnodup.2]
    by_cases hk : k = e.1
    · -- no later entry has this key
      subst hk
      have hnot : (e.1, v) ∉ l := fun hmem => hnodup.1 (mem_map.mpr ⟨_, hmem, rfl⟩)
      simp [hnot, hnodup.1, Prod.ext_iff, eq_comm]
    · simp [hk, Prod.ext_iff]

lemma lookup_ofList (hnodup : (l.map Prod.fst).Nodup) (k : κ) (v : ν) :
    (ofList l).lookup k = some v ↔ (k, v) ∈ l := by
  rw [ofList, lookup_foldl_insert hnodup]
  simp

lemma length_erase_add_one (h : t.lookup k = some v) :
    (t.erase k).entries.length + 1 = t.entries.length := by
  rw [(entries_perm_erase h).length_eq, length_cons]

lemma length_insert_le (t : Table κ ν) (k : κ) (v : ν) :
    (t.insert k v).entries.length ≤ t.entries.length + 1 := by
  exact Nat.succ_le_succ (kerase_sublist k t.entries).length_le

lemma length_ofList_le (l : List (κ × ν)) : (ofList l).entries.length ≤ l.length := by
  have hgen : ∀ t : Table κ ν, (l.foldl (fun t e => t.insert e.1 e.2) t).entries.length ≤
      t.entries.length + l.length := by
    induction l with
    | nil => exact fun t => le_rfl
    | cons e l ih =>
      intro t
      have hle := ih (t.insert e.1 e.2)
      have hone := length_insert_le t e.1 e.2
      rw [foldl_cons, length_cons]
      omega
  have hle := hgen ∅
  rw [ofList]
  simpa using hle

lemma termAt_le_total (f : κ → ν → ℕ) (t : Table κ ν) (k : κ) : termAt f t k ≤ total f t := by
  have := total_erase_add f t k
  omega

end Table

end EbpfProfiler.Lib
