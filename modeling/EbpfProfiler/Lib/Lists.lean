import Mathlib.Data.List.Sort
import Mathlib.Data.List.SplitBy
import EbpfProfiler.Lib.Bisect

/-!
# Lists sorted by a key, and lists split into runs

Of a `Sorter` nothing is known but that it sorts. A run ends where neighbours are not related.
-/

namespace EbpfProfiler.Lib

open List

/-! ## Sorting and searching -/

/-- A sort that need not keep the order of elements that compare as equal. -/
structure Sorter {α : Type} (le : α → α → Prop) where
  sort : List α → List α
  perm : ∀ l, (sort l).Perm l
  sorted : ∀ l, (sort l).Pairwise le

/-- One such sort. -/
def Sorter.insertion {α : Type} (le : α → α → Prop) [DecidableRel le] [Std.Total le]
    [IsTrans α le] : Sorter le where
  sort := List.insertionSort le
  perm := perm_insertionSort le
  sorted := pairwise_insertionSort le

section Search

variable {α : Type} {key : α → ℕ} {l : List α}

/-- `slices.BinarySearchFunc` for the first element whose key is not below `a`. -/
def lowerBound (key : α → ℕ) (l : List α) (a : ℕ) : ℕ :=
  firstPassing (fun i => (l[i]?).any fun x => a ≤ key x) l.length

lemma lowerBound_le (key : α → ℕ) (l : List α) (a : ℕ) : lowerBound key l a ≤ l.length :=
  (firstPassing_found _ _).le_hi

lemma lt_lowerBound_iff (h : l.Pairwise fun x y => key x ≤ key y) (a : ℕ) {i : ℕ}
    (hi : i < l.length) : i < lowerBound key l a ↔ key l[i] < a := by
  have hfound := firstPassing_found (fun i => (l[i]?).any fun x => a ≤ key x) l.length
  have hle := hfound.le_hi
  rw [← lowerBound] at hfound hle
  have hmono : ∀ {j k : ℕ} (hj : j < l.length) (hk : k < l.length), j ≤ k →
      key l[j] ≤ key l[k] := by
    intro j k hj hk hjk
    rcases Nat.eq_or_lt_of_le hjk with rfl | hlt
    · exact le_rfl
    · exact pairwise_iff_getElem.mp h j k hj hk hlt
  constructor
  · intro hlt
    have hfail := hfound.fail (by omega)
    have hr : lowerBound key l a - 1 < l.length := by omega
    simp [hr] at hfail
    exact lt_of_le_of_lt (hmono hi hr (by omega)) hfail
  · by_contra hge
    have hr : lowerBound key l a < l.length := by omega
    have hpass := hfound.pass hr
    simp [hr] at hpass
    have hle' := hmono hr hi (by omega)
    omega

end Search

/-! ## Runs -/

section Runs

variable {α : Type} {r : α → α → Bool} {l : List α}

lemma exists_last_run {x : α} (hx : l.getLast? = some x) :
    ∃ runs run, l.splitBy r = runs ++ [run] ∧ run.getLast? = some x := by
  have hl : l ≠ [] := by
    intro hnil
    rw [hnil] at hx
    cases hx
  have hsplit : l.splitBy r ≠ [] := splitBy_ne_nil.mpr hl
  have hrun : (l.splitBy r).getLast hsplit ≠ [] := ne_nil_of_mem_splitBy (getLast_mem _)
  refine ⟨(l.splitBy r).dropLast, (l.splitBy r).getLast hsplit,
    (dropLast_append_getLast hsplit).symm, ?_⟩
  rw [getLast?_eq_some_getLast hrun, getLast_getLast_splitBy r hl, ← getLast?_eq_some_getLast hl,
    hx]

lemma splitBy_concat {x b : α} (hx : l.getLast? = some x) (hr : r x b = true) {runs : List (List α)}
    {run : List α} (heq : l.splitBy r = runs ++ [run]) :
    (l ++ [b]).splitBy r = runs ++ [run ++ [b]] := by
  have hlast : run.getLast? = some x := by
    obtain ⟨runs', run', heq', hlast⟩ := exists_last_run hx (r := r)
    obtain ⟨-, rfl⟩ := append_singleton_inj.mp (heq.symm.trans heq')
    exact hlast
  obtain ⟨hflat, hnil, hchain, hborder⟩ := splitBy_eq_iff.mp heq
  rw [splitBy_eq_iff]
  refine ⟨by simp [hflat], by simp_all, ?_, ?_⟩
  · intro m hm
    rw [mem_append, mem_singleton] at hm
    rcases hm with hm | rfl
    · exact hchain m (mem_append_left _ hm)
    · rw [isChain_append]
      refine ⟨hchain run (by simp), isChain_singleton _, ?_⟩
      intro y hy z hz
      rw [hlast] at hy
      cases hy
      cases hz
      exact hr
  · -- the borders between the runs stay where they are
    rw [isChain_append] at hborder ⊢
    refine ⟨hborder.1, isChain_singleton _, ?_⟩
    intro m hm n hn
    cases hn
    obtain ⟨ha, hb, hfalse⟩ := hborder.2.2 m hm run rfl
    refine ⟨ha, by simp, ?_⟩
    rw [head_append_of_ne_nil hb]
    exact hfalse

lemma splitBy_concat_of_not {b : α} (h : ∀ x ∈ l.getLast?, r x b = false) :
    (l ++ [b]).splitBy r = l.splitBy r ++ [[b]] := by
  rw [splitBy_append]
  · rfl
  · intro x hx y hy
    cases hy
    exact h x hx

end Runs

end EbpfProfiler.Lib
