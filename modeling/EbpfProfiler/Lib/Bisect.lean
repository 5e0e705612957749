import Mathlib.Algebra.Ring.Nat
import Mathlib.Data.List.Basic
import Mathlib.Order.Basic

/-!
# Bisection with a bounded number of steps

`bisect` halves a window until it is closed, `search` finds the first index that passes a test
that may fail, `bracket` the last one.
-/

namespace EbpfProfiler.Lib

variable {ε : Type} {hi k lo n r : ℕ} {test : ℕ → Bool}

/-- One step: test the middle, keep the half with the border. -/
def bisectStep (test : ℕ → Bool) (lo hi : ℕ) : (ℕ × ℕ) × Bool :=
  let pivot := (lo + hi) / 2
  let window := if test pivot then (pivot + 1, hi) else (lo, pivot)
  (window, window.1 < window.2)

def bisect (test : ℕ → Bool) : ℕ → ℕ → ℕ → Option (ℕ × ℕ)
  | 0, _, _ => none
  | n + 1, lo, hi =>
    match bisectStep test lo hi with
    | (window, true) => bisect test n window.1 window.2
    | (window, false) => some window

/-- The test passes below the border `r` and fails from there on. -/
structure Border (test : ℕ → Bool) (lo hi r : ℕ) : Prop where
  lo_le : lo ≤ r
  le_hi : r ≤ hi
  pass : ∀ i, lo ≤ i → i < r → test i = true
  fail : ∀ i, r ≤ i → i < hi → test i = false

/-- **Step lemma.** A step keeps the border in the window and halves the window. -/
lemma bisectStep_border (h : Border test lo hi r) (hlt : lo < hi) :
    Border test (bisectStep test lo hi).1.1 (bisectStep test lo hi).1.2 r ∧
      (bisectStep test lo hi).1.2 - (bisectStep test lo hi).1.1 ≤ (hi - lo) / 2 := by
  obtain ⟨hlo, hhi, hpass, hfail⟩ := h
  rw [bisectStep]
  dsimp only
  cases ht : test ((lo + hi) / 2) with
  | true =>
    have hr : (lo + hi) / 2 < r := by
      by_contra hge
      rw [hfail _ (by omega) (by omega)] at ht
      cases ht
    rw [if_pos rfl]
    refine ⟨⟨hr, hhi, ?_, hfail⟩, by omega⟩
    intro i hi' hir
    exact hpass i (by omega) hir
  | false =>
    have hr : r ≤ (lo + hi) / 2 := by
      by_contra hge
      rw [hpass _ (by omega) (by omega)] at ht
      cases ht
    rw [if_neg (by simp)]
    refine ⟨⟨hlo, hr, hpass, ?_⟩, by omega⟩
    intro i hir hi'
    exact hfail i hir (by omega)

/-- **Run lemma.** A window below `2 ^ n` is closed within `n` steps, at the border. -/
lemma bisect_eq (h : Border test lo hi r) (hlt : lo < hi) (hsize : hi - lo < 2 ^ n) :
    bisect test n lo hi = some (r, r) := by
  induction n generalizing lo hi with
  | zero => omega
  | succ n ih =>
    obtain ⟨hborder, hhalf⟩ := bisectStep_border h hlt
    rw [bisect]
    rcases hstep : bisectStep test lo hi with ⟨window, more⟩
    rw [hstep] at hborder hhalf
    have hmore : more = decide (window.1 < window.2) := by
      cases hstep
      rfl
    have hle := hborder.lo_le
    have hle' := hborder.le_hi
    dsimp only at hle hle'
    by_cases hopen : window.1 < window.2
    · rw [hmore, decide_eq_true hopen]
      exact ih hborder hopen (by dsimp only at hhalf; omega)
    · rw [hmore, decide_eq_false hopen]
      have hwindow : window = (r, r) := Prod.ext (by omega) (by omega)
      rw [hwindow]

/-- Where `p` is downward closed, the first `countP p` elements pass. -/
lemma getElem_iff_lt_countP {α : Type*} {p : α → Bool} {l : List α}
    (h : l.Pairwise fun x y => p y = true → p x = true) {i : ℕ} (hi : i < l.length) :
    p l[i] = true ↔ i < l.countP p := by
  induction l generalizing i with
  | nil => cases hi
  | cons x l ih =>
    obtain ⟨hx, hl⟩ := List.pairwise_cons.mp h
    rw [List.countP_cons]
    by_cases hpx : p x = true
    · rw [if_pos hpx]
      cases i with
      | zero => simp [hpx]
      | succ i => simpa using ih hl (by simpa using hi)
    · -- nothing passes behind an element that fails
      have hnone : l.countP p = 0 := by
        rw [List.countP_eq_zero]
        intro y hy hpy
        exact hpx (hx y hy hpy)
      rw [if_neg hpx, hnone]
      cases i with
      | zero => simp [hpx]
      | succ i =>
        have hlen : i < l.length := by simpa using hi
        constructor
        · intro hpy
          exact absurd (hx l[i] (List.getElem_mem hlen) hpy) hpx
        · omega

/-! ## Searching with a test that may fail -/

/-- `sort.Search` in the window `[lo, hi)`, at most `n` steps. -/
def search {ε : Type} (test : ℕ → Except ε Bool) : ℕ → ℕ → ℕ → Except ε ℕ
  | 0, lo, _ => .ok lo
  | n + 1, lo, hi =>
    if lo < hi then
      match test ((lo + hi) / 2) with
      | .error e => .error e
      | .ok true => search test n lo ((lo + hi) / 2)
      | .ok false => search test n ((lo + hi) / 2 + 1) hi
    else .ok lo

/-- Where a search can end: behind an index that does not pass, on one that does. -/
structure Found {ε : Type} (test : ℕ → Except ε Bool) (lo hi r : ℕ) : Prop where
  lo_le : lo ≤ r
  le_hi : r ≤ hi
  fail : lo < r → test (r - 1) = .ok false
  pass : r < hi → test r = .ok true

lemma search_ok {test : ℕ → Except ε Bool} (n : ℕ)
    (htest : ∀ i, lo ≤ i → i < hi → ∃ b, test i = .ok b) : ∃ r, search test n lo hi = .ok r := by
  induction n generalizing lo hi with
  | zero => exact ⟨lo, rfl⟩
  | succ n ih =>
    rw [search]
    by_cases hlt : lo < hi
    · obtain ⟨b, hb⟩ := htest ((lo + hi) / 2) (by omega) (by omega)
      rw [if_pos hlt, hb]
      cases b with
      | true => exact ih fun i hi' hi'' => htest i hi' (by omega)
      | false => exact ih fun i hi' hi'' => htest i (by omega) hi''
    · exact ⟨lo, if_neg hlt⟩

lemma search_found {test : ℕ → Except ε Bool} (hle : lo ≤ hi) (hsize : hi - lo < 2 ^ n)
    (h : search test n lo hi = .ok r) : Found test lo hi r := by
  induction n generalizing lo hi with
  | zero =>
    have hlo : lo = r := Except.ok.inj h
    exact ⟨by omega, by omega, by omega, by omega⟩
  | succ n ih =>
    rw [search] at h
    by_cases hlt : lo < hi
    · rw [if_pos hlt] at h
      rcases hmid : test ((lo + hi) / 2) with e | b
      · rw [hmid] at h
        cases h
      · rw [hmid] at h
        cases b with
        | true =>
          have hfound := ih (by omega) (by omega) h
          have hle' := hfound.le_hi
          refine ⟨hfound.lo_le, by omega, hfound.fail, fun _ => ?_⟩
          -- either the result is inside the lower half, or it is the middle
          by_cases hr : r < (lo + hi) / 2
          · exact hfound.pass hr
          · rw [show r = (lo + hi) / 2 by omega]
            exact hmid
        | false =>
          have hfound := ih (by omega) (by omega) h
          have hle' := hfound.lo_le
          refine ⟨by omega, hfound.le_hi, fun _ => ?_, hfound.pass⟩
          by_cases hr : (lo + hi) / 2 + 1 < r
          · exact hfound.fail hr
          · rw [show r - 1 = (lo + hi) / 2 by omega]
            exact hmid
    · rw [if_neg hlt] at h
      cases h
      exact ⟨le_rfl, hle, by omega, by omega⟩

/-- `sort.Search` over `n` indices with a test that does not fail. -/
def firstPassing (test : ℕ → Bool) (n : ℕ) : ℕ :=
  match search (fun i => (.ok (test i) : Except Empty Bool)) n 0 n with
  | .ok r => r
  | .error e => nomatch e

lemma firstPassing_found (test : ℕ → Bool) (n : ℕ) :
    Found (fun i => (.ok (test i) : Except Empty Bool)) 0 n (firstPassing test n) := by
  unfold firstPassing
  split
  · next r h => exact search_found (Nat.zero_le n) n.lt_two_pow_self h
  · next e _ => exact nomatch e

/-! ## Where a search ends -/

/-- The at most `n` indices that a search in `[lo, hi)` looks at to end on `k`. -/
def probes (k : ℕ) : ℕ → ℕ → ℕ → List ℕ
  | 0, _, _ => []
  | n + 1, lo, hi =>
    if lo < hi then
      (lo + hi) / 2 ::
        (if (lo + hi) / 2 < k then probes k n ((lo + hi) / 2 + 1) hi else probes k n lo
          ((lo + hi) / 2))
    else []

/-- A search ends on `k` exactly when the test is right at the indices on the way. -/
lemma search_eq_iff {test : ℕ → Except ε Bool} (hlo : lo ≤ k) (hhi : k ≤ hi)
    (hsize : hi - lo < 2 ^ n) : search test n lo hi = .ok k ↔
      ∀ h ∈ probes k n lo hi, test h = .ok (decide (k ≤ h)) := by
  induction n generalizing lo hi with
  | zero =>
    have hk : lo = k := by
      omega
    subst hk
    simp [search, probes]
  | succ n ih =>
    rw [search, probes]
    by_cases hlt : lo < hi
    · rw [if_pos hlt, if_pos hlt, List.forall_mem_cons]
      by_cases hk : (lo + hi) / 2 < k
      · rw [if_pos hk, decide_eq_false (by omega : ¬k ≤ (lo + hi) / 2)]
        rcases ht : test ((lo + hi) / 2) with e | _ | _
        · simp
        · rw [and_iff_right rfl]
          exact ih (by omega) hhi (by omega)
        · -- the window that is left lies below `k`
          have hne : search test n lo ((lo + hi) / 2) ≠ .ok k := by
            intro h
            have hle := (search_found (by omega) (by omega) h).le_hi
            omega
          simp [hne]
      · rw [if_neg hk, decide_eq_true (by omega : k ≤ (lo + hi) / 2)]
        rcases ht : test ((lo + hi) / 2) with e | _ | _
        · simp
        · have hne : search test n ((lo + hi) / 2 + 1) hi ≠ .ok k := by
            intro h
            have hle := (search_found (by omega) (by omega) h).lo_le
            omega
          simp [hne]
        · rw [and_iff_right rfl]
          exact ih hlo (by omega) (by omega)
    · have hk : lo = k := by omega
      rw [if_neg hlt, if_neg hlt]
      simp [hk]

lemma firstPassing_eq_iff (test : ℕ → Bool) (hk : k ≤ n) :
    firstPassing test n = k ↔ ∀ h ∈ probes k n 0 n, (test h = true ↔ k ≤ h) := by
  have hside (h : ℕ) : (.ok (test h) : Except Empty Bool) = .ok (decide (k ≤ h)) ↔
      (test h = true ↔ k ≤ h) := by
    rw [Except.ok.injEq, Bool.eq_iff_iff, decide_eq_true_eq]
  simp only [← hside]
  rw [← search_eq_iff (Nat.zero_le k) hk n.lt_two_pow_self]
  unfold firstPassing
  split
  · next r h => rw [h, Except.ok.injEq]
  · next e _ => exact nomatch e

lemma mem_probes_pred (hlo : lo ≤ k) (hhi : k < hi) (hsize : hi - lo < 2 ^ n) :
    k ∈ probes (k + 1) n lo hi := by
  induction n generalizing lo hi with
  | zero =>
    omega
  | succ n ih =>
    rw [probes, if_pos (by omega), List.mem_cons]
    by_cases hmid : (lo + hi) / 2 < k + 1
    · rw [if_pos hmid]
      by_cases heq : k = (lo + hi) / 2
      · exact .inl heq
      · exact .inr (ih (by omega) hhi (by omega))
    · rw [if_neg hmid]
      exact .inr (ih hlo (by omega) (by omega))

lemma lt_of_mem_probes {h : ℕ} (hmem : h ∈ probes k n lo hi) : lo ≤ h ∧ h < hi := by
  induction n generalizing lo hi with
  | zero => cases hmem
  | succ n ih =>
    rw [probes] at hmem
    by_cases hlt : lo < hi
    · rw [if_pos hlt, List.mem_cons] at hmem
      rcases hmem with rfl | hmem
      · omega
      · split at hmem <;> have := ih hmem <;> omega
    · rw [if_neg hlt] at hmem
      cases hmem

/-! ## Searching for the last index that passes -/

/-- The search in `[lo, hi)` with `n` steps: the middle is tested, then the index behind it. -/
def bracket (test : ℕ → Bool) : ℕ → ℕ → ℕ → Option ℕ
  | 0, _, _ => none
  | n + 1, lo, hi =>
    if lo < hi then
      if test (lo + (hi - lo) / 2) = false then bracket test n lo (lo + (hi - lo) / 2)
      else if lo + (hi - lo) / 2 + 1 < hi then
        if test (lo + (hi - lo) / 2 + 1) then bracket test n (lo + (hi - lo) / 2 + 1) hi
        else some (lo + (hi - lo) / 2)
      else some (lo + (hi - lo) / 2)
    else none

/-- The last index of the window that passes. -/
structure LastPassing (test : ℕ → Bool) (lo hi i : ℕ) : Prop where
  lo_le : lo ≤ i
  lt_hi : i < hi
  pass : test i = true
  next : i + 1 < hi → test (i + 1) = false

lemma bracket_eq_some_iff {i : ℕ} (hclosed : ∀ j k, j ≤ k → k < hi → test k = true → test j = true)
    (hsize : hi - lo ≤ n) :
    bracket test n lo hi = some i ↔ LastPassing test lo hi i := by
  induction n generalizing lo hi with
  | zero =>
    refine iff_of_false (by simp [bracket]) ?_
    intro h
    have hlo := h.lo_le
    have hhi := h.lt_hi
    omega
  | succ n ih =>
    rw [bracket]
    by_cases hlt : lo < hi
    · rw [if_pos hlt]
      generalize hmid : lo + (hi - lo) / 2 = mid
      have hlo : lo ≤ mid := by omega
      have hhi : mid < hi := by omega
      cases htest : test mid with
      | false =>
        rw [if_pos rfl, ih (fun j k hjk hk => hclosed j k hjk (by omega)) (by omega)]
        constructor
        · intro h
          refine ⟨h.lo_le, lt_trans h.lt_hi hhi, h.pass, ?_⟩
          intro _
          rcases lt_or_ge (i + 1) mid with hi' | hi'
          · exact h.next hi'
          · rw [show i + 1 = mid from le_antisymm h.lt_hi hi']
            exact htest
        · intro h
          refine ⟨h.lo_le, ?_, h.pass, fun hi' => h.next (lt_trans hi' hhi)⟩
          by_contra hge
          have hmidPass := hclosed mid i (by omega) h.lt_hi h.pass
          rw [htest] at hmidPass
          cases hmidPass
      | true =>
        rw [if_neg (by decide)]
        -- an index that is the last one to pass is not below one that passes
        have hge (h : LastPassing test lo hi i) {k : ℕ} (hk : k < hi) (hpass : test k = true) :
            k ≤ i := by
          by_contra hgt
          have hnext := hclosed (i + 1) k (by omega) hk hpass
          rw [h.next (by omega)] at hnext
          cases hnext
        have hfound (hnext : mid + 1 < hi → test (mid + 1) = false) :
            some mid = some i ↔ LastPassing test lo hi i := by
          constructor
          · intro h
            cases h
            exact ⟨hlo, hhi, htest, hnext⟩
          · intro h
            have hle := hge h hhi htest
            rcases lt_or_ge mid i with hgt | hle'
            · have hpass := hclosed (mid + 1) i hgt h.lt_hi h.pass
              rw [hnext (lt_of_le_of_lt hgt h.lt_hi)] at hpass
              cases hpass
            · rw [le_antisymm hle hle']
        by_cases hnext : mid + 1 < hi
        · rw [if_pos hnext]
          cases htest' : test (mid + 1) with
          | true =>
            rw [if_pos rfl, ih hclosed (by omega)]
            constructor
            · intro h
              exact ⟨by have := h.lo_le; omega, h.lt_hi, h.pass, h.next⟩
            · intro h
              exact ⟨hge h hnext htest', h.lt_hi, h.pass, h.next⟩
          | false =>
            exact hfound fun _ => htest'
        · rw [if_neg hnext]
          exact hfound fun h => absurd h hnext
    · rw [if_neg hlt]
      refine iff_of_false (by simp) ?_
      intro h
      have hlo := h.lo_le
      have hhi := h.lt_hi
      omega

end EbpfProfiler.Lib
