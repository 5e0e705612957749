import Mathlib.Data.List.Basic
import Mathlib.Algebra.Order.Group.Nat

/-!
# Segments that tile an interval

Every point of the interval is in exactly one segment.
-/

namespace EbpfProfiler.Lib

lemma div_two_pow_eq_iff {k start x : ℕ} (h : 2 ^ k ∣ start) :
    x / 2 ^ k = start / 2 ^ k ↔ start ≤ x ∧ x < start + 2 ^ k := by
  obtain ⟨c, rfl⟩ := h
  have hpos := Nat.two_pow_pos k
  rw [Nat.mul_div_cancel_left c hpos, Nat.div_eq_iff hpos, mul_comm]
  omega

lemma aligned_nested {i j s t x : ℕ} (hs : 2 ^ i ∣ s) (ht : 2 ^ j ∣ t) (hij : i ≤ j)
    (hsx : s ≤ x ∧ x < s + 2 ^ i) (htx : t ≤ x ∧ x < t + 2 ^ j) :
    t ≤ s ∧ s + 2 ^ i ≤ t + 2 ^ j := by
  obtain ⟨c, rfl⟩ := hs
  obtain ⟨d, rfl⟩ := ht
  obtain ⟨e, he⟩ := Nat.pow_dvd_pow 2 hij
  -- in units of the smaller block, the larger one begins at `e * d` and has `e` of them
  rw [he, mul_assoc] at htx ⊢
  have hlow : e * d < c + 1 := by
    apply Nat.lt_of_mul_lt_mul_left (a := 2 ^ i)
    rw [Nat.mul_add]
    omega
  have hhigh : c < e * d + e := by
    apply Nat.lt_of_mul_lt_mul_left (a := 2 ^ i)
    rw [Nat.mul_add]
    omega
  constructor
  · exact Nat.mul_le_mul_left _ (Nat.le_of_lt_succ hlow)
  · have := Nat.mul_le_mul_left (2 ^ i) (Nat.succ_le_of_lt hhigh)
    rw [Nat.mul_add] at this
    exact this

/-- The segments tile `[a, b)`. -/
def Tiles : List (ℕ × ℕ) → ℕ → ℕ → Prop
  | [], a, b => a = b
  | (start, size) :: rest, a, b => start = a ∧ 0 < size ∧ Tiles rest (a + size) b

namespace Tiles

variable {segments : List (ℕ × ℕ)} {a b : ℕ}

section
variable (h : Tiles segments a b)
include h

lemma le : a ≤ b := by
  induction segments generalizing a with
  | nil => exact le_of_eq h
  | cons p rest ih =>
    obtain ⟨-, -, hrest⟩ := h
    exact (Nat.le_add_right _ _).trans (ih hrest)

lemma bounds {p : ℕ × ℕ} (hp : p ∈ segments) : a ≤ p.1 ∧ 0 < p.2 ∧ p.1 + p.2 ≤ b := by
  induction segments generalizing a with
  | nil => cases hp
  | cons q rest ih =>
    obtain ⟨hstart, hsize, hrest⟩ := h
    rcases List.mem_cons.mp hp with rfl | hp
    · exact ⟨hstart.ge, hsize, hstart ▸ hrest.le⟩
    · obtain ⟨hle, hpos, hend⟩ := ih hrest hp
      exact ⟨by omega, hpos, hend⟩

lemma exists_mem {x : ℕ} (hx : a ≤ x) (hxb : x < b) : ∃ p ∈ segments, p.1 ≤ x ∧ x < p.1 + p.2 := by
  induction segments generalizing a with
  | nil =>
    have hab : a = b := h
    omega
  | cons q rest ih =>
    obtain ⟨hstart, hsize, hrest⟩ := h
    by_cases hin : x < a + q.2
    · exact ⟨q, List.mem_cons_self, by omega, by omega⟩
    · obtain ⟨p, hp, hpx⟩ := ih hrest (by omega)
      exact ⟨p, List.mem_cons_of_mem q hp, hpx⟩

lemma unique {p q : ℕ × ℕ} (hp : p ∈ segments) (hq : q ∈ segments) {x : ℕ}
    (hpx : p.1 ≤ x ∧ x < p.1 + p.2) (hqx : q.1 ≤ x ∧ x < q.1 + q.2) : p = q := by
  induction segments generalizing a with
  | nil => cases hp
  | cons s rest ih =>
    obtain ⟨hstart, -, hrest⟩ := h
    rcases List.mem_cons.mp hp with hps | hpr
    · rcases List.mem_cons.mp hq with hqs | hqr
      · rw [hps, hqs]
      · have := (hrest.bounds hqr).1
        rw [hps] at hpx
        omega
    · rcases List.mem_cons.mp hq with hqs | hqr
      · have := (hrest.bounds hpr).1
        rw [hqs] at hqx
        omega
      · exact ih hrest hpr hqr

lemma pairwise : segments.Pairwise fun p q => p.1 + p.2 ≤ q.1 ∧ 0 < p.2 := by
  induction segments generalizing a with
  | nil => exact List.Pairwise.nil
  | cons s rest ih =>
    obtain ⟨hstart, hsize, hrest⟩ := h
    refine List.pairwise_cons.mpr ⟨fun q hq => ?_, ih hrest⟩
    have := (hrest.bounds hq).1
    exact ⟨by omega, hsize⟩

lemma nodup : segments.Nodup := by
  refine h.pairwise.imp fun {p q} hpq heq => ?_
  rw [heq] at hpq
  omega

end

end Tiles

end EbpfProfiler.Lib
