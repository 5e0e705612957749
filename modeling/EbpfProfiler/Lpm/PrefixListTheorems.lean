import EbpfProfiler.Lpm.PrefixList
import Mathlib.Data.Finset.Card

/-!
# The prefixes of a range are as few as possible

No aligned block inside the range reaches over an address at which a step begins.
-/

namespace EbpfProfiler.Lpm

open Lib

variable {blocks : Finset (ℕ × ℕ)} {currentVal start «end» : ℕ}

lemma le_calculateRmb {m : ℕ} (h : currentVal < «end») (hend : «end» < 2 ^ 64)
    (hdvd : 2 ^ m ∣ currentVal) (hfit : currentVal + 2 ^ m ≤ «end») :
    2 ^ m ≤ calculateRmb currentVal «end» := by
  obtain ⟨k, j, hk, hj, heq, hle, hmax, hval⟩ := calculateRmb_spec h hend
  rw [heq]
  apply Nat.pow_le_pow_right (by decide)
  by_contra hlt
  have hpow : 2 ^ (j + 1) ≤ 2 ^ m := Nat.pow_le_pow_right (by decide) (by omega)
  rcases hmax with rfl | hmax
  · rcases hval with ⟨rfl, rfl⟩ | ⟨c, hc⟩
    · omega
    · -- a larger power of two does not divide the address
      have hodd : 2 ^ (j + 1) ∣ 2 ^ j * (2 * c + 1) :=
        hc ▸ (Nat.pow_dvd_pow 2 (by omega : j + 1 ≤ m)).trans hdvd
      have := Nat.dvd_of_mul_dvd_mul_left (Nat.two_pow_pos j) hodd
      omega
  · omega

/-! ## Blocks that reach over an address -/

/-- An aligned block inside `[start, end)` that has an address and the one before it. -/
structure Straddles (start «end» x : ℕ) (b : ℕ × ℕ) : Prop where
  aligned : 2 ^ b.2 ∣ b.1
  start_le : start ≤ b.1
  le_end : b.1 + 2 ^ b.2 ≤ «end»
  before : b.1 < x
  after : x < b.1 + 2 ^ b.2

lemma not_straddles_step (h : currentVal < «end») (hend : «end» < 2 ^ 64)
    (hcut : ∀ b, ¬Straddles start «end» currentVal b) (b : ℕ × ℕ) :
    ¬Straddles start «end» (currentVal + calculateRmb currentVal «end») b := by
  intro hb
  obtain ⟨k, hk, hrmb, hdvd, hle⟩ := calculateRmb_eq h hend
  obtain ⟨haligned, hstart, hfit, hbefore, hafter⟩ := hb
  -- the block has the last address of the step, so it holds the whole step
  have hlast : currentVal ≤ currentVal + 2 ^ k - 1 ∧
      currentVal + 2 ^ k - 1 < currentVal + 2 ^ k := by omega
  have hblast : b.1 ≤ currentVal + 2 ^ k - 1 ∧ currentVal + 2 ^ k - 1 < b.1 + 2 ^ b.2 := by omega
  have hlarger : k < b.2 := by
    by_contra hsmall
    have := aligned_nested haligned hdvd (Nat.le_of_not_lt hsmall) hblast hlast
    omega
  have hinside := aligned_nested hdvd haligned hlarger.le hlast hblast
  rcases lt_or_ge b.1 currentVal with hlt | hge
  · exact hcut b ⟨haligned, hstart, hfit, hlt, by omega⟩
  · -- it begins where the step does, and would have been taken
    have heq : b.1 = currentVal := by omega
    have hmax := le_calculateRmb h hend (heq ▸ haligned) (heq ▸ hfit)
    rw [hrmb] at hmax
    exact Nat.not_le_of_lt (Nat.pow_lt_pow_right (by decide) hlarger) hmax

lemma not_straddles_prefixesFrom {fuel : ℕ} (hend : «end» < 2 ^ 64)
    (hcut : ∀ b, ¬Straddles start «end» currentVal b) :
    ∀ p ∈ prefixesFrom «end» fuel currentVal, ∀ b, ¬Straddles start «end» p.key b := by
  induction fuel generalizing currentVal with
  | zero =>
    intro p hp
    cases hp
  | succ fuel ih =>
    intro p hp
    rw [prefixesFrom] at hp
    split at hp
    · next hlt =>
      rcases List.mem_cons.mp hp with rfl | hp
      · exact hcut
      · exact ih (not_straddles_step hlt hend hcut) p hp
    · cases hp

lemma not_straddles_of_mem_prefixes (hend : «end» < 2 ^ 64) {p : Prefix}
    (hp : p ∈ prefixes start «end») (b : ℕ × ℕ) : ¬Straddles start «end» p.key b := by
  refine not_straddles_prefixesFrom hend ?_ p hp b
  intro b hb
  have := hb.start_le
  have := hb.before
  omega

/-! ## Covers -/

/-- The block, as a start and an exponent, has the address. -/
def BlockHas (b : ℕ × ℕ) (a : ℕ) : Prop := a / 2 ^ b.2 = b.1 / 2 ^ b.2

/-- A set of aligned blocks whose union is `[start, end)`. -/
structure AlignedCover (start «end» : ℕ) (blocks : Finset (ℕ × ℕ)) : Prop where
  aligned : ∀ b ∈ blocks, 2 ^ b.2 ∣ b.1
  union : ∀ a, (∃ b ∈ blocks, BlockHas b a) ↔ start ≤ a ∧ a < «end»

section
variable {b : ℕ × ℕ} (h : AlignedCover start «end» blocks) (hb : b ∈ blocks)
include h hb

lemma AlignedCover.has_iff
    {a : ℕ} : BlockHas b a ↔ b.1 ≤ a ∧ a < b.1 + 2 ^ b.2 := div_two_pow_eq_iff (h.aligned b hb)

lemma AlignedCover.bounds : start ≤ b.1 ∧ b.1 + 2 ^ b.2 ≤ «end» := by
  have hpos := Nat.two_pow_pos b.2
  have hfirst := (h.union b.1).mp ⟨b, hb, (h.has_iff hb).mpr (by omega)⟩
  have hlast := (h.union (b.1 + 2 ^ b.2 - 1)).mp ⟨b, hb, (h.has_iff hb).mpr (by omega)⟩
  omega

end

/-- A cover has a block for each prefix. -/
lemma length_prefixes_le_card (h : start < «end») (hend : «end» < 2 ^ 64)
    (hcover : AlignedCover start «end» blocks) : (prefixes start «end»).length ≤ blocks.card := by
  classical
  -- the block that has the key of a prefix
  have hblock : ∀ p : Prefix, ∃ b, p ∈ prefixes start «end» → b ∈ blocks ∧ BlockHas b p.key := by
    intro p
    by_cases hp : p ∈ prefixes start «end»
    · obtain ⟨b, hb, hhas⟩ := (hcover.union p.key).mpr (key_mem_range h hend hp)
      exact ⟨b, fun _ => ⟨hb, hhas⟩⟩
    · exact ⟨(0, 0), fun hp' => absurd hp' hp⟩
  choose block hmem using hblock
  rw [← List.toFinset_card_of_nodup (prefixes_nodup h hend)]
  refine Finset.card_le_card_of_injOn block (fun p hp => (hmem p (List.mem_toFinset.mp hp)).1) ?_
  intro p hp q hq heq
  have hp := List.mem_toFinset.mp hp
  have hq := List.mem_toFinset.mp hq
  obtain ⟨hb, hhasp⟩ := hmem p hp
  have hhasq := (hmem q hq).2
  rw [← heq] at hhasq
  obtain ⟨hstart, hle⟩ := hcover.bounds hb
  rw [hcover.has_iff hb] at hhasp hhasq
  -- the block would reach over the larger key
  rcases Nat.lt_trichotomy p.key q.key with hlt | hkey | hlt
  · exact absurd ⟨hcover.aligned _ hb, hstart, hle, by omega, hhasq.2⟩
      (not_straddles_of_mem_prefixes hend hq (block p))
  · exact eq_of_covers h hend hp hq (decide_eq_true rfl) (decide_eq_true (by rw [hkey]))
  · exact absurd ⟨hcover.aligned _ hb, hstart, hle, by omega, hhasp.2⟩
      (not_straddles_of_mem_prefixes hend hp (block p))

lemma length_pos_of_mem_prefixes (h : start < «end») (hend : «end» < 2 ^ 64) {p : Prefix}
    (hp : p ∈ prefixes start «end») : 0 < p.length := by
  have hbounds := (prefixes_tiles h hend).bounds (List.mem_map_of_mem hp)
  simp only [Prefix.segment, Prefix.size] at hbounds
  by_contra hzero
  rw [show p.length = 0 by omega] at hbounds
  omega

/-- **The prefix list of a range.** The blocks are aligned, disjoint and cover exactly the range,
and no set of aligned blocks with that union is smaller. -/
theorem calculatePrefixList_minimal {start «end» : ℕ} (h : start < «end») (hend : «end» < 2 ^ 64) :
    ∃ list, calculatePrefixList start «end» = .ok list ∧
      (∀ p ∈ list, 0 < p.length ∧ p.length ≤ 64 ∧ p.key < 2 ^ 64 ∧ 2 ^ (64 - p.length) ∣ p.key) ∧
      list.Pairwise (fun p q => ∀ a, ¬(p.covers a = true ∧ q.covers a = true)) ∧
      (∀ a, (∃ p ∈ list, p.covers a = true) ↔ start ≤ a ∧ a < «end») ∧
      ∀ blocks, AlignedCover start «end» blocks → list.length ≤ blocks.card := by
  refine ⟨prefixes start «end», calculatePrefixList_eq h, ?_, ?_, ?_, ?_⟩
  · intro p hp
    have hkey := key_mem_range h hend hp
    exact ⟨length_pos_of_mem_prefixes h hend hp, length_le_of_mem_prefixes h hend hp, by omega,
      aligned_of_mem_prefixes h hend hp⟩
  · refine (prefixes_nodup h hend).imp_of_mem fun {p q} hp hq hne a hcovers => ?_
    exact hne (eq_of_covers h hend hp hq hcovers.1 hcovers.2)
  · intro a
    constructor
    · rintro ⟨p, hp, hcovers⟩
      exact mem_range_of_covers h hend hp hcovers
    · rintro ⟨hlow, hhigh⟩
      exact exists_covers h hend hlow hhigh
  · intro blocks hcover
    exact length_prefixes_le_card h hend hcover

/-- The example of the source: four keys for the range from 10 to 22. -/
theorem calculatePrefixList_minimal_ten :
    calculatePrefixList 10 22 = .ok [⟨10, 63⟩, ⟨12, 62⟩, ⟨16, 62⟩, ⟨20, 63⟩] ∧
      ∀ blocks, AlignedCover 10 22 blocks → 4 ≤ blocks.card := by
  have hlist : calculatePrefixList 10 22 = .ok [⟨10, 63⟩, ⟨12, 62⟩, ⟨16, 62⟩, ⟨20, 63⟩] := by
    decide +kernel
  obtain ⟨list, hok, -, -, -, hmin⟩ := @calculatePrefixList_minimal 10 22 (by decide) (by decide)
  cases hok
  exact ⟨hlist, hmin⟩

/-! ## The number of entries -/

/-- A step doubles the alignment, or halves the rest, which then stays below the alignment. -/
lemma length_prefixesFrom_le (fuel : ℕ) {m currentVal «end» : ℕ} (hend : «end» < 2 ^ 64)
    (hdvd : 2 ^ m ∣ currentVal) : (prefixesFrom «end» fuel currentVal).length ≤
      Nat.size («end» - currentVal) + (Nat.size («end» - currentVal) - m) := by
  induction fuel generalizing currentVal m with
  | zero => exact Nat.zero_le _
  | succ fuel ih =>
    rw [prefixesFrom]
    split
    · next hlt =>
      obtain ⟨k, j, hk, hj, heq, hle, hmax, hval⟩ := calculateRmb_spec hlt hend
      have hsize : j < Nat.size («end» - currentVal) := Nat.lt_size.mpr hle
      have hnext : 2 ^ j ∣ currentVal + 2 ^ j := by
        obtain ⟨i, -, hi, hdvd, -⟩ := calculateRmb_eq hlt hend
        rw [← heq, hi]
        exact hdvd.add (dvd_refl _)
      rw [List.length_cons, heq]
      by_cases hrest : «end» - currentVal < 2 ^ (j + 1)
      · -- the rest falls below the block
        have hsmall : Nat.size («end» - (currentVal + 2 ^ j)) ≤ j := Nat.size_le.mpr (by omega)
        have := ih hnext
        omega
      · -- the block is as large as the alignment allows
        obtain rfl : j = k := hmax.resolve_right hrest
        have hmono : Nat.size («end» - (currentVal + 2 ^ j)) ≤ Nat.size («end» - currentVal) :=
          Nat.size_le_size (by omega)
        rcases hval with ⟨rfl, rfl⟩ | ⟨c, hc⟩
        · omega
        · have hodd : Nat.Coprime (2 ^ m) (2 * c + 1) := .pow_left m (by simp)
          rw [hc] at hdvd
          have hm : m ≤ j :=
            (Nat.pow_dvd_pow_iff_le_right (by decide)).mp (hodd.dvd_of_dvd_mul_right hdvd)
          have halign : 2 ^ (j + 1) ∣ currentVal + 2 ^ j :=
            ⟨c + 1, by rw [hc, pow_succ, mul_assoc]; rfl⟩
          have := ih halign
          omega
    · exact Nat.zero_le _

/-- **The number of entries is logarithmic in the size of the range.** -/
theorem calculatePrefixList_length {start «end» : ℕ} (h : start < «end») (hend : «end» < 2 ^ 64) :
    ∃ list, calculatePrefixList start «end» = .ok list ∧
      list.length ≤ 2 * Nat.size («end» - start) := by
  refine ⟨_, calculatePrefixList_eq h, ?_⟩
  have := length_prefixesFrom_le («end» - start) (m := 0) hend (one_dvd start)
  rw [prefixes]
  omega

theorem calculatePrefixList_length_ten :
    ∃ list, calculatePrefixList 10 22 = .ok list ∧ list.length ≤ 8 :=
  calculatePrefixList_length (by decide) (by decide)

end EbpfProfiler.Lpm
