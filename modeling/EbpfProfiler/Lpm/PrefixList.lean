import EbpfProfiler.Lib.Comp
import EbpfProfiler.Lib.Tiles
import Mathlib.Data.Nat.Factorization.Basic
import Mathlib.Data.Nat.Size

/-!
# Prefix lists

`CalculatePrefixList` (`lpm/lpm.go`) cuts an address range into aligned power-of-two blocks, which
tile it (`calculatePrefixList_eq`).
-/

namespace EbpfProfiler.Lpm

open Lib List

/-- A prefix and its number of bits. -/
structure Prefix where
  key : ℕ
  length : ℕ
  deriving DecidableEq

variable {p : Prefix} {a «end» : ℕ}

/-! ## Source -/

/-- `getRightmostSetBit`: `x & -x` of a 64-bit word. -/
def getRightmostSetBit (x : ℕ) : ℕ := x &&& (2 ^ 64 - x) % 2 ^ 64

/-- The loop of `calculateRmb`: halve the block until it fits, at most 63 times. -/
def shrinkRmb (rest : ℕ) : ℕ → ℕ → ℕ
  | 0, rmb => rmb
  | fuel + 1, rmb => if rest < rmb then shrinkRmb rest fuel (rmb / 2) else rmb

/-- `calculateRmb`, for `currentVal < end`. -/
def calculateRmb (currentVal «end» : ℕ) : ℕ :=
  let rmb := getRightmostSetBit currentVal
  shrinkRmb («end» - currentVal) 63 (if rmb = 0 then 2 ^ 63 else rmb)

def leadingZeros64 (x : ℕ) : ℕ := 64 - Nat.size x

/-- The first pass: the number of prefixes. Every round advances. -/
def listSize («end» : ℕ) : ℕ → ℕ → ℕ
  | 0, _ => 0
  | fuel + 1, currentVal =>
    if currentVal < «end» then
      listSize «end» fuel (currentVal + calculateRmb currentVal «end») + 1
    else 0

/-- The second pass: fill in the list from `idx` on. -/
def fillList («end» : ℕ) : ℕ → ℕ → ℕ → List Prefix → Except Fault (List Prefix)
  | 0, _, _, list => .ok list
  | fuel + 1, currentVal, idx, list =>
    if currentVal < «end» then
      let rmb := calculateRmb currentVal «end»
      if idx < list.length then
        fillList «end» fuel (currentVal + rmb) (idx + 1)
          (list.set idx ⟨currentVal, 1 + leadingZeros64 rmb⟩)
      else .error (.panic "index out of range")
    else .ok list

def calculatePrefixList (start «end» : ℕ) : Except Fault (List Prefix) :=
  if «end» ≤ start then
    let stop := «end»
    .error (.error s!"can't build LPM prefixes from end ({stop}) <= start ({start})")
  else
    fillList «end» («end» - start) start 0
      (List.replicate (listSize «end» («end» - start) start) ⟨0, 0⟩)

/-! ## Blocks -/

namespace Prefix

def size (p : Prefix) : ℕ := 2 ^ (64 - p.length)

/-- A lookup of the address `a` matches the prefix: the leading bits agree. -/
def covers (p : Prefix) (a : ℕ) : Bool := a / 2 ^ (64 - p.length) = p.key / 2 ^ (64 - p.length)

/-- The bits of the key behind the prefix are zero. -/
def Aligned (p : Prefix) : Prop := p.size ∣ p.key

lemma covers_iff (h : p.Aligned) : p.covers a = true ↔ p.key ≤ a ∧ a < p.key + p.size := by
  rw [covers, decide_eq_true_iff]
  exact div_two_pow_eq_iff h

def segment (p : Prefix) : ℕ × ℕ := (p.key, p.size)

lemma segment_inj {q : Prefix} (hp : p.length ≤ 64) (hq : q.length ≤ 64)
    (h : p.segment = q.segment) : p = q := by
  obtain ⟨key, length⟩ := p
  obtain ⟨key', length'⟩ := q
  simp only [segment, size, Prod.mk.injEq] at h hp hq
  obtain ⟨rfl, hsize⟩ := h
  have hlen : 64 - length = 64 - length' := Nat.pow_right_injective (Nat.le_refl 2) hsize
  rw [show length = length' by omega]

end Prefix

/-! ## The rightmost set bit -/

lemma odd_and_two_pow_sub {n c : ℕ} (h : 2 * c + 1 < 2 ^ n) :
    (2 * c + 1) &&& (2 ^ n - (2 * c + 1)) = 1 := by
  have hn : 0 < n := by
    rcases Nat.eq_zero_or_pos n with rfl | hn
    · omega
    · exact hn
  apply Nat.eq_of_testBit_eq
  intro i
  rw [Nat.testBit_and, Nat.testBit_two_pow_sub_succ (Nat.lt_of_succ_lt h)]
  cases i with
  | zero => simp [hn]
  | succ i =>
    -- Above the lowest bit the complement has the opposite bits.
    have hdiv : (2 * c + 1) / 2 = c := by omega
    simp [Nat.testBit_succ, hdiv]
    intro hbit _
    exact hbit

lemma getRightmostSetBit_eq {x : ℕ} (hx : x ≠ 0) (hlt : x < 2 ^ 64) :
    ∃ k c, x = 2 ^ k * (2 * c + 1) ∧ k < 64 ∧ getRightmostSetBit x = 2 ^ k := by
  obtain ⟨k, m, ⟨c, rfl⟩, rfl⟩ := Nat.exists_eq_two_pow_mul_odd hx
  have hk : k < 64 := by
    by_contra hk
    have : 2 ^ 64 ≤ 2 ^ k := Nat.pow_le_pow_right (by decide) (Nat.le_of_not_lt hk)
    have : 2 ^ k * 1 ≤ 2 ^ k * (2 * c + 1) := Nat.mul_le_mul_left _ (by omega)
    omega
  refine ⟨k, c, rfl, hk, ?_⟩
  have hsplit : 2 ^ 64 = 2 ^ k * 2 ^ (64 - k) := by
    rw [← Nat.pow_add, Nat.add_sub_cancel' hk.le]
  have hodd : 2 * c + 1 < 2 ^ (64 - k) := by
    rw [hsplit] at hlt
    exact Nat.lt_of_mul_lt_mul_left hlt
  have hnum : 2 ^ k * (2 * c + 1) = (2 * c + 1) <<< k := by
    rw [Nat.shiftLeft_eq, Nat.mul_comm]
  have hcompl : 2 ^ 64 - 2 ^ k * (2 * c + 1) = (2 ^ (64 - k) - (2 * c + 1)) <<< k := by
    rw [Nat.shiftLeft_eq, Nat.mul_comm _ (2 ^ k), Nat.mul_sub, ← hsplit]
  rw [getRightmostSetBit, Nat.mod_eq_of_lt (by omega), hcompl, hnum, ← Nat.shiftLeft_and_distrib,
    odd_and_two_pow_sub hodd, Nat.one_shiftLeft]

/-! ## One step -/

lemma shrinkRmb_eq {rest : ℕ} (hrest : 0 < rest) {fuel k : ℕ} (hk : k ≤ fuel) :
    ∃ j ≤ k, shrinkRmb rest fuel (2 ^ k) = 2 ^ j ∧ 2 ^ j ≤ rest ∧
      (j = k ∨ rest < 2 ^ (j + 1)) := by
  induction fuel generalizing k with
  | zero =>
    obtain rfl : k = 0 := Nat.le_zero.mp hk
    exact ⟨0, Nat.le_refl 0, rfl, hrest, .inl rfl⟩
  | succ fuel ih =>
    rw [shrinkRmb]
    split
    · next hlt =>
      -- The block is larger than the rest, so it is not a single address.
      obtain ⟨k, rfl⟩ : ∃ n, k = n + 1 := by
        refine ⟨k - 1, ?_⟩
        rcases Nat.eq_zero_or_pos k with rfl | hpos <;> omega
      obtain ⟨j, hj, heq, hle, hmax⟩ := ih (k := k) (by omega)
      rw [Nat.pow_succ, Nat.mul_div_cancel _ (by decide)]
      refine ⟨j, by omega, heq, hle, .inr ?_⟩
      rcases hmax with rfl | hmax
      · exact hlt
      · exact hmax
    · next hle => exact ⟨k, Nat.le_refl k, rfl, Nat.le_of_not_lt hle, .inl rfl⟩

section
variable {currentVal : ℕ} (h : currentVal < «end») (hend : «end» < 2 ^ 64)
include h hend

lemma calculateRmb_spec :
    ∃ k j, k ≤ 63 ∧ j ≤ k ∧ calculateRmb currentVal «end» = 2 ^ j ∧ 2 ^ j ≤ «end» - currentVal ∧
      (j = k ∨ «end» - currentVal < 2 ^ (j + 1)) ∧
      (currentVal = 0 ∧ k = 63 ∨ ∃ c, currentVal = 2 ^ k * (2 * c + 1)) := by
  have hrest : 0 < «end» - currentVal := by omega
  rcases Nat.eq_zero_or_pos currentVal with rfl | hpos
  · obtain ⟨j, hj, heq, hle, hmax⟩ := shrinkRmb_eq hrest (Nat.le_refl 63)
    exact ⟨63, j, le_rfl, hj, heq, hle, hmax, .inl ⟨rfl, rfl⟩⟩
  · obtain ⟨k, c, hx, hk, hbit⟩ := getRightmostSetBit_eq hpos.ne' (h.trans hend)
    obtain ⟨j, hj, heq, hle, hmax⟩ := shrinkRmb_eq hrest (Nat.le_of_lt_succ hk)
    refine ⟨k, j, Nat.le_of_lt_succ hk, hj, ?_, hle, hmax, .inr ⟨c, hx⟩⟩
    rw [calculateRmb, hbit]
    simp only [(Nat.two_pow_pos k).ne', if_false]
    exact heq

/-- The block at the current address: an aligned power of two that fits. -/
lemma calculateRmb_eq : ∃ k < 64, calculateRmb currentVal «end» = 2 ^ k ∧ 2 ^ k ∣ currentVal ∧
      currentVal + 2 ^ k ≤ «end» := by
  obtain ⟨k, j, hk, hj, heq, hle, -, hval⟩ := calculateRmb_spec h hend
  refine ⟨j, by omega, heq, ?_, by omega⟩
  rcases hval with ⟨rfl, -⟩ | ⟨c, hc⟩
  · exact Nat.dvd_zero _
  · exact (Nat.pow_dvd_pow 2 hj).trans ⟨_, hc⟩

end

lemma two_le_calculateRmb_zero (h : 1 < «end») : 2 ≤ calculateRmb 0 «end» := by
  obtain ⟨j, hj, heq, hle, hmax⟩ := shrinkRmb_eq (Nat.lt_of_succ_lt h) (Nat.le_refl 63)
  have hrmb : calculateRmb 0 «end» = 2 ^ j := by
    exact heq
  have hpos : j ≠ 0 := by
    rintro rfl
    omega
  have hpow : 2 ^ 1 ≤ 2 ^ j := Nat.pow_le_pow_right (by decide) (Nat.one_le_iff_ne_zero.mpr hpos)
  rw [hrmb]
  exact hpow

lemma leadingZeros64_two_pow {k : ℕ} (hk : k < 64) : 1 + leadingZeros64 (2 ^ k) = 64 - k := by
  rw [leadingZeros64, Nat.size_pow]
  omega

/-! ## The list -/

/-- The prefixes from `currentVal` on, without the two passes. -/
def prefixesFrom («end» : ℕ) : ℕ → ℕ → List Prefix
  | 0, _ => []
  | fuel + 1, currentVal =>
    if currentVal < «end» then
      let rmb := calculateRmb currentVal «end»
      ⟨currentVal, 1 + leadingZeros64 rmb⟩ :: prefixesFrom «end» fuel (currentVal + rmb)
    else []

def prefixes (start «end» : ℕ) : List Prefix := prefixesFrom «end» («end» - start) start

lemma listSize_eq («end» fuel currentVal : ℕ) :
    listSize «end» fuel currentVal = (prefixesFrom «end» fuel currentVal).length := by
  induction fuel generalizing currentVal with
  | zero => rfl
  | succ fuel ih =>
    rw [listSize, prefixesFrom]
    split
    · rw [ih, length_cons]
    · rfl

lemma fillList_eq («end» fuel currentVal : ℕ) (done blank : List Prefix)
    (h : blank.length = (prefixesFrom «end» fuel currentVal).length) :
    fillList «end» fuel currentVal done.length (done ++ blank) =
      .ok (done ++ prefixesFrom «end» fuel currentVal) := by
  induction fuel generalizing currentVal done blank with
  | zero =>
    obtain rfl : blank = [] := length_eq_zero_iff.mp h
    rfl
  | succ fuel ih =>
    rw [fillList, prefixesFrom]
    rw [prefixesFrom] at h
    split
    · next hlt =>
      rw [if_pos hlt] at h
      obtain ⟨b, blank, rfl⟩ := exists_cons_of_length_eq_add_one h
      have hidx : done.length < (done ++ b :: blank).length := by simp
      rw [if_pos hidx]
      have hset (p : Prefix) : (done ++ b :: blank).set done.length p = (done ++ [p]) ++ blank := by
        simp
      have hrest := ih (currentVal + calculateRmb currentVal «end»)
        (done ++ [⟨currentVal, 1 + leadingZeros64 (calculateRmb currentVal «end»)⟩]) blank
        (by simpa using h)
      rw [length_append, length_singleton] at hrest
      rw [hset, hrest, append_assoc, singleton_append]
    · next hge =>
      rw [if_neg hge] at h
      obtain rfl : blank = [] := length_eq_zero_iff.mp h
      rfl

lemma prefixesFrom_tiles {fuel currentVal : ℕ} (h : currentVal ≤ «end») (hend : «end» < 2 ^ 64)
    (hfuel : «end» - currentVal ≤ fuel) :
    Tiles ((prefixesFrom «end» fuel currentVal).map Prefix.segment) currentVal «end» ∧
      ∀ p ∈ prefixesFrom «end» fuel currentVal, p.Aligned ∧ p.length ≤ 64 := by
  induction fuel generalizing currentVal with
  | zero =>
    have heq : currentVal = «end» := by omega
    exact ⟨heq, by simp [prefixesFrom]⟩
  | succ fuel ih =>
    rw [prefixesFrom]
    split
    · next hlt =>
      obtain ⟨k, hk, hrmb, hdvd, hle⟩ := calculateRmb_eq hlt hend
      have hpos := Nat.two_pow_pos k
      have hadvance : «end» - (currentVal + 2 ^ k) ≤ fuel := by omega
      obtain ⟨htiles, hall⟩ := ih hle hadvance
      have hsize : (⟨currentVal, 64 - k⟩ : Prefix).size = 2 ^ k := by
        rw [Prefix.size, Nat.sub_sub_self hk.le]
      dsimp only
      rw [hrmb, leadingZeros64_two_pow hk]
      refine ⟨⟨rfl, hsize ▸ hpos, ?_⟩, ?_⟩
      · rw [hsize]
        exact htiles
      · intro p hp
        rcases mem_cons.mp hp with rfl | hp
        · exact ⟨by rw [Prefix.Aligned, hsize]; exact hdvd, Nat.sub_le 64 k⟩
        · exact hall p hp
    · next hge =>
      have heq : currentVal = «end» := by omega
      exact ⟨heq, by simp⟩

lemma calculatePrefixList_eq {start : ℕ} (h : start < «end») :
    calculatePrefixList start «end» = .ok (prefixes start «end») := by
  rw [calculatePrefixList, if_neg (Nat.not_le_of_lt h)]
  exact fillList_eq «end» («end» - start) start [] _ (by rw [length_replicate, listSize_eq])

section Range

variable {start «end» : ℕ} (h : start < «end») (hend : «end» < 2 ^ 64)
include h hend

lemma prefixes_tiles : Tiles ((prefixes start «end»).map Prefix.segment) start «end» :=
  (prefixesFrom_tiles h.le hend le_rfl).1

section
variable (hp : p ∈ prefixes start «end»)
include hp

lemma aligned_of_mem_prefixes : p.Aligned :=
  ((prefixesFrom_tiles h.le hend le_rfl).2 p hp).1

lemma length_le_of_mem_prefixes : p.length ≤ 64 :=
  ((prefixesFrom_tiles h.le hend le_rfl).2 p hp).2

lemma mem_range_of_covers (ha : p.covers a = true) : start ≤ a ∧ a < «end» := by
  have hbounds := (prefixes_tiles h hend).bounds (mem_map_of_mem hp)
  rw [Prefix.covers_iff (aligned_of_mem_prefixes h hend hp)] at ha
  simp only [Prefix.segment] at hbounds
  omega

end

lemma exists_covers (ha : start ≤ a) (hae : a < «end») :
    ∃ p ∈ prefixes start «end», p.covers a = true := by
  obtain ⟨s, hs, hlo, hhi⟩ := (prefixes_tiles h hend).exists_mem ha hae
  obtain ⟨p, hp, rfl⟩ := mem_map.mp hs
  exact ⟨p, hp, (Prefix.covers_iff (aligned_of_mem_prefixes h hend hp)).mpr ⟨hlo, hhi⟩⟩

lemma eq_of_covers {q : Prefix} (hp : p ∈ prefixes start «end») (hq : q ∈ prefixes start «end»)
    (hpa : p.covers a = true) (hqa : q.covers a = true) : p = q := by
  rw [Prefix.covers_iff (aligned_of_mem_prefixes h hend hp)] at hpa
  rw [Prefix.covers_iff (aligned_of_mem_prefixes h hend hq)] at hqa
  have hseg : p.segment = q.segment :=
    (prefixes_tiles h hend).unique (mem_map_of_mem hp) (mem_map_of_mem hq) hpa hqa
  exact Prefix.segment_inj (length_le_of_mem_prefixes h hend hp)
    (length_le_of_mem_prefixes h hend hq) hseg

lemma prefixes_nodup : (prefixes start «end»).Nodup :=
  (prefixes_tiles h hend).nodup.of_map _

lemma key_mem_range (hp : p ∈ prefixes start «end») : start ≤ p.key ∧ p.key < «end» :=
  mem_range_of_covers h hend hp (decide_eq_true rfl)

/-- The single address zero is a prefix of its own range only. -/
lemma zero_notMem_prefixes (hone : start + 1 < «end») :
    (⟨0, 64⟩ : Prefix) ∉ prefixes start «end» := by
  intro hmem
  have hstart : start = 0 := Nat.le_zero.mp (key_mem_range h hend hmem).1
  subst hstart
  obtain ⟨k, hk, hrmb, -⟩ := calculateRmb_eq h hend
  have hlarge := two_le_calculateRmb_zero hone
  have hhead : (⟨0, 64 - k⟩ : Prefix) ∈ prefixes 0 «end» := by
    obtain ⟨n, hn⟩ : ∃ n, «end» = n + 1 := ⟨«end» - 1, by omega⟩
    rw [prefixes, hn, Nat.sub_zero, prefixesFrom, if_pos (Nat.succ_pos n), ← hn]
    dsimp only
    rw [hrmb, leadingZeros64_two_pow hk]
    exact mem_cons_self
  have heq := eq_of_covers h hend hmem hhead (decide_eq_true rfl) (a := 0) (decide_eq_true rfl)
  have hlen : 64 = 64 - k := congrArg Prefix.length heq
  have hzero : k = 0 := by omega
  rw [hrmb, hzero] at hlarge
  omega

end Range

end EbpfProfiler.Lpm
