import EbpfProfiler.Lib.Coverage

/-!
# Coverage maps

`CovMap` and `SegmentedCovMap` (`symblib/src/covmap.rs`). A panic is `none`.
-/

namespace EbpfProfiler.SymbConv

open Option Nat
open List
open Lib Lib.Bitmap

/-! ## Ranges of addresses -/

/-- `ops::Range<VirtAddr>`. -/
structure VaRange where
  start : ℕ
  stop : ℕ
  deriving DecidableEq

def VaRange.Contains (r : VaRange) (va : ℕ) : Prop := r.start ≤ va ∧ va < r.stop

instance (r : VaRange) (va : ℕ) : Decidable (r.Contains va) :=
  inferInstanceAs (Decidable (r.start ≤ va ∧ va < r.stop))

def rangeOverlap (a b : VaRange) : Option VaRange :=
  let c : VaRange := ⟨max a.start b.start, min a.stop b.stop⟩
  if c.start < c.stop then some c else none

/-! ## One segment -/

/-- The covered buckets of a range. -/
structure CovMap where
  range : VaRange
  scale : ℕ
  bitVec : List Byte

def CovMap.withScale (scale : ℕ) (range : VaRange) : CovMap :=
  let len := range.stop - range.start
  let bitScale := scale * 8 % 2 ^ 64
  ⟨range, scale, List.replicate (divCeil len bitScale) 0⟩

def CovMap.bitIndicesForVaRange (m : CovMap) (rng : VaRange) : Option (ℕ × ℕ) :=
  (rangeOverlap m.range rng).map fun overlap =>
    ((overlap.start - m.range.start) / m.scale, divCeil (overlap.stop - m.range.start) m.scale)

def CovMap.addRange (m : CovMap) (rng : VaRange) : Option CovMap :=
  match m.bitIndicesForVaRange rng with
  | none => some m
  | some (first, last) => (setFrom m.bitVec first (last - first)).map fun bits =>
      { m with bitVec := bits }

def CovMap.rangePartiallyCovered (m : CovMap) (rng : VaRange) : Option Bool :=
  match m.bitIndicesForVaRange rng with
  | none => some false
  | some (first, last) => anyFrom m.bitVec first (last - first)

/-! ## Several segments -/

/-- Where two segments overlap. -/
structure SegmentOverlapError where
  overlap : VaRange

def addSegment (maps : List CovMap) (new : CovMap) : Except SegmentOverlapError (List CovMap) :=
  match maps.findSome? fun seg => rangeOverlap seg.range new.range with
  | some overlap => .error ⟨overlap⟩
  | none => .ok (maps ++ [new])

/-- `binary_search` of a sorted slice: the place of the key, or where it would stand. -/
def binarySearch (keys : List ℕ) (key : ℕ) : Except ℕ ℕ :=
  let idx := keys.findIdx (key ≤ ·)
  if keys[idx]? = some key then .ok idx else .error idx

/-- `map_for_addr`, the place of the map. -/
def mapForAddr (maps : List CovMap) (va : ℕ) : Option ℕ :=
  match maps with
  | [] => none
  | [m] => if m.range.Contains va then some 0 else none
  | maps =>
    match binarySearch (maps.map (·.range.start)) va with
    | .ok idx => some idx
    | .error 0 => none
    | .error (idx + 1) => maps[idx]?.bind fun m => if m.range.Contains va then some idx else none

def addRange (maps : List CovMap) (rng : VaRange) : Option (List CovMap) :=
  match mapForAddr maps rng.start with
  | none => some maps
  | some idx => maps[idx]?.bind fun m => (m.addRange rng).map fun m => maps.set idx m

def rangePartiallyCovered (maps : List CovMap) (rng : VaRange) : Option Bool :=
  match mapForAddr maps rng.start with
  | none => some false
  | some idx => maps[idx]?.bind fun m => m.rangePartiallyCovered rng

/-! ## Buckets of a range -/

/-- The range has an address in bucket `b` of the segment. -/
def Touches (scale : ℕ) (segment rng : VaRange) (b : ℕ) : Prop :=
  ∃ va, rng.Contains va ∧ segment.Contains va ∧ (va - segment.start) / scale = b

/-- A map with enough bits for its segment. -/
structure CovMap.WF (m : CovMap) : Prop where
  scale : 0 < m.scale
  bits : divCeil (m.range.stop - m.range.start) m.scale ≤ 8 * m.bitVec.length

lemma CovMap.withScale_wf {scale : ℕ} (hscale : 0 < scale) (hsmall : scale * 8 < 2 ^ 64)
    (range : VaRange) : (CovMap.withScale scale range).WF := by
  refine ⟨hscale, ?_⟩
  show divCeil (range.stop - range.start) scale ≤
    8 * (List.replicate (divCeil (range.stop - range.start) (scale * 8 % 2 ^ 64)) _).length
  rw [length_replicate, mod_eq_of_lt hsmall]
  -- eight buckets of width `scale` are one of width `scale * 8`
  have hle := le_divCeil_mul (range.stop - range.start) (show 0 < scale * 8 by omega)
  by_contra hlt
  have hbucket := (lt_divCeil_iff hscale).mp (Nat.lt_of_not_le hlt)
  rw [Nat.mul_comm 8, mul_assoc, Nat.mul_comm 8] at hbucket
  omega

lemma CovMap.bitIndices_cases (m : CovMap) (rng : VaRange) :
    (m.bitIndicesForVaRange rng = none ∧ ∀ va, ¬ (rng.Contains va ∧ m.range.Contains va)) ∨
    ∃ lo hi, lo < hi ∧ hi ≤ m.range.stop - m.range.start ∧
      m.bitIndicesForVaRange rng = some (lo / m.scale, divCeil hi m.scale) ∧
      ∀ va, (rng.Contains va ∧ m.range.Contains va) ↔
        m.range.start ≤ va ∧ lo ≤ va - m.range.start ∧ va - m.range.start < hi := by
  unfold CovMap.bitIndicesForVaRange rangeOverlap VaRange.Contains
  dsimp only
  split
  · next h =>
    right
    refine ⟨max m.range.start rng.start - m.range.start, min m.range.stop rng.stop - m.range.start,
      ?_, ?_, rfl, fun va => ?_⟩
    · omega
    · omega
    · omega
  · next h =>
    left
    exact ⟨rfl, fun va => by omega⟩

section
variable {m : CovMap} (hm : m.WF) (rng : VaRange)
include hm

lemma CovMap.WF.touches_iff {lo hi b : ℕ} (hlt : lo < hi)
    (h : ∀ va, (rng.Contains va ∧ m.range.Contains va) ↔
      m.range.start ≤ va ∧ lo ≤ va - m.range.start ∧ va - m.range.start < hi) :
    Touches m.scale m.range rng b ↔ lo / m.scale ≤ b ∧ b < divCeil hi m.scale := by
  rw [mem_buckets_iff hm.scale hlt]
  constructor
  · rintro ⟨va, hrng, hseg, hb⟩
    obtain ⟨-, hlo, hhi⟩ := (h va).mp ⟨hrng, hseg⟩
    exact ⟨va - m.range.start, hlo, hhi, hb⟩
  · rintro ⟨x, hlo, hhi, hb⟩
    have hx : m.range.start + x - m.range.start = x := by omega
    obtain ⟨hrng, hseg⟩ := (h (m.range.start + x)).mpr ⟨by omega, by omega, by omega⟩
    exact ⟨m.range.start + x, hrng, hseg, by rw [hx, hb]⟩

lemma CovMap.WF.last_le {lo hi : ℕ} (hlt : lo < hi) (hhi : hi ≤ m.range.stop - m.range.start) :
    lo / m.scale + (divCeil hi m.scale - lo / m.scale) ≤ 8 * m.bitVec.length ∧
      lo / m.scale ≤ divCeil hi m.scale := by
  have hfirst : lo / m.scale < divCeil hi m.scale :=
    ((mem_buckets_iff hm.scale hlt).mpr ⟨lo, le_rfl, hlt, rfl⟩).2
  have hlast : divCeil hi m.scale ≤ divCeil (m.range.stop - m.range.start) m.scale :=
    Nat.div_le_div_right (by omega)
  have hbits := hm.bits
  omega

lemma CovMap.WF.addRange_spec : ∃ bits, m.addRange rng = some { m with bitVec := bits } ∧
    bits.length = m.bitVec.length ∧
    ∀ b, Marked bits b ↔ Touches m.scale m.range rng b ∨ Marked m.bitVec b := by
  rcases m.bitIndices_cases rng with ⟨hnone, hempty⟩ | ⟨lo, hi, hlt, hhi, hsome, hmem⟩
  · refine ⟨m.bitVec, by rw [CovMap.addRange, hnone], rfl, fun b => ?_⟩
    have hnot : ¬ Touches m.scale m.range rng b := fun ⟨va, hrng, hseg, _⟩ => hempty va ⟨hrng, hseg⟩
    simp [hnot]
  · obtain ⟨hle, hfirst⟩ := hm.last_le hlt hhi
    obtain ⟨bits, hset, hlen, hmarked⟩ := setFrom_spec hle
    refine ⟨bits, by rw [CovMap.addRange, hsome]; simp only [hset, map_some], hlen, fun b => ?_⟩
    rw [hmarked, hm.touches_iff rng hlt hmem, Nat.add_sub_cancel' hfirst]

lemma CovMap.WF.rangePartiallyCovered_spec : ∃ covered, m.rangePartiallyCovered rng = some covered ∧
    (covered = true ↔ ∃ b, Marked m.bitVec b ∧ Touches m.scale m.range rng b) := by
  rcases m.bitIndices_cases rng with ⟨hnone, hempty⟩ | ⟨lo, hi, hlt, hhi, hsome, hmem⟩
  · refine ⟨false, by rw [CovMap.rangePartiallyCovered, hnone], ?_⟩
    simp only [Bool.false_eq_true, false_iff, not_exists, not_and]
    rintro b - ⟨va, hrng, hseg, -⟩
    exact hempty va ⟨hrng, hseg⟩
  · obtain ⟨hle, hfirst⟩ := hm.last_le hlt hhi
    obtain ⟨found, hany, hfound⟩ := anyFrom_spec hle
    refine ⟨found, by rw [CovMap.rangePartiallyCovered, hsome]; exact hany, hfound.trans ?_⟩
    simp only [hm.touches_iff rng hlt hmem, Nat.add_sub_cancel' hfirst]

end

/-! ## The segment of an address -/

/-- Segments that are not empty and lie one behind the other. -/
structure Ordered (segments : List VaRange) : Prop where
  nonempty : ∀ s ∈ segments, s.start < s.stop
  apart : segments.Pairwise fun a b => a.stop ≤ b.start

lemma Ordered.index_unique {segments : List VaRange} (h : Ordered segments) {i j va : ℕ}
    {seg seg' : VaRange} (hi : segments[i]? = some seg) (hva : seg.Contains va)
    (hj : segments[j]? = some seg') (hva' : seg'.Contains va) : i = j := by
  obtain ⟨hilt, rfl⟩ := List.getElem?_eq_some_iff.mp hi
  obtain ⟨hjlt, rfl⟩ := List.getElem?_eq_some_iff.mp hj
  have hapart := pairwise_iff_getElem.mp h.apart
  obtain ⟨hlow, hhigh⟩ := hva
  obtain ⟨hlow', hhigh'⟩ := hva'
  rcases lt_trichotomy i j with hlt | heq | hgt
  · have := hapart i j hilt hjlt hlt
    omega
  · exact heq
  · have := hapart j i hjlt hilt hgt
    omega

section
variable {maps : List CovMap} {m : CovMap} {i va : ℕ}

section
variable (h : Ordered (maps.map (·.range))) (hi : maps[i]? = some m)
include h hi

lemma Ordered.lt_of_getElem? : m.range.start < m.range.stop :=
  h.nonempty _ (mem_map_of_mem (mem_of_getElem? hi))

lemma Ordered.stop_le {j : ℕ} {m' : CovMap} (hj : maps[j]? = some m')
    (hij : i < j) : m.range.stop ≤ m'.range.start := by
  obtain ⟨hi', rfl⟩ := List.getElem?_eq_some_iff.mp hi
  obtain ⟨hj', rfl⟩ := List.getElem?_eq_some_iff.mp hj
  have hapart := pairwise_iff_getElem.mp h.apart i j (by simpa using hi') (by simpa using hj') hij
  simpa using hapart

end

lemma findIdx_eq_of {keys : List ℕ} {key k : ℕ} (hk : k ≤ keys.length)
    (hbefore : ∀ j < k, ∀ x, keys[j]? = some x → x < key) (hat : ∀ x, keys[k]? = some x → key ≤ x) :
    keys.findIdx (key ≤ ·) = k := by
  rcases lt_or_eq_of_le hk with hlt | rfl
  · rw [findIdx_eq hlt]
    refine ⟨decide_eq_true (hat _ (getElem?_eq_getElem hlt)), fun j hj => ?_⟩
    have hx := hbefore j hj _ (getElem?_eq_getElem (by omega))
    exact decide_eq_false (by omega)
  · rw [findIdx_eq_length]
    intro x hx
    obtain ⟨j, hj⟩ := mem_iff_getElem?.mp hx
    have hlt := (List.getElem?_eq_some_iff.mp hj).1
    have hx := hbefore j hlt x hj
    exact decide_eq_false (by omega)

lemma getElem?_starts {x : ℕ} (h : (maps.map (·.range.start))[i]? = some x) :
    ∃ m, maps[i]? = some m ∧ m.range.start = x := by
  rw [getElem?_map] at h
  exact map_eq_some_iff.mp h

lemma binarySearch_of_contains (h : Ordered (maps.map (·.range))) (hi : maps[i]? = some m)
    (hva : m.range.Contains va) : binarySearch (maps.map (·.range.start)) va =
      if m.range.start = va then .ok i else .error (i + 1) := by
  have hlen : i < (maps.map (·.range.start)).length := by
    rw [length_map]
    exact (List.getElem?_eq_some_iff.mp hi).1
  have hbefore : ∀ j < i, ∀ x, (maps.map (·.range.start))[j]? = some x → x < m.range.start := by
    intro j hj x hx
    obtain ⟨m', hm', rfl⟩ := getElem?_starts hx
    exact Nat.lt_of_lt_of_le (h.lt_of_getElem? hm') (h.stop_le hm' hi hj)
  have hstart : (maps.map (·.range.start))[i]? = some m.range.start := by
    rw [getElem?_map, hi, map_some]
  unfold binarySearch
  obtain ⟨hlow, hhigh⟩ := hva
  split
  · next heq =>
    subst heq
    have hidx := findIdx_eq_of (Nat.le_of_lt hlen) hbefore fun x hx => by
      rw [hstart] at hx
      cases hx
      exact le_rfl
    rw [hidx, if_pos hstart]
  · next hne =>
    -- the segment begins in front of the address, and the next one behind it
    have hnext : ∀ x, (maps.map (·.range.start))[i + 1]? = some x → va < x := by
      intro x hx
      obtain ⟨m', hm', rfl⟩ := getElem?_starts hx
      exact Nat.lt_of_lt_of_le hhigh (h.stop_le hi hm' (lt_succ_self i))
    have hall : ∀ j < i + 1, ∀ x, (maps.map (·.range.start))[j]? = some x → x < va := by
      intro j hj x hx
      rcases Nat.lt_succ_iff_lt_or_eq.mp hj with hlt | rfl
      · have := hbefore j hlt x hx
        omega
      · rw [hstart] at hx
        cases hx
        omega
    have hidx := findIdx_eq_of (succ_le_of_lt hlen) hall fun x hx => Nat.le_of_lt (hnext x hx)
    rw [hidx, if_neg fun hx => absurd (hnext va hx) (Nat.lt_irrefl va)]

lemma eq_of_binarySearch {keys : List ℕ} {key : ℕ} (h : binarySearch keys key = .ok i) :
    keys[i]? = some key := by
  unfold binarySearch at h
  dsimp only at h
  split at h
  · next heq =>
    cases h
    exact heq
  · cases h

lemma mapForAddr_eq_some_iff (h : Ordered (maps.map (·.range))) :
    mapForAddr maps va = some i ↔ ∃ m, maps[i]? = some m ∧ m.range.Contains va := by
  constructor
  · intro hres
    unfold mapForAddr at hres
    split at hres
    · cases hres
    · next m =>
      split at hres
      · next hva =>
        cases hres
        exact ⟨m, rfl, hva⟩
      · cases hres
    · split at hres
      · next idx hsearch =>
        cases hres
        obtain ⟨m, hm, hstart⟩ := getElem?_starts (eq_of_binarySearch hsearch)
        have hlt := h.lt_of_getElem? hm
        exact ⟨m, hm, by omega, by omega⟩
      · cases hres
      · next idx hsearch =>
        obtain ⟨m, hm, hif⟩ := bind_eq_some_iff.mp hres
        split at hif
        · next hva =>
          cases hif
          exact ⟨m, hm, hva⟩
        · cases hif
  · rintro ⟨m, hi, hva⟩
    unfold mapForAddr
    split
    · cases hi
    · next m' =>
      cases i with
      | zero =>
        cases hi
        rw [if_pos hva]
      | succ i => cases hi
    · rw [binarySearch_of_contains h hi hva]
      split
      · next hok =>
        split at hok
        · cases hok
          rfl
        · cases hok
      · next herror =>
        split at herror <;> cases herror
      · next herror =>
        split at herror
        · cases herror
        · cases herror
          rw [hi, bind_some, if_pos hva]

end

/-! ## Operations on several segments -/

/-- One map for each segment. -/
structure MapsFor (scale : ℕ) (segments : List VaRange) (maps : List CovMap) : Prop where
  range : maps.map (·.range) = segments
  scale : ∀ m ∈ maps, m.scale = scale
  wf : ∀ m ∈ maps, m.WF

/-- Bucket `b` of the `i`-th segment is marked. -/
def Covered (maps : List CovMap) (i b : ℕ) : Prop := ∃ m, maps[i]? = some m ∧ Marked m.bitVec b

/-- The range begins in segment `i`, and has its bucket `b`. -/
def Assigned (scale : ℕ) (segments : List VaRange) (rng : VaRange) (i b : ℕ) : Prop :=
  ∃ seg, segments[i]? = some seg ∧ seg.Contains rng.start ∧ Touches scale seg rng b

section
variable {scale : ℕ} {segments : List VaRange} {maps : List CovMap}

variable {i : ℕ} {m : CovMap}

section
variable (h : MapsFor scale segments maps)
include h

lemma MapsFor.getElem? {seg : VaRange}
    (hi : segments[i]? = some seg) : ∃ m, maps[i]? = some m ∧ m.range = seg := by
  rw [← h.range, getElem?_map] at hi
  exact map_eq_some_iff.mp hi

lemma MapsFor.getElem?_range
    (hi : maps[i]? = some m) : segments[i]? = some m.range ∧ m.scale = scale ∧ m.WF := by
  have hmem := mem_of_getElem? hi
  refine ⟨?_, h.scale m hmem, h.wf m hmem⟩
  rw [← h.range, getElem?_map, hi, map_some]

lemma MapsFor.assigned_iff (hordered : Ordered segments) {rng : VaRange} (hm : maps[i]? = some m)
    (hstart : m.range.Contains rng.start) (j b : ℕ) :
    Assigned scale segments rng j b ↔ j = i ∧ Touches m.scale m.range rng b := by
  obtain ⟨hseg, hscale, -⟩ := h.getElem?_range hm
  constructor
  · rintro ⟨seg, hj, hcontains, htouches⟩
    obtain rfl := hordered.index_unique hseg hstart hj hcontains
    rw [hseg] at hj
    cases hj
    exact ⟨rfl, hscale ▸ htouches⟩
  · rintro ⟨rfl, htouches⟩
    exact ⟨m.range, hseg, hstart, hscale ▸ htouches⟩

lemma MapsFor.not_assigned (hordered : Ordered segments) {rng : VaRange}
    (hnone : mapForAddr maps rng.start = none) (i b : ℕ) : ¬ Assigned scale segments rng i b := by
  rintro ⟨seg, hi, hcontains, -⟩
  obtain ⟨m, hm, rfl⟩ := h.getElem? hi
  rw [← h.range] at hordered
  rw [(mapForAddr_eq_some_iff hordered).mpr ⟨m, hm, hcontains⟩] at hnone
  cases hnone

lemma MapsFor.set {m' : CovMap} (hi : maps[i]? = some m) (hrange : m'.range = m.range)
    (hscale : m'.scale = m.scale)
    (hlen : m'.bitVec.length = m.bitVec.length) : MapsFor scale segments (maps.set i m') := by
  obtain ⟨hseg, hscale', hwf⟩ := h.getElem?_range hi
  have hwf' : m'.WF := ⟨hscale ▸ hwf.scale, by rw [hrange, hscale, hlen]; exact hwf.bits⟩
  refine ⟨?_, fun m₁ hm₁ => ?_, fun m₁ hm₁ => ?_⟩
  · rw [map_set, h.range, hrange]
    obtain ⟨hlt, hget⟩ := List.getElem?_eq_some_iff.mp hseg
    rw [← hget, set_getElem_self]
  · rcases mem_or_eq_of_mem_set hm₁ with hm₁ | rfl
    · exact h.scale m₁ hm₁
    · exact hscale.trans hscale'
  · rcases mem_or_eq_of_mem_set hm₁ with hm₁ | rfl
    · exact h.wf m₁ hm₁
    · exact hwf'

lemma MapsFor.addRange_spec (hordered : Ordered segments)
    (rng : VaRange) : ∃ maps', addRange maps rng = some maps' ∧ MapsFor scale segments maps' ∧
      ∀ i b, Covered maps' i b ↔ Assigned scale segments rng i b ∨ Covered maps i b := by
  unfold addRange
  cases hmap : mapForAddr maps rng.start with
  | none =>
    refine ⟨maps, rfl, h, fun i b => ?_⟩
    simp [h.not_assigned hordered hmap i b]
  | some idx =>
    obtain ⟨m, hm, hstart⟩ := (mapForAddr_eq_some_iff (h.range ▸ hordered)).mp hmap
    obtain ⟨hseg, hscale, hwf⟩ := h.getElem?_range hm
    obtain ⟨bits, hadd, hlen, hmarked⟩ := hwf.addRange_spec rng
    refine ⟨maps.set idx { m with bitVec := bits }, ?_, ?_, fun i b => ?_⟩
    · dsimp only
      rw [hm, bind_some, hadd, map_some]
    · exact h.set hm rfl rfl hlen
    · rw [h.assigned_iff hordered hm hstart]
      have hidx := (List.getElem?_eq_some_iff.mp hm).1
      unfold Covered
      by_cases hi : i = idx
      · subst hi
        rw [getElem?_set_self hidx, hm]
        simp only [Option.some.injEq, exists_eq_left', hmarked, true_and]
      · simp [hi, getElem?_set_ne (Ne.symm hi)]

lemma MapsFor.rangePartiallyCovered_spec (hordered : Ordered segments)
    (rng : VaRange) : ∃ covered, rangePartiallyCovered maps rng = some covered ∧
      (covered = true ↔ ∃ i b, Covered maps i b ∧ Assigned scale segments rng i b) := by
  unfold rangePartiallyCovered
  cases hmap : mapForAddr maps rng.start with
  | none =>
    simp [h.not_assigned hordered hmap]
  | some idx =>
    obtain ⟨m, hm, hstart⟩ := (mapForAddr_eq_some_iff (h.range ▸ hordered)).mp hmap
    obtain ⟨hseg, hscale, hwf⟩ := h.getElem?_range hm
    obtain ⟨covered, hcovered, hiff⟩ := hwf.rangePartiallyCovered_spec rng
    refine ⟨covered, ?_, hiff.trans ?_⟩
    · dsimp only
      rw [hm, bind_some, hcovered]
    · simp only [h.assigned_iff hordered hm hstart]
      constructor
      · rintro ⟨b, hb, htouches⟩
        exact ⟨idx, b, ⟨m, hm, hb⟩, rfl, htouches⟩
      · rintro ⟨i, b, ⟨m', hm', hb⟩, rfl, htouches⟩
        rw [hm] at hm'
        cases hm'
        exact ⟨b, hb, htouches⟩

end

end

end EbpfProfiler.SymbConv
