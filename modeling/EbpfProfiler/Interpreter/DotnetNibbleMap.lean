import EbpfProfiler.Lib.Machine
import Mathlib.Order.Bounds.Basic

/-!
# The nibble map of .NET 6 to 9

Four bits for 32 bytes of code say where a method starts, eight buckets to an element. The search
is `dotnet_find_code_start` (`dotnet_tracer.ebpf.c`).
-/

namespace EbpfProfiler.Interpreter

open Lib Nat

/-- Why a method is not found. -/
inductive DotnetError
  | codeHeader
  | codeTooLarge
  deriving DecidableEq

/-! ## Source -/

/-- The loop at the end: the first nibble that is not zero, from the lowest one on. -/
def decodeStart : ℕ → ℕ → ℕ → Option ℕ
  | 0, _, _ => none
  | n + 1, val, pcDelta =>
    if val % 16 ≠ 0 then some (pcDelta + (val % 16 - 1) * 4)
    else decodeStart n (val >>> 4) (subWord 64 pcDelta 32)

/-- The loop over pairs of elements, backwards. -/
def seekBack (map64 : ℕ → ℕ) : ℕ → ℕ → ℕ
  | 0, pos64 => pos64
  | n + 1, pos64 => if map64 pos64 ≠ 0 then pos64 else seekBack map64 n (pos64 - 1)

/-- An element of `scratch->map64`. -/
def map64 (map : ℕ → BitVec 32) (i : ℕ) : ℕ :=
  (map (2 * i)).toNat + 2 ^ 32 * (map (2 * i + 1)).toNat

/-- The last element in front of position 127 that is not zero, with its position. -/
def previousElement (map : ℕ → BitVec 32) : ℕ × ℕ :=
  if map 126 ≠ 0 then (126, (map 126).toNat)
  else
    let pos64 := seekBack (map64 map) 62 62
    let val64 := map64 map pos64
    if val64 >>> 32 ≠ 0 then (2 * pos64 + 1, val64 >>> 32) else (2 * pos64, val64 % 2 ^ 32)

/-- The start that an element leads to. -/
def decodeElement (pcBase val pcDelta : ℕ) : Except DotnetError ℕ :=
  match decodeStart 8 val pcDelta with
  | some start => .ok ((pcBase + start) % 2 ^ 64)
  | none => .error .codeHeader

/-- The part of `dotnet_find_code_start` behind the read. -/
def searchMap (map : ℕ → BitVec 32) (pcBase pcDelta : ℕ) : Except DotnetError ℕ :=
  let val := (map 127).toNat >>> (28 - pcDelta / 32 % 8 * 4)
  if val ≠ 0 then decodeElement pcBase val (pcDelta / 32 * 32)
  else
    let pcDelta := subWord 64 (pcDelta / 256 * 256) 32
    let previous := previousElement map
    let pcSkipped := 256 * (126 - previous.1)
    if pcDelta < pcSkipped then .error .codeHeader
    else if previous.2 = 0 then .error .codeTooLarge
    else decodeElement pcBase previous.2 (pcDelta - pcSkipped)

/-- The address from which 128 elements are read. -/
def readStart (mapStart pcDelta : ℕ) : ℕ :=
  if 127 < pcDelta / 256 then (mapStart + (pcDelta / 256 * 4 - 512 + 4)) % 2 ^ 64 else mapStart

/-- The scratch buffer after the read, with old elements in front. -/
def fillScratch (scratch elements : ℕ → BitVec 32) (pcDelta : ℕ) (i : ℕ) : BitVec 32 :=
  let offs := 127 - pcDelta / 256
  if offs ≤ i ∧ i < offs + 128 then elements (i - offs) else scratch i

/-- `dotnet_find_code_start`; elements are `none` where `bpf_probe_read_user` fails. -/
def findCodeStart (readUser : ℕ → Option (ℕ → BitVec 32)) (scratch : ℕ → BitVec 32)
    (pcBase mapStart pc : ℕ) : Except DotnetError ℕ :=
  let pcDelta := subWord 64 pc pcBase / 4 * 4
  match readUser (readStart mapStart pcDelta) with
  | none => .error .codeHeader
  | some elements => searchMap (fillScratch scratch elements pcDelta) pcBase pcDelta

/-! ## The map -/

section Map

variable (element : ℕ → BitVec 32)

/-- The entry of a bucket. -/
def nibble (bucket : ℕ) : ℕ := (element (bucket / 8)).toNat >>> (28 - bucket % 8 * 4) % 16

/-- The start that the entry of a bucket stands for. -/
def bucketStart (bucket : ℕ) : ℕ := 32 * bucket + (nibble element bucket - 1) * 4

/-- A method starts at this offset of the code area. -/
def IsStart (start : ℕ) : Prop := ∃ bucket, nibble element bucket ≠ 0 ∧
  start = bucketStart element bucket

def LastStart (offset start : ℕ) : Prop := IsGreatest {s | IsStart element s ∧ s ≤ offset} start

/-- The last bucket with a start up to a bucket. -/
structure LastBucket (upto bucket : ℕ) : Prop where
  le : bucket ≤ upto
  start : nibble element bucket ≠ 0
  behind : ∀ k, bucket < k → k ≤ upto → nibble element k = 0

end Map

variable {element : ℕ → BitVec 32}

/-- Without a later start in the bucket of the offset, the last start is in the last bucket. -/
lemma LastBucket.lastStart {offset bucket : ℕ} (h : LastBucket element (offset / 32) bucket)
    (hformat : ∀ k ≤ offset / 32, nibble element k ≤ 8)
    (hown : nibble element (offset / 32) ≠ 0 → bucketStart element (offset / 32) ≤ offset) :
    LastStart element offset (bucketStart element bucket) := by
  have hstart (k : ℕ) : 32 * k ≤ bucketStart element k := le_add_right _ _
  have hend (k : ℕ) (hk : k ≤ offset / 32) : bucketStart element k < 32 * (k + 1) := by
    have := hformat k hk
    unfold bucketStart
    omega
  constructor
  · refine ⟨⟨bucket, h.start, rfl⟩, ?_⟩
    rcases lt_or_eq_of_le h.le with hlt | rfl
    · have := hend bucket h.le
      omega
    · exact hown h.start
  · rintro s ⟨⟨k, hk, rfl⟩, hle⟩
    have hkstart := hstart k
    have hbstart := hstart bucket
    have hkb : k ≤ bucket := by
      by_contra hlt
      exact hk (h.behind k (by omega) (by omega))
    have hkend := hend k (by omega)
    rcases lt_or_eq_of_le hkb with hlt | rfl
    · omega
    · exact le_rfl

/-! ## Decoding an element -/

lemma nibble_of_shift {m b i : ℕ} (hb : b ≤ 7) (hi : i ≤ b) :
    (element m).toNat >>> (28 - b * 4) >>> (4 * i) % 16 = nibble element (8 * m + b - i) := by
  have hdiv : (8 * m + b - i) / 8 = m := by omega
  have hmod : (8 * m + b - i) % 8 = b - i := by omega
  rw [nibble, hdiv, ← shiftRight_add]
  congr 2
  omega

lemma shift_eq_zero {m b i : ℕ} (hb : b ≤ 7) (hi : b < i) :
    (element m).toNat >>> (28 - b * 4) >>> (4 * i) = 0 := by
  rw [← shiftRight_add, shiftRight_eq_div_pow]
  apply div_eq_of_lt
  exact Nat.lt_of_lt_of_le (element m).isLt (Nat.pow_le_pow_right (by decide) (by omega))

/-- The loop ends at the lowest nibble that is not zero. -/
lemma decodeStart_eq {n val : ℕ} (hval : val ≠ 0) (hlt : val < 2 ^ (4 * n)) :
    ∃ i < n, val >>> (4 * i) % 16 ≠ 0 ∧ (∀ k < i, val >>> (4 * k) % 16 = 0) ∧
      (∀ d, decodeStart n val d ≠ none) ∧
      ∀ d, 32 * i ≤ d → d < 2 ^ 64 →
        decodeStart n val d = some (d - 32 * i + (val >>> (4 * i) % 16 - 1) * 4) := by
  induction n generalizing val with
  | zero =>
    omega
  | succ n ih =>
    by_cases hlow : val % 16 = 0
    · have hlt' : val >>> 4 < 2 ^ (4 * n) := by
        rw [mul_succ, pow_add] at hlt
        omega
      obtain ⟨i, hi, hnib, hbelow, hsome, heq⟩ := ih (show val >>> 4 ≠ 0 by omega) hlt'
      have hstep (k : ℕ) : val >>> (4 * (k + 1)) = val >>> 4 >>> (4 * k) := by
        rw [← shiftRight_add, mul_succ, add_comm]
      refine ⟨i + 1, by omega, by rw [hstep]; exact hnib, ?_, ?_, ?_⟩
      · intro k hk
        cases k with
        | zero => exact hlow
        | succ k => rw [hstep]; exact hbelow k (by omega)
      · intro d
        rw [decodeStart, if_neg (not_not_intro hlow)]
        exact hsome _
      · intro d hd hd64
        rw [decodeStart, if_neg (not_not_intro hlow), subWord_of_le (by omega) hd64,
          heq _ (by omega) (by omega), hstep]
        congr 2
        omega
    · refine ⟨0, by omega, hlow, by omega, ?_, ?_⟩
      · intro d
        rw [decodeStart, if_pos hlow]
        exact Option.some_ne_none _
      · intro d _ _
        rw [decodeStart, if_pos hlow]
        rfl

lemma decodeStart_element {m b : ℕ} (hb : b ≤ 7) (hval : (element m).toNat >>> (28 - b * 4) ≠ 0)
    (hlt : 32 * (8 * m + b) < 2 ^ 64) :
    ∃ bucket, 8 * m ≤ bucket ∧ LastBucket element (8 * m + b) bucket ∧
      decodeStart 8 ((element m).toNat >>> (28 - b * 4)) (32 * (8 * m + b)) =
        some (bucketStart element bucket) := by
  have hsmall : (element m).toNat >>> (28 - b * 4) < 2 ^ (4 * 8) := by
    rw [shiftRight_eq_div_pow]
    exact lt_of_le_of_lt (div_le_self _ _) (element m).isLt
  obtain ⟨i, hi, hnib, hbelow, -, heq⟩ := decodeStart_eq hval hsmall
  have hib : i ≤ b := by
    by_contra hgt
    rw [shift_eq_zero hb (by omega)] at hnib
    exact hnib rfl
  rw [nibble_of_shift hb hib] at hnib heq
  refine ⟨8 * m + b - i, by omega, ⟨by omega, hnib, ?_⟩, ?_⟩
  · intro k hk hkb
    have := hbelow (8 * m + b - k) (by omega)
    rw [nibble_of_shift hb (by omega)] at this
    rwa [show 8 * m + b - (8 * m + b - k) = k by omega] at this
  · rw [heq _ (by omega) hlt]
    congr 2
    omega

lemma nibble_eq_zero {m b k : ℕ} (hb : b ≤ 7) (hval : (element m).toNat >>> (28 - b * 4) = 0)
    (hk : 8 * m ≤ k) (hkb : k ≤ 8 * m + b) :
    nibble element k = 0 := by
  have := @nibble_of_shift element m b (8 * m + b - k) hb (by omega)
  rw [show 8 * m + b - (8 * m + b - k) = k by omega, hval, zero_shiftRight] at this
  exact this.symm

/-! ## Going backwards -/

lemma seekBack_eq (map64 : ℕ → ℕ) (n : ℕ) {pos64 : ℕ} (h : n ≤ pos64) :
    seekBack map64 n pos64 ≤ pos64 ∧
      (∀ k, seekBack map64 n pos64 < k → k ≤ pos64 → map64 k = 0) ∧
      (map64 (seekBack map64 n pos64) ≠ 0 ∨ seekBack map64 n pos64 = pos64 - n) := by
  induction n generalizing pos64 with
  | zero => exact ⟨le_rfl, by intro k hk hk'; rw [seekBack] at hk; omega, .inr rfl⟩
  | succ n ih =>
    rw [seekBack]
    by_cases hval : map64 pos64 = 0
    · rw [if_neg (not_not_intro hval)]
      obtain ⟨hle, hzero, hend⟩ := ih (show n ≤ pos64 - 1 by omega)
      refine ⟨by omega, ?_, ?_⟩
      · intro k hk hkp
        by_cases heq : k = pos64
        · rw [heq, hval]
        · exact hzero k hk (by omega)
      · rcases hend with hne | heq
        · exact .inl hne
        · exact .inr (by omega)
    · rw [if_pos hval]
      exact ⟨le_rfl, by omega, .inl hval⟩

lemma previousElement_eq (map : ℕ → BitVec 32) : (previousElement map).1 ≤ 126 ∧
      (previousElement map).2 = (map (previousElement map).1).toNat ∧
      (∀ k, (previousElement map).1 < k → k ≤ 126 → map k = 0) ∧
      ((previousElement map).2 = 0 → (previousElement map).1 = 0) := by
  unfold previousElement
  by_cases hlast : map 126 = 0
  · rw [if_neg (not_not_intro hlast)]
    obtain ⟨hle, hzero, hend⟩ := seekBack_eq (map64 map) 62 (le_refl 62)
    dsimp only
    generalize seekBack (map64 map) 62 62 = pos64 at hle hzero hend ⊢
    have hshift : map64 map pos64 >>> 32 = (map (2 * pos64 + 1)).toNat := by
      rw [map64]
      omega
    have hmod : map64 map pos64 % 2 ^ 32 = (map (2 * pos64)).toNat := by
      rw [map64]
      omega
    have hpair (k : ℕ) (hk : pos64 < k) (hk62 : k ≤ 62) : map (2 * k) = 0 ∧
        map (2 * k + 1) = 0 := by
      have := hzero k hk hk62
      rw [map64] at this
      constructor
      · apply BitVec.eq_of_toNat_eq
        show (map (2 * k)).toNat = 0
        omega
      · apply BitVec.eq_of_toNat_eq
        show (map (2 * k + 1)).toNat = 0
        omega
    have habove (k : ℕ) (hk : 2 * pos64 + 1 < k) (hk126 : k ≤ 126) : map k = 0 := by
      by_cases heq : k = 126
      · rw [heq, hlast]
      · have hhalf := hpair (k / 2) (by omega) (by omega)
        rcases mod_two_eq_zero_or_one k with hmod2 | hmod2
        · rw [show k = 2 * (k / 2) by omega]
          exact hhalf.1
        · rw [show k = 2 * (k / 2) + 1 by omega]
          exact hhalf.2
    rw [hshift, hmod]
    by_cases hupper : (map (2 * pos64 + 1)).toNat = 0
    · rw [if_neg (not_not_intro hupper)]
      refine ⟨by omega, rfl, ?_, ?_⟩
      · intro k hk hk126
        by_cases heq : k = 2 * pos64 + 1
        · rw [heq]
          exact BitVec.eq_of_toNat_eq hupper
        · exact habove k (by omega) hk126
      · intro hval
        rcases hend with hne | heq
        · exact absurd (by omega) hne
        · omega
    · rw [if_pos hupper]
      refine ⟨by omega, rfl, habove, fun hval => absurd hval hupper⟩
  · rw [if_pos hlast]
    refine ⟨le_rfl, rfl, by omega, fun hval => ?_⟩
    exact absurd (BitVec.eq_of_toNat_eq hval) hlast

/-! ## The search -/

section Search

variable {map : ℕ → BitVec 32} {pcBase d : ℕ}

lemma decodeElement_bucket {m b : ℕ} (hb : b ≤ 7) (hval : (element m).toNat >>> (28 - b * 4) ≠ 0)
    (hlt : 32 * (8 * m + b) < 2 ^ 64) :
    ∃ bucket, 8 * m ≤ bucket ∧ LastBucket element (8 * m + b) bucket ∧
      decodeElement pcBase ((element m).toNat >>> (28 - b * 4)) (32 * (8 * m + b)) =
        .ok ((pcBase + bucketStart element bucket) % 2 ^ 64) := by
  obtain ⟨bucket, hfirst, hlast, heq⟩ := decodeStart_element hb hval hlt
  exact ⟨bucket, hfirst, hlast, by rw [decodeElement, heq]⟩

lemma decodeElement_ne_error {val : ℕ} (hval : val ≠ 0) (hlt : val < 2 ^ 32) (e : DotnetError) :
    decodeElement pcBase val d ≠ .error e := by
  obtain ⟨-, -, -, -, hsome, -⟩ := @decodeStart_eq 8 val hval hlt
  unfold decodeElement
  cases hdec : decodeStart 8 val d with
  | none => exact absurd hdec (hsome d)
  | some start =>
    intro h
    cases h

/-- The search ends at the last bucket with a start, or with an error. In front of the first element
there are old contents of the buffer. -/
lemma searchMap_eq (hd : d < 2 ^ 64)
    (hmap : ∀ i ≤ 127, 127 ≤ i + d / 256 → map i = element (i + d / 256 - 127))
    (hfirst : 256 ≤ d ∨ (element (d / 256)).toNat >>> (28 - d / 32 % 8 * 4) ≠ 0) :
    (∃ bucket, d / 256 ≤ bucket / 8 + 127 ∧ LastBucket element (d / 32) bucket ∧
        searchMap map pcBase d = .ok ((pcBase + bucketStart element bucket) % 2 ^ 64)) ∨
      ((∀ k ≤ d / 32, d / 256 ≤ k / 8 + 127 → nibble element k = 0) ∧
        ∃ e, searchMap map pcBase d = .error e) := by
  have hown : map 127 = element (d / 256) := by
    rw [hmap 127 (Nat.le_refl 127) (le_add_right _ _), Nat.add_sub_cancel_left]
  have hbucket : 8 * (d / 256) + d / 32 % 8 = d / 32 := by omega
  unfold searchMap
  rw [hown]
  by_cases hval : (element (d / 256)).toNat >>> (28 - d / 32 % 8 * 4) = 0
  · -- nothing up to the bucket of the address: the elements before it decide
    obtain ⟨hpos, hprev, hbehind, hnone⟩ := previousElement_eq map
    rw [if_neg (not_not_intro hval), subWord_of_le (by omega) (by omega)]
    generalize previousElement map = previous at hpos hprev hbehind hnone ⊢
    have hempty (k : ℕ) (hk : k ≤ d / 32) (hkfirst : previous.1 + d / 256 < k / 8 + 127) :
        nibble element k = 0 := by
      by_cases hklast : 8 * (d / 256) ≤ k
      · exact nibble_eq_zero (by omega) hval hklast (by omega)
      · have := hbehind (k / 8 + 127 - d / 256) (by omega) (by omega)
        rw [hmap _ (by omega) (by omega),
          show k / 8 + 127 - d / 256 + d / 256 - 127 = k / 8 by omega] at this
        apply @nibble_eq_zero element (k / 8) 7 k (by omega) _ (by omega) (by omega)
        rw [this]
        rfl
    by_cases hinside : 127 ≤ previous.1 + d / 256
    · rw [if_neg (by omega)]
      rw [hmap _ (by omega) hinside] at hprev
      by_cases hpval : previous.2 = 0
      · rw [if_pos hpval]
        refine .inr ⟨?_, _, rfl⟩
        intro k hk hkw
        by_cases hkfirst : previous.1 + d / 256 < k / 8 + 127
        · exact hempty k hk hkfirst
        · apply @nibble_eq_zero element (k / 8) 7 k (by omega) _ (by omega) (by omega)
          rw [show k / 8 = previous.1 + d / 256 - 127 by omega, ← hprev, hpval]
          rfl
      · rw [if_neg hpval]
        rw [hprev] at hpval
        obtain ⟨bucket, hle, hlast, heq⟩ :=
          @decodeElement_bucket element pcBase (previous.1 + d / 256 - 127) 7 (by omega) hpval
            (by omega)
        refine .inl ⟨bucket, by omega, ⟨by have := hlast.le; omega, hlast.start, ?_⟩, ?_⟩
        · intro k hk hkd
          by_cases hsame : k ≤ 8 * (previous.1 + d / 256 - 127) + 7
          · exact hlast.behind k hk hsame
          · exact hempty k hkd (by omega)
        · rw [← heq]
          show decodeElement pcBase _ _ = decodeElement pcBase _ _
          congr 1
          omega
    · rw [if_pos (by omega)]
      exact .inr ⟨fun k hk hkw => hempty k hk (by omega), _, rfl⟩
  · obtain ⟨bucket, hle, hlast, heq⟩ :=
      @decodeElement_bucket element pcBase (d / 256) (d / 32 % 8) (by omega) hval (by omega)
    rw [hbucket] at hlast heq
    rw [if_pos hval, Nat.mul_comm (d / 32), heq]
    exact .inl ⟨bucket, by omega, hlast, rfl⟩

/-- In the first element without a start, old buffer contents decide about the error. -/
lemma searchMap_first (hd : d < 256) (hval : (map 127).toNat >>> (28 - d / 32 % 8 * 4) = 0) :
    (∃ e, searchMap map pcBase d = .error e) ↔ ∀ i < 127, map i = 0 := by
  obtain ⟨hpos, hprev, hbehind, hnone⟩ := previousElement_eq map
  unfold searchMap
  have hwrap : subWord 64 (d / 256 * 256) 32 = 2 ^ 64 - 32 := by
    rw [show d / 256 * 256 = 0 by omega]
    rfl
  rw [if_neg (not_not_intro hval), if_neg (by omega)]
  constructor
  · rintro ⟨e, he⟩ i hi
    by_cases hpval : (previousElement map).2 = 0
    · have hzero := hnone hpval
      by_cases hi0 : i = 0
      · apply BitVec.eq_of_toNat_eq
        rw [hi0, ← hzero, ← hprev, hpval]
        rfl
      · exact hbehind i (by omega) (by omega)
    · rw [if_neg hpval] at he
      refine absurd he (decodeElement_ne_error hpval ?_ e)
      rw [hprev]
      exact (map _).isLt
  · intro hzero
    have hpval : (previousElement map).2 = 0 := by
      rw [hprev, hzero _ (by omega)]
      rfl
    exact ⟨_, by rw [if_pos hpval]⟩

end Search

/-! ## What the function returns -/

def MapAt (readUser : ℕ → Option (ℕ → BitVec 32)) (mapStart : ℕ) (element : ℕ → BitVec 32) : Prop :=
  ∀ k elements, readUser ((mapStart + 4 * k) % 2 ^ 64) = some elements →
    ∀ i < 128, elements i = element (k + i)

/-- The read succeeds, and the element of the start is among its 128. -/
def InWindow (readUser : ℕ → Option (ℕ → BitVec 32)) (mapStart offset start : ℕ) : Prop :=
  readUser (readStart mapStart offset) ≠ none ∧ offset / 256 ≤ start / 256 + 127

/-- The last start when it is in the window, and an error otherwise. -/
structure FindsLastStart (readUser : ℕ → Option (ℕ → BitVec 32)) (element : ℕ → BitVec 32)
    (pcBase mapStart offset : ℕ) (result : Except DotnetError ℕ) : Prop where
  found : ∀ start, LastStart element offset start → InWindow readUser mapStart offset start →
    result = .ok (pcBase + start)
  notFound : (¬∃ start, LastStart element offset start ∧ InWindow readUser mapStart offset start) →
    ∃ e, result = .error e

section Result

variable {readUser : ℕ → Option (ℕ → BitVec 32)} {scratch elements : ℕ → BitVec 32}
  {pcBase mapStart pc offset : ℕ}

lemma readStart_eq (h : mapStart < 2 ^ 64) :
    readStart mapStart offset = (mapStart + 4 * (offset / 256 - 127)) % 2 ^ 64 := by
  unfold readStart
  split
  · rw [show offset / 256 * 4 - 512 + 4 = 4 * (offset / 256 - 127) by omega]
  · omega

lemma fillScratch_new (hmap : MapAt readUser mapStart element) (hstart : mapStart < 2 ^ 64)
    (hread : readUser (readStart mapStart offset) = some elements) {i : ℕ} (hi : i ≤ 127)
    (hnew : 127 ≤ i + offset / 256) :
    fillScratch scratch elements offset i = element (i + offset / 256 - 127) := by
  rw [readStart_eq hstart] at hread
  unfold fillScratch
  have hindex : offset / 256 - 127 + (i - (127 - offset / 256)) = i + offset / 256 - 127 := by omega
  rw [if_pos (by omega), hmap _ _ hread _ (by omega), hindex]

lemma fillScratch_old {i : ℕ} (hoffset : offset < 256) (hi : i < 127) :
    fillScratch scratch elements offset i = scratch i := by
  exact if_neg (by omega)

lemma LastStart.exists_bucket {start : ℕ} (h : LastStart element offset start) :
    ∃ bucket ≤ offset / 32, nibble element bucket ≠ 0 ∧ start = bucketStart element bucket := by
  obtain ⟨⟨bucket, hne, rfl⟩, hle⟩ := h.1
  have : 32 * bucket ≤ bucketStart element bucket := le_add_right _ _
  exact ⟨bucket, by omega, hne, rfl⟩

lemma bucketStart_div {bucket : ℕ} (h : nibble element bucket ≤ 8) :
    bucketStart element bucket / 256 = bucket / 8 := by
  unfold bucketStart
  omega

/-- The last bucket is right unless the start in the bucket of the address is behind it. -/
lemma findsLastStart_bucket_iff {bucket : ℕ} (hoffset : pcBase + offset < 2 ^ 64)
    (hformat : ∀ k ≤ offset / 32, nibble element k ≤ 8)
    (hread : readUser (readStart mapStart offset) ≠ none)
    (hwindow : offset / 256 ≤ bucket / 8 + 127) (hlast : LastBucket element (offset / 32) bucket) :
    FindsLastStart readUser element pcBase mapStart offset
        (.ok ((pcBase + bucketStart element bucket) % 2 ^ 64)) ↔
      (nibble element (offset / 32) ≠ 0 → bucketStart element (offset / 32) ≤ offset) := by
  constructor
  · intro h hne
    -- a start in the own bucket is the one that is returned
    have hown : bucket = offset / 32 := by
      by_contra hneq
      exact hne (hlast.behind _ (lt_of_le_of_ne hlast.le hneq) le_rfl)
    have hend : bucketStart element bucket < 2 ^ 64 := by
      have := hformat bucket hlast.le
      unfold bucketStart
      omega
    by_cases hex : ∃ start, LastStart element offset start ∧
        InWindow readUser mapStart offset start
    · obtain ⟨start, hstart, hin⟩ := hex
      have heq := Except.ok.inj (h.found start hstart hin)
      have hle : start ≤ offset := hstart.1.2
      rw [hown] at heq hend
      omega
    · obtain ⟨e, he⟩ := h.notFound hex
      cases he
  · intro hown
    have hstart := hlast.lastStart hformat hown
    have hle : bucketStart element bucket ≤ offset := hstart.1.2
    have hin : InWindow readUser mapStart offset (bucketStart element bucket) :=
      ⟨hread, by rw [bucketStart_div (hformat bucket hlast.le)]; exact hwindow⟩
    refine ⟨fun start h _ => ?_, fun hnone => absurd ⟨_, hstart, hin⟩ hnone⟩
    rw [h.unique hstart, mod_eq_of_lt (by omega)]

lemma findsLastStart_empty_iff {result : Except DotnetError ℕ}
    (hformat : ∀ k ≤ offset / 32, nibble element k ≤ 8)
    (hempty : ∀ k ≤ offset / 32, offset / 256 ≤ k / 8 + 127 → nibble element k = 0) :
    FindsLastStart readUser element pcBase mapStart offset result ↔ ∃ e, result = .error e := by
  have hnone : ¬∃ start, LastStart element offset start ∧
      InWindow readUser mapStart offset start := by
    rintro ⟨start, hstart, hin⟩
    obtain ⟨bucket, hle, hne, rfl⟩ := hstart.exists_bucket
    have hwindow := hin.2
    rw [bucketStart_div (hformat bucket hle)] at hwindow
    exact hne (hempty bucket hle hwindow)
  exact ⟨fun h => h.notFound hnone, fun h => ⟨fun start hs hi => absurd ⟨start, hs, hi⟩ hnone,
    fun _ => h⟩⟩

/-- The search finds the last start just when the read fails, or the start in the bucket of the
address is not behind it and, in the first element, there is a start or no old contents. -/
theorem findCodeStart_iff (hbase : pcBase ≤ pc) (hpc : pc < 2 ^ 64) (hstart : mapStart < 2 ^ 64)
    (hmap : MapAt readUser mapStart element)
    (hformat : ∀ k ≤ (pc - pcBase) / 32, nibble element k ≤ 8) :
    FindsLastStart readUser element pcBase mapStart (pc - pcBase)
        (findCodeStart readUser scratch pcBase mapStart pc) ↔
      readUser (readStart mapStart (pc - pcBase)) = none ∨
        (nibble element ((pc - pcBase) / 32) ≠ 0 →
          bucketStart element ((pc - pcBase) / 32) ≤ pc - pcBase) ∧
        (pc - pcBase < 256 →
          (∃ start, IsStart element start ∧ start ≤ pc - pcBase) ∨ ∀ i < 127, scratch i = 0) := by
  unfold findCodeStart
  rw [subWord_of_le hbase hpc]
  have hd : pcBase + (pc - pcBase) < 2 ^ 64 := by omega
  generalize pc - pcBase = d at hd hformat ⊢
  have h256 : d / 4 * 4 / 256 = d / 256 := by omega
  have halign : readStart mapStart (d / 4 * 4) = readStart mapStart d := by
    rw [readStart_eq hstart, readStart_eq hstart, h256]
  dsimp only
  rw [halign]
  cases hread : readUser (readStart mapStart d) with
  | none =>
    refine iff_of_true ⟨fun start _ hin => absurd hread hin.1, fun _ => ⟨_, rfl⟩⟩ (.inl rfl)
  | some elements =>
    have hread' : readUser (readStart mapStart d) ≠ none := by
      rw [hread]
      exact Option.some_ne_none _
    rw [← halign] at hread
    have hnew (i : ℕ) (hi : i ≤ 127) :=
      @fillScratch_new element readUser scratch elements mapStart (d / 4 * 4) hmap hstart hread i hi
    have h32 : d / 4 * 4 / 32 = d / 32 := by omega
    dsimp only
    by_cases hfirst : 256 ≤ d / 4 * 4 ∨
        (element (d / 4 * 4 / 256)).toNat >>> (28 - d / 4 * 4 / 32 % 8 * 4) ≠ 0
    · rcases @searchMap_eq element _ pcBase _ (by omega) hnew hfirst with
        ⟨bucket, hwin, hlast, heq⟩ | ⟨hempty, herr⟩
      · rw [h256] at hwin
        rw [h32] at hlast
        rw [heq, findsLastStart_bucket_iff (by omega) hformat hread' hwin hlast]
        constructor
        · intro hown
          have hlastStart := hlast.lastStart hformat hown
          exact .inr ⟨hown, fun _ => .inl ⟨_, hlastStart.1⟩⟩
        · rintro (hnone | ⟨hown, -⟩)
          · cases hnone
          · exact hown
      · rw [h32, h256] at hempty
        refine iff_of_true ((findsLastStart_empty_iff hformat hempty).2 herr) (.inr ⟨?_, ?_⟩)
        · intro hne
          exact absurd (hempty _ (Nat.le_refl _) (by omega)) hne
        · intro hlow
          have hval := hfirst.resolve_left (by omega)
          obtain ⟨bucket, -, hlast, -⟩ := decodeStart_element (by omega) hval (by omega)
          exact absurd (hempty bucket (by have := hlast.le; omega) (by omega)) hlast.start
    · -- nothing in the first element up to the address
      obtain ⟨hlow, hval⟩ := not_or.1 hfirst
      rw [not_not] at hval
      have hempty (k : ℕ) (hk : k ≤ d / 32) : nibble element k = 0 := by
        exact nibble_eq_zero (by omega) hval (by omega) (by omega)
      have hown := hnew 127 (Nat.le_refl 127) (le_add_right _ _)
      rw [Nat.add_sub_cancel_left] at hown
      rw [← hown] at hval
      rw [findsLastStart_empty_iff hformat fun k hk _ => hempty k hk,
        searchMap_first (by omega) hval]
      have hold : (∀ i < 127, fillScratch scratch elements (d / 4 * 4) i = 0) ↔
          ∀ i < 127, scratch i = 0 := by
        refine forall₂_congr fun i hi => ?_
        rw [fillScratch_old (by omega) hi]
      rw [hold]
      constructor
      · intro hscratch
        exact .inr ⟨fun hne => absurd (hempty _ (Nat.le_refl _)) hne, fun _ => .inr hscratch⟩
      · rintro (hnone | ⟨-, hcond⟩)
        · cases hnone
        · rcases hcond (by omega) with ⟨start, ⟨bucket, hne, rfl⟩, hle⟩ | hscratch
          · have : 32 * bucket ≤ bucketStart element bucket := le_add_right _ _
            exact absurd (hempty bucket (by omega)) hne
          · exact hscratch

end Result

/-- A process whose words are all readable. -/
def userMemory (memory : ℕ → BitVec 32) (address : ℕ) : Option (ℕ → BitVec 32) :=
  some fun i => memory ((address + 4 * i) % 2 ^ 64)

lemma mapAt_userMemory (memory : ℕ → BitVec 32) (mapStart : ℕ) :
    MapAt (userMemory memory) mapStart fun k => memory ((mapStart + 4 * k) % 2 ^ 64) := by
  intro k elements h i _
  rw [← Option.some.inj h]
  dsimp only
  rw [show ((mapStart + 4 * k) % 2 ^ 64 + 4 * i) % 2 ^ 64 = (mapStart + 4 * (k + i)) % 2 ^ 64 by
    omega]

/-- A map at 0x2000 with one element that is not zero. -/
def oneElement (value : BitVec 32) (address : ℕ) : BitVec 32 :=
  if address = 0x2000 then value else 0

/-- Methods at 0x1000 and 0x1028; the second is found at its start. -/
theorem findCodeStart_own_start :
    FindsLastStart (userMemory (oneElement 0x13000000))
        (fun k => oneElement 0x13000000 ((0x2000 + 4 * k) % 2 ^ 64)) 0x1000 0x2000
        (0x1028 - 0x1000)
        (findCodeStart (userMemory (oneElement 0x13000000)) (fun _ => 0) 0x1000 0x2000 0x1028) :=
  (findCodeStart_iff (by decide) (by decide) (by decide) (mapAt_userMemory _ _)
    (by decide)).2 (.inr ⟨by decide, fun _ => .inr fun _ _ => rfl⟩)

/-- For 0x1028, in the method at 0x1000, the start of the next one is returned; in an empty map with
old buffer contents, an address in front of the code. -/
theorem findCodeStart_behind_pc :
    ¬FindsLastStart (userMemory (oneElement 0x15000000))
        (fun k => oneElement 0x15000000 ((0x2000 + 4 * k) % 2 ^ 64)) 0x1000 0x2000
        (0x1028 - 0x1000)
        (findCodeStart (userMemory (oneElement 0x15000000)) (fun _ => 0) 0x1000 0x2000 0x1028) ∧
      findCodeStart (userMemory (oneElement 0x15000000)) (fun _ => 0) 0x1000 0x2000 0x1028 =
        .ok 0x1030 ∧
      findCodeStart (userMemory (oneElement 0)) (fun _ => 1) 0x1000 0x2000 0x1028 = .ok 0xfe0 := by
  have hresult :
    findCodeStart (userMemory (oneElement 0x15000000)) (fun _ => 0) 0x1000 0x2000 0x1028
      = .ok 0x1030 := by decide +kernel
  refine ⟨fun h => ?_, hresult, by decide +kernel⟩
  rw [hresult] at h
  by_cases hex : ∃ start, LastStart (fun k => oneElement 0x15000000 ((0x2000 + 4 * k) % 2 ^ 64))
      (0x1028 - 0x1000) start ∧
      InWindow (userMemory (oneElement 0x15000000)) 0x2000 (0x1028 - 0x1000) start
  · obtain ⟨start, hstart, hin⟩ := hex
    have heq := Except.ok.inj (h.found start hstart hin)
    have hle : start ≤ 0x1028 - 0x1000 := hstart.1.2
    omega
  · obtain ⟨e, he⟩ := h.notFound hex
    cases he

end EbpfProfiler.Interpreter
