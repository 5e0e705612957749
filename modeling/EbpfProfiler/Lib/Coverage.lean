import EbpfProfiler.Lib.Bytes

/-!
# Coverage bitmaps

A bitmap marks numbers; an interval is rounded to the buckets that it touches.
-/

namespace EbpfProfiler.Lib.Bitmap

/-! ## Bits -/

def get (bits : List Byte) (i : ℕ) : Option Bool :=
  bits[i / 8]?.map fun b => b &&& (1#8 <<< (i % 8)) != 0#8

def set (bits : List Byte) (i : ℕ) : Option (List Byte) :=
  bits[i / 8]?.map fun b => bits.set (i / 8) (b ||| (1#8 <<< (i % 8)))

def Marked (bits : List Byte) (i : ℕ) : Prop := get bits i = some true

lemma and_one_shiftLeft (b : Byte) (k : Fin 8) :
    (b &&& (1#8 <<< k.val) != 0#8) = b.getLsbD k.val := by
  revert b k
  decide +kernel

lemma getLsbD_or_one_shiftLeft (b : Byte) {j k : ℕ} (hk : k < 8) :
    (b ||| (1#8 <<< k)).getLsbD j = (b.getLsbD j || decide (j = k)) := by
  rw [← BitVec.twoPow_eq]
  by_cases hjk : j = k
  · subst hjk
    simp [hk]
  · simp [hjk, Ne.symm hjk]

lemma get_eq (bits : List Byte) (i : ℕ) :
    get bits i = bits[i / 8]?.map fun b => b.getLsbD (i % 8) := by
  have hbit : ∀ b : Byte, (b &&& (1#8 <<< (i % 8)) != 0#8) = b.getLsbD (i % 8) := by
    intro b
    exact and_one_shiftLeft b ⟨i % 8, Nat.mod_lt _ (by decide)⟩
  simp only [get, hbit]

variable {bits : List Byte} {i n w : ℕ}

lemma set_spec (hi : i < 8 * bits.length) :
    ∃ bits', set bits i = some bits' ∧ bits'.length = bits.length ∧
      ∀ j, Marked bits' j ↔ j = i ∨ Marked bits j := by
  have hbyte : i / 8 < bits.length := by omega
  refine ⟨_, by rw [set, List.getElem?_eq_getElem hbyte]; rfl, List.length_set, fun j => ?_⟩
  rw [Marked, Marked, get_eq, get_eq, List.getElem?_set]
  by_cases hsame : i / 8 = j / 8
  · rw [if_pos hsame, if_pos hbyte, ← hsame, List.getElem?_eq_getElem hbyte, Option.map_some,
      getLsbD_or_one_shiftLeft _ (Nat.mod_lt _ (by decide))]
    have hiff : j % 8 = i % 8 ↔ j = i := by omega
    simp [hiff, or_comm]
  · rw [if_neg hsame]
    have hne : j ≠ i := by
      rintro rfl
      exact hsame rfl
    simp [hne]

lemma not_marked_replicate (n i : ℕ) : ¬ Marked (List.replicate n 0#8) i := by
  rw [Marked, get_eq, List.getElem?_replicate]
  split <;> simp

/-! ## Ranges of bits -/

/-- The loop that sets `n` bits from `i` on. -/
def setFrom (bits : List Byte) (i : ℕ) : ℕ → Option (List Byte)
  | 0 => some bits
  | n + 1 => (set bits i).bind fun bits => setFrom bits (i + 1) n

/-- The loop that looks for a set bit among `n` from `i` on. -/
def anyFrom (bits : List Byte) (i : ℕ) : ℕ → Option Bool
  | 0 => some false
  | n + 1 => (get bits i).bind fun b => if b then some true else anyFrom bits (i + 1) n

lemma setFrom_spec (h : i + n ≤ 8 * bits.length) :
    ∃ bits', setFrom bits i n = some bits' ∧ bits'.length = bits.length ∧
      ∀ j, Marked bits' j ↔ (i ≤ j ∧ j < i + n) ∨ Marked bits j := by
  induction n generalizing bits i with
  | zero =>
    refine ⟨bits, rfl, rfl, fun j => ?_⟩
    simp
  | succ n ih =>
    obtain ⟨bits₁, hset, hlen₁, hmarked₁⟩ := set_spec (show i < 8 * bits.length by omega)
    obtain ⟨bits₂, hrest, hlen₂, hmarked₂⟩ := ih (show i + 1 + n ≤ 8 * bits₁.length by omega)
    refine ⟨bits₂, ?_, hlen₂.trans hlen₁, fun j => ?_⟩
    · rw [setFrom, hset, Option.bind_some, hrest]
    · have hiff : (i + 1 ≤ j ∧ j < i + 1 + n) ∨ j = i ↔ i ≤ j ∧ j < i + (n + 1) := by omega
      rw [hmarked₂, hmarked₁, ← or_assoc, hiff]

lemma anyFrom_spec (h : i + n ≤ 8 * bits.length) : ∃ found, anyFrom bits i n = some found ∧
      (found = true ↔ ∃ j, Marked bits j ∧ i ≤ j ∧ j < i + n) := by
  induction n generalizing i with
  | zero =>
    refine ⟨false, rfl, ?_⟩
    simp only [Bool.false_eq_true, false_iff, not_exists, not_and]
    omega
  | succ n ih =>
    have hbyte : i / 8 < bits.length := by omega
    obtain ⟨b, hb⟩ : ∃ b, get bits i = some b := by
      rw [get, List.getElem?_eq_getElem hbyte]
      exact ⟨_, rfl⟩
    cases b with
    | true =>
      refine ⟨true, by rw [anyFrom, hb, Option.bind_some, if_pos rfl], ?_⟩
      simp only [true_iff]
      exact ⟨i, hb, le_rfl, by omega⟩
    | false =>
      obtain ⟨found, hfound, hiff⟩ := ih (show i + 1 + n ≤ 8 * bits.length by omega)
      refine ⟨found, by rw [anyFrom, hb, Option.bind_some, if_neg (by decide), hfound],
        hiff.trans ?_⟩
      -- bit `i` itself is not set
      constructor
      · rintro ⟨j, hj, hlow, hhigh⟩
        exact ⟨j, hj, by omega, by omega⟩
      · rintro ⟨j, hj, hlow, hhigh⟩
        have hne : j ≠ i := by
          rintro rfl
          rw [Marked, hb] at hj
          cases hj
        exact ⟨j, hj, by omega, by omega⟩

/-! ## Buckets -/

def divCeil (n w : ℕ) : ℕ := (n + w - 1) / w

lemma le_divCeil_mul (n : ℕ) (hw : 0 < w) : n ≤ divCeil n w * w := by
  have hmod := Nat.mod_lt (n + w - 1) hw
  have hdiv := Nat.div_add_mod (n + w - 1) w
  rw [divCeil, mul_comm]
  omega

lemma lt_divCeil_iff {b : ℕ} (hw : 0 < w) : b < divCeil n w ↔ b * w < n := by
  rw [divCeil, ← Nat.succ_le_iff, Nat.le_div_iff_mul_le hw, Nat.succ_mul]
  omega

/-- The buckets of width `w` from the first to the last one that `[lo, hi)` touches. -/
lemma mem_buckets_iff {lo hi b : ℕ} (hw : 0 < w) (h : lo < hi) :
    (lo / w ≤ b ∧ b < divCeil hi w) ↔ ∃ x, lo ≤ x ∧ x < hi ∧ x / w = b := by
  rw [lt_divCeil_iff hw]
  constructor
  · rintro ⟨hlow, hhigh⟩
    rcases le_total lo (b * w) with hle | hle
    · exact ⟨b * w, hle, hhigh, Nat.mul_div_cancel b hw⟩
    · have hge : b ≤ lo / w := (Nat.le_div_iff_mul_le hw).mpr hle
      exact ⟨lo, le_rfl, h, le_antisymm hlow hge⟩
  · rintro ⟨x, hlow, hhigh, rfl⟩
    exact ⟨Nat.div_le_div_right hlow, lt_of_le_of_lt (Nat.div_mul_le_self x w) hhigh⟩

end EbpfProfiler.Lib.Bitmap
