import Mathlib.Algebra.Ring.Nat
import Mathlib.Data.Nat.Basic

/-!
# Machine words as natural numbers

Sums that can wrap are written with the modulus, differences with `subWord`.
-/

namespace EbpfProfiler.Lib

/-- Subtraction of two `w`-bit words. -/
def subWord (w a b : ℕ) : ℕ := (a + (2 ^ w - b % 2 ^ w)) % 2 ^ w

lemma subWord_of_le {w a b : ℕ} (h : b ≤ a) (ha : a < 2 ^ w) : subWord w a b = a - b := by
  have hb : b % 2 ^ w = b := Nat.mod_eq_of_lt (lt_of_le_of_lt h ha)
  have hsum : a + (2 ^ w - b) = (a - b) + 2 ^ w := by omega
  rw [subWord, hb, hsum, Nat.add_mod_right, Nat.mod_eq_of_lt (by omega)]

lemma slt_zero_iff (w : BitVec 64) : w.slt 0 = true ↔ 2 ^ 63 ≤ w.toNat := by
  show w.slt 0#64 = true ↔ _
  rw [BitVec.slt_zero_iff_msb_cond, BitVec.msb_eq_decide, decide_eq_true_eq]

/-- `%x` of a number. -/
def hex (n : ℕ) : String := String.ofList (Nat.toDigits 16 n)

end EbpfProfiler.Lib
