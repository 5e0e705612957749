import EbpfProfiler.Lib.Bytes
import Mathlib.Tactic.Ring

/-!
# Numbers of variable length

Digits of `w` bits, the lowest first; each byte but the last has the bit above its digit set.
-/

namespace EbpfProfiler.Lib.Varint

/-- The bytes of a number that has at most `more + 1` digits. -/
def encode (w : ℕ) : ℕ → ℕ → List Byte
  | 0, n => [BitVec.ofNat 8 n]
  | more + 1, n =>
    if n < 2 ^ w then [BitVec.ofNat 8 n]
    else BitVec.ofNat 8 (2 ^ w + n % 2 ^ w) :: encode w more (n / 2 ^ w)

lemma encode_of_lt {w n : ℕ} (more : ℕ) (h : n < 2 ^ w) : encode w more n = [BitVec.ofNat 8 n] := by
  cases more with
  | zero => rfl
  | succ more => rw [encode, if_pos h]

lemma div_lt_of_lt {w more n : ℕ} (h : n < 2 ^ (w * (more + 2))) :
    n / 2 ^ w < 2 ^ (w * (more + 1)) := by
  rw [Nat.div_lt_iff_lt_mul (Nat.two_pow_pos w), ← Nat.pow_add]
  rwa [show w * (more + 1) + w = w * (more + 2) by ring]

/-- A digit is put in front of the digits that a word has. -/
lemma ofNat_or_shiftLeft (width : ℕ) {acc shift : ℕ} (h : acc < 2 ^ shift) (digit : ℕ) :
    BitVec.ofNat width acc ||| BitVec.ofNat width digit <<< shift =
      BitVec.ofNat width (acc + digit * 2 ^ shift) := by
  have hor : acc + digit * 2 ^ shift = acc ||| digit <<< shift := by
    rw [Nat.shiftLeft_eq, add_comm, mul_comm, Nat.two_pow_add_eq_or_of_lt h, Nat.or_comm]
  rw [hor, BitVec.ofNat_or]
  congr 1
  apply BitVec.eq_of_toNat_eq
  rw [BitVec.toNat_shiftLeft, BitVec.toNat_ofNat, BitVec.toNat_ofNat, Nat.shiftLeft_eq,
    Nat.shiftLeft_eq, Nat.mod_mul_mod]

lemma digits_add (w n acc shift : ℕ) :
    acc + n % 2 ^ w * 2 ^ shift + n / 2 ^ w * 2 ^ (shift + w) = acc + n * 2 ^ shift := by
  calc acc + n % 2 ^ w * 2 ^ shift + n / 2 ^ w * 2 ^ (shift + w)
      = acc + (n % 2 ^ w + 2 ^ w * (n / 2 ^ w)) * 2 ^ shift := by ring
    _ = acc + n * 2 ^ shift := by rw [Nat.mod_add_div]

lemma digits_lt {w n acc shift : ℕ} (h : acc < 2 ^ shift) :
    acc + n % 2 ^ w * 2 ^ shift < 2 ^ (shift + w) := by
  have hdigit : n % 2 ^ w + 1 ≤ 2 ^ w := Nat.mod_lt n (Nat.two_pow_pos w)
  calc acc + n % 2 ^ w * 2 ^ shift
      < (n % 2 ^ w + 1) * 2 ^ shift := by rw [Nat.add_mul]; omega
    _ ≤ 2 ^ w * 2 ^ shift := Nat.mul_le_mul_right _ hdigit
    _ = 2 ^ (shift + w) := by rw [Nat.pow_add, mul_comm]

/-- A loop that shifts in one digit after the other reads back the encoded `total`. -/
lemma loop_encode {R : Type} {w width total more shift acc n : ℕ}
    {f : ℕ → ℕ → BitVec width → List Byte → R} {rest : List Byte} {result : R}
    (hlast : ∀ {more shift acc digit : ℕ}, digit < 2 ^ w → acc < 2 ^ shift →
      acc + digit * 2 ^ shift = total →
      f (more + 1) shift (BitVec.ofNat width acc) (BitVec.ofNat 8 digit :: rest) = result)
    (hmore : ∀ {more shift acc digit : ℕ} (r : List Byte), digit < 2 ^ w → acc < 2 ^ shift →
      f (more + 1) shift (BitVec.ofNat width acc) (BitVec.ofNat 8 (2 ^ w + digit) :: r) =
        f more (shift + w) (BitVec.ofNat width (acc + digit * 2 ^ shift)) r)
    (hn : n < 2 ^ (w * (more + 1))) (hacc : acc < 2 ^ shift)
    (htotal : acc + n * 2 ^ shift = total) :
    f (more + 1) shift (BitVec.ofNat width acc) (encode w more n ++ rest) = result := by
  induction more generalizing n acc shift with
  | zero => exact hlast (by simpa using hn) hacc htotal
  | succ more ih =>
    by_cases hsmall : n < 2 ^ w
    · rw [encode_of_lt _ hsmall]
      exact hlast hsmall hacc htotal
    · -- the first digit is put in place, and the others follow
      rw [encode, if_neg hsmall, List.cons_append, hmore _ (Nat.mod_lt _ (Nat.two_pow_pos w)) hacc]
      exact ih (div_lt_of_lt hn) (digits_lt hacc) ((digits_add ..).trans htotal)

end EbpfProfiler.Lib.Varint
