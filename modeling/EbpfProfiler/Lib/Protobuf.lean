import EbpfProfiler.Lib.Varint
import Mathlib.Data.Option.Basic

/-!
# The wire format of protocol buffers

Fields are read back from their bytes (`parseFields_encode`).
-/

namespace EbpfProfiler.Lib.Protobuf

open Option Varint
open List

/-! ## Numbers -/

/-- A number, with as many digits as it needs. -/
def encodeVarint (n : ℕ) : List Byte := encode 7 n n

/-- The number at the start of some bytes, and what follows. -/
def getVarint : List Byte → Option (ℕ × List Byte)
  | [] => none
  | b :: rest =>
    if b.toNat < 128 then some (b.toNat, rest)
    else (getVarint rest).map fun res => (b.toNat - 128 + 128 * res.1, res.2)

lemma getVarint_encode {more n : ℕ} (hn : n < 2 ^ (7 * (more + 1))) (rest : List Byte) :
    getVarint (encode 7 more n ++ rest) = some (n, rest) := by
  have hlast : ∀ k < 128, getVarint ([BitVec.ofNat 8 k] ++ rest) = some (k, rest) := by
    intro k hk
    have htoNat : (BitVec.ofNat 8 k).toNat = k := by
      rw [BitVec.toNat_ofNat]
      omega
    rw [singleton_append, getVarint, htoNat, if_pos hk]
  induction more generalizing n with
  | zero => exact hlast n hn
  | succ more ih =>
    by_cases hsmall : n < 2 ^ 7
    · rw [encode_of_lt _ hsmall]
      exact hlast n hsmall
    · have htoNat : (BitVec.ofNat 8 (2 ^ 7 + n % 2 ^ 7)).toNat = 128 + n % 128 := by
        rw [BitVec.toNat_ofNat]
        omega
      rw [encode, if_neg hsmall, cons_append, getVarint, htoNat, if_neg (by omega),
        ih (div_lt_of_lt hn), map_some]
      have hvalue : 128 + n % 128 - 128 + 128 * (n / 2 ^ 7) = n := by omega
      rw [hvalue]

lemma getVarint_encodeVarint (n : ℕ) (rest : List Byte) :
    getVarint (encodeVarint n ++ rest) = some (n, rest) := by
  apply getVarint_encode
  calc n < 2 ^ n := n.lt_two_pow_self
    _ ≤ 2 ^ (7 * (n + 1)) := Nat.pow_le_pow_right (by decide) (by omega)

lemma encodeVarint_length_pos (n : ℕ) : 0 < (encodeVarint n).length := by
  cases n with
  | zero => exact Nat.one_pos
  | succ n =>
    rw [encodeVarint, encode]
    split <;> simp

/-! ## Sequences -/

section
variable {α : Type} {get : List Byte → Option (α × List Byte)} {enc : α → List Byte}

/-- What stands in some bytes one after the other, at most `fuel` values. -/
def parseMany (get : List Byte → Option (α × List Byte)) : ℕ → List Byte → Option (List α)
  | _, [] => some []
  | 0, _ => none
  | fuel + 1, bytes => (get bytes).bind fun res => (parseMany get fuel res.2).map (res.1 :: ·)

lemma parseMany_flatMap (hget : ∀ a rest, get (enc a ++ rest) = some (a, rest))
    (hpos : ∀ a, 0 < (enc a).length) (l : List α) {fuel : ℕ} (hfuel : l.length ≤ fuel) :
    parseMany get fuel (l.flatMap enc) = some l := by
  induction l generalizing fuel with
  | nil => cases fuel <;> rfl
  | cons a l ih =>
    cases fuel with
    | zero => cases hfuel
    | succ fuel =>
      have ha := hpos a
      rw [flatMap_cons]
      cases hbytes : enc a ++ l.flatMap enc with
      | nil =>
        have hlen := congrArg length hbytes
        rw [length_append, length_nil] at hlen
        omega
      | cons b rest =>
        rw [parseMany, ← hbytes, hget, bind_some, ih (Nat.le_of_succ_le_succ hfuel), map_some]
        simp

lemma length_le_flatMap (hpos : ∀ a, 0 < (enc a).length) (l : List α) :
    l.length ≤ (l.flatMap enc).length := by
  induction l with
  | nil => exact le_rfl
  | cons a l ih =>
    have ha := hpos a
    rw [flatMap_cons, length_append, length_cons]
    omega

end

/-- The numbers of a packed field. -/
def parseVarints (bytes : List Byte) : Option (List ℕ) := parseMany getVarint bytes.length bytes

lemma parseVarints_encode (ns : List ℕ) : parseVarints (ns.flatMap encodeVarint) = some ns :=
  parseMany_flatMap getVarint_encodeVarint encodeVarint_length_pos ns
    (length_le_flatMap encodeVarint_length_pos ns)

/-! ## Fields -/

/-- The value of a field. -/
inductive Value where
  | varint (n : ℕ)
  | bytes (bs : List Byte)

/-- A field of a message. -/
structure Field where
  num : ℕ
  value : Value

def Field.encode : Field → List Byte
  | ⟨num, .varint n⟩ => encodeVarint (num * 8) ++ encodeVarint n
  | ⟨num, .bytes bs⟩ => encodeVarint (num * 8 + 2) ++ (encodeVarint bs.length ++ bs)

def getField (bytes : List Byte) : Option (Field × List Byte) :=
  (getVarint bytes).bind fun tag =>
    (getVarint tag.2).bind fun value =>
      if tag.1 % 8 = 0 then some (⟨tag.1 / 8, .varint value.1⟩, value.2)
      else if tag.1 % 8 = 2 ∧ value.1 ≤ value.2.length then
        some (⟨tag.1 / 8, .bytes (value.2.take value.1)⟩, value.2.drop value.1)
      else none

lemma getField_encode (f : Field) (rest : List Byte) :
    getField (f.encode ++ rest) = some (f, rest) := by
  obtain ⟨num, value⟩ := f
  cases value with
  | varint n =>
    rw [Field.encode, append_assoc, getField, getVarint_encodeVarint, bind_some,
      getVarint_encodeVarint]
    simp
  | bytes bs =>
    have hdiv : (num * 8 + 2) / 8 = num := by omega
    rw [Field.encode, append_assoc, append_assoc, getField, getVarint_encodeVarint, bind_some,
      getVarint_encodeVarint]
    simp [hdiv]

lemma Field.encode_length_pos (f : Field) : 0 < f.encode.length := by
  obtain ⟨num, value⟩ := f
  cases value with
  | varint n =>
    have hpos := encodeVarint_length_pos n
    rw [Field.encode, length_append]
    omega
  | bytes bs =>
    have hpos := encodeVarint_length_pos bs.length
    rw [Field.encode, length_append, length_append]
    omega

def parseFields (bytes : List Byte) : Option (List Field) := parseMany getField bytes.length bytes

lemma parseFields_encode (fs : List Field) : parseFields (fs.flatMap Field.encode) = some fs :=
  parseMany_flatMap getField_encode Field.encode_length_pos fs
    (length_le_flatMap Field.encode_length_pos fs)

end EbpfProfiler.Lib.Protobuf
