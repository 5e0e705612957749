import Mathlib.Algebra.Ring.Nat
import Mathlib.Data.BitVec
import Mathlib.Data.List.Basic
import Mathlib.Data.List.Range

/-!
# Bytes, little-endian numbers and memory

Slices are taken as in Go; a memory gives a byte for every offset.
-/

namespace EbpfProfiler.Lib

open List Nat

abbrev Byte := BitVec 8

/-! ## Little-endian numbers -/

/-- The lowest `k` bytes of a number. -/
def leBytes : ℕ → ℕ → List Byte
  | 0, _ => []
  | k + 1, x => BitVec.ofNat 8 x :: leBytes k (x / 256)

/-- The number that bytes stand for. -/
def leNat : List Byte → ℕ
  | [] => 0
  | b :: bs => b.toNat + 256 * leNat bs

@[simp] lemma length_leBytes (k x : ℕ) : (leBytes k x).length = k := by
  induction k generalizing x with
  | zero => rfl
  | succ k ih => rw [leBytes, length_cons, ih]

lemma length_flatMap_leBytes (k : ℕ) (xs : List ℕ) :
    (xs.flatMap (leBytes k)).length = k * xs.length := by
  induction xs with
  | nil => rfl
  | cons x xs ih =>
    rw [flatMap_cons, length_append, ih, length_leBytes, length_cons, mul_succ, add_comm]

lemma leNat_leBytes (k x : ℕ) : leNat (leBytes k x) = x % 256 ^ k := by
  induction k generalizing x with
  | zero => rw [pow_zero, mod_one]; rfl
  | succ k ih =>
    have hsplit : x % 256 ^ (k + 1) = x % 256 + 256 * (x / 256 % 256 ^ k) := by
      rw [pow_succ', mod_mul]
    rw [leBytes, leNat, ih, BitVec.toNat_ofNat, hsplit]

lemma leNat_lt (bs : List Byte) : leNat bs < 256 ^ bs.length := by
  induction bs with
  | nil => exact one_pos
  | cons b bs ih =>
    rw [leNat, length_cons]
    omega

/-! ## Slices -/

/-- The slice `bs[lo:hi]`. -/
def slice (bs : List Byte) (lo hi : ℕ) : List Byte := (bs.drop lo).take (hi - lo)

lemma slice_append_left {a : List Byte} (b : List Byte) (lo : ℕ) {hi : ℕ} (h : hi ≤ a.length) :
    slice (a ++ b) lo hi = slice a lo hi := by
  by_cases hlo : lo ≤ a.length
  · rw [slice, slice, drop_append_of_le_length hlo,
      take_append_of_le_length (by rw [length_drop]; omega)]
  · rw [slice, slice, show hi - lo = 0 by omega, take_zero, take_zero]

lemma slice_append_right (a b : List Byte) (lo hi : ℕ) :
    slice (a ++ b) (a.length + lo) (a.length + hi) = slice b lo hi := by
  rw [slice, slice, Nat.add_sub_add_left, ← drop_drop, drop_left]

lemma slice_length (bs : List Byte) : slice bs 0 bs.length = bs := by
  rw [slice, drop_zero, Nat.sub_zero, take_length]

lemma slice_middle (a b c : List Byte) :
    slice (a ++ (b ++ c)) a.length (a.length + b.length) = b := by
  have h := slice_append_right a (b ++ c) 0 b.length
  rw [slice_append_left c 0 le_rfl, slice_length] at h
  exact h

lemma slice_numbers (a : List Byte) (k : ℕ) (xs : List ℕ) (b : List Byte) {i : ℕ}
    (hi : i < xs.length) :
    slice (a ++ (xs.flatMap (leBytes k) ++ b)) (a.length + k * i) (a.length + k * i + k) =
      leBytes k xs[i] := by
  have hlen : ((xs.take i).flatMap (leBytes k)).length = k * i := by
    rw [length_flatMap_leBytes, length_take, min_eq_left (le_of_lt hi)]
  have hsplit : xs.flatMap (leBytes k) = (xs.take i).flatMap (leBytes k) ++
      (leBytes k xs[i] ++ (xs.drop (i + 1)).flatMap (leBytes k)) := by
    rw [← flatMap_cons, ← drop_eq_getElem_cons hi, ← flatMap_append, take_append_drop]
  have hmiddle := slice_middle (a ++ (xs.take i).flatMap (leBytes k)) (leBytes k xs[i])
    ((xs.drop (i + 1)).flatMap (leBytes k) ++ b)
  rw [length_append, hlen, length_leBytes] at hmiddle
  rw [hsplit, append_assoc, append_assoc, ← append_assoc a]
  exact hmiddle

/-! ## Words -/

/-- A `u64` in memory. -/
def wordBytes (w : BitVec 64) : List Byte := leBytes 8 w.toNat

def readWords : ℕ → List Byte → List (BitVec 64)
  | 0, _ => []
  | n + 1, bs => BitVec.ofNat 64 (leNat (bs.take 8)) :: readWords n (bs.drop 8)

lemma length_wordBytes (w : BitVec 64) : (wordBytes w).length = 8 := length_leBytes 8 w.toNat

lemma length_flatMap_wordBytes (ws : List (BitVec 64)) :
    (ws.flatMap wordBytes).length = 8 * ws.length := by
  have h := length_flatMap_leBytes 8 (ws.map BitVec.toNat)
  rwa [flatMap_map, length_map] at h

lemma readWords_flatMap (ws : List (BitVec 64)) : readWords ws.length
    (ws.flatMap wordBytes) = ws := by
  induction ws with
  | nil => rfl
  | cons w ws ih =>
    have hword : BitVec.ofNat 64 (leNat (wordBytes w)) = w := by
      rw [wordBytes, leNat_leBytes, mod_eq_of_lt (show w.toNat < 256 ^ 8 from w.isLt),
        BitVec.ofNat_toNat, BitVec.setWidth_eq]
    rw [length_cons, readWords, flatMap_cons, take_left' (length_wordBytes w),
      drop_left' (length_wordBytes w), ih, hword]

/-! ## Memory -/

abbrev Memory := ℕ → Byte

namespace Memory

def write (mem : Memory) (pos : ℕ) (bs : List Byte) : Memory := fun i =>
  if pos ≤ i then (bs[i - pos]?).getD (mem i) else mem i

def read (mem : Memory) (pos n : ℕ) : List Byte := (List.range n).map fun i => mem (pos + i)

section
variable (mem : Memory)
include mem

@[simp] lemma length_read (pos n : ℕ) : (mem.read pos n).length = n := by
  rw [read, length_map, length_range]

lemma read_add (pos m n : ℕ) : mem.read pos (m + n) = mem.read pos m ++ mem.read (pos + m) n := by
  simp only [read, range_add, map_append, map_map]
  congr 1
  apply map_congr_left
  intro i _
  rw [Function.comp_apply, add_assoc]

lemma write_of_lt {pos i : ℕ} (bs : List Byte) (h : i < pos) :
    mem.write pos bs i = mem i := if_neg (Nat.not_le_of_lt h)

lemma read_write (pos : ℕ) (bs : List Byte) : (mem.write pos bs).read pos bs.length = bs := by
  apply ext_getElem
  · rw [length_read]
  · intro i hi hbs
    have hsome : bs[pos + i - pos]? = some bs[i] := by
      rw [Nat.add_sub_cancel_left]
      exact getElem?_eq_getElem hbs
    simp only [read, getElem_map, getElem_range]
    rw [write, if_pos (le_add_right pos i), hsome]
    rfl

lemma write_isPrefix_read (pos : ℕ) {n : ℕ} {bs : List Byte} (h : bs.length ≤ n) :
    bs <+: (mem.write pos bs).read pos n := by
  have hsplit := read_add (mem.write pos bs) pos bs.length (n - bs.length)
  rw [Nat.add_sub_cancel' h, read_write] at hsplit
  exact ⟨_, hsplit.symm⟩

lemma read_write_of_le {pos off n : ℕ} (bs : List Byte) (h : off + n ≤ pos) :
    (mem.write pos bs).read off n = mem.read off n := by
  apply map_congr_left
  intro i hi
  exact write_of_lt mem bs (by have := mem_range.mp hi; omega)

end

end Memory

end EbpfProfiler.Lib
