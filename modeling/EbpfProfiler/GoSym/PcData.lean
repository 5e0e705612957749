import EbpfProfiler.Lib.Iter
import EbpfProfiler.Lib.Varint

/-!
# Tables of values by program counter

`PcDataReader` (`symblib/src/gosym/raw/structs.rs`). A reader is the bytes that are left.
-/

namespace EbpfProfiler.GoSym

open Lib List

/-! ## Numbers -/

/-- Why a table cannot be read. -/
inductive ReadError
  | unexpectedEof
  | varIntTooLong

/-- The loop of `var_u32`, with the rounds that are left. -/
def varU32Loop : ℕ → ℕ → BitVec 32 → List Byte → Except ReadError (BitVec 32 × List Byte)
  | 0, _, _, _ => .error .varIntTooLong
  | _ + 1, _, _, [] => .error .unexpectedEof
  | n + 1, shift, v, b :: r =>
    let v := v ||| (b &&& 0x7f).setWidth 32 <<< shift
    if b &&& 0x80 = 0 then
      if shift = 4 * 7 ∧ b &&& 0x70 ≠ 0 then .error .varIntTooLong else .ok (v, r)
    else varU32Loop n (shift + 7) v r

def varU32 (r : List Byte) : Except ReadError (BitVec 32 × List Byte) := varU32Loop 5 0 0 r

/-- `var_i32` on what `var_u32` has read. The shift is that of a signed number. -/
def unzigzag (z : BitVec 32) : BitVec 32 := -(z &&& 1) ^^^ z.sshiftRight 1

def varI32 (r : List Byte) : Except ReadError (BitVec 32 × List Byte) := do
  let (z, r) ← varU32 r
  return (unzigzag z, r)

/-- The zig-zag number of a delta: even where it is not negative. -/
def zigzag (d : BitVec 32) : ℕ := (if 0 ≤ d.toInt then 2 * d.toInt else -2 * d.toInt - 1).toNat

def encodeVar (n : ℕ) : List Byte := Varint.encode 7 4 n

lemma lastDigit32 (n : Fin 128) : BitVec.ofNat 8 n.val &&& 0x80 = 0 ∧
    (n.val < 16 → BitVec.ofNat 8 n.val &&& 0x70 = 0) ∧
    (BitVec.ofNat 8 n.val &&& 0x7f).setWidth 32 = BitVec.ofNat 32 n.val := by
  revert n
  decide

lemma innerDigit32 (n : Fin 128) : BitVec.ofNat 8 (2 ^ 7 + n.val) &&& 0x80 ≠ 0 ∧
    (BitVec.ofNat 8 (2 ^ 7 + n.val) &&& 0x7f).setWidth 32 = BitVec.ofNat 32 n.val := by
  revert n
  decide

lemma varU32_encodeVar {n : ℕ} (hn : n < 2 ^ 32) (rest : List Byte) :
    varU32 (encodeVar n ++ rest) = .ok (BitVec.ofNat 32 n, rest) := by
  refine Varint.loop_encode (fun {_ shift acc digit} hdigit hacc htotal => ?_)
    (fun {_ shift acc digit} r hdigit hacc => ?_) (by omega) (Nat.two_pow_pos 0)
    (Nat.zero_add _)
  · obtain ⟨hend, hhigh, hmask⟩ := lastDigit32 ⟨digit, hdigit⟩
    have hfits : ¬ (shift = 4 * 7 ∧ BitVec.ofNat 8 digit &&& 0x70 ≠ 0) := by
      rintro ⟨rfl, hne⟩
      have hsmall : digit < 16 := by omega
      exact hne (hhigh hsmall)
    rw [varU32Loop, if_pos hend, if_neg hfits, hmask, Varint.ofNat_or_shiftLeft 32 hacc, htotal]
    simp
  · obtain ⟨hmore, hmask⟩ := innerDigit32 ⟨digit, hdigit⟩
    rw [varU32Loop, if_neg hmore, hmask, Varint.ofNat_or_shiftLeft 32 hacc]

lemma toInt_unzigzag (z : BitVec 32) :
    (unzigzag z).toInt = if z.toNat % 2 = 0 then z.toInt / 2 else -(z.toInt / 2) - 1 := by
  have hshift : (z.sshiftRight 1).toInt = z.toInt / 2 := by
    rw [BitVec.toInt_sshiftRight, Int.shiftRight_eq_div_pow]
    rfl
  have hlow : (z &&& 1).toNat = z.toNat % 2 := by
    rw [BitVec.toNat_and]
    exact Nat.and_one_is_mod _
  rw [unzigzag]
  split
  · rename_i heven
    rw [show z &&& 1 = 0#32 from BitVec.eq_of_toNat_eq (hlow.trans heven), BitVec.neg_zero,
      BitVec.zero_xor, hshift]
  · rename_i hodd
    rw [show z &&& 1 = 1 from BitVec.eq_of_toNat_eq (hlow.trans (Nat.mod_two_ne_zero.mp hodd)),
      show -(1 : BitVec 32) = BitVec.allOnes 32 from rfl, BitVec.allOnes_xor,
        BitVec.toInt_not, ← hshift,
      BitVec.toInt_eq_toNat_cond, Int.bmod_def]
    omega

/-- A delta as it is read: that of 31 bits. -/
def readDelta (d : BitVec 32) : BitVec 32 := unzigzag (BitVec.ofNat 32 (zigzag d))

lemma readDelta_eq_iff (d : BitVec 32) : readDelta d = d ↔
    -2 ^ 30 ≤ d.toInt ∧ d.toInt < 2 ^ 30 := by
  have hhigh := BitVec.toInt_lt (x := d)
  have hlow := BitVec.le_toInt d
  rw [readDelta, ← BitVec.toInt_inj, toInt_unzigzag, BitVec.toInt_eq_toNat_cond (BitVec.ofNat ..),
    BitVec.toNat_ofNat, zigzag]
  omega

lemma varI32_encodeVar (d : BitVec 32) (rest : List Byte) :
    varI32 (encodeVar (zigzag d) ++ rest) = .ok (readDelta d, rest) := by
  have hhigh := BitVec.toInt_lt (x := d)
  have hlow := BitVec.le_toInt d
  have hlt : zigzag d < 2 ^ 32 := by
    unfold zigzag
    omega
  rw [varI32, varU32_encodeVar hlt]
  rfl

/-! ## Tables -/

/-- An item: a range of offsets with its value. -/
structure PcRange where
  start : BitVec 64
  stop : BitVec 64
  value : BitVec 32

/-- The iterator over a table. -/
structure PcDataReader where
  reader : Option (List Byte)
  quantum : BitVec 64
  pcOffset : BitVec 64
  value : BitVec 32
  first : Bool

def PcDataReader.new (r : List Byte) (quantum : BitVec 64) : PcDataReader :=
  ⟨some r, quantum, 0, -1, true⟩

def PcDataReader.next (s : PcDataReader) : Except ReadError (Option PcRange × PcDataReader) :=
  match s.reader with
  | none => .ok (none, s)
  | some r => do
    let (uvDelta, r) ← varI32 r
    if uvDelta = 0 ∧ s.first = false then return (none, { s with reader := none })
    else
      let value := s.value + uvDelta
      let (pcDelta, r) ← varU32 r
      let stop := s.pcOffset + pcDelta.setWidth 64 * s.quantum
      return (some ⟨s.pcOffset, stop, value⟩, ⟨some r, s.quantum, stop, value, false⟩)

/-- The delta of the value and that of the program counter. -/
abbrev PcEntry := BitVec 32 × BitVec 32

/-- The table with its end. -/
def encodeTable (es : List PcEntry) : List Byte :=
  es.flatMap (fun e => encodeVar (zigzag e.1) ++ encodeVar e.2.toNat) ++ encodeVar 0

/-- What a table says. Except in the first entry a delta of zero is the end. -/
def pcRanges (quantum : BitVec 64) : Bool → BitVec 64 → BitVec 32 → List PcEntry → List PcRange
  | _, _, _, [] => []
  | first, pc, value, e :: es =>
    if e.1 = 0 ∧ first = false then []
    else
      let stop := pc + e.2.setWidth 64 * quantum
      ⟨pc, stop, value + e.1⟩ :: pcRanges quantum false stop (value + e.1) es

variable {quantum pc : BitVec 64} {value : BitVec 32} {first : Bool} {es : List PcEntry}

/-- The table is read with its deltas cut to 31 bits. -/
lemma yields_encodeTable (hes : first = false ∨ es ≠ []) (rest : List Byte) :
    Yields PcDataReader.next ⟨some (encodeTable es ++ rest), quantum, pc, value, first⟩
      (pcRanges quantum first pc value (es.map fun e => (readDelta e.1, e.2))) := by
  induction es generalizing first pc value with
  | nil =>
    obtain rfl : first = false := by simpa using hes
    have hread : varI32 (encodeTable [] ++ rest) = .ok (0, rest) := varI32_encodeVar 0 rest
    apply Yields.done
    rw [PcDataReader.next]
    dsimp only
    rw [hread]
    rfl
  | cons e es ih =>
    have hbytes : encodeTable (e :: es) ++ rest =
        encodeVar (zigzag e.1) ++ (encodeVar e.2.toNat ++ (encodeTable es ++ rest)) := by
      simp [encodeTable]
    by_cases hend : readDelta e.1 = 0 ∧ first = false
    · rw [map_cons, pcRanges, if_pos hend]
      apply Yields.done
      rw [PcDataReader.next]
      dsimp only
      rw [hbytes, varI32_encodeVar]
      exact if_pos hend
    · rw [map_cons, pcRanges, if_neg hend]
      refine .more ?_ (ih (.inl rfl))
      rw [PcDataReader.next]
      dsimp only
      rw [hbytes, varI32_encodeVar]
      refine (if_neg hend).trans ?_
      rw [varU32_encodeVar e.2.isLt, BitVec.ofNat_toNat, BitVec.setWidth_eq]
      rfl

/-- The deltas of the values up to the end of the table. -/
def valueDeltas : Bool → List PcEntry → List (BitVec 32)
  | _, [] => []
  | first, e :: es => if e.1 = 0 ∧ first = false then [] else e.1 :: valueDeltas false es

lemma pcRanges_readDelta_iff :
    pcRanges quantum first pc value es =
        pcRanges quantum first pc value (es.map fun e => (readDelta e.1, e.2)) ↔
      ∀ d ∈ valueDeltas first es, readDelta d = d := by
  induction es generalizing first pc value with
  | nil => simp [pcRanges, valueDeltas]
  | cons e es ih =>
    rw [map_cons, pcRanges, pcRanges, valueDeltas]
    by_cases hend : e.1 = 0 ∧ first = false
    · have hzero : readDelta e.1 = 0 := by
        rw [hend.1]
        decide
      rw [if_pos hend, if_pos hend, if_pos ⟨hzero, hend.2⟩]
      simp
    · rw [if_neg hend, if_neg hend, forall_mem_cons]
      by_cases hread : readDelta e.1 = e.1
      · rw [hread, if_neg hend]
        simp [ih]
      · -- the value differs, or the table ends too early
        split <;> simp [hread, Ne.symm hread]

/-- A table is read as it says exactly when each delta up to its end has 31 bits. -/
theorem yields_pcRanges_iff (e : PcEntry) (es : List PcEntry) (quantum : BitVec 64)
    (rest : List Byte) :
    Yields PcDataReader.next (.new (encodeTable (e :: es) ++ rest) quantum)
        (pcRanges quantum true 0 (-1) (e :: es)) ↔
      ∀ d ∈ valueDeltas true (e :: es), -2 ^ 30 ≤ d.toInt ∧ d.toInt < 2 ^ 30 := by
  have hread : Yields PcDataReader.next (.new (encodeTable (e :: es) ++ rest) quantum) _ :=
    yields_encodeTable (.inr (cons_ne_nil e es)) rest
  calc _ ↔ pcRanges quantum true 0 (-1) (e :: es) =
        pcRanges quantum true 0 (-1) ((e :: es).map fun e => (readDelta e.1, e.2)) :=
          ⟨fun h => h.unique hread, fun h => h ▸ hread⟩
    _ ↔ ∀ d ∈ valueDeltas true (e :: es), readDelta d = d := pcRanges_readDelta_iff
    _ ↔ _ := by simp only [readDelta_eq_iff]

/-- A delta of `2 ^ 30` is read as its negative. -/
theorem not_yields_pcRanges : ¬ Yields PcDataReader.next (.new (encodeTable [(0x40000000, 1)]) 1)
    (pcRanges 1 true 0 (-1) [(0x40000000, 1)]) := by
  have hread : Yields PcDataReader.next (.new (encodeTable [(0x40000000, 1)] ++ []) 1) _ :=
    yields_encodeTable (.inr (by simp)) []
  intro h
  have hall := pcRanges_readDelta_iff.mp (h.unique hread)
  exact absurd ((readDelta_eq_iff _).mp (hall (0x40000000 : BitVec 32) mem_cons_self)).2 (by decide)

end EbpfProfiler.GoSym
