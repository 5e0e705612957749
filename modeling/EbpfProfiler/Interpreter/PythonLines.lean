import EbpfProfiler.Lib.Comp
import EbpfProfiler.Lib.Covering
import EbpfProfiler.Lib.Varint
import Mathlib.Algebra.Ring.Int.Defs

/-!
# Line tables of Python code objects

`walkLocationTable` (3.11 and later) and `walkLineTable` (3.10) of `interpreter/python/python.go`.
-/

namespace EbpfProfiler.Interpreter.Python

open Lib List Varint Int

variable {addrq bci : BitVec 32} {fuel n stop : ℕ}

/-! ## The location table -/

/-- The loop of `readVarint`. -/
def varintLoop : List Byte → ℕ → BitVec 32 → BitVec 32 × List Byte
  | [], _, _ => (0, [])
  | b :: r, shift, val =>
    if b &&& 0x80 ≠ 0 then (0, r)
    else
      let val := val ||| (b &&& 0x3f).setWidth 32 <<< shift
      if b &&& 0x40 ≠ 0 then varintLoop r (shift + 6) val else (val, r)

/-- `readVarint`, with the bytes that are left. -/
def readVarint (r : List Byte) : BitVec 32 × List Byte := varintLoop r 0 0

def readSignedVarint (r : List Byte) : BitVec 32 × List Byte :=
  let (uval, r) := readVarint r
  (if uval &&& 1 ≠ 0 then -(uval >>> 1) else uval >>> 1, r)

/-- The cases of `walkLocationTable`: line and rest behind an entry. Bytes may be missing. -/
def readEntry (code : Byte) (line : BitVec 32) (r : List Byte) : Option (BitVec 32 × List Byte) :=
  if code ≤ 9 then some (line, r.tail)
  else if code ≤ 12 then some (line + (code - 10).setWidth 32, r.tail.tail)
  else if code = 13 then
    let (delta, r) := readSignedVarint r
    some (line + delta, r)
  else if code = 14 then
    let (delta, r) := readSignedVarint r
    let (_, r) := readVarint r
    let (_, r) := readVarint r
    let (_, r) := readVarint r
    some (line + delta, r)
  else if code = 15 then some (-1, r)
  else none

/-- The loop of `walkLocationTable`. There is no value if it does not end. -/
def locationLoop (bci : BitVec 32) : ℕ → List Byte → BitVec 32 → BitVec 32 → Option (BitVec 32)
  | 0, _, _, _ => none
  | fuel + 1, r, curI, line =>
    if curI ≤ bci then
      match r with
      | [] => some 0
      | firstByte :: r =>
        if firstByte &&& 0x80 = 0 then some 0
        else
          match readEntry (firstByte >>> 3 &&& 15) line r with
          | none => some 0
          | some (line, r) =>
            locationLoop bci fuel r (curI + (firstByte &&& 7).setWidth 32 + 1) line
    else some (if line.slt 0 then 0 else line)

/-- `walkLocationTable`. Each turn reads a byte. -/
def walkLocationTable (lineTable : List Byte) (bci : BitVec 32) : Option (BitVec 32) :=
  locationLoop bci (lineTable.length + 1) lineTable 0 0

/-! ## Its entries -/

/-- A difference of lines, which is an `int` other than the least one. -/
abbrev LineDelta := { d : ℤ // -2 ^ 31 < d ∧ d < 2 ^ 31 }

/-- The entries of a location table, by kind; `units` is one less than the code units covered. -/
inductive Entry
  | short (code : Fin 10) (units : Fin 8) (columns : Byte)
  | oneLine (delta : Fin 3) (units : Fin 8) (column endColumn : Byte)
  | noColumns (units : Fin 8) (delta : LineDelta)
  | long (units : Fin 8) (delta : LineDelta) (endLine column endColumn : BitVec 32)
  | none (units : Fin 8)

namespace Entry

/-- The kind, from 0 to 15. -/
def code : Entry → Fin 16
  | short code _ _ => code.castLE (by decide)
  | oneLine delta _ _ _ => ⟨10 + delta.val, by omega⟩
  | noColumns _ _ => 13
  | long _ _ _ _ _ => 14
  | none _ => 15

def lastUnit : Entry → Fin 8
  | short _ units _ => units
  | oneLine _ units _ _ => units
  | noColumns units _ => units
  | long units _ _ _ _ => units
  | none units => units

/-- The code units that an entry covers. -/
def units (e : Entry) : ℕ := e.lastUnit.val + 1

/-- The difference to the line of the entry in front. -/
def delta : Entry → ℤ
  | short _ _ _ => 0
  | oneLine delta _ _ _ => (delta.val : ℤ)
  | noColumns _ delta => delta.val
  | long _ delta _ _ _ => delta.val
  | none _ => 0

def hasLine : Entry → Bool
  | none _ => false
  | _ => true

end Entry

/-- `write_varint` of CPython; a number of 32 bits has at most six digits. -/
def encodeVarint (n : ℕ) : List Byte := Varint.encode 6 5 n

/-- `write_signed_varint` of CPython: the sign is the lowest bit. -/
def encodeSigned (d : ℤ) : List Byte :=
  encodeVarint (if d < 0 then 2 * d.natAbs + 1 else 2 * d.natAbs)

/-- What follows the first byte of an entry. -/
def encodePayload : Entry → List Byte
  | .short _ _ columns => [columns]
  | .oneLine _ _ column endColumn => [column, endColumn]
  | .noColumns _ delta => encodeSigned delta.val
  | .long _ delta endLine column endColumn => encodeSigned delta.val ++
      (encodeVarint endLine.toNat ++ (encodeVarint column.toNat ++ encodeVarint endColumn.toNat))
  | .none _ => []

/-- The first byte has its highest bit set, then the kind and the code units. -/
def firstByte (code : Fin 16) (lastUnit : Fin 8) : Byte :=
  BitVec.ofNat 8 (128 + 8 * code.val + lastUnit.val)

def encodeEntry (e : Entry) : List Byte := firstByte e.code e.lastUnit :: encodePayload e

def lineSum (es : List Entry) : ℤ := (es.map Entry.delta).sum

def lineOf (before : List Entry) (e : Entry) : ℕ :=
  if e.hasLine then (lineSum before + e.delta).toNat else 0

/-! ## Reading an entry -/

section
variable (code : Fin 16) (u : Fin 8)
include code u

lemma firstByte_flag : firstByte code u &&& 0x80 ≠ 0 := by
  revert code u
  decide

lemma firstByte_code : firstByte code u >>> 3 &&& 15 = BitVec.ofNat 8 code.val := by
  revert code u
  decide

lemma firstByte_units : firstByte code u &&& 7 = BitVec.ofNat 8 u.val := by
  revert code u
  decide

end

lemma lastDigit (n : Fin 64) : BitVec.ofNat 8 n.val &&& 0x80 = 0 ∧
    BitVec.ofNat 8 n.val &&& 0x40 = 0 ∧
    (BitVec.ofNat 8 n.val &&& 0x3f).setWidth 32 = BitVec.ofNat 32 n.val := by
  revert n
  decide

lemma innerDigit (n : Fin 64) : BitVec.ofNat 8 (2 ^ 6 + n.val) &&& 0x80 = 0 ∧
    BitVec.ofNat 8 (2 ^ 6 + n.val) &&& 0x40 ≠ 0 ∧
    (BitVec.ofNat 8 (2 ^ 6 + n.val) &&& 0x3f).setWidth 32 = BitVec.ofNat 32 n.val := by
  revert n
  decide

lemma readVarint_encode (hn : n < 2 ^ 32) (r : List Byte) :
    readVarint (encodeVarint n ++ r) = (BitVec.ofNat 32 n, r) := by
  refine loop_encode (f := fun _ shift val r => varintLoop r shift val)
    (fun hdigit hacc htotal => ?_) (fun r hdigit hacc => ?_) (by omega) (Nat.two_pow_pos 0)
    (Nat.zero_add _)
  · obtain ⟨hlast, hmore, hvalue⟩ := lastDigit ⟨_, hdigit⟩
    rw [varintLoop, if_neg (not_not.2 hlast)]
    rw [if_neg (not_not.2 hmore), hvalue, ofNat_or_shiftLeft 32 hacc, htotal]
    simp
  · obtain ⟨hlast, hmore, hvalue⟩ := innerDigit ⟨_, hdigit⟩
    rw [varintLoop, if_neg (not_not.2 hlast)]
    rw [if_pos hmore, hvalue, ofNat_or_shiftLeft 32 hacc]

lemma ofNat_and_one (hn : n < 2 ^ 32) : BitVec.ofNat 32 n &&& 1 = BitVec.ofNat 32 (n % 2) := by
  apply BitVec.eq_of_toNat_eq
  rw [BitVec.toNat_and, BitVec.toNat_ofNat, Nat.mod_eq_of_lt hn]
  show n &&& 1 = n % 2 % 2 ^ 32
  rw [Nat.and_one_is_mod]
  omega

lemma ofNat_shiftRight_one (hn : n < 2 ^ 32) :
    BitVec.ofNat 32 n >>> 1 = BitVec.ofNat 32 (n / 2) := by
  apply BitVec.eq_of_toNat_eq
  rw [BitVec.toNat_ushiftRight, BitVec.toNat_ofNat, BitVec.toNat_ofNat]
  omega

lemma readSignedVarint_encode (d : LineDelta) (r : List Byte) :
    readSignedVarint (encodeSigned d.val ++ r) = (BitVec.ofInt 32 d.val, r) := by
  obtain ⟨d, hlow, hhigh⟩ := d
  unfold readSignedVarint encodeSigned
  dsimp only
  by_cases hneg : d < 0
  · have hvalue : -BitVec.ofNat 32 d.natAbs = BitVec.ofInt 32 d := by
      rw [← BitVec.ofInt_natCast, ← BitVec.ofInt_neg, show -((d.natAbs : ℕ) : ℤ) = d by omega]
    rw [if_pos hneg, readVarint_encode (by omega)]
    rw [ofNat_and_one (by omega), ofNat_shiftRight_one (by omega),
      show (2 * d.natAbs + 1) % 2 = 1 by omega, show (2 * d.natAbs + 1) / 2 = d.natAbs by omega,
      if_pos (by decide), hvalue]
  · have hvalue : BitVec.ofNat 32 d.natAbs = BitVec.ofInt 32 d := by
      rw [← BitVec.ofInt_natCast, show ((d.natAbs : ℕ) : ℤ) = d by omega]
    rw [if_neg hneg, readVarint_encode (by omega)]
    rw [ofNat_and_one (by omega), ofNat_shiftRight_one (by omega),
      show 2 * d.natAbs % 2 = 0 by omega, show 2 * d.natAbs / 2 = d.natAbs by omega,
      if_neg (by decide), hvalue]

/-- The line of the code after an entry; one without location sets `-1`. -/
def lineAfter (line : ℤ) (e : Entry) : ℤ := if e.hasLine then line + e.delta else -1

lemma readEntry_encode (line : ℤ) (e : Entry) (r : List Byte) :
    readEntry (BitVec.ofNat 8 e.code.val) (BitVec.ofInt 32 line) (encodePayload e ++ r) =
      some (BitVec.ofInt 32 (lineAfter line e), r) := by
  have hadd (d : ℤ) : BitVec.ofInt 32 line + BitVec.ofInt 32 d = BitVec.ofInt 32 (line + d) :=
    (BitVec.ofInt_add line d).symm
  cases e with
  | short code units columns =>
    have hcode : BitVec.ofNat 8 code.val ≤ 9 := by
      revert code
      decide
    show readEntry (BitVec.ofNat 8 code.val) _ _ = _
    rw [readEntry, if_pos hcode]
    show some (BitVec.ofInt 32 line, r) = some (BitVec.ofInt 32 (line + 0), r)
    rw [add_zero]
  | oneLine delta units column endColumn =>
    have hcode : ¬BitVec.ofNat 8 (10 + delta.val) ≤ 9 ∧ BitVec.ofNat 8 (10 + delta.val) ≤ 12 ∧
        (BitVec.ofNat 8 (10 + delta.val) - 10).setWidth 32 = BitVec.ofInt 32 delta.val := by
      revert delta
      decide
    show readEntry (BitVec.ofNat 8 (10 + delta.val)) _ _ = _
    rw [readEntry, if_neg hcode.1, if_pos hcode.2.1, hcode.2.2, hadd]
    rfl
  | noColumns units delta =>
    show readEntry 13 _ (encodeSigned delta.val ++ r) = _
    rw [readEntry, readSignedVarint_encode]
    dsimp only
    rw [hadd]
    rfl
  | long units delta endLine column endColumn =>
    show readEntry 14 _ ((encodeSigned delta.val ++ (encodeVarint endLine.toNat ++
      (encodeVarint column.toNat ++ encodeVarint endColumn.toNat))) ++ r) = _
    rw [append_assoc, append_assoc, append_assoc, readEntry, readSignedVarint_encode]
    dsimp only
    rw [readVarint_encode endLine.isLt]
    rw [readVarint_encode column.isLt]
    rw [readVarint_encode endColumn.isLt, hadd]
    rfl
  | none units =>
    show readEntry 15 _ r = _
    rfl

/-! ## Walking the table -/

lemma locationLoop_entry {i : ℕ} (hi : i ≤ bci.toNat) (e : Entry) (line : ℤ) (r : List Byte) :
    locationLoop bci (fuel + 1) (encodeEntry e ++ r) (BitVec.ofNat 32 i) (BitVec.ofInt 32 line) =
      locationLoop bci fuel r
        (BitVec.ofNat 32 (i + e.units)) (BitVec.ofInt 32 (lineAfter line e)) := by
  have hcurI : BitVec.ofNat 32 i ≤ bci := by
    rw [BitVec.le_def, BitVec.toNat_ofNat, Nat.mod_eq_of_lt (by omega)]
    exact hi
  have hunits : BitVec.ofNat 32 i + (BitVec.ofNat 8 e.lastUnit.val).setWidth 32 + 1 =
      BitVec.ofNat 32 (i + e.units) := by
    unfold Entry.units
    rw [← add_assoc, BitVec.ofNat_add, BitVec.ofNat_add,
      BitVec.setWidth_ofNat_of_le_of_lt (by decide) (by omega)]
    rfl
  unfold encodeEntry
  rw [cons_append, locationLoop, if_pos hcurI, if_neg (firstByte_flag _ _), firstByte_code,
    firstByte_units, readEntry_encode]
  rw [hunits]

lemma locationLoop_done {curI : BitVec 32} (h : ¬curI ≤ bci) {r : List Byte} {line : BitVec 32} :
    locationLoop bci (fuel + 1) r curI line = some (if line.slt 0 then 0 else line) := by
  cases r <;> rw [locationLoop, if_neg h]

lemma locationLoop_before {i : ℕ} {before : List Entry}
    (hi : i + extent Entry.units before ≤ bci.toNat) (line : ℤ) (r : List Byte) :
    locationLoop bci (fuel + before.length) (before.flatMap encodeEntry ++ r) (BitVec.ofNat 32 i)
        (BitVec.ofInt 32 line) =
      locationLoop bci fuel r (BitVec.ofNat 32 (i + extent Entry.units before))
        (BitVec.ofInt 32 (before.foldl lineAfter line)) := by
  induction before generalizing i line with
  | nil => rfl
  | cons e before ih =>
    rw [extent, ← add_assoc] at hi
    rw [length_cons, ← add_assoc, flatMap_cons, append_assoc, locationLoop_entry (by omega), ih hi,
      extent, ← add_assoc, foldl_cons]

/-- The line in front of the last entry without a location. -/
def lineBeforeNone (line : ℤ) : List Entry → Option ℤ
  | [] => none
  | e :: es => (lineBeforeNone (line + e.delta) es).or (if e.hasLine then none else some line)

/-- How far the line of the code is behind, at an entry behind others. -/
def drift (before : List Entry) : ℤ := (lineBeforeNone 0 before).elim 0 fun line => line + 1

lemma foldl_lineAfter (codeLine line : ℤ) (before : List Entry) :
    before.foldl lineAfter codeLine = (lineBeforeNone line before).elim (codeLine + lineSum before)
      fun l => line + lineSum before - (l + 1) := by
  induction before generalizing codeLine line with
  | nil => exact (add_zero codeLine).symm
  | cons e before ih =>
    rw [foldl_cons, ih (lineAfter codeLine e) (line + e.delta), lineBeforeNone]
    cases lineBeforeNone (line + e.delta) before with
    | some l =>
      show line + e.delta + lineSum before - (l + 1) = line + (e.delta + lineSum before) - (l + 1)
      omega
    | none =>
      cases e with
      | none units =>
        show -1 + lineSum before = line + (0 + lineSum before) - (line + 1)
        omega
      | _ =>
        show codeLine + _ + lineSum before = codeLine + (_ + lineSum before)
        omega

lemma toNat_clamp (x : ℤ) :
    (if (BitVec.ofInt 32 x).slt 0 then 0 else BitVec.ofInt 32 x).toNat =
    (x.bmod (2 ^ 32)).toNat := by
  have hvalue := BitVec.toInt_ofInt (n := 32) x
  have hcond := BitVec.toInt_eq_toNat_cond (BitVec.ofInt 32 x)
  have hzero : (0 : BitVec 32).toInt = 0 := rfl
  rw [BitVec.slt_eq_decide, hzero, hvalue]
  by_cases hneg : x.bmod (2 ^ 32) < 0
  · rw [if_pos (decide_eq_true hneg)]
    show 0 = (x.bmod (2 ^ 32)).toNat
    omega
  · rw [if_neg (by simpa using hneg)]
    split at hcond <;> omega

/-- No line is lost below zero or above `int32`, and that of the code is not behind. -/
def LineKept (before : List Entry) (e : Entry) : Prop :=
  let line := lineSum before + e.delta
  (0 < line → line < 2 ^ 31 ∧ 2 ^ 32 ∣ drift before) ∧
    (line ≤ 0 → (line - drift before).bmod (2 ^ 32) ≤ 0)

lemma bmod_eq (x : ℤ) :
    x.bmod (2 ^ 32) = if x % 2 ^ 32 < 2 ^ 31 then x % 2 ^ 32 else x % 2 ^ 32 - 2 ^ 32 := rfl

lemma toNat_bmod_eq_iff (line d : ℤ) : ((line - d).bmod (2 ^ 32)).toNat = line.toNat ↔
      (0 < line → line < 2 ^ 31 ∧ 2 ^ 32 ∣ d) ∧
        (line ≤ 0 → (line - d).bmod (2 ^ 32) ≤ 0) := by
  rw [bmod_eq]
  split <;> omega

lemma length_le_flatMap_encodeEntry (es : List Entry) :
    es.length ≤ (es.flatMap encodeEntry).length := by
  induction es with
  | nil => exact Nat.zero_le _
  | cons e es ih =>
    rw [flatMap_cons, length_append, length_cons, encodeEntry, length_cons]
    omega

lemma walkLocationTable_covers {es before after : List Entry} {e : Entry}
    (hunits : extent Entry.units es < 2 ^ 32)
    (hcovers : Covers Entry.units es bci.toNat before e after) :
    (walkLocationTable (es.flatMap encodeEntry) bci).map BitVec.toNat =
      some ((lineAfter (before.foldl lineAfter 0) e).bmod (2 ^ 32)).toNat := by
  have hend := hcovers.end_le
  obtain ⟨rfl, hle, hlt⟩ := hcovers
  have hlength := length_le_flatMap_encodeEntry (before ++ e :: after)
  rw [length_append, length_cons] at hlength
  obtain ⟨k, hk⟩ : ∃ k, ((before ++ e :: after).flatMap encodeEntry).length + 1 =
      k + 1 + 1 + before.length := ⟨((before ++ e :: after).flatMap encodeEntry).length - 1 -
        before.length, by omega⟩
  unfold walkLocationTable
  rw [hk, flatMap_append, flatMap_cons]
  have hdone : ¬BitVec.ofNat 32 (extent Entry.units before + e.units) ≤ bci := by
    rw [BitVec.le_def, BitVec.toNat_ofNat]
    omega
  have hfront : 0 + extent Entry.units before ≤ bci.toNat := by omega
  have hbefore : locationLoop bci (k + 1 + 1 + before.length) _ 0 0 = _ :=
    locationLoop_before hfront 0 (encodeEntry e ++ after.flatMap encodeEntry)
  rw [zero_add, locationLoop_entry hle] at hbefore
  rw [hbefore, locationLoop_done hdone, ← toNat_clamp]
  rfl

/-- The line is that of the covering entry just when it has none, or the lines before are kept. -/
theorem walkLocationTable_iff (es : List Entry) (hunits : extent Entry.units es < 2 ^ 32)
    (bci : BitVec 32) (hbci : bci.toNat < extent Entry.units es) :
    ∃ before e after, Covers Entry.units es bci.toNat before e after ∧
      ((walkLocationTable (es.flatMap encodeEntry) bci).map BitVec.toNat = some (lineOf before e) ↔
        e.hasLine = false ∨ LineKept before e) := by
  obtain ⟨before, e, after, hcovers⟩ := exists_covers Entry.units hbci
  refine ⟨before, e, after, hcovers, ?_⟩
  rw [walkLocationTable_covers hunits hcovers, Option.some_inj]
  rw [lineAfter, lineOf]
  cases hline : e.hasLine with
  | false => exact iff_of_true rfl (.inl rfl)
  | true =>
    have hdrift : before.foldl lineAfter 0 = lineSum before - drift before := by
      rw [foldl_lineAfter 0 0 before]
      unfold drift
      cases lineBeforeNone 0 before with
      | none =>
        show 0 + lineSum before = lineSum before - 0
        omega
      | some l =>
        show 0 + lineSum before - (l + 1) = lineSum before - (l + 1)
        omega
    rw [if_pos rfl, if_pos rfl, hdrift,
      show lineSum before - drift before + e.delta =
        lineSum before + e.delta - drift before by omega,
      toNat_bmod_eq_iff]
    simp only [Bool.true_eq_false, false_or]
    rfl

/-- Three entries, the second one a line further. -/
theorem walkLocationTable_oneLine :
    ∃ before e after,
      Covers Entry.units [.short 3 0 0, .oneLine 1 1 0 0, .none 2] 2 before e after ∧
      ((walkLocationTable ([Entry.short 3 0 0, .oneLine 1 1 0 0, .none 2].flatMap encodeEntry)
          2).map BitVec.toNat = some (lineOf before e) ↔
        e.hasLine = false ∨ LineKept before e) :=
  walkLocationTable_iff [.short 3 0 0, .oneLine 1 1 0 0, .none 2] (by decide) 2 (by decide)

/-- Behind an entry without a location the line is lost: for line 5 the walk gives 0. -/
theorem walkLocationTable_behind_none :
    (walkLocationTable ([Entry.noColumns 0 ⟨5, by decide⟩, .none 0,
      .short 0 0 0].flatMap encodeEntry) 2).map BitVec.toNat ≠
      some (lineOf [.noColumns 0 ⟨5, by decide⟩, .none 0] (.short 0 0 0)) := by
  decide +kernel

/-! ## The line table -/

/-- The loop of `walkLineTable`. The bytes are taken in pairs. -/
def lineTableLoop (addrq : BitVec 32) : List Byte → BitVec 32 → BitVec 32 → Except Fault (BitVec 32)
  | [], _, _ => .ok 0
  | [_], _, _ => .error (.panic "index out of range")
  | sDelta :: lDelta :: rest, line, stop =>
    if lDelta = 0 then lineTableLoop addrq rest line (stop + sDelta.setWidth 32)
    else
      let start := stop
      let stop := start + sDelta.setWidth 32
      if lDelta = 0x80 then lineTableLoop addrq rest line stop
      else
        let line := line + lDelta.signExtend 32
        if stop = start then lineTableLoop addrq rest line stop
        else if addrq < stop then .ok line
        else lineTableLoop addrq rest line stop

def walkLineTable (lineTable : List Byte) (addrq : BitVec 32) : Except Fault (BitVec 32) :=
  if addrq = 0 then .ok 0 else lineTableLoop addrq lineTable 0 0

/-- A start delta and a line delta. -/
abbrev LinePair := Byte × Byte

variable {p : LinePair}

namespace LinePair

/-- The addresses that a pair covers. -/
def size (p : LinePair) : ℕ := p.1.toNat

def encode (p : LinePair) : List Byte := [p.1, p.2]

/-- What a pair adds to the running line. -/
def delta (p : LinePair) : ℤ := if p.2 = 0x80 then 0 else p.2.toInt

def Moves (p : LinePair) : Prop := p.1 ≠ 0 ∧ p.2 ≠ 0 ∧ p.2 ≠ 0x80

instance (p : LinePair) : Decidable p.Moves := inferInstanceAs (Decidable (_ ∧ _ ∧ _))

end LinePair

open LinePair

def runningLine (ps : List LinePair) : ℤ := (ps.map delta).sum

/-- `PyLineTable_NextAddressRange` of CPython: the line of a range. -/
def rangeLine (before : List LinePair) (p : LinePair) : BitVec 32 :=
  if p.2 = 0x80 then 0 else BitVec.ofInt 32 (runningLine before + p.delta)

/-- How far the line moves up to the first pair with a range that moves it. -/
def untilMoves : List LinePair → Option ℤ
  | [] => none
  | p :: ps => if p.Moves then some p.delta else (untilMoves ps).map (p.delta + ·)

/-- Address 0 has the first line; without a new line, the next range that moves has the same. -/
def RangeFound (addrq : BitVec 32) (before : List LinePair) (p : LinePair) (after : List LinePair) :
    Prop :=
  if addrq = 0 then p.2 = 0x80 ∨ 2 ^ 32 ∣ runningLine before + p.delta
  else if p.2 = 0 then (untilMoves after).elim (2 ^ 32 ∣ runningLine before) (2 ^ 32 ∣ ·)
  else if p.2 = 0x80 then (untilMoves after).elim True fun d => 2 ^ 32 ∣ runningLine before + d
  else True

lemma runningLine_cons (p : LinePair) (ps : List LinePair) :
    runningLine (p :: ps) = p.delta + runningLine ps := by
  unfold runningLine
  rw [map_cons, sum_cons]

lemma signExtend_eq_ofInt (b : Byte) : b.signExtend 32 = BitVec.ofInt 32 b.toInt := rfl

lemma ofNat_add_size (stop : ℕ) (p : LinePair) :
    BitVec.ofNat 32 stop + p.1.setWidth 32 = BitVec.ofNat 32 (stop + p.size) := by
  rw [BitVec.ofNat_add, size, BitVec.ofNat_toNat]

lemma ofInt_add_delta (line : ℤ) (h : p.2 ≠ 0x80) :
    BitVec.ofInt 32 line + p.2.signExtend 32 = BitVec.ofInt 32 (line + p.delta) := by
  rw [signExtend_eq_ofInt, delta, if_neg h, BitVec.ofInt_add]

lemma lineTableLoop_of_not_moves (h : ¬p.Moves) (line : ℤ) (r : List Byte) :
    lineTableLoop addrq (p.encode ++ r) (BitVec.ofInt 32 line) (BitVec.ofNat 32 stop) =
      lineTableLoop addrq r
        (BitVec.ofInt 32 (line + p.delta)) (BitVec.ofNat 32 (stop + p.size)) := by
  show lineTableLoop addrq (p.1 :: p.2 :: r) _ _ = _
  rw [lineTableLoop]
  dsimp only
  rw [ofNat_add_size]
  by_cases hzero : p.2 = 0
  · have hdelta : p.delta = 0 := by
      unfold delta
      rw [hzero]
      rfl
    rw [if_pos hzero, hdelta, add_zero]
  · by_cases hnone : p.2 = 0x80
    · have hdelta : p.delta = 0 := if_pos hnone
      rw [if_neg hzero, if_pos hnone, hdelta, add_zero]
    · -- the range is empty
      have hempty : p.1 = 0 := by
        by_contra hsize
        exact h ⟨hsize, hzero, hnone⟩
      have hstop : stop + p.size = stop := by
        unfold size
        rw [hempty]
        rfl
      rw [if_neg hzero, if_neg hnone, hstop, if_pos rfl, ofInt_add_delta line hnone]

lemma lineTableLoop_of_moves (h : p.Moves) (hstop : stop + p.size < 2 ^ 32) (line : ℤ)
    (r : List Byte) :
    lineTableLoop addrq (p.encode ++ r) (BitVec.ofInt 32 line) (BitVec.ofNat 32 stop) =
      if addrq.toNat < stop + p.size then .ok (BitVec.ofInt 32 (line + p.delta))
      else lineTableLoop addrq r (BitVec.ofInt 32 (line + p.delta))
        (BitVec.ofNat 32 (stop + p.size)) := by
  obtain ⟨hsize, hzero, hnone⟩ := h
  have hpos : 0 < p.size := by
    apply Nat.pos_of_ne_zero
    intro hsz
    exact hsize (BitVec.eq_of_toNat_eq hsz)
  have hne : BitVec.ofNat 32 (stop + p.size) ≠ BitVec.ofNat 32 stop := by
    intro heq
    have hnat := congrArg BitVec.toNat heq
    rw [BitVec.toNat_ofNat, BitVec.toNat_ofNat] at hnat
    omega
  have hlt : addrq < BitVec.ofNat 32 (stop + p.size) ↔ addrq.toNat < stop + p.size := by
    rw [BitVec.lt_def, BitVec.toNat_ofNat, Nat.mod_eq_of_lt hstop]
  show lineTableLoop addrq (p.1 :: p.2 :: r) _ _ = _
  rw [lineTableLoop]
  dsimp only
  rw [ofNat_add_size, if_neg hzero, if_neg hnone, if_neg hne, ofInt_add_delta line hnone]
  exact if_congr hlt rfl rfl

variable {before after : List LinePair}

lemma lineTableLoop_before (hstop : stop + extent size before ≤ addrq.toNat) (line : ℤ)
    (r : List Byte) :
    lineTableLoop addrq (before.flatMap encode ++ r) (BitVec.ofInt 32 line)
        (BitVec.ofNat 32 stop) =
      lineTableLoop addrq r (BitVec.ofInt 32 (line + runningLine before))
        (BitVec.ofNat 32 (stop + extent size before)) := by
  induction before generalizing stop line with
  | nil =>
    rw [show line + runningLine [] = line from add_zero line]
    rfl
  | cons p before ih =>
    rw [extent, ← add_assoc] at hstop
    have hturn : lineTableLoop addrq (p.encode ++ (before.flatMap encode ++ r))
        (BitVec.ofInt 32 line) (BitVec.ofNat 32 stop) = lineTableLoop addrq
          (before.flatMap encode ++ r) (BitVec.ofInt 32 (line + p.delta))
          (BitVec.ofNat 32 (stop + p.size)) := by
      by_cases hmoves : p.Moves
      · rw [lineTableLoop_of_moves hmoves (by omega), if_neg (by omega)]
      · exact lineTableLoop_of_not_moves hmoves line _
    rw [flatMap_cons, append_assoc, hturn, ih hstop, runningLine_cons, extent, add_assoc, add_assoc]

lemma lineTableLoop_after (haddr : addrq.toNat < stop) (hstop : stop + extent size after < 2 ^ 32)
    (line : ℤ) :
    lineTableLoop addrq (after.flatMap encode) (BitVec.ofInt 32 line)
        (BitVec.ofNat 32 stop) =
      .ok ((untilMoves after).elim 0 fun d => BitVec.ofInt 32 (line + d)) := by
  induction after generalizing stop line with
  | nil => rfl
  | cons p after ih =>
    rw [extent, ← add_assoc] at hstop
    rw [flatMap_cons, untilMoves]
    by_cases hmoves : p.Moves
    · rw [lineTableLoop_of_moves hmoves (by omega), if_pos (by omega), if_pos hmoves]
      rfl
    · rw [lineTableLoop_of_not_moves hmoves, ih (by omega) hstop, if_neg hmoves]
      cases untilMoves after with
      | none => rfl
      | some d =>
        show Except.ok (BitVec.ofInt 32 (line + p.delta + d)) =
          .ok (BitVec.ofInt 32 (line + (p.delta + d)))
        rw [add_assoc]

lemma ofInt_eq_ofInt_iff (x y : ℤ) :
    BitVec.ofInt 32 x = BitVec.ofInt 32 y ↔ (2 ^ 32 : ℤ) ∣ x - y := by
  rw [← BitVec.toInt_inj, BitVec.toInt_ofInt, BitVec.toInt_ofInt, bmod_eq, bmod_eq]
  split <;> split <;> omega

lemma lineTableLoop_covers {ps : List LinePair} (hsize : extent size ps < 2 ^ 32)
    (hcovers : Covers size ps addrq.toNat before p after) :
    lineTableLoop addrq (ps.flatMap encode) 0 0 = .ok (if p.Moves
      then BitVec.ofInt 32 (runningLine before + p.delta)
      else (untilMoves after).elim 0 fun d =>
        BitVec.ofInt 32 (runningLine before + p.delta + d)) := by
  obtain ⟨rfl, hle, hlt⟩ := hcovers
  rw [extent_append, extent] at hsize
  have hfront : 0 + extent size before ≤ addrq.toNat := by omega
  have hbefore : lineTableLoop addrq _ 0 0 = _ :=
    lineTableLoop_before hfront 0 (p.encode ++ after.flatMap encode)
  rw [zero_add, zero_add] at hbefore
  rw [flatMap_append, flatMap_cons, hbefore]
  by_cases hmoves : p.Moves
  · rw [lineTableLoop_of_moves hmoves (by omega), if_pos hlt, if_pos hmoves]
  · rw [lineTableLoop_of_not_moves hmoves, lineTableLoop_after (by omega) (by omega), if_neg hmoves]

/-- The line is that of the range just when it has its own, or the one found instead is equal. -/
theorem walkLineTable_iff (ps : List LinePair) (hsize : extent size ps < 2 ^ 32) (addrq : BitVec 32)
    (haddr : addrq.toNat < extent size ps) :
    ∃ before p after, Covers size ps addrq.toNat before p after ∧
      (walkLineTable (ps.flatMap encode) addrq = .ok (rangeLine before p) ↔
        RangeFound addrq before p after) := by
  obtain ⟨before, p, after, hcovers⟩ := exists_covers size haddr
  refine ⟨before, p, after, hcovers, ?_⟩
  have hzero : (0 : BitVec 32) = BitVec.ofInt 32 0 := rfl
  unfold walkLineTable rangeLine RangeFound
  by_cases hfirst : addrq = 0
  · rw [if_pos hfirst, if_pos hfirst, Except.ok.injEq]
    by_cases hnone : p.2 = 0x80
    · rw [if_pos hnone]
      exact iff_of_true rfl (.inl hnone)
    · rw [if_neg hnone, hzero, ofInt_eq_ofInt_iff]
      simp only [hnone, false_or]
      omega
  · rw [if_neg hfirst, if_neg hfirst, lineTableLoop_covers hsize hcovers, Except.ok.injEq]
    obtain ⟨-, hle, hlt⟩ := hcovers
    by_cases hsame : p.2 = 0
    · -- the range has the line of the one in front
      have hdelta : p.delta = 0 := by
        unfold delta
        rw [hsame]
        rfl
      rw [if_neg (fun hmoves => hmoves.2.1 hsame), if_pos hsame,
        if_neg (show p.2 ≠ 0x80 by rw [hsame]; decide), hdelta, add_zero]
      cases untilMoves after with
      | none =>
        show 0 = BitVec.ofInt 32 (runningLine before) ↔ (2 ^ 32 : ℤ) ∣ runningLine before
        rw [hzero, ofInt_eq_ofInt_iff]
        omega
      | some d =>
        show BitVec.ofInt 32 (runningLine before + d) = _ ↔ (2 ^ 32 : ℤ) ∣ d
        rw [ofInt_eq_ofInt_iff]
        omega
    · by_cases hnone : p.2 = 0x80
      · -- the range has no line
        have hdelta : p.delta = 0 := if_pos hnone
        rw [if_neg (fun hmoves => hmoves.2.2 hnone), if_neg hsame, if_pos hnone, if_pos hnone,
          hdelta, add_zero]
        cases untilMoves after with
        | none => exact iff_of_true rfl trivial
        | some d =>
          show BitVec.ofInt 32 (runningLine before + d) = 0 ↔ (2 ^ 32 : ℤ) ∣ runningLine before + d
          rw [hzero, ofInt_eq_ofInt_iff]
          omega
      · have hmoves : p.Moves := by
          refine ⟨fun hempty => ?_, hsame, hnone⟩
          have hsz : p.size = 0 := by
            unfold size
            rw [hempty]
            rfl
          omega
        rw [if_pos hmoves, if_neg hnone, if_neg hsame, if_neg hnone]
        exact iff_of_true rfl trivial

/-- Three ranges, each a line further. -/
theorem walkLineTable_steps :
    ∃ before p after, Covers size [(4, 1), (2, 1), (6, 1)] 5 before p after ∧
      (walkLineTable ([((4, 1) : LinePair), (2, 1), (6, 1)].flatMap encode) 5 =
          .ok (rangeLine before p) ↔
        RangeFound 5 before p after) :=
  walkLineTable_iff [(4, 1), (2, 1), (6, 1)] (by decide) 5 (by decide)

/-- A range of 258 addresses has two pairs. Address 255 of line 1 is found on line 2. -/
theorem walkLineTable_split_range :
    walkLineTable ([((254, 1) : LinePair), (4, 0), (2, 1)].flatMap encode) 255 ≠
      .ok (rangeLine [(254, 1)] (4, 0)) := by
  intro heq
  cases heq

end EbpfProfiler.Interpreter.Python
