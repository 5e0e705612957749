import EbpfProfiler.Lib.Comp
import EbpfProfiler.Lib.Bytes
import EbpfProfiler.Wire.EbpfFrame

/-!
# Baseline code of V8

No check keeps the opcode behind a scaling prefix in its row of the size table (`nodev8/v8.go`).
-/

namespace EbpfProfiler.Interpreter.V8

open Lib
open Wire (Word)

/-- The sizes of the bytecodes, in three rows. -/
structure BytecodeTable where
  sizes : Option (List Byte)
  count : ℕ

/-- The loader's part for the content of the symbol `kBytecodeSizes`. -/
def loadBytecodeSizes : Option (List Byte) → BytecodeTable
  | none => ⟨none, 0⟩
  | some sizes =>
    if sizes.length % 3 = 0 ∧ sizes.length < 3 * 256 then
      if ∃ n ∈ sizes, n.toNat ≤ 0 ∨ 32 ≤ n.toNat then ⟨none, 0⟩
      else ⟨some sizes, sizes.length / 3⟩
    else ⟨none, 0⟩

/-- The numbers that `decodeUVLQ` reads, up to the end or a cut. -/
def decodeUVLQs (decoded : Word) (shift : ℕ) : List Byte → List Word
  | [] => []
  | cur :: r =>
    let decoded := decoded ||| (cur &&& 0x7f).setWidth 64 <<< shift
    if cur &&& 0x80 = 0 then decoded :: decodeUVLQs 0 0 r else decodeUVLQs decoded (shift + 7) r

/-- Where the row of a prefix starts. -/
def scaleOffset (count : ℕ) (opcode : Byte) : ℕ :=
  if opcode = 0x00 ∨ opcode = 0x02 then count
  else if opcode = 0x01 ∨ opcode = 0x03 then 2 * count
  else 0

/-- The size of the prefix and the index of the opcode, or an early return. -/
def sizeIndex (count : ℕ) (code : List Byte) (pos : ℕ) : Except ℤ (ℕ × ℕ) := do
  let some opcode := code[pos]? | .error 0
  let scale := scaleOffset count opcode
  let prefixSize := if scale = 0 then 0 else 1
  -- without a prefix this is the first opcode again
  let some opcode := code[pos + prefixSize]? | .error (-1)
  if opcode.toNat ≤ 0x03 ∧ count < opcode.toNat then .error (-1)
  else .ok (prefixSize, scale + opcode.toNat)

/-- `readBytecodeLength`: the length by which the reader moves, behind the opcode and its prefix. -/
def readBytecodeLength (sizes : List Byte) (count : ℕ) (code : List Byte) (pos : ℕ) :
    Except Fault ℤ :=
  match sizeIndex count code pos with
  | .error ret => .ok ret
  | .ok (prefixSize, i) =>
    match sizes[i]? with
    | none => .error (.panic "index out of range")
    | some opcodeLength => .ok (prefixSize + opcodeLength.toNat)

section
variable (sizes : List Byte) (count : ℕ) (code : List Byte) (pcDelta : BitVec 32)

/-- The loop of `mapBaselineCodeOffsetToBytecode` over the position table. -/
def baselineLoop : List Word → Word → ℕ → BitVec 32 → Except Fault (BitVec 32)
  | [], _, _, _ => .ok 0
  | pcLen :: pcLens, pcOffset, pos, bytecodeOffset =>
    if pcDelta.toNat < (pcOffset + pcLen).toNat then .ok bytecodeOffset
    else
      match readBytecodeLength sizes count code pos with
      | .error fault => .error fault
      | .ok len =>
        if len ≤ 0 then .ok 0
        else baselineLoop pcLens (pcOffset + pcLen) (pos + len.toNat)
          (bytecodeOffset + BitVec.ofInt 32 len)

/-- The instruction at a position is looked up, from a rest of the position table on. -/
inductive LooksUp : List Word → Word → ℕ → ℕ → Prop
  | here {pcLen pcLens pcOffset pos} (hle : (pcOffset + pcLen).toNat ≤ pcDelta.toNat) :
      LooksUp (pcLen :: pcLens) pcOffset pos pos
  | later {pcLen pcLens pcOffset pos len p} (hle : (pcOffset + pcLen).toNat ≤ pcDelta.toNat)
      (hlen : readBytecodeLength sizes count code pos = .ok len) (hpos : 0 < len)
      (hrest : LooksUp pcLens (pcOffset + pcLen) (pos + len.toNat) p) :
      LooksUp (pcLen :: pcLens) pcOffset pos p

end

/-- The offset of a bytecode, or zero. -/
def mapBaselineCodeOffsetToBytecode
    (d : BytecodeTable) (bytecode codePositionTable : Option (List Byte))
    (pcDelta : BitVec 32) : Except Fault (BitVec 32) :=
  match d.sizes, bytecode, codePositionTable with
  | some sizes, some code, some table =>
    baselineLoop sizes d.count code pcDelta (decodeUVLQs 0 0 table) 0 0 0
  | _, _, _ => .ok 0

variable {sizes code : List Byte} {count pos : ℕ} {pcDelta : BitVec 32}

lemma readBytecodeLength_returns_iff : (∃ len, readBytecodeLength sizes count code pos = .ok len) ↔
    ∀ n i, sizeIndex count code pos = .ok (n, i) → i < sizes.length := by
  unfold readBytecodeLength
  cases hindex : sizeIndex count code pos with
  | error ret => simp
  | ok index =>
    cases hsize : sizes[index.2]? with
    | none => simpa [hsize, Prod.ext_iff] using List.getElem?_eq_none_iff.1 hsize
    | some size => simpa [hsize, Prod.ext_iff] using (List.getElem?_eq_some_iff.1 hsize).1

lemma baselineLoop_returns_iff {pcLens : List Word} {pcOffset : Word} {off : BitVec 32} :
    (∃ ret, baselineLoop sizes count code pcDelta pcLens pcOffset pos off = .ok ret) ↔
      ∀ p, LooksUp sizes count code pcDelta pcLens pcOffset pos p →
        ∃ len, readBytecodeLength sizes count code p = .ok len := by
  induction pcLens generalizing pcOffset pos off with
  | nil => exact iff_of_true ⟨0, rfl⟩ nofun
  | cons pcLen pcLens ih =>
    unfold baselineLoop
    by_cases hlt : pcDelta.toNat < (pcOffset + pcLen).toNat
    · rw [if_pos hlt]
      refine iff_of_true ⟨off, rfl⟩ fun p hp => ?_
      cases hp <;> omega
    rw [if_neg hlt]
    have hhere : LooksUp sizes count code pcDelta (pcLen :: pcLens) pcOffset pos pos :=
      .here (not_lt.1 hlt)
    cases hread : readBytecodeLength sizes count code pos with
    | error fault =>
      refine iff_of_false nofun fun h => ?_
      obtain ⟨len, hlen⟩ := h pos hhere
      cases hread.symm.trans hlen
    | ok len =>
      dsimp only
      by_cases hle : len ≤ 0
      · rw [if_pos hle]
        refine iff_of_true ⟨0, rfl⟩ fun p hp => ?_
        cases hp with
        | here => exact ⟨len, hread⟩
        | later _ hlen hpos =>
          cases hread.symm.trans hlen
          omega
      · rw [if_neg hle, ih]
        refine ⟨fun h p hp => ?_, fun h p hp => h p (.later (not_lt.1 hlt) hread (by omega) hp)⟩
        cases hp with
        | here => exact ⟨len, hread⟩
        | later _ hlen _ hrest =>
          cases hread.symm.trans hlen
          exact h p hrest

/-- The walk returns exactly when every instruction looked up has a size. -/
theorem mapBaselineCodeOffsetToBytecode_returns_iff
    (sym bytecode codePositionTable : Option (List Byte)) (pcDelta : BitVec 32) :
    (∃ ret,
      mapBaselineCodeOffsetToBytecode (loadBytecodeSizes sym) bytecode codePositionTable pcDelta =
        .ok ret) ↔
      ∀ sizes ∈ (loadBytecodeSizes sym).sizes, ∀ code ∈ bytecode, ∀ table ∈ codePositionTable,
        ∀ p, LooksUp sizes (loadBytecodeSizes sym).count code pcDelta
          (decodeUVLQs 0 0 table) 0 0 p →
          ∀ n i, sizeIndex (loadBytecodeSizes sym).count code p = .ok (n, i) →
            i < sizes.length := by
  unfold mapBaselineCodeOffsetToBytecode
  cases (loadBytecodeSizes sym).sizes with
  | none => simp
  | some sizes =>
    cases bytecode with
    | none => simp
    | some code =>
      cases codePositionTable with
      | none => simp
      | some table =>
        simp [baselineLoop_returns_iff, readBytecodeLength_returns_iff]

/-- `ExtraWide` in front of an opcode that a table of one opcode does not have. -/
theorem mapBaselineCodeOffsetToBytecode_extraWide : (loadBytecodeSizes (some [1, 2, 4])).count = 1 ∧
    mapBaselineCodeOffsetToBytecode (loadBytecodeSizes (some [1, 2, 4])) (some [0x01, 0x05])
      (some [0]) 0 = .error (.panic "index out of range") := by
  decide

end EbpfProfiler.Interpreter.V8
