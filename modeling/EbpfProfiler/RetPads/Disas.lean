import EbpfProfiler.Lib.Bytes
import EbpfProfiler.SymbConv.CovMap
import EbpfProfiler.SymbFile.Proto

/-!
# Code of an executable and its instructions

The memory map of `objfile.rs` and the decoders of `disas.rs`; the one for x86-64 is a library, of
which only the contract is known.
-/

namespace EbpfProfiler.RetPads

open Lib
open SymbFile (U32 U64)

/-! ## Memory map -/

/-- `Section`. The virtual size may be larger than the data. -/
structure Section where
  virtAddr : U64
  virtSize : U64
  data : List Byte

/-- `MemoryMap`, the sections by their addresses. -/
abbrev MemoryMap := List Section

namespace MemoryMap

def sectionForAddr (mem : MemoryMap) (addr : U64) : Option Section :=
  let idx? := match SymbConv.binarySearch (mem.map (·.virtAddr.toNat)) addr.toNat with
    | .ok idx => some idx
    | .error 0 => none
    | .error (idx + 1) => some idx
  idx?.bind fun idx => mem[idx]?.bind fun region =>
    if region.virtSize > addr - region.virtAddr then some region else none

def sliceForAddr (mem : MemoryMap) (addr : U64) (length : U64) : Option (List Byte) :=
  (sectionForAddr mem addr).bind fun region =>
    let offset := addr - region.virtAddr
    if offset.toNat + length.toNat > region.virtSize.toNat then none
    else some ((region.data.drop offset.toNat).take length.toNat)

end MemoryMap

/-! ## Instructions -/

/-- `disas::Error`. -/
inductive DisasError
  | truncatedInstruction (addr : U64)
  | invalidInstruction (addr : U64)
  | other
  deriving DecidableEq

/-- What is known of an instruction. -/
structure InstrInfo where
  addr : U64
  isCall : Bool
  length : BitVec 8
  deriving DecidableEq

def InstrInfo.stop (i : InstrInfo) : U64 := i.addr + i.length.setWidth 64

/-- A decoder that makes progress. -/
structure InstrDecoder where
  decode : U64 → List Byte → Except DisasError InstrInfo
  addr_eq : ∀ {addr buf i}, decode addr buf = .ok i → i.addr = addr
  length_pos : ∀ {addr buf i}, decode addr buf = .ok i → 0 < i.length.toNat
  length_le : ∀ {addr buf i}, decode addr buf = .ok i → i.length.toNat ≤ buf.length

/-- `Aarch64InstrDecoder::decode`: `BL`, `BLR` and `SVC` are calls. -/
def decodeAarch64 (addr : U64) (buf : List Byte) : Except DisasError InstrInfo :=
  if buf.length < 4 then .error (.truncatedInstruction addr)
  else
    let insn := BitVec.ofNat 32 (leNat (buf.take 4))
    let isBl :=
      insn &&& 0b11111100000000000000000000000000#32 = 0b10010100000000000000000000000000#32
    let isBlr :=
      insn &&& 0b11111111111111111111110000011111#32 = 0b11010110001111110000000000000000#32
    let isSvc :=
      insn &&& 0b11111111111000000000000000011111#32 = 0b11010100000000000000000000000001#32
    .ok ⟨addr, isBl ∨ isBlr ∨ isSvc, 4⟩

variable {addr : U64} {buf : List Byte}

lemma decodeAarch64_ok {i : InstrInfo}
    (h : decodeAarch64 addr buf = .ok i) : i.addr = addr ∧ i.length = 4 ∧ 4 ≤ buf.length := by
  rw [decodeAarch64] at h
  split at h
  · cases h
  · rename_i hlen
    have hi := Except.ok.inj h
    subst hi
    exact ⟨rfl, rfl, Nat.le_of_not_lt hlen⟩

def aarch64InstrDecoder : InstrDecoder where
  decode := decodeAarch64
  addr_eq h := (decodeAarch64_ok h).1
  length_pos h := by
    rw [(decodeAarch64_ok h).2.1]
    decide
  length_le h := by
    rw [(decodeAarch64_ok h).2.1]
    exact (decodeAarch64_ok h).2.2

/-- The items of `decode_all` up to its first error; each instruction takes a byte. -/
def decodeLoop (decoder : InstrDecoder) : ℕ → U64 → List Byte → List InstrInfo × Option DisasError
  | 0, _, _ => ([], none)
  | fuel + 1, addr, buf =>
    if buf.isEmpty then ([], none)
    else
      match decoder.decode addr buf with
      | .error err => ([], some err)
      | .ok insn =>
        let (insns, err) := decodeLoop decoder fuel insn.stop (buf.drop insn.length.toNat)
        (insn :: insns, err)

def decodeAll (decoder : InstrDecoder) (addr : U64) (buf : List Byte) :
    List InstrInfo × Option DisasError :=
  decodeLoop decoder buf.length addr buf

lemma head?_decodeAll {decoder : InstrDecoder} (h : (decodeAll decoder addr buf).2 = none) :
    (decodeAll decoder addr buf).1.head? = (decoder.decode addr buf).toOption := by
  rw [decodeAll] at h ⊢
  cases buf with
  | nil =>
    cases hfirst : decoder.decode addr [] with
    | error err => rfl
    | ok insn =>
      -- an instruction is not empty
      have hpos := decoder.length_pos hfirst
      have hle := decoder.length_le hfirst
      exact absurd (lt_of_lt_of_le hpos hle) (lt_irrefl 0)
  | cons b buf =>
    rw [List.length_cons, decodeLoop] at h ⊢
    cases hfirst : decoder.decode addr (b :: buf) with
    | error err =>
      rw [hfirst] at h
      cases h
    | ok insn => rfl

end EbpfProfiler.RetPads
