import Mathlib.Algebra.Ring.Nat
import EbpfProfiler.Lib.Bytes

/-!
# Runtime information of Go, as the symbolizer in Rust reads it

The decoders of `symblib/src/gosym/raw`. Sums and products wrap as in a release build.
-/

namespace EbpfProfiler.GoSym

open Lib

/-! ## Readers -/

/-- The errors of `errors.rs` that these decoders return. -/
inductive Error
  | malformedGopclntab
  | unsupportedGoVersion
  | codeSectionNotFound
  | unexpectedEof
  deriving DecidableEq

/-- The versions of the header. -/
inductive Version
  | v12
  | v116
  | v118
  | v120
  deriving DecidableEq

def Version.fromMagic (magic : List Byte) : Except Error Version :=
  if magic = [0xfb, 0xff, 0xff, 0xff] then .ok .v12
  else if magic = [0xfa, 0xff, 0xff, 0xff] then .ok .v116
  else if magic = [0xf0, 0xff, 0xff, 0xff] then .ok .v118
  else if magic = [0xf1, 0xff, 0xff, 0xff] then .ok .v120
  else .error .unsupportedGoVersion

/-- `self >= Version::V118`. -/
def Version.ge118 : Version → Bool
  | .v118 | .v120 => true
  | _ => false

/-- `Header`, with the values that `Header::read` lets through. -/
structure Header where
  version : Version
  quantum : ℕ
  ptrSize : ℕ
  quantum_eq : quantum = 1 ∨ quantum = 2 ∨ quantum = 4
  ptrSize_eq : ptrSize = 4 ∨ ptrSize = 8
  deriving DecidableEq

def Header.read (sec : List Byte) : Except Error Header :=
  if sec.length < 16 ∨ sec.getD 4 0 ≠ 0 ∨ sec.getD 5 0 ≠ 0 then .error .malformedGopclntab
  else
    match Version.fromMagic (sec.take 4) with
    | .error err => .error err
    | .ok version =>
      let quantum := (sec.getD 6 0).toNat
      let ptrSize := (sec.getD 7 0).toNat
      if hquantum : quantum = 1 ∨ quantum = 2 ∨ quantum = 4 then
        if hptr : ptrSize = 4 ∨ ptrSize = 8 then .ok ⟨version, quantum, ptrSize, hquantum, hptr⟩
        else .error .malformedGopclntab
      else .error .malformedGopclntab

/-- `Reader`. A slice has fewer than `2 ^ 63` bytes. -/
structure Reader where
  header : Header
  addr : BitVec 64
  data : List Byte
  length_lt : data.length < 2 ^ 63
  deriving DecidableEq

namespace Reader

/-- `sub_reader(n..)`. -/
def subFrom (r : Reader) (n : ℕ) : Except Error Reader :=
  if n ≤ r.data.length then
    .ok ⟨r.header, r.addr + BitVec.ofNat 64 n, r.data.drop n,
      Nat.lt_of_le_of_lt (List.length_drop ▸ Nat.sub_le _ _) r.length_lt⟩
  else .error .unexpectedEof

/-- `sub_reader(..n)`. -/
def subTo (r : Reader) (n : ℕ) : Except Error Reader :=
  if n ≤ r.data.length then
    .ok ⟨r.header, r.addr, r.data.take n, Nat.lt_of_le_of_lt (List.length_take_le' _ _) r.length_lt⟩
  else .error .unexpectedEof

def skip (r : Reader) (n : ℕ) : Reader :=
  ⟨r.header, r.addr + BitVec.ofNat 64 n, r.data.drop n,
    Nat.lt_of_le_of_lt (List.length_drop ▸ Nat.sub_le _ _) r.length_lt⟩

def alignUp (r : Reader) : Reader :=
  let dangling := r.addr.toNat % r.header.ptrSize
  if dangling ≠ 0 then r.skip (r.header.ptrSize - dangling) else r

/-- `u8`, `u32` and `u64`: a little-endian number of `n` bytes, and the rest. -/
def uint (n : ℕ) (r : Reader) : Except Error (ℕ × Reader) :=
  if r.data.length < n then .error .unexpectedEof
  else .ok (leNat (r.data.take n), r.skip n)

def uintptr (r : Reader) : Except Error (ℕ × Reader) := r.uint r.header.ptrSize

end Reader

/-- `CodePtr`: an address, or an offset from the start of the code. -/
inductive CodePtr
  | addr (addr : BitVec 64)
  | offs (offset : BitVec 64)
  deriving DecidableEq

def CodePtr.resolve (textStart : BitVec 64) : CodePtr → BitVec 64
  | .addr a => a
  | .offs o => textStart + o

def Reader.codePtr (r : Reader) : Except Error (CodePtr × Reader) :=
  if r.header.version.ge118 then do
    let (offset, r) ← r.uint 4
    return (.offs (BitVec.ofNat 64 offset), r)
  else do
    let (addr, r) ← r.uintptr
    return (.addr (BitVec.ofNat 64 addr * BitVec.ofNat 64 r.header.quantum), r)

/-! ## Records -/

/-- The fields of the header. -/
structure HeaderOffsets where
  numFuncs : BitVec 64
  numFiles : BitVec 64
  textStart : Option (BitVec 64)
  funcnameOffset : BitVec 64
  cutabOffset : BitVec 64
  filetabOffset : BitVec 64
  pctabOffset : BitVec 64
  pclnOffset : BitVec 64
  deriving DecidableEq

def HeaderOffsets.new (r : Reader) : Except Error HeaderOffsets := do
  let (numFuncs, r) ← (r.skip 8).uintptr
  let (numFiles, r) ← r.uintptr
  let (textStart, r) ← if r.header.version.ge118 then do
      let (textStart, r) ← r.uintptr
      pure (some (BitVec.ofNat 64 textStart), r)
    else pure (none, r)
  let (funcnameOffset, r) ← r.uintptr
  let (cutabOffset, r) ← r.uintptr
  let (filetabOffset, r) ← r.uintptr
  let (pctabOffset, r) ← r.uintptr
  let (pclnOffset, _) ← r.uintptr
  return ⟨BitVec.ofNat 64 numFuncs, BitVec.ofNat 64 numFiles, textStart,
    BitVec.ofNat 64 funcnameOffset,
    BitVec.ofNat 64 cutabOffset, BitVec.ofNat 64 filetabOffset, BitVec.ofNat 64 pctabOffset,
    BitVec.ofNat 64 pclnOffset⟩

/-- `FuncTabIndexEntry`: where a function starts, and the offset of its record. -/
structure FuncTabIndexEntry where
  entry : CodePtr
  funcoff : BitVec 64
  deriving DecidableEq

namespace FuncTabIndexEntry

def sizeOf (h : Header) : ℕ := if h.version.ge118 then 2 * 4 else h.ptrSize * 2

def read (r : Reader) : Except Error FuncTabIndexEntry := do
  let (entry, r) ← r.codePtr
  let (funcoff, _) ← if r.header.version.ge118 then r.uint 4 else r.uintptr
  return ⟨entry, BitVec.ofNat 64 funcoff⟩

end FuncTabIndexEntry

/-- `Func`, the record of a function. -/
structure Func where
  funcPc : CodePtr
  name : BitVec 32
  pcfile : BitVec 32
  pcln : BitVec 32
  cuOffset : BitVec 32
  startLine : Option (BitVec 32)
  pcData : Reader
  funcData : Reader
  deriving DecidableEq

def Func.read (r : Reader) : Except Error Func := do
  let (funcPc, r) ← r.codePtr
  let (name, r) ← r.uint 4
  let (pcfile, r) ← (r.skip (4 * 3)).uint 4
  let (pcln, r) ← r.uint 4
  let (npcdata, r) ← r.uint 4
  let (cuOffset, r) ← r.uint 4
  let (startLine, r) ← if r.header.version = .v120 then do
      let (startLine, r) ← r.uint 4
      pure (some (BitVec.ofNat 32 startLine), r)
    else pure (none, r)
  -- flags, function id and a byte of padding
  let (nfuncdata, r) ← (r.skip 3).uint 1
  let pcData ← r.subTo (4 * npcdata)
  let r := r.skip (4 * npcdata)
  let (offsSize, r) := if r.header.version.ge118 then (4, r) else (r.header.ptrSize, r.alignUp)
  let funcData ← r.subTo (offsSize * nfuncdata)
  return ⟨funcPc, BitVec.ofNat 32 name, BitVec.ofNat 32 pcfile, BitVec.ofNat 32 pcln,
    BitVec.ofNat 32 cuOffset, startLine, pcData, funcData⟩

/-! ## The function table -/

/-- The table of functions. -/
structure FuncTable where
  reader : Reader
  numFuncs : BitVec 64
  deriving DecidableEq

namespace FuncTable

def new (o : HeaderOffsets) (gopclntab : Reader) : Except Error FuncTable := do
  let reader ← gopclntab.subFrom o.pclnOffset.toNat
  return ⟨reader, o.numFuncs⟩

def func (t : FuncTable) (offs : BitVec 64) : Except Error Func := do
  Func.read (← t.reader.subFrom offs.toNat)

def entryAt (t : FuncTable) (pos : ℕ) : Except Error FuncTabIndexEntry := do
  FuncTabIndexEntry.read (← t.reader.subFrom pos)

/-- `FuncTabIndexEntry::size_of` for this table. -/
def entrySize (t : FuncTable) : ℕ := FuncTabIndexEntry.sizeOf t.reader.header

/-- The function of an entry that was found. -/
def found (t : FuncTable) (funcoff : BitVec 64) : Except Error (Option Func) := do
  return some (← t.func funcoff)

/-- The loop of `func_by_addr`. Each round shrinks the window. -/
def searchLoop (t : FuncTable) (textStart addr : BitVec 64) : ℕ → ℕ → ℕ → Except Error (Option Func)
  | 0, _, _ => .ok none
  | fuel + 1, left, right =>
    if left < right then do
      let mid := (left + (right - left) / 2) / t.entrySize * t.entrySize
      let entry ← t.entryAt mid
      if addr < entry.entry.resolve textStart then
        t.searchLoop textStart addr fuel left mid
      else if mid + t.entrySize < right then do
        let next ← t.entryAt (mid + t.entrySize)
        if next.entry.resolve textStart ≤ addr then
          t.searchLoop textStart addr fuel (mid + t.entrySize) right
        else t.found entry.funcoff
      else t.found entry.funcoff
    else .ok none

def funcByAddr (t : FuncTable) (textStart addr : BitVec 64) : Except Error (Option Func) :=
  let right := t.numFuncs.toNat * t.entrySize % 2 ^ 64
  t.searchLoop textStart addr t.numFuncs.toNat 0 right

end FuncTable

/-- `GoRuntimeInfo`, as far as functions are looked up by address. -/
structure GoRuntimeInfo where
  textStart : BitVec 64
  funcTable : FuncTable
  deriving DecidableEq

namespace GoRuntimeInfo

/-- `open` behind `find_gopclntab`; the start of `.text` replaces one missing in the header. -/
def ofSection (va : BitVec 64) (gopclntab : List Byte) (hlen : gopclntab.length < 2 ^ 63)
    (textSection : Option (BitVec 64)) : Except Error GoRuntimeInfo := do
  let header ← Header.read gopclntab
  let reader : Reader := ⟨header, va, gopclntab, hlen⟩
  let offsets ← HeaderOffsets.new reader
  if header.version = .v12 then .error .unsupportedGoVersion
  else
    let fallback : Except Error (BitVec 64) := match textSection with
      | some addr => .ok addr
      | none => .error .codeSectionNotFound
    let textStart ← match offsets.textStart with
      | some start => if start ≠ 0 then .ok start else fallback
      | none => fallback
    let funcTable ← FuncTable.new offsets reader
    return ⟨textStart, funcTable⟩

def findFunc (rt : GoRuntimeInfo) (addr : BitVec 64) : Except Error (Option Func) :=
  rt.funcTable.funcByAddr rt.textStart addr

end GoRuntimeInfo

end EbpfProfiler.GoSym
