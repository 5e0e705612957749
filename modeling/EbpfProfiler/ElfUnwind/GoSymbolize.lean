import EbpfProfiler.ElfUnwind.GoPclntab
import EbpfProfiler.Lib.Bisect

/-!
# Symbols of a Go binary

`Symbolize` (`elfgopclntab.go`) finds function, file and line of an address.
-/

namespace EbpfProfiler.ElfUnwind

open Lib

def getInt32 (data : List Byte) (offset : ℤ) : ℤ :=
  if offset < 0 ∨ data.length < offset + 4 then -1
  else (BitVec.ofNat 32 (numAt data offset.toNat 4)).toInt

def getString (data : List Byte) (offset : ℤ) : List Byte :=
  if offset < 0 ∨ data.length < offset then []
  else
    match (data.drop offset.toNat).idxOf? 0 with
    | none => []
    | some zeroIdx => (data.drop offset.toNat).take zeroIdx

/-- The loop of `mapPcval`. Each row takes bytes of the table. -/
def PcVal.valueAt (pc : Word) : ℕ → PcVal → Option (BitVec 32)
  | 0, _ => none
  | fuel + 1, p =>
    if p.pcEnd ≤ pc then
      match p.step with
      | none => none
      | some p => PcVal.valueAt pc fuel p
    else some p.val

/-- What `Symbolize` returns. -/
structure GoSymbol where
  sourceFile : List Byte := []
  line : Word := 0
  funcName : List Byte := []
  deriving DecidableEq

namespace Gopclntab

def mapPcval (g : Gopclntab) (offs : BitVec 32) (startPc pc : Word) : Option (BitVec 32) :=
  match g.getPcval offs startPc with
  | .error _ => none
  | .ok p => p.valueAt pc (p.ptr.length + 1)

/-- The name, file and line of a function, from its table values. -/
def symbolFrom (g : Gopclntab) (value : BitVec 32 → Option (BitVec 32)) (fn : Func) : GoSymbol where
  sourceFile :=
    if fn.pcfileOff = 0 then []
    else
      match value fn.pcfileOff with
      | none => []
      | some fileIndex =>
        getString g.filetab (getInt32 g.cutab (4 * (fileIndex + fn.npcData).toInt))
  line := if fn.pclnOff = 0 then 0 else ((value fn.pclnOff).getD 0).signExtend 64
  funcName := getString g.funcnametab fn.nameOff.toInt

def startsAfter (g : Gopclntab) (pc : Word) (i : ℕ) : Except Fault Bool :=
  match g.getFuncMapEntry (BitVec.ofNat 64 i) with
  | .error f => .error f
  | .ok (funcPc, _) => .ok (pc < funcPc)

/-- `sort.Search` over the function table; below zero entries are an empty window. -/
def firstAfter (g : Gopclntab) (pc : Word) : Except Fault ℕ :=
  let entries := g.numFuncs + 1
  search (g.startsAfter pc) 64 0 (if entries.slt 0 then 0 else entries.toNat)

/-- The part of `Symbolize` behind the search, for the function with this index. -/
def symbolOf (g : Gopclntab) (pc : Word) (index : ℕ) : Except Fault GoSymbol :=
  match g.getFuncMapEntry (BitVec.ofNat 64 index) with
  | .error f => .error f
  | .ok (mapPc, funcOff) =>
    match g.getFunc funcOff with
    | none => .ok {}
    | some (funcPc, fn) =>
        .ok (if mapPc ≠ funcPc then {} else g.symbolFrom (g.mapPcval · funcPc pc) fn)

def symbolize (g : Gopclntab) (pc : Word) : Except Fault GoSymbol :=
  match g.firstAfter pc with
  | .error f => .error f
  | .ok 0 => .ok {}
  | .ok (index + 1) =>
    if g.numFuncs.sle (BitVec.ofNat 64 index) then .ok {} else g.symbolOf pc index

end Gopclntab

end EbpfProfiler.ElfUnwind
