import EbpfProfiler.ElfUnwind.Registers
import EbpfProfiler.Lib.Bytes

/-!
# What the extraction asks of an ELF file

The answers of `pfelf.File` are the fields of `ElfFile`, and may be any.
-/

namespace EbpfProfiler.ElfUnwind

open Lib

/-- `pfelf.Section`: the fields that are used, and what `Data` returns. -/
structure Section where
  noBits : Bool
  compressed : Bool
  offset : Word
  size : Word
  addr : Word
  data : Except String (List Byte)

/-- `pfelf.Prog`: the fields that are used, and what `Data` returns. -/
structure Prog where
  isLoad : Bool
  isGnuEhFrame : Bool
  readable : Bool
  executable : Bool
  off : Word
  vaddr : Word
  filesz : Word
  data : Except String (List Byte)

/-- `pfelf.File`. -/
structure ElfFile where
  machine : Machine
  entry : Word
  insideCore : Bool
  /-- `Underlying`: the bytes of the file. -/
  underlying : List Byte
  /-- `Section`. -/
  findSection : String → Option Section
  progs : List Prog
  /-- `ProgByVirtualAddress`. -/
  progByVirtualAddress : Word → Option Prog
  /-- `VirtualMemory`, of an address and a size. -/
  virtualMemory : Word → ℕ → Except String (List Byte)
  /-- `DynString(DT_SONAME)`. -/
  soNames : Option (List String)
  /-- The symbols `runtime.pclntab` and `runtime.epclntab`, zero where there is none. -/
  pclntabSymbols : Word × Word
  /-- `ReadAt` of eight bytes of the section `.go.module` at the offset of `text`. -/
  moduleText : Except String Word
  /-- The Go version is not known, or is before `go1.21rc1`. -/
  goVersionOld : Bool

/-- A part of the file and its address. -/
structure ElfRegion where
  offset : Word := 0
  length : Word := 0
  vaddr : Word := 0
  deriving DecidableEq

def ElfRegion.valid (r : ElfRegion) : Bool := BitVec.slt 0 r.length

def elfRegionFromSection : Option Section → ElfRegion
  | none => {}
  | some s => if s.noBits || s.compressed then {} else ⟨s.offset, s.size, s.addr⟩

/-- `ProgByType(PT_GNU_EH_FRAME)`. -/
def ElfFile.ehFrameProg (ef : ElfFile) : Option Prog := ef.progs.find? (·.isGnuEhFrame)

end EbpfProfiler.ElfUnwind
