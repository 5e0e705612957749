import EbpfProfiler.ElfUnwind.GoPclntab

/-!
# Extracting the stack deltas of a file

`extractFile` (`stackdeltaextraction.go`) and the sources of its blocks.
-/

namespace EbpfProfiler.ElfUnwind

open Lib StackDeltas

/-! ## Entry stubs -/

/-- The instructions that `detectEntryX86` and `detectEntryARM` tell apart. -/
inductive EntryOp
  | allowed
  | branch
  | other
  deriving DecidableEq

/-- The disassemblers: kind and length of the first instruction. Allowed are `MOV`, `LEA`, `XOR`
on x86-64 and `ADD`, `ADRP`, `AND`, `LDR`, `MOV`, `MOVK`, `MOVZ` on aarch64, where each has four
bytes. -/
structure Disassembler where
  decodeX86 : List Byte → Option (EntryOp × ℕ)
  decodeArm64 : List Byte → Option EntryOp

/-- The loop of `detectEntryX86`. -/
def scanEntryX86 (d : Disassembler) (code : List Byte) : ℕ → ℕ → ℕ
  | 0, _ => 0
  | fuel + 1, pos =>
    if code.length ≤ pos then 0
    else
      match d.decodeX86 (code.drop pos) with
      | none => 0
      | some (.allowed, len) => scanEntryX86 d code fuel (pos + len)
      | some (.branch, len) => pos + len
      | some (.other, _) => 0

/-- `detectEntryX86`. An instruction has at least one byte. -/
def detectEntryX86 (d : Disassembler) (code : List Byte) : ℕ :=
  if code.length < 32 ∨
      code.take 9 ≠ [0x48, 0x31, 0xed, 0x48, 0x89, 0xe7, 0x48, 0x8d, 0x35] ∨
      slice code 13 22 ≠ [0x48, 0x83, 0xe4, 0xf0, 0xe8, 0x00, 0x00, 0x00, 0x00] then 0
  else scanEntryX86 d code code.length 22

/-- The loop of `detectEntryARM`. -/
def scanEntryARM (d : Disassembler) (code : List Byte) : ℕ → ℕ → ℕ → ℕ
  | 0, _, _ => 0
  | fuel + 1, pos, numBranch =>
    if code.length ≤ pos then 0
    else
      match d.decodeArm64 (code.drop pos) with
      | none | some .other => 0
      | some .allowed => scanEntryARM d code fuel (pos + 4) numBranch
      | some .branch =>
        if numBranch + 1 = 2 then pos + 4 else scanEntryARM d code fuel (pos + 4) (numBranch + 1)

def detectEntryARM (d : Disassembler) (code : List Byte) : ℕ :=
  if code.length < 32 ∨ code.take 8 ≠ [0x1d, 0x00, 0x80, 0xd2, 0x1e, 0x00, 0x80, 0xd2] then 0
  else scanEntryARM d code code.length 8 0

def detectEntryCode (d : Disassembler) (machine : Machine) (code : List Byte) : ℕ :=
  match machine with
  | .x86_64 => detectEntryX86 d code
  | .aarch64 => detectEntryARM d code
  | .other _ => 0

def detectEntry (d : Disassembler) (ef : ElfFile) : ℕ :=
  if ef.entry = 0 then 0
  else
    match ef.virtualMemory ef.entry 128 with
    | .error _ => 0
    | .ok code => detectEntryCode d ef.machine code

/-! ## Files -/

def isLibGenericRegsAllowed (elfFile : ElfFile) : Bool :=
  match elfFile.soNames with
  | some [n] => n.startsWith "libcrypto.so." || n.startsWith "libc.so." || n.startsWith "ld-linux-"
  | _ => false

def numBlocksToOmitDebugLink : ℕ := 8

/-- The surroundings of `extractFile`: disassemblers, `slices.SortFunc`, and the debug file. -/
structure ExtractEnv where
  disassembler : Disassembler
  sort : List BasicBlock → List BasicBlock
  hasRef : Bool
  openDebugLink : Option ElfFile

def entryExtraction (env : ExtractEnv) (elfFile : ElfFile) : Extraction :=
  let empty : Extraction := ⟨⟨[], 0, 0, []⟩, ⟨0, []⟩, {}⟩
  let entryLength := detectEntry env.disassembler elfFile
  if entryLength = 0 then empty
  else
    let stop := elfFile.entry + BitVec.ofNat 64 entryLength
    { empty.addBlock ⟨elfFile.entry.toNat, stop.toNat, StackDeltaArray.add [] 0 .stop⟩ with
      filter := { entryStart := elfFile.entry, entryEnd := stop, ehFrames := true } }

/-- `extractDebugDeltas`, if it is called. -/
def extractDebugDeltas (env : ExtractEnv) (ee : ElfExtractor) : Comp Extraction Unit := do
  let s ← Comp.get
  if env.hasRef ∧ s.intervals.blocks.length < numBlocksToOmitDebugLink then
    match env.openDebugLink with
    | none => return ()
    | some debugELF => parseDebugFrame ee debugELF
  else return ()

def parseSources (env : ExtractEnv) (ee : ElfExtractor) : Comp Extraction Unit := do
  Comp.wrapError "failure to parse golang stack deltas" (parseGoPclntab ee)
  Comp.wrapError "failure to parse eh_frame stack deltas" (parseEHFrame ee)
  Comp.wrapError "failure to parse debug_frame stack deltas" (parseDebugFrame ee ee.file)
  Comp.wrapError "failure to parse debug stack deltas" (extractDebugDeltas env ee)

def extractFile (env : ExtractEnv) (elfFile : ElfFile) : Except Fault IntervalData :=
  let ee : ElfExtractor := ⟨elfFile, isLibGenericRegsAllowed elfFile⟩
  match (parseSources env ee).exec (entryExtraction env elfFile) with
  | (.error f, _) => .error f
  | (.ok _, s) =>
    .ok (if s.filter.ehFrames then { s.intervals with blocks := env.sort s.intervals.blocks }
      else s.intervals)

end EbpfProfiler.ElfUnwind
