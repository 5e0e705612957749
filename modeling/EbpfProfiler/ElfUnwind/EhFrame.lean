import EbpfProfiler.ElfUnwind.CallFrame
import EbpfProfiler.ElfUnwind.File

/-!
# `.eh_frame` and `.debug_frame`

The walk over CIEs and FDEs (`elfehframe.go`). The cache of CIEs is left out: a hit gives what
reading again gives.
-/

namespace EbpfProfiler.ElfUnwind

open Lib StackDeltas

/-! ## Entries -/

/-- `%#x` of an `int64`. -/
def hexInt (w : Word) : String :=
  if w.slt 0 then "-0x" ++ hex (-w).toNat else "0x" ++ hex w.toNat

/-- The end of `parseLengthAndMarker`: the position of the CIE, and the checks. -/
def checkMarker (r : Reader) (length ciePos cieMarker : Word) (size : ℕ) :
    Comp Cursor (Option (ℕ × Word)) := do
  let c ← Comp.get
  let ciePos : Word :=
    if r.debugFrame then if ciePos = cieMarker then -1 else ciePos
    else if ciePos = 0 then -1
    else BitVec.ofNat 64 c.pos - BitVec.ofNat 64 size - ciePos
  if length.slt (BitVec.ofNat 64 size) ∨ ciePos.slt (-2) then
    Comp.error s!"unsupported header {hexInt length}/{hexInt ciePos}"
  else
    return some (length.toNat - size, ciePos)

/-- `parseLengthAndMarker`: the bytes left, and the position of the CIE, negative for a CIE
itself. -/
def parseLengthAndMarker (r : Reader) : Comp Cursor (Option (ℕ × Word)) := do
  let length ← Comp.uintLE 4
  if length = 0 then
    return none
  else if length < 0xfffffff0 then
    let ciePos ← Comp.uintLE 4
    checkMarker r (BitVec.ofNat 64 length) (BitVec.ofNat 64 ciePos) 0xffffffff 4
  else if length = 0xffffffff then
    let length ← Comp.uintLE 8
    let ciePos ← Comp.uintLE 8
    checkMarker r (BitVec.ofNat 64 length) (BitVec.ofNat 64 ciePos) (-1) 8
  else
    Comp.error s!"unsupported initial length {hexInt (BitVec.ofNat 64 length)}"

/-- The characters of an augmentation string. -/
def text (bs : List Byte) : String := String.ofList (bs.map fun b => Char.ofNat b.toNat)

/-- The loop over an augmentation string. -/
def augmentationData (r : Reader) (augmentation : List Byte) :
    List Byte → CieInfo → Comp Cursor CieInfo
  | [], cie => return cie
  | ch :: rest, cie =>
    match ch.toNat with
    | 0x4c => do -- 'L'
      let _ ← uint8
      augmentationData r augmentation rest cie
    | 0x52 => do -- 'R'
      let enc ← uint8
      augmentationData r augmentation rest { cie with enc := enc }
    | 0x50 => do -- 'P'
      let enc ← uint8
      let _ ← r.ptr (enc &&& ~~~encIndirect)
      augmentationData r augmentation rest cie
    | 0x53 => augmentationData r augmentation rest { cie with isSignalHandler := true } -- 'S'
    | _ => Comp.error s!"unsupported augmentation string '{text augmentation}'"

/-- The part of `parseCIE` for the augmentation. -/
def parseAugmentation (r : Reader) (augmentation : List Byte) (cie : CieInfo) :
    Comp Cursor CieInfo :=
  match augmentation with
  | [] => return cie
  | first :: letters =>
    if first ≠ 0x7a then -- 'z'
      Comp.error s!"too old augmentation string '{text augmentation}'"
    else do
      let _ ← uleb
      augmentationData r augmentation letters { cie with hasAugmentation := true }

def newVMRegs (machine : Machine) : Comp Cursor VmRegs :=
  match machine with
  | .aarch64 => return .newARM
  | .x86_64 => return .newX86
  | .other m => Comp.panic s!"architecture {m.toNat} is not supported"

/-- `parseCIE` up to the instructions. -/
def parseCIEHeader (r : Reader) : Comp Cursor CieInfo := do
  let ver ← uint8
  if ver ≠ 1 ∧ ver ≠ 3 ∧ ver ≠ 4 then
    Comp.error s!"CIE version {ver.toNat} not supported"
  else
    let augmentation ← Comp.cstring r.bufSize
    if 8 < augmentation.length then
      Comp.error s!"augmentation string too long '{text augmentation}'"
    else
      let c ← Comp.get
      -- CIE version 4 has two more fields
      Comp.set (if ver = 4 then c.discard 2 else c)
      let codeAlign ← uleb
      let dataAlign ← sleb
      -- the return address column
      let _ ← if ver = 1 then (do return (← uint8).setWidth 64) else uleb
      let cie ← parseAugmentation r augmentation ⟨dataAlign, codeAlign, 0, false, false, .newX86⟩
      return { cie with initialState := ← newVMRegs r.machine }

/-- `parseCIE`. Its instructions are executed up to one that moves the location. -/
def parseCIE (r : Reader) (length : ℕ) : Comp Cursor CieInfo :=
  Comp.withSection length do
    let cie ← parseCIEHeader r
    let st ← State.step r cie ⟨0, cie.initialState, []⟩
    return { cie with initialState := st.cur }

/-- `maxBufferSize` (`pfbufio/reader.go`). -/
def maxBufferSize : ℕ := 64 * 1024

/-- The `Seek` of `processCIE`; after its error the reader is at the start of the section. -/
def Reader.seekCIE (r : Reader) (ciePos : ℕ) (c : Cursor) : Cursor :=
  c.seek (if r.start + ciePos < 2 ^ 63 then ciePos else 0)

/-- `processCIE`: the CIE at a position is read with a reader of its own. -/
def processCIE (r : Reader) (ciePos : ℕ) : Comp Cursor CieInfo := fun c =>
  let r := { r with bufSize := 1024 }
  let read : Comp Cursor CieInfo := do
    match ← parseLengthAndMarker r with
    | none => Comp.error "FDE/CIE empty"
    | some (length, marker) =>
      if ¬ marker.slt 0 then Comp.error "unexpected FDE/CIE type" else parseCIE r length
  ((read.exec (r.seekCIE ciePos c)).1, c)

/-! ## The extractor -/

/-- `extractionFilter` (`stackdeltaextraction.go`): the code with `.gopclntab` data, and the entry
stub. -/
structure ExtractionFilter where
  start : Word := 0
  «end» : Word := 0
  entryStart : Word := 0
  entryEnd : Word := 0
  ehFrames : Bool := false
  deriving DecidableEq

/-- `fdeHook`: whether an FDE is used. -/
def ExtractionFilter.fdeHook (f : ExtractionFilter) (ipStart ipLen : Word) :
    Bool × ExtractionFilter :=
  if f.start ≤ ipStart ∧ ipStart + ipLen ≤ f.end then (false, f)
  -- broken FDEs for zero address
  else if ipStart = 0 then (false, f)
  else if f.entryStart < ipStart + ipLen ∧ ipStart ≤ f.entryEnd then (false, f)
  else (true, { f with ehFrames := true })

/-- The state of an extraction: the reader, the blocks so far and the filter. -/
structure Extraction where
  reader : Cursor
  intervals : IntervalData
  filter : ExtractionFilter
  deriving DecidableEq

namespace Extraction

def setReader (c : Cursor) (s : Extraction) : Extraction := { s with reader := c }

/-- `intervals.Add`. -/
def addBlock (s : Extraction) (bb : BasicBlock) : Extraction :=
  { s with intervals := s.intervals.add bb }

end Extraction

def onReader {α : Type} (x : Comp Cursor α) : Comp Extraction α :=
  Comp.zoom Extraction.reader Extraction.setReader x

/-- `elfExtractor`, less what the extraction changes. -/
structure ElfExtractor where
  file : ElfFile
  allowGenericRegs : Bool

/-- `sigretCodeMap`. -/
def sigretCode : Machine → Option (List Byte)
  | .aarch64 => some [0x68, 0x11, 0x80, 0xd2, 0x01, 0x00, 0x00, 0xd4]
  | .x86_64 => some [0x48, 0xc7, 0xc0, 0x0f, 0x00, 0x00, 0x00, 0x0f, 0x05]
  | .other _ => none

def isSignalTrampoline (efCode : ElfFile) (ipStart ipLen : Word) : Bool :=
  match sigretCode efCode.machine with
  | none => false
  | some code =>
    if ipLen ≠ BitVec.ofNat 64 code.length then false
    else
      match efCode.virtualMemory ipStart code.length with
      | .error _ => false
      | .ok fdeCode => fdeCode == code

/-! ## FDEs -/

/-- The loop of `parseFDE`: the recipe of a row is added at the location before its instructions. -/
def fdeRows (r : Reader) (cie : CieInfo) (allowGenericRegs : Bool) :
    ℕ → State → List StackDelta → Comp Cursor (List StackDelta)
  | 0, _, deltas => return deltas
  | fuel + 1, st, deltas => do
    if (← Comp.get).remaining = 0 then
      return deltas
    else
      let next ← st.step r cie
      match next.cur.getUnwindInfo allowGenericRegs with
      | none => Comp.panic "architecture is not supported"
      | some info =>
        fdeRows r cie allowGenericRegs fuel next
          (StackDeltaArray.add deltas (st.loc.toNat % 2 ^ 32) info)

def fdeDeltas (ee : ElfExtractor) (r : Reader) (cie : CieInfo) (ipStart ipLen : Word) :
    Comp Cursor (List StackDelta) := do
  if cie.isSignalHandler || isSignalTrampoline ee.file ipStart ipLen then
    return StackDeltaArray.add [] 0 .signal
  else
    fdeRows r cie ee.allowGenericRegs (← Comp.get).remaining ⟨0, cie.initialState, []⟩ []

def fdeHeader (r : Reader) (cie : CieInfo) : Comp Cursor (Word × Word) := do
  let ipStart ← r.ptr cie.enc
  let ipLen ← r.ptr (if cie.enc &&& encIndirect ≠ 0 then cie.enc
    else cie.enc &&& (encFormatMask ||| encSignedMask))
  if cie.hasAugmentation then
    discardUleb
  return (ipStart, ipLen)

/-- `parseFDE` inside its section. -/
def fdeBody (ee : ElfExtractor) (r : Reader) (cie : CieInfo) : Comp Extraction Unit := do
  let (ipStart, ipLen) ← onReader (fdeHeader r cie)
  let s ← Comp.get
  let (keep, filter) := s.filter.fdeHook ipStart ipLen
  if keep then
    Comp.set { s with filter := filter }
    let deltas ← onReader (fdeDeltas ee r cie ipStart ipLen)
    let s ← Comp.get
    Comp.set (s.addBlock ⟨ipStart.toNat, (ipStart + ipLen).toNat, deltas⟩)
  else
    return ()

/-- `parseFDE`, for an FDE that is not found through a search table. -/
def parseFDE (ee : ElfExtractor) (r : Reader) (n : ℕ) (cie : CieInfo) : Comp Extraction Unit := do
  onReader (Comp.startSection n)
  Comp.deferring (onReader Comp.endSection) (fdeBody ee r cie)

/-- One round of the loop of `walkFDEs`; the result is whether there is another one. -/
def walkEntry (ee : ElfExtractor) (r : Reader) : Comp Extraction Bool := do
  let id := hexInt (BitVec.ofNat 64 (← Comp.get).reader.pos)
  match ← Comp.wrapError s!"failed to parse CIE/FDE near {id}"
      (onReader (parseLengthAndMarker r)) with
  | none => return false
  | some (n, ciePos) =>
    if ciePos.slt 0 then
      let _ ← Comp.wrapError s!"failed to parse CIE {id}" (onReader (parseCIE r n))
      return true
    else
      let cie ← Comp.wrapError s!"failed to parse FDE {id}: CIE {hexInt ciePos}"
        (onReader (processCIE r ciePos.toNat))
      Comp.wrapError s!"failed to parse FDE {id}" (parseFDE ee r n cie)
      return true

/-- The loop of `walkFDEs`. An entry takes the bytes of its length, or is the last one. -/
def walkLoop (ee : ElfExtractor) (r : Reader) : ℕ → Comp Extraction Unit
  | 0 => return ()
  | fuel + 1 => do
    if (← Comp.get).reader.remaining = 0 then
      return ()
    else if ← walkEntry ee r then
      walkLoop ee r fuel
    else
      return ()

def walkFDEs (ee : ElfExtractor) (ef : ElfFile) (frames : ElfRegion) (debugFrame : Bool) :
    Comp Extraction Unit := do
  onReader (Comp.set (Cursor.init ef.underlying frames.offset.toNat frames.length.toNat))
  walkLoop ee ⟨ef.machine, debugFrame, frames.vaddr, frames.offset.toNat, maxBufferSize⟩
    frames.length.toNat

/-! ## Sections -/

/-- `readEhframe` through the header of `.eh_frame_hdr`. -/
def readEhframeHdr (ef : ElfFile) (header : ElfRegion) : Comp Cursor ElfRegion := do
  Comp.set (Cursor.init ef.underlying header.offset.toNat 20)
  let c ← Comp.get
  if c.available = 0 then
    Comp.error "EOF"
  else
    let hdr := c.ahead (min 4 c.available)
    Comp.set (c.discard 4)
    if hdr[0]? ≠ some 1 then
      Comp.error s!"eh_frame_hdr version {(hdr.headD 0).toNat} not supported"
    else
      let r : Reader := ⟨ef.machine, false, header.vaddr, header.offset.toNat, maxBufferSize⟩
      let framePtr ← Comp.wrapError "eh_frame_hdr frame pointer" (r.ptr (hdr[1]?.getD 0))
      match ef.progByVirtualAddress framePtr with
      | none => Comp.error s!"eh_frame_hdr: unmappable frame pointer {hex framePtr.toNat}"
      | some p =>
        let fileoffset := p.off + framePtr - p.vaddr
        return ⟨fileoffset, p.filesz + p.off - fileoffset, framePtr⟩

def readEhframe (ef : ElfFile) : Comp Cursor ElfRegion :=
  let frames := elfRegionFromSection (ef.findSection ".eh_frame")
  let header := elfRegionFromSection (ef.findSection ".eh_frame_hdr")
  if frames.valid then return frames
  else if header.valid then readEhframeHdr ef header
  else
    match ef.ehFrameProg with
    | none => return {}
    | some p => readEhframeHdr ef ⟨p.off, p.filesz, p.vaddr⟩

def parseEHFrame (ee : ElfExtractor) : Comp Extraction Unit := do
  let frames ← onReader (readEhframe ee.file)
  if frames.valid then walkFDEs ee ee.file frames false else return ()

def parseDebugFrame (ee : ElfExtractor) (ef : ElfFile) : Comp Extraction Unit :=
  let debugFrames := elfRegionFromSection (ef.findSection ".debug_frame")
  if debugFrames.valid then walkFDEs ee ef debugFrames true else return ()

end EbpfProfiler.ElfUnwind
