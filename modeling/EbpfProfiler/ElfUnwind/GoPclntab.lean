import EbpfProfiler.ElfUnwind.EhFrame

/-!
# `.gopclntab`

The function table of a Go binary, and the blocks made of it (`elfgopclntab.go`).
-/

namespace EbpfProfiler.ElfUnwind

open Lib StackDeltas

/-! ## Finding the table -/

/-- `bytes.Index`. -/
def indexOf (pattern : List Byte) : List Byte → Option ℕ
  | [] => if pattern = [] then some 0 else none
  | b :: bs =>
    if pattern.isPrefixOf (b :: bs) then some 0 else (indexOf pattern bs).map (· + 1)

/-- The versions of the table format. -/
inductive GoVersion
  | invalid
  | go1_2
  | go1_16
  | go1_18
  | go1_20
  deriving DecidableEq

def goMagicToVersion (magic : ℕ) : GoVersion :=
  if magic = 0xfffffffb then .go1_2
  else if magic = 0xfffffffa then .go1_16
  else if magic = 0xfffffff0 then .go1_18
  else if magic = 0xfffffff1 then .go1_20
  else .invalid

def pclntabHeaderSize : ℕ := 16

def pclntabHeaderSignature (arch : Machine) : List Byte :=
  let quantum : Byte := match arch with
    | .x86_64 => 1
    | .aarch64 => 4
    | .other _ => 0
  [0xff, 0xff, 0xff, 0x00, 0x00, quantum, 0x08]

def numAt (data : List Byte) (offset size : ℕ) : ℕ := leNat (slice data offset (offset + size))

/-- The inner loop of `searchGoPclntab`: the offset of a header. -/
def searchHeader (signature data : List Byte) : ℕ → ℕ → Option ℕ
  | 0, _ => none
  | fuel + 1, i =>
    if data.length ≤ i + pclntabHeaderSize then none
    else
      match indexOf signature (data.drop i) with
      | none => none
      | some n =>
        let i := i + n - 1
        if goMagicToVersion (numAt data i 4) ≠ .invalid then some i
        else searchHeader signature data fuel (i + 8)

/-- `searchGoPclntab`: the data from the header on, and its offset in the file. -/
def searchGoPclntab (signature : List Byte) :
    List Prog → Except String (Option (List Byte × Word))
  | [] => .ok none
  | p :: progs =>
    if p.isLoad = false ∨ p.executable ∨ p.readable = false ∨
      p.filesz.toNat < pclntabHeaderSize then
      searchGoPclntab signature progs
    else
      match p.data with
      | .error err => .error err
      | .ok data =>
        match searchHeader signature data data.length 1 with
        | some i => .ok (some (data.drop i, p.off + BitVec.ofNat 64 i))
        | none => searchGoPclntab signature progs

/-- The part of `extractGoPclntab` for a Go binary without the section. -/
def pclntabBySymbols (ef : ElfFile) : Except String (Option (List Byte × Word)) :=
  let (start, stop) := ef.pclntabSymbols
  if start = 0 ∨ stop = 0 then
    match searchGoPclntab (pclntabHeaderSignature ef.machine) ef.progs with
    | .error err => .error s!"failed to search .gopclntab: {err}"
    | .ok found => .ok found
  else if stop ≤ start then
    .error s!"invalid .gopclntab symbols: {hex start.toNat}-{hex stop.toNat}"
  else
    match ef.virtualMemory start (stop - start).toNat with
    | .error err => .error s!"failed to load .gopclntab via symbols: {err}"
    | .ok data =>
      match ef.progByVirtualAddress start with
      | none => .error "failed to load .gopclntab via symbols: unmappable virtual address"
      | some p => .ok (some (data, p.off + start - p.vaddr))

def extractGoPclntab (ef : ElfFile) : Except String (Option (List Byte × Word)) :=
  if ef.insideCore then
    .ok ((searchGoPclntab (pclntabHeaderSignature ef.machine) ef.progs).toOption.join)
  else
    match ef.findSection ".gopclntab" with
    | some s =>
      match s.data with
      | .error err => .error s!"failed to load .gopclntab section: {err}"
      | .ok data => .ok (some (data, s.offset))
    | none =>
      match ef.findSection ".go.buildinfo" with
      | some _ => pclntabBySymbols ef
      | none => .ok none

/-! ## The header -/

/-- The table, as its header describes it. -/
structure Gopclntab where
  headerOffset : Word
  version : GoVersion
  quantum : BitVec 8
  textStart : Word
  numFuncs : Word
  numFiles : Word
  funcnameOffset : Word
  cuOffset : Word
  filetabOffset : Word
  pctabOffset : Word
  functab : List Byte
  funcnametab : List Byte
  filetab : List Byte
  pctab : List Byte
  cutab : List Byte
  deriving DecidableEq

namespace Gopclntab

/-- The table has 32-bit offsets from the start of the code. -/
def hasOffsets (g : Gopclntab) : Bool := g.version = .go1_18 ∨ g.version = .go1_20

def funcMapSize (g : Gopclntab) : ℕ := if g.hasOffsets then 8 else 16

def funSize (g : Gopclntab) : ℕ := if g.hasOffsets then 36 else 40

/-- The checks at the end of `NewGopclntab`, and the tables. -/
def checked (data : List Byte) (pclnOffset : Word) (g : Gopclntab) : Except String Gopclntab :=
  let dataLen := BitVec.ofNat 64 data.length
  if g.cuOffset ≤ g.funcnameOffset ∨ g.filetabOffset ≤ g.cuOffset ∨
      g.pctabOffset ≤ g.filetabOffset ∨ pclnOffset ≤ g.pctabOffset ∨ dataLen ≤ pclnOffset ∨
      (dataLen - pclnOffset).slt ((g.numFuncs + 1) * BitVec.ofNat 64 g.funcMapSize) then
    .error (s!"corrupt header ({hex g.funcnameOffset.toNat} < {hex g.cuOffset.toNat} < " ++
      s!"{hex g.filetabOffset.toNat} < {hex g.pctabOffset.toNat} < {hex pclnOffset.toNat})")
  else
    .ok { g with
      functab := data.drop pclnOffset.toNat
      funcnametab := slice data g.funcnameOffset.toNat g.cuOffset.toNat
      filetab := slice data g.filetabOffset.toNat g.pctabOffset.toNat
      pctab := slice data g.pctabOffset.toNat pclnOffset.toNat
      cutab := slice data g.cuOffset.toNat g.filetabOffset.toNat }

/-- The fields of a header, the offsets from a position on. -/
def ofHeader (data : List Byte) (headerOffset : Word) (version : GoVersion) (textStart : Word)
    (offsets : ℕ) : Gopclntab where
  headerOffset := headerOffset
  version := version
  quantum := BitVec.ofNat 8 (numAt data 6 1)
  textStart := textStart
  numFuncs := BitVec.ofNat 64 (numAt data 8 8)
  numFiles := BitVec.ofNat 64 (numAt data 16 8)
  funcnameOffset := BitVec.ofNat 64 (numAt data offsets 8)
  cuOffset := BitVec.ofNat 64 (numAt data (offsets + 8) 8)
  filetabOffset := BitVec.ofNat 64 (numAt data (offsets + 16) 8)
  pctabOffset := BitVec.ofNat 64 (numAt data (offsets + 24) 8)
  functab := []
  funcnametab := []
  filetab := []
  pctab := []
  cutab := []

/-- `NewGopclntab`, for data that was found. -/
def new (ef : ElfFile) (data : List Byte) (headerOffset : Word) : Except String Gopclntab :=
  let magic := numAt data 0 4
  let pad := numAt data 4 2
  let ptrSize := numAt data 7 1
  let size := data.length
  if size < pclntabHeaderSize then .error s!".gopclntab is too short ({size})"
  else
    match if pad ≠ 0 ∨ ptrSize ≠ 8 then GoVersion.invalid else goMagicToVersion magic with
    | .go1_16 =>
      if size < 64 then .error s!"too short header ({size})"
      else checked data (BitVec.ofNat 64 (numAt data 56 8))
        (ofHeader data headerOffset .go1_16 0 24)
    | .invalid | .go1_2 => .error s!"unsupported header: {hex magic}, {hex pad}, {hex ptrSize}"
    | version =>
      if size < 72 then .error s!"too short header ({size})"
      else
        let textStart := BitVec.ofNat 64 (numAt data 24 8)
        -- since Go 1.26 the header has no start of the code
        match if textStart = 0 then ef.moduleText else .ok textStart with
        | .error err => .error s!"failed to find text start: {err}"
        | .ok textStart =>
          checked data (BitVec.ofNat 64 (numAt data 64 8))
            (ofHeader data headerOffset version textStart 32)

/-! ## Functions -/

/-- `getFuncMapEntry`: an index outside the table panics, and so does a read over its end here. -/
def getFuncMapEntry (g : Gopclntab) (index : Word) : Except Fault (Word × Word) :=
  let pos := index * BitVec.ofNat 64 g.funcMapSize
  if pos.slt 0 ∨ g.functab.length < pos.toNat + g.funcMapSize then
    .error (.panic "index out of range")
  else
    let half := g.funcMapSize / 2
    let pc := BitVec.ofNat 64 (numAt g.functab pos.toNat half)
    let funcOff := BitVec.ofNat 64 (numAt g.functab (pos.toNat + half) half)
    .ok (if g.hasOffsets then g.textStart + pc else pc, funcOff)

/-- `pclntabFunc`: the fields that are used. -/
structure Func where
  nameOff : BitVec 32
  pcspOff : BitVec 32
  pcfileOff : BitVec 32
  pclnOff : BitVec 32
  npcData : BitVec 32
  deriving DecidableEq

def getFunc (g : Gopclntab) (funcOff : Word) : Option (Word × Func) :=
  let off := funcOff.toNat
  if g.functab.length < off ∨ g.functab.length - off < g.funSize then none
  else
    let pcSize := if g.hasOffsets then 4 else 8
    let pc := BitVec.ofNat 64 (numAt g.functab off pcSize)
    let int32 (i : ℕ) : BitVec 32 := BitVec.ofNat 32 (numAt g.functab (off + pcSize + 4 * i) 4)
    some (if g.hasOffsets then g.textStart + pc else pc,
      ⟨int32 0, int32 3, int32 4, int32 5, int32 7⟩)

end Gopclntab

/-! ## Tables of values -/

/-- `pcval`: the rest of a table, and its current row. -/
structure PcVal where
  ptr : List Byte
  pcStart : Word
  pcEnd : Word
  val : BitVec 32
  quantum : BitVec 8
  deriving DecidableEq

namespace PcVal

/-- `getInt`: a number and the data behind it. -/
def getInt : List Byte → ℕ → BitVec 32 → Option (BitVec 32 × List Byte)
  | [], _, _ => none
  | b :: ptr, shift, v =>
    let v := v ||| (b &&& 0x7f).setWidth 32 <<< shift
    if b &&& 0x80 = 0 then some (v, ptr) else getInt ptr ((shift + 7) % 2 ^ 32) v

def step (p : PcVal) : Option PcVal :=
  if p.ptr.headD 0 = 0 then none
  else do
    let (d, ptr) ← getInt p.ptr 0 0
    let d := if d &&& 1 ≠ 0 then ~~~(d >>> 1) else d >>> 1
    let (pcDelta, ptr) ← getInt ptr 0 0
    return {
      ptr := ptr
      pcStart := p.pcEnd
      pcEnd := p.pcEnd + pcDelta.setWidth 64 * p.quantum.setWidth 64
      val := p.val + d
      quantum := p.quantum }

end PcVal

def Gopclntab.getPcval (g : Gopclntab) (offs : BitVec 32) (startPc : Word) : Except String PcVal :=
  if offs.slt 0 ∨ g.pctab.length ≤ offs.toNat then
    .error s!"pcval offset {offs.toInt} out of bounds (pctab size {g.pctab.length})"
  else
    match (PcVal.mk (g.pctab.drop offs.toNat) 0 startPc (-1) g.quantum).step with
    | none => .error s!"pcval table at offset {offs.toInt} has no valid first entry"
    | some p =>
      if p.val.slt 0 then
        .error s!"pcval table at offset {offs.toInt} starts with negative value {p.val.toInt}"
      else .ok p

/-! ## Strategies -/

/-- `strategy`, other than the unknown one. -/
inductive Strategy
  | framePointer
  | deltasWithFrame
  | deltasWithoutFrame
  deriving DecidableEq

def noFPSourceSuffixes : List String :=
  ["/src/crypto/sha1/sha1.go",
    "/src/crypto/sha256/sha256.go",
    "/src/crypto/sha512/sha512.go",
    "/src/crypto/elliptic/p256_asm.go",
    "/src/internal/cpu/cpu_arm64.go",
    "/src/internal/cpu/cpu_x86.go",
    "golang.org/x/crypto/curve25519/curve25519_amd64.go",
    "golang.org/x/crypto/chacha20poly1305/chacha20poly1305_amd64.go"]

def getSourceFileStrategyX86 (sourceFile : String) : Option Strategy :=
  if sourceFile.endsWith ".s" then some .deltasWithoutFrame
  else if noFPSourceSuffixes.any (sourceFile.endsWith ·) then some .deltasWithFrame
  else none

/-- `getFunctionUnwindInfo`, of the name of a function. -/
def getFunctionUnwindInfo (name : String) (arch : Machine) (useFP : Bool) : Option UnwindInfo :=
  let orStop (info : UnwindInfo) : UnwindInfo := if useFP then info else .stop
  if name = "runtime.goexit" ∨ name = "runtime.mstart" then some .stop
  else if name = "runtime.mcall" then some .stop
  else if name = "runtime.asmcgocall" then
    some (orStop (.command (if arch = .aarch64 then unwindCommandGoAsmcgocall
      else unwindCommandFramePointer)))
  else if name = "runtime.morestack" then some (orStop (.command unwindCommandGoMorestack))
  else if name = "runtime.systemstack" ∨ name = "runtime.nanotime1" ∨ name = "time.now" ∨
      name = "runtime.walltime" then some (orStop (.command unwindCommandFramePointer))
  else if name = "runtime.sigreturn" ∨ name = "runtime.sigreturn__sigaction" then some .signal
  else none

/-- `WalkStrings`: the strings with their offsets. -/
def walkStrings : ℕ → Comp Cursor (List (ℕ × String))
  | 0 => return []
  | n + 1 => do
    let offset := (← Comp.get).pos
    let s ← Comp.cstring maxBufferSize
    return (offset, text s) :: (← walkStrings n)

/-- `WalkAllStrings`: the strings up to the end of the data. Each one takes a byte. -/
def walkAllStrings : ℕ → Comp Cursor (List (ℕ × String))
  | 0 => return []
  | n + 1 => do
    let offset := (← Comp.get).pos
    match ← Comp.attempt (Comp.cstring maxBufferSize) with
    | .error err => if err = "EOF" then return [] else Comp.error err
    | .ok s => return (offset, text s) :: (← walkAllStrings n)

/-- The file name offsets of a compilation unit. A short last one keeps bytes of the one before. -/
def cuOffsets : ℕ → List Byte → List Byte → List ℕ
  | 0, _, _ => []
  | n + 1, last, data =>
    if data = [] then []
    else
      let offset := data.take 4 ++ last.drop (data.take 4).length
      leNat offset :: cuOffsets n offset (data.drop 4)

/-- `resolveCUStrategies`: the strategies by the index of the compilation unit. -/
def resolveCUStrategies (ef : ElfFile) (g : Gopclntab) : Comp Cursor (ℤ → Option Strategy) := do
  let tables := fun (start stop : Word) =>
    Cursor.init ef.underlying (g.headerOffset + start).toNat (stop - start).toNat
  Comp.set (tables g.filetabOffset g.pctabOffset)
  let names ← walkStrings (if g.numFiles.slt 0 then 0 else g.numFiles.toNat)
  let cutab := (tables g.cuOffset g.filetabOffset).source
  let offsets := cuOffsets cutab.length [0, 0, 0, 0] cutab
  return fun idx =>
    if idx < 0 then none
    else do
      let offset ← offsets[idx.toNat]?
      let name ← names.lookup offset
      getSourceFileStrategyX86 name

/-- `resolveFunctionUnwindInfo`: the recipes by the offset of the name. -/
def resolveFunctionUnwindInfo (ef : ElfFile) (g : Gopclntab) (useFP : Bool) :
    Comp Cursor (BitVec 32 → Option UnwindInfo) := do
  Comp.set (Cursor.init ef.underlying (g.headerOffset + g.funcnameOffset).toNat
    (g.cuOffset - g.funcnameOffset).toNat)
  let names ← walkAllStrings ((← Comp.get).remaining + 1)
  return fun nameOff => do
    -- a later name takes the place of one whose offset has the same low bits
    let (_, name) ← names.reverse.find? fun n =>
      BitVec.ofNat 32 n.1 = nameOff ∧ (getFunctionUnwindInfo n.2 ef.machine useFP).isSome
    getFunctionUnwindInfo name ef.machine useFP

/-! ## Blocks -/

def rowInfoX86 (val : BitVec 32) (s : Strategy) : UnwindInfo :=
  let info : UnwindInfo := { baseReg := unwindRegSp, param := val + 8 }
  if s = .deltasWithFrame ∧ BitVec.sle 16 info.param then
    { info with auxBaseReg := unwindRegCfa, auxParam := -16 }
  else info

def rowInfoArm64 (val : BitVec 32) (s : Strategy) : UnwindInfo :=
  if val = 0 then { baseReg := unwindRegSp, auxBaseReg := unwindRegLr }
  else if s = .deltasWithFrame then
    { baseReg := unwindRegSp, param := val, auxBaseReg := unwindRegSp, auxParam := 0 }
  else { baseReg := unwindRegSp, param := val }

/-- `parseX86pclntabFunc` and `parseArm64pclntabFunc`: the rows of a table. -/
def parsePclntab (rowInfo : BitVec 32 → Strategy → UnwindInfo) (s : Strategy) :
    ℕ → PcVal → List StackDelta → List StackDelta
  | 0, _, deltas => deltas
  | fuel + 1, p, deltas =>
    let deltas := StackDeltaArray.add deltas (p.pcStart.toNat % 2 ^ 32) (rowInfo p.val s)
    match p.step with
    | none => deltas
    | some p => parsePclntab rowInfo s fuel p deltas

/-- What `parseGoPclntab` has resolved before its loop. -/
structure GoStrategies where
  rowInfo : BitVec 32 → Strategy → UnwindInfo
  defaultStrategy : Strategy
  cuStrategy : ℤ → Option Strategy
  funcUnwindInfo : BitVec 32 → Option UnwindInfo

def fileStrategy (g : Gopclntab) (gs : GoStrategies) (i : ℕ) (funcPc : Word) (fn : Gopclntab.Func) :
    Except String Strategy :=
  if fn.pcfileOff = 0 then .ok gs.defaultStrategy
  else
    match g.getPcval fn.pcfileOff funcPc with
    | .error err => .error s!"func {i} pcfileOff: {err}"
    | .ok p => .ok ((gs.cuStrategy (p.val.toInt + fn.npcData.toInt)).getD gs.defaultStrategy)

/-- The deltas of a function; `none` if it is skipped. -/
def goDeltas (g : Gopclntab) (gs : GoStrategies) (i : ℕ) (funcPc : Word) (fn : Gopclntab.Func) :
    Except String (Option (List StackDelta)) :=
  match gs.funcUnwindInfo fn.nameOff with
  | some info => .ok (some (StackDeltaArray.add [] 0 info))
  | none =>
    match fileStrategy g gs i funcPc fn with
    | .error err => .error err
    | .ok .framePointer =>
      .ok (some (StackDeltaArray.add [] 0 (.command unwindCommandFramePointer)))
    | .ok s =>
      if fn.pcspOff = 0 then .ok none
      else
        match g.getPcval fn.pcspOff 0 with
        | .error err => .error s!"func {i} pcspOff: {err}"
        | .ok p => .ok (some (parsePclntab gs.rowInfo s (p.ptr.length + 1) p []))

def liftFault {σ α : Type} : Except Fault α → Comp σ α
  | .ok a => pure a
  | .error f => fun s => (.error f, s)

/-- One round of the loop of `parseGoPclntab`. -/
def goFunction (g : Gopclntab) (gs : GoStrategies) (i : ℕ) : Comp Extraction Unit := do
  let (mapPc, funcOff) ← liftFault (g.getFuncMapEntry (BitVec.ofNat 64 i))
  match g.getFunc funcOff with
  | none => Comp.error s!"func {i} descriptor is invalid (pc {hex mapPc.toNat}/0)"
  | some (funcPc, fn) =>
    if mapPc ≠ funcPc then
      Comp.error s!"func {i} descriptor is invalid (pc {hex mapPc.toNat}/{hex funcPc.toNat})"
    else do
      let (endPc, _) ← liftFault (g.getFuncMapEntry (BitVec.ofNat 64 (i + 1)))
      match goDeltas g gs i funcPc fn with
      | .error err => Comp.error err
      | .ok none => return ()
      | .ok (some deltas) => do
        let s ← Comp.get
        Comp.set (s.addBlock ⟨funcPc.toNat, endPc.toNat, deltas⟩)

/-- The loop of `parseGoPclntab`. -/
def goFunctions (g : Gopclntab) (gs : GoStrategies) : ℕ → ℕ → Comp Extraction Unit
  | 0, _ => return ()
  | n + 1, i => do
    goFunction g gs i
    goFunctions g gs n (i + 1)

/-- Whether the frame pointers of a binary for aarch64 can be used. -/
def arm64UseFP (ef : ElfFile) (version : GoVersion) : Bool :=
  match version with
  | .go1_16 | .go1_18 => false
  | .go1_20 => !ef.goVersionOld
  | _ => true

/-- The part of `parseGoPclntab` before the loop. -/
def goStrategies (ef : ElfFile) (g : Gopclntab) : Comp Cursor GoStrategies :=
  match ef.machine with
  | .x86_64 => do
    let cuStrategy ← Comp.wrapError "cutab" (resolveCUStrategies ef g)
    let funcUnwindInfo ← Comp.wrapError "funcnametab" (resolveFunctionUnwindInfo ef g true)
    return ⟨rowInfoX86, .framePointer, cuStrategy, funcUnwindInfo⟩
  | .aarch64 => do
    let useFP := arm64UseFP ef g.version
    let funcUnwindInfo ← Comp.wrapError "funcnametab" (resolveFunctionUnwindInfo ef g useFP)
    return ⟨rowInfoArm64, if useFP then .framePointer else .deltasWithFrame, fun _ => none,
      funcUnwindInfo⟩
  | .other m => Comp.error s!"unsupported ELF architecture ({hex m.toNat})"

def parseGoPclntab (ee : ElfExtractor) : Comp Extraction Unit := do
  match extractGoPclntab ee.file with
  | .error err => Comp.error err
  | .ok none => return ()
  | .ok (some (data, headerOffset)) =>
    match Gopclntab.new ee.file data headerOffset with
    | .error err => Comp.error err
    | .ok g => do
      let gs ← onReader (goStrategies ee.file g)
      goFunctions g gs (if g.numFuncs.slt 0 then 0 else g.numFuncs.toNat) 0
      let (start, _) ← liftFault (g.getFuncMapEntry 0)
      let (stop, _) ← liftFault (g.getFuncMapEntry g.numFuncs)
      let s ← Comp.get
      Comp.set { s with filter := { s.filter with start := start, «end» := stop } }

end EbpfProfiler.ElfUnwind
