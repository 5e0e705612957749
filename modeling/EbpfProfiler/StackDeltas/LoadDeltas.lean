import EbpfProfiler.Lib.Comp
import EbpfProfiler.StackDeltas.Types

/-!
# `loadDeltas`: from interval data to eBPF stack deltas

The conversion half of `loadDeltas` (`execinfomanager/manager.go`). The state is the recipe table,
which keeps the entries of a conversion that fails.
-/

namespace EbpfProfiler.StackDeltas

open Lib (Comp)

/-! ## The recipe table -/

/-- `unwindInfoIndex`, with the eBPF array `unwind_info_array`. -/
structure UnwindTable where
  unwindInfoIndex : List (UnwindInfo × BitVec 16)
  unwindInfoArray : BitVec 16 → UnwindInfo

def UnwindTable.empty : UnwindTable := ⟨[], fun _ => {}⟩

/-- `UNWIND_INFO_MAX_ENTRIES`, the capacity of `unwind_info_array`. -/
def unwindInfoMaxEntries : ℕ := 16384

/-- `ebpfMapsImpl.UpdateUnwindInfo`; `mapUpdate` is the error of the kernel's update. -/
def updateUnwindInfo (mapUpdate : BitVec 16 → UnwindInfo → Option String) (index : BitVec 16)
    (value : UnwindInfo) : Comp UnwindTable Unit := do
  if unwindInfoMaxEntries ≤ index.toNat then
    Comp.error s!"unwind info array full ({index.toNat}/{unwindInfoMaxEntries} items)"
  else
    match mapUpdate index value with
    | some err => Comp.error err
    | none => do
      let t ← Comp.get
      Comp.set { t with unwindInfoArray := Function.update t.unwindInfoArray index value }

/-- `getUnwindInfoIndex`: an encoded command, or a number in order of first use. -/
def getUnwindInfoIndex (mapUpdate : BitVec 16 → UnwindInfo → Option String)
    (info : UnwindInfo) : Comp UnwindTable (BitVec 16) := do
  if info.isCommand then
    return info.param.setWidth 16 ||| deltaCommandFlag
  let t ← Comp.get
  match t.unwindInfoIndex.lookup info with
  | some index => return index
  | none => do
    let index := BitVec.ofNat 16 t.unwindInfoIndex.length
    Comp.wrapError s!"failed to insert unwind info #{index.toNat}"
      (updateUnwindInfo mapUpdate index info)
    let t ← Comp.get
    Comp.set { t with unwindInfoIndex := t.unwindInfoIndex ++ [(info, index)] }
    return index

/-! ## Merging -/

/-- `calculateMergeOpcode`: the distance, with the sign of the change of `param` on top, or zero. -/
def calculateMergeOpcode (delta nextDelta : StackDelta) : BitVec 8 :=
  if delta.info.isCommand then 0
  else
    let addrDiff := Lib.subWord 32 nextDelta.offset delta.offset
    if addrDiff < 1 ∨ 2 < addrDiff then 0
    else if nextDelta.info.baseReg ≠ delta.info.baseReg ∨
        nextDelta.info.auxBaseReg ≠ delta.info.auxBaseReg ∨
        nextDelta.info.auxParam ≠ delta.info.auxParam then 0
    else
      let paramDiff := nextDelta.info.param - delta.info.param
      if paramDiff = 8 then BitVec.ofNat 8 addrDiff
      else if paramDiff = -8 then BitVec.ofNat 8 addrDiff ||| mergeOpcodeNegative
      else 0

/-- The recipe of a delta with the merge opcode for the next one. -/
def mergedInfo (delta : StackDelta) : List StackDelta → UnwindInfo
  | [] => delta.info
  | next :: _ => delta.info.withMerge (calculateMergeOpcode delta next)

/-! ## The conversion loop -/

/-- `pmebpf.StackDeltaEBPF`: the page has the rest of the address. -/
structure StackDeltaEBPF where
  address : ℕ
  unwindInfo : BitVec 16
  deriving DecidableEq

/-- The `AddressLow` field, `uint16(addr)`. -/
def StackDeltaEBPF.addressLow (d : StackDeltaEBPF) : ℕ := d.address % 2 ^ stackDeltaPageBits

/-- The local variables that `addDelta` updates. -/
structure Loader where
  ebpfDeltas : List StackDeltaEBPF
  numDeltasPerPage : List (BitVec 16)
  deriving DecidableEq

section Loop

variable (mapUpdate : BitVec 16 → UnwindInfo → Option String) (firstPage : ℕ)

/-- The index of the counter for the page of `addr`. -/
def pageIndex (addr : ℕ) : ℕ := Lib.subWord 64 (addr / 2 ^ stackDeltaPageBits) firstPage

/-- The closure `addDelta` of `loadDeltas`. -/
def addDelta (st : Loader) (addr : ℕ) (info : UnwindInfo) : Comp UnwindTable Loader := do
  let unwindInfoIndex ← getUnwindInfoIndex mapUpdate info
  if st.ebpfDeltas.getLast?.map (·.unwindInfo) = some unwindInfoIndex then
    return st
  else
    if pageIndex firstPage addr < st.numDeltasPerPage.length then
      return {
        ebpfDeltas := st.ebpfDeltas ++ [⟨addr, unwindInfoIndex⟩]
        numDeltasPerPage := st.numDeltasPerPage.modify (pageIndex firstPage addr) (· + 1) }
    else
      Comp.panic "index out of range"

/-- A signal trampoline is a byte early, because return addresses are looked up so. -/
def deltaAddr (start : ℕ) (offset : ℕ) (info : UnwindInfo) : ℕ :=
  let addr := (start + offset) % 2 ^ 64
  if info.isSignal then Lib.subWord 64 addr 1 else addr

/-- The inner loop of `loadDeltas`: a merge opcode in `unwindInfo` says the delta was merged. -/
def loadBlock (start : ℕ) :
    UnwindInfo → List StackDelta → Loader → Comp UnwindTable (UnwindInfo × Loader)
  | unwindInfo, [], st => return (unwindInfo, st)
  | unwindInfo, delta :: rest, st => do
    if unwindInfo.mergeOpcode ≠ 0 then
      loadBlock start (unwindInfo.withMerge 0) rest st
    else
      let unwindInfo := mergedInfo delta rest
      let st ← addDelta mapUpdate firstPage st (deltaAddr start delta.offset unwindInfo) unwindInfo
      loadBlock start unwindInfo rest st

/-- A block is closed with a marker: it is the last, or the next is far away. -/
def needsMarker (block : BasicBlock) : List BasicBlock → Bool
  | [] => true
  | next :: _ => (block.end + minimumGap) % 2 ^ 64 < next.start

/-- The end of a round of the outer loop: the marker, if the block needs one. -/
def closeBlock (block : BasicBlock) (rest : List BasicBlock) (st : Loader) :
    Comp UnwindTable Loader :=
  if needsMarker block rest then addDelta mapUpdate firstPage st block.end .invalid
  else return st

/-- The outer loop of `loadDeltas`. -/
def loadBlocks : UnwindInfo → List BasicBlock → Loader → Comp UnwindTable Loader
  | _, [], st => return st
  | unwindInfo, block :: rest, st => do
    let r ← loadBlock mapUpdate firstPage block.start unwindInfo block.deltas st
    let st ← closeBlock mapUpdate firstPage block rest r.2
    loadBlocks r.1 rest st

end Loop

/-- The largest allocation the Go runtime serves on 64-bit Linux, in bytes. -/
def maxAlloc : ℕ := 2 ^ 48

/-- `make([]uint16, n)`. -/
def makeCounters {σ : Type} (n : ℕ) : Comp σ (List (BitVec 16)) :=
  if maxAlloc < 2 * n then Comp.panic "makeslice: len out of range"
  else return List.replicate n 0

/-- `make([]support.StackDeltaPageKey, n)` in `UpdateStackDeltaPages`. -/
def makeKeys {σ : Type} (n : ℕ) : Comp σ Unit :=
  if maxAlloc < 16 * n then Comp.panic "makeslice: len out of range" else return ()

/-- `loadDeltas` up to its map updates: the emitted deltas, and how many each page got. -/
def convertDeltas (mapUpdate : BitVec 16 → UnwindInfo → Option String)
    (intervals : IntervalData) : Comp UnwindTable Loader := do
  match intervals.blocks.head?, intervals.blocks.getLast? with
  | some firstBlock, some lastBlock =>
    let firstPage := firstBlock.start / 2 ^ stackDeltaPageBits
    let lastPage := lastBlock.end / 2 ^ stackDeltaPageBits
    let numPages := (Lib.subWord 64 lastPage firstPage + 1) % 2 ^ 64
    let numDeltasPerPage ← makeCounters numPages
    loadBlocks mapUpdate firstPage {} intervals.blocks ⟨[], numDeltasPerPage⟩
  | _, _ => Comp.panic "index out of range"

end EbpfProfiler.StackDeltas
