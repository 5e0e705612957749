import Mathlib.Algebra.Ring.Int.Defs
import Mathlib.Data.Nat.Size
import EbpfProfiler.Lib.Bisect
import EbpfProfiler.StackDeltas.LoadDeltas

/-!
# Loading the deltas into the kernel maps, and finding them again

The writer is `processmanager/ebpf/ebpf.go`, the reader `get_stack_delta` with `bsearch_step`
(`native_stack_trace.h`).
-/

namespace EbpfProfiler.StackDeltas

/-! ## The maps -/

/-- One element of an inner map, `support.StackDelta`. -/
structure StackDeltaEntry where
  addrLow : ℕ
  unwindInfo : BitVec 16
  deriving DecidableEq

/-- An inner map `exe_id_to_…_stack_deltas_inner`, an eBPF array. -/
structure InnerMap where
  maxEntries : ℕ
  entries : List StackDeltaEntry
  deriving DecidableEq

/-- `bpf_map_lookup_elem` on an array map. -/
def InnerMap.lookup (m : InnerMap) (index : ℕ) : Option StackDeltaEntry :=
  if index < m.maxEntries then some (m.entries.getD index ⟨0, 0⟩) else none

/-- `support.StackDeltaPageInfo`: the window of a page. -/
structure StackDeltaPageInfo where
  firstDelta : ℕ
  numDeltas : BitVec 16
  mapID : ℕ
  deriving DecidableEq

/-- The maps of `get_stack_delta`: page windows, and inner maps. -/
structure StackDeltaMaps where
  stackDeltaPageToInfo : ℕ → ℕ → Option StackDeltaPageInfo
  exeIDToStackDeltas : ℕ → ℕ → Option InnerMap

/-! ## Writing -/

def stackDeltaBucketSmallest : ℕ := 8

def stackDeltaBucketLargest : ℕ := 23

/-- `getMapID`: the number of bits of the count selects the outer map. -/
def getMapID (numDeltas : ℕ) : Except String ℕ :=
  let significantBits := Nat.size numDeltas
  if significantBits ≤ stackDeltaBucketSmallest then .ok stackDeltaBucketSmallest
  else if stackDeltaBucketLargest < significantBits then
    .error s!"no map available for {numDeltas} stack deltas"
  else .ok significantBits

/-- `UpdateExeIDToStackDeltas`: map number and inner map. `setup` and `batch` are the outcomes of
creating and filling it; too long a batch is rejected. -/
def updateExeIDToStackDeltas (setup batch : Option String) (fileID : ℕ)
    (deltas : List StackDeltaEBPF) : Except String (ℕ × InnerMap) :=
  match getMapID (deltas.length % 2 ^ 32), setup with
  | .error err, _ => .error err
  | .ok _, some err => .error err
  | .ok mapID, none =>
    let batch := if 2 ^ mapID < deltas.length then some "argument list too long" else batch
    match batch with
    | some err =>
      let hex := String.ofList (Nat.toDigits 16 fileID)
      .error
        s!"failed to batch insert {deltas.length} elements for 0x{hex} into exeIDTostack_deltas: {err}"
    | none => .ok (mapID, ⟨2 ^ mapID, deltas.map fun d => ⟨d.addressLow, d.unwindInfo⟩⟩)

/-- The loop of `UpdateStackDeltaPages`: the window of each page. -/
def stackDeltaPages (mapID firstPageAddr : ℕ) :
    ℕ → ℕ → List (BitVec 16) → List (ℕ × StackDeltaPageInfo)
  | _, _, [] => []
  | pageNumber, firstDelta, numDeltas :: rest =>
    ((firstPageAddr + pageNumber * 2 ^ stackDeltaPageBits) % 2 ^ 64,
      ⟨firstDelta, numDeltas, mapID⟩) ::
      stackDeltaPages mapID firstPageAddr (pageNumber + 1)
        ((firstDelta + numDeltas.toNat) % 2 ^ 32) rest

/-- `UpdateStackDeltaPages`: the page windows it writes. -/
def updateStackDeltaPages (numDeltasPerPage : List (BitVec 16)) (mapID firstPageAddr : ℕ) :
    List (ℕ × StackDeltaPageInfo) :=
  stackDeltaPages mapID firstPageAddr 0 0 numDeltasPerPage

/-- The maps after both updates for `fileID`. -/
def StackDeltaMaps.load (m : StackDeltaMaps) (fileID mapID : ℕ) (inner : InnerMap)
    (pages : List (ℕ × StackDeltaPageInfo)) : StackDeltaMaps where
  stackDeltaPageToInfo id page :=
    if id = fileID then (pages.lookup page).or (m.stackDeltaPageToInfo id page)
    else m.stackDeltaPageToInfo id page
  exeIDToStackDeltas map id :=
    if map = mapID ∧ id = fileID then some inner else m.exeIDToStackDeltas map id

def pageCounters (firstPage numPages : ℕ) (deltas : List StackDeltaEBPF) : List (BitVec 16) :=
  deltas.foldl (fun counters d => counters.modify (pageIndex firstPage d.address) (· + 1))
    (List.replicate numPages 0)

def StackDeltaMaps.loadCounted (m : StackDeltaMaps) (fileID mapID : ℕ) (inner : InnerMap)
    (firstPage numPages : ℕ) (deltas : List StackDeltaEBPF) : StackDeltaMaps :=
  m.load fileID mapID inner (updateStackDeltaPages (pageCounters firstPage numPages deltas) mapID
    (firstPage * 2 ^ stackDeltaPageBits))

/-! ## Reading -/

/-- The error codes of `get_stack_delta`. -/
inductive ErrorCode where
  | ok
  | nativeLookupTextSection
  | nativeLookupStackDeltaOuterMap
  | nativeLookupStackDeltaInnerMap
  | nativeExceededDeltaLookupIterations
  | nativeLookupRange
  | nativeStackDeltaInvalid
  deriving DecidableEq

/-- `bsearch_step`: the new window, and whether to go on. -/
def bsearchStep (m : InnerMap) (pageOffset lo hi : ℕ) : (ℕ × ℕ) × Bool :=
  let pivot := (lo + hi) % 2 ^ 32 / 2
  match m.lookup pivot with
  | none => ((lo, 0), false)
  | some delta =>
    let window := if delta.addrLow ≤ pageOffset then ((pivot + 1) % 2 ^ 32, hi) else (lo, pivot)
    (window, window.1 < window.2)

/-- The search loop of `get_stack_delta`; `none` when the steps are used up. -/
def bsearch (m : InnerMap) (pageOffset : ℕ) : ℕ → ℕ → ℕ → Option (ℕ × ℕ)
  | 0, _, _ => none
  | n + 1, lo, hi =>
    match bsearchStep m pageOffset lo hi with
    | (window, true) => bsearch m pageOffset n window.1 window.2
    | (window, false) => some window

/-- `get_stack_delta` up to `idx--`: the index of the delta to use. -/
def findDelta (m : InnerMap) (info : StackDeltaPageInfo) (pageOffset : ℕ) :
    Except ErrorCode ℕ :=
  if info.numDeltas ≠ 0 then
    match bsearch m pageOffset 16 info.firstDelta
      ((info.firstDelta + info.numDeltas.toNat) % 2 ^ 32) with
    | none => .error .nativeExceededDeltaLookupIterations
    | some (_, hi) =>
      if hi = 0 then .error .nativeExceededDeltaLookupIterations
      else .ok (Lib.subWord 32 hi 1)
  else .ok (Lib.subWord 32 info.firstDelta 1)

/-- `get_stack_delta` up to `idx--`: the index of the delta, its window and its inner map. -/
def selectDelta (m : StackDeltaMaps) (fileID a : ℕ) :
    Except ErrorCode (ℕ × StackDeltaPageInfo × InnerMap) := do
  let pageOffset := a % 2 ^ stackDeltaPageBits
  match m.stackDeltaPageToInfo fileID (a - pageOffset) with
  | none => .error .nativeLookupTextSection
  | some info =>
    if info.mapID < stackDeltaBucketSmallest ∨ stackDeltaBucketLargest < info.mapID then
      .error .nativeLookupStackDeltaOuterMap
    else
      match m.exeIDToStackDeltas info.mapID fileID with
      | none => .error .nativeLookupStackDeltaInnerMap
      | some inner =>
        match findDelta inner info pageOffset with
        | .error code => .error code
        | .ok idx => .ok (idx, info, inner)

def stackDeltaInvalid : BitVec 16 := deltaCommandFlag

/-- `get_stack_delta`: the error code, `addrDiff` and `unwindInfo`. -/
def getStackDelta (m : StackDeltaMaps) (fileID a : ℕ) : ErrorCode × Option (ℤ × BitVec 16) :=
  match selectDelta m fileID a with
  | .error code => (code, none)
  | .ok (idx, info, inner) =>
    match inner.lookup idx with
    | none => (.nativeLookupRange, none)
    | some delta =>
      let deltaOffset : ℤ := (a % 2 ^ stackDeltaPageBits : ℕ) - (delta.addrLow : ℤ)
      let deltaOffset :=
        if idx < info.firstDelta then deltaOffset + 2 ^ stackDeltaPageBits else deltaOffset
      (if delta.unwindInfo = stackDeltaInvalid then .nativeStackDeltaInvalid else .ok,
        some (deltaOffset, delta.unwindInfo))

end EbpfProfiler.StackDeltas
