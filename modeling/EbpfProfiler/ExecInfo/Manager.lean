import EbpfProfiler.Lib.Table
import EbpfProfiler.StackDeltas.PageLookup

/-!
# `ExecutableInfoManager`

The reference counts and eBPF loads of `processmanager/execinfomanager/manager.go`. What others
answer is an argument. Left out are the locks, the interpreter loaders and the metrics.
-/

namespace EbpfProfiler.ExecInfo

open Lib StackDeltas

abbrev FileID := BitVec 64

/-- A moment, as `time.Now()` gives it. -/
abbrev Time := ℕ

/-! ## State -/

/-- Where the deltas of a file are. -/
structure MapRef where
  startPage : ℕ := 0
  numPages : ℕ := 0
  mapID : ℕ := 0
  deriving DecidableEq

/-- An executable in use. -/
structure Entry (ι : Type) where
  info : ι
  mapRef : MapRef
  rc : ℕ
  deriving DecidableEq

/-- `executableInfoManagerState`. -/
structure ManagerState (ι : Type) where
  executables : Table FileID (Entry ι)
  unusedExecutables : Table FileID Time
  unwindTable : UnwindTable
  numStackDeltaMapPages : ℕ

variable {ι : Type}

/-- `NewExecutableInfoManager`. -/
def ManagerState.new : ManagerState ι := ⟨∅, ∅, UnwindTable.empty, 0⟩

namespace ManagerState

def setTable (t : UnwindTable) (s : ManagerState ι) : ManagerState ι := { s with unwindTable := t }

def setPages (n : ℕ) (s : ManagerState ι) : ManagerState ι := { s with numStackDeltaMapPages := n }

def insertEntry (s : ManagerState ι) (fileID : FileID) (e : Entry ι) : ManagerState ι :=
  { s with executables := s.executables.insert fileID e }

def setUnused (s : ManagerState ι) (fileID : FileID) (now : Time) : ManagerState ι :=
  { s with unusedExecutables := s.unusedExecutables.insert fileID now }

def clearUnused (s : ManagerState ι) (fileID : FileID) : ManagerState ι :=
  { s with unusedExecutables := s.unusedExecutables.erase fileID }

/-- The two `delete`s at the end of `CleanupUnused`. -/
def removeEntry (s : ManagerState ι) (fileID : FileID) : ManagerState ι :=
  { s with executables := s.executables.erase fileID
           unusedExecutables := s.unusedExecutables.erase fileID }

end ManagerState

/-! ## Loading -/

/-- The outcomes of the eBPF calls of `loadDeltas`. -/
structure LoadOutcome where
  updateUnwindInfo : BitVec 16 → UnwindInfo → Option String
  setup : Option String
  batch : Option String
  updateStackDeltaPages : Option String

def firstPage (intervals : IntervalData) : ℕ :=
  (intervals.blocks.head?.elim 0 BasicBlock.start) / 2 ^ stackDeltaPageBits

/-- `numPages` in `loadDeltas`. -/
def numPages (intervals : IntervalData) : ℕ :=
  (subWord 64 ((intervals.blocks.getLast?.elim 0 BasicBlock.end) / 2 ^ stackDeltaPageBits)
    (firstPage intervals) + 1) % 2 ^ 64

def loadDeltas (outcome : LoadOutcome) (fileID : FileID) (intervals : IntervalData) :
    Comp (ManagerState ι) MapRef := do
  if intervals.numDeltas = 0 then
    return {}
  else
    let loader ← Comp.zoom ManagerState.unwindTable ManagerState.setTable
      (convertDeltas outcome.updateUnwindInfo intervals)
    match updateExeIDToStackDeltas outcome.setup outcome.batch fileID.toNat loader.ebpfDeltas with
    | .error err =>
      Comp.error s!"failed UpdateExeIDToStackDeltas for FileID {hex fileID.toNat}: {err}"
    | .ok loaded => do
      makeKeys (numPages intervals)
      match outcome.updateStackDeltaPages with
      | some err => Comp.error s!"failed UpdateStackDeltaPages for FileID {hex fileID.toNat}: {err}"
      | none => do
        let s ← Comp.get
        Comp.set (s.setPages ((s.numStackDeltaMapPages + numPages intervals) % 2 ^ 64))
        return { startPage := firstPage intervals * 2 ^ stackDeltaPageBits
                 numPages := numPages intervals % 2 ^ 32
                 mapID := loaded.1 }

/-! ## Reference counting -/

/-- What one call of `AddOrIncRef` finds. -/
structure AddCall (ι : Type) where
  /-- Whether the file ID is in `deferredFileIDs`. -/
  deferred : Bool
  /-- What `GetIntervalDataForFile` returns. -/
  extracted : Except String IntervalData
  /-- `synthesizeIntervalData`, used without blocks, or the error of `GetELF`. -/
  synthesized : Except String IntervalData
  load : LoadOutcome
  info : ι

def AddCall.intervals (call : AddCall ι) : Except String IntervalData :=
  match call.extracted with
  | .error err => .error s!"failed to extract interval data: {err}"
  | .ok intervals => if intervals.blocks = [] then call.synthesized else .ok intervals

def incRef (fileID : FileID) (e : Entry ι) : Comp (ManagerState ι) ι := do
  let s ← Comp.get
  let rc := (e.rc + 1) % 2 ^ 64
  let s := s.insertEntry fileID { e with rc := rc }
  Comp.set (if rc = 1 then s.clearUnused fileID else s)
  return e.info

/-- The second half of `AddOrIncRef`: another thread may have been faster. -/
def incRefOrLoad (fileID : FileID) (intervals : IntervalData) (call : AddCall ι) :
    Comp (ManagerState ι) ι := do
  let s ← Comp.get
  match s.executables.lookup fileID with
  | some e => incRef fileID e
  | none => do
    let ref ← Comp.wrapError "failed to load deltas" (loadDeltas call.load fileID intervals)
    let s ← Comp.get
    Comp.set (s.insertEntry fileID { info := call.info, mapRef := ref, rc := 1 })
    return call.info

def addOrIncRef (fileID : FileID) (call : AddCall ι) : Comp (ManagerState ι) ι := do
  if call.deferred then
    Comp.error "deferred FileID"
  else
    let s ← Comp.get
    match s.executables.lookup fileID with
    | some e => incRef fileID e
    | none =>
      match call.intervals with
      | .error err => Comp.error err
      | .ok intervals => incRefOrLoad fileID intervals call

def decRef (fileID : FileID) (now : Time) : Comp (ManagerState ι) Unit := do
  let s ← Comp.get
  match s.executables.lookup fileID with
  | none => Comp.error s!"FileID {fileID.toNat} is not known to ExecutableInfoManager"
  | some e =>
    if e.rc = 0 then
      Comp.error "state corruption in ExecutableInfoManager: encountered 0 RC"
    else
      let s := s.insertEntry fileID { e with rc := e.rc - 1 }
      Comp.set (if e.rc - 1 = 0 then s.setUnused fileID now else s)

/-! ## Unloading -/

/-- The outcomes of `DeleteStackDeltaPage`, by address, and `DeleteExeIDToStackDeltas`. -/
structure UnloadOutcome where
  deleteStackDeltaPage : FileID → ℕ → Option String
  deleteExeIDToStackDeltas : FileID → Option String

def MapRef.pageAddrs (ref : MapRef) : List ℕ :=
  (List.range ref.numPages).map fun i => (ref.startPage + i * 2 ^ stackDeltaPageBits) % 2 ^ 64

/-- All errors of the deletes for an executable, in order. -/
def deleteErrors (outcome : UnloadOutcome) (fileID : FileID) (ref : MapRef) : List String :=
  ref.pageAddrs.filterMap (outcome.deleteStackDeltaPage fileID) ++
    (outcome.deleteExeIDToStackDeltas fileID).toList

/-- `unloadDeltas`. The errors are put together with `errors.Join`. -/
def unloadDeltas (outcome : UnloadOutcome) (fileID : FileID) (ref : MapRef) :
    Comp (ManagerState ι) Unit := do
  if ref.mapID = 0 then
    return ()
  else
    let s ← Comp.get
    Comp.set (s.setPages (subWord 64 s.numStackDeltaMapPages ref.numPages))
    match deleteErrors outcome fileID ref with
    | [] => return ()
    | errs => Comp.error ("\n".intercalate errs)

/-- One round of the loop of `CleanupUnused`. -/
def cleanupEntry (outcome : UnloadOutcome) (cutoff : Time) (fileID : FileID) :
    Comp (ManagerState ι) Unit := do
  let s ← Comp.get
  match s.unusedExecutables.lookup fileID with
  | none => return ()
  | some unusedSince =>
    if cutoff < unusedSince then
      return ()
    else
      match s.executables.lookup fileID with
      | none =>
        Comp.error
          s!"FileID {fileID.toNat} is in state.unusedExecutables, but not in state.executables"
      | some e =>
        if e.rc ≠ 0 then
          Comp.error s!"FileID {fileID.toNat} has rc={e.rc} when zero is expected"
        else do
          Comp.wrapError s!"failed remove fileID 0x{hex fileID.toNat} from BPF maps"
            (unloadDeltas outcome fileID e.mapRef)
          let s ← Comp.get
          Comp.set (s.removeEntry fileID)

/-- `CleanupUnused`; `order` is that in which the loop comes to the file IDs. -/
def cleanupUnused (outcome : UnloadOutcome) (cutoff : Time) :
    List FileID → Comp (ManagerState ι) Unit
  | [] => return ()
  | fileID :: order => do
    cleanupEntry outcome cutoff fileID
    cleanupUnused outcome cutoff order

/-! ## Runs -/

/-- A call of the manager. -/
inductive Event (ι : Type)
  | addOrIncRef (fileID : FileID) (call : AddCall ι)
  | decRef (fileID : FileID) (now : Time)
  | cleanupUnused (outcome : UnloadOutcome) (cutoff : Time) (order : List FileID)

def step (s : ManagerState ι) : Event ι → ManagerState ι
  | .addOrIncRef fileID call => ((addOrIncRef fileID call).exec s).2
  | .decRef fileID now => ((decRef fileID now).exec s).2
  | .cleanupUnused outcome cutoff order => ((cleanupUnused outcome cutoff order).exec s).2

def run (s : ManagerState ι) (events : List (Event ι)) : ManagerState ι := events.foldl step s

end EbpfProfiler.ExecInfo
