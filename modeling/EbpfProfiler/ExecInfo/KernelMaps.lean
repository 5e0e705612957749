import EbpfProfiler.ExecInfo.Manager

/-!
# The kernel maps behind the manager

The maps of `processmanager/ebpf/ebpf.go` with the workers of `asyncupdate.go`, which execute the
updates of outer maps later. The outcome of a kernel operation is an argument.
-/

namespace EbpfProfiler.ExecInfo

open Lib StackDeltas Function ManagerState

/-! ## Maps and queues -/

def updatePoolWorkers : ℕ := 16

/-- `asyncMapInMapUpdate`: the number of the outer map, and the inner one, none for a delete. -/
structure MapUpdate where
  outer : ℕ
  fileID : FileID
  inner : Option ℕ
  deriving DecidableEq

def workerIdx (fileID : FileID) : ℕ := fileID.toNat % updatePoolWorkers

/-- The maps and the queues of the workers; inner maps are numbered as they are created. -/
structure KernelMaps where
  innerMaps : List InnerMap
  outerMaps : ℕ → FileID → Option ℕ
  pages : FileID → ℕ → Option StackDeltaPageInfo
  pageCapacity : ℕ
  pageCapacity_lt : pageCapacity < 2 ^ 32
  queues : ℕ → List MapUpdate
  routed : ∀ i, ∀ u ∈ queues i, workerIdx u.fileID = i

namespace KernelMaps

def enqueueUpdate (k : KernelMaps) (u : MapUpdate) : KernelMaps :=
  { k with
    queues := update k.queues (workerIdx u.fileID) (k.queues (workerIdx u.fileID) ++ [u])
    routed := by
      intro i v hv
      by_cases hi : i = workerIdx u.fileID
      · rw [hi, update_self, List.mem_append, List.mem_singleton] at hv
        rcases hv with hv | rfl
        · exact (k.routed _ v hv).trans hi.symm
        · exact hi.symm
      · rw [update_of_ne hi] at hv
        exact k.routed i v hv }

def newMap (k : KernelMaps) (maxEntries : ℕ) : KernelMaps :=
  { k with innerMaps := k.innerMaps ++ [⟨maxEntries, []⟩] }

def fillLast (k : KernelMaps) (entries : List StackDeltaEntry) : KernelMaps :=
  { k with innerMaps := k.innerMaps.modify (k.innerMaps.length - 1) fun m =>
    { m with entries := entries } }

def insertPages (k : KernelMaps) (fileID : FileID) (entries : List (ℕ × StackDeltaPageInfo)) :
    KernelMaps :=
  { k with pages := fun id page =>
      if id = fileID then (entries.lookup page).or (k.pages id page) else k.pages id page }

def deletePages (k : KernelMaps) (fileID : FileID) (keys : List ℕ) : KernelMaps :=
  { k with pages := fun id page => if id = fileID ∧ page ∈ keys then none else k.pages id page }

/-- `Update` and `Delete` of an entry of an outer map; an entry is not replaced. -/
def applyUpdate (inner entry : Option ℕ) : Option ℕ :=
  match inner with
  | none => none
  | some n => entry.or (some n)

def dequeue (k : KernelMaps) (i : ℕ) : KernelMaps :=
  { k with
    queues := update k.queues i (k.queues i).tail
    routed := by
      intro j v hv
      by_cases hj : j = i
      · rw [hj, update_self] at hv
        exact hj ▸ k.routed i v (List.mem_of_mem_tail hv)
      · rw [update_of_ne hj] at hv
        exact k.routed j v hv }

def execute (k : KernelMaps) (u : MapUpdate) : KernelMaps :=
  { k with outerMaps := fun outer id =>
      if outer = u.outer ∧ id = u.fileID then applyUpdate u.inner (k.outerMaps outer id)
      else k.outerMaps outer id }

/-- A round of `serve`: worker `i` executes its next update, which may fail. -/
def serve (k : KernelMaps) (i : ℕ) (failure : Option String) : KernelMaps :=
  match (k.queues i).head? with
  | none => k
  | some u =>
    match failure with
    | some _ => k.dequeue i
    | none => (k.dequeue i).execute u

end KernelMaps

/-! ## Outcomes -/

/-- A batch that failed, after some elements had been written. -/
structure BatchFailure where
  err : String
  written : ℕ

/-- A failed batch of pages. `tooBig` is `E2BIG`; `batchDelete` counts the keys deleted by a batch,
and `deleteFails` are those whose own delete fails. -/
structure PageFailure extends BatchFailure where
  tooBig : Bool
  batchDelete : Option ℕ
  deleteFails : ℕ → Bool

/-- The outcomes of the kernel operations of `loadDeltas`. -/
structure MapOutcome where
  updateUnwindInfo : BitVec 16 → UnwindInfo → Option String
  maximizeMemlock : Option String
  newMap : Option String
  clone : Option String
  fill : Option BatchFailure
  pages : Option PageFailure

/-! ## Loading -/

namespace KernelMaps

def fillFailure (outcome : MapOutcome) (mapID numDeltas : ℕ) : Option BatchFailure :=
  if 2 ^ mapID < numDeltas then some ⟨"argument list too long", 2 ^ mapID⟩ else outcome.fill

def entriesOf (deltas : List StackDeltaEBPF) : List StackDeltaEntry :=
  deltas.map fun d => ⟨d.addressLow, d.unwindInfo⟩

/-- `UpdateExeIDToStackDeltas`: the outer map is queued before the inner one is filled. -/
def updateExeIDToStackDeltas
    (outcome : MapOutcome) (fileID : FileID) (deltas : List StackDeltaEBPF) :
    Comp KernelMaps ℕ := do
  match getMapID (deltas.length % 2 ^ 32) with
  | .error err => Comp.error err
  | .ok mapID =>
    match outcome.maximizeMemlock with
    | some err => Comp.error s!"failed to increase rlimit: {err}"
    | none =>
      match outcome.newMap with
      | some err => Comp.error s!"failed to create inner map: {err}"
      | none => do
        let k ← Comp.get
        let inner := k.innerMaps.length
        Comp.set (k.newMap (2 ^ mapID))
        match outcome.clone with
        | some err => Comp.error s!"failed to clone inner map: {err}"
        | none => do
          Comp.modify fun k => k.enqueueUpdate ⟨mapID, fileID, some inner⟩
          match fillFailure outcome mapID deltas.length with
          | some failure => do
            Comp.modify fun k => k.fillLast (entriesOf (deltas.take failure.written))
            let hex := String.ofList (Nat.toDigits 16 fileID.toNat)
            Comp.error
              s!"failed to batch insert {deltas.length} elements for 0x{hex} into exeIDTostack_deltas: {failure.err}"
          | none => do
            Comp.modify fun k => k.fillLast (entriesOf deltas)
            return mapID

def deleteExeIDToStackDeltas (fileID : FileID) (mapID : ℕ) : Comp KernelMaps Unit :=
  if mapID < stackDeltaBucketSmallest ∨ stackDeltaBucketLargest < mapID then
    Comp.error s!"invalid mapID {mapID}"
  else Comp.modify fun k => k.enqueueUpdate ⟨mapID, fileID, none⟩

def pageFailure (k : KernelMaps) (outcome : Option PageFailure) (numPages : ℕ) :
    Option PageFailure :=
  if k.pageCapacity < numPages then
    some (outcome.getD ⟨⟨"argument list too long", k.pageCapacity⟩, true, none, fun _ => false⟩)
  else outcome

/-- What a failed `UpdateStackDeltaPages` leaves: it deletes the inserted keys, or each key. -/
def revertPages (k : KernelMaps) (failure : PageFailure) (fileID : FileID) (keys : List ℕ) :
    KernelMaps :=
  let single := keys.filter fun page => !failure.deleteFails page
  if failure.tooBig then
    match failure.batchDelete with
    | none => k.deletePages fileID (keys.take failure.written)
    | some n => (k.deletePages fileID (keys.take n)).deletePages fileID single
  else k.deletePages fileID single

def updateStackDeltaPages (outcome : Option PageFailure) (fileID : FileID)
    (numDeltasPerPage : List (BitVec 16)) (mapID firstPageAddr : ℕ) : Comp KernelMaps Unit := do
  let entries := StackDeltas.updateStackDeltaPages numDeltasPerPage mapID firstPageAddr
  let k ← Comp.get
  match k.pageFailure outcome entries.length with
  | none => Comp.set (k.insertPages fileID entries)
  | some failure => do
    Comp.set ((k.insertPages fileID (entries.take failure.written)).revertPages failure fileID
      (entries.map Prod.fst))
    Comp.error failure.err

end KernelMaps

/-! ## The manager with its maps -/

/-- The manager and the kernel maps. -/
structure System (ι : Type) where
  manager : ManagerState ι
  maps : KernelMaps

variable {ι : Type}

namespace System

def setMaps (k : KernelMaps) (s : System ι) : System ι := { s with maps := k }

def setManager (m : ManagerState ι) (s : System ι) : System ι := { s with manager := m }

end System

def onManager {α : Type} (x : Comp (ManagerState ι) α) : Comp (System ι) α :=
  Comp.zoom System.manager System.setManager x

def onMaps {α : Type} (x : Comp KernelMaps α) : Comp (System ι) α :=
  Comp.zoom System.maps System.setMaps x

/-- The end of `loadDeltas`, from `UpdateStackDeltaPages` on. -/
def storePages (outcome : MapOutcome) (fileID : FileID) (intervals : IntervalData) (loader : Loader)
    (mapID : ℕ) : Comp (System ι) MapRef := do
  let firstPageAddr := firstPage intervals * 2 ^ stackDeltaPageBits
  match ← Comp.attempt (onMaps (KernelMaps.updateStackDeltaPages outcome.pages fileID
      loader.numDeltasPerPage mapID firstPageAddr)) with
  | .error err => do
    let _ ← Comp.attempt (onMaps (KernelMaps.deleteExeIDToStackDeltas fileID mapID))
    Comp.error s!"failed UpdateStackDeltaPages for FileID {hex fileID.toNat}: {err}"
  | .ok () => onManager do
    let m ← Comp.get
    Comp.set (m.setPages ((m.numStackDeltaMapPages + numPages intervals) % 2 ^ 64))
    return { startPage := firstPageAddr
             numPages := numPages intervals % 2 ^ 32
             mapID := mapID }

/-- The part of `loadDeltas` behind the conversion of the deltas. -/
def storeDeltas
    (outcome : MapOutcome) (fileID : FileID) (intervals : IntervalData) (loader : Loader) :
    Comp (System ι) MapRef := do
  let mapID ← Comp.wrapError s!"failed UpdateExeIDToStackDeltas for FileID {hex fileID.toNat}"
    (onMaps (KernelMaps.updateExeIDToStackDeltas outcome fileID loader.ebpfDeltas))
  storePages outcome fileID intervals loader mapID

/-- `loadDeltas`, with the maps. -/
def loadIntoMaps (outcome : MapOutcome) (fileID : FileID) (intervals : IntervalData) :
    Comp (System ι) MapRef := do
  if intervals.numDeltas = 0 then
    return {}
  else
    let loader ← onManager (Comp.zoom unwindTable setTable
      (convertDeltas outcome.updateUnwindInfo intervals))
    storeDeltas outcome fileID intervals loader

/-- What one call finds in the kernel. -/
structure MapsCall (ι : Type) where
  deferred : Bool
  extracted : Except String IntervalData
  synthesized : Except String IntervalData
  load : MapOutcome
  info : ι

def MapsCall.intervals (call : MapsCall ι) : Except String IntervalData :=
  match call.extracted with
  | .error err => .error s!"failed to extract interval data: {err}"
  | .ok intervals => if intervals.blocks = [] then call.synthesized else .ok intervals

/-- `AddOrIncRef`, with the maps. -/
def addIntoMaps (fileID : FileID) (call : MapsCall ι) : Comp (System ι) ι := do
  if call.deferred then
    Comp.error "deferred FileID"
  else
    let s ← Comp.get
    match s.manager.executables.lookup fileID with
    | some e => onManager (incRef fileID e)
    | none =>
      match call.intervals with
      | .error err => Comp.error err
      | .ok intervals => do
        let ref ← Comp.wrapError "failed to load deltas" (loadIntoMaps call.load fileID intervals)
        onManager
          (Comp.modify fun m => m.insertEntry fileID { info := call.info, mapRef := ref, rc := 1 })
        return call.info

/-! ## Unloading -/

/-- The pages of a file that `DeleteStackDeltaPage` takes out. -/
def deletedPages (outcome : FileID → ℕ → Option String) (fileID : FileID) (ref : MapRef) : List ℕ :=
  ref.pageAddrs.filter fun page => (outcome fileID page).isNone

/-- `unloadDeltas`, with the outcomes of `DeleteStackDeltaPage` by address. -/
def unloadFromMaps (outcome : FileID → ℕ → Option String) (fileID : FileID) (ref : MapRef) :
    Comp (System ι) Unit := do
  if ref.mapID = 0 then
    return ()
  else
    onMaps (Comp.modify fun k => k.deletePages fileID (deletedPages outcome fileID ref))
    onManager (Comp.modify fun m => m.setPages (subWord 64 m.numStackDeltaMapPages ref.numPages))
    let last ← Comp.attempt (onMaps (KernelMaps.deleteExeIDToStackDeltas fileID ref.mapID))
    let lastErr := match last with
      | .error err => [err]
      | .ok () => []
    match ref.pageAddrs.filterMap (outcome fileID) ++ lastErr with
    | [] => return ()
    | errs => Comp.error ("\n".intercalate errs)

/-- One round of the loop of `CleanupUnused`, with the maps. -/
def cleanupFromMaps (outcome : FileID → ℕ → Option String) (cutoff : Time) (fileID : FileID) :
    Comp (System ι) Unit := do
  let s ← Comp.get
  match s.manager.unusedExecutables.lookup fileID with
  | none => return ()
  | some unusedSince =>
    if cutoff < unusedSince then
      return ()
    else
      match s.manager.executables.lookup fileID with
      | none =>
        Comp.error
          s!"FileID {fileID.toNat} is in state.unusedExecutables, but not in state.executables"
      | some e =>
        if e.rc ≠ 0 then
          Comp.error s!"FileID {fileID.toNat} has rc={e.rc} when zero is expected"
        else do
          Comp.wrapError s!"failed remove fileID 0x{hex fileID.toNat} from BPF maps"
            (unloadFromMaps outcome fileID e.mapRef)
          onManager (Comp.modify fun m => m.removeEntry fileID)

/-- `CleanupUnused`, with the maps, for the file IDs in the order of the loop. -/
def cleanupAllFromMaps (outcome : FileID → ℕ → Option String) (cutoff : Time) :
    List FileID → Comp (System ι) Unit
  | [] => return ()
  | fileID :: order => do
    cleanupFromMaps outcome cutoff fileID
    cleanupAllFromMaps outcome cutoff order

/-! ## Runs -/

/-- A call of the manager, or a round of a worker. -/
inductive MapsEvent (ι : Type)
  | add (fileID : FileID) (call : MapsCall ι)
  | decRef (fileID : FileID) (now : Time)
  | cleanup (outcome : FileID → ℕ → Option String) (cutoff : Time) (order : List FileID)
  | serve (worker : ℕ) (failure : Option String)

def System.step (s : System ι) : MapsEvent ι → System ι
  | .add fileID call => ((addIntoMaps fileID call).exec s).2
  | .decRef fileID now => s.setManager ((decRef fileID now).exec s.manager).2
  | .cleanup outcome cutoff order => ((cleanupAllFromMaps outcome cutoff order).exec s).2
  | .serve worker failure => s.setMaps (s.maps.serve worker failure)

/-! ## What lookups see -/

/-- An entry of an outer map after a list of updates. -/
def settle (outer : ℕ) (id : FileID) (updates : List MapUpdate) (entry : Option ℕ) : Option ℕ :=
  updates.foldl (fun entry u =>
    if outer = u.outer ∧ id = u.fileID then KernelMaps.applyUpdate u.inner entry else entry) entry

/-- The maps once all updates in the queues are executed. -/
def KernelMaps.drained (k : KernelMaps) : KernelMaps :=
  { k with
    outerMaps := fun outer id => settle outer id (k.queues (workerIdx id)) (k.outerMaps outer id)
    queues := fun _ => []
    routed := by
      intro i u hu
      exact absurd hu List.not_mem_nil }

def System.new (pageCapacity : ℕ) (hlt : pageCapacity < 2 ^ 32) : System ι :=
  ⟨ManagerState.new, ⟨[], fun _ _ => none, fun _ _ => none, pageCapacity, hlt, fun _ => [],
    fun _ _ h => absurd h List.not_mem_nil⟩⟩

/-- The maps as `get_stack_delta` reads them. -/
def KernelMaps.view (k : KernelMaps) : StackDeltaMaps where
  stackDeltaPageToInfo id page := k.pages (BitVec.ofNat 64 id) page
  exeIDToStackDeltas outer id :=
    (k.outerMaps outer (BitVec.ofNat 64 id)).bind fun n => k.innerMaps[n]?

end EbpfProfiler.ExecInfo
