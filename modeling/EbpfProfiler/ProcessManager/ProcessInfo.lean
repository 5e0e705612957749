import EbpfProfiler.ExecInfo.Manager
import EbpfProfiler.Lpm.PrefixList
import EbpfProfiler.ProcessManager.FrameCache
import Mathlib.Data.List.Sort

/-!
# Tracking the mappings of processes

`SynchronizeProcess` and `processPIDExit` (`processinfo.go`). What a call learns from outside is
part of the call. Left out are meta data, contexts, probes, lock and metrics.
-/

namespace EbpfProfiler.ProcessManager

open ExecInfo Lib Lpm Reporter Wire

/-! ## Mappings -/

/-- `host.FileIDFromLibpf`: the upper half. -/
def fileIDFromLibpf (id : BitVec 128) : FileID := (id >>> 64).setWidth 64

/-- A line of `/proc/PID/maps`. -/
structure RawMapping where
  vaddr : Word
  length : Word
  flags : BitVec 32
  fileOffset : Word
  device : Word
  inode : Word
  path : String
  deriving DecidableEq

namespace RawMapping

/-- `IsExecutable`: the flag `elf.PF_X`. -/
def isExecutable (m : RawMapping) : Bool := m.flags &&& 1 = 1

def isVDSO (m : RawMapping) : Bool := m.path = "linux-vdso.1.so"

def isMemFD (m : RawMapping) : Bool := m.path.startsWith "/memfd:"

def isPrctlNamed (m : RawMapping) : Bool := m.path.startsWith "[anon:"

def isFileBacked (m : RawMapping) : Bool :=
  m.path ≠ "" && !m.isVDSO && !m.isMemFD && !m.isPrctlNamed

def isAnonymous (m : RawMapping) : Bool := !m.isFileBacked && !m.isVDSO

/-- `mappingNeeded` in the callback of `SynchronizeProcess`. -/
def needed (m : RawMapping) : Bool := m.isExecutable && !m.isAnonymous

end RawMapping

/-- `Mapping`: a mapping that is tracked. -/
structure Mapping where
  vaddr : Word
  length : Word
  device : Word
  inode : Word
  frameMapping : FrameMappingData
  deriving DecidableEq

namespace Mapping

def fileID (m : Mapping) : FileID := fileIDFromLibpf m.frameMapping.file.fileID

def bias (m : Mapping) : Word := m.vaddr - m.frameMapping.start

/-- The end address, as `processNewMapping` and `processRemovedMapping` compute it. -/
def endAddr (m : Mapping) : Word := m.vaddr + m.frameMapping.end - m.frameMapping.start

def prefixList (m : Mapping) : Except Fault (List Prefix) :=
  calculatePrefixList m.vaddr.toNat m.endAddr.toNat

/-- `compareMapping(a, b) <= 0`. -/
def le (a b : Mapping) : Bool :=
  if a.fileID ≠ b.fileID then a.fileID < b.fileID else a.vaddr ≤ b.vaddr

end Mapping

/-! ## The map `pid_page_to_mapping_info` -/

def progUnwindNative : BitVec 8 := 1

/-- What the eBPF side finds for a page. -/
structure PidPageMappingInfo where
  fileID : Word
  biasAndUnwindProgram : Word
  deriving DecidableEq

def encodeBiasAndUnwindProgram (bias : Word) (unwindProgram : BitVec 8) : Except String Word :=
  if 0 < bias >>> 56 then .error s!"unsupported bias value (too large): 0x{hex bias.toNat}"
  else .ok (bias ||| unwindProgram.setWidth 64 <<< 56)

namespace PidPageMappingInfo

/-- `DecodeBiasAndUnwindProgram`, the bias. -/
def bias (v : PidPageMappingInfo) : Word := v.biasAndUnwindProgram &&& 0x00FFFFFFFFFFFFFF

/-- `DecodeBiasAndUnwindProgram`, the unwind program. -/
def unwindProgram (v : PidPageMappingInfo) : BitVec 8 := (v.biasAndUnwindProgram >>> 56).setWidth 8

/-- An entry of the process manager: interpreters register other unwind programs. -/
def isNative (v : PidPageMappingInfo) : Bool := v.unwindProgram = progUnwindNative

end PidPageMappingInfo

/-- The eBPF map: an LPM trie over the process ID and the address. -/
abbrev PidPageMap := Table (Pid × Prefix) PidPageMappingInfo

/-- The kernel's lookup: the entry with the longest matching prefix. -/
def PidPageMap.lookupPage (t : PidPageMap) (pid : Pid) (a : ℕ) : Option PidPageMappingInfo :=
  ((t.entries.filter fun e => e.1.1 = pid && e.1.2.covers a).argmax fun e => e.1.2.length).map
    (·.2)

/-- The outcomes of the kernel's updates and deletes: `none`, or the error. -/
structure KernelOutcome where
  update : Prefix → Option String
  delete : Prefix → Option String

def updatePidPageMappingInfo (kernel : KernelOutcome) (pid : Pid) (p : Prefix) (fileID bias : Word)
    (t : PidPageMap) : Except String PidPageMap :=
  match encodeBiasAndUnwindProgram bias progUnwindNative with
  | .error err => .error err
  | .ok value =>
    match kernel.update p with
    | some err => .error err
    | none => .ok (t.insert (pid, p) ⟨fileID, value⟩)

/-- One delete of `DeletePidPageMappingInfo`; a missing key is an error. -/
def deletePrefix (kernel : KernelOutcome) (pid : Pid) (r : ℕ × PidPageMap) (p : Prefix) :
    ℕ × PidPageMap :=
  if kernel.delete p = none ∧ (pid, p) ∈ r.2 then (r.1 + 1, r.2.erase (pid, p)) else r

/-- `DeletePidPageMappingInfo`: the number of entries removed, and the map. -/
def deletePidPageMappingInfo (kernel : KernelOutcome) (pid : Pid) (ps : List Prefix)
    (t : PidPageMap) : ℕ × PidPageMap :=
  ps.foldl (deletePrefix kernel pid) (0, t)

/-- `UpdatePidInterpreterMapping`, which replaces no entry, and `DeletePidInterpreterMapping`. -/
inductive InterpreterOp
  | update (p : Prefix) (value : PidPageMappingInfo)
  | delete (p : Prefix)
  deriving DecidableEq

def InterpreterOp.key : InterpreterOp → Prefix
  | update p _ => p
  | delete p => p

def InterpreterOp.apply (pid : Pid) (t : PidPageMap) : InterpreterOp → PidPageMap
  | update p value => if (pid, p) ∈ t then t else t.insert (pid, p) value
  | delete p => t.erase (pid, p)

def applyOps (pid : Pid) (ops : List InterpreterOp) (t : PidPageMap) : PidPageMap :=
  ops.foldl (InterpreterOp.apply pid) t

/-! ## State -/

/-- What is known about a process. -/
structure ProcessInfo where
  mappings : List Mapping
  deriving DecidableEq

/-- The state of `ProcessManager`. `pidPageToMappingInfoSize` counts at most `2 ^ 32` entries. -/
structure State (ι : Type) where
  pidToProcessInfo : Table Pid ProcessInfo
  exitEvents : Table Pid Time
  pidPageToMappingInfo : PidPageMap
  pidPageToMappingInfoSize : ℕ
  eim : ManagerState ι

variable {ι : Type}

def State.new : State ι := ⟨∅, ∅, ∅, 0, ManagerState.new⟩

/-- `dummyPrefix`: installed to indicate that a process is known. -/
def dummyPrefix : Prefix := ⟨0, 64⟩

/-! ## Adding and removing a mapping -/

/-- The loop of `processNewMapping`: it stops at the first error. -/
def addPrefixes (kernel : KernelOutcome) (pid : Pid) (fileID bias : Word) :
    List Prefix → PidPageMap → ℕ × PidPageMap
  | [], t => (0, t)
  | p :: ps, t =>
    match updatePidPageMappingInfo kernel pid p fileID bias t with
    | .error _ => (0, t)
    | .ok t =>
      let rest := addPrefixes kernel pid fileID bias ps t
      (rest.1 + 1, rest.2)

/-- `processNewMapping`, with the number of entries added so far. -/
def processNewMapping (kernel : KernelOutcome) (pid : Pid) (r : ℕ × PidPageMap) (m : Mapping) :
    ℕ × PidPageMap :=
  match m.prefixList with
  | .error _ => r
  | .ok ps =>
    let added := addPrefixes kernel pid m.fileID m.bias ps r.2
    (r.1 + added.1, added.2)

/-- What `processRemovedMapping` changes, with the number of entries deleted so far. -/
structure Removal (ι : Type) where
  deleted : ℕ
  map : PidPageMap
  eim : ManagerState ι

/-- `processRemovedMapping`. Without prefixes there is no `DecRef` either. -/
def processRemovedMapping (kernel : KernelOutcome) (now : Time) (pid : Pid) (r : Removal ι)
    (m : Mapping) : Removal ι :=
  match m.prefixList with
  | .error _ => r
  | .ok ps =>
    let deletion := deletePidPageMappingInfo kernel pid ps r.map
    ⟨r.deleted + deletion.1, deletion.2, ((decRef m.fileID now).exec r.eim).2⟩

def processRemovedMappings (kernel : KernelOutcome) (now : Time) (pid : Pid) (ms : List Mapping)
    (r : Removal ι) : Removal ι :=
  ms.foldl (processRemovedMapping kernel now pid) r

/-! ## Process exit -/

/-- `processPIDExit`, with the instances detached at its end. -/
def processPIDExit (kernel : KernelOutcome) (now : Time) (detach : List InterpreterOp) (pid : Pid)
    (s : State ι) : State ι :=
  match s.pidToProcessInfo.lookup pid with
  | none => s
  | some info =>
    if pid ∈ s.exitEvents then s
    else
      let dummy := deletePidPageMappingInfo kernel pid [dummyPrefix] s.pidPageToMappingInfo
      let r := processRemovedMappings kernel now pid info.mappings ⟨dummy.1, dummy.2, s.eim⟩
      { s with
        exitEvents := s.exitEvents.insert pid now
        pidPageToMappingInfo := applyOps pid detach r.map
        pidPageToMappingInfoSize :=
          s.pidPageToMappingInfoSize - min s.pidPageToMappingInfoSize r.deleted
        eim := r.eim }

/-- `ProcessedUntil` for one process. -/
def forgetProcess (detach : List InterpreterOp) (pid : Pid) (s : State ι) : State ι :=
  { s with
    pidToProcessInfo := s.pidToProcessInfo.erase pid
    exitEvents := s.exitEvents.erase pid
    pidPageToMappingInfo := applyOps pid detach s.pidPageToMappingInfo }

/-- `ProcessedUntil`: the processes that exited by then are forgotten. -/
def processedUntil (traceCaptureKTime : Time) (detach : Pid → List InterpreterOp) (s : State ι) :
    State ι :=
  s.exitEvents.entries.foldl
    (fun s e => if traceCaptureKTime < e.2 then s else forgetProcess (detach e.1) e.1 s) s

/-! ## Synchronization -/

/-- The errors of `IterateMappings`, as `SynchronizeProcess` tells them apart. -/
inductive IterateError
  | callbackStopped
  | permission
  | noMappings
  | notExist
  | other
  deriving DecidableEq

/-- `elfInfo` without an error. -/
structure ElfInfo where
  mappingFile : FrameMappingFileData
  fileOffsetToVirtualAddress : Word → Option Word

/-- A call of `SynchronizeProcess`, with all it depends on. -/
structure SyncCall (ι : Type) where
  /-- The mappings that `IterateMappings` passes to its callback. -/
  delivered : List RawMapping
  /-- How `IterateMappings` ends. -/
  result : Option IterateError
  /-- `getELFInfo`; `none` for an error. -/
  elfInfo : RawMapping → Option ElfInfo
  /-- What `AddOrIncRef` meets. -/
  add : RawMapping → AddCall ι
  kernel : KernelOutcome
  now : Time
  /-- What newly attached interpreter instances do to the map. -/
  attach : List InterpreterOp
  /-- What instances do when they are detached. -/
  detach : List InterpreterOp
  /-- What instances do in their `SynchronizeMappings`. -/
  synchronize : List InterpreterOp
  /-- The new interest in anonymous mappings, if it has changed. -/
  anonymousInterest : Option Bool

/-- The mapping `newFrameMapping` makes for a file that is mapped at `elfSpaceVA`. -/
def RawMapping.frameMapping (m : RawMapping) (file : FrameMappingFileData) (elfSpaceVA : Word) :
    FrameMappingData :=
  ⟨file, elfSpaceVA, elfSpaceVA + m.length, m.fileOffset⟩

/-- `newFrameMapping`: the mapping, if valid, and the reference taken. -/
def newFrameMapping (call : SyncCall ι) (m : RawMapping) (eim : ManagerState ι) :
    Option FrameMappingData × ManagerState ι :=
  match call.elfInfo m with
  | none => (none, eim)
  | some info =>
    match info.fileOffsetToVirtualAddress m.fileOffset with
    | none => (none, eim)
    | some elfSpaceVA =>
      match (addOrIncRef (fileIDFromLibpf info.mappingFile.fileID) (call.add m)).exec eim with
      | (.error _, eim) => (none, eim)
      | (.ok _, eim) => (some (m.frameMapping info.mappingFile elfSpaceVA), eim)

/-- The variables of `SynchronizeProcess` that the callback changes. -/
structure Collector (ι : Type) where
  mpRemove : Table Word Mapping
  mappings : List Mapping
  mpAdd : List Mapping
  eim : ManagerState ι

/-- The mapping that is tracked for a raw mapping. -/
def RawMapping.track (m : RawMapping) (fm : FrameMappingData) : Mapping :=
  ⟨m.vaddr, m.length, m.device, m.inode, fm⟩

/-- The old mapping is still there. -/
def Mapping.sameAs (old : Mapping) (m : RawMapping) : Bool :=
  old.length = m.length && old.device = m.device && old.inode = m.inode

def Collector.addNew (call : SyncCall ι) (st : Collector ι) (m : RawMapping) : Collector ι :=
  let r := newFrameMapping call m st.eim
  match r.1 with
  | none => { st with eim := r.2 }
  | some fm =>
    { st with
      mappings := st.mappings ++ [m.track fm]
      mpAdd := st.mpAdd ++ [m.track fm]
      eim := r.2 }

def Collector.keep (st : Collector ι) (m : RawMapping) (old : Mapping) : Collector ι :=
  { st with
    mpRemove := st.mpRemove.erase m.vaddr
    mappings := st.mappings ++ [m.track old.frameMapping] }

/-- The callback of `SynchronizeProcess`. -/
def Collector.deliver (call : SyncCall ι) (st : Collector ι) (m : RawMapping) : Collector ι :=
  if m.needed then
    match st.mpRemove.lookup m.vaddr with
    | some old => if old.sameAs m then st.keep m old else st.addNew call m
    | none => st.addNew call m
  else st

/-- The lookup map for the old mappings. -/
def removeTable (mappings : List Mapping) : Table Word Mapping :=
  mappings.foldl (fun t m => t.insert m.vaddr m) ∅

/-- All callbacks of an iteration. -/
def collect (call : SyncCall ι) (old : List Mapping) (eim : ManagerState ι) : Collector ι :=
  call.delivered.foldl (Collector.deliver call) ⟨removeTable old, [], [], eim⟩

def getOrCreateProcessInfo (kernel : KernelOutcome) (pid : Pid) (s : State ι) :
    Option (State ι × ProcessInfo) :=
  match s.pidToProcessInfo.lookup pid with
  | some info => some (s, info)
  | none =>
    match updatePidPageMappingInfo kernel pid dummyPrefix 0 0 s.pidPageToMappingInfo with
    | .error _ => none
    | .ok t =>
      some ({ s with
              pidPageToMappingInfo := t
              pidPageToMappingInfoSize := s.pidPageToMappingInfoSize + 1
              pidToProcessInfo := s.pidToProcessInfo.insert pid ⟨[]⟩ }, ⟨[]⟩)

/-- `updatePIDAnonymousMappingInterest`; an error is only logged. -/
def updateInterest (kernel : KernelOutcome) (pid : Pid) (interest : Option Bool)
    (t : PidPageMap) : PidPageMap :=
  match interest with
  | none => t
  | some enabled =>
    match updatePidPageMappingInfo kernel pid dummyPrefix (if enabled then 1 else 0) 0 t with
    | .error _ => t
    | .ok t => t

/-- `SynchronizeProcess` after the iteration: mappings that are gone are removed, in any order in
the source; new ones are added and published. -/
def finishSync (call : SyncCall ι) (pid : Pid) (st : Collector ι) (s : State ι) : State ι :=
  let r := processRemovedMappings call.kernel call.now pid (st.mpRemove.entries.map (·.2))
    ⟨0, s.pidPageToMappingInfo, st.eim⟩
  let size := s.pidPageToMappingInfoSize - min s.pidPageToMappingInfoSize r.deleted
  let t := updateInterest call.kernel pid call.anonymousInterest (applyOps pid call.detach r.map)
  let added := st.mpAdd.foldl (processNewMapping call.kernel pid) (0, t)
  { s with
    pidToProcessInfo :=
      s.pidToProcessInfo.insert pid ⟨st.mappings.insertionSort fun a b => a.le b⟩
    pidPageToMappingInfo := applyOps pid call.synchronize added.2
    pidPageToMappingInfoSize := size + added.1
    eim := r.eim }

/-- A failed iteration leaves references of the callback and what instances have done. -/
def afterCollect (call : SyncCall ι) (pid : Pid) (st : Collector ι) (s : State ι) : State ι :=
  { s with
    pidPageToMappingInfo := applyOps pid call.attach s.pidPageToMappingInfo
    eim := st.eim }

def synchronizeProcess (call : SyncCall ι) (pid : Pid) (s : State ι) : State ι :=
  if pid ∈ s.exitEvents then s
  else
    match getOrCreateProcessInfo call.kernel pid s with
    | none => s
    | some (s, info) =>
      let st := collect call info.mappings s.eim
      let s := afterCollect call pid st s
      match call.result with
      | none => finishSync call pid st s
      | some .callbackStopped => finishSync call pid st s
      | some .permission => s
      | some .noMappings => s
      | some .notExist => processPIDExit call.kernel call.now call.detach pid s
      | some .other => processPIDExit call.kernel call.now call.detach pid s

/-! ## Runs -/

/-- A call of the process manager, an instance that changes the map, or the cleanup timer. -/
inductive PmEvent (ι : Type)
  | synchronizeProcess (pid : Pid) (call : SyncCall ι)
  | processPIDExit (pid : Pid) (kernel : KernelOutcome) (now : Time) (detach : List InterpreterOp)
  | processedUntil (traceCaptureKTime : Time) (detach : Pid → List InterpreterOp)
  | interpreter (pid : Pid) (ops : List InterpreterOp)
  | cleanupUnused (outcome : UnloadOutcome) (cutoff : Time) (order : List FileID)

def State.step (s : State ι) : PmEvent ι → State ι
  | .synchronizeProcess pid call => synchronizeProcess call pid s
  | .processPIDExit pid kernel now detach => processPIDExit kernel now detach pid s
  | .processedUntil traceCaptureKTime detach => processedUntil traceCaptureKTime detach s
  | .interpreter pid ops =>
    { s with pidPageToMappingInfo := applyOps pid ops s.pidPageToMappingInfo }
  | .cleanupUnused outcome cutoff order =>
    { s with eim := ((cleanupUnused outcome cutoff order).exec s.eim).2 }

def State.run (s : State ι) (events : List (PmEvent ι)) : State ι := events.foldl State.step s

end EbpfProfiler.ProcessManager
