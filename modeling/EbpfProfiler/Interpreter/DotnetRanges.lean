import EbpfProfiler.Interpreter.JitAreas
import EbpfProfiler.Interpreter.RemoteMemory
import EbpfProfiler.Lib.Bisect

/-!
# The code ranges of .NET

`SynchronizeMappings` (`dotnet/instance.go`) walks the code structures of the runtime in arbitrary
memory. What only serves symbolization is left out.
-/

namespace EbpfProfiler.Interpreter

open Lib Lpm ProcessManager
open Wire (Word)

/-! ## Introspection data -/

/-- The offsets of `dotnetCdac.Types` that the walks use. -/
structure DotnetTypes where
  rangeBegin : ℕ
  rangeEndOpen : ℕ
  flags : ℕ
  rangeList : ℕ
  heapList : ℕ
  r2rModule : ℕ
  rangeSectionNext : ℕ
  rangeSectionSizeOf : ℕ
  rangeListType : ℕ
  mapBase : ℕ
  headerMap : ℕ
  codeHeapListNodeSizeOf : ℕ
  stubPrecodeRangeList : ℕ
  fixupPrecodeRangeList : ℕ
  stubManagerSizeOf : ℕ
  virtualCallStubManagerNext : ℕ
  lockedRangeListSizeOf : ℕ

/-- The slots of the DAC table. -/
structure DacTable where
  executionManagerCodeRangeList : ℕ
  precodeStubManager : ℕ
  stubLinkStubManager : ℕ
  thunkHeapStubManager : ℕ
  delegateInvokeStubManager : ℕ
  virtualCallStubManagerManager : ℕ

/-- What the runtime's descriptor gives. -/
structure DotnetCdac where
  types : DotnetTypes
  dacTable : DacTable
  executionManager : ℕ

/-- `dotnetData` with the bias of the library in the process. -/
structure DotnetData where
  /-- The upper byte of the version. -/
  major : ℕ
  dacTableAddr : Word
  bias : Word

/-- `dotnetMapping` without the information about the file. -/
structure DotnetMapping where
  start : Word
  «end» : Word

/-- The fields of `dotnetInstance`, without those of its `rangeWalker`. -/
structure DotnetInstance where
  codeRangeListPtr : Word
  precodeStubManagerPtr : Word
  stubLinkStubManagerPtr : Word
  thunkHeapStubManagerPtr : Word
  delegateInvokeStubManagerPtr : Word
  virtualCallStubManagerManagerPtr : Word
  mappings : List DotnetMapping
  ranges : Table Word (List Prefix)
  seenAddress : List Word

def DotnetInstance.new : DotnetInstance := ⟨0, 0, 0, 0, 0, 0, [], ∅, []⟩

/-- What a call learns: introspection data, memory, mappings, and sizes of PE images. -/
structure DotnetCall where
  cdac : Except String DotnetCdac
  rm : RemoteMemory
  mappings : List RawMapping
  peInfo : RawMapping → Except String (BitVec 32)

/-! ## Ranges -/

def codeStubPrecode : ℕ := 2
def codeStubFixupPrecode : ℕ := 5
def codeStubVirtualCallDispatch : ℕ := 6
def codeStubVirtualCallResolve : ℕ := 7
def codeStubVirtualCallLookup : ℕ := 8
def codeStubVirtualCallVtable : ℕ := 9
def codeStubLink : ℕ := 10
def codeStubThunkHeap : ℕ := 11
def codeStubDelegateInvoke : ℕ := 12
def codeStubVirtualCallCacheEntry : ℕ := 13
def codeReadyToRun : ℕ := 15
def codeFlagLeaf : Word := 0x80

/-- Stub types that have no stack frame. -/
def leafStubs : List Word :=
  [codeStubPrecode, codeStubFixupPrecode, codeStubLink, codeStubThunkHeap, codeStubDelegateInvoke,
    codeStubVirtualCallVtable].map (BitVec.ofNat 64)

def DotnetCdac.unwinder (cdac : DotnetCdac) : BitVec 8 := if 2 ≤ cdac.executionManager then 9 else 8

/-- `addRange`. An error of the handler is logged. -/
def addRange (cdac : DotnetCdac) (lowAddress highAddress mapBase stubTypeOrHdrMap : Word) :
    Comp (Tracked DotnetInstance) Unit :=
  match calculatePrefixList lowAddress.toNat highAddress.toNat with
  | .error _ => pure ()
  | .ok ps => do
    let fileID := if stubTypeOrHdrMap ∈ leafStubs then stubTypeOrHdrMap ||| codeFlagLeaf
      else stubTypeOrHdrMap
    modifyInst fun i => { i with ranges := i.ranges.insert lowAddress ps }
    Comp.each (fun p => do
      let _ ← Comp.attempt (updatePidInterpreterMapping p cdac.unwinder fileID mapBase)
      pure ()) ps

def maxRangeSectionWalkNodes : ℕ := 1 <<< 20

def markSeen (a : Word) : Comp (Tracked DotnetInstance) Bool := do
  let s ← Comp.get
  if a ∈ s.inst.seenAddress then pure false
  else if maxRangeSectionWalkNodes ≤ s.inst.seenAddress.length then
    Comp.error s!"range walk exceeded {maxRangeSectionWalkNodes}-node limit"
  else do
    modifyInst fun i => { i with seenAddress := a :: i.seenAddress }
    pure true

def newRangeWalker : Comp (Tracked DotnetInstance) Unit :=
  modifyInst fun i => { i with seenAddress := [] }

/-- The ranges of a block in `walkRangeList`, and whether the walk goes on. -/
def walkBlock (cdac : DotnetCdac) (codeType : ℕ) (block : List Byte) :
    List ℕ → Comp (Tracked DotnetInstance) Bool
  | [] => pure true
  | index :: rest => do
    let startAddr := npsrPtr block (index * 24)
    let endAddr := npsrPtr block (index * 24 + 8)
    let id := npsrPtr block (index * 24 + 16)
    if startAddr = 0 ∨ endAddr = 0 ∨ id = 0 then pure false
    else do
      let s ← Comp.get
      if startAddr ∉ s.inst.ranges then
        addRange cdac startAddr endAddr startAddr (BitVec.ofNat 64 codeType)
      walkBlock cdac codeType block rest

/-- The loop of `walkRangeList` over blocks of ten ranges. -/
def walkBlocks (cdac : DotnetCdac) (rm : RemoteMemory) (codeType : ℕ) :
    ℕ → Word → Comp (Tracked DotnetInstance) Unit
  | 0, _ => Comp.hang
  | fuel + 1, blockPtr => do
    if blockPtr = 0 then pure ()
    else do
      let fresh ← markSeen blockPtr
      if fresh then
        match rm.read blockPtr 248 with
        | .error _ => pure ()
        | .ok block => do
          let goOn ← walkBlock cdac codeType block (List.range 10)
          if goOn then walkBlocks cdac rm codeType fuel (npsrPtr block 240)

/-- `walkRangeList`: its errors end the walk, which marks a limited number of blocks. -/
def walkRangeList (cdac : DotnetCdac) (rm : RemoteMemory) (headPtr : Word) (codeType : ℕ) :
    Comp (Tracked DotnetInstance) Unit := do
  newRangeWalker
  let _ ← Comp.attempt (walkBlocks cdac rm codeType (maxRangeSectionWalkNodes + 2) (headPtr + 8))
  pure ()

/-- `getPEInfoByAddress` finds a mapping. -/
def hasPEInfo (mappings : List DotnetMapping) (a : Word) : Bool :=
  match mappings[firstPassing
    (fun i => (mappings[i]?).any fun m => a < m.end) mappings.length]? with
  | some m => m.start ≤ a
  | none => false

/-- The end of `addRangeSection`, for a code heap or a module. -/
def addHeapOrModule (cdac : DotnetCdac) (rm : RemoteMemory) (mappings : List DotnetMapping)
    (rangeSection : List Byte) (lowAddress highAddress : Word) (flags : BitVec 32) :
    Comp (Tracked DotnetInstance) Unit :=
  let vms := cdac.types
  if flags &&& 2 ≠ 0 then
    match rm.read (npsrPtr rangeSection vms.heapList) vms.codeHeapListNodeSizeOf with
    | .error err => Comp.error err
    | .ok heapList =>
      addRange cdac lowAddress highAddress (npsrPtr heapList vms.mapBase)
        (npsrPtr heapList vms.headerMap)
  else if hasPEInfo mappings lowAddress then
    addRange cdac lowAddress highAddress lowAddress (BitVec.ofNat 64 codeReadyToRun)
  else pure ()

def addRangeSection (cdac : DotnetCdac) (rm : RemoteMemory) (rangeSection : List Byte) :
    Comp (Tracked DotnetInstance) Unit := do
  let vms := cdac.types
  let lowAddress := npsrPtr rangeSection vms.rangeBegin
  let highAddress := npsrPtr rangeSection vms.rangeEndOpen
  let flags := npsrUint32 rangeSection vms.flags
  let s ← Comp.get
  if lowAddress ∈ s.inst.ranges then pure ()
  else do
    if vms.rangeList ≠ 0 ∧ flags &&& 4 ≠ 0 then
      let rangeListPtr := npsrPtr rangeSection vms.rangeList
      let stubKind := rm.uint32 (rangeListPtr + BitVec.ofNat 64 vms.rangeListType)
      addRange cdac lowAddress highAddress lowAddress (stubKind.setWidth 64)
    addHeapOrModule cdac rm s.inst.mappings rangeSection lowAddress highAddress flags

/-- The loop of `walkRangeSectionList`. -/
def walkSections (cdac : DotnetCdac) (rm : RemoteMemory) :
    ℕ → Word → Comp (Tracked DotnetInstance) Unit
  | 0, _ => Comp.hang
  | fuel + 1, ptr => do
    if ptr = 0 then pure ()
    else do
      let fresh ← markSeen ptr
      if fresh then
        match rm.read ptr cdac.types.rangeSectionSizeOf with
        | .error err => Comp.error err
        | .ok rangeSection => do
          addRangeSection cdac rm rangeSection
          walkSections cdac rm fuel (npsrPtr rangeSection cdac.types.rangeSectionNext)

/-- `walkRangeSectionList`, for .NET 6 and 7. -/
def walkRangeSectionList (cdac : DotnetCdac) (rm : RemoteMemory) :
    Comp (Tracked DotnetInstance) Unit := do
  newRangeWalker
  let s ← Comp.get
  walkSections cdac rm (maxRangeSectionWalkNodes + 2) (rm.ptr s.inst.codeRangeListPtr)

/-- `walkRangeSectionMapFragments`; the lowest bit marks collectible pointers. -/
def walkRangeSectionMapFragments (cdac : DotnetCdac) (rm : RemoteMemory) :
    ℕ → Word → Comp (Tracked DotnetInstance) Unit
  | 0, _ => Comp.hang
  | fuel + 1, fragmentPtr => do
    if fragmentPtr = 0 then pure ()
    else do
      let fresh ← markSeen fragmentPtr
      if fresh then
        match rm.read fragmentPtr 32 with
        | .error err => Comp.error s!"failed to read fragment: {err}"
        | .ok fragment => do
          let rangeSectionPtr := npsrPtr fragment 24
          let freshSection ← markSeen rangeSectionPtr
          if freshSection then
            match rm.read rangeSectionPtr cdac.types.rangeSectionSizeOf with
            | .error err => Comp.error s!"failed to read range section: {err}"
            | .ok rangeSection => addRangeSection cdac rm rangeSection
          walkRangeSectionMapFragments cdac rm fuel (npsrPtr fragment 0 &&& ~~~1)

/-- `walkRangeSectionMapLevel`, with the number of levels below this one. -/
def walkRangeSectionMapLevel (cdac : DotnetCdac) (rm : RemoteMemory) :
    ℕ → Word → Comp (Tracked DotnetInstance) Unit
  | below, levelMapPtr =>
    match rm.read levelMapPtr 2048 with
    | .error err => Comp.error s!"failed to read section level: {err}"
    | .ok levelPointers =>
      Comp.each (fun index => do
        let ptr := npsrPtr levelPointers (8 * index) &&& ~~~1
        if ptr = 0 then pure ()
        else
          match below with
          | 0 => walkRangeSectionMapFragments cdac rm (maxRangeSectionWalkNodes + 2) ptr
          | below + 1 => do
            let fresh ← markSeen ptr
            if fresh then walkRangeSectionMapLevel cdac rm below ptr) (List.range 256)

/-- `walkRangeSectionMap`, from .NET 8 on. -/
def walkRangeSectionMap (cdac : DotnetCdac) (rm : RemoteMemory) :
    Comp (Tracked DotnetInstance) Unit := do
  newRangeWalker
  let s ← Comp.get
  walkRangeSectionMapLevel cdac rm 4 s.inst.codeRangeListPtr

/-- `walkRangeSectionsMethod`; the loader accepts versions 6 to 10. -/
def walkRangeSections (data : DotnetData) (cdac : DotnetCdac) (rm : RemoteMemory) :
    Comp (Tracked DotnetInstance) Unit :=
  if data.major = 6 ∨ data.major = 7 then walkRangeSectionList cdac rm
  else walkRangeSectionMap cdac rm

/-! ## Synchronization -/

/-- `getDacSlot`: offsets in .NET 6, and pointers from .NET 7 on. -/
def getDacSlot (data : DotnetData) (rm : RemoteMemory) (slot : ℕ) : Word :=
  let dacTable := data.bias + data.dacTableAddr
  if data.major = 6 then
    let rva := rm.uint32 (dacTable + BitVec.ofNat 64 (slot * 4))
    if rva ≠ 0 then data.bias + rva.setWidth 64 else 0
  else rm.ptr (dacTable + BitVec.ofNat 64 (slot * 8))

def getDacSlotPtr (data : DotnetData) (rm : RemoteMemory) (slot : ℕ) : Word :=
  let ptr := getDacSlot data rm slot
  if ptr = 0 then 0 else rm.ptr ptr

/-- An unknown pointer is looked up if the version has a slot for it. -/
def resolveSlot (data : DotnetData) (rm : RemoteMemory) (known : Word) (slot : ℕ) : Word :=
  if known = 0 ∧ slot ≠ 0 then getDacSlotPtr data rm slot else known

/-- The pointers to the stub managers. -/
def resolveStubManagers (data : DotnetData) (rm : RemoteMemory) (dac : DacTable)
    (i : DotnetInstance) : DotnetInstance :=
  { i with
    precodeStubManagerPtr := resolveSlot data rm i.precodeStubManagerPtr dac.precodeStubManager
    stubLinkStubManagerPtr := resolveSlot data rm i.stubLinkStubManagerPtr dac.stubLinkStubManager
    thunkHeapStubManagerPtr :=
      resolveSlot data rm i.thunkHeapStubManagerPtr dac.thunkHeapStubManager
    delegateInvokeStubManagerPtr :=
      resolveSlot data rm i.delegateInvokeStubManagerPtr dac.delegateInvokeStubManager
    virtualCallStubManagerManagerPtr :=
      resolveSlot data rm i.virtualCallStubManagerManagerPtr dac.virtualCallStubManagerManager }

/-- The loop over mappings of PE files: those found, the last file and its image's end. -/
def collectMappings (peInfo : RawMapping → Except String (BitVec 32)) :
    List RawMapping → List DotnetMapping → Word × Word → Word → Except String (List DotnetMapping)
  | [], found, _, _ => .ok found
  | m :: ms, found, prevKey, prevMaxVA =>
    if m.isAnonymous || !(m.path.endsWith ".dll") then
      collectMappings peInfo ms found prevKey prevMaxVA
    else if prevKey = (m.device, m.inode) ∧ m.vaddr < prevMaxVA then
      -- a further section of the same image
      let extended :=
        found.modify (found.length - 1) fun d => { d with «end» := m.vaddr + m.length }
      collectMappings peInfo ms extended prevKey prevMaxVA
    else
      match peInfo m with
      | .error err => .error err
      | .ok sizeOfImage =>
        collectMappings peInfo ms (found ++ [⟨m.vaddr, m.vaddr + m.length⟩]) (m.device, m.inode)
          (m.vaddr + sizeOfImage.setWidth 64)

/-- The range lists of a `VirtualCallStubManager`. -/
def virtualCallLists (data : DotnetData) (vms : DotnetTypes) (rangeListPtr : Word) :
    List (Word × ℕ) :=
  let next (k : ℕ) := rangeListPtr + BitVec.ofNat 64 (k * vms.lockedRangeListSizeOf)
  match data.major with
  | 7 => [(next 0, codeStubVirtualCallLookup), (next 1, codeStubVirtualCallResolve),
      (next 2, codeStubVirtualCallDispatch), (next 3, codeStubVirtualCallCacheEntry),
      (next 4, codeStubVirtualCallVtable)]
  | 8 => [(rangeListPtr, codeStubVirtualCallCacheEntry)]
  | _ => []

/-- The loop over the `VirtualCallStubManager`s, of which at most ten are followed. -/
def walkVirtualCalls (data : DotnetData) (cdac : DotnetCdac) (rm : RemoteMemory) :
    ℕ → Word → Comp (Tracked DotnetInstance) Unit
  | 0, _ => pure ()
  | n + 1, managerPtr => do
    if managerPtr = 0 then pure ()
    else do
      let lists := virtualCallLists data cdac.types
        (managerPtr + BitVec.ofNat 64 cdac.types.stubManagerSizeOf)
      Comp.each (fun l => walkRangeList cdac rm l.1 l.2) lists
      walkVirtualCalls data cdac rm n
        (rm.ptr (managerPtr + BitVec.ofNat 64 cdac.types.virtualCallStubManagerNext))

/-- The range lists of the stub managers that are known. -/
def stubLists (vms : DotnetTypes) (i : DotnetInstance) : List (Word × ℕ) :=
  let behind (manager : Word) (offset codeType : ℕ) : List (Word × ℕ) :=
    if manager ≠ 0 then [(manager + BitVec.ofNat 64 offset, codeType)] else []
  (if vms.stubPrecodeRangeList ≠ 0 then
    behind i.precodeStubManagerPtr vms.stubPrecodeRangeList codeStubPrecode else []) ++
  (if vms.fixupPrecodeRangeList ≠ 0 then
    behind i.precodeStubManagerPtr vms.fixupPrecodeRangeList codeStubFixupPrecode else []) ++
  behind i.stubLinkStubManagerPtr vms.stubManagerSizeOf codeStubLink ++
  behind i.thunkHeapStubManagerPtr vms.stubManagerSizeOf codeStubThunkHeap ++
  behind i.delegateInvokeStubManagerPtr vms.stubManagerSizeOf codeStubDelegateInvoke

/-- The walks of `SynchronizeMappings`; the first one's error is logged. -/
def walkRanges (data : DotnetData) (cdac : DotnetCdac) (rm : RemoteMemory) :
    Comp (Tracked DotnetInstance) Unit := do
  let _ ← Comp.attempt (walkRangeSections data cdac rm)
  let s ← Comp.get
  Comp.each (fun l => walkRangeList cdac rm l.1 l.2) (stubLists cdac.types s.inst)
  if s.inst.virtualCallStubManagerManagerPtr ≠ 0 ∧ cdac.types.virtualCallStubManagerNext ≠ 0 then
    walkVirtualCalls data cdac rm 10
      (rm.ptr (s.inst.virtualCallStubManagerManagerPtr +
        BitVec.ofNat 64 cdac.types.stubManagerSizeOf))

/-- `SynchronizeMappings` of .NET. -/
def dotnetSynchronize (data : DotnetData) (call : DotnetCall) :
    Comp (Tracked DotnetInstance) Unit :=
  match call.cdac with
  | .error err => Comp.error err
  | .ok cdac => do
    let s ← Comp.get
    let listPtr := if s.inst.codeRangeListPtr = 0
      then getDacSlot data call.rm cdac.dacTable.executionManagerCodeRangeList
      else s.inst.codeRangeListPtr
    modifyInst fun i => { i with codeRangeListPtr := listPtr }
    -- the runtime has not initialized itself yet
    if listPtr = 0 then pure ()
    else do
      modifyInst (resolveStubManagers data call.rm cdac.dacTable)
      match collectMappings call.peInfo call.mappings [] (0, 0) 0 with
      | .error err => Comp.error err
      | .ok mappings => do
        modifyInst fun i => { i with mappings := mappings }
        walkRanges data cdac call.rm

/-- `Detach` of .NET: `dotnetInstance` has only the empty one of `InstanceStubs`. -/
def dotnetDetach : Comp (Tracked DotnetInstance) Unit := pure ()

end EbpfProfiler.Interpreter
