import EbpfProfiler.ProcessManager.ProcessInfo

/-!
# JIT areas in the PID page map

The instances of V8, BEAM, Ruby, PHP opcache and HotSpot with the prefixes they registered. What
a call learns from the process is part of the call; the eBPF operations succeed.
-/

namespace EbpfProfiler.Interpreter

open Lib Lpm ProcessManager
open Wire (Word)

/-! ## The handler -/

/-- An instance, what it did to the map, and the errors of the handler. -/
structure Tracked (ι : Type) where
  inst : ι
  ops : List InterpreterOp
  failures : List String

variable {ι : Type}

def updatePidInterpreterMapping (p : Prefix) (program : BitVec 8) (fileID bias : Word) :
    Comp (Tracked ι) Unit :=
  match encodeBiasAndUnwindProgram bias program with
  | .error err => do
    Comp.modify fun s => { s with failures := s.failures ++ [err] }
    Comp.error err
  | .ok value => Comp.modify fun s => { s with ops := s.ops ++ [.update p ⟨fileID, value⟩] }

def deletePidInterpreterMapping (p : Prefix) : Comp (Tracked ι) Unit :=
  Comp.modify fun s => { s with ops := s.ops ++ [.delete p] }

def modifyInst (f : ι → ι) : Comp (Tracked ι) Unit :=
  Comp.modify fun s => { s with inst := f s.inst }

/-! ## Prefixes with a tag

V8, BEAM, Ruby and HotSpot keep a Go map from the prefixes that they registered to a tag. -/

/-- The map of prefixes, and the other fields of an instance. -/
structure Registered (α ρ : Type) where
  prefixes : Table Prefix α
  own : ρ

variable {α ρ : Type}

def Registered.record (p : Prefix) (tag : α) (i : Registered α ρ) : Registered α ρ :=
  { i with prefixes := i.prefixes.insert p tag }

def Registered.forget (p : Prefix) (i : Registered α ρ) : Registered α ρ :=
  { i with prefixes := i.prefixes.erase p }

/-- A prefix that is not known is registered; its tag is set in any case. -/
def registerPrefix (program : BitVec 8) (tag : α) (p : Prefix) :
    Comp (Tracked (Registered α ρ)) Unit := do
  let s ← Comp.get
  if p ∉ s.inst.prefixes then
    updatePidInterpreterMapping p program 0 0
  modifyInst (Registered.record p tag)

/-- The loop under "Remove prefixes not seen". -/
def prunePrefixes (stale : α → Bool) : Comp (Tracked (Registered α ρ)) Unit := do
  let s ← Comp.get
  Comp.each (fun e => do
    if stale e.2 then
      deletePidInterpreterMapping e.1
      modifyInst (Registered.forget e.1)) s.inst.prefixes.entries

/-- The loop of `Detach`. -/
def deleteRecorded : Comp (Tracked (Registered α ρ)) Unit := do
  let s ← Comp.get
  Comp.each deletePidInterpreterMapping s.inst.prefixes.keys

/-- An area of generated code. -/
def isJitMapping (m : RawMapping) : Bool := m.isExecutable && m.isAnonymous

/-- The prefixes of a mapping, with the error of V8 and BEAM. -/
def mappingPrefixes (m : RawMapping) : Except String (List Prefix) :=
  match calculatePrefixList m.vaddr.toNat (m.vaddr + m.length).toNat with
  | .ok ps => .ok ps
  | .error _ =>
    .error s!"new anonymous mapping lpm failure 0x{hex m.vaddr.toNat}/0x{hex m.length.toNat}"

/-! ## V8 -/

def progUnwindV8 : BitVec 8 := 7

/-- The fields of `v8Instance`. A pointer to a generation is the index of a cell. -/
structure V8Own where
  mappings : Table RawMapping ℕ
  cells : List (BitVec 32)
  mappingGeneration : BitVec 32

abbrev V8Instance := Registered ℕ V8Own

def V8Instance.new : V8Instance := ⟨∅, ∅, [], 0⟩

/-- A mapping in the loop of `SynchronizeMappings`. -/
def v8Mapping (m : RawMapping) : Comp (Tracked V8Instance) Unit := do
  if isJitMapping m then
    let s ← Comp.get
    let own := s.inst.own
    match own.mappings.lookup m with
    | some cell =>
      modifyInst fun i =>
        { i with own := { own with cells := own.cells.set cell own.mappingGeneration } }
    | none =>
      -- the mapping is recorded before its prefixes are known
      modifyInst fun i =>
        { i with own := { own with
            mappings := own.mappings.insert m own.cells.length
            cells := own.cells ++ [own.mappingGeneration] } }
      match mappingPrefixes m with
      | .error err => Comp.error err
      | .ok ps => Comp.each (registerPrefix progUnwindV8 own.cells.length) ps

/-- The generation that a pointer leads to is not the current one. -/
def V8Own.stale (own : V8Own) (cell : ℕ) : Bool := own.cells[cell]? ≠ some own.mappingGeneration

/-- `SynchronizeMappings` of V8. -/
def v8Synchronize (mappings : List RawMapping) : Comp (Tracked V8Instance) Unit := do
  modifyInst fun i =>
    { i with own := { i.own with mappingGeneration := i.own.mappingGeneration + 1 } }
  Comp.each v8Mapping mappings
  let s ← Comp.get
  prunePrefixes s.inst.own.stale
  modifyInst fun i =>
    { i with own := { i.own with
        mappings := (i.own.mappings.entries.filter fun e => i.own.stale e.2).foldl
          (fun t e => t.erase e.1) i.own.mappings } }

/-! ## BEAM -/

def progUnwindBEAM : BitVec 8 := 0xa

/-- The fields of `beamInstance`. -/
structure BeamOwn where
  mappingGeneration : BitVec 32

abbrev BeamInstance := Registered (BitVec 32) BeamOwn

def BeamInstance.new : BeamInstance := ⟨∅, ⟨0⟩⟩

/-- A mapping in the loop of `SynchronizeMappings`. -/
def beamMapping (m : RawMapping) : Comp (Tracked BeamInstance) Unit := do
  if isJitMapping m then
    let s ← Comp.get
    match mappingPrefixes m with
    | .error err => Comp.error err
    | .ok ps => Comp.each (registerPrefix progUnwindBEAM s.inst.own.mappingGeneration) ps

/-- `SynchronizeMappings` of BEAM. -/
def beamSynchronize (mappings : List RawMapping) : Comp (Tracked BeamInstance) Unit := do
  modifyInst fun i => { i with own := ⟨i.own.mappingGeneration + 1⟩ }
  Comp.each beamMapping mappings
  let s ← Comp.get
  prunePrefixes fun generation => generation ≠ s.inst.own.mappingGeneration

/-- `Detach` of BEAM: it removes the data of the process only. -/
def beamDetach : Comp (Tracked BeamInstance) Unit := pure ()

/-! ## Ruby -/

def progUnwindRuby : BitVec 8 := 6

/-- The fields of `rubyInstance`. -/
structure RubyOwn where
  jitStart : Word
  jitEnd : Word
  mappingGeneration : BitVec 32

abbrev RubyInstance := Registered (BitVec 32) RubyOwn

def RubyInstance.new : RubyInstance := ⟨∅, 0, 0, 0⟩

/-- The label that Ruby gives the reservation for its code. -/
def isLabeled (m : RawMapping) : Bool :=
  decide ("jit_reserve_addr_space".toList <:+: m.path.toList)

/-- The loops of `findJITRegion`: the lowest start and the highest end. -/
def envelope (wanted : RawMapping → Bool) (mappings : List RawMapping) : Option (Word × Word) :=
  (mappings.filter wanted).foldl
    (fun found m =>
      match found with
      | none => some (m.vaddr, m.vaddr + m.length)
      | some (jitStart, jitEnd) =>
        some (if m.vaddr < jitStart then m.vaddr else jitStart,
          if jitEnd < m.vaddr + m.length then m.vaddr + m.length else jitEnd))
    none

def findJITRegion (mappings : List RawMapping) : Option (Word × Word) :=
  match envelope isLabeled mappings with
  | some region => some region
  | none => envelope isJitMapping mappings

/-- The part of `SynchronizeMappings` behind the calculation of the prefixes. -/
def rubyRegister (jitStart jitEnd : Word) (ps : List Prefix) :
    Comp (Tracked RubyInstance) Unit := do
  modifyInst fun i => { i with own := { i.own with jitStart := jitStart, jitEnd := jitEnd } }
  let s ← Comp.get
  Comp.each (registerPrefix progUnwindRuby s.inst.own.mappingGeneration) ps
  prunePrefixes fun generation => generation ≠ s.inst.own.mappingGeneration

/-- `SynchronizeMappings` of Ruby. -/
def rubySynchronize (mappings : List RawMapping) : Comp (Tracked RubyInstance) Unit := do
  modifyInst fun i =>
    { i with own := { i.own with mappingGeneration := i.own.mappingGeneration + 1 } }
  match findJITRegion mappings with
  | none => rubyRegister 0 0 []
  | some (jitStart, jitEnd) =>
    let ps ← Comp.wrapError
      s!"ruby jit region lpm failure 0x{hex jitStart.toNat}-0x{hex jitEnd.toNat}"
      (Comp.lift (calculatePrefixList jitStart.toNat jitEnd.toNat))
    rubyRegister jitStart jitEnd ps

/-! ## PHP opcache -/

def progUnwindPHP : BitVec 8 := 5

/-- The fields of `opcacheInstance`; `prefixes` is `none` for a nil slice. -/
structure OpcacheInstance where
  prefixes : Option (List Prefix)

/-- `SynchronizeMappings` of PHP opcache, with the buffer in memory. -/
def opcacheSynchronize (dasmBuf dasmSize : Word) : Comp (Tracked OpcacheInstance) Unit := do
  let s ← Comp.get
  if s.inst.prefixes = none ∧ dasmBuf ≠ 0 ∧ dasmSize ≠ 0 then
    let ps ← Comp.lift (calculatePrefixList dasmBuf.toNat (dasmBuf + dasmSize).toNat)
    modifyInst fun _ => ⟨some ps⟩
    Comp.each (fun p => updatePidInterpreterMapping p progUnwindPHP 0 0) ps

/-- `Detach` of PHP opcache. -/
def opcacheDetach : Comp (Tracked OpcacheInstance) Unit := do
  let s ← Comp.get
  Comp.each deletePidInterpreterMapping (s.inst.prefixes.getD [])

/-! ## HotSpot -/

def progUnwindHotspot : BitVec 8 := 2

/-- An area of generated code. -/
structure JitArea where
  start : Word
  «end» : Word
  codeStart : Word
  tsid : Word

/-- `heapRange`, as far as areas are made of it. -/
structure HeapRange where
  codeStart : Word
  codeEnd : Word
  segmapStart : Word

/-- A named stub and its code. -/
structure StubRoutine where
  name : String
  start : Word
  «end» : Word

/-- The fields of `hotspotInstance`. -/
structure HotspotOwn where
  mainMappingsInserted : Bool
  heapAreas : List JitArea
  stubs : Table Word StubRoutine
  processStubs : Bool
  frameSeen : Bool

abbrev HotspotInstance := Registered Unit HotspotOwn

def HotspotInstance.new : HotspotInstance := ⟨∅, false, [], ∅, true, false⟩

/-- What `SynchronizeMappings` learns: introspection data or a permanent error, `gatherHeapInfo`,
`findStubBounds`, `jitAreaForStubArm64`, and whether a Java frame was symbolized. -/
structure HotspotCall where
  vmData : Except String (Option String)
  heaps : Except String (Option (List HeapRange))
  stubBounds : List StubRoutine
  arm64 : Bool
  stubArea : StubRoutine → JitArea → Except String JitArea
  frame : Bool

section Hotspot

variable (pid : Pid)

/-- A prefix in `addJitArea`. -/
def addJitPrefix (area : JitArea) (p : Prefix) : Comp (Tracked HotspotInstance) Unit := do
  let s ← Comp.get
  if p ∉ s.inst.prefixes then
    Comp.wrapError
      s!"failed to insert LPM entry for pid {pid.toNat}, page 0x{hex p.key}/{p.length}"
      (updatePidInterpreterMapping p progUnwindHotspot area.tsid area.codeStart)
    modifyInst (Registered.record p ())

def addJitArea (area : JitArea) : Comp (Tracked HotspotInstance) Unit :=
  match calculatePrefixList area.start.toNat area.end.toNat with
  | .error _ =>
    Comp.error s!"LPM prefix calculation error for {hex area.start.toNat}-{hex area.end.toNat}"
  | .ok ps => Comp.each (addJitPrefix pid area) ps

def HeapRange.area (r : HeapRange) : JitArea :=
  ⟨r.codeStart, r.codeEnd, r.codeStart, r.segmapStart &&& 0xffffffffffffff⟩

/-- A heap in `populateMainMappings`. -/
def addHeap (r : HeapRange) : Comp (Tracked HotspotInstance) Unit := do
  addJitArea pid r.area
  modifyInst fun i => { i with own := { i.own with heapAreas := i.own.heapAreas ++ [r.area] } }

def populateMainMappings (call : HotspotCall) : Comp (Tracked HotspotInstance) Unit := do
  let s ← Comp.get
  if s.inst.own.mainMappingsInserted then pure ()
  else
    match call.heaps with
    | .error err => Comp.error err
    | .ok none => pure ()
    | .ok (some []) => pure ()
    | .ok (some ranges) =>
      Comp.each (addHeap pid) ranges
      modifyInst fun i => { i with own := { i.own with mainMappingsInserted := true } }

/-- A stub in `updateStubMappings`; an error of `addJitArea` is logged. -/
def updateStub (call : HotspotCall) (stub : StubRoutine) : Comp (Tracked HotspotInstance) Unit := do
  let s ← Comp.get
  if stub.start ∈ s.inst.own.stubs then pure ()
  else
    modifyInst fun i => { i with own := { i.own with stubs := i.own.stubs.insert stub.start stub } }
    if call.arm64 then
      match s.inst.own.heapAreas.find? fun a => a.start ≤ stub.start && stub.end ≤ a.end with
      | none => pure ()
      | some heapArea =>
        match call.stubArea stub heapArea with
        | .error _ => pure ()
        | .ok area => do
          let _ ← Comp.attempt (addJitArea pid area)
          pure ()

def syncStubMappings (call : HotspotCall) : Comp (Tracked HotspotInstance) Unit := do
  let s ← Comp.get
  if s.inst.own.processStubs then
    modifyInst fun i => { i with own := { i.own with processStubs := false } }
    Comp.each (updateStub pid call) call.stubBounds

def markFrameSeen : Comp (Tracked HotspotInstance) Unit :=
  modifyInst fun i =>
    if i.own.frameSeen then i
    else { i with own := { i.own with frameSeen := true, processStubs := true } }

/-- `SynchronizeMappings` of HotSpot. -/
def hotspotSynchronize (call : HotspotCall) : Comp (Tracked HotspotInstance) Unit :=
  match call.vmData with
  | .error err => Comp.error err
  | .ok (some err) => Comp.error err
  | .ok none => do
    populateMainMappings pid call
    let s ← Comp.get
    if s.inst.own.mainMappingsInserted then syncStubMappings pid call

/-- The frames that are symbolized before a call. -/
def symbolizeFrames (call : HotspotCall) : Comp (Tracked HotspotInstance) Unit :=
  if call.frame then markFrameSeen else pure ()

end Hotspot

end EbpfProfiler.Interpreter
