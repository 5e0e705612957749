import EbpfProfiler.Lib.Lru
import EbpfProfiler.Reporter.Trace
import EbpfProfiler.Wire.EbpfFrame

/-!
# Turning eBPF traces into traces, through the frame cache

`HandleTrace` (`processmanager/manager.go`) in an `Environment`. A call that would panic is `none`.
Left out are meta data, report, metrics and locks.
-/

namespace EbpfProfiler.ProcessManager

open Lib Reporter Wire

abbrev Pid := BitVec 32

/-! ## Kernel symbols (`kallsyms`) -/

/-- A kernel module and its symbols. -/
structure KernelModule where
  mapping : Option FrameMappingData
  start : Word
  lookupSymbolByAddress : Word → Option String

/-- `moduleTable`: the generation of a module table is even. -/
structure ModuleTable where
  generation : Word
  generation_even : generation &&& 1 = 0
  getModuleByAddress : Word → Option KernelModule

/-- `bpfSymbolTable`, whose generation is odd: the program's name and the offset in it. -/
structure BpfSymbolTable where
  generation : Word
  generation_odd : generation &&& 1 = 1
  lookup : Word → Option (String × Word)

/-- The symbol tables at one time. -/
structure Snapshot where
  bpf : Option BpfSymbolTable
  modules : Option ModuleTable

/-- `Snapshot.KernelGeneration`; without a table `makeModuleGeneration(0)`. -/
def Snapshot.kernelGeneration (s : Snapshot) : Word :=
  match s.modules with
  | some table => table.generation
  | none => 0

/-- `Snapshot.BPFGeneration`; without a table `makeBPFGeneration(0)`. -/
def Snapshot.bpfGeneration (s : Snapshot) : Word :=
  match s.bpf with
  | some table => table.generation
  | none => 1

/-- `kallsyms.AddressResolution`, by its `Source`. -/
inductive AddressResolution
  | bpf (name : String) (offset generation : Word)
  | module (kmod : KernelModule) (generation : Word)

def AddressResolution.generation : AddressResolution → Word
  | bpf _ _ generation => generation
  | module _ generation => generation

def Snapshot.findModule (s : Snapshot) (address : Word) : Option KernelModule :=
  s.modules.bind (·.getModuleByAddress address)

def Snapshot.findProgram (s : Snapshot) (address : Word) : Option (String × Word) :=
  s.bpf.bind (·.lookup address)

/-- `Snapshot.ResolveAddress`: BPF programs first. -/
def Snapshot.resolveAddress (s : Snapshot) (address : Word) : Option AddressResolution :=
  match s.findProgram address with
  | some (name, offset) => some (.bpf name offset s.bpfGeneration)
  | none => (s.findModule address).map (.module · s.kernelGeneration)

/-- `symbolizeKernelFrame`: the frame, and whether it may be cached. -/
def symbolizeKernelFrame (address : Word) : Option AddressResolution → Frame × Bool
  | some (.bpf name offset _) =>
    ({ type := frameMarkerKernel, addressOrLineno := offset, functionName := name }, true)
  | some (.module kmod _) =>
    ({ type := frameMarkerKernel
       addressOrLineno := address - 1 - kmod.start
       mapping := kmod.mapping
       functionName := (kmod.lookupSymbolByAddress address).getD "" }, kmod.mapping.isSome)
  | none => ({ type := frameMarkerKernel, addressOrLineno := address - 1 }, false)

/-! ## Converting a frame -/

/-- What `Instance.Symbolize` returns. -/
inductive SymbolizeResult
  | ok
  | mismatchInterpreterType
  | error
  deriving DecidableEq

/-- An `interpreter.Instance`: the frames `Symbolize` appends, and its result. -/
abbrev Instance := EbpfFrame → Option FrameMappingData → List Frame × SymbolizeResult

/-- What frames are symbolized with, with instances in the order of `pm.interpreters[pid]`. -/
structure Environment where
  interpreters : Pid → List Instance
  findMappingForTrace : Pid → (fileID address : Word) → Option FrameMappingData
  snapshot : Snapshot

/-- The loop of `symbolizeFrame` over instances: the frames, and whether one was symbolized. -/
def symbolizeWith (f : EbpfFrame) (mapping : Option FrameMappingData) :
    List Instance → List Frame × Bool
  | [] => ([], false)
  | symbolize :: rest =>
    match symbolize f mapping with
    | (frames, .ok) => (frames, true)
    | (frames, .error) => (frames, false)
    | (frames, .mismatchInterpreterType) =>
      (frames ++ (symbolizeWith f mapping rest).1, (symbolizeWith f mapping rest).2)

def symbolizeFrame (env : Environment) (pid : Pid) (f : EbpfFrame)
    (mapping : Option FrameMappingData) : List Frame × Bool :=
  symbolizeWith f mapping (env.interpreters pid)

/-- A native frame in `convertFrame`, with the file ID from its first variable word. -/
def convertNative (env : Environment) (pid : Pid) (f : EbpfFrame) (fileID : Word) :
    List Frame × Bool :=
  let mapping := env.findMappingForTrace pid fileID f.data
  match symbolizeFrame env pid f mapping with
  | (frames, true) => (frames, true)
  | (frames, false) =>
    let address := if f.isReturnAddress then f.data - 1 else f.data
    (frames ++ [{ type := f.type, addressOrLineno := address, mapping := mapping }], mapping.isSome)

/-- The frames of an interpreter in `convertFrame`. -/
def convertInterpreted (env : Environment) (pid : Pid) (f : EbpfFrame) : List Frame × Bool :=
  match symbolizeFrame env pid f none with
  | (frames, true) => (frames, true)
  | (frames, false) => (frames ++ [{ type := f.type }], false)

/-- `convertFrame`: the frames, and whether to cache them; `none` is a panic of `ef.Variable(0)`. -/
def convertFrame (env : Environment) (pid : Pid) (f : EbpfFrame) : Option (List Frame × Bool) :=
  if f.type = frameMarkerUnknown ∨ f.type = frameMarkerKernel then
    some ([], false)
  else if f.type = frameMarkerNative then
    f.vars.head?.map (convertNative env pid f)
  else
    some (convertInterpreted env pid f)

/-! ## The cache -/

/-- What a cached frame is found by. -/
structure FrameCacheKey where
  pid : Pid
  data : Word × Word × Word
  deriving DecidableEq

abbrev FrameCache := Lru FrameCacheKey (List Frame)

/-- `copy(key.data[:], frame)`: the header and two variable words, or zeros. -/
def keyData (f : EbpfFrame) : Word × Word × Word := (f.header, f.vars.getD 0 0, f.vars.getD 1 0)

def frameCacheKey (pid : Pid) (f : EbpfFrame) : FrameCacheKey where
  pid := if f.isPidSpecific then pid else 0
  data := keyData f

def newEbpfFrameHeader (ty ff l : BitVec 8) (data : Word) : Word :=
  ty.setWidth 64 <<< 60 ||| ff.setWidth 64 <<< 56 ||| l.setWidth 64 <<< 52 ||| data

def kernelFrameCacheKey (address generation : Word) : FrameCacheKey where
  pid := 0
  data := (newEbpfFrameHeader frameMarkerKernel 0 3 0, address, generation)

/-! ## HandleTrace -/

/-- Resolve a kernel address that is not in the cache, and cache it. -/
def resolveKernelFrame (s : Snapshot) (address : Word) (cache : FrameCache) :
    List Frame × FrameCache :=
  match s.resolveAddress address with
  | none => ([(symbolizeKernelFrame address none).1], cache)
  | some resolution =>
    let frame := symbolizeKernelFrame address (some resolution)
    ([frame.1],
      if frame.2 then cache.add (kernelFrameCacheKey address resolution.generation) [frame.1]
      else cache)

/-- An address in `appendKernelFrames`: the cache is probed for modules, then for BPF. -/
def appendKernelFrame (s : Snapshot) (address : Word) (cache : FrameCache) :
    List Frame × FrameCache :=
  let first := cache.get (kernelFrameCacheKey address s.kernelGeneration)
  match first.1 with
  | some cached => (cached, first.2)
  | none =>
    let second := first.2.get (kernelFrameCacheKey address s.bpfGeneration)
    match second.1 with
    | some cached => (cached, second.2)
    | none => resolveKernelFrame s address second.2

def appendKernelFrames (s : Snapshot) : List Word → FrameCache → List Frame × FrameCache
  | [], cache => ([], cache)
  | address :: rest, cache =>
    let first := appendKernelFrame s address cache
    let others := appendKernelFrames s rest first.2
    (first.1 ++ others.1, others.2)

/-- What an error frame is turned into, if error frames are not filtered out. -/
def errorFrames (filterErrorFrames : Bool) (f : EbpfFrame) : List Frame :=
  if filterErrorFrames then [] else [{ type := f.type ||| 0x80, addressOrLineno := f.data }]

/-- The slow path: convert a frame and cache the result. -/
def convertAndCache (env : Environment) (pid : Pid) (f : EbpfFrame) (cache : FrameCache) :
    Option (List Frame × FrameCache) :=
  (convertFrame env pid f).map fun converted =>
    (converted.1, if converted.2 then cache.add (frameCacheKey pid f) converted.1 else cache)

/-- The body of the loop over the frames of a trace. -/
def handleFrame (filterErrorFrames : Bool) (env : Environment) (pid : Pid) (f : EbpfFrame)
    (cache : FrameCache) : Option (List Frame × FrameCache) :=
  if f.isError then
    some (errorFrames filterErrorFrames f, cache)
  else
    let found := cache.get (frameCacheKey pid f)
    match found.1 with
    | some cached => some (cached, found.2)
    | none => convertAndCache env pid f found.2

/-- The loop over the frames of a trace. -/
def handleFrames (filterErrorFrames : Bool) (env : Environment) (pid : Pid) :
    List EbpfFrame → FrameCache → Option (List Frame × FrameCache)
  | [], cache => some ([], cache)
  | f :: rest, cache => do
    let first ← handleFrame filterErrorFrames env pid f cache
    let others ← handleFrames filterErrorFrames env pid rest first.2
    return (first.1 ++ others.1, others.2)

/-- `libpf.EbpfTrace`, without the data that only goes into the event's meta data. -/
structure EbpfTrace where
  pid : Pid
  customLabels : Labels
  kernelFrames : List Word
  frameData : List Word

/-- `HandleTrace`: the trace that it returns. -/
def handleTrace (filterErrorFrames : Bool) (env : Environment) (bpfTrace : EbpfTrace)
    (cache : FrameCache) : Option (Trace × FrameCache) := do
  let kernel := appendKernelFrames env.snapshot bpfTrace.kernelFrames cache
  let frames ← walkFrames bpfTrace.frameData
  let user ← handleFrames filterErrorFrames env bpfTrace.pid frames kernel.2
  return ({ customLabels := bpfTrace.customLabels, frames := kernel.1 ++ user.1 }, user.2)

/-- A call of `HandleTrace`, with what its frames are symbolized with at that time. -/
structure TraceCall where
  env : Environment
  trace : EbpfTrace

/-- A sequence of calls of `HandleTrace`: the returned traces and the cache after them. -/
def handleTraces (filterErrorFrames : Bool) :
    List TraceCall → FrameCache → Option (List Trace × FrameCache)
  | [], cache => some ([], cache)
  | call :: rest, cache => do
    let first ← handleTrace filterErrorFrames call.env call.trace cache
    let others ← handleTraces filterErrorFrames rest first.2
    return (first.1 :: others.1, others.2)

/-! ## Without the cache

The same, with every frame converted afresh. -/

def freshKernelFrame (s : Snapshot) (address : Word) : Frame :=
  (symbolizeKernelFrame address (s.resolveAddress address)).1

def convertedFrames (env : Environment) (pid : Pid) (f : EbpfFrame) : Option (List Frame) :=
  (convertFrame env pid f).map Prod.fst

def freshFrame (filterErrorFrames : Bool) (env : Environment) (pid : Pid) (f : EbpfFrame) :
    Option (List Frame) :=
  if f.isError then some (errorFrames filterErrorFrames f) else convertedFrames env pid f

def freshFrames (filterErrorFrames : Bool) (env : Environment) (pid : Pid) :
    List EbpfFrame → Option (List Frame)
  | [] => some []
  | f :: rest => do
    let first ← freshFrame filterErrorFrames env pid f
    let others ← freshFrames filterErrorFrames env pid rest
    return first ++ others

/-- `HandleTrace` if it converted every frame. -/
def freshTrace (filterErrorFrames : Bool) (call : TraceCall) : Option Trace := do
  let frames ← walkFrames call.trace.frameData
  let user ← freshFrames filterErrorFrames call.env call.trace.pid frames
  return { customLabels := call.trace.customLabels
           frames := call.trace.kernelFrames.map (freshKernelFrame call.env.snapshot) ++ user }

def freshTraces (filterErrorFrames : Bool) (calls : List TraceCall) : Option (List Trace) :=
  calls.mapM (freshTrace filterErrorFrames)

end EbpfProfiler.ProcessManager
