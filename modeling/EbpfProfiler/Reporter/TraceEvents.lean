import Mathlib.Logic.Function.Basic
import EbpfProfiler.Lib.Comp
import EbpfProfiler.Reporter.Trace

/-!
# `ReportTraceEvent`: collecting traces into the events tree

`baseReporter.ReportTraceEvent` (`reporter/base_reporter.go`). An entry keeps the frames and labels
of the first trace filed under its key.
-/

namespace EbpfProfiler.Reporter

open Lib (Comp)

/-! ## Keys and entries -/

/-- `samples.TraceEventMeta`, the profile type apart. -/
structure EventMeta where
  comm : String
  executablePath : String
  containerID : String
  envVars : List (String × String) := []
  extraMeta : List (String × String) := []
  resourceAttrs : List (String × String) := []
  timestamp : ℕ
  cpu : ℕ
  contextValues : List ℕ := []
  pid : ℕ
  tid : ℕ
  spanID : BitVec 64 := 0
  traceID : BitVec 128 := 0

/-- `samples.TypeMetadata`: its address, `SampleTypes`, and `AppendValues`. -/
structure TypeMetadata where
  id : ℕ
  sampleTypes : ℕ
  appendValues : List ℤ → EventMeta → List ℤ

/-- The metadata of an event. -/
structure TraceEventMeta extends EventMeta where
  profileType : Option TypeMetadata

/-- The key of a resource. -/
structure ResourceKey where
  containerID : String
  executablePath : String
  pid : ℕ
  deriving DecidableEq

/-- The key of a sample. -/
structure SampleKey (E : Type) where
  extraMeta : Option E
  comm : String
  hash : BitVec 128
  tid : ℕ
  cpu : ℕ
  spanID : BitVec 64
  traceID : BitVec 128
  deriving DecidableEq

/-- The events of one key. -/
structure TraceEvents where
  labels : Labels
  frames : List Frame
  timestamps : List ℕ
  values : List ℤ
  deriving DecidableEq

/-- The profiles of a resource. -/
structure ResourceToProfiles (E : Type) where
  envVars : List (String × String)
  resourceAttrs : List (String × String)
  events : ℕ → Option (SampleKey E → Option TraceEvents)

/-- All events, by resource. -/
abbrev TraceEventsTree (E : Type) : Type := ResourceKey → Option (ResourceToProfiles E)

def TraceEventsTree.empty {E : Type} : TraceEventsTree E := fun _ => none

/-! ## Filing a trace -/

def appendEventValues (ty : TypeMetadata) (dst : List ℤ) (info : EventMeta) :
    Except String (List ℤ) :=
  let values := ty.appendValues dst info
  let got : ℤ := values.length - dst.length
  if got ≠ ty.sampleTypes then
    .error s!"profile value transform appended {got} values, expected {ty.sampleTypes}"
  else .ok values

/-- One call of `ReportTraceEvent`. -/
structure Call where
  trace : Trace
  info : TraceEventMeta

section Report

variable {E : Type} [DecidableEq E]
variable (xxh3 : List (BitVec 8) → BitVec 128) (labelHash : String × String → BitVec 64)
variable (collectExtraSampleMeta : Option (Trace → EventMeta → Option E))

/-- The `ResourceKey` of a call. -/
def Call.resourceKey (c : Call) : ResourceKey where
  containerID := c.info.containerID
  executablePath := c.info.executablePath
  pid := c.info.pid

/-- The `SampleKey` of a call. -/
def Call.sampleKey (c : Call) : SampleKey E where
  extraMeta := collectExtraSampleMeta.bind fun collect => collect c.trace c.info.toEventMeta
  comm := c.info.comm
  hash := c.trace.hash xxh3 labelHash
  tid := c.info.tid
  cpu := c.info.cpu
  spanID := c.info.spanID
  traceID := c.info.traceID

def resourceNode (tree : TraceEventsTree E) (c : Call) : ResourceToProfiles E :=
  match tree c.resourceKey with
  | none =>
    { envVars := c.info.envVars, resourceAttrs := c.info.resourceAttrs, events := fun _ => none }
  | some rtp => { rtp with resourceAttrs := c.info.resourceAttrs }

def putEvents (tree : TraceEventsTree E) (c : Call) (ty : ℕ)
    (events : SampleKey E → Option TraceEvents) : TraceEventsTree E :=
  let rtp := resourceNode tree c
  Function.update tree c.resourceKey
    (some { rtp with events := Function.update rtp.events ty (some events) })

def reportTraceEvent (c : Call) : Comp (TraceEventsTree E) Unit := do
  match c.info.profileType with
  | none => Comp.error "skip reporting trace: unknown trace profile type"
  | some ty =>
    let tree ← Comp.get
    let sampleKey := c.sampleKey xxh3 labelHash collectExtraSampleMeta
    let samples := ((resourceNode tree c).events ty.id).getD fun _ => none
    -- the resource's node and the profile type's map stay, whatever follows
    Comp.set (putEvents tree c ty.id samples)
    match samples sampleKey with
    | some events =>
      match appendEventValues ty events.values c.info.toEventMeta with
      | .error err => Comp.error err
      | .ok values =>
        Comp.set (putEvents tree c ty.id (Function.update samples sampleKey (some {
          events with timestamps := events.timestamps ++ [c.info.timestamp], values := values })))
    | none =>
      match appendEventValues ty [] c.info.toEventMeta with
      | .error err => Comp.error err
      | .ok values =>
        Comp.set (putEvents tree c ty.id (Function.update samples sampleKey (some {
          frames := c.trace.frames
          timestamps := [c.info.timestamp]
          values := values
          labels := c.trace.customLabels })))

/-- The tree after a sequence of calls, and the calls without an error. -/
def reportAll : List Call → TraceEventsTree E → TraceEventsTree E × List Call
  | [], tree => (tree, [])
  | c :: cs, tree =>
    match (reportTraceEvent xxh3 labelHash collectExtraSampleMeta c).exec tree with
    | (.ok _, tree) =>
      let (tree, filed) := reportAll cs tree
      (tree, c :: filed)
    | (.error _, tree) => reportAll cs tree

end Report

end EbpfProfiler.Reporter
