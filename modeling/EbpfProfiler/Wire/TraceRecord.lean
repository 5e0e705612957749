import EbpfProfiler.Lib.Bytes
import EbpfProfiler.Wire.EbpfFrame

/-!
# Trace records

The `Trace` struct (`types.h`) that the eBPF programs fill and `loadBpfTrace` (`tracer.go`) takes
apart. It is reused, so that old contents stay where nothing is written.
-/

namespace EbpfProfiler.Wire

open Lib

/-! ## The struct -/

/-- `sizeof(GolangLabel)`: `u8 key[16]` and `u8 val[48]`. -/
def golangLabelSize : ℕ := 64

def maxGoLabels : ℕ := 10

/-- `MAX_FRAME_DATA_SZ`, `sizeof(u64[3072])`. -/
def maxFrameDataSize : ℕ := 8 * 3072

/-- `MAX_FRAME_TRAILER_DATA_SZ`, which is `MAX_GO_LABEL_DATA_SZ`. -/
def maxFrameTrailerDataSize : ℕ := golangLabelSize * maxGoLabels

/-- `sizeof(trace->variable_data)`. -/
def variableDataSize : ℕ := maxFrameDataSize + maxFrameTrailerDataSize

/-- `Sizeof_TraceHeader`, which is `offsetof(struct Trace, variable_data)`. -/
def traceHeaderSize : ℕ := 0x50

def perfMaxStackDepth : ℕ := 127

/-- The header that `prepare_trace`, `unwind_stop` and `send_trace` fill in, with padding. -/
structure TraceMeta where
  pid : BitVec 32
  tid : BitVec 32
  ktime : Word
  comm : Vector Byte 16
  spanID : Vector Byte 8
  traceID : Vector Byte 16
  cpuID : BitVec 32
  origin : BitVec 16
  padding : Vector Byte 4

/-- The `Trace` struct of the eBPF programs. The ends and the count are `u16`. -/
structure BpfTrace where
  info : TraceMeta
  contextValueEnd : ℕ
  kernelFrameEnd : ℕ
  frameDataEnd : ℕ
  threadLabelEnd : ℕ
  golangLabelEnd : ℕ
  variableDataEnd : ℕ
  numFrames : ℕ
  variableData : Memory

/-- `get_pristine_per_cpu_record` and `prepare_trace`: nothing is written yet. -/
def pristine (info : TraceMeta) (variableData : Memory) : BpfTrace :=
  ⟨info, 0, 0, 0, 0, 0, 0, 0, variableData⟩

namespace BpfTrace

/-! ## Writing sections -/

/-- `reserve_variable_data`: the offset of the space, if it fits. -/
def reserveVariableData (t : BpfTrace) (allocSize reserveSize : ℕ) : Option ℕ :=
  if variableDataSize - allocSize - reserveSize < t.variableDataEnd then none
  else some t.variableDataEnd

def commitVariableData (t : BpfTrace) (commitSize : ℕ) : BpfTrace :=
  { t with variableDataEnd := (t.variableDataEnd + commitSize) % 2 ^ 16 }

/-- `end_variable_data`: the end of the section, and the end aligned for the next one. -/
def endVariableData (t : BpfTrace) (itemSize : ℕ) : ℕ × BpfTrace :=
  (t.variableDataEnd, if itemSize % 8 = 0 then t
    else { t with variableDataEnd := (t.variableDataEnd + 7) / 8 * 8 % 2 ^ 16 })

def fill (t : BpfTrace) (pos : ℕ) (bs : List Byte) : BpfTrace :=
  { t with variableData := t.variableData.write pos bs }

/-- `push_context_values`, and the values that the caller fills in. -/
def pushContextValues (t : BpfTrace) (values : List Word) : BpfTrace :=
  match t.reserveVariableData (8 * values.length) maxFrameTrailerDataSize with
  | none => t
  | some pos =>
    let ended := (t.commitVariableData (8 * values.length)).endVariableData 8
    { ended.2.fill pos (values.flatMap wordBytes) with contextValueEnd := ended.1 }

/-- `push_kernel_frames`, with what `bpf_get_stack` writes. -/
def pushKernelFrames (t : BpfTrace) (addresses : List Word) : BpfTrace :=
  match t.reserveVariableData (8 * perfMaxStackDepth) maxFrameTrailerDataSize with
  | none => t
  | some pos =>
    if 0 < 8 * addresses.length then
      let ended := (t.commitVariableData (8 * addresses.length)).endVariableData 8
      { ended.2.fill pos (addresses.flatMap wordBytes) with kernelFrameEnd := ended.1 }
    else t

/-- A frame that is written with its header. -/
def writeFrame (t : BpfTrace) (pos : ℕ) (frame : EbpfFrame) : BpfTrace :=
  { (t.commitVariableData (8 * frame.words.length)).fill pos (frame.words.flatMap wordBytes) with
    numFrames := (t.numFrames + 1) % 2 ^ 16 }

/-- `push_frame`, and the variable words that the caller fills in. -/
def pushFrame (t : BpfTrace) (frame : EbpfFrame) : Option BpfTrace :=
  match t.reserveVariableData (8 * frame.words.length) (8 + maxFrameTrailerDataSize) with
  | none => none
  | some pos => some (t.writeFrame pos frame)

def pushAbort (t : BpfTrace) (error : Word) : BpfTrace :=
  match t.reserveVariableData 8 maxFrameTrailerDataSize with
  | none => t
  | some pos => t.writeFrame pos (pushError frameMarkerUnknown error)

/-- Frames are pushed until one does not fit. -/
def pushFrames (t : BpfTrace) : List EbpfFrame → BpfTrace
  | [] => t
  | f :: fs =>
    match t.pushFrame f with
    | none => t
    | some t => t.pushFrames fs

end BpfTrace

/-- A label of a Go program; `none` is a string that cannot be read. -/
structure GoLabel where
  key : Option (List Byte)
  val : Option (List Byte)

namespace BpfTrace

/-- `golabel_push`: the strings are cut and end with a zero. -/
def golabelPush (t : BpfTrace) (label : GoLabel) : Option BpfTrace :=
  match t.reserveVariableData golangLabelSize 0 with
  | none => none
  | some pos =>
    match label.key with
    | none => none
    | some key =>
      let t := t.fill pos (key.take 15 ++ [0])
      match label.val with
      | none => none
      | some val =>
          some ((t.fill (pos + 16) (val.take 47 ++ [0])).commitVariableData golangLabelSize)

/-- Labels are pushed until one fails. -/
def golabelsPush (t : BpfTrace) : List GoLabel → BpfTrace
  | [] => t
  | l :: ls =>
    match t.golabelPush l with
    | none => t
    | some t => t.golabelsPush ls

def header (t : BpfTrace) : List Byte :=
  leBytes 4 t.info.pid.toNat ++ leBytes 4 t.info.tid.toNat ++ leBytes 8 t.info.ktime.toNat ++
    t.info.comm.toList ++ t.info.spanID.toList ++ t.info.traceID.toList ++
    leBytes 4 t.info.cpuID.toNat ++
    leBytes 2 t.contextValueEnd ++ leBytes 2 t.kernelFrameEnd ++ leBytes 2 t.frameDataEnd ++
    leBytes 2 t.threadLabelEnd ++ leBytes 2 t.golangLabelEnd ++ leBytes 2 t.variableDataEnd ++
    leBytes 2 t.numFrames ++ leBytes 2 t.info.origin.toNat ++ t.info.padding.toList

/-- The bytes that `send_trace` gives to the ring buffer. -/
def sendTrace (t : BpfTrace) : List Byte :=
  let sendSize := min (traceHeaderSize + t.variableDataEnd) (traceHeaderSize + variableDataSize)
  t.header ++ t.variableData.read 0 (sendSize - traceHeaderSize)

end BpfTrace

/-! ## Collecting a trace -/

/-- A call of `push_frame`, with the variable words that the caller fills in. -/
structure FramePush where
  frameType : BitVec 8
  flags : BitVec 8
  data : Word
  vars : List Word
  deriving DecidableEq

def FramePush.frame (p : FramePush) : EbpfFrame := pushFrame p.frameType p.flags p.data p.vars

def errEmptyStack : Word := 3

/-- All that a trace is collected from. -/
structure TraceScript where
  /-- The values of `push_context_values`, if the program has any. -/
  contextValues : Option (List Word)
  /-- What `bpf_get_stack` returns, if kernel frames are asked for. -/
  kernelFrames : Option (List Word)
  frames : List FramePush
  /-- `state->unwind_error` when unwinding stops. -/
  unwindError : Word
  /-- The error that `refine_missing_mapping_error` makes of it. -/
  refineMissingMappingError : Word → Word
  filterErrorFrames : Bool
  /-- The labels, if Go labels are looked for. -/
  labels : Option (List GoLabel)

namespace TraceScript

/-- The part before `unwind_stop`. -/
def collect (script : TraceScript) (t : BpfTrace) : BpfTrace :=
  let t := script.contextValues.elim t t.pushContextValues
  let t := script.kernelFrames.elim t t.pushKernelFrames
  t.pushFrames (script.frames.map FramePush.frame)

/-- The error for which `unwind_stop` pushes a frame; zero if there is none. -/
def stopError (script : TraceScript) (t : BpfTrace) : Word :=
  script.refineMissingMappingError
    (if t.numFrames = 0 ∧ t.kernelFrameEnd = 0 ∧ script.unwindError = 0 then errEmptyStack
      else script.unwindError)

/-- `maybe_add_golang_labels`. -/
def addLabels (script : TraceScript) (t : BpfTrace) : BpfTrace :=
  match script.labels with
  | none => t
  | some labels =>
    let ended := (t.golabelsPush labels).endVariableData golangLabelSize
    { ended.2 with golangLabelEnd := ended.1 }

/-- `unwind_stop`: the record that is sent, if any. -/
def unwindStop (script : TraceScript) (t : BpfTrace) : Option (List Byte) :=
  let error := script.stopError t
  let t := if error = 0 then t else t.pushAbort error
  if script.filterErrorFrames ∧ t.numFrames = 1 ∧ t.kernelFrameEnd = 0 ∧ error ≠ 0 then none
  else
    let ended := t.endVariableData 8
    some (script.addLabels { ended.2 with frameDataEnd := ended.1 }).sendTrace

def emit (script : TraceScript) (info : TraceMeta) (variableData : Memory) : Option (List Byte) :=
  script.unwindStop (script.collect (pristine info variableData))

end TraceScript

/-! ## Loading a trace -/

/-- The errors of `loadBpfTrace`. The first two stop the profiler. -/
inductive RecordError
  | tooSmall (msg : String)
  | unexpectedSize (msg : String)
  | originUnexpected (msg : String)
  deriving DecidableEq

/-- `variableDataDecoder`; of `dst` only its length matters. -/
structure VariableDataDecoder where
  raw : List Byte
  dst : ℕ
  pos : ℕ

namespace VariableDataDecoder

/-- `decodeBytes`; no bytes stand for a nil slice as well. -/
def decodeBytes (vd : VariableDataDecoder) («end» : ℕ) (field : String) :
    Except RecordError (List Byte × VariableDataDecoder) :=
  if «end» = 0 then .ok ([], vd)
  else if «end» < vd.pos ∨ vd.raw.length < «end» then
    let stop := «end»
    let pos := vd.pos
    let size := vd.raw.length
    .error (.unexpectedSize
      s!"{field} end {stop}: not in range [{pos}, {size}]: unexpected record size")
  else
    .ok (slice vd.raw vd.pos «end», { vd with pos := («end» + 7) / 8 * 8 % 2 ^ 16 })

def copyUint64 (vd : VariableDataDecoder) («end» : ℕ) (field : String) :
    Except RecordError (List Word × VariableDataDecoder) :=
  match vd.decodeBytes «end» field with
  | .error err => .error err
  | .ok (val, vd) =>
    let n := val.length / 8
    if val.length % 8 ≠ 0 ∨ vd.dst < n then
      let size := val.length
      let max := 8 * vd.dst
      .error (.unexpectedSize
        s!"{field} copy fail (size {size}, max {max}): unexpected record size")
    else .ok (readWords n val, { vd with dst := vd.dst - n })

end VariableDataDecoder

/-- `libpf.EbpfTrace`, with the unchecked bytes of the labels. -/
structure EbpfTrace where
  pid : ℕ
  tid : ℕ
  ktime : ℕ
  comm : List Byte
  spanID : List Byte
  traceID : List Byte
  cpuID : ℕ
  origin : ℕ
  numFrames : ℕ
  contextValues : List Word
  kernelFrames : List Word
  frameData : List Word
  threadLabelData : List Byte
  golangLabelData : List Byte

def field (raw : List Byte) (off size : ℕ) : ℕ := leNat (slice raw off (off + size))

/-- The sections of `loadBpfTrace`, in their order. -/
def loadSections (raw : List Byte) (vd : VariableDataDecoder) : Except RecordError EbpfTrace := do
  let (contextValues, vd) ← vd.copyUint64 (field raw 60 2) "context value"
  let (kernelFrames, vd) ← vd.copyUint64 (field raw 62 2) "kernel_frame"
  let (frameData, vd) ← vd.copyUint64 (field raw 64 2) "frame"
  let (threadLabelData, vd) ← vd.decodeBytes (field raw 66 2) "thread label"
  let (golangLabelData, _) ← vd.decodeBytes (field raw 68 2) "golang label"
  pure {
    pid := field raw 0 4
    tid := field raw 4 4
    ktime := field raw 8 8
    comm := slice raw 16 32
    spanID := slice raw 32 40
    traceID := slice raw 40 56
    cpuID := field raw 56 4
    origin := field raw 74 2
    numFrames := field raw 72 2
    contextValues, kernelFrames, frameData, threadLabelData, golangLabelData }

/-- `loadBpfTrace`, with the origins that are known. -/
def loadBpfTrace (knownOrigin : ℕ → Bool) (raw : List Byte) : Except RecordError EbpfTrace :=
  let size := raw.length
  let headerSize := traceHeaderSize
  if size < headerSize then
    .error (.tooSmall s!"{size} < {headerSize}: trace record too small")
  else
    let wanted := traceHeaderSize + field raw 70 2
    if size < wanted then
      .error (.unexpectedSize s!"{size} < {wanted}: unexpected record size")
    else if knownOrigin (field raw 74 2) then
      loadSections raw ⟨slice raw traceHeaderSize wanted, 3072, 0⟩
    else
      let origin := field raw 74 2
      .error (.originUnexpected s!"origin {origin}: unexpected origin")

/-- `stringutil.CString`: up to the first zero. -/
def cString (bs : List Byte) : List Byte := bs.takeWhile fun b => b ≠ 0

/-- Keys and values of labels, as `customLabelValidator.decode` takes them. -/
def golangLabels : ℕ → List Byte → List (List Byte × List Byte)
  | 0, _ => []
  | n + 1, bs =>
    (cString (bs.take 16), cString ((bs.drop 16).take 48)) :: golangLabels n (bs.drop 64)

def EbpfTrace.goLabels (trace : EbpfTrace) : List (List Byte × List Byte) :=
  golangLabels (trace.golangLabelData.length / golangLabelSize) trace.golangLabelData

end EbpfProfiler.Wire
