import EbpfProfiler.SymbFile.StrDedup

/-!
# Writing symbol files

`Writer` (`symbfile/write.rs`) translates indices first, then writes string table and messages.
-/

namespace EbpfProfiler.SymbFile

open Lib

/-- A message that waits for its strings. -/
inductive BufferedMsg where
  | range (r : RangeV1)
  | returnPad (p : ReturnPadV1)

/-- How prost encodes, how the `k`-th hash map is iterated, and sizes in memory. -/
structure Platform where
  prost : Prost
  order : ℕ → IterationOrder Entry
  bufferedMsgSize : ℕ

/-- The writer of a file. -/
structure Writer where
  out : List Byte
  stringTable : Builder
  bufferedMsgs : List BufferedMsg
  prevElfVa : Option U64
  /-- The number of string tables that were written. -/
  flushes : ℕ

def stringTableSizeFlushThresh : ℕ := maxMsgSize - 64 * 1024

def writerMsgBufferSize : ℕ := 64 * 1024 * 1024

/-! ## Records to messages -/

/-- `elf_va_abs2rel!`: the difference as an `i64`, if it is one. -/
def elfVaAbs2Rel (prev : Option U64) (elfVa : U64) : ElfVa :=
  match prev with
  | none => .set elfVa
  | some p =>
    let delta : ℤ := elfVa.toNat - p.toNat
    if -2 ^ 63 ≤ delta ∧ delta < 2 ^ 63 then .delta (BitVec.ofInt 64 delta) else .set elfVa

/-- The offsets of a line table, each from the row before. -/
def offsetDeltas : U32 → List LineTableEntry → Except Failure (List U32)
  | _, [] => .ok []
  | prevOffset, row :: rows =>
    if row.offset.toNat < prevOffset.toNat then .error (.error .lineTableNotSorted)
    else (offsetDeltas row.offset rows).map ((row.offset - prevOffset) :: ·)

/-- The columns of a line table. -/
def serializeLineTable (rows : List LineTableEntry) : Except Failure (Option LineTable) :=
  if rows.isEmpty then .ok none
  else (offsetDeltas 0 rows).map fun offsets => some ⟨offsets, rows.map (·.lineNumber)⟩

def indexOption (b : Builder) : Option String → Option Text × Builder
  | none => (none, b)
  | some s => let (id, b) := b.indexForStr s; (some (.ref id), b)

def serializeRange (w : Writer) (range : Range) : Except Failure (RangeV1 × Writer) := do
  let lineTable ← serializeLineTable range.lineTable
  let (func, b) := w.stringTable.indexForStr range.func
  let (file, b) := indexOption b range.file
  let (callFile, b) := indexOption b range.callFile
  .ok (⟨some (elfVaAbs2Rel w.prevElfVa range.elfVa), range.length.setWidth 64,
    some (.ref func), file, range.callLine.getD 0, callFile, range.depth, lineTable⟩,
    { w with stringTable := b, prevElfVa := some range.elfVa })

/-- The columns of the rows of a return pad. -/
structure PadColumns where
  func : List U32
  file : List U32
  line : List U32

/-- The loop over the rows of a return pad. -/
def serializeEntries (b : Builder) : List ReturnPadEntry → PadColumns × Builder
  | [] => (⟨[], [], []⟩, b)
  | entry :: entries =>
    let (func, b) := b.indexForStr entry.func
    let (file, b) := b.indexForStr (entry.file.getD "")
    let (columns, b) := serializeEntries b entries
    (⟨func :: columns.func, file :: columns.file, entry.line.getD 0 :: columns.line⟩, b)

def serializeReturnPad (w : Writer) (pad : ReturnPad) : ReturnPadV1 × Writer :=
  let (columns, b) := serializeEntries w.stringTable pad.entries
  (⟨some (elfVaAbs2Rel w.prevElfVa pad.elfVa), columns.func, columns.file, columns.line⟩,
    { w with stringTable := b, prevElfVa := some pad.elfVa })

/-- The first part of `write`. -/
def serialize (w : Writer) : Record → Except Failure (BufferedMsg × Writer)
  | .range r => (serializeRange w r).map fun res => (.range res.1, res.2)
  | .returnPad p => let (msg, w) := serializeReturnPad w p; .ok (.returnPad msg, w)

/-! ## Fixing messages up -/

/-- A text whose index is replaced. -/
def fixUpText (field : String) (translator : Mapper) : Option Text → Except Failure (Text × Mapper)
  | some (.ref idx) => do
    match ← translator.translate idx with
    | (.unique s, translator) => .ok (.str s, translator)
    | (.translate i, translator) => .ok (.ref i, translator)
  | _ => .error (.panic ("bug: non index " ++ field ++ " field"))

/-- A text that may be missing. -/
def fixUpOption (field : String) (translator : Mapper) : Option Text → Except Failure
    (Option Text × Mapper)
  | none => .ok (none, translator)
  | some t => (fixUpText field translator (some t)).map fun res => (some res.1, res.2)

def fixUpRange (translator : Mapper) (range : RangeV1) : Except Failure (RangeV1 × Mapper) := do
  let (func, translator) ← fixUpText "func" translator range.func
  let (file, translator) ← fixUpOption "file" translator range.file
  let (callFile, translator) ← fixUpOption "call_file" translator range.callFile
  .ok ({ range with func := some func, file := file, callFile := callFile }, translator)

def fixUpColumn (translator : Mapper) : List U32 → Except Failure (List U32 × Mapper)
  | [] => .ok ([], translator)
  | idx :: column => do
    let (i, translator) ← translator.forceEntry idx
    let (column, translator) ← fixUpColumn translator column
    .ok (i :: column, translator)

/-- `fix_up_return_pad`: first all functions, then all files. -/
def fixUpReturnPad (translator : Mapper) (pad : ReturnPadV1) : Except Failure
    (ReturnPadV1 × Mapper) := do
  let (func, translator) ← fixUpColumn translator pad.func
  let (file, translator) ← fixUpColumn translator pad.file
  .ok ({ pad with func := func, file := file }, translator)

def fixUp (translator : Mapper) : BufferedMsg → Except Failure (BufferedMsg × Mapper)
  | .range r => (fixUpRange translator r).map fun res => (.range res.1, res.2)
  | .returnPad p => (fixUpReturnPad translator p).map fun res => (.returnPad res.1, res.2)

/-- The first pass of `flush_buffered_msgs`. -/
def fixUpAll (translator : Mapper) : List BufferedMsg → Except Failure (List BufferedMsg × Mapper)
  | [] => .ok ([], translator)
  | msg :: msgs => do
    let (msg, translator) ← fixUp translator msg
    let (msgs, translator) ← fixUpAll translator msgs
    .ok (msg :: msgs, translator)

/-! ## Writing -/

/-- `write_msg` for the bytes of a message. -/
def writeMsg (out : List Byte) (kind : MessageType) (payload : List Byte) : Except Failure
    (List Byte) :=
  if maxMsgSize < payload.length then .error (.error (.maximumMsgSizeExceeded payload.length))
  else .ok (out ++ frame kind.toNat payload)

def writeBuffered (prost : Prost) (out : List Byte) : BufferedMsg → Except Failure (List Byte)
  | .range r => writeMsg out .rangeV1 (prost.range.encode r)
  | .returnPad p => writeMsg out .returnPadV1 (prost.returnPad.encode p)

def flushBufferedMsgs (env : Platform) (w : Writer) : Except Failure Writer := do
  let (msgs, translator) ← fixUpAll (w.stringTable.build (env.order w.flushes)) w.bufferedMsgs
  let out ← writeMsg w.out .stringTableV1 (env.prost.stringTable.encode translator.table)
  let out ← msgs.foldlM (writeBuffered env.prost) out
  .ok ⟨out, .empty, [], w.prevElfVa, w.flushes + 1⟩

/-- Whether `write` writes its messages out. -/
def mustFlush (env : Platform) (w : Writer) : Bool :=
  stringTableSizeFlushThresh ≤ w.stringTable.sizeEstimate ||
    writerMsgBufferSize ≤ w.bufferedMsgs.length * env.bufferedMsgSize

def write (env : Platform) (w : Writer) (record : Record) : Except Failure Writer := do
  let (msg, w) ← serialize w record
  let w := { w with bufferedMsgs := w.bufferedMsgs ++ [msg] }
  if mustFlush env w then flushBufferedMsgs env w else .ok w

def Writer.new (env : Platform) : Except Failure Writer := do
  let out ← writeMsg fileMagic .header (env.prost.header.encode ())
  .ok ⟨out, .empty, [], none, 0⟩

def writeFile (env : Platform) (records : List Record) : Except Failure (List Byte) := do
  let w ← Writer.new env
  let w ← records.foldlM (write env) w
  let w ← flushBufferedMsgs env w
  .ok w.out

end EbpfProfiler.SymbFile
