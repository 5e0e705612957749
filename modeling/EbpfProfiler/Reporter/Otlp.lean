import EbpfProfiler.Lib.Bytes
import EbpfProfiler.Lib.OrderedSet
import EbpfProfiler.Reporter.TraceEvents

/-!
# The OTLP dictionary

`Generate` (`pdata/generate.go`). Maps are lists, in the order of their iteration. Left out are
resource attributes, scope, time window and extra attributes.
-/

namespace EbpfProfiler.Reporter

open Lib OrderedSet

/-! ## Frame types -/

/-- `interpreterTypeToString`, for the types that frames can have. -/
def interpreterTypeString : BitVec 8 → String
  | 0x0 => "unknown"
  | 0x1 => "cpython"
  | 0x2 => "php"
  | 0x3 => "native"
  | 0x4 => "kernel"
  | 0x5 => "jvm"
  | 0x6 => "ruby"
  | 0x7 => "perl"
  | 0x8 => "v8js"
  | 0x9 => "php"
  | 0xa => "dotnet"
  | 0xb => "go"
  | 0xc => "beam"
  | 0xd => "luajit"
  | _ => "<invalid>"

/-- `FrameType.String`: the name of the interpreter, with or without the error bit. -/
def frameTypeString (type : BitVec 8) : String :=
  if type = 0x80 then "abort-marker" else interpreterTypeString (type &&& 0x7f)

/-- The condition for a line: the frame has a name or a file. -/
def Frame.hasLine (frame : Frame) : Bool := frame.functionName ≠ "" || frame.sourceFile ≠ ""

/-! ## Rows of the tables -/

/-- The value of an attribute. -/
inductive AttrValue
  | empty
  | int (value : ℤ)
  | str (value : String)
  deriving DecidableEq

/-- The text of a value in a compound key. -/
def AttrValue.text : AttrValue → String
  | .empty => ""
  | .int value => toString value
  | .str value => value

/-- An attribute of the dictionary. -/
structure AttributeRow where
  keyStrindex : Index := 0
  value : AttrValue := .empty
  deriving DecidableEq

/-- A function of the dictionary. -/
structure FunctionRow where
  nameStrindex : Index := 0
  filenameStrindex : Index := 0
  deriving DecidableEq

/-- A mapping of the dictionary. -/
structure MappingRow where
  memoryStart : BitVec 64 := 0
  memoryLimit : BitVec 64 := 0
  fileOffset : BitVec 64 := 0
  filenameStrindex : Index := 0
  attributeIndices : List Index := []
  deriving DecidableEq

/-- A line of a location. -/
structure LineRow where
  line : BitVec 64
  column : BitVec 64
  functionIndex : Index
  deriving DecidableEq

/-- A location of the dictionary. -/
structure LocationRow where
  address : BitVec 64 := 0
  mappingIndex : Index := 0
  lines : List LineRow := []
  attributeIndices : List Index := []
  deriving DecidableEq

/-- A link of the dictionary. -/
structure LinkRow where
  traceID : BitVec 128 := 0
  spanID : BitVec 64 := 0
  deriving DecidableEq

/-- `ProfilesDictionary`; a stack is the list of its location indices. -/
structure Dictionary where
  stringTable : List String
  functionTable : List FunctionRow
  mappingTable : List MappingRow
  locationTable : List LocationRow
  stackTable : List (List Index)
  linkTable : List LinkRow
  attributeTable : List AttributeRow

/-! ## Keys of the sets -/

/-- The key of a function. -/
structure FuncInfo where
  nameIdx : Index := 0
  fileNameIdx : Index := 0
  deriving DecidableEq

/-- The key of a location. -/
structure LocationInfo where
  address : BitVec 64 := 0
  mappingIndex : Index := 0
  frameType : BitVec 8 := 0
  hasLine : Bool := false
  lineNumber : BitVec 64 := 0
  columnNumber : BitVec 64 := 0
  functionIndex : Index := 0
  deriving DecidableEq

def LocationInfo.lines (info : LocationInfo) : List LineRow :=
  if info.hasLine then [⟨info.lineNumber, info.columnNumber, info.functionIndex⟩] else []

/-- The key of a stack. -/
structure StackInfo where
  locationIndicesHash : BitVec 64 := 0
  deriving DecidableEq

/-- The key of a link. -/
structure LinkInfo where
  traceID : BitVec 128 := 0
  spanID : BitVec 64 := 0
  deriving DecidableEq

/-- `fnv.New64a` over bytes. -/
def fnv64a (bytes : List Byte) : BitVec 64 :=
  bytes.foldl (fun h b => (h ^^^ b.setWidth 64) * 0x100000001b3) 0xcbf29ce484222325

def hashLocationIndices (locationIndices : List Index) : BitVec 64 :=
  fnv64a (locationIndices.flatMap fun i => leBytes 4 i.toNat)

/-! ## State -/

/-- Sets and tables in the making; `hashed` records location indices, which the code does not. -/
structure Builder where
  stringSet : OrderedSet String
  funcSet : OrderedSet FuncInfo
  mappingSet : OrderedSet (Option FrameMappingData)
  stackSet : OrderedSet StackInfo
  locationSet : OrderedSet LocationInfo
  linkSet : OrderedSet LinkInfo
  mappingTable : List MappingRow
  locationTable : List LocationRow
  stackTable : List (List Index)
  linkTable : List LinkRow
  attributeTable : List AttributeRow
  /-- `AttrTableManager.indices`. -/
  attrIndices : Table String Index
  hashed : List (List Index)

/-- The first element of each table is empty. -/
def Builder.new : Builder where
  stringSet := (empty.add "").2
  funcSet := (empty.add {}).2
  mappingSet := (empty.add none).2
  stackSet := (empty.add {}).2
  locationSet := (empty.add {}).2
  linkSet := (empty.add {}).2
  mappingTable := [{}]
  locationTable := [{}]
  stackTable := [[]]
  linkTable := [{}]
  attributeTable := [{}]
  attrIndices := ∅
  hashed := []

namespace Builder

/-- `stringSet.Add`. -/
def addString (text : String) (b : Builder) : Index × Builder :=
  ((b.stringSet.add text).1, { b with stringSet := (b.stringSet.add text).2 })

/-! ## Attributes -/

/-- The compound key of `AppendInt` and `AppendOptionalString`. -/
def compound (key : String) (value : AttrValue) : String := key ++ "_" ++ value.text

/-- `appendAny`: the index that is appended. -/
def appendAny (key : String) (value : AttrValue) (b : Builder) : Index × Builder :=
  match b.attrIndices.lookup (compound key value) with
  | some idx => (idx, b)
  | none =>
    let newIndex := BitVec.ofNat 32 b.attributeTable.length
    let keyed := b.addString key
    (newIndex, { keyed.2 with
      attributeTable := b.attributeTable ++ [⟨keyed.1, value⟩]
      attrIndices := b.attrIndices.insert (compound key value) newIndex })

/-- `AppendOptionalString`: the indices that are appended. -/
def appendOptionalString (key value : String) (b : Builder) : List Index × Builder :=
  if value = "" then ([], b)
  else ([(b.appendAny key (.str value)).1], (b.appendAny key (.str value)).2)

def appendInt (key : String) (value : ℤ) (b : Builder) : List Index × Builder :=
  ([(b.appendAny key (.int value)).1], (b.appendAny key (.int value)).2)

/-- `AppendOptionalString` for several attributes. -/
def appendStrings : List (String × String) → Builder → List Index × Builder
  | [], b => ([], b)
  | (key, value) :: rest, b =>
    let first := b.appendOptionalString key value
    let others := appendStrings rest first.2
    (first.1 ++ others.1, others.2)

/-! ## Mappings, functions and locations -/

def hexDigit (d : ℕ) : Char := if d < 10 then Char.ofNat (48 + d) else Char.ofNat (87 + d)

/-- `Hash128.StringNoQuotes`: 32 digits. -/
def fileIDString (id : BitVec 128) : String :=
  String.ofList ((List.range 32).map fun i => hexDigit (id.toNat / 16 ^ (31 - i) % 16))

def mappingAttributes (file : FrameMappingFileData) : List (String × String) :=
  [("process.executable.build_id.gnu", file.gnuBuildID),
    ("process.executable.build_id.go", file.goBuildID),
    ("process.executable.build_id.htlhash", fileIDString file.fileID)]

/-- The row of a new mapping, written with the set. -/
def withMapping (m : FrameMappingData) (set : OrderedSet (Option FrameMappingData)) (b : Builder) :
    Builder :=
  let name := b.addString m.file.fileName
  let attrs := appendStrings (mappingAttributes m.file) name.2
  { attrs.2 with
    mappingSet := set
    mappingTable := attrs.2.mappingTable ++ [⟨m.start, m.end, m.fileOffset, name.1, attrs.1⟩] }

/-- The index of the mapping of a frame; the invalid one is there already. -/
def addMapping (mapping : Option FrameMappingData) (b : Builder) : Index × Builder :=
  let added := b.mappingSet.addWithCheck mapping
  match added.2.1, mapping with
  | false, some m => (added.1, b.withMapping m added.2.2)
  | _, _ => (added.1, { b with mappingSet := added.2.2 })

/-- `funcSet.Add`. -/
def addFunc (info : FuncInfo) (b : Builder) : Index × Builder :=
  ((b.funcSet.add info).1, { b with funcSet := (b.funcSet.add info).2 })

/-- The part of `locInfo` for a frame with a name or a file. -/
def addLine (frame : Frame) (locInfo : LocationInfo) (b : Builder) : LocationInfo × Builder :=
  if frame.hasLine then
    let name := b.addString frame.functionName
    let file := name.2.addString frame.sourceFile
    let func := file.2.addFunc ⟨name.1, file.1⟩
    ({ locInfo with
        hasLine := true
        lineNumber := frame.sourceLine
        columnNumber := frame.sourceColumn
        functionIndex := func.1 }, func.2)
  else (locInfo, b)

/-- The row of a new location, written together with the set. -/
def withLocation (info : LocationInfo) (set : OrderedSet LocationInfo) (b : Builder) : Builder :=
  let attrs := b.appendOptionalString "profile.frame.type" (frameTypeString info.frameType)
  { attrs.2 with
    locationSet := set
    locationTable := attrs.2.locationTable ++
      [⟨info.address, info.mappingIndex, info.lines, attrs.1⟩] }

/-- The index of a location. -/
def addLocationInfo (info : LocationInfo) (b : Builder) : Index × Builder :=
  let added := b.locationSet.addWithCheck info
  (added.1,
    if added.2.1 then { b with locationSet := added.2.2 } else b.withLocation info added.2.2)

def addFrame (frame : Frame) (b : Builder) : Index × Builder :=
  let mapping := b.addMapping frame.mapping
  let line := mapping.2.addLine frame
    { address := frame.addressOrLineno, frameType := frame.type, mappingIndex := mapping.1 }
  line.2.addLocationInfo line.1

def addFrames : List Frame → Builder → List Index × Builder
  | [], b => ([], b)
  | frame :: rest, b =>
    let first := b.addFrame frame
    let others := addFrames rest first.2
    (first.1 :: others.1, others.2)

def addStack (locationIndices : List Index) (b : Builder) : Index × Builder :=
  let added := b.stackSet.addWithCheck ⟨hashLocationIndices locationIndices⟩
  let b := { b with stackSet := added.2.2, hashed := b.hashed ++ [locationIndices] }
  (added.1, if added.2.1 then b else { b with stackTable := b.stackTable ++ [locationIndices] })

/-- The index of a link; it is zero unless both IDs are valid. -/
def addLink (traceID : BitVec 128) (spanID : BitVec 64) (b : Builder) : Index × Builder :=
  if spanID ≠ 0 ∧ traceID ≠ 0 then
    let added := b.linkSet.addWithCheck ⟨traceID, spanID⟩
    let b := { b with linkSet := added.2.2 }
    (added.1, if added.2.1 then b else { b with linkTable := b.linkTable ++ [⟨traceID, spanID⟩] })
  else (0, b)

end Builder

/-! ## Samples and profiles -/

/-- An entry of `SampleToEvents`, with the labels in the order of the iteration. -/
structure SampleEntry where
  comm : String
  tid : ℤ
  cpu : ℤ
  spanID : BitVec 64
  traceID : BitVec 128
  labels : List (String × String)
  frames : List Frame
  timestamps : List ℕ
  values : List ℤ

/-- A sample of a profile. -/
structure Sample where
  stackIndex : Index
  linkIndex : Index
  attributeIndices : List Index
  timestamps : List ℕ
  values : List ℤ

/-- `samples.Period` and `samples.SampleType`. -/
structure Period where
  type : String
  unit : String
  value : ℤ

/-- Type, unit and period of an origin. -/
structure SampleType where
  type : String
  unit : String
  period : Option Period

/-- `samples.TypeMetadata`, as far as it describes the profiles. -/
structure ProfileType where
  sampleTypes : List SampleType
  reportValues : Bool

/-- `pprofile.ValueType`; the one of a new profile is zero. -/
structure ValueType where
  typeStrindex : Index := 0
  unitStrindex : Index := 0
  deriving DecidableEq

/-- The fields of `pprofile.Profile` that `initProfileMeta` sets. -/
structure ProfileMeta where
  period : ℤ := 0
  periodType : ValueType := {}
  sampleType : ValueType
  deriving DecidableEq

/-- The profile of one origin. -/
structure Profile where
  info : ProfileMeta
  samples : List Sample

/-- `setSampleValues`. -/
def sampleValues (values : List ℤ) (index width : ℕ) : List ℤ :=
  if width = 1 then values
  else (List.range values.length).filterMap fun i =>
    if index ≤ i ∧ (i - index) % width = 0 then values[i]? else none

namespace Builder

def sampleAttributes (entry : SampleEntry) (b : Builder) : List Index × Builder :=
  let labels := appendStrings
    (entry.labels.map fun l => ("process.context.label." ++ l.1, l.2)) b
  let name := labels.2.appendOptionalString "thread.name" entry.comm
  let thread := name.2.appendInt "thread.id" entry.tid
  let cpu := thread.2.appendInt "cpu.logical_number" entry.cpu
  (labels.1 ++ name.1 ++ thread.1 ++ cpu.1, cpu.2)

/-- A sample in `setProfile`. -/
def addSample (type : ProfileType) (entry : SampleEntry) (b : Builder) : Sample × Builder :=
  let link := b.addLink entry.traceID entry.spanID
  let frames := addFrames entry.frames link.2
  let stack := frames.2.addStack frames.1
  let attrs := stack.2.sampleAttributes entry
  (⟨stack.1, link.1, attrs.1, entry.timestamps,
    if type.reportValues then sampleValues entry.values 0 type.sampleTypes.length else []⟩, attrs.2)

/-- The samples of `setProfile`. -/
def addSamples (type : ProfileType) : List SampleEntry → Builder → List Sample × Builder
  | [], b => ([], b)
  | entry :: rest, b =>
    let first := b.addSample type entry
    let others := addSamples type rest first.2
    (first.1 :: others.1, others.2)

def addValueType (type unit : String) (b : Builder) : ValueType × Builder :=
  let t := b.addString type
  let u := t.2.addString unit
  (⟨t.1, u.1⟩, u.2)

/-- `initProfileMeta`. Without a period its fields stay zero. -/
def initProfileMeta (sampleType : SampleType) (b : Builder) : ProfileMeta × Builder :=
  match sampleType.period with
  | some period =>
    let periodType := b.addValueType period.type period.unit
    let type := periodType.2.addValueType sampleType.type sampleType.unit
    (⟨period.value, periodType.1, type.1⟩, type.2)
  | none =>
    let type := b.addValueType sampleType.type sampleType.unit
    ({ sampleType := type.1 }, type.2)

/-- The profiles of other sample types: copies with other values. -/
def addCopies (type : ProfileType) (entries : List SampleEntry) (samples : List Sample) :
    ℕ → List SampleType → Builder → List Profile × Builder
  | _, [], b => ([], b)
  | i, sampleType :: rest, b =>
    let info := b.initProfileMeta sampleType
    let copies := (samples.zip entries).map fun e =>
      if type.reportValues then
        { e.1 with values := sampleValues e.2.values i type.sampleTypes.length }
      else e.1
    let others := addCopies type entries samples (i + 1) rest info.2
    (⟨info.1, copies⟩ :: others.1, others.2)

/-- The profiles of a type. Nothing is written without samples or sample types. -/
def addProfiles (type : ProfileType) (entries : List SampleEntry) (b : Builder) :
    List Profile × Builder :=
  match entries, type.sampleTypes with
  | [], _ => ([], b)
  | _, [] => ([], b)
  | entries, sampleType :: rest =>
    let info := b.initProfileMeta sampleType
    let samples := addSamples type entries info.2
    let copies := addCopies type entries samples.1 1 rest samples.2
    (⟨info.1, samples.1⟩ :: copies.1, copies.2)

/-- The profiles of a resource. -/
def addTypes : List (ProfileType × List SampleEntry) → Builder → List Profile × Builder
  | [], b => ([], b)
  | (type, entries) :: rest, b =>
    let first := b.addProfiles type entries
    let others := addTypes rest first.2
    (first.1 ++ others.1, others.2)

/-- The loop over the tree; a resource without events is passed over. -/
def addResources : List (List (ProfileType × List SampleEntry)) → Builder →
    List (List Profile) × Builder
  | [], b => ([], b)
  | [] :: rest, b => addResources rest b
  | types :: rest, b =>
    let first := b.addTypes types
    let others := addResources rest first.2
    (first.1 :: others.1, others.2)

end Builder

/-- The events of the resources. -/
abbrev SamplesTree := List (List (ProfileType × List SampleEntry))

/-- `pprofile.Profiles`: the profiles of each resource, and the dictionary. -/
structure Profiles where
  resources : List (List Profile)
  dictionary : Dictionary

/-- `Generate`; functions and strings are written at the end. -/
def generate (tree : SamplesTree) : Except Fault Profiles := do
  let built := Builder.addResources tree Builder.new
  let b := built.2
  let functions ← b.funcSet.fill {} fun f => ⟨f.nameIdx, f.fileNameIdx⟩
  let strings ← b.stringSet.fill "" id
  pure ⟨built.1,
    ⟨strings, functions, b.mappingTable, b.locationTable, b.stackTable, b.linkTable,
      b.attributeTable⟩⟩

end EbpfProfiler.Reporter
