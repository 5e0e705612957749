import EbpfProfiler.Reporter.Otlp

/-!
# Reading the OTLP dictionary

A consumer follows the indices of a sample; what it reads stays when rows are appended.
-/

namespace EbpfProfiler.Reporter

open Lib List Builder

/-! ## Views -/

/-- What a row of the mapping table stands for. -/
structure MappingView where
  start : BitVec 64
  limit : BitVec 64
  fileOffset : BitVec 64
  fileName : String
  attributes : List (String × AttrValue)
  deriving DecidableEq

/-- What a line of a location stands for. -/
structure LineView where
  functionName : String
  sourceFile : String
  line : BitVec 64
  column : BitVec 64
  deriving DecidableEq

/-- What a row of the location table stands for. -/
structure FrameView where
  address : BitVec 64
  mapping : Option MappingView
  lines : List LineView
  attributes : List (String × AttrValue)
  deriving DecidableEq

/-- The frames and the link of a sample. -/
structure SampleView where
  frames : List FrameView
  link : Option LinkRow
  deriving DecidableEq

/-- The attributes that `AppendOptionalString` writes. -/
def stringAttributes (pairs : List (String × String)) : List (String × AttrValue) :=
  (pairs.filter fun kv => kv.2 ≠ "").map fun kv => (kv.1, .str kv.2)

def FrameMappingData.view (m : FrameMappingData) : MappingView :=
  ⟨m.start, m.end, m.fileOffset, m.file.fileName,
    stringAttributes (mappingAttributes m.file)⟩

/-- The frame has a line when it has a name or a file. -/
def Frame.lineViews (frame : Frame) : List LineView :=
  if frame.hasLine then
    [⟨frame.functionName, frame.sourceFile, frame.sourceLine, frame.sourceColumn⟩]
  else []

/-- The attribute with the name of a frame type. -/
def typeAttributes (type : BitVec 8) : List (String × AttrValue) :=
  [("profile.frame.type", .str (frameTypeString type))]

def Frame.view (frame : Frame) : FrameView :=
  ⟨frame.addressOrLineno, frame.mapping.map FrameMappingData.view, frame.lineViews,
    typeAttributes frame.type⟩

def linkOf (traceID : BitVec 128) (spanID : BitVec 64) : Option LinkRow :=
  if spanID ≠ 0 ∧ traceID ≠ 0 then some ⟨traceID, spanID⟩ else none

def SampleEntry.view (entry : SampleEntry) : SampleView :=
  ⟨entry.frames.map Frame.view, linkOf entry.traceID entry.spanID⟩

/-! ## Following indices -/

namespace Dictionary

def string (d : Dictionary) (i : Index) : Option String := getAt d.stringTable i

def attr (d : Dictionary) (i : Index) : Option (String × AttrValue) := do
  let row ← getAt d.attributeTable i
  let key ← d.string row.keyStrindex
  pure (key, row.value)

def attributes (d : Dictionary) (is : List Index) : Option (List (String × AttrValue)) :=
  is.mapM d.attr

def function (d : Dictionary) (i : Index) : Option (String × String) := do
  let row ← getAt d.functionTable i
  let name ← d.string row.nameStrindex
  let file ← d.string row.filenameStrindex
  pure (name, file)

def mappingRow (d : Dictionary) (row : MappingRow) : Option MappingView := do
  let name ← d.string row.filenameStrindex
  let attrs ← d.attributes row.attributeIndices
  pure ⟨row.memoryStart, row.memoryLimit, row.fileOffset, name, attrs⟩

/-- Index zero stands for no mapping. -/
def mapping (d : Dictionary) (i : Index) : Option (Option MappingView) :=
  if i = 0 then some none else do
    let row ← getAt d.mappingTable i
    let view ← d.mappingRow row
    pure (some view)

def line (d : Dictionary) (row : LineRow) : Option LineView := do
  let function ← d.function row.functionIndex
  pure ⟨function.1, function.2, row.line, row.column⟩

def locationRow (d : Dictionary) (row : LocationRow) : Option FrameView := do
  let mapping ← d.mapping row.mappingIndex
  let lines ← row.lines.mapM d.line
  let attrs ← d.attributes row.attributeIndices
  pure ⟨row.address, mapping, lines, attrs⟩

def location (d : Dictionary) (i : Index) : Option FrameView := do
  let row ← getAt d.locationTable i
  d.locationRow row

def stack (d : Dictionary) (i : Index) : Option (List FrameView) := do
  let is ← getAt d.stackTable i
  is.mapM d.location

/-- Index zero stands for no link. -/
def link (d : Dictionary) (i : Index) : Option (Option LinkRow) :=
  if i = 0 then some none else do
    let row ← getAt d.linkTable i
    pure (some row)

def sample (d : Dictionary) (s : Sample) : Option SampleView := do
  let frames ← d.stack s.stackIndex
  let link ← d.link s.linkIndex
  pure ⟨frames, link⟩

/-! ## Growing dictionaries -/

/-- Rows are only appended. -/
structure Grows (d d' : Dictionary) : Prop where
  strings : d.stringTable <+: d'.stringTable
  functions : d.functionTable <+: d'.functionTable
  mappings : d.mappingTable <+: d'.mappingTable
  locations : d.locationTable <+: d'.locationTable
  stackRows : d.stackTable <+: d'.stackTable
  links : d.linkTable <+: d'.linkTable
  attributes : d.attributeTable <+: d'.attributeTable

namespace Grows

variable {d d' d'' : Dictionary}

lemma rfl : d.Grows d :=
  ⟨prefix_rfl, prefix_rfl, prefix_rfl, prefix_rfl, prefix_rfl, prefix_rfl, prefix_rfl⟩

section
variable (h : d.Grows d')
include h

lemma trans (h' : d'.Grows d'') : d.Grows d'' :=
  ⟨h.strings.trans h'.strings, h.functions.trans h'.functions, h.mappings.trans h'.mappings,
    h.locations.trans h'.locations, h.stackRows.trans h'.stackRows, h.links.trans h'.links,
    h.attributes.trans h'.attributes⟩

variable (i : Index)

lemma string : Below (d.string i) (d'.string i) :=
  Below.getAt h.strings i

lemma attr : Below (d.attr i) (d'.attr i) :=
  (Below.getAt h.attributes i).bind fun _ => (h.string _).bind fun _ => Below.rfl

lemma attributes_read (is : List Index) :
    Below (d.attributes is) (d'.attributes is) := Below.mapM h.attr is

lemma function : Below (d.function i) (d'.function i) :=
  (Below.getAt h.functions i).bind fun _ =>
    (h.string _).bind fun _ => (h.string _).bind fun _ => Below.rfl

lemma mappingRow (row : MappingRow) : Below (d.mappingRow row) (d'.mappingRow row) :=
  (h.string _).bind fun _ => (h.attributes_read _).bind fun _ => Below.rfl

lemma mapping : Below (d.mapping i) (d'.mapping i) := by
  unfold Dictionary.mapping
  split
  · exact Below.rfl
  · exact (Below.getAt h.mappings i).bind fun row => (h.mappingRow row).bind fun _ => Below.rfl

lemma lines (rows : List LineRow) : Below (rows.mapM d.line) (rows.mapM d'.line) :=
  Below.mapM (fun _ => (h.function _).bind fun _ => Below.rfl) rows

lemma locationRow (row : LocationRow) : Below (d.locationRow row) (d'.locationRow row) :=
  (h.mapping _).bind fun _ =>
    (h.lines _).bind fun _ => (h.attributes_read _).bind fun _ => Below.rfl

lemma location : Below (d.location i) (d'.location i) :=
  (Below.getAt h.locations i).bind h.locationRow

lemma stack : Below (d.stack i) (d'.stack i) :=
  (Below.getAt h.stackRows i).bind fun is => Below.mapM h.location is

lemma link : Below (d.link i) (d'.link i) := by
  unfold Dictionary.link
  split
  · exact Below.rfl
  · exact (Below.getAt h.links i).bind fun _ => Below.rfl

lemma sample (s : Sample) : Below (d.sample s) (d'.sample s) :=
  (h.stack _).bind fun _ => (h.link _).bind fun _ => Below.rfl

end

end Grows

end Dictionary

/-! ## Keys of attributes -/

/-- The keys of the attributes with texts, except for labels. -/
def textKeys : List String :=
  ["process.executable.build_id.gnu", "process.executable.build_id.go",
    "process.executable.build_id.htlhash", "profile.frame.type", "thread.name"]

def numberKeys : List String := ["thread.id", "cpu.logical_number"]

/-- The attributes that are written. -/
inductive Written : String → AttrValue → Prop
  | text {key : String} (hkey : key ∈ textKeys) (value : String) : Written key (.str value)
  | label (name value : String) : Written ("process.context.label." ++ name) (.str value)
  | number {key : String} (hkey : key ∈ numberKeys) (value : ℤ) : Written key (.int value)

variable {key : String}

lemma Written.ne_empty {value : AttrValue} (h : Written key value) : value ≠ .empty := by
  cases h <;> exact fun heq => nomatch heq

/-- What precedes the value in a compound key, as far as it is known. -/
def compoundStarts : List String :=
  (textKeys ++ numberKeys).map (· ++ "_") ++ ["process.context.label."]

/-- No start of a compound key is a start of another one. -/
lemma eq_of_isPrefix_starts : ∀ s ∈ compoundStarts, ∀ t ∈ compoundStarts,
    s.toList <+: t.toList → s = t := by
  decide +kernel

lemma starts_eq {s t : String} (hs : s ∈ compoundStarts) (ht : t ∈ compoundStarts)
    {text : List Char} (h : s.toList <+: text) (h' : t.toList <+: text) : s = t := by
  rcases prefix_or_prefix_of_prefix h h' with hst | hts
  · exact eq_of_isPrefix_starts s hs t ht hst
  · exact (eq_of_isPrefix_starts t ht s hs hts).symm

lemma isPrefix_compound (key : String) (value : AttrValue) :
    (key ++ "_").toList <+: (compound key value).toList := by
  have hsplit : (compound key value).toList = (key ++ "_").toList ++ value.text.toList :=
    String.toList_append
  rw [hsplit]
  exact prefix_append _ _

lemma mem_starts_of_text (h : key ∈ textKeys) : key ++ "_" ∈ compoundStarts :=
  mem_append_left _ (mem_map_of_mem (mem_append_left _ h))

lemma mem_starts_of_number (h : key ∈ numberKeys) : key ++ "_" ∈ compoundStarts :=
  mem_append_left _ (mem_map_of_mem (mem_append_right _ h))

/-- Only labels can share a compound key, as their key may have an underscore. -/
lemma Written.eq_of_compound {key' value : String} {value' : AttrValue} (hkey : key ∈ textKeys)
    (h' : Written key' value') (h : compound key (.str value) = compound key' value') :
    key' = key ∧ value' = .str value := by
  have hpre := isPrefix_compound key (.str value)
  have hpre' := isPrefix_compound key' value'
  rw [← h] at hpre'
  cases h' with
  | text hkey' text =>
    have hstart := starts_eq (mem_starts_of_text hkey') (mem_starts_of_text hkey) hpre' hpre
    have heq : key' = key := (String.append_left_inj _).1 hstart
    subst heq
    exact ⟨rfl, congrArg AttrValue.str ((String.append_right_inj _).1 h).symm⟩
  | label name text =>
    have hlabel : "process.context.label.".toList <+: (compound key (.str value)).toList := by
      refine List.IsPrefix.trans ?_ hpre'
      rw [String.append_assoc, String.toList_append]
      exact prefix_append _ _
    have hstart := starts_eq (mem_starts_of_text hkey)
      (mem_append_right _ (mem_singleton.2 rfl)) hpre hlabel
    have hnot : ∀ k ∈ textKeys, k ++ "_" ≠ "process.context.label." := by decide +kernel
    exact absurd hstart (hnot key hkey)
  | number hkey' n =>
    have hstart := starts_eq (mem_starts_of_number hkey') (mem_starts_of_text hkey) hpre' hpre
    have heq : key' = key := (String.append_left_inj _).1 hstart
    have hnot : ∀ k ∈ numberKeys, k ∉ textKeys := by decide +kernel
    exact absurd (heq ▸ hkey) (hnot key' hkey')

end EbpfProfiler.Reporter
