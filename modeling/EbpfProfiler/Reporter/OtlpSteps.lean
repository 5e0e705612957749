import EbpfProfiler.Reporter.OtlpDecode

/-!
# What the generator keeps

Each operation appends to the tables, and keeps every row in step with its set.
-/

namespace EbpfProfiler.Reporter

open Lib List OrderedSet

variable {value : AttrValue} {b : Builder} {d d' : Dictionary} {frame : Frame} {i : Index}
  {kvs : List (String × AttrValue)} {is : List Index} {info : LocationInfo} {key : String}

/-- The index leads to a row. -/
def Inside {α : Type} (table : List α) (i : Index) : Prop := ∃ row, getAt table i = some row

lemma Inside.mono {α : Type} {table table' : List α} (h : Inside table i)
    (hpre : table <+: table') : Inside table' i := h.imp fun _ => getAt_mono hpre

/-- The number of rows is in the range of an index. -/
structure Dictionary.Fits (d : Dictionary) : Prop where
  strings : d.stringTable.length ≤ 2 ^ 31
  functions : d.functionTable.length ≤ 2 ^ 31
  mappings : d.mappingTable.length ≤ 2 ^ 31
  locations : d.locationTable.length ≤ 2 ^ 31
  stackRows : d.stackTable.length ≤ 2 ^ 31
  links : d.linkTable.length ≤ 2 ^ 31
  attributes : d.attributeTable.length ≤ 2 ^ 31

lemma Dictionary.Grows.fits (h : d.Grows d') (hfits : d'.Fits) : d.Fits :=
  ⟨h.strings.length_le.trans hfits.strings, h.functions.length_le.trans hfits.functions,
    h.mappings.length_le.trans hfits.mappings, h.locations.length_le.trans hfits.locations,
    h.stackRows.length_le.trans hfits.stackRows, h.links.length_le.trans hfits.links,
    h.attributes.length_le.trans hfits.attributes⟩

def NoCollision (lists : List (List Index)) : Prop :=
  ∀ l ∈ lists, hashLocationIndices l ≠ 0 ∧
    ∀ l' ∈ lists, hashLocationIndices l = hashLocationIndices l' → l = l'

namespace Builder

/-- The dictionary that the sets and tables amount to. -/
def dictionary (b : Builder) : Dictionary :=
  ⟨b.stringSet.elems, b.funcSet.elems.map fun f => ⟨f.nameIdx, f.fileNameIdx⟩, b.mappingTable,
    b.locationTable, b.stackTable, b.linkTable, b.attributeTable⟩

/-- The indices fit and no hashes collide. -/
structure Ok (b : Builder) : Prop where
  fits : b.dictionary.Fits
  hashes : NoCollision b.hashed

/-- Nothing is lost from the dictionary. -/
structure Grows (b b' : Builder) : Prop where
  dictionary : b.dictionary.Grows b'.dictionary
  hashed : b.hashed <+: b'.hashed

namespace Grows

variable {b b' b'' : Builder}

lemma rfl : b.Grows b := ⟨Dictionary.Grows.rfl, prefix_rfl⟩

lemma trans (h : b.Grows b') (h' : b'.Grows b'') : b.Grows b'' :=
  ⟨h.dictionary.trans h'.dictionary, h.hashed.trans h'.hashed⟩

lemma withMapping (b : Builder) (set : OrderedSet (Option FrameMappingData)) (row : MappingRow) :
    b.Grows { b with mappingSet := set, mappingTable := b.mappingTable ++ [row] } :=
  ⟨{ Dictionary.Grows.rfl with mappings := prefix_append _ _ }, prefix_rfl⟩

lemma withLocation (b : Builder) (set : OrderedSet LocationInfo) (row : LocationRow) :
    b.Grows { b with locationSet := set, locationTable := b.locationTable ++ [row] } :=
  ⟨{ Dictionary.Grows.rfl with locations := prefix_append _ _ }, prefix_rfl⟩

lemma ok (h : b.Grows b') (hok : b'.Ok) : b.Ok where
  fits := h.dictionary.fits hok.fits
  hashes l hl := ⟨(hok.hashes l (h.hashed.subset hl)).1, fun l' hl' =>
    (hok.hashes l (h.hashed.subset hl)).2 l' (h.hashed.subset hl')⟩

end Grows

/-! ## What rows show -/

def MappingShows (d : Dictionary) (mapping : Option FrameMappingData) (row : MappingRow) : Prop :=
  ∃ m, mapping = some m ∧ d.mappingRow row = some m.view

/-- The key of a location stands for a frame. -/
structure InfoShows (d : Dictionary) (info : LocationInfo) (frame : Frame) : Prop where
  address : info.address = frame.addressOrLineno
  type : info.frameType = frame.type
  mapping : d.mapping info.mappingIndex = some (frame.mapping.map FrameMappingData.view)
  mappingInside : Inside d.mappingTable info.mappingIndex
  lines : info.lines.mapM d.line = some frame.lineViews
  noLine : info.hasLine = false →
    info.lineNumber = 0 ∧ info.columnNumber = 0 ∧ info.functionIndex = 0

/-- The row is that of a location, and the location is that of one of the frames. -/
structure LocationShows (frames : Set Frame) (d : Dictionary) (info : LocationInfo)
    (row : LocationRow) : Prop where
  origin : ∃ frame ∈ frames, InfoShows d info frame
  address : row.address = info.address
  mappingIndex : row.mappingIndex = info.mappingIndex
  lines : row.lines = info.lines
  attributes : d.attributes row.attributeIndices = some (typeAttributes info.frameType)

/-- The row is a stack with the hash. -/
structure StackShows (d : Dictionary) (hashed : List (List Index)) (info : StackInfo)
    (row : List Index) : Prop where
  hash : info.locationIndicesHash = hashLocationIndices row
  mem : row ∈ hashed
  nonempty : row ≠ []
  inside : ∀ i ∈ row, Inside d.locationTable i

/-- The row is that of the link. -/
structure LinkShows (info : LinkInfo) (row : LinkRow) : Prop where
  row_eq : row = ⟨info.traceID, info.spanID⟩
  ne_zero : info ≠ {}

def AttributeShows (d : Dictionary) (kv : String × AttrValue) (row : AttributeRow) : Prop :=
  d.string row.keyStrindex = some kv.1 ∧ row.value = kv.2

def compounds (kvs : List (String × AttrValue)) : List String :=
  kvs.map fun kv => compound kv.1 kv.2

/-- The attributes are in row order, and found by their compound keys. -/
structure AttributesShown (d : Dictionary) (table : List AttributeRow)
    (indices : Table String Index) (kvs : List (String × AttrValue)) : Prop where
  rows : ∃ rows, table = {} :: rows ∧ List.Forall₂ (AttributeShows d) kvs rows
  written : ∀ kv ∈ kvs, Written kv.1 kv.2
  nodup : (compounds kvs).Nodup
  lookup : ∀ c, indices.lookup c =
    if c ∈ compounds kvs then some (BitVec.ofNat 32 ((compounds kvs).idxOf c + 1)) else none

lemma InfoShows.mono (h : InfoShows d info frame) (hgrows : d.Grows d') : InfoShows d' info frame :=
  ⟨h.address, h.type, hgrows.mapping _ _ h.mapping, h.mappingInside.mono hgrows.mappings,
    hgrows.lines _ _ h.lines, h.noLine⟩

variable {mapping : Option FrameMappingData} {pairs : List (String × String)}

lemma MappingShows.mono {row : MappingRow} (h : MappingShows d mapping row)
    (hgrows : d.Grows d') : MappingShows d' mapping row :=
  h.imp fun _ hm => ⟨hm.1, hgrows.mappingRow _ _ hm.2⟩

lemma LocationShows.mono {frames : Set Frame} {row : LocationRow}
    (h : LocationShows frames d info row) (hgrows : d.Grows d') :
    LocationShows frames d' info row :=
  ⟨h.origin.imp fun _ hf => ⟨hf.1, hf.2.mono hgrows⟩, h.address, h.mappingIndex, h.lines,
    hgrows.attributes_read _ _ h.attributes⟩

lemma StackShows.mono {hashed hashed' : List (List Index)} {info : StackInfo} {row : List Index}
    (h : StackShows d hashed info row) (hgrows : d.Grows d') (hhashed : hashed <+: hashed') :
    StackShows d' hashed' info row :=
  ⟨h.hash, hhashed.subset h.mem, h.nonempty, fun i hi => (h.inside i hi).mono hgrows.locations⟩

lemma AttributesShown.mono {table : List AttributeRow} {indices : Table String Index}
    (h : AttributesShown d table indices kvs) (hgrows : d.Grows d') :
    AttributesShown d' table indices kvs := by
  refine ⟨?_, h.written, h.nodup, h.lookup⟩
  obtain ⟨rows, htable, hrows⟩ := h.rows
  exact ⟨rows, htable, hrows.imp fun _ _ hs => ⟨hgrows.string _ _ hs.1, hs.2⟩⟩

/-! ## The invariant -/

variable {frames : Set Frame}

/-- Rows and sets are in step, read in a dictionary that may have grown. -/
structure Good (frames : Set Frame) (d : Dictionary) (b : Builder) : Prop where
  strings : ∃ rest, b.stringSet.elems = "" :: rest
  functions : ∃ rest, b.funcSet.elems = {} :: rest
  functionStrings : ∀ f ∈ b.funcSet.elems,
    Inside d.stringTable f.nameIdx ∧ Inside d.stringTable f.fileNameIdx
  mappings : Lockstep (MappingShows d) none {} b.mappingSet b.mappingTable
  locations : Lockstep (LocationShows frames d) {} {} b.locationSet b.locationTable
  stackRows : Lockstep (StackShows d b.hashed) {} [] b.stackSet b.stackTable
  links : Lockstep LinkShows {} {} b.linkSet b.linkTable
  attributes : ∃ kvs, AttributesShown d b.attributeTable b.attrIndices kvs

lemma Good.mono (h : Good frames d b) (hgrows : d.Grows d') : Good frames d' b where
  strings := h.strings
  functions := h.functions
  functionStrings f hf :=
    ⟨(h.functionStrings f hf).1.mono hgrows.strings, (h.functionStrings f hf).2.mono hgrows.strings⟩
  mappings := h.mappings.mono fun _ _ hs => hs.mono hgrows
  locations := h.locations.mono fun _ _ hs => hs.mono hgrows
  stackRows := h.stackRows.mono fun _ _ hs => hs.mono hgrows prefix_rfl
  links := h.links
  attributes := h.attributes.imp fun _ hs => hs.mono hgrows

/-! Each part of the invariant is about its own set and table. -/

namespace Good

variable {d : Dictionary} {b : Builder}

lemma withAttributes (h : Good frames d b) {set : OrderedSet String} {table : List AttributeRow}
    {indices : Table String Index} (hset : b.stringSet.elems <+: set.elems)
    (hkvs : AttributesShown d table indices kvs) :
    Good frames d { b with stringSet := set, attributeTable := table, attrIndices := indices } :=
  { h with strings := exists_cons_of_isPrefix h.strings hset, attributes := ⟨kvs, hkvs⟩ }

lemma withMappings (h : Good frames d b) {set : OrderedSet (Option FrameMappingData)}
    {table : List MappingRow} (hlock : Lockstep (MappingShows d) none {} set table) :
    Good frames d { b with mappingSet := set, mappingTable := table } :=
  { h with mappings := hlock }

lemma withLocations (h : Good frames d b) {set : OrderedSet LocationInfo} {table : List LocationRow}
    (hlock : Lockstep (LocationShows frames d) {} {} set table) :
    Good frames d { b with locationSet := set, locationTable := table } :=
  { h with locations := hlock }

end Good

/-- An operation appends, keeps the invariant and gives `post`, if in range. -/
structure Step (frames : Set Frame) (b b' : Builder) (post : Dictionary → Prop) : Prop where
  grows : b.Grows b'
  good : Good frames b.dictionary b → b'.Ok →
    Good frames b'.dictionary b' ∧ post b'.dictionary

namespace Step

variable {b b₁ b₂ : Builder} {post post₁ post₂ : Dictionary → Prop}

lemma trans (h : Step frames b b₁ post₁) (hgrows : b₁.Grows b₂)
    (h' : post₁ b₁.dictionary → Step frames b₁ b₂ post₂)
    (hpost : ∀ d d', d.Grows d' → post₁ d → post₂ d' → post d') : Step frames b b₂ post := by
  refine ⟨h.grows.trans hgrows, fun hgood hok => ?_⟩
  obtain ⟨hgood₁, h₁⟩ := h.good hgood (hgrows.ok hok)
  obtain ⟨hgood₂, h₂⟩ := (h' h₁).good hgood₁ hok
  exact ⟨hgood₂, hpost _ _ hgrows.dictionary h₁ h₂⟩

lemma rfl (h : ∀ d, post d) : Step frames b b post := ⟨Grows.rfl, fun hgood _ => ⟨hgood, h _⟩⟩

lemma imp (h : Step frames b b₁ post₁) (himp : ∀ d, post₁ d → post d) : Step frames b b₁ post :=
  ⟨h.grows, fun hgood hok => (h.good hgood hok).imp_right (himp _)⟩

end Step

/-! ## Strings and functions -/

lemma addString_grows (text : String) (b : Builder) : b.Grows (b.addString text).2 :=
  ⟨{ Dictionary.Grows.rfl with strings := b.stringSet.isPrefix_add text }, prefix_rfl⟩

lemma addString_step (text : String) (b : Builder) :
    Step frames b (b.addString text).2 fun d => d.string (b.addString text).1 = some text := by
  have hgrows := addString_grows text b
  refine ⟨hgrows, fun hgood hok => ⟨?_, getAt_add hok.fits.strings⟩⟩
  exact { hgood.mono hgrows.dictionary with
    strings := exists_cons_of_isPrefix hgood.strings (b.stringSet.isPrefix_add text) }

lemma addFunc_grows (info : FuncInfo) (b : Builder) : b.Grows (b.addFunc info).2 :=
  ⟨{ Dictionary.Grows.rfl with functions := (b.funcSet.isPrefix_add info).map _ }, prefix_rfl⟩

lemma addFunc_step {info : FuncInfo} {name file : String}
    (hname : b.dictionary.string info.nameIdx = some name)
    (hfile : b.dictionary.string info.fileNameIdx = some file) :
    Step frames b (b.addFunc info).2 fun d => d.function (b.addFunc info).1 =
      some (name, file) := by
  have hgrows := addFunc_grows info b
  refine ⟨hgrows, fun hgood hok => ⟨?_, ?_⟩⟩
  · have hmono := hgood.mono hgrows.dictionary
    refine { hmono with
      functions := exists_cons_of_isPrefix hgood.functions (b.funcSet.isPrefix_add info)
      functionStrings := fun f hf => ?_ }
    rcases mem_of_mem_add hf with hold | rfl
    · exact hmono.functionStrings f hold
    · exact ⟨⟨name, hname⟩, ⟨file, hfile⟩⟩
  · have hlen : (b.funcSet.add info).2.elems.length ≤ 2 ^ 31 := by
      have := hok.fits.functions
      rwa [dictionary, length_map] at this
    have hrow : getAt (b.addFunc info).2.dictionary.functionTable (b.addFunc info).1 =
        some ⟨info.nameIdx, info.fileNameIdx⟩ := by
      show getAt ((b.funcSet.add info).2.elems.map _) (b.funcSet.add info).1 = _
      rw [getAt_map, getAt_add hlen]
      rfl
    show (getAt _ _ >>= fun row => _) = _
    rw [hrow]
    show ((b.addFunc info).2.dictionary.string info.nameIdx >>= fun n => _) = _
    rw [hgrows.dictionary.string _ _ hname]
    show ((b.addFunc info).2.dictionary.string info.fileNameIdx >>= fun n => _) = _
    rw [hgrows.dictionary.string _ _ hfile]
    rfl

/-! ## Attributes -/

lemma AttributeShows.attr_eq {d : Dictionary} {kv : String × AttrValue} {row : AttributeRow}
    {i : Index} (h : AttributeShows d kv row) (hrow : getAt d.attributeTable i = some row) :
    d.attr i = some kv := by
  simp [Dictionary.attr, hrow, h.1, h.2]

namespace AttributesShown

variable {d : Dictionary} {indices : Table String Index} {kvs : List (String × AttrValue)}
  {table : List AttributeRow}

lemma length_eq (h : AttributesShown d table indices kvs) : table.length = kvs.length + 1 := by
  obtain ⟨rows, rfl, hrows⟩ := h.rows
  rw [length_cons, hrows.length_eq]

lemma attr_read (h : AttributesShown d d.attributeTable indices kvs)
    (hlen : d.attributeTable.length ≤ 2 ^ 31) {c : String} (hc : c ∈ compounds kvs) :
    ∃ kv ∈ kvs, compound kv.1 kv.2 = c ∧
      d.attr (BitVec.ofNat 32 ((compounds kvs).idxOf c + 1)) = some kv := by
  have hlt : (compounds kvs).idxOf c < kvs.length := by
    have := idxOf_lt_length_of_mem hc
    rwa [compounds, length_map] at this
  have hkv : compound (kvs[(compounds kvs).idxOf c]).1 (kvs[(compounds kvs).idxOf c]).2 = c := by
    have hget := getElem_idxOf (idxOf_lt_length_of_mem hc)
    exact (getElem_map fun kv : String × AttrValue => compound kv.1 kv.2).symm.trans hget
  refine ⟨kvs[(compounds kvs).idxOf c], getElem_mem hlt, hkv, ?_⟩
  have htable := h.length_eq
  obtain ⟨rows, heq, hrows⟩ := h.rows
  have hltr : (compounds kvs).idxOf c < rows.length := hrows.length_eq ▸ hlt
  have hrow : getAt d.attributeTable (BitVec.ofNat 32 ((compounds kvs).idxOf c + 1)) =
      some rows[(compounds kvs).idxOf c] := by
    rw [getAt_ofNat (by omega), heq, getElem?_cons_succ, getElem?_eq_getElem hltr]
  exact (hrows.get hlt hltr).attr_eq hrow

lemma append (h : AttributesShown d table indices kvs) {kv : String × AttrValue}
    {row : AttributeRow} (hrow : AttributeShows d kv row) (hw : Written kv.1 kv.2)
    (hnew : compound kv.1 kv.2 ∉ compounds kvs) : AttributesShown d (table ++ [row])
      (indices.insert (compound kv.1 kv.2) (BitVec.ofNat 32 table.length)) (kvs ++ [kv]) := by
  have hcompounds : compounds (kvs ++ [kv]) = compounds kvs ++ [compound kv.1 kv.2] := by
    rw [compounds, map_append]
    rfl
  have hlen : table.length = (compounds kvs).length + 1 := by
    rw [h.length_eq, compounds, length_map]
  constructor
  case rows =>
    obtain ⟨rows, rfl, hrows⟩ := h.rows
    exact ⟨rows ++ [row], rfl, rel_append hrows (List.Forall₂.cons hrow List.Forall₂.nil)⟩
  case written =>
    intro kv' hkv'
    rcases mem_append.1 hkv' with hold | hlast
    · exact h.written kv' hold
    · rw [mem_singleton.1 hlast]
      exact hw
  case nodup =>
    rw [hcompounds]
    exact h.nodup.append (nodup_singleton _) (disjoint_singleton.2 hnew)
  case lookup =>
    rw [hcompounds, hlen]
    exact lookup_insert_idxOf (f := fun n => BitVec.ofNat 32 (n + 1)) h.lookup hnew

end AttributesShown

/-- The attribute that an index leads to has the compound key. -/
def AttrAt (key : String) (value : AttrValue) (i : Index) (d : Dictionary) : Prop :=
  ∃ kv : String × AttrValue, Written kv.1 kv.2 ∧ compound kv.1 kv.2 = compound key value ∧
    d.attr i = some kv

lemma AttrAt.mono (h : AttrAt key value i d) (hgrows : d.Grows d') : AttrAt key value i d' :=
  h.imp fun _ hkv => ⟨hkv.1, hkv.2.1, hgrows.attr _ _ hkv.2.2⟩

lemma AttrAt.attr_eq {value : String} (hkey : key ∈ textKeys) (h : AttrAt key (.str value) i d) :
    d.attr i = some (key, .str value) := by
  obtain ⟨⟨key', value'⟩, hw, hcompound, hattr⟩ := h
  obtain ⟨rfl, rfl⟩ := hw.eq_of_compound hkey hcompound.symm
  exact hattr

lemma AttrAt.inside (h : AttrAt key value i d) : Inside d.attributeTable i := by
  obtain ⟨kv, -, -, hattr⟩ := h
  obtain ⟨row, hrow, -⟩ := Option.bind_eq_some_iff.1 hattr
  exact ⟨row, hrow⟩

lemma appendAny_of_some (h : b.attrIndices.lookup (compound key value) = some i) :
    b.appendAny key value = (i, b) := by
  rw [appendAny, h]

def withAttribute (key : String) (value : AttrValue) (b : Builder) : Builder :=
  { (b.addString key).2 with
    attributeTable := b.attributeTable ++ [⟨(b.addString key).1, value⟩]
    attrIndices := b.attrIndices.insert (compound key value)
      (BitVec.ofNat 32 b.attributeTable.length) }

lemma appendAny_of_none (h : b.attrIndices.lookup (compound key value) = none) :
    b.appendAny key value =
      (BitVec.ofNat 32 b.attributeTable.length, b.withAttribute key value) := by
  rw [appendAny, h]
  rfl

/-- Only strings and attributes are written. -/
def SameRest (b b' : Builder) : Prop :=
  ∃ strings attributes indices, b' =
    { b with stringSet := strings, attributeTable := attributes, attrIndices := indices }

lemma SameRest.rfl : SameRest b b :=
  ⟨b.stringSet, b.attributeTable, b.attrIndices, Eq.refl b⟩

lemma SameRest.trans {b' b'' : Builder} (h : SameRest b b') (h' : SameRest b' b'') :
    SameRest b b'' := by
  obtain ⟨_, _, _, rfl⟩ := h
  obtain ⟨_, _, _, rfl⟩ := h'
  exact ⟨_, _, _, Eq.refl _⟩

lemma addString_sameRest (text : String) (b : Builder) : SameRest b (b.addString text).2 :=
  ⟨_, _, _, Eq.refl _⟩

lemma appendAny_sameRest (key : String) (value : AttrValue) (b : Builder) :
    SameRest b (b.appendAny key value).2 := by
  cases h : b.attrIndices.lookup (compound key value) with
  | some i =>
    rw [appendAny_of_some h]
    exact SameRest.rfl
  | none =>
    rw [appendAny_of_none h]
    exact ⟨_, _, _, Eq.refl _⟩

lemma appendAny_grows (key : String) (value : AttrValue) (b : Builder) :
    b.Grows (b.appendAny key value).2 := by
  cases h : b.attrIndices.lookup (compound key value) with
  | some i =>
    rw [appendAny_of_some h]
    exact Grows.rfl
  | none =>
    rw [appendAny_of_none h]
    exact ⟨{ (addString_grows key b).dictionary with attributes := prefix_append _ _ }, prefix_rfl⟩

lemma appendAny_step (hw : Written key value) (b : Builder) :
    Step frames b (b.appendAny key value).2 (AttrAt key value (b.appendAny key value).1) := by
  have hgrows := appendAny_grows key value b
  refine ⟨hgrows, fun hgood hok => ?_⟩
  obtain ⟨kvs, hkvs⟩ := hgood.attributes
  have hi := hkvs.lookup (compound key value)
  cases h : b.attrIndices.lookup (compound key value) with
  | some i =>
    rw [appendAny_of_some h] at hok ⊢
    refine ⟨hgood, ?_⟩
    rw [h] at hi
    split at hi
    · next hmem =>
      rw [Option.some.inj hi]
      obtain ⟨kv, hkv, hcompound, hattr⟩ := hkvs.attr_read hok.fits.attributes hmem
      exact ⟨kv, hkvs.written kv hkv, hcompound, hattr⟩
    · cases hi
  | none =>
    have hnew : compound key value ∉ compounds kvs := by
      intro hmem
      rw [h, if_pos hmem] at hi
      cases hi
    rw [appendAny_of_none h] at hok hgrows ⊢
    have hstring : (b.withAttribute key value).dictionary.string (b.addString key).1 = some key :=
      getAt_add hok.fits.strings
    have hrow : AttributeShows (b.withAttribute key value).dictionary (key, value)
        ⟨(b.addString key).1, value⟩ := ⟨hstring, Eq.refl value⟩
    have hshown := (hkvs.mono hgrows.dictionary).append hrow hw hnew
    have hmem : compound key value ∈ compounds (kvs ++ [(key, value)]) :=
      mem_map_of_mem (mem_append_right _ (mem_singleton.2 rfl))
    refine ⟨(hgood.mono hgrows.dictionary).withAttributes (b.stringSet.isPrefix_add key) hshown, ?_⟩
    obtain ⟨kv, hkv, hcompound, hattr⟩ := hshown.attr_read hok.fits.attributes hmem
    have hi := hshown.lookup (compound key value)
    rw [AList.lookup_insert, if_pos hmem] at hi
    rw [Option.some.inj hi]
    exact ⟨kv, hshown.written kv hkv, hcompound, hattr⟩

/-- The indices lead to attributes with these compound keys. -/
def AttrsAt (is : List Index) (kvs : List (String × AttrValue)) (d : Dictionary) : Prop :=
  List.Forall₂ (fun i kv => AttrAt kv.1 kv.2 i d) is kvs

lemma AttrsAt.mono (h : AttrsAt is kvs d) (hgrows : d.Grows d') : AttrsAt is kvs d' :=
  List.Forall₂.imp (fun _ _ hkv => hkv.mono hgrows) h

lemma AttrsAt.inside (h : AttrsAt is kvs d) : ∀ i ∈ is, Inside d.attributeTable i := by
  induction h with
  | nil => exact fun i hi => absurd hi not_mem_nil
  | cons hkv _ ih =>
    intro i hi
    rcases mem_cons.1 hi with rfl | hi
    · exact hkv.inside
    · exact ih i hi

lemma AttrsAt.attributes_eq (hkeys : ∀ pair ∈ pairs, pair.1 ∈ textKeys)
    (h : AttrsAt is (stringAttributes pairs) d) :
    d.attributes is = some (stringAttributes pairs) := by
  have hall : ∀ kv ∈ stringAttributes pairs, kv.1 ∈ textKeys ∧ ∃ text, kv.2 = .str text := by
    intro kv hkv
    obtain ⟨pair, hpair, rfl⟩ := mem_map.1 hkv
    exact ⟨hkeys pair (mem_of_mem_filter hpair), pair.2, rfl⟩
  apply Below.mapM_eq_some
  generalize stringAttributes pairs = kvs at h hall
  induction h with
  | nil => exact List.Forall₂.nil
  | @cons i kv is kvs hkv _ ih =>
    refine List.Forall₂.cons ?_ (ih fun kv' hkv' => hall kv' (mem_cons_of_mem _ hkv'))
    obtain ⟨hkey, text, htext⟩ := hall kv mem_cons_self
    rw [htext] at hkv
    rw [hkv.attr_eq hkey, ← htext]

lemma appendOptionalString_step (hw : ∀ text, Written key (.str text)) (value : String)
    (b : Builder) : Step frames b (b.appendOptionalString key value).2
      (AttrsAt (b.appendOptionalString key value).1 (stringAttributes [(key, value)])) := by
  unfold appendOptionalString
  by_cases hvalue : value = ""
  · rw [if_pos hvalue]
    have hnone : stringAttributes [(key, value)] = [] := by simp [stringAttributes, hvalue]
    rw [hnone]
    exact Step.rfl fun _ => List.Forall₂.nil
  · rw [if_neg hvalue]
    have hone : stringAttributes [(key, value)] = [(key, .str value)] := by
      simp [stringAttributes, hvalue]
    rw [hone]
    exact (appendAny_step (hw value) b).imp fun _ hattr =>
      List.Forall₂.cons hattr List.Forall₂.nil

lemma stringAttributes_cons (pair : String × String) (pairs : List (String × String)) :
    stringAttributes (pair :: pairs) = stringAttributes [pair] ++ stringAttributes pairs := by
  rw [stringAttributes, ← singleton_append, filter_append, map_append]
  rfl

lemma appendStrings_step (hw : ∀ pair ∈ pairs, ∀ text, Written pair.1 (.str text)) (b : Builder) :
    Step frames b (appendStrings pairs b).2
      (AttrsAt (appendStrings pairs b).1 (stringAttributes pairs)) := by
  induction pairs generalizing b with
  | nil => exact Step.rfl fun _ => List.Forall₂.nil
  | cons pair pairs ih =>
    have hfirst : Step frames b (b.appendOptionalString pair.1 pair.2).2 _ :=
      appendOptionalString_step (hw pair mem_cons_self) pair.2 b
    have hrest := ih (fun p hp => hw p (mem_cons_of_mem _ hp))
      (b.appendOptionalString pair.1 pair.2).2
    refine hfirst.trans hrest.grows (fun _ => hrest) fun d d' hgrows h h' => ?_
    rw [stringAttributes_cons]
    exact rel_append (h.mono hgrows) h'

lemma appendOptionalString_sameRest (key value : String) (b : Builder) :
    SameRest b (b.appendOptionalString key value).2 := by
  unfold appendOptionalString
  split
  · exact SameRest.rfl
  · exact appendAny_sameRest key _ b

lemma appendStrings_sameRest (pairs : List (String × String)) (b : Builder) :
    SameRest b (appendStrings pairs b).2 := by
  induction pairs generalizing b with
  | nil => exact SameRest.rfl
  | cons pair pairs ih => exact (appendOptionalString_sameRest pair.1 pair.2 b).trans (ih _)

/-! ## Mappings -/

lemma mappingAttributes_mem {file : FrameMappingFileData} :
    ∀ pair ∈ mappingAttributes file, pair.1 ∈ textKeys := by
  intro pair hpair
  simp only [mappingAttributes, mem_cons, not_mem_nil, or_false] at hpair
  rcases hpair with rfl | rfl | rfl <;> simp [textKeys]

lemma Good.mapping_read (hgood : Good frames d b) (htable : d.mappingTable = b.mappingTable)
    (hi : getAt b.mappingSet.elems i = some mapping) :
    d.mapping i = some (mapping.map FrameMappingData.view) ∧ Inside d.mappingTable i := by
  rw [htable]
  cases mapping with
  | none =>
    obtain ⟨hzero, hrow⟩ := hgood.mappings.getAt_zero hi
    refine ⟨?_, _, hrow⟩
    rw [Dictionary.mapping, if_pos hzero]
    rfl
  | some m =>
    obtain ⟨hne, row, hrow, m', hm', hview⟩ :=
      hgood.mappings.getAt_row hi (fun h => nomatch h)
    cases hm'
    refine ⟨?_, row, hrow⟩
    rw [Dictionary.mapping, if_neg hne, htable, hrow]
    show (d.mappingRow row >>= fun view => _) = _
    rw [hview]
    rfl

def addMappingAttrs (m : FrameMappingData) (b : Builder) : List Index × Builder :=
  appendStrings (mappingAttributes m.file) (b.addString m.file.fileName).2

lemma addMappingAttrs_step (m : FrameMappingData) (b : Builder) :
    Step frames b (addMappingAttrs m b).2
      fun d => d.string (b.addString m.file.fileName).1 = some m.file.fileName ∧
        d.attributes (addMappingAttrs m b).1 =
          some (stringAttributes (mappingAttributes m.file)) := by
  have hw : ∀ pair ∈ mappingAttributes m.file, ∀ text, Written pair.1 (.str text) :=
    fun pair hpair text => Written.text (mappingAttributes_mem pair hpair) text
  have hattrs : Step frames _ _ _ := appendStrings_step hw (b.addString m.file.fileName).2
  refine (addString_step m.file.fileName b).trans hattrs.grows (fun _ => hattrs)
    fun d d' hgrows hname h => ?_
  exact ⟨hgrows.string _ _ hname, h.attributes_eq mappingAttributes_mem⟩

lemma withMapping_grows (m : FrameMappingData) (set : OrderedSet (Option FrameMappingData))
    (b : Builder) : b.Grows (b.withMapping m set) := by
  have hattrs : Step ∅ b _ _ := addMappingAttrs_step m b
  exact hattrs.grows.trans (Grows.withMapping _ set _)

lemma withMapping_good {m : FrameMappingData} {set : OrderedSet (Option FrameMappingData)}
    (hset : set.elems = b.mappingSet.elems ++ [some m]) (hgood : Good frames b.dictionary b)
    (hok : (b.withMapping m set).Ok) :
    Good frames (b.withMapping m set).dictionary (b.withMapping m set) := by
  have hgrows : (addMappingAttrs m b).2.Grows (b.withMapping m set) := Grows.withMapping _ set _
  obtain ⟨hgood', hname, hattributes⟩ := (addMappingAttrs_step m b).good hgood (hgrows.ok hok)
  have hrow : (b.withMapping m set).dictionary.mappingRow ⟨m.start, m.end, m.fileOffset,
      (b.addString m.file.fileName).1, (addMappingAttrs m b).1⟩ = some m.view := by
    show (Dictionary.string _ (b.addString m.file.fileName).1 >>= fun name => _) = _
    rw [hgrows.dictionary.string _ _ hname]
    show (Dictionary.attributes _ _ >>= fun attrs => _) = _
    rw [hgrows.dictionary.attributes_read _ _ hattributes]
    rfl
  have hsets : (addMappingAttrs m b).2.mappingSet = b.mappingSet := by
    obtain ⟨_, _, _, heq⟩ :=
      (addString_sameRest m.file.fileName b).trans
      (appendStrings_sameRest (mappingAttributes m.file) _)
    rw [addMappingAttrs, heq]
  have hmono := hgood'.mono hgrows.dictionary
  have hlock := hmono.mappings
  rw [hsets] at hlock
  exact hmono.withMappings (hlock.append hset ⟨m, rfl, hrow⟩)

section
variable (mapping : Option FrameMappingData) (b : Builder)

lemma addMapping_grows : b.Grows (b.addMapping mapping).2 := by
  unfold addMapping
  rcases b.mappingSet.addWithCheck_cases mapping with ⟨-, heq⟩ | ⟨-, set, -, heq⟩
  · rw [heq]
    exact Grows.rfl
  · rw [heq]
    cases mapping with
    | none => exact ⟨Dictionary.Grows.rfl, prefix_rfl⟩
    | some m => exact withMapping_grows m set b

lemma addMapping_step : Step frames b (b.addMapping mapping).2 fun d =>
      d.mapping (b.addMapping mapping).1 = some (mapping.map FrameMappingData.view) ∧
        Inside d.mappingTable (b.addMapping mapping).1 := by
  refine ⟨addMapping_grows mapping b, fun hgood hok => ?_⟩
  unfold addMapping at *
  rcases b.mappingSet.addWithCheck_cases mapping with ⟨hmem, heq⟩ | ⟨hnew, set, hset, heq⟩
  · rw [heq] at hok ⊢
    exact ⟨hgood, hgood.mapping_read rfl
      (getAt_add_of_mem hmem (hgood.mappings.length_eq.trans_le hok.fits.mappings))⟩
  · rw [heq] at hok ⊢
    cases mapping with
    | none => exact absurd hgood.mappings.zero_mem hnew
    | some m =>
      have hgood' := withMapping_good hset hgood hok
      refine ⟨hgood', hgood'.mapping_read rfl ?_⟩
      exact getAt_add_of_notMem hnew hset
        (hgood'.mappings.length_eq.trans_le hok.fits.mappings)

end

/-! ## Locations -/

lemma addLine_grows (frame : Frame) (info : LocationInfo) (b : Builder) :
    b.Grows (b.addLine frame info).2 := by
  unfold addLine
  split
  · exact ((addString_grows _ b).trans (addString_grows _ _)).trans (addFunc_grows _ _)
  · exact Grows.rfl

def baseInfo (frame : Frame) (mappingIndex : Index) : LocationInfo :=
  { address := frame.addressOrLineno, frameType := frame.type, mappingIndex := mappingIndex }

lemma addLine_step
    (hmapping : b.dictionary.mapping i = some (frame.mapping.map FrameMappingData.view))
    (hinside : Inside b.dictionary.mappingTable i) :
    Step frames b (b.addLine frame (baseInfo frame i)).2
      fun d => InfoShows d (b.addLine frame (baseInfo frame i)).1 frame := by
  have hgrows := addLine_grows frame (baseInfo frame i) b
  unfold addLine at *
  by_cases hline : frame.hasLine
  · rw [if_pos hline] at hgrows ⊢
    let name := b.addString frame.functionName
    let file := name.2.addString frame.sourceFile
    have hstrings : Step frames b file.2 fun d =>
        d.string name.1 = some frame.functionName ∧ d.string file.1 = some frame.sourceFile :=
      (addString_step frame.functionName b).trans (addString_grows _ _)
        (fun _ => addString_step frame.sourceFile name.2)
        fun d d' hg hname hfile => ⟨hg.string _ _ hname, hfile⟩
    have hfunc : Step frames b (file.2.addFunc ⟨name.1, file.1⟩).2 fun d =>
        d.function (file.2.addFunc ⟨name.1, file.1⟩).1 =
          some (frame.functionName, frame.sourceFile) :=
      hstrings.trans (addFunc_grows _ _) (fun h => addFunc_step h.1 h.2) fun _ _ _ _ h => h
    refine ⟨hfunc.grows, fun hgood hok => ?_⟩
    obtain ⟨hgood', hfunction⟩ := hfunc.good hgood hok
    refine ⟨hgood', rfl, rfl, hgrows.dictionary.mapping _ _ hmapping,
      hinside.mono hgrows.dictionary.mappings, ?_, fun h => nomatch h⟩
    apply Below.mapM_eq_some
    rw [Frame.lineViews, if_pos hline]
    refine List.Forall₂.cons ?_ List.Forall₂.nil
    show (Dictionary.function _ (file.2.addFunc ⟨name.1, file.1⟩).1 >>= fun f => _) = _
    rw [hfunction]
    rfl
  · rw [if_neg hline] at hgrows ⊢
    refine ⟨hgrows, fun hgood _ =>
      ⟨hgood, rfl, rfl, hmapping, hinside, ?_, fun _ => ⟨rfl, rfl, rfl⟩⟩⟩
    rw [Frame.lineViews, if_neg hline]
    rfl

lemma LocationShows.locationRow_eq {row : LocationRow} (h : LocationShows frames d info row)
    (hinfo : InfoShows d info frame) : d.locationRow row = some frame.view := by
  show (d.mapping row.mappingIndex >>= fun mapping => _) = _
  rw [h.mappingIndex, hinfo.mapping]
  show (row.lines.mapM d.line >>= fun lines => _) = _
  rw [h.lines, hinfo.lines]
  show (d.attributes row.attributeIndices >>= fun attrs => _) = _
  rw [h.attributes, hinfo.type]
  show some (FrameView.mk row.address _ _ _) = _
  rw [h.address, hinfo.address]
  rfl

lemma Good.location_read (hgood : Good frames d b) (htable : d.locationTable = b.locationTable)
    (hi : getAt b.locationSet.elems i = some info) (hinfo : InfoShows d info frame)
    (htype : frame.type ≠ 0) : d.location i = some frame.view := by
  have hne : info ≠ {} := by
    rintro rfl
    exact htype hinfo.type.symm
  obtain ⟨-, row, hrow, hshows⟩ := hgood.locations.getAt_row hi hne
  show (getAt d.locationTable i >>= fun row => _) = _
  rw [htable, hrow]
  exact hshows.locationRow_eq hinfo

lemma frameTypeString_ne_empty (type : BitVec 8) : frameTypeString type ≠ "" := by
  revert type
  decide +kernel

def addTypeAttr (info : LocationInfo) (b : Builder) : List Index × Builder :=
  b.appendOptionalString "profile.frame.type" (frameTypeString info.frameType)

lemma addTypeAttr_step (info : LocationInfo) (b : Builder) : Step frames b (addTypeAttr info b).2
    fun d => d.attributes (addTypeAttr info b).1 = some (typeAttributes info.frameType) := by
  have hkey : "profile.frame.type" ∈ textKeys := by decide
  refine (appendOptionalString_step (fun text => Written.text hkey text) _ b).imp fun d h => ?_
  have hone : stringAttributes [("profile.frame.type", frameTypeString info.frameType)] =
      typeAttributes info.frameType := by
    simp [stringAttributes, typeAttributes, frameTypeString_ne_empty]
  rw [addTypeAttr, h.attributes_eq (fun pair hpair => mem_singleton.1 hpair ▸ hkey), hone]

lemma withLocation_grows (info : LocationInfo) (set : OrderedSet LocationInfo) (b : Builder) :
    b.Grows (b.withLocation info set) := by
  have hattrs : Step ∅ b _ _ := addTypeAttr_step info b
  exact hattrs.grows.trans (Grows.withLocation _ set _)

lemma withLocation_good {set : OrderedSet LocationInfo}
    (hset : set.elems = b.locationSet.elems ++ [info]) (hframe : frame ∈ frames)
    (hinfo : InfoShows b.dictionary info frame) (hgood : Good frames b.dictionary b)
    (hok : (b.withLocation info set).Ok) :
    Good frames (b.withLocation info set).dictionary (b.withLocation info set) := by
  have hgrows : (addTypeAttr info b).2.Grows (b.withLocation info set) := Grows.withLocation _ set _
  obtain ⟨hgood', hattributes⟩ := (addTypeAttr_step info b).good hgood (hgrows.ok hok)
  have hshows : LocationShows frames (b.withLocation info set).dictionary info
      ⟨info.address, info.mappingIndex, info.lines, (addTypeAttr info b).1⟩ :=
    ⟨⟨frame, hframe, hinfo.mono (withLocation_grows info set b).dictionary⟩, rfl, rfl, rfl,
      hgrows.dictionary.attributes_read _ _ hattributes⟩
  have hsets : (addTypeAttr info b).2.locationSet = b.locationSet := by
    obtain ⟨_, _, _, heq⟩ := appendOptionalString_sameRest "profile.frame.type" _ b
    rw [addTypeAttr, heq]
  have hmono := hgood'.mono hgrows.dictionary
  have hlock := hmono.locations
  rw [hsets] at hlock
  exact hmono.withLocations (hlock.append hset hshows)

lemma addLocationInfo_grows (info : LocationInfo) (b : Builder) :
    b.Grows (b.addLocationInfo info).2 := by
  unfold addLocationInfo
  rcases b.locationSet.addWithCheck_cases info with ⟨-, heq⟩ | ⟨-, set, -, heq⟩
  · rw [heq]
    exact Grows.rfl
  · rw [heq]
    exact withLocation_grows info set b

lemma addLocationInfo_step (hframe : frame ∈ frames) (htype : frame.type ≠ 0)
    (hinfo : InfoShows b.dictionary info frame) : Step frames b (b.addLocationInfo info).2
      fun d => d.location (b.addLocationInfo info).1 = some frame.view := by
  refine ⟨addLocationInfo_grows info b, fun hgood hok => ?_⟩
  unfold addLocationInfo at *
  rcases b.locationSet.addWithCheck_cases info with ⟨hmem, heq⟩ | ⟨hnew, set, hset, heq⟩
  · rw [heq] at hok ⊢
    have hi := getAt_add_of_mem hmem
      (hgood.locations.length_eq.trans_le hok.fits.locations)
    exact ⟨hgood, hgood.location_read rfl hi hinfo htype⟩
  · rw [heq] at hok ⊢
    have hgood' := withLocation_good hset hframe hinfo hgood hok
    have hi := getAt_add_of_notMem hnew hset
      (hgood'.locations.length_eq.trans_le hok.fits.locations)
    exact ⟨hgood', hgood'.location_read rfl hi
      (hinfo.mono (withLocation_grows info set b).dictionary) htype⟩

lemma addFrame_step (hframe : frame ∈ frames) (htype : frame.type ≠ 0) (b : Builder) :
    Step frames b (b.addFrame frame).2 fun d => d.location (b.addFrame frame).1 =
      some frame.view := by
  let mapping := b.addMapping frame.mapping
  let line := mapping.2.addLine frame (baseInfo frame mapping.1)
  have hline : Step frames b line.2 fun d => InfoShows d line.1 frame :=
    (addMapping_step frame.mapping b).trans (addLine_grows _ _ _) (fun h => addLine_step h.1 h.2)
      fun _ _ _ _ h => h
  exact hline.trans (addLocationInfo_grows _ _) (fun h => addLocationInfo_step hframe htype h)
    fun _ _ _ _ h => h

/-- The indices of the frames lead to the frames, in order. -/
lemma addFrames_step {trace : List Frame} (hframes : ∀ f ∈ trace, f ∈ frames ∧ f.type ≠ 0)
    (b : Builder) : Step frames b (addFrames trace b).2
      fun d => (addFrames trace b).1.mapM d.location = some (trace.map Frame.view) := by
  induction trace generalizing b with
  | nil => exact Step.rfl fun _ => rfl
  | cons frame trace ih =>
    obtain ⟨hframe, htype⟩ := hframes frame mem_cons_self
    have hrest := ih (fun f hf => hframes f (mem_cons_of_mem _ hf)) (b.addFrame frame).2
    refine (addFrame_step hframe htype b).trans hrest.grows (fun _ => hrest)
      fun d d' hgrows h h' => ?_
    show ((b.addFrame frame).1 :: (addFrames trace (b.addFrame frame).2).1).mapM d'.location = _
    rw [mapM_cons, hgrows.location _ _ h, h']
    rfl

end Builder

end EbpfProfiler.Reporter
