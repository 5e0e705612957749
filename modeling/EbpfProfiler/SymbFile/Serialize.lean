import EbpfProfiler.SymbFile.Reader
import EbpfProfiler.SymbFile.Writer

/-!
# Records and their messages

Serializing and translating indices keep what a message is read as.
-/

namespace EbpfProfiler.SymbFile

open Lib List BufferedMsg

variable {names' : List String} {ids : List U32} {w : Writer}

/-! ## What is read back -/

def Record.elfVa : Record → U64
  | .range r => r.elfVa
  | .returnPad p => p.elfVa

/-- A call line zero is none. -/
def Range.normalize (r : Range) : Range := { r with callLine := r.callLine.bind nonZero }

/-- A line zero and an empty file name are none. -/
def ReturnPadEntry.normalize (e : ReturnPadEntry) : ReturnPadEntry :=
  ⟨e.func, e.file.bind fun s => if s.isEmpty then none else some s, e.line.bind nonZero⟩

/-- The record that a reader gives. -/
def Record.normalize : Record → Record
  | .range r => .range r.normalize
  | .returnPad p => .returnPad ⟨p.elfVa, p.entries.map ReturnPadEntry.normalize⟩

def Record.Sorted : Record → Prop
  | .range r => r.lineTable.Pairwise fun a b => a.offset.toNat ≤ b.offset.toNat
  | .returnPad _ => True

instance : DecidablePred Record.Sorted
  | .range r =>
      inferInstanceAs (Decidable (r.lineTable.Pairwise fun a b => a.offset.toNat ≤ b.offset.toNat))
  | .returnPad _ => .isTrue trivial

/-- The record of a message. -/
def BufferedMsg.deserialize (ctx : Context) : BufferedMsg → Except Failure Record
  | .range r => (deserializeRange ctx r).map .range
  | .returnPad p => (deserializeReturnPad ctx p).map .returnPad

/-! ## The strings of records and messages -/

def ReturnPadEntry.strings (e : ReturnPadEntry) : List String := [e.func, e.file.getD ""]

/-- The strings that a record asks indices for. -/
def Record.strings : Record → List String
  | .range r => r.func :: (r.file.toList ++ r.callFile.toList)
  | .returnPad p => p.entries.flatMap ReturnPadEntry.strings

def textRefs : Option Text → List U32
  | some (.ref i) => [i]
  | _ => []

def BufferedMsg.refs : BufferedMsg → List U32
  | .range r => textRefs r.func ++ (textRefs r.file ++ textRefs r.callFile)
  | .returnPad p => p.func ++ p.file

/-- All texts are indices. -/
def BufferedMsg.Indexed : BufferedMsg → Prop
  | .range r => (∃ i, r.func = some (.ref i)) ∧ (∀ s, r.file ≠ some (.str s)) ∧
      ∀ s, r.callFile ≠ some (.str s)
  | .returnPad _ => True

/-! ## Addresses and line tables -/

lemma elfVaRel2Abs_abs2Rel (prev : Option U64) (va : U64) :
    elfVaRel2Abs prev (some (elfVaAbs2Rel prev va)) = .ok va := by
  cases prev with
  | none => rfl
  | some p =>
    rw [elfVaAbs2Rel]
    split
    · rw [elfVaRel2Abs]
      congr 1
      apply BitVec.eq_of_toNat_eq
      rw [BitVec.toNat_add, BitVec.toNat_ofInt]
      omega
    · rfl

/-- The offsets of rows in order are sums of the differences. -/
lemma offsetDeltas_spec {rows : List LineTableEntry} (prev : U32)
    (hsorted : rows.Pairwise fun a b => a.offset.toNat ≤ b.offset.toNat)
    (hprev : ∀ row ∈ rows, prev.toNat ≤ row.offset.toNat) :
    ∃ offsets, offsetDeltas prev rows = .ok offsets ∧ offsets.length = rows.length ∧
      lineTableRows prev ((rows.map (·.lineNumber)).zip offsets) = rows := by
  induction rows generalizing prev with
  | nil => exact ⟨[], rfl, rfl, rfl⟩
  | cons row rows ih =>
    obtain ⟨hhead, htail⟩ := pairwise_cons.mp hsorted
    obtain ⟨offsets, hoffsets, hlength, hrows⟩ := ih row.offset htail hhead
    have hle := hprev row mem_cons_self
    have hadd : prev + (row.offset - prev) = row.offset := by
      rw [add_comm, BitVec.sub_add_cancel]
    refine ⟨(row.offset - prev) :: offsets, ?_, ?_, ?_⟩
    · rw [offsetDeltas, if_neg (by omega), hoffsets]
      rfl
    · rw [length_cons, length_cons, hlength]
    · rw [map_cons, zip_cons_cons, lineTableRows, hadd, hrows]

lemma serializeLineTable_spec {rows : List LineTableEntry}
    (hsorted : rows.Pairwise fun a b => a.offset.toNat ≤ b.offset.toNat) :
    ∃ lt, serializeLineTable rows = .ok lt ∧ deserializeLineTable lt = .ok rows := by
  rw [serializeLineTable]
  cases rows with
  | nil => exact ⟨none, rfl, rfl⟩
  | cons row rows =>
    obtain ⟨offsets, hoffsets, hlength, hrows⟩ :=
      offsetDeltas_spec 0 hsorted fun _ _ => Nat.zero_le _
    rw [hoffsets]
    refine ⟨_, rfl, ?_⟩
    rw [deserializeLineTable, if_neg (by simp [hlength]), hrows]

/-! ## Indices of strings -/

section
variable {b : Builder} {names uses : List String}

lemma strByIdx_tempIdx (h : names <+: names') (hlen : names'.length ≤ 2 ^ 32) {s : String}
    (hs : s ∈ names) : strByIdx names' (tempIdx names s) = .ok s := by
  rw [strByIdx, ← tempIdx_of_isPrefix h hs, getElem?_tempIdx hlen (h.subset hs)]

/-- The text of a string that may be missing. -/
def optionText (names : List String) (o : Option String) : Option Text :=
  o.map fun s => .ref (tempIdx names s)

lemma indexOption_spec (h : b.Shows names uses) (o : Option String) :
    ∃ names', Builder.Grows names uses o.toList (indexOption b o).2 names' ∧
      (indexOption b o).1 = optionText names' o := by
  cases o with
  | none =>
    refine ⟨names, ⟨prefix_refl _, ?_, le_rfl⟩, rfl⟩
    rw [Option.toList_none, append_nil]
    exact h
  | some s =>
    obtain ⟨names', hgrows, hid⟩ := h.indexForStr s
    exact ⟨names', hgrows, congrArg (fun i => some (Text.ref i)) hid⟩

lemma optionText_of_isPrefix (h : names <+: names') {o : Option String} (ho : ∀ s ∈ o, s ∈ names) :
    optionText names' o = optionText names o := by
  cases o with
  | none => rfl
  | some s =>
    show some (Text.ref (tempIdx names' s)) = some (Text.ref (tempIdx names s))
    rw [tempIdx_of_isPrefix h (ho s rfl)]

lemma optionStr_optionText (h : names <+: names') (hlen : names'.length ≤ 2 ^ 32)
    {o : Option String} (ho : ∀ s ∈ o, s ∈ names) :
    optionStr names' (optionText names o) = .ok o := by
  cases o with
  | none => rfl
  | some s =>
    show (strByIdx names' (tempIdx names s)).map some = .ok (some s)
    rw [strByIdx_tempIdx h hlen (ho s rfl)]
    rfl

lemma textRefs_optionText (o : Option String) :
    textRefs (optionText names o) = o.toList.map (tempIdx names) := by
  cases o <;> rfl

/-- The columns of rows of a return pad. -/
def padColumns (names : List String) (entries : List ReturnPadEntry) : PadColumns where
  func := entries.map fun e => tempIdx names e.func
  file := entries.map fun e => tempIdx names (e.file.getD "")
  line := entries.map fun e => e.line.getD 0

lemma serializeEntries_spec (h : b.Shows names uses) (entries : List ReturnPadEntry) :
    ∃ names', Builder.Grows names uses (entries.flatMap ReturnPadEntry.strings)
        (serializeEntries b entries).2 names' ∧
      (serializeEntries b entries).1 = padColumns names' entries := by
  induction entries generalizing b names uses with
  | nil =>
    refine ⟨names, ⟨prefix_refl _, ?_, le_rfl⟩, rfl⟩
    rw [flatMap_nil, append_nil]
    exact h
  | cons e entries ih =>
    obtain ⟨names₁, hgrows₁, hfunc⟩ := h.indexForStr e.func
    obtain ⟨names₂, hgrows₂, hfile⟩ := hgrows₁.builder.indexForStr (e.file.getD "")
    obtain ⟨names₃, hgrows₃, hcolumns⟩ := ih hgrows₂.builder
    have hgrows : Builder.Grows names uses ((e :: entries).flatMap ReturnPadEntry.strings)
        (serializeEntries b (e :: entries)).2 names₃ := by
      refine (hgrows₁.trans hgrows₂).trans ?_
      rw [← append_assoc]
      exact hgrows₃
    refine ⟨names₃, hgrows, ?_⟩
    -- the names that come later do not change the first indices
    have hfunc' : (b.indexForStr e.func).1 = tempIdx names₃ e.func := by
      rw [hfunc,
        tempIdx_of_isPrefix (hgrows₂.isPrefix.trans hgrows₃.isPrefix) (hgrows₁.mem mem_cons_self)]
    have hfile' : ((b.indexForStr e.func).2.indexForStr (e.file.getD "")).1 =
        tempIdx names₃ (e.file.getD "") := by
      rw [hfile, tempIdx_of_isPrefix hgrows₃.isPrefix (hgrows₂.mem mem_cons_self)]
    rw [serializeEntries]
    dsimp only
    rw [hcolumns, hfunc', hfile']
    rfl

lemma nonZero_getD (o : Option U32) : nonZero (o.getD 0) = o.bind nonZero := by
  cases o <;> rfl

lemma fileName_getD (o : Option String) : (if (o.getD "").isEmpty then none else some (o.getD "")) =
      o.bind fun s => if s.isEmpty then none else some s := by
  cases o <;> rfl

def padRow (names : List String) (e : ReturnPadEntry) : (U32 × U32) × U32 :=
  ((tempIdx names (e.file.getD ""), tempIdx names e.func), e.line.getD 0)

lemma zip_padColumns (entries : List ReturnPadEntry) :
    ((padColumns names entries).file.zip (padColumns names entries).func).zip
      (padColumns names entries).line = entries.map (padRow names) := by
  dsimp only [padColumns]
  rw [zip_map', zip_map']
  rfl

lemma mapM_padRow (h : names <+: names') (hlen : names'.length ≤ 2 ^ 32)
    {entries : List ReturnPadEntry}
    (hmem : ∀ s ∈ entries.flatMap ReturnPadEntry.strings, s ∈ names) :
    (entries.map (padRow names)).mapM (deserializeEntry names') =
      .ok (entries.map ReturnPadEntry.normalize) := by
  induction entries with
  | nil => rfl
  | cons e entries ih =>
    have hfunc := strByIdx_tempIdx h hlen (hmem e.func (by simp [ReturnPadEntry.strings]))
    have hfile := strByIdx_tempIdx h hlen (hmem (e.file.getD "") (by simp [ReturnPadEntry.strings]))
    have hrow : deserializeEntry names' (padRow names e) = .ok e.normalize := by
      rw [deserializeEntry, padRow, hfile, hfunc, ReturnPadEntry.normalize, ← nonZero_getD,
        ← fileName_getD]
      rfl
    rw [map_cons, mapM_cons, hrow, ih fun s hs => hmem s (mem_append_right _ hs)]
    rfl

/-! ## Serializing a record -/

def Record.rows : Record → ℕ
  | .range _ => 0
  | .returnPad p => p.entries.length

def BufferedMsg.rows : BufferedMsg → ℕ
  | .range _ => 0
  | .returnPad p => p.func.length

/-- `serialize`: the builder sees the strings, and the message is read back with the names. -/
structure Serialized (w : Writer) (names uses : List String) (r : Record) (msg : BufferedMsg)
    (w' : Writer) (names' : List String) : Prop where
  writer : w' = { w with stringTable := w'.stringTable, prevElfVa := some r.elfVa }
  grows : Builder.Grows names uses r.strings w'.stringTable names'
  indexed : msg.Indexed
  refs : msg.refs.Perm (r.strings.map (tempIdx names'))
  rows : msg.rows = r.rows
  means : ∀ table, names' <+: table → table.length ≤ 2 ^ 32 →
    msg.deserialize ⟨table, w.prevElfVa⟩ = .ok r.normalize

lemma refs_padColumns (entries : List ReturnPadEntry) :
    ((padColumns names entries).func ++ (padColumns names entries).file).Perm
      ((entries.flatMap ReturnPadEntry.strings).map (tempIdx names)) := by
  induction entries with
  | nil => exact .refl _
  | cons e entries ih =>
    show (tempIdx names e.func :: ((padColumns names entries).func ++
      tempIdx names (e.file.getD "") :: (padColumns names entries).file)).Perm
        (tempIdx names e.func :: tempIdx names (e.file.getD "") :: _)
    exact .cons _ (perm_middle.trans (.cons _ ih))

section
variable (h : w.stringTable.Shows names uses)
include h

lemma serializeReturnPad_spec (p : ReturnPad) :
    ∃ names', Serialized w names uses (.returnPad p) (.returnPad (serializeReturnPad w p).1)
      (serializeReturnPad w p).2 names' := by
  obtain ⟨names', hgrows, hcolumns⟩ := serializeEntries_spec h p.entries
  refine ⟨names', rfl, hgrows, trivial, ?_, ?_, ?_⟩
  · rw [serializeReturnPad]
    dsimp only [refs]
    rw [hcolumns]
    exact refs_padColumns p.entries
  · rw [serializeReturnPad]
    dsimp only [rows, Record.rows]
    rw [hcolumns]
    exact length_map _
  · intro table hprefix hlen
    have hentries := mapM_padRow hprefix hlen fun s hs => hgrows.mem hs
    rw [serializeReturnPad]
    dsimp only [deserialize]
    rw [hcolumns, deserializeReturnPad, if_neg (by simp [padColumns]), elfVaRel2Abs_abs2Rel]
    rw [zip_padColumns, hentries]
    rfl

lemma serializeRange_spec {r : Range}
    (hsorted : (Record.range r).Sorted) : ∃ msg w' names', serializeRange w r = .ok (msg, w') ∧
      Serialized w names uses (.range r) (.range msg) w' names' := by
  obtain ⟨lt, hlt, hrows⟩ := serializeLineTable_spec hsorted
  obtain ⟨names₁, hgrows₁, hfunc⟩ := h.indexForStr r.func
  obtain ⟨names₂, hgrows₂, hfile⟩ := indexOption_spec hgrows₁.builder r.file
  obtain ⟨names₃, hgrows₃, hcallFile⟩ := indexOption_spec hgrows₂.builder r.callFile
  have hmem₁ : r.func ∈ names₁ := hgrows₁.mem mem_cons_self
  have hmem₂ : ∀ s ∈ r.file, s ∈ names₂ := fun s hs => hgrows₂.mem (Option.mem_toList.mpr hs)
  have hmem₃ : ∀ s ∈ r.callFile, s ∈ names₃ := fun s hs => hgrows₃.mem (Option.mem_toList.mpr hs)
  have hprefix₁ := hgrows₂.isPrefix.trans hgrows₃.isPrefix
  -- all indices are those of the last names
  rw [← tempIdx_of_isPrefix hprefix₁ hmem₁] at hfunc
  rw [← optionText_of_isPrefix hgrows₃.isPrefix hmem₂] at hfile
  refine ⟨⟨some (elfVaAbs2Rel w.prevElfVa r.elfVa), r.length.setWidth 64,
    some (.ref (tempIdx names₃ r.func)), optionText names₃ r.file, r.callLine.getD 0,
    optionText names₃ r.callFile, r.depth, lt⟩,
    { w with
      stringTable :=
        (indexOption (indexOption (w.stringTable.indexForStr r.func).2 r.file).2 r.callFile).2
      prevElfVa := some r.elfVa }, names₃, ?_, rfl, ?_, ?_, ?_, rfl, ?_⟩
  · rw [serializeRange, hlt, ← hfunc, ← hfile, ← hcallFile]
    rfl
  · exact hgrows₁.trans (hgrows₂.trans hgrows₃)
  · refine ⟨⟨_, rfl⟩, fun s => ?_, fun s => ?_⟩
    · cases r.file <;> simp [optionText]
    · cases r.callFile <;> simp [optionText]
  · show ([tempIdx names₃ r.func] ++ (textRefs (optionText names₃ r.file) ++
      textRefs (optionText names₃ r.callFile))).Perm _
    rw [textRefs_optionText, textRefs_optionText, Record.strings, map_cons, map_append]
    exact .refl _
  · intro table hprefix hlen
    have hlength : (r.length.setWidth 64).setWidth 32 = r.length := by simp
    show (deserializeRange _ _).map Record.range = _
    rw [deserializeRange]
    dsimp only
    rw [hrows, elfVaRel2Abs_abs2Rel,
      optionStr_optionText hprefix hlen fun s hs => hgrows₃.isPrefix.subset (hmem₂ s hs),
      optionStr_optionText hprefix hlen hmem₃, textStr,
      strByIdx_tempIdx hprefix hlen (hprefix₁.subset hmem₁), hlength, nonZero_getD]
    rfl

lemma serialize_spec {r : Record} (hsorted : r.Sorted) :
    ∃ msg w' names', serialize w r = .ok (msg, w') ∧
      Serialized w names uses r msg w' names' := by
  cases r with
  | range r =>
    obtain ⟨msg, w', names', hserialize, hspec⟩ := serializeRange_spec h hsorted
    refine ⟨.range msg, w', names', ?_, hspec⟩
    rw [serialize, hserialize]
    rfl
  | returnPad p =>
    obtain ⟨names', hspec⟩ := serializeReturnPad_spec h p
    exact ⟨_, _, names', rfl, hspec⟩

end

end

/-! ## Fixing a message up -/

section
variable {m : Mapper} {names : List String}

lemma fixUpText_spec (field : String) {i : U32} (h : m.Serves names (i :: ids)) :
    ∃ t m', fixUpText field m (some (.ref i)) = .ok (t, m') ∧ m'.Serves names ids ∧
      m'.table = m.table ∧
      ∀ table, m.table <+: table → textStr table t = textStr names (.ref i) := by
  obtain ⟨mapping, m', s, htranslate, hserves, htable, hname, hmapping⟩ := h.translate_spec
  have hstr : textStr names (.ref i) = .ok s := by rw [textStr, strByIdx, hname]
  rw [fixUpText, htranslate, hstr]
  rcases hmapping with rfl | ⟨k, rfl, hk⟩
  · exact ⟨_, m', rfl, hserves, htable, fun table _ => rfl⟩
  · refine ⟨_, m', rfl, hserves, htable, fun table hprefix => ?_⟩
    obtain ⟨rest, rfl⟩ := hprefix
    rw [textStr, strByIdx, getElem?_append_left (List.getElem?_eq_some_iff.mp hk).1, hk]

lemma fixUpOption_spec (field : String) {o : Option Text} (ho : ∀ s, o ≠ some (.str s))
    (h : m.Serves names (textRefs o ++ ids)) :
    ∃ o' m', fixUpOption field m o = .ok (o', m') ∧ m'.Serves names ids ∧ m'.table = m.table ∧
      ∀ table, m.table <+: table → optionStr table o' = optionStr names o := by
  cases o with
  | none => exact ⟨none, m, rfl, h, rfl, fun _ _ => rfl⟩
  | some t =>
    cases t with
    | str s => exact absurd rfl (ho s)
    | ref i =>
      obtain ⟨t, m', hfix, hserves, htable, hread⟩ := fixUpText_spec field h
      refine ⟨some t, m', ?_, hserves, htable, fun table hprefix => ?_⟩
      · rw [fixUpOption, hfix]
        rfl
      · rw [optionStr, optionStr, hread table hprefix]

lemma fixUpColumn_spec {column : List U32} (h : m.Serves names (column ++ ids)) :
    ∃ column' m', fixUpColumn m column = .ok (column', m') ∧ m'.Serves names ids ∧
      m.table <+: m'.table ∧ column'.length = column.length ∧
      ∀ table, m'.table <+: table → column'.map (strByIdx table) = column.map (strByIdx names) := by
  induction column generalizing m with
  | nil => exact ⟨[], m, rfl, h, prefix_refl _, rfl, fun _ _ => rfl⟩
  | cons i column ih =>
    obtain ⟨k, m₁, s, hforce, hserves₁, hprefix₁, hname, hk⟩ := h.forceEntry_spec
    obtain ⟨column', m₂, hcolumn, hserves₂, hprefix₂, hlength, hread⟩ := ih hserves₁
    refine ⟨k :: column', m₂, ?_, hserves₂, hprefix₁.trans hprefix₂, ?_, fun table hprefix => ?_⟩
    · rw [fixUpColumn, hforce]
      show (fixUpColumn m₁ column >>= _) = _
      rw [hcolumn]
      rfl
    · rw [length_cons, length_cons, hlength]
    · have hstr : strByIdx table k = strByIdx names i := by
        obtain ⟨rest, rfl⟩ := hprefix₂.trans hprefix
        rw [strByIdx, strByIdx, hname, getElem?_append_left (List.getElem?_eq_some_iff.mp hk).1, hk]
      rw [map_cons, map_cons, hstr, hread table hprefix]

/-- A row of a return pad from its strings. -/
def entryOfStrings (row : (Except Failure String × Except Failure String) × U32) :
    Except Failure ReturnPadEntry := do
  let file ← row.1.1
  let func ← row.1.2
  .ok ⟨func, if file.isEmpty then none else some file, nonZero row.2⟩

lemma mapM_deserializeEntry_eq (table : List String) (file func line : List U32) :
    ((file.zip func).zip line).mapM (deserializeEntry table) =
      (((file.map (strByIdx table)).zip (func.map (strByIdx table))).zip line).mapM
        entryOfStrings := by
  induction file generalizing func line with
  | nil => rfl
  | cons f file ih =>
    cases func with
    | nil => rfl
    | cons g func =>
      cases line with
      | nil => rfl
      | cons l line =>
        simp only [map_cons, zip_cons_cons, mapM_cons, ih]
        rfl

lemma fixUp_spec {msg : BufferedMsg} (hindexed : msg.Indexed)
    (h : m.Serves names (msg.refs ++ ids)) :
    ∃ msg' m', fixUp m msg = .ok (msg', m') ∧ m'.Serves names ids ∧ m.table <+: m'.table ∧
      msg'.rows = msg.rows ∧
      ∀ table prev, m'.table <+: table →
        msg'.deserialize ⟨table, prev⟩ = msg.deserialize ⟨names, prev⟩ := by
  cases msg with
  | range r =>
    obtain ⟨⟨i, hfunc⟩, hfile, hcallFile⟩ := hindexed
    have hrefs : (range r).refs ++ ids =
        i :: (textRefs r.file ++ (textRefs r.callFile ++ ids)) := by
      rw [refs, hfunc, append_assoc, append_assoc]
      rfl
    rw [hrefs] at h
    obtain ⟨t₁, m₁, hfix₁, hserves₁, htable₁, hread₁⟩ := fixUpText_spec "func" h
    obtain ⟨t₂, m₂, hfix₂, hserves₂, htable₂, hread₂⟩ := fixUpOption_spec "file" hfile hserves₁
    obtain ⟨t₃, m₃, hfix₃, hserves₃, htable₃, hread₃⟩ :=
      fixUpOption_spec "call_file" hcallFile hserves₂
    have htable : m₃.table = m.table := htable₃.trans (htable₂.trans htable₁)
    refine ⟨.range { r with func := some t₁, file := t₂, callFile := t₃ }, m₃, ?_,
      hserves₃, ?_, rfl, ?_⟩
    · rw [fixUp, fixUpRange, hfunc, hfix₁]
      show ((fixUpOption "file" m₁ r.file >>= _ : Except Failure _) : Except Failure _).map _ = _
      rw [hfix₂]
      show ((fixUpOption "call_file" m₂ r.callFile >>= _ : Except Failure _) : Except Failure _).map
        _ = _
      rw [hfix₃]
      rfl
    · exact htable ▸ prefix_refl _
    · intro table prev hprefix
      rw [htable] at hprefix
      have hread₂' := hread₂ table (htable₁.symm ▸ hprefix)
      have hread₃' := hread₃ table ((htable₂.trans htable₁).symm ▸ hprefix)
      show (deserializeRange _ _).map _ = (deserializeRange _ _).map _
      rw [deserializeRange, deserializeRange]
      dsimp only
      rw [hfunc, hread₁ table hprefix, hread₂', hread₃']
  | returnPad p =>
    have hrefs : (returnPad p).refs ++ ids = p.func ++ (p.file ++ ids) := by
      rw [refs, append_assoc]
    rw [hrefs] at h
    obtain ⟨func, m₁, hfix₁, hserves₁, hprefix₁, hlength₁, hread₁⟩ := fixUpColumn_spec h
    obtain ⟨file, m₂, hfix₂, hserves₂, hprefix₂, hlength₂, hread₂⟩ := fixUpColumn_spec hserves₁
    refine ⟨.returnPad { p with func := func, file := file }, m₂, ?_, hserves₂,
      hprefix₁.trans hprefix₂, hlength₁, ?_⟩
    · rw [fixUp, fixUpReturnPad, hfix₁]
      show ((fixUpColumn m₁ p.file >>= _ : Except Failure _) : Except Failure _).map _ = _
      rw [hfix₂]
      rfl
    · intro table prev hprefix
      show (deserializeReturnPad _ _).map _ = (deserializeReturnPad _ _).map _
      rw [deserializeReturnPad, deserializeReturnPad]
      rw [hlength₁, hlength₂, mapM_deserializeEntry_eq, mapM_deserializeEntry_eq,
        hread₂ table hprefix, hread₁ table (hprefix₂.trans hprefix)]

end

end EbpfProfiler.SymbFile
