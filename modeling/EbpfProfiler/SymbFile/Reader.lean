import EbpfProfiler.Lib.Except
import EbpfProfiler.SymbFile.Proto

/-!
# Reading symbol files

`Reader` (`symbfile/read.rs`). `step` is one turn of its loop, and takes at least one byte.
-/

namespace EbpfProfiler.SymbFile

open Lib Except

/-! ## Messages to records -/

/-- What a reader keeps from one message to the next. -/
structure Context where
  stringTable : List String
  prevElfVa : Option U64

def strByIdx (table : List String) (idx : U32) : Except Failure String :=
  match table[idx.toNat]? with
  | none => .error (.error .invalidStringTableIndex)
  | some s => .ok s

def textStr (table : List String) : Text → Except Failure String
  | .str s => .ok s
  | .ref idx => strByIdx table idx

/-- The text of a `oneof` that may be missing. -/
def optionStr (table : List String) : Option Text → Except Failure (Option String)
  | none => .ok none
  | some t => (textStr table t).map some

def elfVaRel2Abs (prev : Option U64) : Option ElfVa → Except Failure U64
  | some (.set a) => .ok a
  | some (.delta d) =>
    match prev with
    | none => .error (.error .relativeValueWithoutReference)
    | some p => .ok (p + d)
  | none => .error (.error (.missingRequiredField "elf_va"))

/-- The rows of a line table, whose offsets count from the row before. -/
def lineTableRows : U32 → List (U32 × U32) → List LineTableEntry
  | _, [] => []
  | prevOffset, (l, o) :: rows => ⟨prevOffset + o, l⟩ :: lineTableRows (prevOffset + o) rows

/-- The line table of a range. -/
def deserializeLineTable : Option LineTable → Except Failure (List LineTableEntry)
  | none => .ok []
  | some lt =>
    if lt.offset.length ≠ lt.lineNumber.length then .error (.error .columnLengthMismatch)
    else .ok (lineTableRows 0 (lt.lineNumber.zip lt.offset))

def nonZero (n : U32) : Option U32 := if n = 0 then none else some n

def deserializeRange (ctx : Context) (range : RangeV1) : Except Failure Range := do
  let lineTable ← deserializeLineTable range.lineTable
  let elfVa ← elfVaRel2Abs ctx.prevElfVa range.elfVa
  let func ← match range.func with
    | none => .error (.error (.missingRequiredField "func"))
    | some t => textStr ctx.stringTable t
  let file ← optionStr ctx.stringTable range.file
  let callFile ← optionStr ctx.stringTable range.callFile
  .ok ⟨elfVa, range.length.setWidth 32, func, file, callFile, nonZero range.callLine, range.depth,
    lineTable⟩

def deserializeEntry (table : List String) (row : (U32 × U32) × U32) :
    Except Failure ReturnPadEntry := do
  let file ← strByIdx table row.1.1
  let func ← strByIdx table row.1.2
  .ok ⟨func, if file.isEmpty then none else some file, nonZero row.2⟩

def deserializeReturnPad (ctx : Context) (pad : ReturnPadV1) : Except Failure ReturnPad :=
  if pad.file.length ≠ pad.func.length ∨ pad.file.length ≠ pad.line.length then
    .error (.error .columnLengthMismatch)
  else do
    let elfVa ← elfVaRel2Abs ctx.prevElfVa pad.elfVa
    let entries ← ((pad.file.zip pad.func).zip pad.line).mapM (deserializeEntry ctx.stringTable)
    .ok ⟨elfVa, entries⟩

/-! ## The reader -/

/-- The reader of a file. -/
structure Reader extends Context where
  inner : List Byte

/-- What one turn of the loop of `Reader::read` gives. -/
inductive Turn where
  | eof
  | skip (r : Reader)
  | record (rec : Record) (r : Reader)

/-- One turn of the loop. Nothing is read of a message of an unknown type. -/
def step (prost : Prost) (r : Reader) : Except Failure Turn := do
  match ← readMsgPrefix r.inner with
  | none => .ok .eof
  | some (some .invalid, _, _) => .error (.error .invalidMessageType)
  | some (some .header, _, _) => .error (.error .invalidMessageType)
  | some (some .rangeV1, len, rest) =>
    let (raw, rest) ← readMsg prost.range len rest
    let range ← deserializeRange r.toContext raw
    .ok (.record (.range range) ⟨⟨r.stringTable, some range.elfVa⟩, rest⟩)
  | some (some .returnPadV1, len, rest) =>
    let (raw, rest) ← readMsg prost.returnPad len rest
    let pad ← deserializeReturnPad r.toContext raw
    .ok (.record (.returnPad pad) ⟨⟨r.stringTable, some pad.elfVa⟩, rest⟩)
  | some (some .stringTableV1, len, rest) =>
    let (strings, rest) ← readMsg prost.stringTable len rest
    .ok (.skip ⟨⟨strings, r.prevElfVa⟩, rest⟩)
  | some (none, _, rest) => .ok (.skip ⟨r.toContext, rest⟩)

/-- `Reader::read`, at most `n` turns. -/
def readLoop (prost : Prost) : ℕ → Reader → Except Failure (Option (Record × Reader))
  | 0, _ => .error .hang
  | n + 1, r =>
    match step prost r with
    | .error e => .error e
    | .ok .eof => .ok none
    | .ok (.skip r') => readLoop prost n r'
    | .ok (.record rec r') => .ok (some (rec, r'))

def read (prost : Prost) (r : Reader) : Except Failure (Option (Record × Reader)) :=
  readLoop prost (r.inner.length + 1) r

/-- The records up to the end, at most `n` of them. -/
def readAllLoop (prost : Prost) : ℕ → Reader → Except Failure (List Record)
  | 0, _ => .error .hang
  | n + 1, r =>
    match read prost r with
    | .error e => .error e
    | .ok none => .ok []
    | .ok (some (rec, r')) => (readAllLoop prost n r').map (rec :: ·)

/-- The reader as an iterator: all records up to the end of the file. -/
def readAll (prost : Prost) (r : Reader) : Except Failure (List Record) :=
  readAllLoop prost (r.inner.length + 1) r

def Reader.new (prost : Prost) (bytes : List Byte) : Except Failure Reader :=
  if bytes.length < fileMagic.length then .error (.error .unexpectedEof)
  else if bytes.take fileMagic.length ≠ fileMagic then .error (.error .invalidMagic)
  else do
    match ← readMsgPrefix (bytes.drop fileMagic.length) with
    | none => .error (.error .truncatedMessage)
    | some (kind, len, rest) =>
      if kind ≠ some .header then .error (.error (.unexpectedType .header kind))
      else
        let (_, rest) ← readMsg prost.header len rest
        .ok ⟨⟨[], none⟩, rest⟩

def readFile (prost : Prost) (bytes : List Byte) : Except Failure (List Record) := do
  let r ← Reader.new prost bytes
  readAll prost r

/-! ## Turns take bytes -/

variable {bytes rest : List Byte}

lemma readLeb128Loop_spec {n shift : ℕ} {result v : U64}
    (h : readLeb128Loop n result shift bytes = .ok (some (v, rest))) :
    rest.length < bytes.length ∧ ∀ more,
      readLeb128Loop n result shift (bytes ++ more) = .ok (some (v, rest ++ more)) := by
  induction n generalizing result shift bytes with
  | zero => cases h
  | succ n ih =>
    cases bytes with
    | nil =>
      rw [readLeb128Loop] at h
      split at h <;> cases h
    | cons b bytes =>
      rw [readLeb128Loop] at h
      split at h
      · next hlast =>
        cases h
        refine ⟨Nat.lt_succ_self _, fun more => ?_⟩
        rw [List.cons_append, readLeb128Loop, if_pos hlast]
      · next hmore =>
        refine ⟨Nat.lt_succ_of_lt (ih h).1, fun more => ?_⟩
        rw [List.cons_append, readLeb128Loop, if_neg hmore]
        exact (ih h).2 more

lemma readMsgPrefix_spec {kind : Option MessageType} {len : ℕ}
    (h : readMsgPrefix bytes = .ok (some (kind, len, rest))) : rest.length < bytes.length ∧
      ∀ more, readMsgPrefix (bytes ++ more) = .ok (some (kind, len, rest ++ more)) := by
  obtain ⟨first, hlength, h⟩ := bind_eq_ok.mp h
  cases first with
  | none => cases h
  | some first =>
    replace h : (if maxMsgSize < first.1.toNat then _ else _) = _ := h
    split at h
    · cases h
    · next hsize =>
      obtain ⟨second, hkind, h⟩ := bind_eq_ok.mp h
      cases second with
      | none => cases h
      | some second =>
        replace h : (if 2 ^ 31 ≤ second.1.toNat then _ else _) = _ := h
        split at h
        · cases h
        · next htype =>
          have h₁ := readLeb128Loop_spec hlength
          have h₂ := readLeb128Loop_spec hkind
          cases h
          refine ⟨by omega, fun more => ?_⟩
          rw [readMsgPrefix, readLeb128, h₁.2]
          show (if maxMsgSize < first.1.toNat then _ else _) = _
          rw [if_neg hsize, readLeb128, h₂.2]
          show (if 2 ^ 31 ≤ second.1.toNat then _ else _) = _
          rw [if_neg htype]

lemma readMsg_spec {M : Type} {codec : MessageCodec M} {len : ℕ} {m : M}
    (h : readMsg codec len bytes = .ok (m, rest)) : rest.length ≤ bytes.length ∧
      ∀ more, readMsg codec len (bytes ++ more) = .ok (m, rest ++ more) := by
  unfold readMsg at h ⊢
  split at h
  · cases h
  · next hlen =>
    have hle : len ≤ bytes.length := by omega
    split at h
    · cases h
    · next hdecode =>
      cases h
      refine ⟨by rw [List.length_drop]; omega, fun more => ?_⟩
      rw [if_neg (by rw [List.length_append]; omega), List.take_append_of_le_length hle,
        List.drop_append_of_le_length hle, hdecode]

lemma step_length {prost : Prost} {r r' : Reader} {turn : Turn} (h : step prost r = .ok turn)
    (hturn : turn = .skip r' ∨ ∃ rec, turn = .record rec r') :
      r'.inner.length < r.inner.length := by
  obtain ⟨first, hprefix, h⟩ := bind_eq_ok.mp h
  cases first with
  | none =>
    cases h
    rcases hturn with hturn | ⟨_, hturn⟩ <;> cases hturn
  | some first =>
    obtain ⟨kind, len, rest⟩ := first
    have hlt := (readMsgPrefix_spec hprefix).1
    cases kind with
    | none =>
      cases h
      rcases hturn with hturn | ⟨_, hturn⟩
      · cases hturn
        exact hlt
      · cases hturn
    | some kind =>
      cases kind with
      | invalid | header => cases h
      | rangeV1 | returnPadV1 =>
        obtain ⟨raw, hraw, h⟩ := bind_eq_ok.mp h
        obtain ⟨record, -, h⟩ := bind_eq_ok.mp h
        cases h
        rcases hturn with hturn | ⟨_, hturn⟩
        · cases hturn
        · cases hturn
          exact lt_of_le_of_lt (readMsg_spec hraw).1 hlt
      | stringTableV1 =>
        obtain ⟨raw, hraw, h⟩ := bind_eq_ok.mp h
        cases h
        rcases hturn with hturn | ⟨_, hturn⟩
        · cases hturn
          exact lt_of_le_of_lt (readMsg_spec hraw).1 hlt
        · cases hturn

/-! ## Following the turns -/

section
variable {prost : Prost} {r r' : Reader} {rec : Record}

/-- How the loop of `Reader::read` goes on after a turn. -/
def Turn.after (next : Reader → Except Failure (Option (Record × Reader))) :
    Turn → Except Failure (Option (Record × Reader))
  | .eof => .ok none
  | .skip r => next r
  | .record rec r => .ok (some (rec, r))

lemma readLoop_succ (n : ℕ) :
    readLoop prost (n + 1) r = step prost r >>= Turn.after (readLoop prost n) := by
  rw [readLoop]
  cases step prost r with
  | error e => rfl
  | ok turn => cases turn <;> rfl

lemma readAllLoop_succ (n : ℕ) : readAllLoop prost (n + 1) r = read prost r >>= fun next =>
    next.elim (.ok []) fun p => (readAllLoop prost n p.2).map (p.1 :: ·) := by
  rw [readAllLoop]
  cases read prost r with
  | error e => rfl
  | ok next => cases next <;> rfl

variable {n : ℕ}

/-- More turns than there are bytes change nothing. -/
lemma readLoop_congr {m : ℕ} (hn : r.inner.length < n) (hm : r.inner.length < m) :
    readLoop prost n r = readLoop prost m r := by
  induction n generalizing m r with
  | zero => omega
  | succ n ih =>
    cases m with
    | zero => omega
    | succ m =>
      rw [readLoop_succ, readLoop_succ]
      cases hstep : step prost r with
      | error e => rfl
      | ok turn =>
        cases turn with
        | eof => rfl
        | record rec r' => rfl
        | skip r' =>
          have hlt := step_length hstep (.inl rfl)
          exact ih (by omega) (by omega)

lemma read_of_error {e : Failure} (h : step prost r = .error e) : read prost r = .error e := by
  rw [read, readLoop_succ, h]
  rfl

lemma read_of_eof (h : step prost r = .ok .eof) : read prost r = .ok none := by
  rw [read, readLoop_succ, h]
  rfl

lemma read_of_skip (h : step prost r = .ok (.skip r')) : read prost r = read prost r' := by
  have hlt := step_length h (.inl rfl)
  rw [read, readLoop_succ, h]
  exact readLoop_congr hlt (Nat.lt_succ_self _)

lemma read_of_record (h : step prost r = .ok (.record rec r')) :
    read prost r = .ok (some (rec, r')) := by
  rw [read, readLoop_succ, h]
  rfl

lemma read_length (h : readLoop prost n r = .ok (some (rec, r'))) :
    r'.inner.length < r.inner.length := by
  induction n generalizing r with
  | zero => cases h
  | succ n ih =>
    rw [readLoop_succ] at h
    obtain ⟨turn, hstep, h⟩ := bind_eq_ok.mp h
    cases turn with
    | eof => cases h
    | record rec₁ r₁ =>
      cases h
      exact step_length hstep (.inr ⟨rec, rfl⟩)
    | skip r₁ => exact lt_trans (ih h) (step_length hstep (.inl rfl))

lemma readAllLoop_congr {m : ℕ} (hn : r.inner.length < n) (hm : r.inner.length < m) :
    readAllLoop prost n r = readAllLoop prost m r := by
  induction n generalizing m r with
  | zero => omega
  | succ n ih =>
    cases m with
    | zero => omega
    | succ m =>
      rw [readAllLoop_succ, readAllLoop_succ]
      cases hread : read prost r with
      | error e => rfl
      | ok o =>
        cases o with
        | none => rfl
        | some next =>
          have hlt := read_length hread
          exact congrArg (Except.map _) (ih (by omega) (by omega))

lemma readAll_congr (h : read prost r = read prost r') (hle : r'.inner.length ≤ r.inner.length) :
    readAll prost r = readAll prost r' := by
  have hfuel : readAll prost r' = readAllLoop prost (r.inner.length + 1) r' :=
    readAllLoop_congr (by omega) (by omega)
  rw [hfuel, readAll, readAllLoop_succ, readAllLoop_succ, h]

lemma readAll_of_error {e : Failure} (h : step prost r = .error e) :
    readAll prost r = .error e := by
  rw [readAll, readAllLoop_succ, read_of_error h]
  rfl

lemma readAll_of_eof (h : step prost r = .ok .eof) : readAll prost r = .ok [] := by
  rw [readAll, readAllLoop_succ, read_of_eof h]
  rfl

lemma readAll_of_skip (h : step prost r = .ok (.skip r')) : readAll prost r = readAll prost r' :=
  readAll_congr (read_of_skip h) (le_of_lt (step_length h (.inl rfl)))

lemma readAll_of_record (h : step prost r = .ok (.record rec r')) :
    readAll prost r = (readAll prost r').map (rec :: ·) := by
  have hlt := step_length h (.inr ⟨rec, rfl⟩)
  rw [readAll, readAllLoop_succ, read_of_record h]
  exact congrArg (Except.map _) (readAllLoop_congr hlt (Nat.lt_succ_self _))

end

/-! ## Files that are cut off -/

section
variable {prost : Prost} {r r' : Reader} {rec : Record}

/-- The reader of a file that goes on. -/
def Reader.append (r : Reader) (more : List Byte) : Reader := ⟨r.toContext, r.inner ++ more⟩

def Turn.append (more : List Byte) : Turn → Turn
  | .eof => .eof
  | .skip r => .skip (r.append more)
  | .record rec r => .record rec (r.append more)

lemma step_append {turn : Turn} (h : step prost r = .ok turn) (hturn : turn ≠ .eof)
    (more : List Byte) : step prost (r.append more) = .ok (turn.append more) := by
  obtain ⟨first, hprefix, h⟩ := bind_eq_ok.mp h
  cases first with
  | none =>
    cases h
    exact absurd rfl hturn
  | some first =>
    obtain ⟨kind, len, rest⟩ := first
    apply bind_eq_ok.mpr
    refine ⟨_, (readMsgPrefix_spec hprefix).2 more, ?_⟩
    cases kind with
    | none =>
      cases h
      rfl
    | some kind =>
      cases kind with
      | invalid | header => cases h
      | rangeV1 | returnPadV1 =>
        obtain ⟨raw, hraw, h⟩ := bind_eq_ok.mp h
        obtain ⟨record, hrecord, h⟩ := bind_eq_ok.mp h
        cases h
        exact bind_eq_ok.mpr ⟨_, (readMsg_spec hraw).2 more, bind_eq_ok.mpr ⟨_, hrecord, rfl⟩⟩
      | stringTableV1 =>
        obtain ⟨raw, hraw, h⟩ := bind_eq_ok.mp h
        cases h
        exact bind_eq_ok.mpr ⟨_, (readMsg_spec hraw).2 more, rfl⟩

/-- The records that `n` calls of `next` give, up to the end or the first error. -/
def taken (prost : Prost) : ℕ → Reader → List Record
  | 0, _ => []
  | n + 1, r =>
    match read prost r with
    | .ok (some (rec, r')) => rec :: taken prost n r'
    | _ => []

lemma read_append {n : ℕ} (h : readLoop prost n r = .ok (some (rec, r'))) (more : List Byte) :
    read prost (r.append more) = .ok (some (rec, r'.append more)) := by
  induction n generalizing r with
  | zero => cases h
  | succ n ih =>
    rw [readLoop_succ] at h
    obtain ⟨turn, hstep, h⟩ := bind_eq_ok.mp h
    cases turn with
    | eof => cases h
    | record rec₁ r₁ =>
      cases h
      exact read_of_record (step_append hstep (by simp) more)
    | skip r₁ =>
      rw [read_of_skip (step_append hstep (by simp) more)]
      exact ih h

/-- **A file that is cut off** gives the first records of the whole file. -/
theorem taken_isPrefix_append (prost : Prost) (n : ℕ) (r : Reader) (more : List Byte) :
    taken prost n r <+: taken prost n (r.append more) := by
  induction n generalizing r with
  | zero => exact List.nil_prefix
  | succ n ih =>
    rw [taken]
    split
    · next rec r' hread =>
      rw [taken, read_append hread more]
      exact List.cons_prefix_cons.mpr ⟨rfl, ih r'⟩
    · exact List.nil_prefix

end

/-! ## Turns over framed messages -/

section
variable {prost : Prost}

lemma step_nil (ctx : Context) : step prost ⟨ctx, []⟩ = .ok .eof := rfl

lemma step_stringTable {strings : List String} (ctx : Context)
    (hsize : (prost.stringTable.encode strings).length ≤ maxMsgSize) (rest : List Byte) :
    step prost
      ⟨ctx, frame MessageType.stringTableV1.toNat (prost.stringTable.encode strings) ++ rest⟩ =
      .ok (.skip ⟨⟨strings, ctx.prevElfVa⟩, rest⟩) := by
  unfold step
  rw [readMsgPrefix_frame (by decide) hsize]
  show (readMsg prost.stringTable _ _ >>= _) = _
  rw [readMsg_encode]
  rfl

lemma step_range {raw : RangeV1} {range : Range} {ctx : Context}
    (hsize : (prost.range.encode raw).length ≤ maxMsgSize)
    (h : deserializeRange ctx raw = .ok range) (rest : List Byte) :
    step prost ⟨ctx, frame MessageType.rangeV1.toNat (prost.range.encode raw) ++ rest⟩ =
      .ok (.record (.range range) ⟨⟨ctx.stringTable, some range.elfVa⟩, rest⟩) := by
  unfold step
  rw [readMsgPrefix_frame (by decide) hsize]
  show (readMsg prost.range _ _ >>= _) = _
  rw [readMsg_encode]
  show (deserializeRange ctx raw >>= _) = _
  rw [h]
  rfl

lemma step_returnPad {raw : ReturnPadV1} {pad : ReturnPad} {ctx : Context}
    (hsize : (prost.returnPad.encode raw).length ≤ maxMsgSize)
    (h : deserializeReturnPad ctx raw = .ok pad) (rest : List Byte) :
    step prost ⟨ctx, frame MessageType.returnPadV1.toNat (prost.returnPad.encode raw) ++ rest⟩ =
      .ok (.record (.returnPad pad) ⟨⟨ctx.stringTable, some pad.elfVa⟩, rest⟩) := by
  unfold step
  rw [readMsgPrefix_frame (by decide) hsize]
  show (readMsg prost.returnPad _ _ >>= _) = _
  rw [readMsg_encode]
  show (deserializeReturnPad ctx raw >>= _) = _
  rw [h]
  rfl

end

end EbpfProfiler.SymbFile
