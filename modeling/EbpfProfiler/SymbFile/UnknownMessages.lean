import EbpfProfiler.SymbFile.RoundTrip

/-!
# Messages of unknown types

`Reader::read` reads the payload of a message that it does not know as further messages.
-/

namespace EbpfProfiler.SymbFile

open Lib List Except

variable {ctx : Context} {bytes rest : List Byte} {s : String} {M : Type}

/-! ## Files -/

/-- A message of a type that the format has. -/
structure Message where
  kind : MessageType
  payload : List Byte

def frames (messages : List Message) : List Byte :=
  messages.flatMap fun m => frame m.kind.toNat m.payload

/-- The file with these messages behind the header. -/
def file (prost : Prost) (messages : List Message) : List Byte := fileStart prost ++ frames messages

/-- No message is too big, and the reader gives these records. -/
structure Valid (prost : Prost) (messages : List Message) (records : List Record) : Prop where
  small : ∀ m ∈ messages, m.payload.length ≤ maxMsgSize
  readable : readFile prost (file prost messages) = .ok records

def fileWith (prost : Prost) (before : List Message) (kind : ℕ) (payload : List Byte)
    (after : List Message) : List Byte :=
  fileStart prost ++ (frames before ++ (frame kind payload ++ frames after))

/-- Bytes that are lengths and unknown types one after the other. -/
inductive SkipsOnly : List Byte → Prop where
  | nil : SkipsOnly []
  | cons {bytes rest : List Byte} {len : ℕ} (h : readMsgPrefix bytes = .ok (some (none, len, rest)))
      (hrest : SkipsOnly rest) : SkipsOnly bytes

/-! ## Messages of the file -/

section
variable {prost : Prost}

/-- Bytes that the reader fails on, whatever follows. -/
def Fails (prost : Prost) (ctx : Context) (body : List Byte) : Prop :=
  ∃ e, ∀ rest, readAll prost ⟨ctx, body ++ rest⟩ = .error e

lemma readMsg_payload (codec : MessageCodec M) (payload : List Byte) :
    (∃ m, ∀ rest, readMsg codec payload.length (payload ++ rest) = .ok (m, rest)) ∨
      ∀ rest, readMsg codec payload.length (payload ++ rest) = .error (.error .decoding) := by
  have hlength : ∀ rest, ¬ (payload ++ rest).length < payload.length := by
    intro rest
    rw [length_append]
    omega
  cases hdecode : codec.decode payload with
  | none =>
    right
    intro rest
    rw [readMsg, if_neg (hlength rest), take_left, hdecode]
  | some m =>
    left
    use m
    intro rest
    rw [readMsg, if_neg (hlength rest), take_left, hdecode, drop_left]

lemma readRecord_payload {α : Type} (codec : MessageCodec M) (deserialize : M → Except Failure α)
    (turn : α → List Byte → Turn) (payload : List Byte) :
    (∃ e, ∀ rest, (readMsg codec payload.length (payload ++ rest) >>= fun res =>
      deserialize res.1 >>= fun a => Except.ok (turn a res.2)) = .error e) ∨
    ∃ a, ∀ rest, (readMsg codec payload.length (payload ++ rest) >>= fun res =>
      deserialize res.1 >>= fun a => Except.ok (turn a res.2)) = .ok (turn a rest) := by
  rcases readMsg_payload codec payload with ⟨raw, hread⟩ | hread
  · simp only [hread]
    show (∃ e, ∀ rest, (deserialize raw >>= fun a => ok (turn a rest)) = .error e) ∨
      ∃ a, ∀ rest, (deserialize raw >>= fun a => ok (turn a rest)) = .ok (turn a rest)
    cases deserialize raw with
    | error e => exact .inl ⟨e, fun _ => rfl⟩
    | ok a => exact .inr ⟨a, fun _ => rfl⟩
  · simp only [hread]
    exact .inl ⟨.error .decoding, fun _ => rfl⟩

lemma step_frame (ctx : Context) {m : Message} (hsize : m.payload.length ≤ maxMsgSize) :
    (∃ e, ∀ rest, step prost ⟨ctx, frame m.kind.toNat m.payload ++ rest⟩ = .error e) ∨
    (∃ ctx', ∀ rest, step prost ⟨ctx, frame m.kind.toNat m.payload ++ rest⟩ =
      .ok (.skip ⟨ctx', rest⟩)) ∨
    ∃ r ctx', ∀ rest,
      step prost ⟨ctx, frame m.kind.toNat m.payload ++ rest⟩ = .ok (.record r ⟨ctx', rest⟩) := by
  have hkind : m.kind.toNat < 2 ^ 31 := lt_of_le_of_lt m.kind.toNat_le (by decide)
  have hread := readMsgPrefix_frame hkind hsize
  unfold step
  simp only [hread]
  cases m.kind with
  | invalid | header => exact .inl ⟨_, fun _ => rfl⟩
  | stringTableV1 =>
    rcases readRecord_payload prost.stringTable ok
      (fun strings rest => .skip ⟨⟨strings, ctx.prevElfVa⟩, rest⟩) m.payload with herror |
        ⟨strings, hskip⟩
    · exact .inl herror
    · exact .inr (.inl ⟨_, hskip⟩)
  | rangeV1 =>
    rcases readRecord_payload prost.range (deserializeRange ctx)
      (fun range rest => .record (.range range) ⟨⟨ctx.stringTable, some range.elfVa⟩,
        rest⟩) m.payload
      with herror | ⟨range, hrecord⟩
    · exact .inl herror
    · exact .inr (.inr ⟨_, _, hrecord⟩)
  | returnPadV1 =>
    rcases readRecord_payload prost.returnPad (deserializeReturnPad ctx)
      (fun pad rest => .record (.returnPad pad) ⟨⟨ctx.stringTable, some pad.elfVa⟩, rest⟩) m.payload
      with herror | ⟨pad, hrecord⟩
    · exact .inl herror
    · exact .inr (.inr ⟨_, _, hrecord⟩)

lemma frames_yield (ctx : Context) {messages : List Message}
    (hsize : ∀ m ∈ messages, m.payload.length ≤ maxMsgSize) :
    Fails prost ctx (frames messages) ∨ ∃ rs ctx', Yields prost ctx (frames messages) rs ctx' := by
  induction messages generalizing ctx with
  | nil => exact .inr ⟨[], ctx, .refl ctx⟩
  | cons m messages ih =>
    rw [forall_mem_cons] at hsize
    rw [frames, flatMap_cons]
    -- once a first part is read as records, the rest decides
    have hthen : ∀ {rs ctx₁}, Yields prost ctx (frame m.kind.toNat m.payload) rs ctx₁ →
        Fails prost ctx (frame m.kind.toNat m.payload ++ frames messages) ∨
          ∃ rs ctx',
            Yields prost ctx (frame m.kind.toNat m.payload ++ frames messages) rs ctx' := by
      intro rs ctx₁ hfirst
      rcases ih ctx₁ hsize.2 with ⟨e, hfails⟩ | ⟨rs', ctx', hrest⟩
      · left
        use e
        intro rest
        rw [append_assoc, hfirst, hfails]
        rfl
      · exact .inr ⟨_, ctx', hfirst.trans hrest⟩
    rcases step_frame ctx hsize.1 with ⟨e, herror⟩ | ⟨ctx₁, hskip⟩ | ⟨r, ctx₁, hrecord⟩
    · left
      use e
      intro rest
      rw [append_assoc]
      exact readAll_of_error (herror _)
    · exact hthen (.of_skip hskip)
    · exact hthen (.of_record hrecord)

/-! ## Payloads without effect -/

lemma step_unknown {kind : ℕ} {payload : List Byte} (hkind : MessageType.ofNat? kind = none)
    (hlt : kind < 2 ^ 31) (hsize : payload.length ≤ maxMsgSize) (ctx : Context) (rest : List Byte) :
    step prost ⟨ctx, frame kind payload ++ rest⟩ = .ok (.skip ⟨ctx, payload ++ rest⟩) := by
  unfold step
  rw [readMsgPrefix_frame hlt hsize, hkind]
  rfl

lemma readFile_fileWith (hheader : (prost.header.encode ()).length ≤ maxMsgSize) {kind : ℕ}
    {payload : List Byte} (hkind : MessageType.ofNat? kind = none) (hlt : kind < 2 ^ 31)
    (hsize : payload.length ≤ maxMsgSize) {before after : List Message} {rs : List Record}
    (hbefore : Yields prost ⟨[], none⟩ (frames before) rs ctx) :
    readFile prost (fileWith prost before kind payload after) =
      (readAll prost ⟨ctx, payload ++ frames after⟩).map (rs ++ ·) := by
  rw [fileWith, readFile_fileStart hheader, hbefore,
    readAll_of_skip (step_unknown hkind hlt hsize ctx _)]

/-! ## Payloads that are read to the end -/

/-- Bytes without a record, with the last string table among them. -/
inductive Silent (prost : Prost) : List Byte → Option (List String) → Prop where
  | nil : Silent prost [] none
  | unknown {bytes rest : List Byte} {len : ℕ} {t : Option (List String)}
      (h : readMsgPrefix bytes = .ok (some (none, len, rest))) (hrest : Silent prost rest t) :
      Silent prost bytes t
  | table {bytes rest rest' : List Byte} {len : ℕ} {strings : List String}
      {t : Option (List String)}
      (h : readMsgPrefix bytes = .ok (some (some .stringTableV1, len, rest)))
      (hread : readMsg prost.stringTable len rest = .ok (strings, rest'))
      (hrest : Silent prost rest' t) :
      Silent prost bytes (some (t.getD strings))

lemma step_cases {turn : Turn} (h : step prost ⟨ctx, bytes⟩ = .ok turn) :
    (turn = .eof ∧ readMsgPrefix bytes = .ok none) ∨
    (∃ len rest, turn = .skip ⟨ctx, rest⟩ ∧ readMsgPrefix bytes = .ok (some (none, len, rest))) ∨
    (∃ len rest strings rest', turn = .skip ⟨⟨strings, ctx.prevElfVa⟩, rest'⟩ ∧
      readMsgPrefix bytes = .ok (some (some .stringTableV1, len, rest)) ∧
      readMsg prost.stringTable len rest = .ok (strings, rest')) ∨
    ∃ rec r, turn = .record rec r := by
  obtain ⟨first, hprefix, h⟩ := bind_eq_ok.mp h
  cases first with
  | none =>
    cases h
    exact .inl ⟨rfl, hprefix⟩
  | some first =>
    obtain ⟨kind, len, rest⟩ := first
    cases kind with
    | none =>
      cases h
      exact .inr (.inl ⟨len, rest, rfl, hprefix⟩)
    | some kind =>
      cases kind with
      | invalid | header => cases h
      | rangeV1 =>
        obtain ⟨raw, -, h⟩ := bind_eq_ok.mp h
        obtain ⟨range, -, h⟩ := bind_eq_ok.mp h
        cases h
        exact .inr (.inr (.inr ⟨_, _, rfl⟩))
      | returnPadV1 =>
        obtain ⟨raw, -, h⟩ := bind_eq_ok.mp h
        obtain ⟨pad, -, h⟩ := bind_eq_ok.mp h
        cases h
        exact .inr (.inr (.inr ⟨_, _, rfl⟩))
      | stringTableV1 =>
        obtain ⟨raw, hraw, h⟩ := bind_eq_ok.mp h
        cases h
        exact .inr (.inr (.inl ⟨len, rest, raw.1, raw.2, rfl, hprefix, hraw⟩))

lemma readLeb128Loop_ne_none {n shift : ℕ} {result : U64} (hn : n ≤ 9) :
    readLeb128Loop n result shift bytes ≠ .ok none := by
  intro h
  induction n generalizing result shift bytes with
  | zero => cases h
  | succ n ih =>
    cases bytes with
    | nil =>
      rw [readLeb128Loop, if_neg (by omega)] at h
      cases h
    | cons b bytes =>
      rw [readLeb128Loop] at h
      split at h
      · cases h
      · exact ih (by omega) h

lemma eq_nil_of_readMsgPrefix (h : readMsgPrefix bytes = .ok none) : bytes = [] := by
  obtain ⟨length, hlength, h⟩ := bind_eq_ok.mp h
  cases length with
  | none =>
    cases bytes with
    | nil => rfl
    | cons b bytes =>
      rw [readLeb128, readLeb128Loop] at hlength
      split at hlength
      · cases hlength
      · exact absurd hlength (readLeb128Loop_ne_none (Nat.le_refl 9))
  | some length =>
    replace h : (if maxMsgSize < length.1.toNat then _ else _) = _ := h
    split at h
    · cases h
    · obtain ⟨rawKind, -, h⟩ := bind_eq_ok.mp h
      cases rawKind with
      | none => cases h
      | some rawKind =>
        replace h : (if 2 ^ 31 ≤ rawKind.1.toNat then _ else _) = _ := h
        split at h <;> cases h

lemma silent_of_readAll (h : readAll prost ⟨ctx, bytes⟩ = .ok []) : ∃ t, Silent prost bytes t := by
  induction hn : bytes.length using Nat.strong_induction_on generalizing ctx bytes with
  | _ n ih =>
    cases hstep : step prost ⟨ctx, bytes⟩ with
    | error e =>
      rw [readAll_of_error hstep] at h
      cases h
    | ok turn =>
      rcases step_cases hstep with ⟨rfl, hprefix⟩ | ⟨len, rest, rfl, hprefix⟩ |
        ⟨len, rest, strings, rest', rfl, hprefix, hread⟩ | ⟨rec, r, rfl⟩
      · rw [eq_nil_of_readMsgPrefix hprefix]
        exact ⟨none, .nil⟩
      · rw [readAll_of_skip hstep] at h
        have hlt : rest.length < bytes.length := step_length hstep (.inl rfl)
        obtain ⟨t, hrest⟩ := ih rest.length (hn ▸ hlt) h rfl
        exact ⟨t, .unknown hprefix hrest⟩
      · rw [readAll_of_skip hstep] at h
        have hlt : rest'.length < bytes.length := step_length hstep (.inl rfl)
        obtain ⟨t, hrest⟩ := ih rest'.length (hn ▸ hlt) h rfl
        exact ⟨_, .table hprefix hread hrest⟩
      · rw [readAll_of_record hstep] at h
        obtain ⟨rs, -, h⟩ := map_eq_ok.mp h
        cases h

section
variable {t : Option (List String)} (h : Silent prost bytes t)
include h

/-- The string table is replaced by the last one. -/
lemma Silent.yields (ctx : Context) :
    Yields prost ctx bytes [] ⟨t.getD ctx.stringTable, ctx.prevElfVa⟩ := by
  induction h generalizing ctx with
  | nil => exact .refl ctx
  | @unknown bytes bytes' len t hprefix hrest ih =>
    intro rest
    have hstep : step prost ⟨ctx, bytes ++ rest⟩ = .ok (.skip ⟨ctx, bytes' ++ rest⟩) := by
      unfold step
      rw [(readMsgPrefix_spec hprefix).2]
      rfl
    rw [readAll_of_skip hstep]
    exact ih ctx rest
  | @table bytes bytes₁ bytes₂ len strings t hprefix hread hrest ih =>
    intro rest
    have hstep : step prost ⟨ctx, bytes ++ rest⟩ =
        .ok (.skip ⟨⟨strings, ctx.prevElfVa⟩, bytes₂ ++ rest⟩) := by
      unfold step
      rw [(readMsgPrefix_spec hprefix).2]
      show (readMsg _ _ _ >>= _) = _
      rw [(readMsg_spec hread).2]
      rfl
    rw [readAll_of_skip hstep]
    exact ih ⟨strings, ctx.prevElfVa⟩ rest

lemma Silent.skipsOnly (ht : t = none) : SkipsOnly bytes := by
  induction h with
  | nil => exact .nil
  | unknown hprefix hrest ih => exact .cons hprefix (ih ht)
  | table => cases ht

end

lemma SkipsOnly.yields (h : SkipsOnly bytes) (ctx : Context) : Yields prost ctx bytes [] ctx := by
  have hsilent : Silent prost bytes none := by
    induction h with
    | nil => exact .nil
    | cons hread _ ih => exact .unknown hread ih
  exact hsilent.yields ctx

/-! ## A file that shows the string table -/

def firstString : RangeV1 := ⟨some (.set 0), 0, some (.ref 0), none, 0, none, 0, none⟩

/-- Some small messages are not too big. -/
structure SmallMessagesFit (prost : Prost) : Prop where
  header : (prost.header.encode ()).length ≤ maxMsgSize
  range : (prost.range.encode firstString).length ≤ maxMsgSize
  stringTable : ∀ s ∈ ["a", "b"], (prost.stringTable.encode [s]).length ≤ maxMsgSize

def showTable (prost : Prost) : Message := ⟨.rangeV1, prost.range.encode firstString⟩

def firstStringRecord (s : String) : Record := .range ⟨0, 0, s, none, none, none, 0, []⟩

lemma readAll_showTable (h : SmallMessagesFit prost) (table : List String) :
    readAll prost ⟨⟨table, none⟩, frames [showTable prost]⟩ =
      (strByIdx table 0).map fun s => [firstStringRecord s] := by
  have hstep : step prost ⟨⟨table, none⟩, frames [showTable prost]⟩ = (strByIdx table 0 >>= fun s =>
      .ok (.record (firstStringRecord s) ⟨⟨table, some 0⟩, []⟩)) := by
    rw [frames, flatMap_singleton, ← append_nil (frame _ _)]
    unfold step showTable
    rw [readMsgPrefix_frame (lt_of_le_of_lt (MessageType.toNat_le _) (by decide)) h.range]
    show (readMsg prost.range _ _ >>= _) = _
    rw [readMsg_encode]
    cases hfirst : strByIdx table 0 with
    | error e =>
      show (deserializeRange ⟨table, none⟩ firstString >>= _) = _
      show ((strByIdx table 0 >>= _) >>= _) = _
      rw [hfirst]
      rfl
    | ok s =>
      show ((strByIdx table 0 >>= _) >>= _) = _
      rw [hfirst]
      rfl
  cases hfirst : strByIdx table 0 with
  | error e =>
    rw [hfirst] at hstep
    exact readAll_of_error hstep
  | ok s =>
    rw [hfirst] at hstep
    rw [readAll_of_record hstep]
    rfl

lemma getElem?_of_strByIdx {table : List String} {idx : U32} (h : strByIdx table idx = .ok s) :
    table[idx.toNat]? = some s := by
  unfold strByIdx at h
  split at h
  · cases h
  · next heq =>
    cases h
    exact heq

def tableOf (prost : Prost) (s : String) : Message := ⟨.stringTableV1, prost.stringTable.encode [s]⟩

section
variable (hfit : SmallMessagesFit prost)
include hfit

lemma yields_tableOf (hs : s ∈ ["a", "b"]) :
    Yields prost ⟨[], none⟩ (frames [tableOf prost s]) [] ⟨[s], none⟩ := by
  rw [frames, flatMap_singleton]
  exact .of_skip fun rest => step_stringTable _ (hfit.stringTable s hs) rest

lemma valid_nil : Valid prost [] [] := by
  refine ⟨forall_mem_nil _, ?_⟩
  rw [file, readFile_fileStart hfit.header]
  exact readAll_of_eof (step_nil _)

lemma valid_showTable (hs : s ∈ ["a", "b"]) :
    Valid prost [tableOf prost s, showTable prost] [firstStringRecord s] := by
  have hframes : frames [tableOf prost s, showTable prost] =
      frames [tableOf prost s] ++ frames [showTable prost] := by
    rw [frames, frames, frames, ← flatMap_append]
    rfl
  constructor
  · intro m hm
    rcases mem_pair.mp hm with rfl | rfl
    · exact hfit.stringTable s hs
    · exact hfit.range
  · rw [file, readFile_fileStart hfit.header, hframes, yields_tableOf hfit hs,
      readAll_showTable hfit]
    rfl

end

/-! ## The result -/

/-- A message of an unknown type never changes the records if and only if its payload is read as
lengths and unknown types. -/
theorem readFile_insert_iff (hfit : SmallMessagesFit prost) {kind : ℕ} {payload : List Byte}
    (hkind : MessageType.ofNat? kind = none) (hlt : kind < 2 ^ 31)
    (hsize : payload.length ≤ maxMsgSize) :
    (∀ before after records, Valid prost (before ++ after) records →
      readFile prost (fileWith prost before kind payload after) = .ok records) ↔
        SkipsOnly payload := by
  constructor
  · intro h
    have hempty := h [] [] [] (valid_nil hfit)
    rw [readFile_fileWith hfit.header hkind hlt hsize (.refl _)] at hempty
    obtain ⟨rs, hread, hrs⟩ := map_eq_ok.mp hempty
    cases hrs
    rw [frames, flatMap_nil, append_nil] at hread
    obtain ⟨t, hsilent⟩ := silent_of_readAll hread
    cases t with
    | none => exact hsilent.skipsOnly rfl
    | some table =>
      exfalso
      obtain ⟨s, hs, hne⟩ : ∃ s ∈ ["a", "b"], table[0]? ≠ some s := by
        by_cases ha : table[0]? = some "a"
        · exact ⟨"b", by simp, by rw [ha]; decide⟩
        · exact ⟨"a", by simp, ha⟩
      have hshown :=
        h [tableOf prost s] [showTable prost] [firstStringRecord s] (valid_showTable hfit hs)
      rw [readFile_fileWith hfit.header hkind hlt hsize (yields_tableOf hfit hs),
        (hsilent.yields _).readAll_append, readAll_showTable hfit] at hshown
      obtain ⟨rs, hrs, hrecords⟩ := map_eq_ok.mp hshown
      obtain ⟨s', hs', hrs⟩ := map_eq_ok.mp hrs
      cases hrs
      cases hrecords
      exact hne (getElem?_of_strByIdx hs')
  · intro h before after records hvalid
    have hread := hvalid.readable
    have hsmall : ∀ m ∈ before, m.payload.length ≤ maxMsgSize := by
      intro m hm
      exact hvalid.small m (mem_append_left after hm)
    rw [file, readFile_fileStart hfit.header, frames, flatMap_append, ← frames] at hread
    rcases frames_yield ⟨[], none⟩ hsmall with ⟨e, hfails⟩ | ⟨rs, ctx, hbefore⟩
    · rw [hfails] at hread
      cases hread
    · rw [readFile_fileWith hfit.header hkind hlt hsize hbefore, (h.yields ctx).readAll_append,
        ← hbefore]
      exact hread

end

lemma wireProst_fits : SmallMessagesFit wireProst := by
  constructor <;> decide +kernel

theorem readFile_insert_twoBytes :
    Valid wireProst [tableOf wireProst "a", showTable wireProst] [firstStringRecord "a"] ∧
      SkipsOnly [0x00, 0x05] ∧
      readFile wireProst (fileWith wireProst [tableOf wireProst "a"] 7 [0x00, 0x05]
        [showTable wireProst]) = .ok [firstStringRecord "a"] := by
  have hvalid := valid_showTable wireProst_fits mem_cons_self
  have hskips : SkipsOnly [0x00, 0x05] := .cons rfl .nil
  have hkind : MessageType.ofNat? 7 = none := rfl
  have hinsert := (readFile_insert_iff wireProst_fits hkind (by decide) (by decide)).mpr hskips
  exact ⟨hvalid, hskips, hinsert [tableOf wireProst "a"] [showTable wireProst] _ hvalid⟩

/-- A payload like a string table becomes the file's: the next record gets another name. -/
theorem readFile_insert_lookalike :
    MessageType.ofNat? 5 = none ∧
    readFile wireProst (file wireProst [tableOf wireProst "a", showTable wireProst]) =
      .ok [firstStringRecord "a"] ∧
    readFile wireProst (fileWith wireProst [tableOf wireProst "a"] 5
      (frame MessageType.stringTableV1.toNat (wireProst.stringTable.encode ["b"]))
      [showTable wireProst]) = .ok [firstStringRecord "b"] := by
  decide +kernel

end EbpfProfiler.SymbFile
