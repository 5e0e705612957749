import EbpfProfiler.SymbFile.ProstCodec
import EbpfProfiler.SymbFile.Serialize

/-!
# A file is read back

The output of the writer is read as the records that are done, its buffer stands for the others.
-/

namespace EbpfProfiler.SymbFile

open Lib List Except MessageType

variable {msg : BufferedMsg} {msgs : List BufferedMsg} {rs : List Record} {table : List String}
  {m m' : Mapper} {prev : Option U64} {prost : Prost} {r : Record} {w w' : Writer}

/-! ## Sequences of messages -/

def lastVa (prev : Option U64) (records : List Record) : Option U64 :=
  records.foldl (fun _ r => some r.elfVa) prev

lemma lastVa_append (prev : Option U64) (rs rs' : List Record) :
    lastVa prev (rs ++ rs') = lastVa (lastVa prev rs) rs' := foldl_append

lemma Record.elfVa_normalize (r : Record) : r.normalize.elfVa = r.elfVa := by
  cases r <;> rfl

lemma lastVa_normalize (prev : Option U64) (rs : List Record) :
    lastVa prev (rs.map Record.normalize) = lastVa prev rs := by
  rw [lastVa, lastVa, foldl_map]
  simp only [Record.elfVa_normalize]

/-- The records of messages that use one string table. -/
def deserializeAll (table : List String) : Option U64 → List BufferedMsg →
    Except Failure (List Record)
  | _, [] => .ok []
  | prev, msg :: msgs => do
    let r ← msg.deserialize ⟨table, prev⟩
    let rs ← deserializeAll table (some r.elfVa) msgs
    .ok (r :: rs)

lemma deserializeAll_append (h : deserializeAll table prev msgs = .ok rs)
    (hmsg : msg.deserialize ⟨table, lastVa prev rs⟩ = .ok r) :
    deserializeAll table prev (msgs ++ [msg]) = .ok (rs ++ [r]) := by
  induction msgs generalizing prev rs with
  | nil =>
    cases h
    show (msg.deserialize ⟨table, lastVa prev []⟩ >>= _) = _
    rw [hmsg]
    rfl
  | cons first msgs ih =>
    obtain ⟨r₁, hfirst, h⟩ := bind_eq_ok.mp h
    obtain ⟨rs₁, hrest, h⟩ := bind_eq_ok.mp h
    cases h
    rw [cons_append, deserializeAll, hfirst]
    show (deserializeAll table (some r₁.elfVa) (msgs ++ [msg]) >>= _) = _
    rw [ih hrest hmsg]
    rfl

lemma fixUpAll_spec {names : List String} (hindexed : ∀ msg ∈ msgs, msg.Indexed)
    (h : m.Serves names (msgs.flatMap BufferedMsg.refs)) :
    ∃ msgs' m', fixUpAll m msgs = .ok (msgs', m') ∧ m.table <+: m'.table ∧
      ∀ table prev, m'.table <+: table →
        deserializeAll table prev msgs' = deserializeAll names prev msgs := by
  induction msgs generalizing m with
  | nil => exact ⟨[], m, rfl, prefix_refl _, fun _ _ _ => rfl⟩
  | cons msg msgs ih =>
    obtain ⟨msg', m₁, hfix₁, hserves, hprefix₁, -, hread₁⟩ :=
      fixUp_spec (hindexed msg mem_cons_self) h
    obtain ⟨msgs', m₂, hfix₂, hprefix₂, hread₂⟩ :=
      ih (fun msg hmsg => hindexed msg (mem_cons_of_mem _ hmsg)) hserves
    refine ⟨msg' :: msgs', m₂, ?_, hprefix₁.trans hprefix₂, fun table prev hprefix => ?_⟩
    · rw [fixUpAll, hfix₁]
      show (fixUpAll m₁ msgs >>= _) = _
      rw [hfix₂]
      rfl
    · rw [deserializeAll, deserializeAll, hread₁ table prev (hprefix₂.trans hprefix)]
      simp only [hread₂ table _ hprefix]

/-! ## What bytes are read as -/

/-- Bytes that are read as some records, whatever follows. -/
def Yields (prost : Prost) (ctx : Context) (body : List Byte) (rs : List Record)
    (ctx' : Context) : Prop :=
  ∀ rest, readAll prost ⟨ctx, body ++ rest⟩ = (readAll prost ⟨ctx', rest⟩).map (rs ++ ·)

section
variable {prost : Prost} {ctx ctx₁ ctx₂ : Context} {body body' : List Byte} {rs rs' : List Record}

lemma Yields.refl (ctx : Context) : Yields prost ctx [] [] ctx := by
  intro rest
  rw [nil_append]
  cases readAll prost ⟨ctx, rest⟩ <;> rfl

lemma Yields.trans (h : Yields prost ctx body rs ctx₁) (h' : Yields prost ctx₁ body' rs' ctx₂) :
    Yields prost ctx (body ++ body') (rs ++ rs') ctx₂ := by
  intro rest
  rw [append_assoc, h, h']
  cases readAll prost ⟨ctx₂, rest⟩ with
  | error e => rfl
  | ok rs'' => exact congrArg ok (append_assoc rs rs' rs'').symm

lemma Yields.of_skip (h : ∀ rest, step prost ⟨ctx, body ++ rest⟩ = .ok (.skip ⟨ctx₁, rest⟩)) :
    Yields prost ctx body [] ctx₁ := by
  intro rest
  rw [readAll_of_skip (h rest)]
  cases readAll prost ⟨ctx₁, rest⟩ <;> rfl

lemma Yields.of_record (h : ∀ rest, step prost ⟨ctx, body ++ rest⟩ = .ok (.record r ⟨ctx₁, rest⟩)) :
    Yields prost ctx body [r] ctx₁ := by
  intro rest
  exact readAll_of_record (h rest)

lemma Yields.readAll_append (h : Yields prost ctx body [] ctx₁) (rest : List Byte) :
    readAll prost ⟨ctx, body ++ rest⟩ = readAll prost ⟨ctx₁, rest⟩ := by
  rw [h]
  cases readAll prost ⟨ctx₁, rest⟩ <;> rfl

lemma Yields.readAll_eq (h : Yields prost ctx body rs ctx₁) :
    readAll prost ⟨ctx, body⟩ = .ok rs := by
  have hend := h []
  rw [append_nil] at hend
  rw [hend]
  exact congrArg ok (append_nil rs)

end

/-! ## Results that may be too big -/

/-- The bytes of a message of a file. -/
inductive Encoded (prost : Prost) : List Byte → Prop
  | header : Encoded prost (prost.header.encode ())
  | stringTable (table : List String) : Encoded prost (prost.stringTable.encode table)
  | range (raw : RangeV1) : Encoded prost (prost.range.encode raw)
  | returnPad (raw : ReturnPadV1) : Encoded prost (prost.returnPad.encode raw)

/-- A call that has a result with a property, or fails because a message is too big. -/
def SizeOr {α : Type} (prost : Prost) (P : α → Prop) : Except Failure α → Prop
  | .ok a => P a
  | .error e => ∃ payload, Encoded prost payload ∧ maxMsgSize < payload.length ∧
      e = .error (.maximumMsgSizeExceeded payload.length)

lemma SizeOr.bind {α β : Type} {P : α → Prop} {Q : β → Prop} {x : Except Failure α}
    {f : α → Except Failure β} (h : SizeOr prost P x) (hf : ∀ a, P a → SizeOr prost Q (f a)) :
    SizeOr prost Q (x >>= f) := by
  cases x with
  | error e => exact h
  | ok a => exact hf a h

lemma SizeOr.mono {α : Type} {P Q : α → Prop} {x : Except Failure α} (h : SizeOr prost P x)
    (hpq : ∀ a, P a → Q a) : SizeOr prost Q x := by
  cases x with
  | error e => exact h
  | ok a => exact hpq a h

lemma writeMsg_spec {payload : List Byte} (hpayload : Encoded prost payload) (out : List Byte)
    (kind : MessageType) : SizeOr prost
      (fun out' => payload.length ≤ maxMsgSize ∧ out' = out ++ frame kind.toNat payload)
      (writeMsg out kind payload) := by
  rw [writeMsg]
  split
  · next hbig => exact ⟨payload, hpayload, hbig, rfl⟩
  · exact ⟨by omega, rfl⟩

lemma writeBuffered_spec (h : msg.deserialize ⟨table, prev⟩ = .ok r) (out : List Byte) :
    SizeOr prost (fun out' => ∃ body, out' = out ++ body ∧
      Yields prost ⟨table, prev⟩ body [r] ⟨table, some r.elfVa⟩) (writeBuffered prost out msg) := by
  cases msg with
  | range raw =>
    obtain ⟨range, hrange, rfl⟩ := map_eq_ok.mp h
    refine (writeMsg_spec (.range raw) out .rangeV1).mono fun out' hout => ?_
    exact ⟨_, hout.2, .of_record fun rest => step_range hout.1 hrange rest⟩
  | returnPad raw =>
    obtain ⟨pad, hpad, rfl⟩ := map_eq_ok.mp h
    refine (writeMsg_spec (.returnPad raw) out .returnPadV1).mono fun out' hout => ?_
    exact ⟨_, hout.2, .of_record fun rest => step_returnPad hout.1 hpad rest⟩

lemma foldlM_writeBuffered_spec (h : deserializeAll table prev msgs = .ok rs) (out : List Byte) :
    SizeOr prost (fun out' => ∃ body, out' = out ++ body ∧
      Yields prost ⟨table, prev⟩ body rs ⟨table, lastVa prev rs⟩)
      (msgs.foldlM (writeBuffered prost) out) := by
  induction msgs generalizing prev rs out with
  | nil =>
    cases h
    exact ⟨[], (append_nil out).symm, .refl _⟩
  | cons msg msgs ih =>
    obtain ⟨r, hmsg, h⟩ := bind_eq_ok.mp h
    obtain ⟨rs, hrest, h⟩ := bind_eq_ok.mp h
    cases h
    refine (writeBuffered_spec hmsg out).bind fun out₁ hout₁ => ?_
    obtain ⟨body₁, rfl, hbody₁⟩ := hout₁
    refine (ih hrest (out ++ body₁)).mono fun out₂ hout₂ => ?_
    obtain ⟨body₂, rfl, hbody₂⟩ := hout₂
    exact ⟨body₁ ++ body₂, append_assoc _ _ _, hbody₁.trans hbody₂⟩

/-! ## The writer -/

def fileStart (prost : Prost) : List Byte :=
  fileMagic ++ frame header.toNat (prost.header.encode ())

/-- `done` is written and `pending` buffered; the builder has at most `n` names. -/
structure Writer.Holds (env : Platform) (w : Writer) (done pending : List Record)
    (names uses : List String) (n : ℕ) : Prop where
  out : ∃ body table, w.out = fileStart env.prost ++ body ∧
    Yields env.prost ⟨[], none⟩ body (done.map Record.normalize) ⟨table, lastVa none done⟩
  builder : w.stringTable.Shows names uses
  refs : (w.bufferedMsgs.flatMap BufferedMsg.refs).Perm (uses.map (tempIdx names))
  indexed : ∀ msg ∈ w.bufferedMsgs, msg.Indexed
  prev : w.prevElfVa = lastVa (lastVa none done) pending
  means : ∀ table, names <+: table → table.length ≤ 2 ^ 32 →
    deserializeAll table (lastVa none done) w.bufferedMsgs = .ok (pending.map Record.normalize)
  small : names.length ≤ n

section
variable {env : Platform} {w : Writer} {done pending : List Record}
  {names uses : List String} {n : ℕ}

lemma flushBufferedMsgs_spec (h : w.Holds env done pending names uses n) (hn : n ≤ 2 ^ 32) :
    SizeOr env.prost (fun w' => w'.Holds env (done ++ pending) [] [] [] 0)
      (flushBufferedMsgs env w) := by
  have hlen : names.length ≤ 2 ^ 32 := h.small.trans hn
  have hserves := h.builder.build_serves hlen (env.order w.flushes) h.refs
  obtain ⟨msgs, m, hfix, -, hread⟩ := fixUpAll_spec h.indexed hserves
  obtain ⟨body, table₀, hout, hyields⟩ := h.out
  have hmeans := (hread m.table (lastVa none done) (prefix_refl _)).trans
    (h.means names (prefix_refl _) hlen)
  rw [flushBufferedMsgs, hfix]
  refine (writeMsg_spec (.stringTable m.table) w.out .stringTableV1).bind fun out₁ hout₁ => ?_
  obtain ⟨hsize, rfl⟩ := hout₁
  refine (foldlM_writeBuffered_spec hmeans _).bind fun out₂ hout₂ => ?_
  obtain ⟨body₂, rfl, hbody₂⟩ := hout₂
  have htable : Yields env.prost ⟨table₀, lastVa none done⟩
      (frame stringTableV1.toNat (env.prost.stringTable.encode m.table)) []
      ⟨m.table, lastVa none done⟩ := .of_skip fun rest => step_stringTable _ hsize rest
  refine ⟨?_, Builder.shows_empty, .refl _, forall_mem_nil _, ?_, fun _ _ _ => rfl, le_rfl⟩
  · refine ⟨body ++ (frame stringTableV1.toNat (env.prost.stringTable.encode m.table) ++ body₂),
      m.table, ?_, ?_⟩
    · show w.out ++ _ ++ body₂ = _
      rw [hout, append_assoc, append_assoc]
    · have hall := hyields.trans (htable.trans hbody₂)
      rw [lastVa_normalize, ← lastVa_append] at hall
      rw [map_append]
      exact hall
  · show w.prevElfVa = _
    rw [h.prev, lastVa_append]
    rfl

lemma Record.length_strings_le (r : Record) : r.strings.length ≤ 3 + 2 * r.rows := by
  cases r with
  | range r =>
    have hfile : r.file.toList.length ≤ 1 := by cases r.file <;> simp
    have hcall : r.callFile.toList.length ≤ 1 := by cases r.callFile <;> simp
    rw [Record.strings, length_cons, length_append]
    omega
  | returnPad p =>
    have hlength : (p.entries.flatMap ReturnPadEntry.strings).length = 2 * p.entries.length := by
      induction p.entries with
      | nil => rfl
      | cons e entries ih =>
        rw [flatMap_cons, length_append, ih, length_cons]
        show 2 + 2 * entries.length = _
        omega
    show (p.entries.flatMap ReturnPadEntry.strings).length ≤ 3 + 2 * p.entries.length
    omega

lemma Writer.Holds.push (h : w.Holds env done pending names uses n) {names' : List String}
    (hser : Serialized w names uses r msg w' names') :
    ({ w' with bufferedMsgs := w'.bufferedMsgs ++ [msg] } : Writer).Holds env done
      (pending ++ [r]) names' (uses ++ r.strings) (n + r.strings.length) := by
  have hwriter := hser.writer
  have hmsgs : w'.bufferedMsgs = w.bufferedMsgs := by rw [hwriter]
  have hold : uses.map (tempIdx names') = uses.map (tempIdx names) := by
    apply map_congr_left
    intro s hs
    exact tempIdx_of_isPrefix hser.grows.isPrefix ((h.builder.mem_iff s).mpr hs)
  refine ⟨?_, hser.grows.builder, ?_, ?_, ?_, ?_, ?_⟩
  · have hout : w'.out = w.out := by rw [hwriter]
    show ∃ body table, w'.out = _ ∧ _
    rw [hout]
    exact h.out
  · show ((w'.bufferedMsgs ++ [msg]).flatMap BufferedMsg.refs).Perm _
    rw [hmsgs, flatMap_append, flatMap_singleton, map_append, hold]
    exact h.refs.append hser.refs
  · show ∀ msg' ∈ w'.bufferedMsgs ++ [msg], msg'.Indexed
    rw [hmsgs, forall_mem_append]
    exact ⟨h.indexed, by simpa using hser.indexed⟩
  · show w'.prevElfVa = _
    rw [hwriter, lastVa_append]
    rfl
  · intro table hprefix hlen
    have hbefore := h.means table (hser.grows.isPrefix.trans hprefix) hlen
    have hmsg := hser.means table hprefix hlen
    show deserializeAll table _ (w'.bufferedMsgs ++ [msg]) = _
    rw [hmsgs, map_append]
    apply deserializeAll_append hbefore
    rw [lastVa_normalize, ← h.prev]
    exact hmsg
  · have hgrow := hser.grows.length
    have hsmall := h.small
    omega

section
variable (h : w.Holds env done pending names uses stringTableSizeFlushThresh)
include h

/-- A `write` buffers the record, or writes out all of them. -/
lemma write_spec (hsorted : r.Sorted) (hrows : r.rows ≤ maxMsgSize) :
    SizeOr env.prost (fun w' => ∃ done' pending' names' uses',
      done' ++ pending' = done ++ pending ++ [r] ∧
      w'.Holds env done' pending' names' uses' stringTableSizeFlushThresh) (write env w r) := by
  obtain ⟨msg, w₁, names₁, hserialize, hser⟩ := serialize_spec h.builder hsorted
  have hpush := h.push hser
  have hstrings := r.length_strings_le
  rw [write, hserialize]
  show SizeOr _ _
    (if mustFlush env { w₁ with bufferedMsgs := w₁.bufferedMsgs ++ [msg] } then _ else _)
  split
  · -- too many strings or messages: everything is written out
    refine (flushBufferedMsgs_spec hpush ?_).mono fun w' hw' => ?_
    · unfold stringTableSizeFlushThresh maxMsgSize at *
      omega
    · refine ⟨_, [], [], [], ?_, { hw' with small := Nat.zero_le _ }⟩
      rw [append_nil, append_assoc]
  · next hflush =>
    rw [mustFlush, Bool.or_eq_true, not_or] at hflush
    have hestimate : w₁.stringTable.sizeEstimate < stringTableSizeFlushThresh := by
      simpa using hflush.1
    have hsize := hser.grows.builder.size
    refine ⟨done, pending ++ [r], names₁, _, (append_assoc _ _ _).symm, { hpush with small := ?_ }⟩
    omega

lemma foldlM_write_spec (hsorted : ∀ r ∈ rs, r.Sorted) (hrows : ∀ r ∈ rs, r.rows ≤ maxMsgSize) :
    SizeOr env.prost (fun w' => ∃ done' pending' names' uses',
      done' ++ pending' = done ++ pending ++ rs ∧
      w'.Holds env done' pending' names' uses' stringTableSizeFlushThresh)
        (rs.foldlM (write env) w) := by
  induction rs generalizing w done pending names uses with
  | nil => exact ⟨done, pending, names, uses, (append_nil _).symm, h⟩
  | cons r rs ih =>
    refine (write_spec h (hsorted r mem_cons_self) (hrows r mem_cons_self)).bind ?_
    intro w₁ hw₁
    obtain ⟨done₁, pending₁, names₁, uses₁, hsplit, hholds⟩ := hw₁
    refine (ih hholds (fun r' hr' => hsorted r' (mem_cons_of_mem _ hr'))
      fun r' hr' => hrows r' (mem_cons_of_mem _ hr')).mono ?_
    intro w₂ hw₂
    obtain ⟨done₂, pending₂, names₂, uses₂, hsplit₂, hholds₂⟩ := hw₂
    refine ⟨done₂, pending₂, names₂, uses₂, ?_, hholds₂⟩
    rw [hsplit₂, hsplit, append_assoc, singleton_append]

end

lemma Writer.new_spec (env : Platform) :
    SizeOr env.prost (fun w => (env.prost.header.encode ()).length ≤ maxMsgSize ∧
      w.Holds env [] [] [] [] stringTableSizeFlushThresh) (Writer.new env) := by
  refine (writeMsg_spec .header fileMagic .header).bind fun out hout => ?_
  obtain ⟨hsize, rfl⟩ := hout
  refine ⟨hsize, ⟨[], [], (append_nil _).symm, .refl _⟩, Builder.shows_empty, .refl _,
    forall_mem_nil _, rfl, fun _ _ _ => rfl, Nat.zero_le _⟩

end

lemma readFile_fileStart (hsize : (prost.header.encode ()).length ≤ maxMsgSize) (body : List Byte) :
    readFile prost (fileStart prost ++ body) = readAll prost ⟨⟨[], none⟩, body⟩ := by
  have hnew : Reader.new prost (fileStart prost ++ body) = .ok ⟨⟨[], none⟩, body⟩ := by
    rw [Reader.new, fileStart, append_assoc, drop_left, readMsgPrefix_frame (by decide) hsize]
    show (if some header ≠ some header then
      (error (.error (.unexpectedType .header (some .header))) : Except Failure Reader)
      else readMsg prost.header _ _ >>= _) = _
    rw [readMsg_encode]
    rfl
  rw [readFile, hnew]
  rfl

/-- A file that could be written is read back. -/
lemma writeFile_spec (env : Platform) {records : List Record} (hsorted : ∀ r ∈ records, r.Sorted)
    (hrows : ∀ r ∈ records, r.rows ≤ maxMsgSize) :
    SizeOr env.prost (fun bytes => readFile env.prost bytes = .ok (records.map Record.normalize))
      (writeFile env records) := by
  refine (Writer.new_spec env).bind fun w hw => ?_
  obtain ⟨hsize, hholds⟩ := hw
  refine (foldlM_write_spec hholds hsorted hrows).bind fun w₁ hw₁ => ?_
  obtain ⟨done, pending, names, uses, hsplit, hholds₁⟩ := hw₁
  refine (flushBufferedMsgs_spec hholds₁ (by decide)).bind fun w₂ hw₂ => ?_
  obtain ⟨body, table, hout, hyields⟩ := hw₂.out
  show readFile env.prost w₂.out = _
  rw [hout, readFile_fileStart hsize, hyields.readAll_eq, hsplit]
  rfl

/-! ## Return pads that are too big -/

section
variable {env : Platform}

lemma length_func_serializeEntries (b : Builder) (entries : List ReturnPadEntry) :
    (serializeEntries b entries).1.func.length = entries.length := by
  induction entries generalizing b with
  | nil => rfl
  | cons e entries ih =>
    rw [serializeEntries]
    rw [length_cons, length_cons, ih]

lemma serialize_rows (h : serialize w r = .ok (msg, w')) :
    msg.rows = r.rows ∧ w'.bufferedMsgs = w.bufferedMsgs := by
  cases r with
  | range r =>
    obtain ⟨res, hres, h⟩ := map_eq_ok.mp h
    obtain ⟨lt, -, hres⟩ := bind_eq_ok.mp hres
    cases hres
    cases h
    exact ⟨rfl, rfl⟩
  | returnPad p =>
    cases h
    exact ⟨length_func_serializeEntries _ _, rfl⟩

lemma fixUpColumn_length {column column' : List U32}
    (h : fixUpColumn m column = .ok (column', m')) : column'.length = column.length := by
  induction column generalizing m column' with
  | nil =>
    cases h
    rfl
  | cons i column ih =>
    obtain ⟨first, -, h⟩ := bind_eq_ok.mp h
    obtain ⟨rest, hrest, h⟩ := bind_eq_ok.mp h
    cases h
    rw [length_cons, length_cons, ih hrest]

lemma fixUp_rows {msg' : BufferedMsg} (h : fixUp m msg = .ok (msg', m')) :
    msg'.rows = msg.rows := by
  cases msg with
  | range r =>
    obtain ⟨res, -, h⟩ := map_eq_ok.mp h
    cases h
    rfl
  | returnPad p =>
    obtain ⟨res, hres, h⟩ := map_eq_ok.mp h
    obtain ⟨func, hfunc, hres⟩ := bind_eq_ok.mp hres
    obtain ⟨file, -, hres⟩ := bind_eq_ok.mp hres
    cases hres
    cases h
    exact fixUpColumn_length hfunc

open BufferedMsg

lemma fixUpAll_rows {msgs' : List BufferedMsg} (h : fixUpAll m msgs = .ok (msgs', m')) :
    msgs'.map rows = msgs.map rows := by
  induction msgs generalizing m msgs' with
  | nil =>
    cases h
    rfl
  | cons msg msgs ih =>
    obtain ⟨first, hfirst, h⟩ := bind_eq_ok.mp h
    obtain ⟨rest, hrest, h⟩ := bind_eq_ok.mp h
    cases h
    rw [map_cons, map_cons, ih hrest, fixUp_rows hfirst]

lemma rows_le_of_foldlM {out out' : List Byte}
    (h : msgs.foldlM (writeBuffered prost) out = .ok out') :
    ∀ k ∈ msgs.map rows, k ≤ maxMsgSize := by
  induction msgs generalizing out with
  | nil => exact forall_mem_nil _
  | cons msg msgs ih =>
    obtain ⟨out₁, hfirst, h⟩ := bind_eq_ok.mp h
    rw [map_cons, forall_mem_cons]
    refine ⟨?_, ih h⟩
    cases msg with
    | range r => exact Nat.zero_le _
    | returnPad p =>
      have hle := prost.length_func_le p
      rw [writeBuffered, writeMsg] at hfirst
      split at hfirst
      · cases hfirst
      · show p.func.length ≤ maxMsgSize
        omega

lemma rows_le_of_flush (h : flushBufferedMsgs env w = .ok w') :
    (∀ k ∈ w.bufferedMsgs.map rows, k ≤ maxMsgSize) ∧ w'.bufferedMsgs = [] := by
  obtain ⟨res, hfix, h⟩ := bind_eq_ok.mp h
  obtain ⟨out₁, -, h⟩ := bind_eq_ok.mp h
  obtain ⟨out₂, hout₂, h⟩ := bind_eq_ok.mp h
  cases h
  exact ⟨fixUpAll_rows hfix ▸ rows_le_of_foldlM hout₂, rfl⟩

lemma rows_le_of_foldlM_write (h : rs.foldlM (write env) w = .ok w') {w'' : Writer}
    (hflush : flushBufferedMsgs env w' = .ok w'') :
    (∀ k ∈ w.bufferedMsgs.map rows, k ≤ maxMsgSize) ∧ ∀ r ∈ rs, r.rows ≤ maxMsgSize := by
  induction rs generalizing w with
  | nil =>
    cases h
    exact ⟨(rows_le_of_flush hflush).1, forall_mem_nil _⟩
  | cons r rs ih =>
    obtain ⟨w₁, hwrite, h⟩ := bind_eq_ok.mp h
    obtain ⟨hbuffered, hrest⟩ := ih h
    obtain ⟨res, hserialize, hwrite⟩ := bind_eq_ok.mp hwrite
    obtain ⟨hrows, hmsgs⟩ := serialize_rows hserialize
    -- the rows of the messages that are buffered when the flush is decided
    have hall : ∀ k ∈ (w.bufferedMsgs ++ [res.1]).map rows, k ≤ maxMsgSize := by
      rw [← hmsgs]
      replace hwrite :
        (if mustFlush env { res.2 with bufferedMsgs := res.2.bufferedMsgs ++ [res.1] } then _
        else _) = _ := hwrite
      split at hwrite
      · exact (rows_le_of_flush hwrite).1
      · cases hwrite
        exact hbuffered
    rw [map_append, forall_mem_append] at hall
    refine ⟨hall.1, forall_mem_cons.mpr ⟨?_, hrest⟩⟩
    rw [← hrows]
    exact hall.2 _ (by simp)

end

/-! ## The round trip -/

/-- A written file is read back, except that a line zero and an empty file name of a return pad are
none. Writing fails only for a message that is too big. -/
theorem readFile_writeFile (env : Platform) {records : List Record}
    (hsorted : ∀ r ∈ records, r.Sorted) :
    (∀ bytes, writeFile env records = .ok bytes →
      readFile env.prost bytes = .ok (records.map Record.normalize)) ∧
    ((∀ r ∈ records, r.rows ≤ maxMsgSize) → ∀ e, writeFile env records = .error e →
      ∃ payload, Encoded env.prost payload ∧ maxMsgSize < payload.length ∧
        e = .error (.maximumMsgSizeExceeded payload.length)) := by
  constructor
  · intro bytes hwrite
    have hrows : ∀ r ∈ records, r.rows ≤ maxMsgSize := by
      obtain ⟨w, -, h⟩ := bind_eq_ok.mp hwrite
      obtain ⟨w₁, hwrite₁, h⟩ := bind_eq_ok.mp h
      obtain ⟨w₂, hflush, -⟩ := bind_eq_ok.mp h
      exact (rows_le_of_foldlM_write hwrite₁ hflush).2
    have hspec := writeFile_spec env hsorted hrows
    rw [hwrite] at hspec
    exact hspec
  · intro hrows e hwrite
    have hspec := writeFile_spec env hsorted hrows
    rw [hwrite] at hspec
    exact hspec

def wirePlatform : Platform where
  prost := wireProst
  order := fun _ => ⟨id, fun _ => .refl _⟩
  bufferedMsgSize := 200

/-- A range and a return pad that lies more than `2 ^ 63` below it and uses its name. -/
def jumpBack : List Record :=
  [.range ⟨0xffff000000000000, 16, "main", some "a.c", none, some 0, 0, [⟨0, 7⟩, ⟨4, 9⟩]⟩,
    .returnPad ⟨0x1000, [⟨"main", some "", some 3⟩]⟩]

theorem readFile_writeFile_jumpBack : ∃ bytes, writeFile wirePlatform jumpBack = .ok bytes ∧
    readFile wireProst bytes =
      .ok [.range ⟨0xffff000000000000, 16, "main", some "a.c", none, none, 0, [⟨0, 7⟩, ⟨4, 9⟩]⟩,
        .returnPad ⟨0x1000, [⟨"main", none, some 3⟩]⟩] := by
  have hsome : (writeFile wirePlatform jumpBack).toOption.isSome = true := by decide +kernel
  cases hwrite : writeFile wirePlatform jumpBack with
  | error e =>
    rw [hwrite] at hsome
    cases hsome
  | ok bytes =>
    have hsorted : ∀ r ∈ jumpBack, r.Sorted := by decide
    exact ⟨bytes, rfl, (readFile_writeFile wirePlatform hsorted).1 bytes hwrite⟩

end EbpfProfiler.SymbFile
