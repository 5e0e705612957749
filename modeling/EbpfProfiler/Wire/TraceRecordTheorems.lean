import EbpfProfiler.Wire.TraceWriterTheorems

/-!
# Every record that is sent is loaded

The reader finds each section where it stands, and skips those whose end is zero.
-/

namespace EbpfProfiler.Wire

open Lib List Nat

variable {info : TraceMeta} {script : TraceScript}

/-! ## Reading labels -/

lemma cString_append_zero (a r : List Byte) : cString (a ++ 0 :: r) = cString a := by
  induction a with
  | nil => rfl
  | cons b a ih =>
    rw [cons_append, cString, cString, takeWhile_cons, takeWhile_cons]
    split
    · rw [← cString, ← cString, ih]
    · rfl

lemma cString_of_isPrefix {a bs : List Byte} (h : a ++ [0] <+: bs) {n : ℕ} (hn : a.length < n) :
    cString (bs.take n) = cString a := by
  obtain ⟨r, rfl⟩ := h
  have htake : ((a ++ [0]) ++ r).take n = a ++ 0 :: r.take (n - (a.length + 1)) := by
    have hlen : (a ++ [0]).length = a.length + 1 := by rw [length_append]; rfl
    rw [take_append, hlen, take_of_length_le (by omega), append_assoc]
    rfl
  rw [htake, cString_append_zero]

variable {labels : List (List Byte × List Byte)} {new : List (List Byte)}

lemma length_flatten_labels (h : List.Forall₂ LabelBytes labels new) :
    new.flatten.length = golangLabelSize * labels.length := by
  induction h with
  | nil => rfl
  | cons hlabel _ ih =>
    rw [flatten_cons, length_append, ih, hlabel.length, length_cons, mul_succ, add_comm]

lemma golangLabels_flatten (h : List.Forall₂ LabelBytes labels new) :
    golangLabels labels.length new.flatten =
      labels.map fun l => (cString (l.1.take 15), cString (l.2.take 47)) := by
  induction h with
  | nil => rfl
  | @cons l bs labels new hlabel _ ih =>
    have hlen := hlabel.length
    rw [golangLabelSize] at hlen
    have hkey : cString ((bs ++ new.flatten).take 16) = cString (l.1.take 15) := by
      rw [take_append_of_le_length (by omega)]
      exact cString_of_isPrefix hlabel.key (by rw [length_take]; omega)
    have hval : cString (((bs ++ new.flatten).drop 16).take 48) = cString (l.2.take 47) := by
      rw [drop_append_of_le_length (by omega),
        take_append_of_le_length (by rw [length_drop]; omega)]
      exact cString_of_isPrefix hlabel.val (by rw [length_take]; omega)
    rw [length_cons, golangLabels, flatten_cons, hkey, hval, drop_left' hlen, ih, map_cons]

/-! ## The header -/

def BpfTrace.headerFront (t : BpfTrace) : List Byte :=
  leBytes 4 t.info.pid.toNat ++ leBytes 4 t.info.tid.toNat ++ leBytes 8 t.info.ktime.toNat ++
    t.info.comm.toList ++ t.info.spanID.toList ++ t.info.traceID.toList ++
    leBytes 4 t.info.cpuID.toNat

def BpfTrace.headerEnds (t : BpfTrace) : List ℕ :=
  [t.contextValueEnd, t.kernelFrameEnd, t.frameDataEnd, t.threadLabelEnd, t.golangLabelEnd,
    t.variableDataEnd, t.numFrames, t.info.origin.toNat]

lemma BpfTrace.header_eq (t : BpfTrace) :
    t.header = t.headerFront ++ (t.headerEnds.flatMap (leBytes 2) ++ t.info.padding.toList) := by
  simp only [header, headerFront, headerEnds, flatMap_cons, flatMap_nil, append_nil, append_assoc]

lemma BpfTrace.length_headerFront (t : BpfTrace) : t.headerFront.length = 60 := by
  simp [headerFront]

lemma BpfTrace.length_header (t : BpfTrace) : t.header.length = traceHeaderSize := by
  simp [header, traceHeaderSize]

lemma BpfTrace.field_header (t : BpfTrace) (rest : List Byte) {i : ℕ}
    (hi : i < t.headerEnds.length) :
    field (t.header ++ rest) (60 + 2 * i) 2 = t.headerEnds[i] % 2 ^ 16 := by
  have h := slice_numbers t.headerFront 2 t.headerEnds (t.info.padding.toList ++ rest) hi
  rw [t.length_headerFront] at h
  rw [field, t.header_eq, append_assoc, append_assoc, h, leNat_leBytes]
  rfl

/-! ## Reading sections -/

lemma decodeBytes_last (pre bs : List Byte) (dst : ℕ) {«end» : ℕ}
    (hend : («end» = 0 ∧ bs = []) ∨ «end» = pre.length + bs.length) (name : String) :
    ∃ vd, (⟨pre ++ bs, dst, pre.length⟩ : VariableDataDecoder).decodeBytes «end» name =
      .ok (bs, vd) := by
  rw [VariableDataDecoder.decodeBytes]
  split
  · next hzero =>
    have hnil : bs = [] := hend.elim And.right fun h => length_eq_zero_iff.mp (by omega)
    exact ⟨_, by rw [hnil]⟩
  next hne =>
  have hend : «end» = pre.length + bs.length := hend.resolve_left fun h => hne h.1
  have hlen : (pre ++ bs).length = pre.length + bs.length := length_append
  have hslice := slice_middle pre bs []
  rw [append_nil] at hslice
  dsimp only
  rw [if_neg (by omega), hend, hslice]
  exact ⟨_, rfl⟩

lemma copyUint64_section (raw pre : List Byte) (ws : List Word) (post : List Byte)
    (hraw : raw = pre ++ (ws.flatMap wordBytes ++ post)) (hsmall : raw.length < 2 ^ 16)
    {before dst «end» : ℕ} (hpre : pre.length = 8 * before) (hend : SectionEnd «end» before ws)
    (hdst : ws.length ≤ dst) (name : String) :
    (⟨raw, dst, 8 * before⟩ : VariableDataDecoder).copyUint64 «end» name =
      .ok (ws, ⟨raw, dst - ws.length, 8 * (before + ws.length)⟩) := by
  have hbytes := length_flatMap_wordBytes ws
  have hlen : raw.length = 8 * before + (8 * ws.length + post.length) := by
    rw [hraw, length_append, length_append, hbytes, hpre]
  have hslice : slice raw (8 * before) (8 * before + 8 * ws.length) = ws.flatMap wordBytes := by
    have hmiddle := slice_middle pre (ws.flatMap wordBytes) post
    rwa [hbytes, hpre, ← hraw] at hmiddle
  rw [VariableDataDecoder.copyUint64, VariableDataDecoder.decodeBytes]
  by_cases hzero : «end» = 0
  · -- The section is absent, or it is empty and nothing is in front of it.
    have hnil : ws = [] := hend.elim And.right fun h => length_eq_zero_iff.mp (by omega)
    rw [if_pos hzero, hnil]
    rfl
  · have hend : «end» = 8 * before + 8 * ws.length := by
      have := hend.resolve_left fun h => hzero h.1
      omega
    have hround : (8 * before + 8 * ws.length + 7) / 8 * 8 % 2 ^ 16 = 8 * (before + ws.length) := by
      omega
    dsimp only
    rw [if_neg hzero, if_neg (by omega), hend, hslice, hround]
    dsimp only
    rw [hbytes, Nat.mul_div_cancel_left _ (by decide), if_neg (by omega), readWords_flatMap]

/-! ## The record -/

/-- A trace as it is sent: its sections of words and the bytes of its labels. -/
structure Complete (t : BpfTrace) (info : TraceMeta) (ctx kern frames : List Word)
    (labels : List Byte) : Prop where
  holds : t.Holds ((ctx ++ kern ++ frames).flatMap wordBytes ++ labels)
  ctxEnd : SectionEnd t.contextValueEnd 0 ctx
  kernEnd : SectionEnd t.kernelFrameEnd ctx.length kern
  frameEnd : SectionEnd t.frameDataEnd (ctx.length + kern.length) frames
  threadEnd : t.threadLabelEnd = 0
  golangEnd : (t.golangLabelEnd = 0 ∧ labels = []) ∨
    t.golangLabelEnd = 8 * (ctx.length + kern.length + frames.length) + labels.length
  numFrames_lt : t.numFrames < 2 ^ 16
  wordsFit : ctx.length + kern.length + frames.length ≤ 3072
  labelsFit : labels.length ≤ maxFrameTrailerDataSize
  info_eq : t.info = info

section Complete

variable {t : BpfTrace} {info : TraceMeta} {ctx kern frames : List Word} {labels : List Byte}

section
variable (h : Complete t info ctx kern frames labels)
include h

lemma Complete.variableDataEnd_eq :
    t.variableDataEnd = 8 * (ctx.length + kern.length + frames.length) + labels.length := by
  rw [h.holds.size, length_append, length_sections]

lemma Complete.headerEnds_lt : ∀ x ∈ t.headerEnds, x < 2 ^ 16 := by
  have hwords := h.wordsFit
  have hlabels := h.labelsFit
  rw [maxFrameTrailerDataSize, golangLabelSize, maxGoLabels] at hlabels
  have hsection {«end» before : ℕ} {ws : List Word} (hend : SectionEnd «end» before ws)
      (hle : before + ws.length ≤ 3072) : «end» < 2 ^ 16 := by
    rcases hend with ⟨hend, -⟩ | hend <;> omega
  have hctx := hsection h.ctxEnd (by omega)
  have hkern := hsection h.kernEnd (by omega)
  have hframe := hsection h.frameEnd (by omega)
  have hthread := h.threadEnd
  have hgolang := h.golangEnd
  have hvariable := h.variableDataEnd_eq
  have hcount := h.numFrames_lt
  intro x hx
  simp only [BpfTrace.headerEnds, mem_cons, not_mem_nil, or_false] at hx
  omega

lemma Complete.field_eq (rest : List Byte) {i : ℕ} (hi : i < t.headerEnds.length) :
    field (t.header ++ rest) (60 + 2 * i) 2 = t.headerEnds[i] := by
  rw [t.field_header rest hi, mod_eq_of_lt (h.headerEnds_lt _ (getElem_mem hi))]

lemma Complete.sendTrace_eq :
    t.sendTrace = t.header ++ ((ctx ++ kern ++ frames).flatMap wordBytes ++ labels) := by
  have hend := h.variableDataEnd_eq
  have hwords := h.wordsFit
  have hlabels := h.labelsFit
  have hsize : min (traceHeaderSize + t.variableDataEnd) (traceHeaderSize + variableDataSize) -
      traceHeaderSize = t.variableDataEnd := by
    rw [variableDataSize, maxFrameDataSize]
    omega
  rw [BpfTrace.sendTrace, hsize, h.holds.size, h.holds.bytes]

/-- The decoder finds each section behind the one before it. -/
lemma Complete.loadSections (rest : List Byte) : ∃ trace, Wire.loadSections (t.header ++ rest)
        ⟨(ctx ++ kern ++ frames).flatMap wordBytes ++ labels, 3072, 0⟩ = .ok trace ∧
      trace.contextValues = ctx ∧ trace.kernelFrames = kern ∧ trace.frameData = frames ∧
      trace.golangLabelData = labels := by
  let body := (ctx ++ kern ++ frames).flatMap wordBytes ++ labels
  have hwords := h.wordsFit
  have hsmall : body.length < 2 ^ 16 := by
    have hlabels := h.labelsFit
    rw [maxFrameTrailerDataSize, golangLabelSize, maxGoLabels] at hlabels
    rw [length_append, length_sections]
    omega
  have hctxEnd : field (t.header ++ rest) 60 2 = t.contextValueEnd :=
    h.field_eq rest (i := 0) (by decide : 0 < 8)
  have hkernEnd : field (t.header ++ rest) 62 2 = t.kernelFrameEnd :=
    h.field_eq rest (i := 1) (by decide : 1 < 8)
  have hframeEnd : field (t.header ++ rest) 64 2 = t.frameDataEnd :=
    h.field_eq rest (i := 2) (by decide : 2 < 8)
  have hthreadEnd : field (t.header ++ rest) 66 2 = t.threadLabelEnd :=
    h.field_eq rest (i := 3) (by decide : 3 < 8)
  have hgolangEnd : field (t.header ++ rest) 68 2 = t.golangLabelEnd :=
    h.field_eq rest (i := 4) (by decide : 4 < 8)
  have hctx := copyUint64_section body [] ctx ((kern ++ frames).flatMap wordBytes ++ labels)
    (by simp [body]) hsmall rfl h.ctxEnd (by omega : _ ≤ 3072) "context value"
  have hkern := copyUint64_section body (ctx.flatMap wordBytes) kern
    (frames.flatMap wordBytes ++ labels) (by simp [body]) hsmall (length_flatMap_wordBytes ctx)
    h.kernEnd (by omega : _ ≤ 3072 - ctx.length) "kernel_frame"
  have hframe := copyUint64_section body ((ctx ++ kern).flatMap wordBytes) frames labels
    (by simp [body]) hsmall (by rw [length_flatMap_wordBytes, length_append]) h.frameEnd
    (by omega : _ ≤ 3072 - ctx.length - kern.length) "frame"
  obtain ⟨vd, hgolang⟩ := decodeBytes_last ((ctx ++ kern ++ frames).flatMap wordBytes) labels
    (3072 - ctx.length - kern.length - frames.length)
    (h.golangEnd.imp_right fun hend => by rw [hend, length_sections]) "golang label"
  rw [zero_add] at hctx
  rw [length_sections] at hgolang
  rw [Wire.loadSections, hctxEnd, hkernEnd, hframeEnd, hthreadEnd, h.threadEnd, hgolangEnd, hctx]
  simp only [bind, Except.bind, hkern, hframe]
  rw [VariableDataDecoder.decodeBytes, if_pos rfl]
  dsimp only
  rw [hgolang]
  exact ⟨_, rfl, rfl, rfl, rfl, rfl⟩

lemma Complete.load (padding : List Byte) {knownOrigin : ℕ → Bool}
    (horigin : knownOrigin info.origin.toNat) :
    ∃ trace, loadBpfTrace knownOrigin (t.sendTrace ++ padding) = .ok trace ∧
      trace.contextValues = ctx ∧ trace.kernelFrames = kern ∧ trace.frameData = frames ∧
      trace.golangLabelData = labels := by
  let body := (ctx ++ kern ++ frames).flatMap wordBytes ++ labels
  have hbody : body.length = t.variableDataEnd := h.holds.size.symm
  have hraw : t.sendTrace ++ padding = t.header ++ (body ++ padding) := by
    rw [h.sendTrace_eq, append_assoc]
  have hvariableEnd : field (t.header ++ (body ++ padding)) 70 2 = t.variableDataEnd :=
    h.field_eq (body ++ padding) (i := 5) (by decide : 5 < 8)
  have hknown : field (t.header ++ (body ++ padding)) 74 2 = info.origin.toNat := by
    rw [← h.info_eq]
    exact h.field_eq (body ++ padding) (i := 7) (by decide : 7 < 8)
  have hsize : (t.header ++ (body ++ padding)).length =
      traceHeaderSize + (t.variableDataEnd + padding.length) := by
    rw [length_append, length_append, t.length_header, hbody]
  have hslice : slice (t.header ++ (body ++ padding)) traceHeaderSize
      (traceHeaderSize + t.variableDataEnd) = body := by
    have hmiddle := slice_middle t.header body padding
    rwa [t.length_header, hbody] at hmiddle
  rw [loadBpfTrace, hraw]
  rw [if_neg (by omega), hvariableEnd, if_neg (by omega), hknown, if_pos horigin, hslice]
  exact h.loadSections (body ++ padding)

end

end Complete

lemma Stage.complete {t : BpfTrace} {ctx kern frames : List Word} (h : Stage t info ctx kern frames)
    (hfit : ctx.length + kern.length + frames.length ≤ 3072) :
    Complete { (t.endVariableData 8).2 with frameDataEnd := (t.endVariableData 8).1 } info ctx kern
      frames [] where
  holds := by
    rw [append_nil]
    exact ⟨h.holds.size, h.holds.bytes⟩
  ctxEnd := h.ctxEnd
  kernEnd := h.kernEnd
  frameEnd := .inr (h.holds.size.trans (length_sections ctx kern frames))
  threadEnd := h.threadEnd
  golangEnd := .inl ⟨h.golangEnd, rfl⟩
  numFrames_lt := h.numFrames_lt
  wordsFit := hfit
  labelsFit := zero_le _
  info_eq := h.info_eq

/-! ## A whole trace -/

/-- A `u8` of context values, `PERF_MAX_STACK_DEPTH` addresses and `MAX_GO_LABELS` labels. -/
structure TraceScript.Allowed (script : TraceScript) : Prop where
  contextValues : (script.contextValues.getD []).length < 2 ^ 8
  kernelFrames : (script.kernelFrames.getD []).length ≤ perfMaxStackDepth
  frames : ∀ p ∈ script.frames, p.Allowed
  labels : (script.labels.getD []).length ≤ maxGoLabels

def TraceScript.pushes (script : TraceScript) (error : Word) : List FramePush :=
  fitting (3071 - (script.contextValues.getD []).length - (script.kernelFrames.getD []).length)
    script.frames ++ if error = 0 then [] else [⟨frameMarkerUnknown, frameFlagError, error, []⟩]

lemma Complete.addLabels {t : BpfTrace} {ctx kern frames : List Word}
    (h : Complete t info ctx kern frames []) (hs : script.Allowed) :
    ∃ new, Complete (script.addLabels t) info ctx kern frames new.flatten ∧
      List.Forall₂ LabelBytes (readable (script.labels.getD [])) new := by
  have hlen := hs.labels
  rw [TraceScript.addLabels]
  cases hlabels : script.labels with
  | none => exact ⟨[], h, .nil⟩
  | some labels =>
    rw [hlabels, Option.getD_some, maxGoLabels] at hlen
    have hwords := h.wordsFit
    have hholds := h.holds
    rw [append_nil] at hholds
    obtain ⟨new, ⟨mem, «end», hsame⟩, hnew, hread⟩ := hholds.golabelsPush labels (by
      rw [length_sections, variableDataSize, maxFrameDataSize, maxFrameTrailerDataSize,
        golangLabelSize, maxGoLabels]
      omega)
    have hsize := hnew.size
    rw [length_append, length_sections] at hsize
    have hfit : new.flatten.length ≤ maxFrameTrailerDataSize := by
      have hle := length_readable_le labels
      rw [length_flatten_labels hread, maxFrameTrailerDataSize, golangLabelSize, maxGoLabels]
      omega
    refine ⟨new, ?_, hread⟩
    dsimp only
    rw [hsame] at hnew hsize ⊢
    exact ⟨⟨hnew.size, hnew.bytes⟩, h.ctxEnd, h.kernEnd, h.frameEnd, h.threadEnd, .inr hsize,
      h.numFrames_lt, hwords, hfit, h.info_eq⟩

lemma pushWords_append (ps qs : List FramePush) :
    pushWords (ps ++ qs) = pushWords ps ++ pushWords qs := by
  rw [pushWords, map_append, flatMap_append, ← pushWords, ← pushWords]

lemma TraceScript.Allowed.collect (hs : script.Allowed) (info : TraceMeta) (mem : Memory) :
    Stage (script.collect (pristine info mem)) info (script.contextValues.getD [])
      (script.kernelFrames.getD []) (pushWords (fitting (3071 -
        (script.contextValues.getD []).length - (script.kernelFrames.getD []).length)
        script.frames)) := by
  have hvalues := hs.contextValues
  have haddresses := hs.kernelFrames
  have hctx : Stage (script.contextValues.elim (pristine info mem)
      (pristine info mem).pushContextValues) info (script.contextValues.getD []) [] [] := by
    cases hcase : script.contextValues with
    | none => exact stage_pristine info mem
    | some values =>
      rw [hcase] at hvalues
      exact (stage_pristine info mem).pushContextValues (le_of_lt_succ hvalues)
  have hkern {t : BpfTrace} (h : Stage t info (script.contextValues.getD []) [] []) :
      Stage (script.kernelFrames.elim t t.pushKernelFrames) info (script.contextValues.getD [])
        (script.kernelFrames.getD []) [] := by
    cases hcase : script.kernelFrames with
    | none => exact h
    | some addresses =>
      rw [hcase] at haddresses
      exact h.pushKernelFrames (le_of_lt_succ hvalues) haddresses
  rw [perfMaxStackDepth] at haddresses
  exact (hkern hctx).pushFrames hs.frames _ (by rw [length_nil]; omega)

lemma TraceScript.Allowed.unwindStop (hs : script.Allowed) {mem : Memory} {record : List Byte}
    (hsent : script.emit info mem = some record) : ∃ t new, record = t.sendTrace ∧
      Complete t info (script.contextValues.getD []) (script.kernelFrames.getD [])
        (pushWords (script.pushes (script.stopError (script.collect (pristine info mem)))))
        (List.flatten new) ∧
      List.Forall₂ LabelBytes (readable (script.labels.getD [])) new := by
  have hstage := hs.collect info mem
  have hvalues := hs.contextValues
  have haddresses := hs.kernelFrames
  rw [perfMaxStackDepth] at haddresses
  have hroom := length_pushWords_fitting (3071 - (script.contextValues.getD []).length -
    (script.kernelFrames.getD []).length) script.frames
  rw [TraceScript.emit, TraceScript.unwindStop] at hsent
  generalize script.collect (pristine info mem) = t at hstage hsent ⊢
  generalize script.stopError t = error at hsent ⊢
  have habort : Stage (if error = 0 then t else t.pushAbort error) info
      (script.contextValues.getD []) (script.kernelFrames.getD [])
      (pushWords (script.pushes error)) := by
    rw [TraceScript.pushes, pushWords_append]
    split
    · rw [show pushWords [] = [] from rfl, append_nil]
      exact hstage
    · exact hstage.pushAbort (by omega) error
  have hwords : (script.contextValues.getD []).length + (script.kernelFrames.getD []).length +
      (pushWords (script.pushes error)).length ≤ 3072 := by
    have hone : (pushWords (if error = 0 then [] else
        [⟨frameMarkerUnknown, frameFlagError, error, []⟩])).length ≤ 1 := by
      split
      · exact zero_le _
      · exact le_rfl
    rw [TraceScript.pushes, pushWords_append, length_append]
    omega
  generalize (if error = 0 then t else t.pushAbort error) = stopped at habort hsent
  split at hsent
  · cases hsent
  · obtain ⟨new, hcomplete, hread⟩ := (habort.complete hwords).addLabels hs
    exact ⟨_, new, (Option.some.inj hsent).symm, hcomplete, hread⟩

def EbpfFrame.content (f : EbpfFrame) : BitVec 8 × BitVec 8 × ℕ × List Word :=
  (f.type, f.flags, f.data.toNat, f.vars)

/-- What a push asks for, with the 52 bits of data of a header. -/
def FramePush.content (p : FramePush) : BitVec 8 × BitVec 8 × ℕ × List Word :=
  (p.frameType, p.flags, p.data.toNat % 2 ^ 52, p.vars)

lemma FramePush.Allowed.content_frame {p : FramePush} (h : p.Allowed) :
    p.frame.content = p.content := by
  rw [EbpfFrame.content, FramePush.frame, pushFrame_type p.data h.frameType h.flags h.vars,
    pushFrame_flags p.data h.frameType h.flags h.vars,
    pushFrame_data p.data h.frameType h.flags h.vars]
  rfl

lemma TraceScript.Allowed.pushes_allowed (hs : script.Allowed) (error : Word) :
    ∀ p ∈ script.pushes error, p.Allowed := by
  intro p hp
  rcases mem_append.mp hp with hp | hp
  · exact hs.frames p (fitting_subset _ _ hp)
  · split at hp
    · cases hp
    · rw [mem_singleton.mp hp]
      exact ⟨(by decide : frameMarkerUnknown.toNat < 16), (by decide : frameFlagError.toNat < 16),
        zero_le _⟩

/-- Every record is loaded: words and label bytes as written, and the frames as pushed. -/
theorem loadBpfTrace_emit {script : TraceScript} (hs : script.Allowed) (info : TraceMeta)
    (mem : Memory) {record : List Byte} (hsent : script.emit info mem = some record)
    (padding : List Byte) {knownOrigin : ℕ → Bool} (horigin : knownOrigin info.origin.toNat) :
    ∃ trace frames new,
      loadBpfTrace knownOrigin (record ++ padding) = .ok trace ∧
      trace.contextValues = script.contextValues.getD [] ∧
      trace.kernelFrames = script.kernelFrames.getD [] ∧
      walkFrames trace.frameData = some frames ∧
      frames.map EbpfFrame.content =
        (script.pushes (script.stopError (script.collect (pristine info mem)))).map
          FramePush.content ∧
      trace.golangLabelData = new.flatten ∧
      List.Forall₂ LabelBytes (readable (script.labels.getD [])) new ∧
      trace.goLabels = (readable (script.labels.getD [])).map
        fun l => (cString (l.1.take 15), cString (l.2.take 47)) := by
  obtain ⟨t, new, rfl, hcomplete, hread⟩ := hs.unwindStop hsent
  obtain ⟨trace, hload, hctx, hkern, hframes, hlabels⟩ := hcomplete.load padding horigin
  have hallowed := hs.pushes_allowed (script.stopError (script.collect (pristine info mem)))
  generalize script.pushes (script.stopError (script.collect (pristine info mem))) = pushes
    at hframes hallowed ⊢
  refine ⟨trace, pushes.map FramePush.frame, new, hload, hctx, hkern, ?_, ?_, hlabels, hread, ?_⟩
  · rw [hframes]
    apply walkFrames_flatMap
    intro f hf
    obtain ⟨p, hp, rfl⟩ := mem_map.mp hf
    have h := hallowed p hp
    exact pushFrame_sized p.data h.frameType h.flags h.vars
  · rw [map_map]
    apply map_congr_left
    intro p hp
    exact (hallowed p hp).content_frame
  · rw [EbpfTrace.goLabels, hlabels, length_flatten_labels hread,
      Nat.mul_div_cancel_left _ (by decide), golangLabels_flatten hread]

/-- A context value, two kernel addresses, a native frame, an error frame and a label. -/
def sampleScript : TraceScript where
  contextValues := some [7]
  kernelFrames := some [0xffffffff81000010, 0xffffffff81000200]
  frames := [⟨frameMarkerNative, frameFlagReturnAddress, 0x4010, [0xabcdef]⟩]
  unwindError := 5
  refineMissingMappingError := id
  filterErrorFrames := true
  labels := some [⟨some [0x69, 0x64], some [0x34, 0x32]⟩]

/-- The header of a trace of origin 1. -/
def sampleMeta : TraceMeta where
  pid := 100
  tid := 101
  ktime := 5000
  comm := Vector.replicate 16 0x61
  spanID := Vector.replicate 8 0
  traceID := Vector.replicate 16 0
  cpuID := 2
  origin := 1
  padding := Vector.replicate 4 0xcc

/-- An array with old contents. -/
def staleMemory : Memory := fun _ => 0xaa

lemma sampleScript_allowed : sampleScript.Allowed where
  contextValues := by decide
  kernelFrames := by decide
  frames := by
    intro p hp
    rw [mem_singleton.mp hp]
    exact ⟨by decide, by decide, by decide⟩
  labels := by decide

theorem loadBpfTrace_emit_sample :
    ∃ record trace frames, sampleScript.emit sampleMeta staleMemory = some record ∧
      loadBpfTrace (beq 1) (record ++ [0, 0, 0]) = .ok trace ∧
      trace.contextValues = [7] ∧
      trace.kernelFrames = [0xffffffff81000010, 0xffffffff81000200] ∧
      walkFrames trace.frameData = some frames ∧
      frames.map EbpfFrame.content =
        [(frameMarkerNative, frameFlagReturnAddress, 0x4010, [0xabcdef]),
          (frameMarkerUnknown, frameFlagError, 5, [])] ∧
      trace.goLabels = [([0x69, 0x64], [0x34, 0x32])] := by
  have hsent : sampleScript.emit sampleMeta staleMemory =
      some ((sampleScript.emit sampleMeta staleMemory).getD []) := by decide +kernel
  have horigin : beq 1 sampleMeta.origin.toNat = true := by decide
  obtain ⟨trace, frames, new, hload, hctx, hkern, hwalk, hframes, -, -, hlabels⟩ :=
    loadBpfTrace_emit sampleScript_allowed sampleMeta staleMemory hsent [0, 0, 0] horigin
  refine ⟨_, trace, frames, hsent, hload, hctx, hkern, hwalk, hframes.trans ?_, hlabels.trans ?_⟩
  · decide +kernel
  · decide +kernel

end EbpfProfiler.Wire
