import EbpfProfiler.Wire.TraceRecord

/-!
# What the writer puts into a trace

Every step puts its bytes behind those that are there; the sizes kept free leave room for labels.
-/

namespace EbpfProfiler.Wire

open Lib List

variable {t : BpfTrace} {bs : List Byte}

/-! ## What the array holds -/

/-- The array holds these bytes up to its end. -/
structure BpfTrace.Holds (t : BpfTrace) (bs : List Byte) : Prop where
  size : t.variableDataEnd = bs.length
  bytes : t.variableData.read 0 bs.length = bs

lemma holds_pristine (info : TraceMeta) (mem : Memory) : (pristine info mem).Holds [] := ⟨rfl, rfl⟩

section
variable (h : t.Holds bs)
include h

lemma BpfTrace.Holds.append {t' : BpfTrace} {new : List Byte}
    (hsize : t'.variableDataEnd = bs.length + new.length)
    (hmem : t'.variableData = t.variableData.write bs.length new) : t'.Holds (bs ++ new) := by
  constructor
  · rw [hsize, length_append]
  · rw [hmem, length_append, Memory.read_add, zero_add, Memory.read_write,
      Memory.read_write_of_le _ _ (by omega), h.bytes]

lemma BpfTrace.Holds.reserve (allocSize reserveSize : ℕ)
    (hfit : bs.length + allocSize + reserveSize ≤ variableDataSize) :
    t.reserveVariableData allocSize reserveSize = some bs.length := by
  rw [reserveVariableData, h.size, if_neg (by omega)]

lemma BpfTrace.Holds.reserve_none (allocSize reserveSize : ℕ)
    (hsize : allocSize + reserveSize ≤ variableDataSize)
    (hfull : variableDataSize < bs.length + allocSize + reserveSize) :
    t.reserveVariableData allocSize reserveSize = none := by
  rw [reserveVariableData, h.size, if_pos (by omega)]

lemma commit_size (n : ℕ) (hfit : bs.length + n ≤ variableDataSize) :
    (t.variableDataEnd + n) % 2 ^ 16 = bs.length + n := by
  have hsmall : variableDataSize < 2 ^ 16 := by decide
  rw [h.size]
  exact Nat.mod_eq_of_lt (by omega)

end

/-! ## Sections of words -/

/-- The end of a section of words behind others: zero may stand for an empty one. -/
def SectionEnd («end» before : ℕ) (ws : List Word) : Prop :=
  («end» = 0 ∧ ws = []) ∨ «end» = 8 * (before + ws.length)

/-- The trace after context values, kernel addresses and the words of frames. -/
structure Stage (t : BpfTrace) (info : TraceMeta) (ctx kern frames : List Word) : Prop where
  holds : t.Holds ((ctx ++ kern ++ frames).flatMap wordBytes)
  ctxEnd : SectionEnd t.contextValueEnd 0 ctx
  kernEnd : SectionEnd t.kernelFrameEnd ctx.length kern
  threadEnd : t.threadLabelEnd = 0
  golangEnd : t.golangLabelEnd = 0
  numFrames_lt : t.numFrames < 2 ^ 16
  info_eq : t.info = info

lemma stage_pristine (info : TraceMeta) (mem : Memory) : Stage (pristine info mem) info [] [] [] :=
  ⟨holds_pristine info mem, .inl ⟨rfl, rfl⟩, .inl ⟨rfl, rfl⟩, rfl, rfl, Nat.two_pow_pos 16, rfl⟩

lemma SectionEnd.eq_zero {«end» : ℕ} (h : SectionEnd «end» 0 []) : «end» = 0 := by
  rcases h with ⟨h, -⟩ | h <;> exact h

section Stages

variable {t : BpfTrace} {info : TraceMeta} {ctx kern frames : List Word}

lemma length_sections (ctx kern frames : List Word) :
    ((ctx ++ kern ++ frames).flatMap wordBytes).length =
      8 * (ctx.length + kern.length + frames.length) := by
  rw [length_flatMap_wordBytes, length_append, length_append]

lemma Stage.pushContextValues (h : Stage t info [] [] []) {values : List Word}
    (hn : values.length ≤ 255) : Stage (t.pushContextValues values) info values [] [] := by
  have hfit : ([] : List Byte).length + 8 * values.length + maxFrameTrailerDataSize ≤
      variableDataSize := by
    simp only [length_nil, maxFrameTrailerDataSize, variableDataSize, golangLabelSize, maxGoLabels,
      maxFrameDataSize]
    omega
  have hcommit := commit_size h.holds (8 * values.length) (Nat.le_of_add_right_le hfit)
  rw [length_sections [] [] [], length_nil, Nat.zero_add] at hcommit
  have happend : (values ++ [] ++ []).flatMap wordBytes =
      ([] ++ [] ++ [] : List Word).flatMap wordBytes ++ values.flatMap wordBytes := by simp
  rw [BpfTrace.pushContextValues, h.holds.reserve _ _ hfit]
  refine ⟨?_, .inr ?_, .inl ⟨h.kernEnd.eq_zero, rfl⟩, h.threadEnd, h.golangEnd, h.numFrames_lt,
    h.info_eq⟩
  · rw [happend]
    refine h.holds.append ?_ rfl
    rw [length_flatMap_wordBytes values, length_sections [] [] [], length_nil, Nat.mul_zero,
      Nat.zero_add]
    exact hcommit
  · rw [Nat.zero_add]
    exact hcommit

lemma Stage.pushKernelFrames (h : Stage t info ctx [] []) (hctx : ctx.length ≤ 255)
    {addresses : List Word} (hn : addresses.length ≤ perfMaxStackDepth) :
    Stage (t.pushKernelFrames addresses) info ctx addresses [] := by
  have hbytes := length_sections ctx [] []
  have hlen := length_flatMap_wordBytes addresses
  rw [perfMaxStackDepth] at hn
  have hfit : ((ctx ++ [] ++ []).flatMap wordBytes).length + 8 * perfMaxStackDepth +
      maxFrameTrailerDataSize ≤ variableDataSize := by
    rw [hbytes]
    simp only [length_nil, maxFrameTrailerDataSize, variableDataSize, golangLabelSize, maxGoLabels,
      maxFrameDataSize, perfMaxStackDepth]
    omega
  rw [BpfTrace.pushKernelFrames, h.holds.reserve _ _ hfit]
  dsimp only
  split
  · have hcommit := commit_size h.holds (8 * addresses.length)
      (by rw [perfMaxStackDepth] at hfit; omega)
    refine ⟨?_, h.ctxEnd, .inr ?_, h.threadEnd, h.golangEnd, h.numFrames_lt, h.info_eq⟩
    · have happend : (ctx ++ addresses ++ []).flatMap wordBytes =
          (ctx ++ [] ++ []).flatMap wordBytes ++ addresses.flatMap wordBytes := by simp
      rw [happend]
      refine h.holds.append ?_ rfl
      rw [hlen]
      exact hcommit
    · rw [hbytes] at hcommit
      refine Eq.trans hcommit ?_
      simp only [length_nil]
      omega
  · next hzero =>
    have hnil : addresses = [] := length_eq_zero_iff.mp (by omega)
    rw [hnil]
    exact h

section
variable (h : Stage t info ctx kern frames)
include h

lemma Stage.writeFrame (f : EbpfFrame)
    (hfit : ctx.length + kern.length + frames.length + f.words.length ≤ 3072) :
    Stage (t.writeFrame ((ctx ++ kern ++ frames).flatMap wordBytes).length f) info ctx kern
      (frames ++ f.words) := by
  have hbytes := length_sections ctx kern frames
  have hcommit := commit_size h.holds (8 * f.words.length) (by
    simp only [variableDataSize, maxFrameDataSize]
    omega)
  refine ⟨?_, h.ctxEnd, h.kernEnd, h.threadEnd, h.golangEnd, Nat.mod_lt _ (by decide), h.info_eq⟩
  have happend : (ctx ++ kern ++ (frames ++ f.words)).flatMap wordBytes =
      (ctx ++ kern ++ frames).flatMap wordBytes ++ f.words.flatMap wordBytes := by
    rw [← append_assoc, flatMap_append]
  rw [happend]
  refine h.holds.append ?_ rfl
  rw [length_flatMap_wordBytes f.words]
  exact hcommit

lemma Stage.pushFrame_some (f : EbpfFrame)
    (hfit : ctx.length + kern.length + frames.length + f.words.length ≤ 3071) :
    ∃ t', t.pushFrame f = some t' ∧ Stage t' info ctx kern (frames ++ f.words) := by
  have hbytes := length_sections ctx kern frames
  have hreserve := h.holds.reserve (8 * f.words.length) (8 + maxFrameTrailerDataSize) (by
      simp only [variableDataSize, maxFrameDataSize]
      omega)
  refine ⟨_, ?_, h.writeFrame f (by omega)⟩
  rw [BpfTrace.pushFrame, hreserve]

lemma Stage.pushFrame_none (f : EbpfFrame) (hwords : f.words.length ≤ 15)
    (hfull : 3071 < ctx.length + kern.length + frames.length + f.words.length) :
    t.pushFrame f = none := by
  have hbytes := length_sections ctx kern frames
  have hreserve := h.holds.reserve_none (8 * f.words.length) (8 + maxFrameTrailerDataSize) (by
      simp only [variableDataSize, maxFrameDataSize]
      omega) (by
      simp only [variableDataSize, maxFrameDataSize]
      omega)
  rw [BpfTrace.pushFrame, hreserve]

lemma Stage.pushAbort (hfit : ctx.length + kern.length + frames.length ≤ 3071) (error : Word) :
    Stage (t.pushAbort error) info ctx kern
      (frames ++ (pushError frameMarkerUnknown error).words) := by
  have hbytes := length_sections ctx kern frames
  have hreserve := h.holds.reserve 8 maxFrameTrailerDataSize (by
      simp only [variableDataSize, maxFrameDataSize]
      omega)
  have hone : (pushError frameMarkerUnknown error).words.length = 1 := rfl
  rw [BpfTrace.pushAbort, hreserve]
  exact h.writeFrame _ (by omega)

end

end Stages

/-! ## Frames -/

/-- A `push_frame` with four bits of type and flags, and its length of words. -/
structure FramePush.Allowed (p : FramePush) : Prop where
  frameType : p.frameType.toNat < 16
  flags : p.flags.toNat < 16
  vars : p.vars.length ≤ 14

def fitting : ℕ → List FramePush → List FramePush
  | _, [] => []
  | room, p :: ps =>
    if p.vars.length + 1 ≤ room then p :: fitting (room - (p.vars.length + 1)) ps else []

lemma fitting_subset (room : ℕ) (ps : List FramePush) : fitting room ps ⊆ ps := by
  induction ps generalizing room with
  | nil => exact List.Subset.refl _
  | cons p ps ih =>
    rw [fitting]
    split
    · exact cons_subset_cons p (ih _)
    · exact nil_subset _

def pushWords (ps : List FramePush) : List Word := (ps.map FramePush.frame).flatMap EbpfFrame.words

lemma length_pushWords_fitting (room : ℕ) (ps : List FramePush) :
    (pushWords (fitting room ps)).length ≤ room := by
  induction ps generalizing room with
  | nil => exact Nat.zero_le _
  | cons p ps ih =>
    rw [fitting]
    split
    · next hroom =>
      have hlen : p.frame.words.length = p.vars.length + 1 := rfl
      have hrest := ih (room - (p.vars.length + 1))
      rw [pushWords] at hrest ⊢
      rw [map_cons, flatMap_cons, length_append]
      omega
    · exact Nat.zero_le _

/-- All pushes are made that fit, one word being left for an error. -/
lemma Stage.pushFrames {info : TraceMeta} {ctx kern frames : List Word}
    (h : Stage t info ctx kern frames) {ps : List FramePush} (hps : ∀ p ∈ ps, p.Allowed) (room : ℕ)
    (hroom : ctx.length + kern.length + frames.length + room = 3071) :
    Stage (t.pushFrames (ps.map FramePush.frame)) info ctx kern
      (frames ++ pushWords (fitting room ps)) := by
  induction ps generalizing t frames room with
  | nil =>
    rw [fitting, pushWords, map_nil, flatMap_nil, append_nil]
    exact h
  | cons p ps ih =>
    have hp := (hps p mem_cons_self).vars
    have hlen : p.frame.words.length = p.vars.length + 1 := rfl
    rw [map_cons, BpfTrace.pushFrames, fitting]
    split
    · next hfull =>
      -- The frame did not fit, so that nothing more is pushed.
      rw [if_neg, pushWords, map_nil, flatMap_nil, append_nil]
      · exact h
      · intro hfit
        obtain ⟨t', hsome, -⟩ := h.pushFrame_some p.frame (by omega)
        rw [hfull] at hsome
        cases hsome
    · next t' hsome =>
      have hfit : p.vars.length + 1 ≤ room := by
        by_contra hfull
        rw [h.pushFrame_none p.frame (by omega) (by omega)] at hsome
        cases hsome
      obtain ⟨t'', hsome', hstage⟩ := h.pushFrame_some p.frame (by omega)
      obtain rfl : t' = t'' := Option.some.inj (hsome.symm.trans hsome')
      have hrest := ih hstage (fun q hq => hps q (mem_cons_of_mem p hq))
        (room - (p.vars.length + 1)) (by rw [length_append]; omega)
      rw [if_pos hfit, pushWords, map_cons, flatMap_cons, ← append_assoc]
      exact hrest

/-! ## Labels -/

/-- The bytes of a label: its strings are cut and end with a zero. -/
structure LabelBytes (label : List Byte × List Byte) (bs : List Byte) : Prop where
  length : bs.length = golangLabelSize
  key : label.1.take 15 ++ [0] <+: bs
  val : label.2.take 47 ++ [0] <+: bs.drop 16

def readable : List GoLabel → List (List Byte × List Byte)
  | ⟨some key, some val⟩ :: labels => (key, val) :: readable labels
  | _ => []

lemma length_readable_le (labels : List GoLabel) : (readable labels).length ≤ labels.length := by
  fun_induction readable labels with
  | case1 key val labels ih => exact Nat.succ_le_succ ih
  | case2 => exact Nat.zero_le _

/-- Only the array and its end differ. -/
def BpfTrace.SameHeader (t t' : BpfTrace) : Prop :=
  ∃ mem «end», t' = { t with variableData := mem, variableDataEnd := «end» }

lemma BpfTrace.Holds.golabelPush (h : t.Holds bs)
    (hfit : bs.length + golangLabelSize ≤ variableDataSize) (key val : List Byte) :
    ∃ t' new, t.golabelPush ⟨some key, some val⟩ = some t' ∧ t.SameHeader t' ∧
      t'.Holds (bs ++ new) ∧ LabelBytes (key, val) new := by
  have hk : (key.take 15 ++ [0]).length ≤ 16 := by
    rw [length_append, length_take, length_singleton]
    omega
  have hv : (val.take 47 ++ [0]).length ≤ 48 := by
    rw [length_append, length_take, length_singleton]
    omega
  let mem := (t.variableData.write bs.length (key.take 15 ++ [0])).write (bs.length + 16)
    (val.take 47 ++ [0])
  let t' : BpfTrace := { t with
    variableData := mem, variableDataEnd := (t.variableDataEnd + golangLabelSize) % 2 ^ 16 }
  refine ⟨t', mem.read bs.length golangLabelSize, ?_, ⟨mem, _, rfl⟩, ?_, ?_⟩
  · rw [BpfTrace.golabelPush, h.reserve _ _ hfit]
    rfl
  · constructor
    · rw [length_append]
      exact commit_size h _ hfit
    · rw [length_append, Memory.length_read, Memory.read_add, zero_add]
      rw [Memory.read_write_of_le _ _ (by omega), Memory.read_write_of_le _ _ (by omega), h.bytes]
  · refine ⟨Memory.length_read _ _ _, ?_, ?_⟩
    · -- The key is in front of what is written for the value.
      have hkey : key.take 15 ++ [0] <+: mem.read bs.length 16 := by
        rw [Memory.read_write_of_le _ _ le_rfl]
        exact Memory.write_isPrefix_read _ _ hk
      exact hkey.trans (prefix_append _ _)
    · exact Memory.write_isPrefix_read _ _ hv

/-- All labels up to one that cannot be read are written. -/
lemma BpfTrace.Holds.golabelsPush (h : t.Holds bs) (labels : List GoLabel)
    (hfit : bs.length + golangLabelSize * labels.length ≤ variableDataSize) :
    ∃ new, t.SameHeader (t.golabelsPush labels) ∧
      (t.golabelsPush labels).Holds (bs ++ new.flatten) ∧
      List.Forall₂ LabelBytes (readable labels) new := by
  induction labels generalizing t bs with
  | nil =>
    refine ⟨[], ⟨_, _, rfl⟩, ?_, .nil⟩
    rw [flatten_nil, append_nil]
    exact h
  | cons label labels ih =>
    rw [length_cons, Nat.mul_succ] at hfit
    have hstop (hnone : t.golabelPush label = none) (hread : readable (label :: labels) = []) :
        ∃ new, t.SameHeader (t.golabelsPush (label :: labels)) ∧
          (t.golabelsPush (label :: labels)).Holds (bs ++ new.flatten) ∧
          List.Forall₂ LabelBytes (readable (label :: labels)) new := by
      rw [BpfTrace.golabelsPush, hnone, hread]
      refine ⟨[], ⟨_, _, rfl⟩, ?_, .nil⟩
      rw [flatten_nil, append_nil]
      exact h
    have hreserve := h.reserve golangLabelSize 0 (by omega)
    rcases label with ⟨key, val⟩
    cases key with
    | none => exact hstop (by rw [BpfTrace.golabelPush, hreserve]) rfl
    | some key =>
      cases val with
      | none => exact hstop (by rw [BpfTrace.golabelPush, hreserve]) rfl
      | some val =>
        obtain ⟨t', new, hsome, hsame, hholds, hlabel⟩ := h.golabelPush (by omega) key val
        obtain ⟨rest, hsame', hholds', hrest⟩ := ih hholds (by
          rw [length_append, hlabel.length]
          omega)
        rw [BpfTrace.golabelsPush, hsome]
        refine ⟨new :: rest, ?_, ?_, .cons hlabel hrest⟩
        · obtain ⟨mem, «end», rfl⟩ := hsame
          exact hsame'
        · rw [flatten_cons, ← append_assoc]
          exact hholds'

end EbpfProfiler.Wire
