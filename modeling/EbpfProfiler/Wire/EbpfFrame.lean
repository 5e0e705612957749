import Mathlib.Data.BitVec
import Mathlib.Data.List.Basic

/-!
# Frames as the unwinders write them

A header word (`frame_header`, `tracemgmt.h`) and up to 14 variable words, and what each unwinder
pushes.
-/

namespace EbpfProfiler.Wire

open List Nat

/-- A `u64` of the trace's variable data. -/
abbrev Word := BitVec 64

/-! ## Frame types and flags (`frametypes.h`) -/

def frameMarkerUnknown : BitVec 8 := 0x0
def frameMarkerPython : BitVec 8 := 0x1
def frameMarkerPhp : BitVec 8 := 0x2
def frameMarkerNative : BitVec 8 := 0x3
def frameMarkerKernel : BitVec 8 := 0x4
def frameMarkerHotspot : BitVec 8 := 0x5
def frameMarkerRuby : BitVec 8 := 0x6
def frameMarkerPerl : BitVec 8 := 0x7
def frameMarkerV8 : BitVec 8 := 0x8
def frameMarkerPhpJit : BitVec 8 := 0x9
def frameMarkerDotnet : BitVec 8 := 0xA
def frameMarkerBeam : BitVec 8 := 0xC

def frameFlagError : BitVec 8 := 1#8 <<< 0
def frameFlagReturnAddress : BitVec 8 := 1#8 <<< 1
def frameFlagPidSpecific : BitVec 8 := 1#8 <<< 2

/-! ## The header word -/

def frameHeader (frameType flags length : BitVec 8) (data : Word) : Word :=
  frameType.setWidth 64 <<< 60 ||| flags.setWidth 64 <<< 56 ||| length.setWidth 64 <<< 52 |||
    (data &&& (1#64 <<< 52 - 1))

/-- `EbpfFrame.Type`, of the header word. -/
def headerType (header : Word) : BitVec 8 := (header >>> 60).setWidth 8

/-- `EbpfFrame.Flags`. -/
def headerFlags (header : Word) : BitVec 8 := ((header >>> 56) &&& 0xf).setWidth 8

/-- `EbpfFrame.Length`: the number of words of the frame, the header included. -/
def headerLength (header : Word) : BitVec 8 := (header >>> 52).setWidth 8 &&& 0xf

/-- `EbpfFrame.Data`. -/
def headerData (header : Word) : Word := header &&& 0xfffffffffffff

lemma frameHeader_toNat {frameType flags length : BitVec 8} (data : Word)
    (ht : frameType.toNat < 16) (hf : flags.toNat < 16) (hl : length.toNat < 16) :
    (frameHeader frameType flags length data).toNat =
      frameType.toNat * 2 ^ 60 + flags.toNat * 2 ^ 56 + length.toNat * 2 ^ 52
        + data.toNat % 2 ^ 52 := by
  have hmask : (1#64 <<< 52 - 1).toNat = 2 ^ 52 - 1 := by decide
  have hd : data.toNat % 2 ^ 52 < 2 ^ 52 := mod_lt _ (by decide)
  have shift (x : BitVec 8) (k : ℕ) (hx : x.toNat * 2 ^ k < 2 ^ 64) :
      (x.setWidth 64 <<< k).toNat = x.toNat <<< k := by
    have hx' : x.toNat < 2 ^ 64 := x.isLt.trans (by decide)
    rw [BitVec.toNat_shiftLeft, BitVec.toNat_setWidth, mod_eq_of_lt hx', shiftLeft_eq,
      mod_eq_of_lt hx]
  unfold frameHeader
  rw [BitVec.toNat_or, BitVec.toNat_or, BitVec.toNat_or, BitVec.toNat_and, hmask,
    and_two_pow_sub_one_eq_mod, shift _ _ (by omega), shift _ _ (by omega), shift _ _ (by omega),
    Nat.or_assoc, Nat.or_assoc]
  -- Each field lies below the one before it, so that the or is a sum.
  rw [← shiftLeft_add_eq_or_of_lt hd, ← shiftLeft_add_eq_or_of_lt (i := 56),
    ← shiftLeft_add_eq_or_of_lt (i := 60)]
  · omega
  · omega
  · omega

section Fields

variable {frameType flags length : BitVec 8} (data : Word)
  (ht : frameType.toNat < 16) (hf : flags.toNat < 16) (hl : length.toNat < 16)
include ht hf hl

lemma headerType_frameHeader :
    headerType (frameHeader frameType flags length data) = frameType := by
  apply BitVec.eq_of_toNat_eq
  rw [headerType, BitVec.toNat_setWidth, BitVec.toNat_ushiftRight, frameHeader_toNat data ht hf hl]
  omega

lemma headerFlags_frameHeader : headerFlags (frameHeader frameType flags length data) = flags := by
  apply BitVec.eq_of_toNat_eq
  rw [headerFlags, BitVec.toNat_setWidth, BitVec.toNat_and, BitVec.toNat_ushiftRight,
    frameHeader_toNat data ht hf hl, show (0xf : Word).toNat = 2 ^ 4 - 1 by decide,
    and_two_pow_sub_one_eq_mod]
  omega

lemma headerLength_frameHeader :
    headerLength (frameHeader frameType flags length data) = length := by
  apply BitVec.eq_of_toNat_eq
  rw [headerLength, BitVec.toNat_and, BitVec.toNat_setWidth, BitVec.toNat_ushiftRight,
    frameHeader_toNat data ht hf hl, show (0xf : BitVec 8).toNat = 2 ^ 4 - 1 by decide,
    and_two_pow_sub_one_eq_mod]
  omega

lemma headerData_frameHeader :
    (headerData (frameHeader frameType flags length data)).toNat = data.toNat % 2 ^ 52 := by
  rw [headerData, BitVec.toNat_and, frameHeader_toNat data ht hf hl,
    show (0xfffffffffffff : Word).toNat = 2 ^ 52 - 1 by decide, and_two_pow_sub_one_eq_mod]
  omega

end Fields

/-! ## Frames -/

/-- `libpf.EbpfFrame` of at least one word. -/
structure EbpfFrame where
  header : Word
  vars : List Word
  deriving DecidableEq

namespace EbpfFrame

/-- The frame as the slice it is. -/
def words (f : EbpfFrame) : List Word := f.header :: f.vars

def type (f : EbpfFrame) : BitVec 8 := headerType f.header
def flags (f : EbpfFrame) : BitVec 8 := headerFlags f.header
def data (f : EbpfFrame) : Word := headerData f.header

/-- `FrameFlags.Error`. -/
def isError (f : EbpfFrame) : Bool := f.flags &&& frameFlagError ≠ 0

/-- `FrameFlags.ReturnAddress`. -/
def isReturnAddress (f : EbpfFrame) : Bool := f.flags &&& frameFlagReturnAddress ≠ 0

/-- `FrameFlags.PIDSpecific`. -/
def isPidSpecific (f : EbpfFrame) : Bool := f.flags &&& frameFlagPidSpecific ≠ 0

end EbpfFrame

/-- `push_frame`: the header with the number of words, and the caller's variable words. -/
def pushFrame (frameType flags : BitVec 8) (data : Word) (vars : List Word) : EbpfFrame :=
  ⟨frameHeader frameType flags (1 + BitVec.ofNat 8 vars.length) data, vars⟩

/-- The walk of `HandleTrace` over the frames; `none` is a length of 0, where it does not end, or a
slice past the end. The fuel is the length of the data, as each step takes a word. -/
def splitFrames : ℕ → List Word → Option (List EbpfFrame)
  | _, [] => some []
  | 0, _ :: _ => none
  | fuel + 1, header :: rest =>
    let n := (headerLength header).toNat
    if n = 0 ∨ rest.length + 1 < n then
      none
    else
      (splitFrames fuel (rest.drop (n - 1))).map (⟨header, rest.take (n - 1)⟩ :: ·)

/-- The frames of a trace. -/
def walkFrames (frameData : List Word) : Option (List EbpfFrame) :=
  splitFrames frameData.length frameData

section Walk

/-- The header of a frame counts its words. -/
def EbpfFrame.Sized (f : EbpfFrame) : Prop :=
  (headerLength f.header).toNat = f.vars.length + 1

variable {frames : List EbpfFrame}

lemma splitFrames_flatMap (h : ∀ f ∈ frames, f.Sized) {fuel : ℕ}
    (hfuel : (frames.flatMap EbpfFrame.words).length ≤ fuel) :
    splitFrames fuel (frames.flatMap EbpfFrame.words) = some frames := by
  induction frames generalizing fuel with
  | nil => cases fuel <;> rfl
  | cons f rest ih =>
    have hf : (headerLength f.header).toNat = f.vars.length + 1 := h f mem_cons_self
    rw [flatMap_cons, EbpfFrame.words, cons_append] at hfuel ⊢
    rw [length_cons, length_append] at hfuel
    obtain ⟨fuel, rfl⟩ : ∃ n, fuel = n + 1 := ⟨fuel - 1, by omega⟩
    have hrest : splitFrames fuel (rest.flatMap EbpfFrame.words) = some rest :=
      ih (fun g hg => h g (mem_cons_of_mem f hg)) (by omega)
    simp only [splitFrames, hf, Nat.add_sub_cancel]
    rw [if_neg (by rw [length_append]; omega), drop_left, take_left, hrest]
    rfl

lemma walkFrames_flatMap (h : ∀ f ∈ frames, f.Sized) :
    walkFrames (frames.flatMap EbpfFrame.words) = some frames :=
  splitFrames_flatMap h le_rfl

end Walk

section PushFrame

variable {frameType flags : BitVec 8} (data : Word) {vars : List Word}
  (ht : frameType.toNat < 16) (hf : flags.toNat < 16) (hv : vars.length ≤ 14)
include ht hf hv

omit ht hf in
lemma length_toNat : (1 + BitVec.ofNat 8 vars.length).toNat = vars.length + 1 := by
  rw [BitVec.toNat_add, BitVec.toNat_ofNat]
  change (1 + vars.length % 256) % 256 = vars.length + 1
  omega

lemma pushFrame_type : (pushFrame frameType flags data vars).type = frameType :=
  headerType_frameHeader data ht hf (by rw [length_toNat hv]; omega)

lemma pushFrame_flags : (pushFrame frameType flags data vars).flags = flags :=
  headerFlags_frameHeader data ht hf (by rw [length_toNat hv]; omega)

lemma pushFrame_data : (pushFrame frameType flags data vars).data.toNat = data.toNat % 2 ^ 52 :=
  headerData_frameHeader data ht hf (by rw [length_toNat hv]; omega)

lemma pushFrame_sized : (pushFrame frameType flags data vars).Sized := by
  have hl : (1 + BitVec.ofNat 8 vars.length).toNat < 16 := by
    rw [length_toNat hv]
    omega
  rw [EbpfFrame.Sized, pushFrame, headerLength_frameHeader data ht hf hl, length_toNat hv]

end PushFrame

/-! ## What the unwinders push -/

def raFlag (returnAddress : Bool) : BitVec 8 :=
  if returnAddress then frameFlagReturnAddress else 0

/-- `push_native` (`tracemgmt.h`). -/
def pushNative (file line : Word) (returnAddress : Bool) : EbpfFrame :=
  pushFrame frameMarkerNative (raFlag returnAddress) line [file]

def pushError (frameType : BitVec 8) (error : Word) : EbpfFrame :=
  pushFrame frameType frameFlagError error []

def pushPython (file line : Word) : EbpfFrame :=
  pushFrame frameMarkerPython frameFlagPidSpecific 0 [file, line]

def pushPhp (file line : Word) (isJitted : Bool) : EbpfFrame :=
  pushFrame (if isJitted then frameMarkerPhpJit else frameMarkerPhp) frameFlagPidSpecific 0
    [file, line]

def pushPerl (file line : Word) : EbpfFrame :=
  pushFrame frameMarkerPerl frameFlagPidSpecific 0 [file, line]

def pushHotspot (file line : Word) (returnAddress : Bool) : EbpfFrame :=
  pushFrame frameMarkerHotspot (frameFlagPidSpecific ||| raFlag returnAddress) 0 [file, line]

/-- `push_ruby`: the only frame with three variable words. -/
def pushRuby (frameType : BitVec 8) (file line iseqAddr : Word) : EbpfFrame :=
  pushFrame frameMarkerRuby frameFlagPidSpecific file [frameType.setWidth 64, line, iseqAddr]

def pushV8 (frameType : Word) (sfi deltaOrMarker code : Word) (returnAddress : Bool) : EbpfFrame :=
  pushFrame frameMarkerV8 (frameFlagPidSpecific ||| raFlag returnAddress) deltaOrMarker
    [sfi ||| frameType, code]

def pushDotnet (codeHeaderPtr pcOffset : Word) (returnAddress : Bool) : EbpfFrame :=
  pushFrame frameMarkerDotnet (frameFlagPidSpecific ||| raFlag returnAddress) pcOffset
    [codeHeaderPtr]

/-- `push_beam`: without the flag that makes a frame specific to its process. -/
def pushBeam (pc rangeStart : Word) (returnAddress : Bool) : EbpfFrame :=
  pushFrame frameMarkerBeam (raFlag returnAddress) pc [rangeStart]

/-- The frames that the unwinders push, with those of errors and `push_abort`. -/
inductive Pushed : EbpfFrame → Prop
  | native (file line : Word) (ra : Bool) : Pushed (pushNative file line ra)
  | python (file line : Word) : Pushed (pushPython file line)
  | php (file line : Word) (jit : Bool) : Pushed (pushPhp file line jit)
  | perl (file line : Word) : Pushed (pushPerl file line)
  | hotspot (file line : Word) (ra : Bool) : Pushed (pushHotspot file line ra)
  | ruby (frameType : BitVec 8) (file line iseqAddr : Word) :
      Pushed (pushRuby frameType file line iseqAddr)
  | v8 (frameType sfi deltaOrMarker code : Word) (ra : Bool) :
      Pushed (pushV8 frameType sfi deltaOrMarker code ra)
  | dotnet (codeHeaderPtr pcOffset : Word) (ra : Bool) :
      Pushed (pushDotnet codeHeaderPtr pcOffset ra)
  | beam (pc rangeStart : Word) (ra : Bool) : Pushed (pushBeam pc rangeStart ra)
  | error (frameType : BitVec 8) (h : frameType = frameMarkerUnknown ∨
      frameType = frameMarkerDotnet ∨ frameType = frameMarkerRuby) (error : Word) :
      Pushed (pushError frameType error)

variable {f : EbpfFrame}

/-- A pushed frame has type and flags of four bits and at most two words, or three from Ruby. -/
lemma Pushed.eq_pushFrame (h : Pushed f) :
    ∃ frameType flags data vars, f = pushFrame frameType flags data vars ∧
      frameType.toNat < 16 ∧ frameType ≠ frameMarkerKernel ∧ flags.toNat < 16 ∧
      (vars.length ≤ 2 ∨ frameType = frameMarkerRuby ∧ flags = frameFlagPidSpecific ∧
        vars.length = 3) := by
  cases h with
  | native file line ra | hotspot file line ra | v8 frameType sfi deltaOrMarker code ra
  | dotnet codeHeaderPtr pcOffset ra | beam pc rangeStart ra =>
    exact ⟨_, _, _, _, rfl, by decide, by decide, by cases ra <;> decide, by simp⟩
  | python | perl | ruby => exact ⟨_, _, _, _, rfl, by decide, by decide, by decide, by simp⟩
  | php file line jit =>
    exact ⟨_, _, _, _, rfl, by cases jit <;> decide, by cases jit <;> decide, by decide, by simp⟩
  | error frameType h error =>
    refine ⟨_, _, _, _, rfl, ?_, ?_, by decide, by simp⟩
    · rcases h with rfl | rfl | rfl <;> decide
    · rcases h with rfl | rfl | rfl <;> decide

lemma Pushed.sized (h : Pushed f) : f.Sized := by
  obtain ⟨frameType, flags, data, vars, rfl, ht, -, hf, hv⟩ := h.eq_pushFrame
  exact pushFrame_sized data ht hf (by omega)

lemma Pushed.type_ne_kernel (h : Pushed f) : f.type ≠ frameMarkerKernel := by
  obtain ⟨frameType, flags, data, vars, rfl, ht, hk, hf, hv⟩ := h.eq_pushFrame
  rwa [pushFrame_type data ht hf (by omega)]

end EbpfProfiler.Wire
