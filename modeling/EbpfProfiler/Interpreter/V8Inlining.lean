import Mathlib.Logic.Relation
import EbpfProfiler.Lib.Comp
import EbpfProfiler.Interpreter.RemoteMemory

/-!
# Inlined functions of V8 code

A position that names its own ID is followed forever (`symbolizeCode`, `nodev8/v8.go`).
-/

namespace EbpfProfiler.Interpreter.V8

open Lib
open Wire (Word)

variable {σ : Type}

def inliningID (pos : Word) : ℕ := (pos >>> 31).toNat % 2 ^ 16

/-- A frame: `<external-file>`, or a position in a function. -/
inductive Frame (σ : Type) where
  | external
  | script (pos : Word) (sfi : σ)

def generateNativeFrame (pos : Word) (sfi : σ) : Frame σ :=
  if pos &&& 1 = 1 then .external else .script pos sfi

/-- The parts of `v8Code` that inlining needs. -/
structure V8Code (σ : Type) where
  sfi : σ
  inliningSFIs : List Byte
  inliningPositions : List Byte

/-- The inlining positions, the last of which may be cut. -/
def V8Code.count (code : V8Code σ) : ℕ := (code.inliningPositions.length + 15) / 16

section
variable (code : V8Code σ) (getSFI : Word → Except String σ)

/-- The function that is inlined at the position with an ID. -/
def inlinedSFI (id : ℕ) : Except String σ :=
  let funcID := npsrUint32 code.inliningPositions ((id - 1) * 16 + 8)
  if 0 ≤ funcID.toInt then getSFI (npsrPtr code.inliningSFIs (funcID.toNat * 8))
  else .ok code.sfi

/-- The position that an inlining position was inlined at. -/
def callerPosition (id : ℕ) : Word := npsrPtr code.inliningPositions ((id - 1) * 16)

/-- The loop of `symbolizeCode` with the frame behind it. -/
def expand : ℕ → Word → List (Frame σ) → Except Fault Unit × List (Frame σ)
  | 0, _, frames => (.error .hang, frames)
  | fuel + 1, pos, frames =>
    if inliningID pos = 0 then (.ok (), frames ++ [generateNativeFrame pos code.sfi])
    else
      match inlinedSFI code getSFI (inliningID pos) with
      | .error err => (.error (.error s!"failed to get inlined SFI: {err}"), frames)
      | .ok sfi =>
        let next := callerPosition code (inliningID pos)
        if inliningID pos < inliningID next then
          (.error (.error ("inlining ID is not monotonically decreasing " ++
            s!"({inliningID next} <= {inliningID pos})")), frames ++ [generateNativeFrame pos sfi])
        else expand fuel next (frames ++ [generateNativeFrame pos sfi])

/-- The loop goes on from a position to another one. -/
def Next (pos q : Word) : Prop :=
  inliningID pos ≠ 0 ∧ (∃ sfi, inlinedSFI code getSFI (inliningID pos) = .ok sfi) ∧
    q = callerPosition code (inliningID pos) ∧ inliningID q ≤ inliningID pos

end

open Relation

variable {code : V8Code σ} {getSFI : Word → Except String σ} {pos q r : Word}

lemma expand_of_next (h : Next code getSFI pos q) : ∃ frame, ∀ fuel frames,
    expand code getSFI (fuel + 1) pos frames = expand code getSFI fuel q (frames ++ [frame]) := by
  obtain ⟨hid, ⟨sfi, hsfi⟩, rfl, hle⟩ := h
  refine ⟨generateNativeFrame pos sfi, fun fuel frames => ?_⟩
  rw [expand, if_neg hid, hsfi]
  simp only [if_neg (not_lt.2 hle)]

lemma expand_hangs (hreach : ReflTransGen (Next code getSFI) pos q) (h : Next code getSFI q r)
    (hself : inliningID r = inliningID q) (fuel : ℕ) (frames : List (Frame σ)) :
    (expand code getSFI fuel pos frames).1 = .error .hang := by
  have hloop : Next code getSFI r r := by
    obtain ⟨hid, hsfi, hr, -⟩ := h
    unfold Next
    rw [hself]
    exact ⟨hid, hsfi, hr, le_rfl⟩
  obtain ⟨frame, hframe⟩ := expand_of_next hloop
  have hstay : ∀ fuel frames, (expand code getSFI fuel r frames).1 = .error .hang := by
    intro fuel
    induction fuel with
    | zero => exact fun _ => rfl
    | succ fuel ih => exact fun frames => hframe fuel frames ▸ ih _
  replace hreach := hreach.tail h
  induction hreach using ReflTransGen.head_induction_on generalizing fuel frames with
  | refl => exact hstay fuel frames
  | head hnext _ ih =>
    obtain ⟨frame, hframe⟩ := expand_of_next hnext
    cases fuel with
    | zero => rfl
    | succ fuel => exact hframe fuel frames ▸ ih fuel _

lemma expand_returns (fuel : ℕ) (hfuel : inliningID pos < fuel) (frames : List (Frame σ))
    (h : ∀ q r, ReflTransGen (Next code getSFI) pos q → Next code getSFI q r →
      inliningID r ≠ inliningID q) : (expand code getSFI fuel pos frames).1 ≠ .error .hang ∧
      (expand code getSFI fuel pos frames).2.length ≤ frames.length + inliningID pos + 1 := by
  induction fuel generalizing pos frames with
  | zero => omega
  | succ fuel ih =>
    unfold expand
    split
    · simp
    · next hid =>
      cases hsfi : inlinedSFI code getSFI (inliningID pos) with
      | error err => simp; omega
      | ok sfi =>
        simp only
        split
        · simp
        · next hle =>
          have hnext : Next code getSFI pos _ := ⟨hid, ⟨sfi, hsfi⟩, rfl, not_lt.1 hle⟩
          have hne := h pos _ .refl hnext
          obtain ⟨hreturns, hlength⟩ := ih (by omega) (frames ++ [generateNativeFrame pos sfi])
            fun q r hq => h q r (hq.head hnext)
          refine ⟨hreturns, ?_⟩
          simp only [List.length_append, List.length_singleton] at hlength
          omega

lemma callerPosition_behind {id : ℕ} (hid : id ≤ 2 ^ 16) (h : code.count < id) :
    callerPosition code id = 0 := by
  unfold V8Code.count at h
  rw [callerPosition, npsrPtr, npsrNat, if_pos (by omega)]
  rfl

/-- Expansion returns with a frame per position exactly when no position on the way names its own
ID, and one is there if needed. -/
theorem expand_bounded_iff (code : V8Code σ) (getSFI : Word → Except String σ) (pos : Word) :
    (∃ fuel, (expand code getSFI fuel pos []).1 ≠ .error .hang ∧
        (expand code getSFI fuel pos []).2.length ≤ code.count + 1) ↔
      (∀ q r, ReflTransGen (Next code getSFI) pos q → Next code getSFI q r →
        inliningID r ≠ inliningID q) ∧
      (code.inliningPositions = [] → ∀ q, ¬Next code getSFI pos q) := by
  have hsmall : inliningID pos ≤ 2 ^ 16 := by
    unfold inliningID
    omega
  constructor
  · rintro ⟨fuel, hreturns, hlength⟩
    refine ⟨fun q r hq hr hself => hreturns (expand_hangs hq hr hself fuel []), fun hnil q hq => ?_⟩
    have hcount : code.count = 0 := by simp [V8Code.count, hnil]
    obtain ⟨frame, hframe⟩ := expand_of_next hq
    obtain ⟨hid, -, rfl, -⟩ := hq
    rw [callerPosition_behind hsmall (by omega)] at hframe
    rcases fuel with _ | _ | fuel
    · exact hreturns rfl
    · exact hreturns (congrArg Prod.fst (hframe 0 []))
    · rw [hframe, expand, if_pos (by decide)] at hlength
      simp [hcount] at hlength
  · rintro ⟨hfree, hnil⟩
    have hrun := expand_returns (inliningID pos + 1) (Nat.lt_succ_self _) [] hfree
    refine ⟨inliningID pos + 1, hrun.1, ?_⟩
    by_cases hbehind : code.count < inliningID pos
    · cases hsfi : inlinedSFI code getSFI (inliningID pos) with
      | error err => simp [expand, hsfi, show inliningID pos ≠ 0 by omega]
      | ok sfi =>
        have hcaller := callerPosition_behind hsmall hbehind
        have hnext : Next code getSFI pos 0 :=
          ⟨by omega, ⟨sfi, hsfi⟩, hcaller.symm, Nat.zero_le _⟩
        have hpos := List.length_pos_of_ne_nil fun hempty => hnil hempty 0 hnext
        obtain ⟨frame, hframe⟩ := expand_of_next hnext
        obtain ⟨id, hid⟩ : ∃ id, inliningID pos = id + 1 := ⟨inliningID pos - 1, by omega⟩
        rw [hframe, hid, expand, if_pos (by decide), V8Code.count]
        simp
        omega
    · have hlength := hrun.2
      simp only [List.length_nil] at hlength
      omega

/-- The only inlining position is inlined at itself. -/
def selfInlined : V8Code Unit :=
  ⟨(), [], [0, 0, 0, 128, 0, 0, 0, 0, 255, 255, 255, 255, 0, 0, 0, 0]⟩

theorem expand_selfInlined : selfInlined.count = 1 ∧
    ∀ fuel, (expand selfInlined (fun _ => .error "") fuel 0x80000000 []).1 = .error .hang :=
  ⟨rfl, fun fuel => expand_hangs .refl ⟨by decide, ⟨(), by decide⟩, rfl, by decide⟩
    (by decide) fuel []⟩

end EbpfProfiler.Interpreter.V8
