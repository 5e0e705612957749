import EbpfProfiler.ElfUnwind.ExtractTheorems
import EbpfProfiler.ElfUnwind.Walk
import EbpfProfiler.StackDeltas.Intervals

/-!
# What the walk over a section promises

When the walk ends (`walkFDEs_ends_iff`), and when blocks cover their first address.
-/

namespace EbpfProfiler.ElfUnwind

open Lib StackDeltas List Comp

variable {cie : CieInfo} {c d : Cursor} {env : ExtractEnv} {deltas : List StackDelta} {r : Reader}

/-! ## The walk ends -/

def walkStart (ef : ElfFile) (frames : ElfRegion) (s : Extraction) : Extraction :=
  s.setReader (Cursor.init ef.underlying frames.offset.toNat frames.length.toNat)

def walkReader (ef : ElfFile) (frames : ElfRegion) (debugFrame : Bool) : Reader :=
  ⟨ef.machine, debugFrame, frames.vaddr, frames.offset.toNat, maxBufferSize⟩

/-- Every round of the loop of `step` takes a byte of the section, or is the last one. -/
def EveryRoundTakes (r : Reader) (cie : CieInfo) (go : State → CfaInstruction → Bool) (d : Cursor) :
    Prop :=
  ∀ p q, Relation.ReflTransGen (Round r cie go) (.first cie, d) p → Round r cie go p q →
    q.2.remaining < p.2.remaining

/-- The walk from `s` returns: its loop is not cut off, and every entry and instruction takes
bytes. -/
structure WalkEnds (ee : ElfExtractor) (ef : ElfFile) (frames : ElfRegion) (debugFrame : Bool)
    (s : Extraction) : Prop where
  returns : ¬ (walkFDEs ee ef frames debugFrame).Hangs s
  complete : ∀ fuel, frames.length.toNat ≤ fuel →
    (walkLoop ee (walkReader ef frames debugFrame) fuel).exec (walkStart ef frames s) =
      (walkFDEs ee ef frames debugFrame).exec s
  entries : ∀ t u, Heads ee (walkReader ef frames debugFrame) (walkStart ef frames s) t →
    Entry ee (walkReader ef frames debugFrame) t u → u.reader.remaining < t.reader.remaining
  cies : ∀ t r cie d, Heads ee (walkReader ef frames debugFrame) (walkStart ef frames s) t →
    t.reader.remaining ≠ 0 → ExecutesCie (walkReader ef frames debugFrame) t r cie d →
    EveryRoundTakes r cie withinRow d
  fdes : ∀ t cie d, Heads ee (walkReader ef frames debugFrame) (walkStart ef frames s) t →
    t.reader.remaining ≠ 0 → ExecutesFde ee (walkReader ef frames debugFrame) t cie d →
    EveryRoundTakes (walkReader ef frames debugFrame) cie (withinFde ee.allowGenericRegs) d

/-- No executed instructions come to the end of the file before that of their entry. -/
structure InstructionsEnd (ee : ElfExtractor) (r : Reader) (s : Extraction) : Prop where
  cies : ∀ t r' cie d, Heads ee r s t → t.reader.remaining ≠ 0 → ExecutesCie r t r' cie d →
    ¬ RunsOut r' cie withinRow (.first cie) d
  fdes : ∀ t cie d, Heads ee r s t → t.reader.remaining ≠ 0 → ExecutesFde ee r t cie d →
    ¬ RunsOut r cie (withinFde ee.allowGenericRegs) (.first cie) d

lemma everyRoundTakes_of_not_runsOut {go : State → CfaInstruction → Bool}
    (h : ¬ RunsOut r cie go (.first cie) d) : EveryRoundTakes r cie go d := by
  intro p q hrun hround
  rcases hround.progress with ⟨-, -, hlt⟩ | ⟨hzero, -⟩
  · exact hlt
  · exact absurd ⟨p, hrun, hround.1, hzero⟩ h

lemma exec_walkFDEs (ee : ElfExtractor) (ef : ElfFile) (frames : ElfRegion) (debugFrame : Bool)
    (s : Extraction) : (walkFDEs ee ef frames debugFrame).exec s =
      (walkLoop ee (walkReader ef frames debugFrame) frames.length.toNat).exec
        (walkStart ef frames s) := rfl

lemma remaining_walkStart (ef : ElfFile) (frames : ElfRegion) (s : Extraction) :
    (walkStart ef frames s).reader.remaining = frames.length.toNat := by
  show frames.length.toNat - 0 = _
  exact Nat.sub_zero _

lemma walkEnds_iff (ee : ElfExtractor) (ef : ElfFile) (frames : ElfRegion) (debugFrame : Bool)
    (s : Extraction) : WalkEnds ee ef frames debugFrame s ↔
      InstructionsEnd ee (walkReader ef frames debugFrame) (walkStart ef frames s) := by
  have hrem := remaining_walkStart ef frames s
  have hhangs : (walkFDEs ee ef frames debugFrame).Hangs s ↔ ∃ t,
      Heads ee (walkReader ef frames debugFrame) (walkStart ef frames s) t ∧
        t.reader.remaining ≠ 0 ∧ (walkEntry ee (walkReader ef frames debugFrame)).Hangs t := by
    rw [Comp.Hangs, exec_walkFDEs]
    exact walkLoop_hangs_iff (by omega)
  constructor
  · intro hends
    have hnot := hends.returns
    rw [hhangs] at hnot
    constructor
    · intro t r' cie d hheads hne hexec hout
      exact hnot ⟨t, hheads, hne, walkEntry_hangs_iff.mpr (.inl ⟨r', cie, d, hexec, hout⟩)⟩
    · intro t cie d hheads hne hexec hout
      exact hnot ⟨t, hheads, hne, walkEntry_hangs_iff.mpr (.inr ⟨cie, d, hexec, hout⟩)⟩
  · intro hend
    constructor
    · rw [hhangs]
      rintro ⟨t, hheads, hne, hhang⟩
      rcases walkEntry_hangs_iff.mp hhang with ⟨r', cie, d, hexec, hout⟩ | ⟨cie, d, hexec, hout⟩
      · exact hend.cies t r' cie d hheads hne hexec hout
      · exact hend.fdes t cie d hheads hne hexec hout
    · intro fuel hfuel
      exact walkLoop_fuel (by omega) (by omega)
    · intro t u _ hentry
      exact hentry.remaining_lt
    · intro t r' cie d hheads hne hexec
      exact everyRoundTakes_of_not_runsOut (hend.cies t r' cie d hheads hne hexec)
    · intro t cie d hheads hne hexec
      exact everyRoundTakes_of_not_runsOut (hend.fdes t cie d hheads hne hexec)

/-! A section that lies inside the file always ends. -/

/-- The file has all bytes of the section. -/
def Inside (c : Cursor) : Prop := c.slimit ≤ c.source.length

lemma Inside.of_before (hc : Inside c) (h : c.Before d) : Inside d := by
  rw [Inside, h.slimit, h.source]
  exact hc

lemma Inside.startSection {n : ℕ} (hc : Inside c)
    (h : (Comp.startSection n).exec c = (.ok (), d)) : Inside d := by
  obtain ⟨hle, rfl⟩ := exec_startSection_ok h
  exact hle.trans hc

/-- **Run lemma.** Instructions inside the file do not run out. -/
lemma Inside.not_runsOut {go : State → CfaInstruction → Bool} {st : State} (hc : Inside c) :
    ¬ RunsOut r cie go st c := by
  rintro ⟨p, hrun, hrem, hzero⟩
  have hp : Inside p.2 := by
    clear hrem hzero
    induction hrun with
    | refl => exact hc
    | tail _ hround ih =>
      rcases hround.progress with ⟨-, hbefore, -⟩ | ⟨-, heq⟩
      · exact ih.of_before hbefore
      · rwa [heq]
  unfold Inside at hp
  unfold Cursor.remaining at hrem
  unfold Cursor.available at hzero
  omega

lemma CieAt.inside {n : ℕ} (h : CieAt r n c cie d) (hc : Inside c) : Inside d := by
  obtain ⟨c₁, hstart, hheader⟩ := h
  exact (hc.startSection hstart).of_before ((reads_parseCIEHeader r).forward _ _ _ hheader)

lemma Heads.inside {ee : ElfExtractor} {s t : Extraction} (h : Heads ee r s t)
    (hs : Inside s.reader) : Inside t.reader := by
  induction h with
  | refl => exact hs
  | tail _ hentry ih => exact ih.of_before (walkEntry_progress hentry.2).1

lemma instructionsEnd_of_inside {ee : ElfExtractor} {s : Extraction} (hs : Inside s.reader) :
    InstructionsEnd ee r s := by
  constructor
  · intro t r' cie d hheads _ hexec
    have ht := hheads.inside hs
    cases hexec with
    | own hentry _ hcie =>
      have hc := ht.of_before (parseLengthAndMarker_progress hentry).1
      exact (hcie.inside hc).not_runsOut
    | @ofFde _ ciePos c _ _ hentry _ hcie =>
      -- the reader of the CIE has the same section
      obtain ⟨length, marker, c₁, hentry', -, hcie⟩ := hcie
      have hc := ht.of_before (parseLengthAndMarker_progress hentry).1
      have hseek : Inside (r.seekCIE ciePos.toNat c) := hc
      have hc₁ := hseek.of_before (parseLengthAndMarker_progress hentry').1
      exact (hcie.inside hc₁).not_runsOut
  · intro t cie d hheads _ hexec
    have ht := hheads.inside hs
    cases hexec with
    | mk hentry _ _ hfde =>
      obtain ⟨c₁, hstart, hheader⟩ := hfde
      have hc := ht.of_before (parseLengthAndMarker_progress hentry).1
      exact ((hc.startSection hstart).of_before
        ((reads_fdeHeader r cie).forward _ _ _ hheader)).not_runsOut

/-- **Main result.** The walk ends exactly if no executed instructions run out; so it does for every
section inside its file. -/
theorem walkFDEs_ends_iff
    (ee : ElfExtractor) (ef : ElfFile) (frames : ElfRegion) (debugFrame : Bool) (s : Extraction) :
    (WalkEnds ee ef frames debugFrame s ↔
      InstructionsEnd ee (walkReader ef frames debugFrame) (walkStart ef frames s)) ∧
    (frames.offset.toNat + frames.length.toNat ≤ min ef.underlying.length (2 ^ 63 - 1) →
      WalkEnds ee ef frames debugFrame s) := by
  have hiff := walkEnds_iff ee ef frames debugFrame s
  refine ⟨hiff, fun hinside => hiff.mpr (instructionsEnd_of_inside ?_)⟩
  show frames.length.toNat ≤ (if _ then _ else _ : List Byte).length
  rw [if_pos (by omega), List.length_take, List.length_drop]
  omega

/-- A file that ends inside the instructions of its first CIE. -/
def truncatedFile : ElfFile :=
  { ehFrameFile [] with underlying := ordinaryEhFrame.take 21 }

/-- The section header still has the old length. -/
theorem walkFDEs_truncated_hangs :
    ¬ WalkEnds ⟨truncatedFile, false⟩ truncatedFile ⟨0, 56, 0x20000⟩ false
      ⟨⟨[], 0, 0, []⟩, ⟨0, []⟩, {}⟩ := by
  intro hends
  apply hends.returns
  have hfault : ((walkFDEs ⟨truncatedFile, false⟩ truncatedFile ⟨0, 56, 0x20000⟩ false).exec
      ⟨⟨[], 0, 0, []⟩, ⟨0, []⟩, {}⟩).1 = .error .hang := by decide +kernel
  exact hangs_of_fst hfault

/-! ## Blocks and their first address -/

/-- There is a delta for the first address. -/
def StartsAtZero (deltas : List StackDelta) : Prop := deltas.head?.map (·.offset) = some 0

instance (deltas : List StackDelta) : Decidable (StartsAtZero deltas) :=
  inferInstanceAs (Decidable (_ = _))

lemma startsAtZero_add_nil (info : UnwindInfo) : StartsAtZero (StackDeltaArray.add [] 0 info) := rfl

/-- **Step lemma.** More deltas do not change the first one. -/
lemma StartsAtZero.add (h : StartsAtZero deltas) (offset : ℕ) (info : UnwindInfo) :
    StartsAtZero (StackDeltaArray.add deltas offset info) := by
  cases deltas with
  | nil => cases h
  | cons d rest =>
    rcases StackDeltaArray.add_cases (d :: rest) offset info with ⟨heq, -⟩ | heq
    · rw [heq]
      exact h
    · rw [heq]
      exact h

section Walking

variable {ee : ElfExtractor} {r : Reader} {t u : Extraction}

section
variable {ciePos : Word} {n : ℕ}
  (hentry : (parseLengthAndMarker r).exec t.reader = (.ok (some (n, ciePos)), c))
include hentry

lemma ExecutesFde.unique {ipStart ipLen : Word} {d' : Cursor} {cie' : CieInfo}
    (hcie : (processCIE r ciePos.toNat).exec c = (.ok cie, c)) (h : FdeAt r n c cie ipStart ipLen d)
    (hexec : ExecutesFde ee r t cie' d') :
    d' = d ∧ RunsInstructions ee t.filter cie ipStart ipLen := by
  cases hexec with
  | mk hentry' _ hcie' h' hruns =>
    cases hentry.symm.trans hentry'
    cases hcie.symm.trans hcie'
    obtain ⟨c₁, hstart, hread⟩ := h
    obtain ⟨c₂, hstart', hread'⟩ := h'
    cases hstart.symm.trans hstart'
    cases hread.symm.trans hread'
    exact ⟨rfl, hruns⟩

end

end Walking

/-! The sources of a file. -/

section Sources

variable {ee : ElfExtractor} {s u : Extraction}

lemma parsePclntab_startsAtZero {rowInfo : BitVec 32 → Strategy → UnwindInfo} {strategy : Strategy}
    {p : PcVal} (hstart : p.pcStart = 0) (fuel : ℕ) :
    StartsAtZero (parsePclntab rowInfo strategy (fuel + 1) p []) := by
  rw [parsePclntab, hstart]
  split
  · exact startsAtZero_add_nil _
  · exact parsePclntab_keeps (fun _ offset _ h => h.add offset _) _ _ (startsAtZero_add_nil _)

lemma getPcval_pcStart {g : Gopclntab} {offs : BitVec 32} {startPc : Word} {p : PcVal}
    (h : g.getPcval offs startPc = .ok p) : p.pcStart = startPc := by
  unfold Gopclntab.getPcval at h
  split at h
  · cases h
  · split at h
    · cases h
    · next q hstep =>
      split at h
      · cases h
      · cases h
        unfold PcVal.step at hstep
        split at hstep
        · cases hstep
        · obtain ⟨d, -, hstep⟩ := Option.bind_eq_some_iff.mp hstep
          obtain ⟨e, -, hstep⟩ := Option.bind_eq_some_iff.mp hstep
          cases hstep
          rfl

end Sources

end EbpfProfiler.ElfUnwind
