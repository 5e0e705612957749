import EbpfProfiler.SymbConv.CovMap
import EbpfProfiler.SymbFile.Proto

/-!
# Combining range extractors

The multi extractor (`symbconv/multi.rs`). An extractor is a tree: it produces a range, is told
whether the callback failed, and goes on.
-/

namespace EbpfProfiler.SymbConv

open SymbFile (Range)

/-- `Range::va_range`, with a sum that saturates. -/
def vaRange (rng : Range) : VaRange :=
  ⟨rng.elfVa.toNat, min (rng.elfVa.toNat + rng.length.toNat) (2 ^ 64 - 1)⟩

/-- The supported architectures. -/
inductive Arch where
  | aarch64
  | x86_64

/-- The least distance of instructions. -/
def Arch.minCodeAlign : Arch → ℕ
  | aarch64 => 4
  | x86_64 => 1

/-- A section in memory. -/
structure Segment where
  virtAddr : ℕ
  virtSize : ℕ
  executable : Bool

/-- The addresses of a segment. -/
def Segment.vaRange (s : Segment) : VaRange := ⟨s.virtAddr, (s.virtAddr + s.virtSize) % 2 ^ 64⟩

/-- `memory_map`: the segments by their addresses. -/
def memoryMap (segments : List Segment) : List Segment :=
  segments.mergeSort fun a b => a.virtAddr ≤ b.virtAddr

/-- The executable sections, by address. -/
def codeSections (segments : List Segment) : List VaRange :=
  ((memoryMap segments).filter (·.executable)).map Segment.vaRange

/-- What an extractor does, with the visitor's errors `V`, its own `E`, and statistics `S`. -/
inductive Extraction (V E S : Type) where
  | finish (result : Except E (Option S))
  | produce (rng : Range) (next : Except V Unit → Extraction V E S)

/-- A range that was produced, with what became of it. -/
structure Entry where
  extractor : ℕ
  range : Range
  accepted : Bool
  deriving DecidableEq

/-- The coverage map and the visitor; the log, last first, is for the statements. -/
structure Shared where
  covMap : List CovMap
  passed : List Range
  log : List Entry

/-- The state of `run_extractor`. -/
structure Run extends Shared where
  rangesProduced : ℕ
  rangesRejected : ℕ
  rangesAccepted : ℕ
  unexpectedInlineChildren : ℕ
  acceptInlineFor : Option VaRange

/-- The statistics of one extractor. -/
structure PerExtractorStats (E S : Type) where
  name : String
  rangesProduced : ℕ
  rangesAccepted : ℕ
  rangesRejected : ℕ
  unexpectedInlineChildren : ℕ
  stats : Option S
  error : Option E

/-- The statistics of all extractors. -/
structure Stats (E S : Type) where
  extractorsSucceeded : ℕ
  extractorsFailed : ℕ
  perExtractor : List (PerExtractorStats E S)

/-- Why there are no ranges. -/
inductive MultiError (E : Type) where
  | overlappingCodeSections
  | allExtractorsFailed (errors : List (String × E))

section
variable {V E S : Type}

/-- The visitor is given a range that was accepted. -/
def Run.pass (visitor : List Range → Range → Except V Unit) (s : Run) (rng : Range) :
    Run × Except V Unit :=
  ({ s with passed := s.passed ++ [rng] }, visitor s.passed rng)

/-- The callback of `run_extractor`, for the extractor with number `idx`. -/
def onRange (visitor : List Range → Range → Except V Unit) (idx : ℕ) (s : Run) (rng : Range) :
    Option (Run × Except V Unit) :=
  let s := { s with rangesProduced := s.rangesProduced + 1 }
  let rejected :=
    { s with rangesRejected := s.rangesRejected + 1, log := ⟨idx, rng, false⟩ :: s.log }
  let accepted :=
    { s with rangesAccepted := s.rangesAccepted + 1, log := ⟨idx, rng, true⟩ :: s.log }
  if rng.depth = 0 then
    (rangePartiallyCovered s.covMap (vaRange rng)).bind fun covered =>
      if covered then some ({ rejected with acceptInlineFor := none }, .ok ())
      else
        (addRange s.covMap (vaRange rng)).map fun covMap =>
          Run.pass visitor
            { accepted with acceptInlineFor := some (vaRange rng), covMap := covMap } rng
  else
    match s.acceptInlineFor with
    | some acceptRange =>
      if rangeOverlap acceptRange (vaRange rng) ≠ some (vaRange rng) then
        some ({ rejected with unexpectedInlineChildren := s.unexpectedInlineChildren + 1 }, .ok ())
      else some (Run.pass visitor accepted rng)
    | none => some (rejected, .ok ())

/-- An extractor with the callback. -/
def runExtraction (visitor : List Range → Range → Except V Unit) (idx : ℕ) :
    Extraction V E S → Run → Option (Run × Except E (Option S))
  | .finish result, s => some (s, result)
  | .produce rng next, s =>
    (onRange visitor idx s rng).bind fun res => runExtraction visitor idx (next res.2) res.1

/-- One extractor, after those before it. -/
def runExtractor (visitor : List Range → Range → Except V Unit) (idx : ℕ) (shared : Shared)
    (name : String) (extractor : Extraction V E S) : Option (Shared × PerExtractorStats E S) :=
  (runExtraction visitor idx extractor ⟨shared, 0, 0, 0, 0, none⟩).map fun (s, result) =>
    let (stats, error) := match result with
      | .ok stats => (stats, none)
      | .error e => (none, some e)
    (s.toShared, ⟨name, s.rangesProduced, s.rangesAccepted, s.rangesRejected,
      s.unexpectedInlineChildren, stats, error⟩)

/-- The loop over the extractors, from number `idx` on. -/
def runAll (visitor : List Range → Range → Except V Unit) :
    ℕ → List (String × Extraction V E S) → Shared → Option (Shared × List (PerExtractorStats E S))
  | _, [], shared => some (shared, [])
  | idx, (name, extractor) :: rest, shared =>
    (runExtractor visitor idx shared name extractor).bind fun first =>
      (runAll visitor (idx + 1) rest first.1).map fun res => (res.1, first.2 :: res.2)

/-- The result of `extract` from the statistics of the extractors. -/
def summarize (perExtractor : List (PerExtractorStats E S)) : Except (MultiError E) (Stats E S) :=
  let failed := (perExtractor.filter fun s => s.error.isSome).length
  let succeeded := (perExtractor.filter fun s => ¬ s.error.isSome).length
  if succeeded = 0 ∧ 0 < failed then
    .error (.allExtractorsFailed (perExtractor.filterMap fun s => s.error.map fun e => (s.name, e)))
  else .ok ⟨succeeded, failed, perExtractor⟩

/-- What a call of `extract` leaves and returns. -/
structure Outcome (E S : Type) where
  shared : Shared
  perExtractor : List (PerExtractorStats E S)
  result : Except (MultiError E) (Stats E S)

/-- How many addresses share a bit. -/
def covMapScale (arch : Option Arch) : ℕ := arch.elim 1 Arch.minCodeAlign

/-- `Extractor::extract` for an object file; `none` is a panic. -/
def extract (arch : Option Arch) (segments : List Segment)
    (inner : List (String × Extraction V E S))
    (visitor : List Range → Range → Except V Unit) : Option (Outcome E S) :=
  match (codeSections segments).foldlM
    (fun maps sec => addSegment maps (.withScale (covMapScale arch) sec)) [] with
  | .error _ => some ⟨⟨[], [], []⟩, [], .error .overlappingCodeSections⟩
  | .ok covMap =>
    (runAll visitor 0 inner ⟨covMap, [], []⟩).map fun res => ⟨res.1, res.2, summarize res.2⟩

end

end EbpfProfiler.SymbConv
