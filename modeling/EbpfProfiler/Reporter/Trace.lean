import Mathlib.Data.Finset.Fold
import Mathlib.Data.Finset.Image
import Mathlib.Data.BitVec

/-!
# Traces and their hash

`Trace.Hash` (`libpf/trace.go`). The hash functions `xxh3` and `labelHash` are parameters.
-/

namespace EbpfProfiler.Reporter

/-! ## Frames -/

/-- `libpf.FrameMappingFileData`: the file behind a mapping. -/
structure FrameMappingFileData where
  fileID : BitVec 128
  fileName : String
  gnuBuildID : String
  goBuildID : String
  deriving DecidableEq

/-- `libpf.FrameMappingData`: a mapping of a file. -/
structure FrameMappingData where
  file : FrameMappingFileData
  start : BitVec 64
  «end» : BitVec 64
  fileOffset : BitVec 64
  deriving DecidableEq

/-- `libpf.Frame`. `none` is the mapping that is not `Valid`. -/
structure Frame where
  functionName : String := ""
  sourceFile : String := ""
  mapping : Option FrameMappingData := none
  sourceLine : BitVec 64 := 0
  sourceColumn : BitVec 64 := 0
  addressOrLineno : BitVec 64 := 0
  functionOffset : BitVec 32 := 0
  type : BitVec 8
  deriving DecidableEq

/-- A `map[String]String`: pairs with unique keys. -/
structure Labels where
  pairs : Finset (String × String)
  unique : ∀ p ∈ pairs, ∀ q ∈ pairs, p.1 = q.1 → p = q
  deriving DecidableEq

def Labels.empty : Labels := ⟨∅, by simp⟩

/-- `libpf.Trace`. A zero `cachedHash` means that the hash has not been computed. -/
structure Trace where
  customLabels : Labels
  frames : List Frame
  cachedHash : BitVec 128 := 0
  deriving DecidableEq

/-! ## The bytes that are hashed -/

/-- `Hash128.Bytes`: big-endian. -/
def fileIDBytes (fileID : BitVec 128) : List (BitVec 8) :=
  (List.range 16).map fun i => (fileID >>> (8 * (15 - i))).setWidth 8

/-- The loop of `putUint64`, with `n` bytes of the buffer left. -/
def putBytes : ℕ → BitVec 64 → List (BitVec 8)
  | 0, _ => []
  | n + 1, v => v.setWidth 8 :: if v >>> 8 = 0 then [] else putBytes n (v >>> 8)

/-- `putUint64`: little-endian, without the high zero bytes. -/
def putUint64 (v : BitVec 64) : List (BitVec 8) := putBytes 8 v

/-- `binary.LittleEndian.PutUint64`. -/
def littleEndian (v : BitVec 64) : List (BitVec 8) :=
  (List.range 8).map fun i => (v >>> (8 * i)).setWidth 8

/-- What `Hash` writes for one frame. -/
def Frame.hashBytes (frame : Frame) : List (BitVec 8) :=
  let fileID := match frame.mapping with
    | some mapping => mapping.file.fileID
    | none => 0
  fileIDBytes fileID ++ putUint64 frame.addressOrLineno

section Hash

variable (xxh3 : List (BitVec 8) → BitVec 128) (labelHash : String × String → BitVec 64)

/-- The exclusive or of the label hashes. -/
def pairsDigest (pairs : Finset (String × String)) : BitVec 64 :=
  pairs.fold (fun x y : BitVec 64 => x ^^^ y) 0 labelHash

def Labels.digest (labels : Labels) : BitVec 64 := pairsDigest labelHash labels.pairs

/-- All bytes that `Hash` writes. -/
def Trace.hashInput (t : Trace) : List (BitVec 8) :=
  t.frames.flatMap Frame.hashBytes ++
    if t.customLabels.pairs = ∅ then [] else littleEndian (t.customLabels.digest labelHash)

def Trace.hash (t : Trace) : BitVec 128 :=
  if t.cachedHash ≠ 0 then t.cachedHash else xxh3 (t.hashInput labelHash)

/-- The cached hash, if there is one, is that of the trace. -/
def Trace.Fresh (t : Trace) : Prop :=
  t.cachedHash = 0 ∨ t.cachedHash = xxh3 (t.hashInput labelHash)

lemma Trace.Fresh.hash_eq {xxh3 : List (BitVec 8) → BitVec 128}
    {labelHash : String × String → BitVec 64} {t : Trace} (h : t.Fresh xxh3 labelHash) :
    t.hash xxh3 labelHash = xxh3 (t.hashInput labelHash) := by
  rw [Trace.hash]
  rcases h with h | h
  · rw [if_neg (by simpa using h)]
  · split
    · exact h
    · rfl

end Hash

def Trace.SameContent (t t' : Trace) : Prop :=
  t.frames = t'.frames ∧ t.customLabels = t'.customLabels

end EbpfProfiler.Reporter
