import EbpfProfiler.Lib.LastLe
import EbpfProfiler.StackDeltas.LoadDeltas

/-!
# What stack deltas mean

`BasicBlock.infoAt` reads the blocks of the extractor, `readDeltas` the loaded table as
`unwind_one_frame` does.
-/

namespace EbpfProfiler.StackDeltas

open Lib (lastLe readAt)

/-! ## The eBPF reading -/

/-- The recipe of an index: an encoded command, or an entry of the array. -/
def UnwindTable.decode (t : UnwindTable) (unwindInfo : BitVec 16) : UnwindInfo :=
  if unwindInfo &&& deltaCommandFlag ≠ 0 then
    .command ((unwindInfo &&& ~~~deltaCommandFlag).setWidth 32)
  else
    t.unwindInfoArray unwindInfo

/-- The recipe `addrDiff` bytes after the delta, as `unwind_one_frame` changes `param`. -/
def UnwindInfo.applyMerge (info : UnwindInfo) (addrDiff : ℤ) : UnwindInfo :=
  if info.mergeOpcode ≠ 0 ∧
    ((info.mergeOpcode &&& ~~~mergeOpcodeNegative).toNat : ℤ) ≤ addrDiff then
    { info.withMerge 0 with
      param := info.param + (if info.mergeOpcode &&& mergeOpcodeNegative ≠ 0 then -8 else 8) }
  else
    info.withMerge 0

def readInfo (info : UnwindInfo) (distance : ℕ) : UnwindInfo := info.applyMerge distance

/-- The recipe of the loaded deltas for `a`: the last delta up to it, decoded and merged. -/
def readDeltas (t : UnwindTable) (deltas : List StackDeltaEBPF) (a : ℕ) : Option UnwindInfo :=
  readAt readInfo (deltas.map fun d => (d.address, t.decode d.unwindInfo)) a

/-! ## The extractor's reading -/

/-- The recipe of the last delta of the block with `start + offset ≤ a`. -/
def BasicBlock.infoAt (b : BasicBlock) (a : ℕ) : Option UnwindInfo :=
  (lastLe (b.deltas.map fun d => (b.start + d.offset, d.info)) a).map (·.2)

def BasicBlock.isSignal (b : BasicBlock) : Bool :=
  match b.deltas.head? with
  | some d => d.info.isSignal
  | none => false

def IntervalData.SignalAt (iv : IntervalData) (a : ℕ) : Prop :=
  ∃ b ∈ iv.blocks, b.start = a ∧ b.isSignal = true

/-- `read` gives each address of a block its recipe, except for the byte before a trampoline. -/
def IntervalData.MeansInput (iv : IntervalData) (read : ℕ → Option UnwindInfo) : Prop :=
  ∀ b ∈ iv.blocks, ∀ a, b.start ≤ a → a < b.end →
    read a = b.infoAt a ∨ (iv.SignalAt (a + 1) ∧ read a = some .signal)

/-! ## Well-formed input -/

/-- A block as the extractors promise it. -/
structure BasicBlock.WellFormed (b : BasicBlock) : Prop where
  end_lt : b.end < 2 ^ 64
  head : b.deltas.head?.map (·.offset) = some 0
  sorted : b.deltas.Pairwise fun d e => d.offset < e.offset
  inside : ∀ d ∈ b.deltas, b.start + d.offset < b.end
  offset_lt : ∀ d ∈ b.deltas, d.offset < 2 ^ 32
  canonical : ∀ d ∈ b.deltas, d.info.Canonical
  signal : ∀ d ∈ b.deltas, d.info.isSignal = true → d.offset = 0

instance (b : BasicBlock) : Decidable b.WellFormed :=
  decidable_of_iff (b.end < 2 ^ 64 ∧ b.deltas.head?.map (·.offset) = some 0 ∧
      (b.deltas.Pairwise fun d e => d.offset < e.offset) ∧
      ∀ d ∈ b.deltas, b.start + d.offset < b.end ∧ d.offset < 2 ^ 32 ∧ d.info.Canonical ∧
        (d.info.isSignal = true → d.offset = 0))
    ⟨fun h => ⟨h.1, h.2.1, h.2.2.1, fun d hd => (h.2.2.2 d hd).1, fun d hd => (h.2.2.2 d hd).2.1,
      fun d hd => (h.2.2.2 d hd).2.2.1, fun d hd => (h.2.2.2 d hd).2.2.2⟩,
    fun h => ⟨h.end_lt, h.head, h.sorted,
      fun d hd => ⟨h.inside d hd, h.offset_lt d hd, h.canonical d hd, h.signal d hd⟩⟩⟩

/-- Sorted, pairwise disjoint blocks, each well-formed, and the right delta count. -/
structure IntervalData.WellFormed (iv : IntervalData) : Prop where
  numDeltas : iv.numDeltas = (iv.blocks.map (·.deltas.length)).sum
  blocks : ∀ b ∈ iv.blocks, b.WellFormed
  disjoint : iv.blocks.Pairwise fun b b' => b.end ≤ b'.start

instance (iv : IntervalData) : Decidable iv.WellFormed :=
  decidable_of_iff (iv.numDeltas = (iv.blocks.map (·.deltas.length)).sum ∧
      (∀ b ∈ iv.blocks, b.WellFormed) ∧ iv.blocks.Pairwise fun b b' => b.end ≤ b'.start)
    ⟨fun h => ⟨h.1, h.2.1, h.2.2⟩, fun h => ⟨h.numDeltas, h.blocks, h.disjoint⟩⟩

/-! ## Rows -/

/-- The neighbouring deltas that `loadDeltas` merges, greedily. -/
def mergedPairs : List StackDelta → List (StackDelta × StackDelta)
  | [] => []
  | [_] => []
  | d :: n :: ds =>
    if calculateMergeOpcode d n = 0 then mergedPairs (n :: ds) else (d, n) :: mergedPairs ds

def pairRow (start : ℕ) (d n : StackDelta) : ℕ × UnwindInfo :=
  (deltaAddr start d.offset d.info, d.info.withMerge (calculateMergeOpcode d n))

def blockRows (start : ℕ) : List StackDelta → List (ℕ × UnwindInfo)
  | [] => []
  | [d] => [(deltaAddr start d.offset d.info, d.info)]
  | d :: n :: ds =>
    pairRow start d n ::
      (if calculateMergeOpcode d n = 0 then blockRows start (n :: ds) else blockRows start ds)

def rows : List BasicBlock → List (ℕ × UnwindInfo)
  | [] => []
  | b :: bs =>
    blockRows b.start b.deltas ++
      ((if needsMarker b bs then [(b.end, .invalid)] else []) ++ rows bs)

/-- A merged pair differs in `param` only, or ends before a trampoline, and no row with a merge
opcode repeats the one before. -/
structure IntervalData.MergesKept (iv : IntervalData) : Prop where
  flags : ∀ b ∈ iv.blocks, ∀ p ∈ mergedPairs b.deltas,
    p.1.info.flags = p.2.info.flags ∨ iv.SignalAt (b.start + p.2.offset + 1)
  repeats : (rows iv.blocks).IsChain fun x y => x.2 = y.2 → y.2.mergeOpcode = 0

end EbpfProfiler.StackDeltas
