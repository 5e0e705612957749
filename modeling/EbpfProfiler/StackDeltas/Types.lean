import Mathlib.Algebra.Ring.Nat
import Mathlib.Data.List.Basic
import EbpfProfiler.Lib.Machine

/-!
# Stack deltas: the data the extractors hand to the loader

The types of `nativeunwind/stackdeltatypes` with the constants of `support/types.go`.
-/

namespace EbpfProfiler.StackDeltas

/-! ## Constants -/

def unwindFlagCommand : BitVec 8 := 1

def unwindCommandInvalid : BitVec 32 := 0

def unwindCommandStop : BitVec 32 := 1

def unwindCommandPLT : BitVec 32 := 2

def unwindCommandSignal : BitVec 32 := 3

def unwindCommandFramePointer : BitVec 32 := 4

def unwindCommandGoAsmcgocall : BitVec 32 := 0x4005

def unwindCommandGoMorestack : BitVec 32 := 0x4006

def mergeOpcodeNegative : BitVec 8 := 0x80

/-- `support.DeltaCommandFlag`, `STACK_DELTA_COMMAND_FLAG` on the eBPF side. -/
def deltaCommandFlag : BitVec 16 := 0x8000

def stackDeltaPageBits : ℕ := 16

/-- `sdtypes.MinimumGap`: blocks closer than this are not separated by a marker. -/
def minimumGap : ℕ := 15

/-! ## Unwind recipes -/

/-- `support.UnwindInfo`: how to recover the caller's frame. -/
structure UnwindInfo where
  flags : BitVec 8 := 0
  baseReg : BitVec 8 := 0
  auxBaseReg : BitVec 8 := 0
  mergeOpcode : BitVec 8 := 0
  param : BitVec 32 := 0
  auxParam : BitVec 32 := 0
  deriving DecidableEq, Inhabited

namespace UnwindInfo

/-- `info.Flags&support.UnwindFlagCommand != 0`: `param` is a command. -/
def isCommand (info : UnwindInfo) : Bool := info.flags &&& unwindFlagCommand ≠ 0

def command (param : BitVec 32) : UnwindInfo := { flags := unwindFlagCommand, param := param }

/-- `sdtypes.UnwindInfoInvalid`. -/
def invalid : UnwindInfo := command unwindCommandInvalid

/-- `sdtypes.UnwindInfoStop`. -/
def stop : UnwindInfo := command unwindCommandStop

/-- `sdtypes.UnwindInfoSignal`. -/
def signal : UnwindInfo := command unwindCommandSignal

/-- The test of `loadDeltas` for a signal trampoline. -/
def isSignal (info : UnwindInfo) : Bool :=
  info.isCommand && info.param == unwindCommandSignal

def withMerge (info : UnwindInfo) (op : BitVec 8) : UnwindInfo := { info with mergeOpcode := op }

@[simp] lemma mergeOpcode_withMerge (info : UnwindInfo) (op : BitVec 8) :
    (info.withMerge op).mergeOpcode = op := rfl

@[simp] lemma isCommand_withMerge (info : UnwindInfo) (op : BitVec 8) :
    (info.withMerge op).isCommand = info.isCommand := rfl

lemma withMerge_zero {info : UnwindInfo} (h : info.mergeOpcode = 0) : info.withMerge 0 = info := by
  rw [withMerge, ← h]

lemma param_command (p : BitVec 32) : (command p).param = p := rfl

@[simp] lemma isCommand_command (p : BitVec 32) : (command p).isCommand = true := by
  simp [isCommand, command, unwindFlagCommand]

/-- Recipes that a 16-bit index can carry: commands have 15 bits. -/
def Encodable (info : UnwindInfo) : Prop :=
  info.isCommand = true → info = command info.param ∧ info.param.toNat < 2 ^ 15

instance (info : UnwindInfo) : Decidable info.Encodable :=
  inferInstanceAs (Decidable (_ → _))

lemma encodable_invalid : invalid.Encodable := fun _ => ⟨rfl, by decide⟩

/-- What the extractors produce: an encodable recipe without a merge opcode. -/
structure Canonical (info : UnwindInfo) : Prop where
  merge : info.mergeOpcode = 0
  encodable : info.Encodable

instance (info : UnwindInfo) : Decidable info.Canonical :=
  decidable_of_iff (info.mergeOpcode = 0 ∧ info.Encodable)
    ⟨fun h => ⟨h.1, h.2⟩, fun h => ⟨h.merge, h.encodable⟩⟩

lemma Canonical.eq_signal {info : UnwindInfo} (h : info.Canonical)
    (hs : info.isSignal = true) : info = signal := by
  rw [isSignal, Bool.and_eq_true, beq_iff_eq] at hs
  rw [(h.encodable hs.1).1, hs.2, signal]

end UnwindInfo

/-! ## Blocks -/

/-- `sdtypes.StackDelta`: from `offset` bytes into the block on, unwind with `info`. -/
structure StackDelta where
  offset : ℕ
  info : UnwindInfo
  deriving DecidableEq

/-- `sdtypes.BasicBlock`: the code range `[start, end)` with its deltas. -/
structure BasicBlock where
  start : ℕ
  «end» : ℕ
  deltas : List StackDelta
  deriving DecidableEq

/-- `sdtypes.IntervalData`: all blocks of one executable. -/
structure IntervalData where
  numDeltas : ℕ
  blocks : List BasicBlock
  deriving DecidableEq

/-- `StackDeltaArray.Add`: commands lose their other bits, and repeats are dropped. -/
def StackDeltaArray.add (deltas : List StackDelta) (offset : ℕ) (info : UnwindInfo) :
    List StackDelta :=
  let info := if info.isCommand then UnwindInfo.command info.param else info
  match deltas.getLast? with
  | some last => if last.info = info then deltas else deltas ++ [⟨offset, info⟩]
  | none => deltas ++ [⟨offset, info⟩]

lemma StackDeltaArray.add_cases (deltas : List StackDelta) (offset : ℕ) (info : UnwindInfo) :
    (add deltas offset info = deltas ∧ ∃ last, deltas.getLast? = some last ∧
      last.info = if info.isCommand then .command info.param else info) ∨
    add deltas offset info = deltas ++
      [⟨offset, if info.isCommand then .command info.param else info⟩] := by
  unfold add
  generalize (if info.isCommand then UnwindInfo.command info.param else info) = reduced
  dsimp only
  split
  · next last hlast =>
    split
    · next heq => exact .inl ⟨rfl, last, hlast, heq⟩
    · exact .inr rfl
  · exact .inr rfl

/-- `IntervalData.Add`: a single delta that continues the last block is merged into it. -/
def IntervalData.add (intervals : IntervalData) (bb : BasicBlock) : IntervalData :=
  let append : IntervalData :=
    { numDeltas := (intervals.numDeltas + bb.deltas.length) % 2 ^ 32
      blocks := intervals.blocks ++ [bb] }
  match intervals.blocks.getLast? with
  | none => append
  | some lastBlock =>
    if bb.deltas.length = 1 ∧ lastBlock.deltas.length = 1 ∧
        bb.deltas.head? = lastBlock.deltas.head? ∧
        Lib.subWord 64 bb.start lastBlock.end ≤ minimumGap then
      { intervals with
        blocks := intervals.blocks.dropLast ++ [{ lastBlock with «end» := bb.end }] }
    else append

end EbpfProfiler.StackDeltas
