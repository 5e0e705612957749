import Mathlib.Data.List.Sort
import EbpfProfiler.Lib.Emit
import EbpfProfiler.RetPads.Disas
import EbpfProfiler.SymbConv.Multi

/-!
# Return pads

`symblib/src/retpads.rs`. The interval tree is a library that gives the ranges of an address.
-/

namespace EbpfProfiler.RetPads

open Lib
open SymbFile (U32 U64 Range ReturnPad ReturnPadEntry LineTableEntry)
open SymbConv (vaRange Arch)

/-- `retpads::Error`, as far as it is returned. -/
inductive Error
  | unsupportedArch
  | symbfile (err : SymbFile.Error)
  | objfile
  | disas (err : DisasError)
  | other
  deriving DecidableEq

/-- The loop of `line_number_for_va`. -/
def lineLoop (maxOffs : ℕ) : Option U32 → List LineTableEntry → Option U32
  | line, [] => line
  | line, row :: rows =>
    if row.offset.toNat > maxOffs then line else lineLoop maxOffs (some row.lineNumber) rows

def lineNumberForVa (rng : Range) (va : U64) : Option U32 :=
  if va < rng.elfVa then none else lineLoop (va.toNat - rng.elfVa.toNat) none rng.lineTable

def Holds (va : U64) (rng : Range) : Prop := (vaRange rng).Contains va.toNat

instance (va : U64) : DecidablePred (Holds va) := fun rng =>
  inferInstanceAs (Decidable ((vaRange rng).Contains va.toNat))

def queryPoint (tree : List Range) (va : U64) : List Range := tree.filter fun rng => Holds va rng

/-- The order of `sort_unstable_by_key`. -/
def DepthLe (a b : Range) : Prop := a.depth.toNat ≤ b.depth.toNat

instance :
    DecidableRel DepthLe := fun a b => inferInstanceAs (Decidable (a.depth.toNat ≤ b.depth.toNat))

/-- The matches in ascending depth order. -/
def matchesAt (tree : List Range) (va : U64) : List Range :=
  (queryPoint tree va).insertionSort DepthLe

/-- The loop over the matches; `none` where there is a hole in the inline chain. -/
def inlineEntries (callVa : U64) : List Range → Option (List ReturnPadEntry)
  | [] => some []
  | [leaf] => some [⟨leaf.func, leaf.file, lineNumberForVa leaf callVa⟩]
  | cur :: next :: rest =>
    if cur.depth + 1 ≠ next.depth then none
    else (inlineEntries callVa (next :: rest)).map (⟨cur.func, next.callFile, next.callLine⟩ :: ·)

section
variable (mem : MemoryMap) (decoder : InstrDecoder)

def codeOf (rng : Range) : Option (List Byte) := mem.sliceForAddr rng.elfVa (rng.length.setWidth 64)

/-- `go_stack_start_special_case`: a return address into `runtime.goexit` put there by hand. -/
def goStackStart (outerFunc : Range) : Option ReturnPad :=
  if outerFunc.func ≠ "runtime.goexit" then none
  else
    match codeOf mem outerFunc with
    | none => none
    | some code =>
      match decoder.decode outerFunc.elfVa code with
      | .error _ => none
      | .ok firstInsn =>
        some ⟨outerFunc.elfVa + firstInsn.length.setWidth 64 - 1,
          [⟨outerFunc.func, outerFunc.file, none⟩]⟩

/-- The first loop of `process_tree`: the calls at depth zero, up to a decoding error. -/
def collectCalls : List Range → Except Error (List InstrInfo)
  | [] => .ok []
  | rng :: rest =>
    if rng.depth ≠ 0 then collectCalls rest
    else
      match codeOf mem rng with
      | none => collectCalls rest
      | some code =>
        match decodeAll decoder rng.elfVa code with
        | (_, some .other) => .error (.disas .other)
        | (insns, _) => (collectCalls rest).map (insns.filter (·.isCall) ++ ·)

variable (visitor : List ReturnPad → ReturnPad → Except Error Unit)

/-- The second loop of `process_tree`, for one call. -/
def emitPad (subTree : List Range) (call : InstrInfo) : Emit Error ReturnPad Unit :=
  match inlineEntries call.addr (matchesAt subTree call.addr) with
  | none => pure ()
  | some [] => pure ()
  | some entries => visit visitor ⟨call.stop - 1, entries⟩

def processTree (subTree : List Range) : Emit Error ReturnPad Unit := do
  visitOption visitor (subTree.head?.bind (goStackStart mem decoder))
  let calls ← ofResult (collectCalls mem decoder subTree)
  calls.forM (emitPad visitor subTree)

/-- The loop of `extract_retpads`, with the ranges of the current tree. -/
def treeLoop : List (Except Error Range) → List Range → Emit Error ReturnPad Unit
  | [], treeBuf => if treeBuf = [] then pure () else processTree mem decoder visitor treeBuf
  | .error err :: _, _ => ofResult (.error err)
  | .ok rng :: rest, treeBuf =>
    if rng.depth = 0 ∧ treeBuf ≠ [] then do
      processTree mem decoder visitor treeBuf
      treeLoop rest [rng]
    else treeLoop rest (treeBuf ++ [rng])

end

/-- What `extract_retpads` sees: the memory map, perhaps unreadable, and the architecture. -/
structure Executable where
  memoryMap : Except Error MemoryMap
  arch : Option Arch

/-- The decoder for an architecture; `amd64` stands for `Amd64InstrDecoder`. -/
def decoderFor (amd64 : InstrDecoder) : Option Arch → Except Error InstrDecoder
  | some .x86_64 => .ok amd64
  | some .aarch64 => .ok aarch64InstrDecoder
  | none => .error .unsupportedArch

def extractRetpads
    (amd64 : InstrDecoder) (executable : Executable) (ranges : List (Except Error Range))
    (visitor : List ReturnPad → ReturnPad → Except Error Unit) : Emit Error ReturnPad Unit := do
  let mem ← ofResult executable.memoryMap
  let decoder ← ofResult (decoderFor amd64 executable.arch)
  treeLoop mem decoder visitor ranges []

end EbpfProfiler.RetPads
