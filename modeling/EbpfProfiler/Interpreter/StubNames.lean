import EbpfProfiler.Interpreter.RemoteMemory
import EbpfProfiler.Lib.Lru

/-!
# Names of HotSpot stubs

`getStubName` (`hotspot/instance.go`) keeps the name of a routine under the address of its blob.
-/

namespace EbpfProfiler.Interpreter.Hotspot

open Lib Lru
open Wire (Word)

/-- A named stub and its code. -/
structure StubRoutine where
  name : String
  start : Word
  «end» : Word

/-- What is read from the process: words, and texts that a zero ends. -/
structure StubMemory where
  ptr : Word → Word
  string : Word → String
  /-- `CodeBlob.Name` and `CodeBlob.CodeBegin` of the `vmStructs`. -/
  name : Word
  codeBegin : Word

/-- A stub or vtable frame, and the order in which the stub table is visited for it. -/
structure StubFrame (stubs : List StubRoutine) where
  addr : Word
  ripOrBci : BitVec 28
  order : List StubRoutine
  visits : order.Perm stubs

variable {stubs : List StubRoutine}

namespace StubFrame

/-- The routine at the place of the frame. -/
def routine (mem : StubMemory) (f : StubFrame stubs) : Option StubRoutine :=
  let a := mem.ptr (f.addr + mem.codeBegin) + f.ripOrBci.setWidth 64
  f.order.find? fun stub => stub.start ≤ a ∧ a < stub.end

/-- The name without a cache. -/
def stubName (mem : StubMemory) (f : StubFrame stubs) : String :=
  let stubName := mem.string (mem.ptr (f.addr + mem.name))
  match f.routine mem with
  | some stub => stubName ++ " [" ++ stub.name ++ "]"
  | none => stubName

end StubFrame

def getStubName (mem : StubMemory) (f : StubFrame stubs) (addrToStubName : Lru Word String) :
    String × Lru Word String :=
  addrToStubName.memo f.addr (f.stubName mem)

lemma StubFrame.stubName_eq_iff (mem : StubMemory) {f g : StubFrame stubs} (h : f.addr = g.addr) :
    f.stubName mem = g.stubName mem ↔
      (f.routine mem).map (·.name) = (g.routine mem).map (·.name) := by
  have hne (s n : String) : s ++ " [" ++ n ++ "]" ≠ s := by
    intro heq
    have hlen := congrArg String.length heq
    rw [String.length_append, String.length_append, String.length_append] at hlen
    have : "]".length = 1 := rfl
    omega
  rw [stubName, stubName, h]
  cases f.routine mem <;> cases g.routine mem <;> simp [hne, (hne _ _).symm]

/-- Each frame gets the name of a fresh instance just when all places of a code blob with a routine
have one of the same name, or none has one. -/
theorem getStubName_history_iff (mem : StubMemory) (stubs : List StubRoutine) :
    (∀ frames : List (StubFrame stubs), answers (getStubName mem) frames (empty 128) =
        frames.map fun f => (getStubName mem f (empty 128)).1) ↔
      ∀ f g : StubFrame stubs, f.addr = g.addr →
        (f.routine mem).map (·.name) = (g.routine mem).map (·.name) := by
  constructor
  · intro h f g hfg
    have hlookup := ((empty 128).lookup_add f.addr (f.stubName mem) (by decide))
    have hpair := h [f, g]
    have hsecond : ((getStubName mem f (empty 128)).2.memo g.addr (g.stubName mem)).1 =
        g.stubName mem := by
      simpa [answers, getStubName, memo_empty] using hpair
    rw [getStubName, memo_empty, memo_fst, ← hfg, hlookup] at hsecond
    exact (StubFrame.stubName_eq_iff mem hfg).1 hsecond
  · intro h frames
    have hname {f g : StubFrame stubs} (hfg : f.addr = g.addr) : f.stubName mem = g.stubName mem :=
      (StubFrame.stubName_eq_iff mem hfg).2 (h f g hfg)
    -- an entry has the name of all frames in its blob
    refine answers_eq_map
      (sound_empty (R := fun addr name => ∀ f : StubFrame stubs, f.addr = addr →
        f.stubName mem = name) 128) fun f _ c hc => ⟨?_, hc.memo fun g hg => hname hg⟩
    rw [getStubName, memo_fst]
    cases hv : c.lookup f.addr with
    | none => rfl
    | some v => exact (hc.lookup hv f rfl).symm

/-- Two routines in one blob: the second frame gets the name of the first. -/
theorem getStubName_shared_blob :
    ¬∀ frames : List (StubFrame [⟨"a", 0x100, 0x140⟩, ⟨"b", 0x140, 0x180⟩]),
      answers (getStubName ⟨fun _ => 0x100, fun _ => "StubRoutines", 8, 16⟩) frames (empty 128) =
        frames.map fun f => (getStubName ⟨fun _ => 0x100, fun _ => "StubRoutines", 8, 16⟩ f
          (empty 128)).1 := by
  intro h
  have hpair := h [⟨0x10, 0x10, _, List.Perm.refl _⟩, ⟨0x10, 0x50, _, List.Perm.refl _⟩]
  revert hpair
  decide +kernel

end EbpfProfiler.Interpreter.Hotspot
