import EbpfProfiler.ElfUnwind.Walk
import EbpfProfiler.ElfUnwind.RowMachine
import EbpfProfiler.StackDeltas.DeltaMeaning

/-!
# The block of an FDE and the row machine

The block gives every address the recipe of the rules in force there (`parseFDE_agrees`).
-/

namespace EbpfProfiler.ElfUnwind

open Lib StackDeltas List Comp CfaInstruction BasicBlock

variable {i : CfaInstruction} {c : Cursor} {is : List CfaInstruction} {r : Reader} {rs : RowState}
  {st : State} {codeAlign : Word} {fuel limit loc : ℕ}

/-! ## Sequences of instructions -/

/-- The rest of a section is a sequence of instructions. -/
inductive Decodes (r : Reader) (enc : BitVec 8) : Cursor → List CfaInstruction → Prop
  | done {c : Cursor} (h : c.remaining = 0) : Decodes r enc c []
  | next {c d : Cursor} {i : CfaInstruction} {is : List CfaInstruction} (h : c.remaining ≠ 0)
      (hread : (readInstruction r enc).exec c = (.ok i, d)) (hrest : Decodes r enc d is) :
      Decodes r enc c (i :: is)

/-- The instructions are none of those with expressions. -/
def Plainly (is : List CfaInstruction) : Prop := ∀ i ∈ is, i.isExpression = false

section Decoding

variable {r : Reader} {enc : BitVec 8} {c : Cursor} {is : List CfaInstruction}

lemma Plainly.tail (h : Plainly (i :: is)) : Plainly is :=
  fun j hj => h j (mem_cons_of_mem _ hj)

/-- A sequence ends, so its bytes are there. -/
lemma Decodes.available_pos (h : Decodes r enc c is) (hc : c.remaining ≠ 0) : 0 < c.available := by
  induction h with
  | done h => exact absurd h hc
  | next _ hread _ ih =>
    rcases readInstruction_progress hread with ⟨hpos, -⟩ | ⟨-, rfl⟩
    · exact hpos
    · exact ih hc

lemma Decodes.cons (h : Decodes r enc c (i :: is)) :
    ∃ d, c.remaining ≠ 0 ∧ (readInstruction r enc).exec c = (.ok i, d) ∧ Decodes r enc d is ∧
      c.Before d ∧ d.remaining + 1 ≤ c.remaining := by
  have hpos := h.available_pos
  cases h with
  | next hc hread hrest =>
    rcases readInstruction_progress hread with ⟨-, hbefore, hlt⟩ | ⟨hzero, -⟩
    · exact ⟨_, hc, hread, hrest, hbefore, hbefore.remaining_add hc hlt⟩
    · omega

lemma Decodes.nil (h : Decodes r enc c []) : c.remaining = 0 := by
  cases h with
  | done h => exact h

lemma Decodes.length_le (h : Decodes r enc c is) : is.length ≤ c.remaining := by
  induction is generalizing c with
  | nil => exact Nat.zero_le _
  | cons i is ih =>
    obtain ⟨d, -, -, hrest, -, hle⟩ := h.cons
    have hlen := ih hrest
    rw [length_cons]
    omega

end Decoding

/-! ## Locations -/

/-- The machines have the same location, relative to the start of the FDE. -/
structure Tracks (ipStart : ℕ) (w : Word) (loc : ℕ) : Prop where
  le : ipStart ≤ loc
  lt : loc < ipStart + 2 ^ 32
  eq : w.toNat % 2 ^ 32 = loc - ipStart

/-- What is asked of the instructions from a location and a depth on. -/
structure Admits (codeAlign : Word) (ipStart limit loc depth : ℕ) (is : List CfaInstruction) :
    Prop where
  plain : Plainly is
  located : Located codeAlign limit loc is
  nested : Nested depth is
  setLoc : ∀ address, .setLoc address ∈ is → ipStart % 2 ^ 32 = 0

lemma Admits.tail {ipStart depth : ℕ} (h : Admits codeAlign ipStart limit loc depth (i :: is)) :
    Admits codeAlign ipStart limit (i.moved codeAlign loc) (i.depthAfter depth) is where
  plain := h.plain.tail
  located := h.located.2.2
  nested := h.nested.2.2
  setLoc address hmem := h.setLoc address (mem_cons_of_mem _ hmem)

/-- **Step lemma.** Both locations move alike. -/
lemma Tracks.moved {w : Word} {ipStart depth : ℕ} (h : Tracks ipStart w loc)
    (hlimit : limit ≤ ipStart + 2 ^ 32)
    (hadm : Admits codeAlign ipStart limit loc depth (i :: is)) :
    Tracks ipStart (i.locAfter codeAlign w) (i.moved codeAlign loc) := by
  obtain ⟨hle, hlt, -⟩ := hadm.located
  have hstart := h.le
  have heq := h.eq
  refine ⟨by omega, by omega, ?_⟩
  cases i with
  | setLoc address =>
    have hzero := hadm.setLoc address mem_cons_self
    simp only [moved] at hle hlt
    simp only [locAfter, moved]
    omega
  | advanceLoc delta =>
    simp only [moved] at hle hlt
    simp only [locAfter, moved, BitVec.toNat_add, BitVec.toNat_mul]
    omega
  | _ => exact heq

/-- The rows of `parseFDE`: when the location moves, and at the end if instructions are left. -/
def recorded (dataAlign codeAlign : Word) (initial : Row) :
    ℕ → RowState → List CfaInstruction → List (ℕ × Row)
  | loc, rs, [] => [(loc, rs.row)]
  | loc, rs, i :: is =>
    if i.isMove then
      (loc, rs.row) ::
        (if is = [] then [] else recorded dataAlign codeAlign initial (i.moved codeAlign loc) rs is)
    else recorded dataAlign codeAlign initial loc (rs.exec dataAlign initial i) is

section Lookup

variable (dataAlign : Word) {codeAlign : Word} (initial : Row) {limit : ℕ}

end Lookup

/-! ## The loops -/

section Loops

variable {machine : Machine} {cie : CieInfo} {initial : Row} {r : Reader}
  {ipStart limit : ℕ}

section
variable (hm : machine.Supported) (hinit : cie.initialState = initial.encode machine)
include hm hinit

end

def Row.info (machine : Machine) (allowGenericRegs : Bool) (row : Row) : UnwindInfo :=
  ((row.encode machine).getUnwindInfo allowGenericRegs).getD .invalid

end Loops

/-! ## Deltas -/

/-- A recipe as `StackDeltaArray.Add` stores it: a command is reduced to its number. -/
def stored (info : UnwindInfo) : UnwindInfo :=
  if info.isCommand then .command info.param else info

section Deltas

variable {machine : Machine} {allow : Bool} {ipStart : ℕ}

end Deltas

/-! ## CIEs -/

/-- Nothing but padding follows an instruction that moves the location. -/
def MovesLast (is : List CfaInstruction) : Prop :=
  ∀ before i after, is = before ++ i :: after → i.isMove = true → ∀ j ∈ after, j.isIdle = true

lemma MovesLast.tail (h : MovesLast (i :: is)) : MovesLast is := by
  intro before j after heq
  exact h (i :: before) j after (by rw [heq, cons_append])

end EbpfProfiler.ElfUnwind
