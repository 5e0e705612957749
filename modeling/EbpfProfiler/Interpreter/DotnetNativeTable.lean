import EbpfProfiler.Lib.Bytes
import EbpfProfiler.Lib.Machine
import Mathlib.Data.Nat.Bitwise
import Mathlib.Tactic.Ring

/-!
# The native tables of ready-to-run images

Sparse arrays as trees: the walk of `nativereader.go` and the lookup of the runtime agree.
-/

namespace EbpfProfiler.Interpreter.Dotnet

open Lib List Nat

variable {l : List (ℕ × ℕ)} {baseOffset bits i index indexOffset j n next offset size : ℕ}

/-! ## The reader -/

/-- `io.SectionReader.ReadAt` for a section of which these bytes can be read. -/
def readAt (d : List Byte) (offs n : ℕ) : Except String (List Byte) :=
  if offs + n ≤ d.length then .ok (slice d offs (offs + n)) else .error "EOF"

/-- `UintFixed`: the number, and the offset behind it. -/
def uintFixed (d : List Byte) (offs n : ℕ) : Except String (ℕ × ℕ) := do
  let b ← readAt d offs n
  pure (leNat b, offs + n)

/-- A number of `more + 1` bytes, as the first one says. -/
def uintMore (d first : List Byte) (offs more : ℕ) : Except String (ℕ × ℕ) := do
  let b ← readAt d (offs + 1) more
  pure (leNat (first ++ b) / 2 ^ (more + 1), offs + more + 1)

def uint (d : List Byte) (offs : ℕ) : Except String (ℕ × ℕ) := do
  let first ← readAt d offs 1
  let b := leNat first
  if b % 2 = 0 then pure (b / 2, offs + 1)
  else if b / 2 % 2 = 0 then uintMore d first offs 1
  else if b / 4 % 2 = 0 then uintMore d first offs 2
  else if b / 8 % 2 = 0 then uintMore d first offs 3
  else if b / 16 % 2 = 0 then uintFixed d (offs + 1) 4
  else .error ("invalid native uint format byte 0x" ++ hex b)

section
variable {σ : Type}

/-- `decodeBlock` with `bits` bits of the index left. -/
def decodeBlock (d : List Byte) (cb : ℕ → ℕ → σ → Except String σ) :
    ℕ → ℕ → ℕ → σ → Except String σ
  | 0, offset, index, s => cb index offset s
  | bits + 1, offset, index, s => do
    let (val, nextOffset) ← uint d offset
    let s ← (if val % 2 ≠ 0 then decodeBlock d cb bits nextOffset index s else pure s)
    let s ← (if val / 2 % 2 ≠ 0 then
      decodeBlock d cb bits (offset + val / 4) (index ||| 2 ^ bits) s else pure s)
    -- the number of the only entry below this node, or a mark that there is none
    if val % 4 = 0 ∧ val < 0x40 then cb (index / 16 * 16 ||| val / 4) nextOffset s else pure s

/-- The size of an element of the block index. -/
def entrySize (header : ℕ) : ℕ :=
  if header % 4 = 0 then 1 else if header % 4 = 1 then 2 else 4

/-- The loop of `WalkTable`, for a number of blocks. -/
def walkBlocks (d : List Byte) (cb : ℕ → ℕ → σ → Except String σ) (baseOffset size : ℕ) :
    ℕ → ℕ → ℕ → σ → Except String σ
  | 0, _, _, s => pure s
  | n + 1, i, indexOffset, s => do
    let (blockOffset, indexOffset) ← uintFixed d indexOffset size
    let s ← decodeBlock d cb 4 (baseOffset + blockOffset) i s
    walkBlocks d cb baseOffset size n (i + 16) indexOffset s

/-- `WalkTable`: the loop counts up in steps of sixteen. -/
def walkTable (d : List Byte) (cb : ℕ → ℕ → σ → Except String σ) (s : σ) : Except String σ := do
  let (header, baseOffset) ← uint d 0
  walkBlocks d cb baseOffset (entrySize header) ((header / 4 + 15) / 16) 0 baseOffset s

end

/-! ## The lookup of the runtime -/

/-- The way down the tree of a block to an element. -/
def lookupNode (d : List Byte) : ℕ → ℕ → ℕ → Option ℕ
  | 0, offset, _ => some offset
  | bits + 1, offset, index =>
    match uint d offset with
    | .error _ => none
    | .ok (val, next) =>
      if index / 2 ^ bits % 2 = 1 ∧ val / 2 % 2 = 1 then lookupNode d bits (offset + val / 4) index
      else if index / 2 ^ bits % 2 = 0 ∧ val % 2 = 1 then lookupNode d bits next index
      else if val % 4 = 0 ∧ val / 4 = index % 16 then some next
      else none

/-- `NativeArray::TryGetAt`: the offset of an element's data. -/
def tryGetAt (d : List Byte) (index : ℕ) : Option ℕ :=
  match uint d 0 with
  | .error _ => none
  | .ok (header, baseOffset) =>
    if index < header / 4 then
      match uintFixed d (baseOffset + entrySize header * (index / 16)) (entrySize header) with
      | .error _ => none
      | .ok (blockOffset, _) => lookupNode d 4 (baseOffset + blockOffset) index
    else none

/-! ## The format -/

/-- The entries below a node for the elements `[index, index + 2 ^ bits)`, with data offsets. -/
inductive NodeAt (d : List Byte) : ℕ → ℕ → ℕ → List (ℕ × ℕ) → Prop
  | entry (offset index : ℕ) : NodeAt d 0 offset index [(index, offset)]
  | empty {bits offset index val next : ℕ} (h : uint d offset = .ok (val, next))
      (hval : val % 4 = 0) (hbig : 0x40 ≤ val) : NodeAt d (bits + 1) offset index []
  | single {bits offset index val next : ℕ} (h : uint d offset = .ok (val, next))
      (hval : val % 4 = 0) (hsmall : val < 0x40) (hlo : index % 16 ≤ val / 4)
      (hhi : val / 4 < index % 16 + 2 ^ (bits + 1)) :
      NodeAt d (bits + 1) offset index [(index / 16 * 16 + val / 4, next)]
  | left {bits offset index val next : ℕ} {l : List (ℕ × ℕ)} (h : uint d offset = .ok (val, next))
      (hval : val % 4 = 1) (hl : NodeAt d bits next index l) : NodeAt d (bits + 1) offset index l
  | right {bits offset index val next : ℕ} {r : List (ℕ × ℕ)} (h : uint d offset = .ok (val, next))
      (hval : val % 4 = 2) (hr : NodeAt d bits (offset + val / 4) (index + 2 ^ bits) r) :
      NodeAt d (bits + 1) offset index r
  | both {bits offset index val next : ℕ} {l r : List (ℕ × ℕ)} (h : uint d offset = .ok (val, next))
      (hval : val % 4 = 3) (hl : NodeAt d bits next index l)
      (hr : NodeAt d bits (offset + val / 4) (index + 2 ^ bits) r) :
      NodeAt d (bits + 1) offset index (l ++ r)

/-- The blocks of the table and their entries. -/
inductive BlocksAt (d : List Byte) (baseOffset size : ℕ) : ℕ → ℕ → ℕ → List (ℕ × ℕ) → Prop
  | done (i indexOffset : ℕ) : BlocksAt d baseOffset size 0 i indexOffset []
  | block {n i indexOffset blockOffset next : ℕ} {l rest : List (ℕ × ℕ)}
      (h : uintFixed d indexOffset size = .ok (blockOffset, next))
      (hl : NodeAt d 4 (baseOffset + blockOffset) i l)
      (hrest : BlocksAt d baseOffset size n (i + 16) next rest) :
      BlocksAt d baseOffset size (n + 1) i indexOffset (l ++ rest)

/-- A well formed table and its entries. -/
def TableAt (d : List Byte) (l : List (ℕ × ℕ)) : Prop :=
  ∃ header baseOffset, uint d 0 = .ok (header, baseOffset) ∧
    BlocksAt d baseOffset (entrySize header) ((header / 4 + 15) / 16) 0 baseOffset l ∧
    ∀ e ∈ l, e.1 < header / 4

/-! ## The walk -/

section
variable {σ : Type} {d : List Byte} {cb : ℕ → ℕ → σ → Except String σ}

lemma or_two_pow (h : 2 ^ (bits + 1) ∣ index) : index ||| 2 ^ bits = index + 2 ^ bits := by
  obtain ⟨q, rfl⟩ := h
  exact (two_pow_add_eq_or_of_lt (Nat.pow_lt_pow_succ one_lt_two) q).symm

lemma or_entry (index : ℕ) {k : ℕ} (h : k < 16) : index / 16 * 16 ||| k = index / 16 * 16 + k := by
  rw [mul_comm]
  exact (two_pow_add_eq_or_of_lt (i := 4) h (index / 16)).symm

lemma decodeBlock_succ {val : ℕ} (h : uint d offset = .ok (val, next)) (s : σ) :
    decodeBlock d cb (bits + 1) offset index s =
      ((if val % 2 ≠ 0 then decodeBlock d cb bits next index s else pure s) >>= fun s =>
        (if val / 2 % 2 ≠ 0 then decodeBlock d cb bits (offset + val / 4) (index ||| 2 ^ bits) s
          else pure s) >>= fun s =>
          if val % 4 = 0 ∧
            val < 0x40 then cb (index / 16 * 16 ||| val / 4) next s else pure s) := by
  rw [decodeBlock, h]
  rfl

lemma decodeBlock_eq (h : NodeAt d bits offset index l) (hdvd : 2 ^ bits ∣ index) (s : σ) :
    decodeBlock d cb bits offset index s = l.foldlM (fun s e => cb e.1 e.2 s) s := by
  induction h generalizing s with
  | entry offset index => simp [decodeBlock]
  | @empty bits offset index val next h hval hbig =>
    rw [decodeBlock_succ h, if_neg (by omega), pure_bind, if_neg (by omega), pure_bind,
      if_neg (by omega), foldlM_nil]
  | @single bits offset index val next h hval hsmall hlo hhi =>
    rw [decodeBlock_succ h, if_neg (by omega), pure_bind, if_neg (by omega), pure_bind,
      if_pos ⟨hval, hsmall⟩, or_entry index (by omega)]
    simp
  | @left bits offset index val next l h hval hl ihl =>
    have hright : val / 2 % 2 = 0 := by omega
    rw [decodeBlock_succ h, if_pos (by omega), ihl ((pow_dvd_pow 2 (le_succ bits)).trans hdvd)]
    simp [hval, hright]
  | @right bits offset index val next r h hval hr ihr =>
    rw [decodeBlock_succ h, if_neg (by omega), pure_bind, if_pos (by omega), or_two_pow hdvd,
      ihr ((Nat.dvd_add_left (dvd_refl _)).mpr ((pow_dvd_pow 2 (le_succ bits)).trans hdvd))]
    simp [hval]
  | @both bits offset index val next l r h hval hl hr ihl ihr =>
    have hdvd' := (pow_dvd_pow 2 (le_succ bits)).trans hdvd
    have hright : val / 2 % 2 = 1 := by omega
    rw [decodeBlock_succ h, if_pos (by omega), or_two_pow hdvd, ihl hdvd']
    simp [hval, hright, ihr ((Nat.dvd_add_left (dvd_refl _)).mpr hdvd'), foldlM_append]

lemma walkBlocks_eq (h : BlocksAt d baseOffset size n i indexOffset l) (hi : 16 ∣ i) (s : σ) :
    walkBlocks d cb baseOffset size n i indexOffset s = l.foldlM (fun s e => cb e.1 e.2 s) s := by
  induction h generalizing s with
  | done i indexOffset => rw [walkBlocks, foldlM_nil]
  | @block n i indexOffset blockOffset next l rest h hl hrest ih =>
    rw [walkBlocks, h, foldlM_append, ← decodeBlock_eq hl hi]
    simp only [← ih ((Nat.dvd_add_left (dvd_refl 16)).mpr hi)]
    rfl

lemma walkTable_eq (h : TableAt d l) (s : σ) :
    walkTable d cb s = l.foldlM (fun s e => cb e.1 e.2 s) s := by
  obtain ⟨header, baseOffset, hheader, hblocks, -⟩ := h
  rw [← walkBlocks_eq hblocks (dvd_zero 16), walkTable, hheader]
  rfl

end

/-! ## The order of the entries, and the lookup -/

section
variable {d : List Byte}

/-- The entries below a node are in increasing order and belong to its elements. -/
structure Entries (lo hi : ℕ) (l : List (ℕ × ℕ)) : Prop where
  sorted : l.Pairwise fun a b => a.1 < b.1
  mem : ∀ e ∈ l, lo ≤ e.1 ∧ e.1 < hi

lemma Entries.append {lo mid hi : ℕ} {r : List (ℕ × ℕ)} (hl : Entries lo mid l)
    (hr : Entries mid hi r) (hlo : lo ≤ mid) (hhi : mid ≤ hi) : Entries lo hi (l ++ r) := by
  constructor
  · rw [pairwise_append]
    refine ⟨hl.sorted, hr.sorted, fun a ha b hb => ?_⟩
    have := (hl.mem a ha).2
    have := (hr.mem b hb).1
    omega
  · intro e he
    rcases mem_append.mp he with he | he
    · have := hl.mem e he
      omega
    · have := hr.mem e he
      omega

lemma Entries.mono {lo hi lo' hi' : ℕ} (h : Entries lo hi l) (hlo : lo' ≤ lo) (hhi : hi ≤ hi') :
    Entries lo' hi' l := by
  refine ⟨h.sorted, fun e he => ?_⟩
  have := h.mem e he
  omega

lemma NodeAt.entries (h : NodeAt d bits offset index l) : Entries index (index + 2 ^ bits) l := by
  induction h with
  | entry | empty => exact ⟨by simp, by simp⟩
  | single h hval hsmall hlo hhi =>
    refine ⟨by simp, ?_⟩
    simp only [mem_singleton, forall_eq]
    omega
  | @left bits offset index val next l h hval hl ihl =>
    exact ihl.mono le_rfl (by rw [pow_succ]; omega)
  | @right bits offset index val next r h hval hr ihr =>
    exact ihr.mono (le_add_right _ _) (by omega)
  | @both bits offset index val next l r h hval hl hr ihl ihr =>
    refine (ihl.append ihr (le_add_right _ _) (le_add_right _ _)).mono le_rfl ?_
    omega

lemma bit_eq_one_iff (hdvd : 2 ^ (bits + 1) ∣ index) (hlo : index ≤ j)
    (hhi : j < index + 2 ^ (bits + 1)) : j / 2 ^ bits % 2 = 1 ↔ index + 2 ^ bits ≤ j := by
  obtain ⟨q, rfl⟩ := hdvd
  have hpos : 0 < 2 ^ bits := Nat.two_pow_pos bits
  obtain ⟨r, rfl⟩ := Nat.exists_eq_add_of_le hlo
  have hdiv : (2 ^ (bits + 1) * q + r) / 2 ^ bits = 2 * q + r / 2 ^ bits := by
    rw [pow_succ, mul_assoc, Nat.add_comm, add_mul_div_left _ _ hpos, Nat.add_comm]
  have hr : r / 2 ^ bits < 2 := by
    rw [div_lt_iff_lt_mul hpos]
    omega
  have hone : 1 ≤ r / 2 ^ bits ↔ 2 ^ bits ≤ r := by rw [le_div_iff_mul_le hpos, one_mul]
  rw [hdiv]
  generalize r / 2 ^ bits = x at hr hone
  omega

lemma lookupNode_succ {val : ℕ} (h : uint d offset = .ok (val, next)) (j : ℕ) :
    lookupNode d (bits + 1) offset j =
      if j / 2 ^ bits % 2 = 1 ∧ val / 2 % 2 = 1 then lookupNode d bits (offset + val / 4) j
      else if j / 2 ^ bits % 2 = 0 ∧ val % 2 = 1 then lookupNode d bits next j
      else if val % 4 = 0 ∧ val / 4 = j % 16 then some next
      else none := by
  rw [lookupNode, h]

lemma lookupNode_eq_some_iff (h : NodeAt d bits offset index l) (hdvd : 2 ^ bits ∣ index) (blk : ℕ)
    (hblk : 16 * blk ≤ index) (hblk' : index + 2 ^ bits ≤ 16 * blk + 16) (hlo : index ≤ j)
    (hhi : j < index + 2 ^ bits) (o : ℕ) : lookupNode d bits offset j = some o ↔ (j, o) ∈ l := by
  induction h with
  | entry offset index =>
    have hj : j = index := by omega
    simp [lookupNode, hj, eq_comm]
  | @empty bits offset index val next h hval hbig =>
    rw [lookupNode_succ h, if_neg (by omega), if_neg (by omega), if_neg (by omega)]
    simp
  | @single bits offset index val next h hval hsmall hlo' hhi' =>
    rw [lookupNode_succ h, if_neg (by omega), if_neg (by omega), mem_singleton, Prod.mk.injEq]
    by_cases hj : val / 4 = j % 16
    · rw [if_pos ⟨hval, hj⟩, Option.some.injEq]
      omega
    · rw [if_neg (fun h => hj h.2)]
      simp only [reduceCtorEq, false_iff]
      omega
  | @left bits offset index val next l h hval hl ihl =>
    have hside := bit_eq_one_iff hdvd hlo hhi
    have hdvd' := (pow_dvd_pow 2 (le_succ bits)).trans hdvd
    have hentries := hl.entries
    rw [lookupNode_succ h, if_neg (by omega)]
    by_cases hj : index + 2 ^ bits ≤ j
    · rw [if_neg (by omega), if_neg (by omega)]
      simp only [reduceCtorEq, false_iff]
      intro hmem
      have := (hentries.mem _ hmem).2
      omega
    · rw [if_pos (by omega)]
      exact ihl hdvd' hblk (by omega) hlo (by omega)
  | @right bits offset index val next r h hval hr ihr =>
    have hside := bit_eq_one_iff hdvd hlo hhi
    have hdvd' := (pow_dvd_pow 2 (le_succ bits)).trans hdvd
    have hentries := hr.entries
    rw [lookupNode_succ h]
    by_cases hj : index + 2 ^ bits ≤ j
    · rw [if_pos (by omega)]
      exact ihr ((Nat.dvd_add_left (dvd_refl _)).mpr hdvd') (by omega) (by omega) hj (by omega)
    · rw [if_neg (by omega), if_neg (by omega), if_neg (by omega)]
      simp only [reduceCtorEq, false_iff]
      intro hmem
      exact hj (hentries.mem _ hmem).1
  | @both bits offset index val next l r h hval hl hr ihl ihr =>
    have hside := bit_eq_one_iff hdvd hlo hhi
    have hdvd' := (pow_dvd_pow 2 (le_succ bits)).trans hdvd
    have hleft := hl.entries
    have hright := hr.entries
    rw [lookupNode_succ h, mem_append]
    by_cases hj : index + 2 ^ bits ≤ j
    · have hnot : (j, o) ∉ l := by
        intro hmem
        have := (hleft.mem _ hmem).2
        omega
      rw [if_pos (by omega), or_iff_right hnot]
      exact ihr ((Nat.dvd_add_left (dvd_refl _)).mpr hdvd') (by omega) (by omega) hj (by omega)
    · have hnot : (j, o) ∉ r := fun hmem => hj (hright.mem _ hmem).1
      rw [if_neg (by omega), if_pos (by omega), or_iff_left hnot]
      exact ihl hdvd' hblk (by omega) hlo (by omega)

lemma BlocksAt.entries (h : BlocksAt d baseOffset size n i indexOffset l) :
    Entries i (i + 16 * n) l := by
  induction h with
  | done i indexOffset => exact ⟨by simp, by simp⟩
  | block h hl hrest ih =>
    exact (hl.entries.append ih (by omega) (by omega)).mono (by omega) (by omega)

lemma uintFixed_next {offs value : ℕ} (h : uintFixed d offs n = .ok (value, next)) :
    offs + n = next := by
  unfold uintFixed readAt at h
  split at h
  · exact (Prod.mk.inj (Except.ok.inj h)).2
  · cases h

lemma BlocksAt.mem_iff (h : BlocksAt d baseOffset size n i indexOffset l) (hi : 16 ∣ i)
    (hlo : i ≤ j) (hhi : j < i + 16 * n) (o : ℕ) : (j, o) ∈ l ↔ ∃ blockOffset next,
      uintFixed d (indexOffset + size * ((j - i) / 16)) size = .ok (blockOffset, next) ∧
        lookupNode d 4 (baseOffset + blockOffset) j = some o := by
  induction h with
  | done i indexOffset => omega
  | @block n i indexOffset blockOffset next l rest h hl hrest ih =>
    have hnext : next = indexOffset + size := (uintFixed_next h).symm
    by_cases hj : j < i + 16
    · -- the element lies in the first block
      have hnot : (j, o) ∉ rest := by
        intro hmem
        have := (hrest.entries.mem _ hmem).1
        omega
      rw [mem_append, or_iff_left hnot, show (j - i) / 16 = 0 by omega, mul_zero,
        add_zero, h, ← lookupNode_eq_some_iff hl hi (i / 16) (by omega) (by omega) hlo hj]
      simp
    · have hnot : (j, o) ∉ l := by
        intro hmem
        have := (hl.entries.mem _ hmem).2
        omega
      have hoffs : next + size * ((j - (i + 16)) / 16) = indexOffset + size * ((j - i) / 16) := by
        rw [hnext, show (j - i) / 16 = (j - (i + 16)) / 16 + 1 by omega]
        ring
      rw [mem_append, or_iff_right hnot,
        ih ((Nat.dvd_add_left (dvd_refl 16)).mpr hi) (by omega) (by omega), hoffs]

lemma TableAt.sorted (h : TableAt d l) : l.Pairwise fun a b => a.1 < b.1 := by
  obtain ⟨header, baseOffset, -, hblocks, -⟩ := h
  exact hblocks.entries.sorted

lemma tryGetAt_eq_some_iff (h : TableAt d l) (j o : ℕ) : tryGetAt d j = some o ↔ (j, o) ∈ l := by
  obtain ⟨header, baseOffset, hheader, hblocks, hlt⟩ := h
  rw [tryGetAt, hheader]
  dsimp only
  by_cases hj : j < header / 4
  · rw [if_pos hj, hblocks.mem_iff (dvd_zero 16) (zero_le j) (by omega)]
    cases hread : uintFixed d (baseOffset + entrySize header * (j / 16)) (entrySize header) with
    | error e => simp
    | ok b =>
      obtain ⟨blockOffset, next⟩ := b
      simp
  · rw [if_neg hj]
    simp only [reduceCtorEq, false_iff]
    intro hmem
    exact hj (hlt _ hmem)

end

end EbpfProfiler.Interpreter.Dotnet
