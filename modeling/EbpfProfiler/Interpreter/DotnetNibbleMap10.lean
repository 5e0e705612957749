import EbpfProfiler.Interpreter.DotnetNibbleMap

/-!
# The nibble map of .NET 10

A word whose code a method covers completely refers to the start of the method.
-/

namespace EbpfProfiler.Interpreter

open Lib Nat

/-! ## Source -/

/-- `DOTNET10_DECODE_POINTER`. -/
def decodePointer (val : ℕ) : ℕ := (val / 16 * 16 + (val % 16 - 9) * 4) % 2 ^ 32

/-- `DOTNET10_POSOFF2ADDR`. -/
def posOff2Addr (pos off : ℕ) : ℕ := 32 * pos + (off - 1) * 4

/-- The code behind `decode_nibble_map`, with the turns that are left. -/
def decodeNibbleMap : ℕ → ℕ → ℕ → ℕ
  | 0, val, startPos => posOff2Addr startPos (val % 16)
  | n + 1, val, startPos =>
    if val % 16 ≠ 0 then posOff2Addr startPos (val % 16)
    else decodeNibbleMap n (val >>> 4) (startPos - 1)

/-- The search in two words; a zero word passes none of the first three tests. -/
def searchWords (prev cur pcDelta : ℕ) : Option ℕ :=
  let startPos := pcDelta / 32
  let val := cur >>> (28 - startPos % 8 * 4)
  if 8 < cur % 16 then some (decodePointer cur)
  else if val % 16 ≠ 0 ∧ val % 16 ≤ pcDelta % 32 / 4 + 1 then some (posOff2Addr startPos (val % 16))
  else if val >>> 4 ≠ 0 then some (decodeNibbleMap 7 (val >>> 4) (startPos - 1))
  else if prev = 0 then none
  else if 8 < prev % 16 then some (decodePointer prev)
  else some (decodeNibbleMap 7 prev (startPos / 8 * 8 - 1))

/-- `dotnet10_find_code_start`: two words are read, unless the address is in the first. -/
def findCodeStart10 (readUser : ℕ → Option (BitVec 32 × BitVec 32)) (pcBase mapStart pc : ℕ) :
    Except DotnetError ℕ :=
  let pcDelta := subWord 64 pc pcBase
  match readUser ((mapStart + 4 * (pcDelta / 32 / 8 - 1)) % 2 ^ 64) with
  | none => .error .codeHeader
  | some (first, second) =>
    let map := if pcDelta / 32 / 8 = 0 then (0, first.toNat) else (first.toNat, second.toNat)
    match searchWords map.1 map.2 pcDelta with
    | none => .error .codeHeader
    | some start => .ok ((pcBase + start) % 2 ^ 64)

/-! ## The map -/

/-- The code of a word belongs to a method that started earlier. -/
def CoversWord (m : ℕ × ℕ) (w : ℕ) : Prop := m.1 < 256 * w ∧ 256 * (w + 1) ≤ m.2

/-- Methods, and the map that the runtime keeps of them: one entry in each bucket. -/
structure Recorded (methods : Set (ℕ × ℕ)) (word : ℕ → BitVec 32) : Prop where
  method : ∀ m ∈ methods, m.1 % 4 = 0 ∧ m.1 < m.2
  disjoint : ∀ m ∈ methods, ∀ m' ∈ methods, m = m' ∨ m.2 ≤ m'.1 ∨ m'.2 ≤ m.1
  pointer : ∀ m ∈ methods, ∀ w, CoversWord m w → (word w).toNat = m.1 / 16 * 16 + (m.1 % 16 / 4 + 9)
  start : ∀ m ∈ methods, nibble word (m.1 / 32) = m.1 % 32 / 4 + 1
  empty : ∀ k, (∀ m ∈ methods, ¬CoversWord m (k / 8)) → (∀ m ∈ methods, m.1 / 32 ≠ k) →
  nibble word k = 0

variable {word : ℕ → BitVec 32} {w b : ℕ}

lemma shiftRight_succ_nibble {val : ℕ} (hb : b < 7) :
    val >>> (28 - (b + 1) * 4) >>> 4 = val >>> (28 - b * 4) := by
  rw [← shiftRight_add]
  congr 1
  omega

lemma decodeNibbleMap_eq {n bucket : ℕ} (hb : b ≤ 7) (hn : b ≤ n) (hw : 8 * w ≤ bucket)
    (h : LastBucket word (8 * w + b) bucket) :
    decodeNibbleMap n ((word w).toNat >>> (28 - b * 4)) (8 * w + b) = bucketStart word bucket := by
  have hle := h.le
  have hval : (word w).toNat >>> (28 - b * 4) % 16 = nibble word (8 * w + b) :=
    nibble_of_shift hb (zero_le b)
  induction n generalizing b with
  | zero =>
    obtain rfl : bucket = 8 * w + b := by omega
    rw [decodeNibbleMap, hval]
    rfl
  | succ n ih =>
    rw [decodeNibbleMap, hval]
    by_cases hzero : nibble word (8 * w + b) = 0
    · have hlt : bucket < 8 * w + b :=
        lt_of_le_of_ne hle fun heq => h.start (heq ▸ hzero)
      obtain ⟨b, rfl⟩ : ∃ b', b = b' + 1 := ⟨b - 1, by omega⟩
      rw [if_neg (not_not_intro hzero), shiftRight_succ_nibble (by omega)]
      exact ih (by omega) (by omega) ⟨by omega, h.start, fun k hk hkb => h.behind k hk (by omega)⟩
        (by omega) (nibble_of_shift (by omega) (zero_le b))
    · have heq : bucket = 8 * w + b := by
        by_contra hne
        exact hzero (h.behind _ (by omega) le_rfl)
      rw [if_pos hzero, heq]
      rfl

section
variable {methods : Set (ℕ × ℕ)} {m : ℕ × ℕ} {d : ℕ} (h : Recorded methods word)
include h

/-- An entry of a word that is not covered is that of a start. -/
lemma Recorded.nibble_cases {k : ℕ} (hw : ∀ m ∈ methods, ¬CoversWord m (k / 8)) :
    nibble word k = 0 ∨ ∃ m ∈ methods, m.1 / 32 = k ∧ nibble word k = m.1 % 32 / 4 + 1 :=
  or_iff_not_imp_right.2 fun hstart =>
    h.empty k hw fun m hm heq => hstart ⟨m, hm, heq, heq ▸ h.start m hm⟩

lemma Recorded.nibble_le (hw : ∀ m ∈ methods, ¬CoversWord m w) : (word w).toNat % 16 ≤ 8 := by
  have hlow : (word w).toNat % 16 = nibble word (8 * w + 7) :=
    nibble_of_shift (le_refl 7) (zero_le 7)
  rcases h.nibble_cases (k := 8 * w + 7) (by rwa [show (8 * w + 7) / 8 = w by omega]) with
    hzero | ⟨m, -, -, heq⟩ <;> omega

variable (hm : m ∈ methods)
include hm

/-- Where a method covers a word, the word leads to its start. -/
lemma Recorded.decodePointer_eq (hw : CoversWord m w) :
    8 < (word w).toNat % 16 ∧ decodePointer (word w).toNat = m.1 := by
  have halign := (h.method m hm).1
  have hlt := (word w).isLt
  have hval := h.pointer m hm w hw
  rw [decodePointer]
  omega

lemma Recorded.not_covers (hstop : d < m.2) (hself : ¬CoversWord m w) (hw : 256 * w ≤ d)
    (hw' : m.1 < 256 * (w + 1)) : ∀ m' ∈ methods, ¬CoversWord m' w := by
  rintro m' hm' hcovers
  rcases h.disjoint m hm m' hm' with rfl | hlt | hlt
  · exact hself hcovers
  · exact absurd hcovers.1 (by omega)
  · exact absurd hcovers.2 (by omega)

variable (hstop : d < m.2) (hw : ∀ m ∈ methods, ¬CoversWord m w)
include hstop hw

/-- Between a method's start and an address in it there is at most an entry behind the address. -/
lemma Recorded.nibble_between {k : ℕ} (hk : m.1 / 32 < k) (hkd : k ≤ d / 32) (hkw : k / 8 = w) :
    nibble word k = 0 ∨ k = d / 32 ∧ d % 32 / 4 + 1 < nibble word k := by
  rcases h.nibble_cases (hkw ▸ hw) with hzero | ⟨m', hm', rfl, heq⟩
  · exact .inl hzero
  · have hmethod := h.method m' hm'
    rcases h.disjoint m hm m' hm' with rfl | hlt | hlt <;> omega

lemma Recorded.decodeNibbleMap_eq (hb : b ≤ 7) (hd : 8 * w + b < d / 32) (hd64 : d < 2 ^ 64)
    (hle : m.1 / 32 ≤ 8 * w + b) : (8 * w ≤ m.1 / 32 ↔ (word w).toNat >>> (28 - b * 4) ≠ 0) ∧
      (8 * w ≤ m.1 / 32 →
        decodeNibbleMap 7 ((word w).toNat >>> (28 - b * 4)) (8 * w + b) = m.1) := by
  have hmethod := h.method m hm
  have hstart := h.start m hm
  have hbetween {k : ℕ} (hk : m.1 / 32 < k) (hkw : 8 * w ≤ k) (hkb : k ≤ 8 * w + b) :
      nibble word k = 0 :=
    (h.nibble_between hm hstop hw hk (by omega) (by omega)).resolve_right fun hlast => by omega
  refine ⟨⟨fun hfirst hzero => ?_, fun hval => ?_⟩, fun hfirst => ?_⟩
  · have := nibble_eq_zero hb hzero hfirst hle
    omega
  · obtain ⟨bucket, hfirst, hlast, -⟩ := decodeStart_element hb hval (by omega)
    by_contra hlt
    exact hlast.start (hbetween (by omega) hfirst hlast.le)
  · have hlast : LastBucket word (8 * w + b) (m.1 / 32) :=
      ⟨hle, by omega, fun k hk hkb => hbetween hk (by omega) hkb⟩
    rw [Interpreter.decodeNibbleMap_eq hb hb hfirst hlast, bucketStart, hstart]
    omega

omit hw

lemma Recorded.searchWords_eq (hd : m.1 ≤ d) (hd64 : d < 2 ^ 64) :
    searchWords (if d / 256 = 0 then 0 else (word (d / 256 - 1)).toNat) (word (d / 256)).toNat d =
      some m.1 := by
  have hmethod := h.method m hm
  obtain ⟨w, hw⟩ : ∃ w, d / 256 = w := ⟨_, rfl⟩
  obtain ⟨b, hb⟩ : ∃ b, d / 32 % 8 = b := ⟨_, rfl⟩
  have hpos : d / 32 = 8 * w + b := by omega
  have hval : (word w).toNat >>> (28 - b * 4) % 16 = nibble word (8 * w + b) :=
    nibble_of_shift (by omega) (Nat.zero_le b)
  unfold searchWords
  dsimp only
  rw [hw, hb, hval, hpos]
  by_cases hcovers : CoversWord m w
  · -- the word of the address refers to the method
    obtain ⟨hpointer, heq⟩ := h.decodePointer_eq hm hcovers
    rw [if_pos hpointer, heq]
  have hnot := h.not_covers hm hstop hcovers (by omega) (by omega)
  rw [if_neg (Nat.not_lt.2 (h.nibble_le hnot))]
  by_cases hown : m.1 / 32 = 8 * w + b
  · -- the method starts in the bucket of the address
    rw [← hown, h.start m hm, if_pos (by omega), posOff2Addr]
    congr 1
    omega
  have hskip := h.nibble_between hm hstop hnot (k := 8 * w + b) (by omega) (by omega) (by omega)
  rw [if_neg (by omega)]
  by_cases hsame : 8 * w ≤ m.1 / 32
  · -- it starts in an earlier bucket of the word
    obtain ⟨b, rfl⟩ : ∃ b', b = b' + 1 := ⟨b - 1, by omega⟩
    obtain ⟨hne, heq⟩ :=
      h.decodeNibbleMap_eq hm hstop hnot (b := b) (by omega) (by omega) hd64 (by omega)
    rw [shiftRight_succ_nibble (by omega), if_pos (hne.1 hsame), ← Nat.add_assoc,
      Nat.add_sub_cancel, heq hsame]
  -- it starts in front of the word, which has no entry up to the address
  have hrest : (word w).toNat >>> (28 - b * 4) >>> 4 = 0 := by
    cases b with
    | zero => exact shift_eq_zero (i := 1) (Nat.zero_le 7) one_pos
    | succ b =>
      rw [shiftRight_succ_nibble (by omega)]
      by_contra hne
      exact hsame
        ((h.decodeNibbleMap_eq hm hstop hnot (by omega) (by omega) hd64 (by omega)).1.2 hne)
  obtain ⟨w, rfl⟩ : ∃ w', w = w' + 1 := ⟨w - 1, by omega⟩
  rw [if_neg (not_not_intro hrest), if_neg (succ_ne_zero w), Nat.add_sub_cancel]
  by_cases hprev : CoversWord m w
  · obtain ⟨hpointer, heq⟩ := h.decodePointer_eq hm hprev
    rw [if_neg (by omega), if_pos hpointer, heq]
  · have hfirst : 8 * w ≤ m.1 / 32 := by
      unfold CoversWord at hprev
      omega
    have hnot := h.not_covers hm hstop hprev (by omega) (by omega)
    obtain ⟨hne, heq⟩ :=
      h.decodeNibbleMap_eq hm hstop hnot (Nat.le_refl 7) (by omega) hd64 (by omega)
    rw [show 28 - 7 * 4 = 0 from rfl, shiftRight_zero] at hne heq
    rw [if_neg (hne.1 hfirst), if_neg (Nat.not_lt.2 (h.nibble_le hnot)),
      show (8 * (w + 1) + b) / 8 * 8 - 1 = 8 * w + 7 by omega]
    exact congrArg some (heq hfirst)

end

/-- For every address in a recorded method, the start of the method is found. -/
theorem findCodeStart10_eq {methods : Set (ℕ × ℕ)} {m : ℕ × ℕ} {pcBase mapStart pc : ℕ}
    {readUser : ℕ → Option (BitVec 32 × BitVec 32)} (h : Recorded methods word) (hm : m ∈ methods)
    (hstart : pcBase + m.1 ≤ pc) (hstop : pc < pcBase + m.2) (hpc : pc < 2 ^ 64)
    (hread : readUser ((mapStart + 4 * ((pc - pcBase) / 256 - 1)) % 2 ^ 64) =
      some (word ((pc - pcBase) / 256 - 1), word ((pc - pcBase) / 256 - 1 + 1))) :
    findCodeStart10 readUser pcBase mapStart pc = .ok (pcBase + m.1) := by
  have hsearch := h.searchWords_eq hm (d := pc - pcBase) (by omega) (by omega) (by omega)
  have hword : (pc - pcBase) / 32 / 8 = (pc - pcBase) / 256 := Nat.div_div_eq_div_mul ..
  unfold findCodeStart10
  rw [subWord_of_le (by omega) hpc]
  dsimp only
  rw [hword, hread]
  dsimp only
  by_cases hfirst : (pc - pcBase) / 256 = 0
  · rw [if_pos hfirst, hfirst] at hsearch
    rw [if_pos hfirst, hfirst]
    simp only [hsearch, Nat.mod_eq_of_lt (show pcBase + m.1 < 2 ^ 64 by omega)]
  · rw [if_neg hfirst] at hsearch
    rw [if_neg hfirst, Nat.sub_add_cancel (by omega)]
    simp only [hsearch, Nat.mod_eq_of_lt (show pcBase + m.1 < 2 ^ 64 by omega)]

/-- A map with one method. -/
def oneMethod (w : ℕ) : BitVec 32 := if w = 0 then 0x01000000 else if w < 3 then 0x29 else 0

lemma recorded_oneMethod : Recorded {(0x20, 0x3f0)} oneMethod := by
  have hfirst : ∀ k < 8, 1 ≠ k → nibble oneMethod k = 0 := by decide
  constructor
  case empty =>
    intro k hcovers hstart
    have hcovers := hcovers _ rfl
    unfold CoversWord at hcovers
    by_cases hk : k / 8 < 3
    · exact hfirst k (by omega) (hstart _ rfl)
    · simp [nibble, oneMethod, hk, show k / 8 ≠ 0 by omega]
  case pointer =>
    rintro m rfl w ⟨hbefore, hbehind⟩
    simp [oneMethod, show w ≠ 0 by omega, show w < 3 by omega]
  all_goals simp [nibble, oneMethod]

theorem findCodeStart10_oneMethod :
    findCodeStart10 (fun _ => some (0x29, 0)) 0x1000 0x2000 0x1350 = .ok 0x1020 :=
  findCodeStart10_eq recorded_oneMethod rfl (by decide) (by decide) (by decide) rfl

end EbpfProfiler.Interpreter
