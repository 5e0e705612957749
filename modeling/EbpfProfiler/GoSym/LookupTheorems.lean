import EbpfProfiler.GoSym.Raw
import EbpfProfiler.Lib.Bisect

/-!
# Finding the function of an address

The last entry of the index only ends the last function; the search never looks at it.
-/

namespace EbpfProfiler.GoSym

open Lib List

/-! ## Tables -/

/-- Functions start at `starts i` with records at `offs i`; the last entry is the end. -/
structure FuncTable.Indexed (t : FuncTable) (textStart : BitVec 64) (starts offs : ℕ → BitVec 64) :
    Prop where
  entries : ∀ i ≤ t.numFuncs.toNat, ∃ entry, t.entryAt (i * t.entrySize) = .ok ⟨entry, offs i⟩ ∧
    entry.resolve textStart = starts i
  increasing : ∀ i < t.numFuncs.toNat, starts i < starts (i + 1)

/-- The function of an address: from its start on, before the next one. -/
def containing (starts : ℕ → BitVec 64) (n : ℕ) (addr : BitVec 64) : Option ℕ :=
  (List.range n).find? fun i => starts i ≤ addr ∧ addr < starts (i + 1)

/-- What is returned for a function, if there is one. -/
def FuncTable.result (t : FuncTable) (offs : ℕ → BitVec 64) : Option ℕ → Except Error (Option Func)
  | none => .ok none
  | some i => t.found (offs i)

section Search

variable {t : FuncTable} {textStart addr : BitVec 64} {starts offs : ℕ → BitVec 64}

lemma entrySize_pos (t : FuncTable) : 0 < t.entrySize := by
  unfold FuncTable.entrySize FuncTabIndexEntry.sizeOf
  split
  · decide
  · rcases t.reader.header.ptrSize_eq with h | h
    · rw [h]
      decide
    · rw [h]
      decide

lemma mid_eq {l r size : ℕ} (hsize : 0 < size) :
    (l * size + (r * size - l * size) / 2) / size * size = (l + (r - l) / 2) * size := by
  rw [← Nat.sub_mul, add_comm, Nat.add_mul_div_right _ _ hsize, Nat.div_div_eq_div_mul,
    mul_comm 2 size, mul_comm (r - l) size, Nat.mul_div_mul_left _ _ hsize, add_comm]

section
variable (h : t.Indexed textStart starts offs)
include h

/-- **Run lemma.** The loop searches for the last start not behind the address. -/
lemma searchLoop_eq {fuel l r : ℕ} (hr : r ≤ t.numFuncs.toNat) :
    t.searchLoop textStart addr fuel (l * t.entrySize) (r * t.entrySize) =
      t.result offs (bracket (fun i => starts i ≤ addr) fuel l r) := by
  have hsize := entrySize_pos t
  induction fuel generalizing l r with
  | zero => rfl
  | succ fuel ih =>
    rw [FuncTable.searchLoop, bracket]
    simp only [Nat.mul_lt_mul_right hsize]
    by_cases hlt : l < r
    · rw [if_pos hlt, if_pos hlt, mid_eq hsize]
      generalize hmid : l + (r - l) / 2 = mid
      obtain ⟨entry, hentry, hstart⟩ := h.entries mid (by omega)
      rw [hentry]
      show (if addr < entry.resolve textStart then _ else _) = _
      rw [hstart]
      by_cases hbefore : addr < starts mid
      · have htest : decide (starts mid ≤ addr) = false := by
          simpa using hbefore
        rw [if_pos hbefore, if_pos htest]
        exact ih (by omega)
      · have htest : ¬ decide (starts mid ≤ addr) = false := by
          simpa using hbefore
        rw [if_neg hbefore, if_neg htest]
        have hnextPos : mid * t.entrySize + t.entrySize = (mid + 1) * t.entrySize :=
          (Nat.succ_mul mid t.entrySize).symm
        simp only [hnextPos, Nat.mul_lt_mul_right hsize]
        by_cases hnext : mid + 1 < r
        · obtain ⟨entry', hentry', hstart'⟩ := h.entries (mid + 1) (by omega)
          rw [if_pos hnext, if_pos hnext, hentry']
          show (if entry'.resolve textStart ≤ addr then _ else _) = _
          rw [hstart']
          by_cases hle : starts (mid + 1) ≤ addr
          · rw [if_pos hle, if_pos (decide_eq_true hle)]
            exact ih hr
          · rw [if_neg hle, if_neg (by simpa using hle)]
            rfl
        · rw [if_neg hnext, if_neg hnext]
          rfl
    · rw [if_neg hlt, if_neg hlt]
      rfl

lemma mod_size_eq : t.numFuncs.toNat * t.entrySize % 2 ^ 64 = t.numFuncs.toNat * t.entrySize := by
  obtain ⟨entry, hentry, -⟩ := h.entries _ le_rfl
  have hlen := t.reader.length_lt
  unfold FuncTable.entryAt Reader.subFrom at hentry
  by_cases hle : t.numFuncs.toNat * t.entrySize ≤ t.reader.data.length
  · omega
  · rw [if_neg hle] at hentry
    cases hentry

lemma funcByAddr_eq : t.funcByAddr textStart addr =
      t.result offs (bracket (fun i => starts i ≤ addr) t.numFuncs.toNat 0 t.numFuncs.toNat) := by
  unfold FuncTable.funcByAddr
  rw [mod_size_eq h, ← searchLoop_eq h le_rfl, zero_mul]

lemma starts_mono {i j : ℕ} (hij : i ≤ j) (hj : j ≤ t.numFuncs.toNat) : starts i ≤ starts j := by
  induction j with
  | zero =>
    rw [Nat.le_zero.mp hij]
    exact BitVec.le_refl _
  | succ j ih =>
    rcases Nat.lt_or_ge i (j + 1) with hlt | hge
    · exact BitVec.le_trans (ih (by omega) (by omega)) (BitVec.le_of_lt (h.increasing j (by omega)))
    · rw [Nat.le_antisymm hij hge]
      exact BitVec.le_refl _

/-- An address is in at most one function. -/
lemma containing_eq_some_iff {i : ℕ} : containing starts t.numFuncs.toNat addr = some i ↔
      i < t.numFuncs.toNat ∧ starts i ≤ addr ∧ addr < starts (i + 1) := by
  unfold containing
  constructor
  · intro hfind
    have hmem := mem_of_find?_eq_some hfind
    have hin := find?_some hfind
    exact ⟨mem_range.mp hmem, by simpa using hin⟩
  · rintro ⟨hi, hstart, hend⟩
    cases hfind : (List.range t.numFuncs.toNat).find? fun i => starts i ≤ addr ∧
      addr < starts (i + 1) with
    | none =>
      have hnone : starts i ≤ addr → starts (i + 1) ≤ addr := by
        simpa using find?_eq_none.mp hfind i (mem_range.mpr hi)
      exact absurd hend (BitVec.not_lt.mpr (hnone hstart))
    | some j =>
      have hj := mem_range.mp (mem_of_find?_eq_some hfind)
      have hin : starts j ≤ addr ∧ addr < starts (j + 1) := by simpa using find?_some hfind
      -- of two functions the first one ends where the second one starts, or before
      have hnot {a b : ℕ} (hlt : a < b) (hb : b < t.numFuncs.toNat) (ha : addr < starts (a + 1)) :
          ¬ starts b ≤ addr := by
        intro hle
        have hmono := starts_mono h (show a + 1 ≤ b from hlt) (Nat.le_of_lt hb)
        exact BitVec.not_lt.mpr (BitVec.le_trans hmono hle) ha
      rcases Nat.lt_trichotomy i j with hlt | rfl | hgt
      · exact absurd hin.1 (hnot hlt hj hend)
      · rfl
      · exact absurd hstart (hnot hgt hi hin.2)

lemma bracket_starts_iff {i : ℕ} :
    bracket (fun i => starts i ≤ addr) t.numFuncs.toNat 0 t.numFuncs.toNat = some i ↔
      i < t.numFuncs.toNat ∧ starts i ≤ addr ∧
      (i + 1 < t.numFuncs.toNat → addr < starts (i + 1)) := by
  rw [bracket_eq_some_iff _ (Nat.sub_le _ _)]
  · constructor
    · intro hlast
      exact ⟨hlast.lt_hi, by simpa using hlast.pass, fun hi => by simpa using hlast.next hi⟩
    · rintro ⟨hi, hstart, hnext⟩
      exact ⟨Nat.zero_le _, hi, by simpa using hstart, fun hi' => by simpa using hnext hi'⟩
  · intro j k hjk hk hpass
    have hle : starts k ≤ addr := by simpa using hpass
    simpa using BitVec.le_trans (starts_mono h hjk (Nat.le_of_lt hk)) hle

end

lemma result_some_ne (i : ℕ) : t.result offs (some i) ≠ .ok none := by
  intro h
  dsimp only [FuncTable.result, FuncTable.found] at h
  cases hfunc : t.func (offs i) with
  | error | ok =>
    rw [hfunc] at h
    cases h

end Search

/-- **Main result.** In front of the end, a function is found for exactly its addresses. -/
theorem findFunc_eq_iff {rt : GoRuntimeInfo} {starts offs : ℕ → BitVec 64}
    (h : rt.funcTable.Indexed rt.textStart starts offs) (addr : BitVec 64) :
    rt.findFunc addr =
        rt.funcTable.result offs (containing starts rt.funcTable.numFuncs.toNat addr) ↔
      rt.funcTable.numFuncs = 0 ∨ addr < starts rt.funcTable.numFuncs.toNat := by
  unfold GoRuntimeInfo.findFunc
  rw [funcByAddr_eq h]
  by_cases hcond : rt.funcTable.numFuncs = 0 ∨ addr < starts rt.funcTable.numFuncs.toNat
  · refine iff_of_true ?_ hcond
    congr 1
    apply Option.ext
    intro i
    rw [bracket_starts_iff h, containing_eq_some_iff h]
    apply and_congr_right
    intro hi
    apply and_congr_right
    intro _
    rcases hcond with hzero | hend
    · rw [hzero] at hi
      exact absurd hi (Nat.not_lt_zero _)
    · constructor
      · intro hnext
        rcases Nat.lt_or_ge (i + 1) rt.funcTable.numFuncs.toNat with hlt | hge
        · exact hnext hlt
        · rw [show i + 1 = rt.funcTable.numFuncs.toNat by omega]
          exact hend
      · intro hlt _
        exact hlt
  · refine iff_of_false ?_ hcond
    obtain ⟨hne, hbehind⟩ := not_or.mp hcond
    have hle : starts rt.funcTable.numFuncs.toNat ≤ addr := BitVec.not_lt.mp hbehind
    obtain ⟨n, hn⟩ : ∃ n, rt.funcTable.numFuncs.toNat = n + 1 := by
      apply Nat.exists_eq_succ_of_ne_zero
      intro hzero
      exact hne (BitVec.eq_of_toNat_eq hzero)
    -- the last function is found, and the address is in none
    have hfound : bracket (fun i => starts i ≤ addr) rt.funcTable.numFuncs.toNat 0
        rt.funcTable.numFuncs.toNat = some n := (bracket_starts_iff h).mpr
      ⟨by omega,
        BitVec.le_trans (starts_mono h (by omega) (Nat.le_refl _)) hle, fun hlt => by omega⟩
    have hnone : containing starts rt.funcTable.numFuncs.toNat addr = none := by
      cases hc : containing starts rt.funcTable.numFuncs.toNat addr with
      | none => rfl
      | some i =>
        obtain ⟨hi, -, hlt⟩ := (containing_eq_some_iff h).mp hc
        have hmono :=
          starts_mono h (show i + 1 ≤ rt.funcTable.numFuncs.toNat from hi) (Nat.le_refl _)
        exact absurd hlt (BitVec.not_lt.mpr (BitVec.le_trans hmono hle))
    rw [hfound, hnone]
    exact result_some_ne n

/-- The numbers as little-endian words of four bytes. -/
def words (ns : List ℕ) : List Byte := ns.flatMap (leBytes 4)

/-- A `.gopclntab` of Go 1.20: functions at `0x401000` and `0x401010`, end at `0x401020`. -/
def twoFuncs : List Byte :=
  [0xf1, 0xff, 0xff, 0xff,  0, 0,  1,  8] ++
    [2, 0, 0x401000, 72, 72, 72, 72, 72].flatMap (leBytes 8) ++
    words [0, 24,  16, 68,  32, 0] ++
    words [0,  1, 0, 0, 0, 2, 3, 0, 0, 7, 0] ++
    words [16, 5, 0, 0, 0, 6, 7, 0, 0, 9, 0]

def twoFuncsInfo : GoRuntimeInfo where
  textStart := 0x401000
  funcTable :=
    ⟨⟨⟨.v120, 1, 8, by decide, by decide⟩, 0x500048, twoFuncs.drop 72, by decide +kernel⟩, 2⟩

def twoFuncsStarts (i : ℕ) : BitVec 64 := 0x401000 + 16 * BitVec.ofNat 64 i

def twoFuncsOffs (i : ℕ) : BitVec 64 := [24, 68, 0].getD i 0

lemma twoFuncs_indexed : twoFuncsInfo.funcTable.Indexed 0x401000 twoFuncsStarts twoFuncsOffs := by
  constructor
  · intro i hi
    have hcases : i = 0 ∨ i = 1 ∨ i = 2 := by
      have : twoFuncsInfo.funcTable.numFuncs.toNat = 2 := rfl
      omega
    rcases hcases with rfl | rfl | rfl
    · exact ⟨.offs 0, by decide +kernel, by decide⟩
    · exact ⟨.offs 16, by decide +kernel, by decide⟩
    · exact ⟨.offs 32, by decide +kernel, by decide⟩
  · decide

theorem findFunc_twoFuncs :
    GoRuntimeInfo.ofSection 0x500000 twoFuncs (by decide +kernel) none = .ok twoFuncsInfo ∧
      twoFuncsInfo.findFunc 0x401017 = twoFuncsInfo.funcTable.result twoFuncsOffs (some 1) := by
  refine ⟨by decide +kernel, ?_⟩
  rw [(findFunc_eq_iff twoFuncs_indexed 0x401017).mpr (.inr (by decide))]
  decide +kernel

/-- An address behind the last function, here by 3 GiB, is said to be in it. -/
theorem findFunc_behind :
    twoFuncsInfo.funcTable.Indexed 0x401000 twoFuncsStarts twoFuncsOffs ∧
      containing twoFuncsStarts 2 0xc0401020 = none ∧
      ((twoFuncsInfo.findFunc 0xc0401020).toOption.bind id).map (·.name) = some 5 :=
  ⟨twoFuncs_indexed, by decide, by decide +kernel⟩

end EbpfProfiler.GoSym
