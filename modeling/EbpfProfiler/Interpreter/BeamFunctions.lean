import EbpfProfiler.Interpreter.RemoteMemory
import EbpfProfiler.Lib.Comp
import EbpfProfiler.Lib.Machine

/-!
# The functions of a BEAM module

The exclusive `highIdx` of `findMFA` (`beam.go`) starts as the index of the last function.
-/

namespace EbpfProfiler.Interpreter.Beam

open Lib
open Wire (Word)

/-- The offsets and sizes of `beamData.vmStructs` that `findMFA` uses. -/
structure VmStructs where
  numFunctions : ℕ
  functions : ℕ
  mfa : ℕ
  mfaSizeOf : ℕ
  module : ℕ
  function : ℕ
  arity : ℕ

/-- Module, function and arity. -/
structure BeamMfa where
  module : BitVec 32
  function : BitVec 32
  arity : BitVec 32
  deriving DecidableEq

def midIdx (lowIdx highIdx : ℕ) : ℕ := lowIdx + (highIdx - lowIdx) / 2

section Source

variable (rm : RemoteMemory) (vms : VmStructs) (codeHeader pc : Word)

/-- Start and end of a function: `codeHeader.functions[idx]` and the next one. -/
def functionRange (idx : ℕ) : Except String (Word × Word) :=
  match rm.read (codeHeader + BitVec.ofNat 64 vms.functions + BitVec.ofNat 64 (idx * 8)) 16 with
  | .error _ => .error
      s!"BEAM unable to read codeHeader.functions[{idx}] for codeHeader 0x{hex codeHeader.toNat}"
  | .ok b => .ok (npsrPtr b 0, npsrPtr b 8)

def readMfa (ertsCodeInfo : Word) : Except String BeamMfa :=
  match rm.read (ertsCodeInfo + BitVec.ofNat 64 vms.mfa) vms.mfaSizeOf with
  | .error _ => .error s!"BEAM unable to look up MFA at for ertsCodeInfo 0x{hex ertsCodeInfo.toNat}"
  | .ok b => .ok ⟨npsrUint32 b vms.module, npsrUint32 b vms.function, npsrUint32 b vms.arity⟩

/-- The loop of `findMFA`, at most so many rounds. -/
def findLoop : ℕ → ℕ → ℕ → Except Fault (ℕ × BeamMfa)
  | 0, _, _ => .error .hang
  | fuel + 1, lowIdx, highIdx =>
    if lowIdx < highIdx then
      match functionRange rm vms codeHeader (midIdx lowIdx highIdx) with
      | .error err => .error (.error err)
      | .ok (midStart, midEnd) =>
        if pc < midStart then findLoop fuel lowIdx (midIdx lowIdx highIdx)
        else if midEnd ≤ pc then findLoop fuel (midIdx lowIdx highIdx + 1) highIdx
        else
          match readMfa rm vms midStart with
          | .error err => .error (.error err)
          | .ok mfa => .ok (midIdx lowIdx highIdx, mfa)
    else .error (.error
      s!"BEAM unable to find the MFA for PC 0x{hex pc.toNat} in expected code range")

/-- `uint64(numFunctions) - 1`. -/
def highIdx (numFunctions : ℕ) : ℕ := (numFunctions + (2 ^ 64 - 1)) % 2 ^ 64

/-- `findMFA`. A window of less than `2 ^ 64` indices is closed in 65 rounds. -/
def findMFA : Except Fault (ℕ × BeamMfa) :=
  findLoop rm vms codeHeader pc 65 0
    (highIdx (rm.uint32 (codeHeader + BitVec.ofNat 64 vms.numFunctions)).toNat)

end Source

/-! ## Where the search ends -/

/-- The indices that a search in `[lo, hi)` looks at on the way to `k`. -/
def way (k : ℕ) : ℕ → ℕ → ℕ → List ℕ
  | 0, _, _ => []
  | n + 1, lo, hi =>
    if lo < hi then
      midIdx lo hi :: (if k < midIdx lo hi then way k n lo (midIdx lo hi)
        else if midIdx lo hi < k then way k n (midIdx lo hi + 1) hi else [])
    else []

lemma midIdx_mem {lo hi : ℕ} (h : lo < hi) : lo ≤ midIdx lo hi ∧ midIdx lo hi < hi ∧
    midIdx lo hi - lo ≤ (hi - lo) / 2 ∧ hi - (midIdx lo hi + 1) ≤ (hi - lo) / 2 := by
  unfold midIdx
  omega

section

variable {rm : RemoteMemory} {vms : VmStructs} {codeHeader pc : Word} {starts : ℕ → Word} {n : ℕ}

variable (rm vms codeHeader pc) in
/-- The entry at `h` sends the search towards `k`. -/
def Points (k h : ℕ) : Prop :=
  ∃ a b, functionRange rm vms codeHeader h = .ok (a, b) ∧ (pc < a ↔ k < h) ∧
    (a ≤ pc → (b ≤ pc ↔ h < k))

variable (rm vms codeHeader pc) in
/-- The entry at `k` is a range with the pc, and its function has the given name. -/
def Holds (k : ℕ) (mfa : BeamMfa) : Prop :=
  ∃ a b, functionRange rm vms codeHeader k = .ok (a, b) ∧ a ≤ pc ∧ pc < b ∧
    readMfa rm vms a = .ok mfa

variable {k fuel lo hi i : ℕ} {mfa : BeamMfa}

lemma mem_way {h : ℕ} (hmem : h ∈ way k fuel lo hi) : lo ≤ h ∧ h < hi := by
  induction fuel generalizing lo hi with
  | zero => cases hmem
  | succ fuel ih =>
    rw [way] at hmem
    by_cases hlt : lo < hi
    · have hmid := midIdx_mem hlt
      rw [if_pos hlt, List.mem_cons] at hmem
      rcases hmem with rfl | hmem
      · omega
      · split at hmem
        · have := ih hmem
          omega
        · split at hmem
          · have := ih hmem
            omega
          · cases hmem
    · rw [if_neg hlt] at hmem
      cases hmem

/-- **Run lemma.** The search ends where the entries on the way point. -/
lemma findLoop_ok_iff (hsize : hi - lo < 2 ^ fuel) :
    findLoop rm vms codeHeader pc fuel lo hi = .ok (k, mfa) ↔ lo ≤ k ∧ k < hi ∧
      (∀ h ∈ way k fuel lo hi, Points rm vms codeHeader pc k h) ∧
      Holds rm vms codeHeader pc k mfa := by
  induction fuel generalizing lo hi with
  | zero =>
    refine iff_of_false (by simp [findLoop]) ?_
    omega
  | succ fuel ih =>
    rw [findLoop, way]
    by_cases hlt : lo < hi
    · have hmem := midIdx_mem hlt
      rw [if_pos hlt, if_pos hlt, List.forall_mem_cons]
      generalize midIdx lo hi = mid at hmem ⊢
      rcases hrange : functionRange rm vms codeHeader mid with err | ⟨a, b⟩
      · simp [Points, hrange]
      have hpoints : Points rm vms codeHeader pc k mid ↔
          (pc < a ↔ k < mid) ∧ (a ≤ pc → (b ≤ pc ↔ mid < k)) := by
        simp [Points, hrange]
      rw [hpoints]
      dsimp only
      -- the three sides of the range on which the pc can be, and `k` on the same side of `mid`
      by_cases hleft : pc < a
      · rw [if_pos hleft, ih (by omega)]
        by_cases hk : k < mid
        · simp [hleft, hk]
          omega
        · simp [hleft, hk]
      rw [if_neg hleft]
      by_cases hright : b ≤ pc
      · rw [if_pos hright, ih (by omega)]
        by_cases hk : mid < k
        · have hnot : ¬k < mid := by omega
          simp [hleft, hright, hk, hnot, BitVec.not_lt.mp hleft]
          omega
        · refine iff_of_false (fun h => hk h.1) ?_
          rintro ⟨-, -, ⟨⟨-, hr⟩, -⟩, -⟩
          exact hk ((hr (BitVec.not_lt.mp hleft)).mp hright)
      · rw [if_neg hright]
        by_cases hk : k = mid
        · subst hk
          cases hmfa : readMfa rm vms a <;>
            simp [hleft, hright, hrange, hmfa, hmem, Holds, BitVec.not_lt.mp hleft,
              BitVec.not_le.mp hright]
        · refine iff_of_false ?_ ?_
          · cases readMfa rm vms a <;> simp [Ne.symm hk]
          · rintro ⟨-, -, ⟨⟨hl, hr⟩, -⟩, -⟩
            rw [iff_false_left hleft] at hl
            rw [iff_false_left hright] at hr
            have := hr (BitVec.not_lt.mp hleft)
            omega
    · rw [if_neg hlt]
      refine iff_of_false (by simp) ?_
      omega

lemma findLoop_ends (hsize : hi - lo < 2 ^ fuel) :
    (∃ r, findLoop rm vms codeHeader pc (fuel + 1) lo hi = .ok r) ∨
      ∃ err, findLoop rm vms codeHeader pc (fuel + 1) lo hi = .error (.error err) := by
  induction fuel generalizing lo hi with
  | zero =>
    rw [findLoop, if_neg (by omega)]
    simp
  | succ fuel ih =>
    rw [findLoop]
    by_cases hlt : lo < hi
    · have hmem := midIdx_mem hlt
      rw [if_pos hlt]
      rcases functionRange rm vms codeHeader (midIdx lo hi) with err | ⟨a, b⟩
      · simp
      dsimp only
      split
      · exact ih (by omega)
      split
      · exact ih (by omega)
      · cases readMfa rm vms a <;> simp
    · rw [if_neg hlt]
      simp

lemma highIdx_lt (n : ℕ) : highIdx n < 2 ^ 64 := Nat.mod_lt _ (by decide)

lemma findMFA_ok_iff (hn : (rm.uint32 (codeHeader + BitVec.ofNat 64 vms.numFunctions)).toNat = n) :
    findMFA rm vms codeHeader pc = .ok (k, mfa) ↔ k < highIdx n ∧
      (∀ h ∈ way k 65 0 (highIdx n), Points rm vms codeHeader pc k h) ∧
      Holds rm vms codeHeader pc k mfa := by
  have hsize : highIdx n - 0 < 2 ^ 65 := by
    have := highIdx_lt n
    omega
  rw [findMFA, hn, findLoop_ok_iff hsize, and_iff_right (Nat.zero_le k)]

lemma findMFA_error_iff : (∃ err, findMFA rm vms codeHeader pc = .error (.error err)) ↔
    ∀ k mfa, findMFA rm vms codeHeader pc ≠ .ok (k, mfa) := by
  have hends : (∃ r, findMFA rm vms codeHeader pc = .ok r) ∨
      ∃ err, findMFA rm vms codeHeader pc = .error (.error err) := by
    rw [findMFA]
    generalize hhi : highIdx _ = hi
    have hsize : hi - 0 < 2 ^ 64 := by
      rw [← hhi, Nat.sub_zero]
      exact highIdx_lt _
    exact findLoop_ends hsize
  rcases hends with ⟨r, h⟩ | ⟨err, h⟩
  · simp [h, Prod.ext_iff]
  · simp [h]

/-! ## Sorted functions -/

variable (rm vms codeHeader) in
/-- A code header of `n` functions: ascending starts, and the end of the code. -/
structure CodeHeader (starts : ℕ → Word) (n : ℕ) : Prop where
  count : (rm.uint32 (codeHeader + BitVec.ofNat 64 vms.numFunctions)).toNat = n
  range : ∀ i < n, functionRange rm vms codeHeader i = .ok (starts i, starts (i + 1))
  ascending : ∀ i < n, starts i < starts (i + 1)
  mfa : ∀ i < n, ∃ mfa, readMfa rm vms (starts i) = .ok mfa

variable (rm vms codeHeader pc) in
/-- A pc in the code is found in its function, and a pc outside is not found. -/
def FindsFunction (starts : ℕ → Word) (n : ℕ) : Prop :=
  (starts 0 ≤ pc ∧ pc < starts n → ∃ i mfa, findMFA rm vms codeHeader pc = .ok (i, mfa) ∧ i < n ∧
    starts i ≤ pc ∧ pc < starts (i + 1) ∧ readMfa rm vms (starts i) = .ok mfa) ∧
  (¬(starts 0 ≤ pc ∧ pc < starts n) → ∃ err, findMFA rm vms codeHeader pc = .error (.error err))

lemma CodeHeader.le (h : CodeHeader rm vms codeHeader starts n) {j : ℕ} (hij : i ≤ j) (hj : j ≤ n) :
    starts i ≤ starts j := by
  induction j, hij using Nat.le_induction with
  | base => exact BitVec.le_refl _
  | succ j hij ih => exact BitVec.le_trans (ih (by omega)) (BitVec.le_of_lt (h.ascending j hj))

lemma CodeHeader.exists_range {m : ℕ} (hlo : starts 0 ≤ pc) (hhi : pc < starts m) :
    ∃ i < m, starts i ≤ pc ∧ pc < starts (i + 1) := by
  induction m with
  | zero => exact absurd hlo (BitVec.not_le.mpr hhi)
  | succ m ih =>
    by_cases hm : pc < starts m
    · obtain ⟨i, hi, hrange⟩ := ih hm
      exact ⟨i, by omega, hrange⟩
    · exact ⟨m, by omega, BitVec.not_lt.mp hm, hhi⟩

lemma CodeHeader.points (h : CodeHeader rm vms codeHeader starts n) {j : ℕ} (hi : i < n)
    (hj : j < n) (hlo : starts i ≤ pc)
    (hhi : pc < starts (i + 1)) : Points rm vms codeHeader pc i j := by
  refine ⟨_, _, h.range j hj, ?_, fun _ => ?_⟩
  · rcases lt_or_ge i j with hij | hij
    · have hle : starts (i + 1) ≤ starts j := h.le hij hj.le
      exact iff_of_true (by bv_omega) hij
    · have hle := h.le hij hi.le
      exact iff_of_false (by bv_omega) (by omega)
  · rcases lt_or_ge j i with hij | hij
    · have hle : starts (j + 1) ≤ starts i := h.le hij hi.le
      exact iff_of_true (by bv_omega) hij
    · have hle : starts (i + 1) ≤ starts (j + 1) := h.le (by omega) hj
      exact iff_of_false (by bv_omega) (by omega)

lemma CodeHeader.findMFA_ok_iff (h : CodeHeader rm vms codeHeader starts n) (hn : n ≠ 0) :
    findMFA rm vms codeHeader pc = .ok (i, mfa) ↔
      i < n - 1 ∧ starts i ≤ pc ∧ pc < starts (i + 1) ∧ readMfa rm vms (starts i) = .ok mfa := by
  have hhigh : highIdx n = n - 1 := by
    have hlt : n < 2 ^ 32 := h.count ▸ BitVec.isLt _
    unfold highIdx
    omega
  rw [Beam.findMFA_ok_iff h.count, hhigh]
  apply and_congr_right
  intro hi
  have hholds : Holds rm vms codeHeader pc i mfa ↔
      starts i ≤ pc ∧ pc < starts (i + 1) ∧ readMfa rm vms (starts i) = .ok mfa := by
    simp [Holds, h.range i (by omega)]
  rw [hholds, and_iff_right_iff_imp]
  rintro ⟨hlo, hhi, -⟩ j hj
  have hlt := (mem_way hj).2
  exact h.points (by omega) (by omega) hlo hhi

/-- **Main result.** The functions are found exactly if the pc is not in the last one, and without
functions no entry around the header passes for its range. -/
theorem findMFA_finds_iff (h : CodeHeader rm vms codeHeader starts n) :
    FindsFunction rm vms codeHeader pc starts n ↔
      (n ≠ 0 → ¬(starts (n - 1) ≤ pc ∧ pc < starts n)) ∧
      (n = 0 → ∀ k mfa, k < 2 ^ 64 - 1 →
        (∀ i ∈ way k 65 0 (2 ^ 64 - 1), Points rm vms codeHeader pc k i) →
        ¬Holds rm vms codeHeader pc k mfa) := by
  by_cases hn : n = 0
  · subst hn
    have hempty : ¬(starts 0 ≤ pc ∧ pc < starts 0) := by bv_omega
    simp [FindsFunction, hempty, findMFA_error_iff, Beam.findMFA_ok_iff h.count, highIdx]
  · simp only [FindsFunction, findMFA_error_iff, h.findMFA_ok_iff hn, hn, ne_eq, not_false_eq_true,
      forall_const, false_implies, and_true]
    constructor
    · rintro ⟨hfound, -⟩ ⟨hlo, hhi⟩
      obtain ⟨i, mfa, ⟨hi, -⟩, -, -, hlt, -⟩ :=
        hfound ⟨BitVec.le_trans (h.le (by omega) (by omega)) hlo, hhi⟩
      have hle : starts (i + 1) ≤ starts (n - 1) := h.le (by omega) (by omega)
      bv_omega
    · intro hlast
      constructor
      · rintro ⟨hlo, hhi⟩
        obtain ⟨i, hi, hlo, hhi⟩ := CodeHeader.exists_range hlo hhi
        obtain ⟨mfa, hmfa⟩ := h.mfa i hi
        have hne : i ≠ n - 1 := by
          rintro rfl
          rw [Nat.sub_add_cancel (by omega)] at hhi
          exact hlast ⟨hlo, hhi⟩
        exact ⟨i, mfa, ⟨by omega, hlo, hhi, hmfa⟩, hi, hlo, hhi, hmfa⟩
      · rintro hout i mfa ⟨hi, hlo, hhi, -⟩
        refine hout ⟨BitVec.le_trans (h.le (Nat.zero_le i) (by omega)) hlo, ?_⟩
        have hle : starts (i + 1) ≤ starts n := h.le (by omega) (by omega)
        bv_omega

end

def otp27 : VmStructs := ⟨0, 136, 16, 24, 0, 8, 16⟩

def twoFunctions : RemoteMemory where
  read a n :=
    let header :=
      leBytes 8 2 ++ List.replicate 128 0 ++ [0x2000, 0x2100, 0x2200].flatMap (leBytes 8)
    if 0x1000 ≤ a.toNat ∧ a.toNat + n ≤ 0x1000 + header.length then
      .ok (slice header (a.toNat - 0x1000) (a.toNat - 0x1000 + n))
    else if 0x2000 ≤ a.toNat ∧ a.toNat + n ≤ 0x2200 then .ok (List.replicate n 0)
    else .error "bad address"
  bias := 0

def twoStarts (i : ℕ) : Word := 0x2000 + BitVec.ofNat 64 (0x100 * i)

lemma codeHeader_twoFunctions : CodeHeader twoFunctions otp27 0x1000 twoStarts 2 where
  count := by decide +kernel
  range := by decide +kernel
  ascending := by decide +kernel
  mfa i hi := ⟨⟨0, 0, 0⟩, by revert i; decide +kernel⟩

theorem findMFA_finds_first : FindsFunction twoFunctions otp27 0x1000 0x2010 twoStarts 2 :=
  (findMFA_finds_iff codeHeader_twoFunctions).mpr ⟨by decide, nofun⟩

/-- The last function of a module is not found. -/
theorem findMFA_misses_last : CodeHeader twoFunctions otp27 0x1000 twoStarts 2 ∧
    (twoStarts 0 ≤ 0x2110 ∧ 0x2110 < twoStarts 2) ∧
    findMFA twoFunctions otp27 0x1000 0x2110 =
      .error (.error "BEAM unable to find the MFA for PC 0x2110 in expected code range") ∧
    ¬FindsFunction twoFunctions otp27 0x1000 0x2110 twoStarts 2 := by
  have hresult : findMFA twoFunctions otp27 0x1000 0x2110 =
      .error (.error "BEAM unable to find the MFA for PC 0x2110 in expected code range") := by
    decide +kernel
  refine ⟨codeHeader_twoFunctions, by decide, hresult, ?_⟩
  rintro ⟨hfound, -⟩
  obtain ⟨i, mfa, h, -⟩ := hfound (by decide)
  rw [hresult] at h
  cases h

end EbpfProfiler.Interpreter.Beam
