import EbpfProfiler.ElfUnwind.Walk

/-!
# Which FDEs are used

`fdeHook` drops FDEs in Go code and at the entry stub, whose end it takes for a part of it.
-/

namespace EbpfProfiler.ElfUnwind

open Lib StackDeltas BitVec

def InFde (ipStart ipLen : Word) (a : ℕ) : Prop :=
  ipStart.toNat ≤ a ∧ a < ipStart.toNat + ipLen.toNat

namespace ExtractionFilter

/-- The FDE lies in the code with `.gopclntab` data. -/
def Contains (f : ExtractionFilter) (ipStart ipLen : Word) : Prop :=
  ∀ a, InFde ipStart ipLen a → f.start.toNat ≤ a ∧ a < f.end.toNat

/-- The FDE has an address of the entry stub. -/
def MeetsEntry (f : ExtractionFilter) (ipStart ipLen : Word) : Prop :=
  ∃ a, InFde ipStart ipLen a ∧ f.entryStart.toNat ≤ a ∧ a < f.entryEnd.toNat

/-- The FDE does not touch the entry stub from behind, nor an inverted stub from both sides. -/
def OffStubEnd (f : ExtractionFilter) (ipStart ipLen : Word) : Prop :=
  ipStart.toNat + ipLen.toNat ≤ f.entryStart.toNat ∨
    (ipStart ≠ f.entryEnd ∧ (f.entryStart < f.entryEnd ∨ f.entryEnd < ipStart))

instance (f : ExtractionFilter) (ipStart ipLen : Word) : Decidable (f.OffStubEnd ipStart ipLen) :=
  inferInstanceAs (Decidable (_ ∨ _))

variable {f : ExtractionFilter} {ipStart ipLen : Word}

lemma contains_iff (hlen : ipLen ≠ 0) : f.Contains ipStart ipLen ↔
    f.start.toNat ≤ ipStart.toNat ∧ ipStart.toNat + ipLen.toNat ≤ f.end.toNat := by
  have hpos : 0 < ipLen.toNat := by bv_omega
  constructor
  · intro h
    have hfirst := h ipStart.toNat ⟨le_rfl, by omega⟩
    have hlast := h (ipStart.toNat + ipLen.toNat - 1) ⟨by omega, by omega⟩
    omega
  · intro h a ha
    obtain ⟨hge, hlt⟩ := ha
    omega

lemma meetsEntry_iff (hlen : ipLen ≠ 0) : f.MeetsEntry ipStart ipLen ↔
    ipStart.toNat < f.entryEnd.toNat ∧ f.entryStart.toNat < ipStart.toNat + ipLen.toNat ∧
      f.entryStart.toNat < f.entryEnd.toNat := by
  have hpos : 0 < ipLen.toNat := by bv_omega
  constructor
  · intro h
    obtain ⟨a, ⟨hge, hlt⟩, hstart, hend⟩ := h
    omega
  · intro h
    exact ⟨max ipStart.toNat f.entryStart.toNat, ⟨by omega, by omega⟩, by omega, by omega⟩

lemma fdeHook_keeps_iff (hstart : ipStart ≠ 0) (hsum : ipStart.toNat + ipLen.toNat < 2 ^ 64) :
    (f.fdeHook ipStart ipLen).1 = true ↔
      ¬(f.start.toNat ≤ ipStart.toNat ∧ ipStart.toNat + ipLen.toNat ≤ f.end.toNat) ∧
      ¬(f.entryStart.toNat < ipStart.toNat + ipLen.toNat ∧ ipStart.toNat ≤ f.entryEnd.toNat) := by
  have hend : (ipStart + ipLen).toNat = ipStart.toNat + ipLen.toNat := by
    rw [toNat_add, Nat.mod_eq_of_lt hsum]
  have hgo : (f.start ≤ ipStart ∧ ipStart + ipLen ≤ f.end) ↔
      f.start.toNat ≤ ipStart.toNat ∧ ipStart.toNat + ipLen.toNat ≤ f.end.toNat := by
    rw [le_def, le_def, hend]
  have hentry : (f.entryStart < ipStart + ipLen ∧ ipStart ≤ f.entryEnd) ↔
      f.entryStart.toNat < ipStart.toNat + ipLen.toNat ∧ ipStart.toNat ≤ f.entryEnd.toNat := by
    rw [lt_def, le_def, hend]
  rw [← hgo, ← hentry, fdeHook]
  split
  · next h => simp [h]
  · next h =>
    split
    · next h' => simp [h']
    · next h' => exact iff_of_true rfl ⟨h, h'⟩

end ExtractionFilter

lemma parseFDE_intervals {ee : ElfExtractor} {r : Reader} {n : ℕ} {cie : CieInfo}
    {s s' : Extraction} (h : (parseFDE ee r n cie).exec s = (.ok (), s')) :
    ∃ c₁ c₂ ipStart ipLen, (Comp.startSection n).exec s.reader = (.ok (), c₁) ∧
      (fdeHeader r cie).exec c₁ = (.ok (ipStart, ipLen), c₂) ∧
      ((s.filter.fdeHook ipStart ipLen).1 = true → ∃ deltas, s'.intervals =
        s.intervals.add ⟨ipStart.toNat, (ipStart + ipLen).toNat, deltas⟩) ∧
      ((s.filter.fdeHook ipStart ipLen).1 = false → s'.intervals = s.intervals) := by
  obtain ⟨ipStart, ipLen, c₂, ⟨c₁, hstart, hheader⟩, -, hcases⟩ := parseFDE_ok h
  refine ⟨c₁, c₂, ipStart, ipLen, hstart, hheader, ?_⟩
  rcases hcases with ⟨hkeep, deltas, -, -, hadd⟩ | ⟨hdrop, hsame⟩
  · exact ⟨fun _ => ⟨deltas, hadd⟩, fun hdrop => absurd (hkeep.symm.trans hdrop) (by decide)⟩
  · exact ⟨fun hkeep => absurd (hkeep.symm.trans hdrop) (by decide), fun _ => hsame⟩

/-- Unless an FDE starts at the end of the entry stub, `fdeHook` keeps it exactly when nothing
supersedes it, and it contributes a block exactly then. -/
theorem fdeHook_iff (f : ExtractionFilter) {ipStart ipLen : Word} (hstart : ipStart ≠ 0)
    (hlen : ipLen ≠ 0) (hsum : ipStart.toNat + ipLen.toNat < 2 ^ 64) :
    (((f.fdeHook ipStart ipLen).1 = true ↔
        ¬f.Contains ipStart ipLen ∧ ¬f.MeetsEntry ipStart ipLen) ↔
      f.Contains ipStart ipLen ∨ f.OffStubEnd ipStart ipLen) ∧
    ∀ (ee : ElfExtractor) (r : Reader) (n : ℕ) (cie : CieInfo) (s s' : Extraction) (c₁ c₂ : Cursor),
      s.filter = f → (Comp.startSection n).exec s.reader = (.ok (), c₁) →
      (fdeHeader r cie).exec c₁ = (.ok (ipStart, ipLen), c₂) →
      (parseFDE ee r n cie).exec s = (.ok (), s') →
      ((f.fdeHook ipStart ipLen).1 = true → ∃ deltas, s'.intervals =
        s.intervals.add ⟨ipStart.toNat, ipStart.toNat + ipLen.toNat, deltas⟩) ∧
      ((f.fdeHook ipStart ipLen).1 = false → s'.intervals = s.intervals) := by
  constructor
  · have hne : ipStart ≠ f.entryEnd ↔ ipStart.toNat ≠ f.entryEnd.toNat :=
      not_congr toNat_inj.symm
    rw [ExtractionFilter.fdeHook_keeps_iff hstart hsum, ExtractionFilter.contains_iff hlen,
      ExtractionFilter.meetsEntry_iff hlen, ExtractionFilter.OffStubEnd, hne, lt_def, lt_def]
    omega
  · intro ee r n cie s s' c₁ c₂ hfilter hsection hheader h
    subst hfilter
    obtain ⟨c₁', c₂', ipStart', ipLen', hsection', hheader', hkeep, hdrop⟩ := parseFDE_intervals h
    obtain rfl : c₁ = c₁' := by
      rw [hsection] at hsection'
      exact (Prod.mk.inj hsection').2
    rw [hheader] at hheader'
    cases hheader'
    have hend : (ipStart + ipLen).toNat = ipStart.toNat + ipLen.toNat := by
      rw [toNat_add, Nat.mod_eq_of_lt hsum]
    rw [hend] at hkeep
    exact ⟨hkeep, hdrop⟩

def stubFilter : ExtractionFilter := { entryStart := 0x1000, entryEnd := 0x1020 }

theorem fdeHook_iff_around :
    ((stubFilter.fdeHook 0xff0 0x10).1 = true ↔
      ¬stubFilter.Contains 0xff0 0x10 ∧ ¬stubFilter.MeetsEntry 0xff0 0x10) ∧
    ((stubFilter.fdeHook 0x1030 0x10).1 = true ↔
      ¬stubFilter.Contains 0x1030 0x10 ∧ ¬stubFilter.MeetsEntry 0x1030 0x10) :=
  ⟨(fdeHook_iff stubFilter (by decide) (by decide) (by decide)).1.mpr (.inr (by decide)),
    (fdeHook_iff stubFilter (by decide) (by decide) (by decide)).1.mpr (.inr (by decide))⟩

/-- The function right behind the stub is dropped, though nothing supersedes it. -/
theorem fdeHook_at_stub_end :
    ¬stubFilter.Contains 0x1020 0x10 ∧ ¬stubFilter.MeetsEntry 0x1020 0x10 ∧
      (stubFilter.fdeHook 0x1020 0x10).1 = false := by
  refine ⟨?_, ?_, by decide⟩
  · rw [ExtractionFilter.contains_iff (by decide)]
    decide
  · rw [ExtractionFilter.meetsEntry_iff (by decide)]
    decide

end EbpfProfiler.ElfUnwind
