import EbpfProfiler.ProcessManager.ProcessInfo

/-!
# The monitor of trace events

`startTraceEventMonitor` (`tracer/events.go`). A time of zero stands for none.
-/

namespace EbpfProfiler.ProcessManager

open List

/-- What the inner loop reads: traces with their `KTime`, and records that it skips. -/
abbrev Batch := List (Option ℕ)

def minKTime : ℕ → Batch → ℕ
  | least, [] => least
  | least, none :: batch => minKTime least batch
  | least, some t :: batch => minKTime (if least = 0 ∨ t < least then t else least) batch

/-- A poll: its call of `ProcessedUntil`, and the next `oldKTime`. -/
def poll (oldKTime : ℕ) (batch : Batch) : Option ℕ × ℕ :=
  let least := minKTime 0 batch
  if 0 < oldKTime then
    if 0 < least ∧ least ≤ oldKTime then (some least, 0) else (some oldKTime, least)
  else (none, least)

/-- `oldKTime` before a poll. -/
def oldKTime (batches : ℕ → Batch) : ℕ → ℕ
  | 0 => 0
  | k + 1 => (poll (oldKTime batches k) (batches k)).2

/-- The call of `ProcessedUntil` after a batch. -/
def callAfter (batches : ℕ → Batch) (k : ℕ) : Option ℕ :=
  (poll (oldKTime batches k) (batches k)).1

lemma minKTime_spec {batch : Batch} (hpos : ∀ t, some t ∈ batch → 0 < t) (least : ℕ) :
    (0 < least → 0 < minKTime least batch ∧ minKTime least batch ≤ least) ∧
      ∀ t, some t ∈ batch → 0 < minKTime least batch ∧ minKTime least batch ≤ t := by
  induction batch generalizing least with
  | nil => simp [minKTime]
  | cons r batch ih =>
    specialize ih fun t ht => hpos t (mem_cons_of_mem r ht)
    cases r with
    | none => simpa [minKTime] using ih least
    | some u =>
      have hu := hpos u mem_cons_self
      rw [minKTime]
      generalize hnext : (if least = 0 ∨ u < least then u else least) = next
      have hle : 0 < next ∧ next ≤ u ∧ (0 < least → next ≤ least) := by
        rw [← hnext]
        split_ifs <;> omega
      have hrest := (ih next).1 hle.1
      refine ⟨fun hleast => ⟨hrest.1, hrest.2.trans (hle.2.2 hleast)⟩, fun t ht => ?_⟩
      rcases mem_cons.1 ht with ht | ht
      · cases ht
        exact ⟨hrest.1, hrest.2.trans hle.2.1⟩
      · exact (ih next).2 t ht

lemma processedUntil_keeps {ι : Type} {s : State ι} {pid : Pid} {exit t : ℕ}
    (hexit : s.exitEvents.lookup pid = some exit) (hlt : t < exit)
    (detach : Pid → List InterpreterOp) :
    (processedUntil t detach s).pidToProcessInfo.lookup pid = s.pidToProcessInfo.lookup pid := by
  have hlate : ∀ e ∈ s.exitEvents.entries, e.1 = pid → t < e.2 := by
    rintro ⟨p, u⟩ he rfl
    rw [AList.mem_lookup_iff.2 he] at hexit
    cases hexit
    exact hlt
  clear hexit
  unfold processedUntil
  generalize s.exitEvents.entries = entries at hlate
  induction entries generalizing s with
  | nil => rfl
  | cons e entries ih =>
    rw [foldl_cons, ih fun d hd => hlate d (mem_cons_of_mem e hd)]
    split
    · rfl
    · next he =>
      exact AList.lookup_erase_ne fun hpid => he (hlate e mem_cons_self hpid.symm)

section
variable {batches : ℕ → Batch} (hpos : ∀ k t, some t ∈ batches k → 0 < t)
include hpos

lemma callAfter_le {k j : ℕ} {t u : ℕ} (h : callAfter batches k = some t) (hj : j = k ∨ j + 1 = k)
    (hu : some u ∈ batches j) : t ≤ u := by
  have hleast := (minKTime_spec (hpos j) 0).2 u hu
  simp only [callAfter, poll] at h
  rcases hj with rfl | rfl
  · split_ifs at h <;> cases h <;> omega
  · have hold : oldKTime batches (j + 1) ≤ u := by
      simp only [oldKTime, poll]
      split_ifs <;> simp <;> omega
    split_ifs at h <;> cases h <;> omega

/-- No call tells a time later than a trace of its batch or the one before, and every batch with a
trace is followed by a call. -/
theorem callAfter_spec :
    (∀ k t, callAfter batches k = some t →
      ∀ j u, (j = k ∨ j + 1 = k) → some u ∈ batches j → t ≤ u ∧
        ∀ {ι : Type} (s : State ι) detach pid exit, s.exitEvents.lookup pid = some exit → u < exit →
          (processedUntil t detach s).pidToProcessInfo.lookup pid =
            s.pidToProcessInfo.lookup pid) ∧
    ∀ k, (∃ u, some u ∈ batches k) → ∃ j t, (j = k ∨ j = k + 1) ∧ callAfter batches j = some t ∧
      ∀ u, some u ∈ batches k → t ≤ u := by
  have hcall : ∀ k, 0 < oldKTime batches k → ∃ t, callAfter batches k = some t := by
    intro k hk
    simp only [callAfter, poll, if_pos hk]
    split <;> exact ⟨_, rfl⟩
  refine ⟨fun k t h j u hj hu => ?_, fun k ⟨u, hu⟩ => ?_⟩
  · have hle := callAfter_le hpos h hj hu
    exact ⟨hle, fun s detach pid exit hexit hlt => processedUntil_keeps hexit (by omega) detach⟩
  · by_cases hk : 0 < oldKTime batches k
    · obtain ⟨t, ht⟩ := hcall k hk
      exact ⟨k, t, Or.inl rfl, ht, fun _ => callAfter_le hpos ht (Or.inl rfl)⟩
    · have hold : oldKTime batches (k + 1) = minKTime 0 (batches k) := by
        simp only [oldKTime, poll, if_neg hk]
      obtain ⟨t, ht⟩ := hcall (k + 1) (hold ▸ ((minKTime_spec (hpos k) 0).2 u hu).1)
      exact ⟨k + 1, t, Or.inr rfl, ht, fun _ => callAfter_le hpos ht (Or.inr rfl)⟩

end

/-- A single batch, with a record that is skipped. -/
def firstBatch : ℕ → Batch
  | 0 => [some 5, none, some 3]
  | _ => []

theorem callAfter_spec_firstBatch : ∃ j t, (j = 0 ∨ j = 1) ∧ callAfter firstBatch j = some t ∧
    ∀ u, some u ∈ firstBatch 0 → t ≤ u := by
  apply (callAfter_spec fun k t h => ?_).2 0 ⟨5, by simp [firstBatch]⟩
  cases k with
  | zero =>
    simp [firstBatch] at h
    omega
  | succ k => cases h

end EbpfProfiler.ProcessManager
