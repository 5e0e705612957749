import EbpfProfiler.ExecInfo.Manager
import EbpfProfiler.StackDeltas.PageLookupTheorems

/-!
# The bookkeeping of the executable manager

In `Reachable` states the unused executables are those with count zero, and the page counter is
right. A delete that fails breaks the latter.
-/

namespace EbpfProfiler.ExecInfo

open Lib StackDeltas Comp AList Table ManagerState

variable {f : FileID}

variable {ι : Type}

/-- The number of pages that the entries account for. -/
def ManagerState.loadedPages (s : ManagerState ι) : ℕ :=
  s.executables.total fun _ e => e.mapRef.numPages

/-- A file is unused exactly when it is known with reference count zero. -/
def ManagerState.UnusedIff (s : ManagerState ι) : Prop :=
  ∀ f, f ∈ s.unusedExecutables ↔ ∃ e, s.executables.lookup f = some e ∧ e.rc = 0

/-- The unused files, the page counter, and that an entry without a map has no pages. -/
structure ManagerState.Consistent (s : ManagerState ι) : Prop where
  unused : s.UnusedIff
  pages : s.numStackDeltaMapPages = s.loadedPages
  small : s.numStackDeltaMapPages < 2 ^ 64
  unmapped : ∀ f e, s.executables.lookup f = some e → e.mapRef.mapID = 0 → e.mapRef.numPages = 0

/-- The counts of a call fit their types, and nothing that it unloads fails. -/
def Admissible (s : ManagerState ι) : Event ι → Prop
  | .addOrIncRef fileID call =>
    (∀ e, s.executables.lookup fileID = some e → e.rc + 1 < 2 ^ 64) ∧
    (s.executables.lookup fileID = none → ∀ intervals, call.intervals = .ok intervals →
      intervals.numDeltas ≠ 0 → numPages intervals < 2 ^ 32 ∧
        s.numStackDeltaMapPages + numPages intervals < 2 ^ 64)
  | .decRef _ _ => True
  | .cleanupUnused outcome cutoff order =>
    ∀ f ∈ order, ∀ unusedSince, s.unusedExecutables.lookup f = some unusedSince →
      unusedSince ≤ cutoff → ∀ e, s.executables.lookup f = some e → e.mapRef.mapID ≠ 0 →
        deleteErrors outcome f e.mapRef = []

/-- The states of the runs whose calls all meet the condition. -/
inductive Reachable : ManagerState ι → Prop
  | new : Reachable new
  | step {s : ManagerState ι} (h : Reachable s) (event : Event ι) (hadm : Admissible s event) :
      Reachable (step s event)

/-! ## The parts of the state -/

section Parts

variable {s : ManagerState ι}

section
variable (s : ManagerState ι)

lemma loadedPages_insertEntry (f : FileID) (e : Entry ι) : (s.insertEntry f e).loadedPages +
        s.executables.termAt (fun _ e => e.mapRef.numPages) f =
      e.mapRef.numPages + s.loadedPages :=
  total_insert_add _ _ _ _

lemma loadedPages_removeEntry (f : FileID) :
    (s.removeEntry f).loadedPages + s.executables.termAt (fun _ e => e.mapRef.numPages) f =
      s.loadedPages :=
  total_erase_add _ _ _

lemma lookup_insertEntry (f g : FileID) (e : Entry ι) : (s.insertEntry f e).executables.lookup g =
      if g = f then some e else s.executables.lookup g := by
  unfold insertEntry
  split
  · next h => rw [h, lookup_insert]
  · next h => rw [lookup_insert_ne h]

lemma lookup_removeEntry (f g : FileID) :
    (s.removeEntry f).executables.lookup g = if g = f then none else s.executables.lookup g := by
  unfold removeEntry
  split
  · next h => rw [h, lookup_erase]
  · next h => rw [lookup_erase_ne h]

end

end Parts

/-! ## Loading -/

/-- `loadDeltas` fails with recipes added only, has nothing to load, or loads and counts. -/
lemma loadDeltas_cases (outcome : LoadOutcome) (fileID : FileID) (intervals : IntervalData)
    (s : ManagerState ι) :
    (∃ e t, (loadDeltas outcome fileID intervals).exec s = (.error e, s.setTable t)) ∨
    (intervals.numDeltas = 0 ∧ (loadDeltas outcome fileID intervals).exec s = (.ok {}, s)) ∨
    (∃ t ref, intervals.numDeltas ≠ 0 ∧ ref.mapID ≠ 0 ∧
      ref.numPages = numPages intervals % 2 ^ 32 ∧
      (loadDeltas outcome fileID intervals).exec s = (.ok ref,
        (s.setTable t).setPages ((s.numStackDeltaMapPages + numPages intervals) % 2 ^ 64))) := by
  unfold loadDeltas
  by_cases hn : intervals.numDeltas = 0
  · rw [if_pos hn]
    exact .inr (.inl ⟨hn, rfl⟩)
  rw [if_neg hn, exec_bind, exec_zoom]
  rcases hconv : (convertDeltas outcome.updateUnwindInfo intervals).exec s.unwindTable with ⟨r, t⟩
  cases r with
  | error e => exact .inl ⟨e, t, rfl⟩
  | ok loader =>
    dsimp only
    split
    · exact .inl ⟨_, t, rfl⟩
    · next loaded hload =>
      have hid : loaded.1 ≠ 0 := by
        have hsmallest := (updateExeIDToStackDeltas_ok hload).1.1
        rw [stackDeltaBucketSmallest] at hsmallest
        omega
      rw [makeKeys]
      by_cases hkeys : maxAlloc < 16 * numPages intervals
      · rw [if_pos hkeys]
        exact .inl ⟨_, t, rfl⟩
      · rw [if_neg hkeys, pure_bind]
        split
        · exact .inl ⟨_, t, rfl⟩
        · exact .inr (.inr ⟨t, _, hn, hid, rfl, rfl⟩)

/-! ## One call -/

variable {s : ManagerState ι} {e : Entry ι} {outcome : UnloadOutcome}

lemma ManagerState.UnusedIff.update {s' : ManagerState ι} (h : s.UnusedIff)
    {entry : Option (Entry ι)}
    (hlookup : ∀ g, s'.executables.lookup g = if g = f then entry else s.executables.lookup g)
    (hother : ∀ g, g ≠ f → (g ∈ s'.unusedExecutables ↔ g ∈ s.unusedExecutables))
    (hf : f ∈ s'.unusedExecutables ↔ ∃ e, entry = some e ∧ e.rc = 0) : s'.UnusedIff := by
  intro g
  rw [hlookup]
  by_cases hg : g = f
  · rw [if_pos hg, hg]
    exact hf
  · rw [if_neg hg, hother g hg]
    exact h g

lemma ManagerState.Consistent.setTable (h : s.Consistent)
    (t : UnwindTable) : (s.setTable t).Consistent :=
  ⟨h.unused, h.pages, h.small, h.unmapped⟩

lemma unmapped_insertEntry
    (h : ∀ g e, s.executables.lookup g = some e → e.mapRef.mapID = 0 → e.mapRef.numPages = 0)
    (he : e.mapRef.mapID = 0 → e.mapRef.numPages = 0) (g : FileID) (e' : Entry ι)
    (hg : (s.insertEntry f e).executables.lookup g = some e') (hid : e'.mapRef.mapID = 0) :
    e'.mapRef.numPages = 0 := by
  rw [lookup_insertEntry] at hg
  split at hg
  · cases hg
    exact he hid
  · exact h g e' hg hid

lemma loadedPages_setRc (he : s.executables.lookup f = some e)
    (rc : ℕ) : (s.insertEntry f { e with rc := rc }).loadedPages = s.loadedPages := by
  have h := loadedPages_insertEntry s f { e with rc := rc }
  rw [termAt_some he] at h
  dsimp only at h
  omega

lemma mem_unusedExecutables_iff (h : s.Consistent) (he : s.executables.lookup f = some e) :
    f ∈ s.unusedExecutables ↔ e.rc = 0 := by
  rw [h.unused f, he]
  simp

lemma setRc_consistent (h : s.Consistent) (he : s.executables.lookup f = some e) {n : ℕ}
    {s' : ManagerState ι} (hs' : s' = { s.insertEntry f { e with rc := n } with
      unusedExecutables := s'.unusedExecutables })
    (hother : ∀ g, g ≠ f → (g ∈ s'.unusedExecutables ↔ g ∈ s.unusedExecutables))
    (hf : f ∈ s'.unusedExecutables ↔ n = 0) : s'.Consistent := by
  rw [hs']
  exact ⟨h.unused.update (lookup_insertEntry s f · _) hother (hf.trans (by simp)),
    h.pages.trans (loadedPages_setRc he n).symm, h.small,
    unmapped_insertEntry h.unmapped (h.unmapped f e he)⟩

lemma incRef_consistent (h : s.Consistent) (he : s.executables.lookup f = some e)
    (hrc : e.rc + 1 < 2 ^ 64) : ((incRef f e).exec s).2.Consistent := by
  have hmod : (e.rc + 1) % 2 ^ 64 = e.rc + 1 := Nat.mod_eq_of_lt hrc
  have hstate : ((incRef f e).exec s).2 = if e.rc + 1 = 1
      then (s.insertEntry f { e with rc := e.rc + 1 }).clearUnused f
      else s.insertEntry f { e with rc := e.rc + 1 } := by
    rw [← hmod]
    rfl
  rw [hstate]
  split
  · -- The file is in use again, and no longer among the unused ones.
    have hout : f ∉ s.unusedExecutables.erase f := by simp
    exact setRc_consistent h he (n := e.rc + 1) rfl (fun g hg => mem_erase.trans (and_iff_right hg))
      (iff_of_false hout (Nat.succ_ne_zero _))
  · next hne =>
    exact setRc_consistent h he (n := e.rc + 1) rfl (fun g _ => Iff.rfl)
      ((mem_unusedExecutables_iff h he).trans (by omega))

lemma insertEntry_consistent (h : s.Consistent) (hf : s.executables.lookup f = none)
    (hrc : e.rc = 1) {n : ℕ} (hmap : e.mapRef.mapID = 0 → e.mapRef.numPages = 0)
    (hn : n = s.numStackDeltaMapPages + e.mapRef.numPages) (hlt : n < 2 ^ 64) :
    ((s.setPages n).insertEntry f e).Consistent := by
  refine ⟨h.unused.update (lookup_insertEntry (s.setPages n) f · e) (fun g _ => Iff.rfl) ?_, ?_,
    hlt, unmapped_insertEntry (s := s.setPages n) h.unmapped hmap⟩
  · have hout : f ∉ s.unusedExecutables := by
      rw [h.unused f]
      rintro ⟨e', he', -⟩
      rw [hf] at he'
      cases he'
    exact iff_of_false hout (by simp [hrc])
  · have hpages := loadedPages_insertEntry (s.setPages n) f e
    rw [termAt_none (t := (s.setPages n).executables) hf] at hpages
    have hsum : (s.setPages n).loadedPages = s.numStackDeltaMapPages := h.pages.symm
    change n = _
    omega

/-- After a failed load only recipes are added; otherwise the file is entered with its pages. -/
lemma incRefOrLoad_unknown (hf : s.executables.lookup f = none) (intervals : IntervalData)
    (call : AddCall ι) :
    (∃ e t, (incRefOrLoad f intervals call).exec s = (.error e, s.setTable t)) ∨
    (∃ t ref, (ref.mapID = 0 → ref.numPages = 0) ∧
      (incRefOrLoad f intervals call).exec s = (.ok call.info,
        ((s.setTable t).setPages (if intervals.numDeltas = 0 then s.numStackDeltaMapPages
          else (s.numStackDeltaMapPages + numPages intervals) % 2 ^ 64)).insertEntry f
            ⟨call.info, ref, 1⟩) ∧
      ref.numPages = if intervals.numDeltas = 0 then 0 else numPages intervals % 2 ^ 32) := by
  unfold incRefOrLoad
  rw [exec_get_bind, hf]
  rcases loadDeltas_cases call.load f intervals s with ⟨e, t, h⟩ | ⟨hn, h⟩ |
    ⟨t, ref, hn, hid, hp, h⟩
  · left
    obtain ⟨e', h'⟩ := exec_wrapError_fault h "failed to load deltas"
    exact ⟨e', t, exec_bind_of_error h' _⟩
  · right
    refine ⟨s.unwindTable, {}, fun _ => rfl, ?_, by rw [if_pos hn]⟩
    rw [exec_bind_of_ok (exec_wrapError_ok h _), if_pos hn]
    rfl
  · right
    refine ⟨t, ref, fun h0 => absurd h0 hid, ?_, by rw [if_neg hn, hp]⟩
    rw [exec_bind_of_ok (exec_wrapError_ok h _), if_neg hn]
    rfl

lemma addOrIncRef_consistent (h : s.Consistent) (f : FileID) (call : AddCall ι)
    (hadm : Admissible s (.addOrIncRef f call)) : ((addOrIncRef f call).exec s).2.Consistent := by
  obtain ⟨hrc, hpages⟩ := hadm
  unfold addOrIncRef
  split
  · exact h
  rw [exec_get_bind]
  cases hf : s.executables.lookup f with
  | some e => exact incRef_consistent h hf (hrc e hf)
  | none =>
    cases hint : call.intervals with
    | error err => exact h
    | ok intervals =>
      rcases incRefOrLoad_unknown hf intervals call with ⟨e, t, hexec⟩ | ⟨t, ref, hid, hexec, hnum⟩
      · rw [hexec]
        exact h.setTable t
      · rw [hexec]
        by_cases hn : intervals.numDeltas = 0
        · rw [if_pos hn] at hnum
          rw [if_pos hn]
          exact insertEntry_consistent (h.setTable t) hf rfl hid (by rw [hnum]; rfl) h.small
        · obtain ⟨h32, h64⟩ := hpages hf intervals hint hn
          rw [if_neg hn, Nat.mod_eq_of_lt h32] at hnum
          rw [if_neg hn, Nat.mod_eq_of_lt h64]
          exact insertEntry_consistent (h.setTable t) hf rfl hid (by rw [hnum]; rfl) h64

lemma decRef_consistent (h : s.Consistent) (f : FileID) (now : Time) :
    ((decRef f now).exec s).2.Consistent := by
  unfold decRef
  rw [exec_get_bind]
  cases he : s.executables.lookup f with
  | none => exact h
  | some e =>
    dsimp only
    split
    · exact h
    next hrc =>
    split
    · next hzero =>
      refine setRc_consistent h he (n := e.rc - 1) rfl ?_ ?_
      · intro g hg
        exact (mem_insert _).trans (or_iff_right hg)
      · exact iff_of_true ((mem_insert _).mpr (.inl rfl)) hzero
    · next hne =>
      refine setRc_consistent h he (n := e.rc - 1) rfl (fun g _ => Iff.rfl) ?_
      exact iff_of_false (fun hmem => hrc ((mem_unusedExecutables_iff h he).1 hmem)) hne

/-! ## Cleaning up -/

lemma removeEntry_consistent (h : s.Consistent) (he : s.executables.lookup f = some e) {n : ℕ}
    (hn : n + e.mapRef.numPages = s.numStackDeltaMapPages) :
    ((s.setPages n).removeEntry f).Consistent := by
  have hsmall := h.small
  refine ⟨h.unused.update (lookup_removeEntry (s.setPages n) f) ?_ ?_, ?_, ?_, ?_⟩
  · intro g hg
    exact mem_erase.trans (and_iff_right hg)
  · have hout : f ∉ s.unusedExecutables.erase f := by simp
    exact iff_of_false hout (by simp)
  · have hpages := loadedPages_removeEntry (s.setPages n) f
    rw [termAt_some (t := (s.setPages n).executables) he] at hpages
    have hsum : (s.setPages n).loadedPages = s.numStackDeltaMapPages := h.pages.symm
    change n = _
    omega
  · change n < 2 ^ 64
    omega
  · intro g e' hg hid
    rw [lookup_removeEntry] at hg
    split at hg
    · cases hg
    · exact h.unmapped g e' hg hid

lemma cleanupEntry_cases (h : s.Consistent) {cutoff : Time}
    (hadm : Admissible s (.cleanupUnused outcome cutoff [f])) :
    (∃ r, (cleanupEntry outcome cutoff f).exec s = (r, s)) ∨
    ∃ e n, s.executables.lookup f = some e ∧ n + e.mapRef.numPages = s.numStackDeltaMapPages ∧
      (cleanupEntry outcome cutoff f).exec s = (.ok (), (s.setPages n).removeEntry f) := by
  unfold cleanupEntry
  rw [exec_get_bind]
  cases hsince : s.unusedExecutables.lookup f with
  | none => exact .inl ⟨_, rfl⟩
  | some unusedSince =>
    dsimp only
    split
    · exact .inl ⟨_, rfl⟩
    next hold =>
    cases he : s.executables.lookup f with
    | none => exact .inl ⟨_, rfl⟩
    | some e =>
      dsimp only
      split
      · exact .inl ⟨_, rfl⟩
      · refine .inr ⟨e, ?_⟩
        by_cases hid : e.mapRef.mapID = 0
        · have hzero := h.unmapped f e he hid
          refine ⟨s.numStackDeltaMapPages, rfl, by omega, ?_⟩
          have hunload : (unloadDeltas outcome f e.mapRef).exec s = (.ok (), s) := by
            rw [unloadDeltas, if_pos hid]
            rfl
          rw [exec_bind_of_ok (exec_wrapError_ok hunload _)]
          rfl
        · have hdel := hadm f (by simp) unusedSince hsince (Nat.le_of_not_lt hold) e he hid
          have hle : e.mapRef.numPages ≤ s.numStackDeltaMapPages := by
            have := termAt_le_total (fun _ e => e.mapRef.numPages) s.executables f
            rw [termAt_some he] at this
            exact h.pages ▸ this
          have hsub := subWord_of_le hle h.small
          refine ⟨s.numStackDeltaMapPages - e.mapRef.numPages, rfl, by omega, ?_⟩
          have hunload : (unloadDeltas outcome f e.mapRef).exec s =
              (.ok (), s.setPages (s.numStackDeltaMapPages - e.mapRef.numPages)) := by
            rw [unloadDeltas, if_neg hid, exec_get_bind, hdel, hsub]
            rfl
          rw [exec_bind_of_ok (exec_wrapError_ok hunload _)]
          rfl

lemma cleanupUnused_consistent {cutoff : Time} {order : List FileID} (h : s.Consistent)
    (hadm : Admissible s (.cleanupUnused outcome cutoff order)) :
    ((cleanupUnused outcome cutoff order).exec s).2.Consistent := by
  induction order generalizing s with
  | nil => exact h
  | cons f order ih =>
    have hrest : Admissible s (.cleanupUnused outcome cutoff order) :=
      fun g hg => hadm g (List.mem_cons_of_mem f hg)
    have hhead : Admissible s (.cleanupUnused outcome cutoff [f]) := by
      intro g hg
      exact hadm g (by rw [List.mem_singleton.mp hg]; exact List.mem_cons_self)
    rw [cleanupUnused]
    rcases cleanupEntry_cases h hhead with ⟨r, hexec⟩ | ⟨e, n, he, hn, hexec⟩
    · cases r with
      | error err =>
        rw [exec_bind_of_error hexec]
        exact h
      | ok u =>
        rw [exec_bind_of_ok hexec]
        exact ih h hrest
    · rw [exec_bind_of_ok hexec]
      apply ih (removeEntry_consistent h he hn)
      -- The entries that are left are those of before.
      intro g hg unusedSince hsince hold e' he' hid
      rw [lookup_removeEntry] at he'
      split at he'
      · cases he'
      · next hne =>
        have hsince' : s.unusedExecutables.lookup g = some unusedSince := by
          rw [← hsince]
          exact (lookup_erase_ne hne).symm
        exact hrest g hg unusedSince hsince' hold e' he' hid

/-! ## Whole runs -/

lemma new_consistent : (new : ManagerState ι).Consistent := by
  refine ⟨?_, rfl, Nat.two_pow_pos 64, ?_⟩
  · intro f
    exact iff_of_false (notMem_empty f) (by simp [new])
  · intro f e he
    simp [new] at he

lemma Reachable.consistent (h : Reachable s) : s.Consistent := by
  induction h with
  | new => exact new_consistent
  | step _ event hadm ih =>
    cases event with
    | addOrIncRef fileID call => exact addOrIncRef_consistent ih fileID call hadm
    | decRef fileID now => exact decRef_consistent ih fileID now
    | cleanupUnused outcome cutoff order => exact cleanupUnused_consistent ih hadm

/-- In every admissible run, the unused executables are those with count zero, and the page counter
counts the pages of all entries. -/
theorem reachable_bookkeeping {s : ManagerState ι} (h : Reachable s) :
    (∀ f, f ∈ s.unusedExecutables ↔ ∃ e, s.executables.lookup f = some e ∧ e.rc = 0) ∧
      s.numStackDeltaMapPages = s.executables.total fun _ e => e.mapRef.numPages :=
  ⟨h.consistent.unused, h.consistent.pages⟩

/-- One function, in one page. -/
def sampleIntervals : IntervalData where
  numDeltas := 1
  blocks :=
    [{ start := 0x1000, «end» := 0x1010, deltas := [⟨0, { baseReg := 3, param := 8 }⟩] }]

def sampleAdd : AddCall Unit where
  deferred := false
  extracted := .ok sampleIntervals
  synthesized := .ok sampleIntervals
  load := ⟨fun _ _ => none, none, none, none⟩
  info := ()

def deletesOk : UnloadOutcome := ⟨fun _ _ => none, fun _ => none⟩

def deletesFail : UnloadOutcome := ⟨fun _ _ => some "delete: bad file descriptor", fun _ => none⟩

lemma deleteErrors_deletesOk (f : FileID) (ref : MapRef) : deleteErrors deletesOk f ref = [] := by
  simp [deleteErrors, deletesOk]

/-- A file that is loaded, used twice, given up and cleaned up. -/
theorem reachable_bookkeeping_cleanup :
    (run new [.addOrIncRef 7 sampleAdd, .addOrIncRef 7 sampleAdd, .decRef 7 1,
        .decRef 7 2]).numStackDeltaMapPages = 1 ∧
      (run new [.addOrIncRef 7 sampleAdd, .addOrIncRef 7 sampleAdd, .decRef 7 1,
        .decRef 7 2, .cleanupUnused deletesOk 5 [7]]).numStackDeltaMapPages =
      (run new [.addOrIncRef 7 sampleAdd, .addOrIncRef 7 sampleAdd, .decRef 7 1,
        .decRef 7 2, .cleanupUnused deletesOk 5 [7]]).executables.total
          fun _ e => e.mapRef.numPages := by
  refine ⟨by decide +kernel, (reachable_bookkeeping ?_).2⟩
  have hsecond : (step new (.addOrIncRef 7 sampleAdd)).executables.lookup 7 =
      some ⟨(), ⟨0, 1, 8⟩, 1⟩ := by
    decide +kernel
  have hadd : Admissible new (.addOrIncRef 7 sampleAdd) := by
    refine ⟨?_, ?_⟩
    · intro e he
      cases he
    · intro _ intervals hint _
      cases hint
      decide +kernel
  have hagain : Admissible (step new (.addOrIncRef 7 sampleAdd))
      (.addOrIncRef 7 sampleAdd) := by
    refine ⟨fun e he => ?_, fun hnone => ?_⟩
    · rw [hsecond] at he
      cases he
      decide
    · cases hnone
  refine .step (.step (.step (.step (.step .new _ hadd) _ hagain) (.decRef 7 1) trivial)
    (.decRef 7 2) trivial) (.cleanupUnused deletesOk 5 [7]) ?_
  intro f _ unusedSince _ _ e _ _
  exact deleteErrors_deletesOk f e.mapRef

/-- A failed delete takes the pages off the counter, and the next attempt does so again. -/
theorem run_miscounts_failedDelete :
    (run new [.addOrIncRef 7 sampleAdd, .decRef 7 1,
        .cleanupUnused deletesFail 5 [7]]).numStackDeltaMapPages = 0 ∧
    ((run new [.addOrIncRef 7 sampleAdd, .decRef 7 1,
        .cleanupUnused deletesFail 5 [7]]).executables.total fun _ e => e.mapRef.numPages) = 1 ∧
    (run new [.addOrIncRef 7 sampleAdd, .decRef 7 1, .cleanupUnused deletesFail 5 [7],
        .cleanupUnused deletesFail 5 [7]]).numStackDeltaMapPages = 2 ^ 64 - 1 := by
  decide +kernel

end EbpfProfiler.ExecInfo
