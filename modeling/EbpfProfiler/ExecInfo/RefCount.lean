import EbpfProfiler.ExecInfo.ManagerTheorems

/-!
# Reference counts of executables

How each call changes the count of a file; a file that is not known counts as zero.
-/

namespace EbpfProfiler.ExecInfo

open Lib StackDeltas Comp ManagerState

variable {ι : Type}

def ManagerState.refCount (s : ManagerState ι) (f : FileID) : ℕ :=
  (s.executables.lookup f).elim 0 Entry.rc

lemma refCount_insertEntry (s : ManagerState ι) (f g : FileID) (e : Entry ι) :
    (s.insertEntry f e).refCount g = if g = f then e.rc else s.refCount g := by
  rw [refCount, lookup_insertEntry]
  split <;> rfl

variable {s : ManagerState ι} {f : FileID}

lemma refCount_some {e : Entry ι} (he : s.executables.lookup f = some e) : s.refCount f = e.rc := by
  rw [refCount, he]
  rfl

lemma refCount_none (hf : s.executables.lookup f = none) : s.refCount f = 0 := by
  rw [refCount, hf]
  rfl

lemma exec_incRef (s : ManagerState ι) (f : FileID) (e : Entry ι) :
    ((incRef f e).exec s).1 = .ok e.info ∧ ((incRef f e).exec s).2.executables =
      (s.insertEntry f { e with rc := (e.rc + 1) % 2 ^ 64 }).executables := by
  refine ⟨rfl, ?_⟩
  unfold incRef
  rw [exec_get_bind, exec_set_bind]
  split <;> rfl

lemma addOrIncRef_refCount (s : ManagerState ι) (call : AddCall ι)
    (hlt : s.refCount f + 1 < 2 ^ 64) : (∃ info, ((addOrIncRef f call).exec s).1 = .ok info ∧ ∀ g,
      ((addOrIncRef f call).exec s).2.refCount g = s.refCount g + if g = f then 1 else 0) ∨
    (∃ e, ((addOrIncRef f call).exec s).1 = .error e ∧ ∀ g,
      ((addOrIncRef f call).exec s).2.refCount g = s.refCount g) := by
  unfold addOrIncRef
  split
  · exact .inr ⟨_, rfl, fun g => rfl⟩
  rw [exec_get_bind]
  cases hf : s.executables.lookup f with
  | some e =>
    obtain ⟨hok, hexec⟩ := exec_incRef s f e
    refine .inl ⟨_, hok, fun g => ?_⟩
    have hrc := refCount_some hf
    have hcount := refCount_insertEntry s f g { e with rc := (e.rc + 1) % 2 ^ 64 }
    rw [refCount] at hcount
    rw [refCount, hexec, hcount]
    split
    · next hg =>
      rw [hg, hrc]
      exact Nat.mod_eq_of_lt (hrc ▸ hlt)
    · rfl
  | none =>
    cases call.intervals with
    | error err => exact .inr ⟨_, rfl, fun g => rfl⟩
    | ok intervals =>
      rcases incRefOrLoad_unknown hf intervals call with ⟨e, t, hexec⟩ | ⟨t, ref, -, hexec, -⟩
      · rw [hexec]
        exact .inr ⟨e, rfl, fun g => rfl⟩
      · rw [hexec]
        refine .inl ⟨_, rfl, fun g => ?_⟩
        rw [refCount_insertEntry]
        split
        · next hg => rw [hg, refCount_none hf]
        · rfl

lemma decRef_refCount (s : ManagerState ι) (f g : FileID) (now : Time) :
    ((decRef f now).exec s).2.refCount g = s.refCount g - if g = f then 1 else 0 := by
  unfold decRef
  rw [exec_get_bind]
  have same (h : s.refCount f = 0) : s.refCount g = s.refCount g - if g = f then 1 else 0 := by
    split
    · next hg => rw [hg, h]
    · rfl
  cases he : s.executables.lookup f with
  | none => exact same (refCount_none he)
  | some e =>
    have hrc := refCount_some he
    dsimp only
    split
    · next hzero => exact same (hrc.trans hzero)
    · have hcount := refCount_insertEntry s f g { e with rc := e.rc - 1 }
      have hexec : ∀ u : Prop, ∀ [Decidable u],
          (if u then (s.insertEntry f { e with rc := e.rc - 1 }).setUnused f now
            else s.insertEntry f { e with rc := e.rc - 1 }).refCount g =
          (s.insertEntry f { e with rc := e.rc - 1 }).refCount g := by
        intro u _
        split <;> rfl
      rw [exec_set, hexec, hcount]
      split
      · next hg => rw [hg, hrc]
      · rfl

section
variable (outcome : UnloadOutcome)

lemma unloadDeltas_executables (f : FileID) (ref : MapRef)
    (s : ManagerState ι) : ((unloadDeltas outcome f ref).exec s).2.executables = s.executables := by
  unfold unloadDeltas
  split
  · rfl
  split <;> rfl

lemma cleanupEntry_refCount (cutoff : Time) (f g : FileID) (s : ManagerState ι) :
    ((cleanupEntry outcome cutoff f).exec s).2.refCount g = s.refCount g := by
  unfold cleanupEntry
  rw [exec_get_bind]
  cases s.unusedExecutables.lookup f with
  | none => rfl
  | some unusedSince =>
    dsimp only
    split
    · rfl
    cases he : s.executables.lookup f with
    | none => rfl
    | some e =>
      dsimp only
      split
      · rfl
      next hrc =>
      rw [exec_bind]
      have hsame := unloadDeltas_executables outcome f e.mapRef s
      rw [← exec_wrapError_snd s!"failed remove fileID 0x{hex f.toNat} from BPF maps"] at hsame
      rcases h : (wrapError s!"failed remove fileID 0x{hex f.toNat} from BPF maps"
        (unloadDeltas outcome f e.mapRef)).exec s with ⟨r, t⟩
      rw [h] at hsame
      cases r with
      | error err => rw [refCount, refCount, hsame]
      | ok u =>
        have hzero : s.refCount f = 0 := (refCount_some he).trans (not_not.mp hrc)
        change (t.removeEntry f).refCount g = s.refCount g
        rw [refCount, lookup_removeEntry, hsame]
        split
        · next hg => rw [hg, hzero]; rfl
        · rfl

lemma cleanupUnused_refCount (cutoff : Time) (order : List FileID) (g : FileID)
    (s : ManagerState ι) :
    ((cleanupUnused outcome cutoff order).exec s).2.refCount g = s.refCount g := by
  induction order generalizing s with
  | nil => rfl
  | cons f order ih =>
    have hstep := cleanupEntry_refCount outcome cutoff f g s
    rw [cleanupUnused, exec_bind]
    rcases h : (cleanupEntry outcome cutoff f).exec s with ⟨r, t⟩
    rw [h] at hstep
    cases r with
    | error err => exact hstep
    | ok u => exact (ih t).trans hstep

end

end EbpfProfiler.ExecInfo
