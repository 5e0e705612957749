import EbpfProfiler.ExecInfo.KernelMapTheorems
import EbpfProfiler.StackDeltas.DeltaMeaningTheorems
import EbpfProfiler.StackDeltas.PageLookupTheorems

/-!
# Loads that fail

A failed load is undone, unless filling the new inner map fails: its entry then stays.
-/

namespace EbpfProfiler.ExecInfo

open Lib StackDeltas Comp StackDeltaMaps

variable {outcome : FileID → ℕ → Option String}

variable {ι : Type}

/-! ## Entries that the manager accounts for -/

def System.mapRefOf (s : System ι) (f : FileID) : MapRef :=
  (s.manager.executables.lookup f).elim {} Entry.mapRef

/-- The manager accounts for all that is in the maps for a file. -/
structure Accounted (f : FileID) (s : System ι) : Prop where
  outer : ∀ outer, s.maps.finalEntry outer f ≠ none → outer = (s.mapRefOf f).mapID ∧ outer ≠ 0
  pages : ∀ page, s.maps.pages f page ≠ none →
    page ∈ (s.mapRefOf f).pageAddrs ∧ (s.mapRefOf f).mapID ≠ 0
  valid : (s.mapRefOf f).mapID ≠ 0 →
    stackDeltaBucketSmallest ≤ (s.mapRefOf f).mapID ∧ (s.mapRefOf f).mapID ≤ stackDeltaBucketLargest

section Accounting
variable {f : FileID} {s s' : System ι}

lemma mapRefOf_none (h : s.manager.executables.lookup f = none) : s.mapRefOf f = {} := by
  rw [System.mapRefOf, h]
  rfl

lemma mapRefOf_some {e : Entry ι} (h : s.manager.executables.lookup f = some e) :
    s.mapRefOf f = e.mapRef := by
  rw [System.mapRefOf, h]
  rfl

lemma Accounted.fewer (h : Accounted f s) (hmaps : FewerFor f s.maps s'.maps)
    (href : s'.mapRefOf f = s.mapRefOf f) : Accounted f s' := by
  refine ⟨fun outer ho => ?_, fun page hp => ?_, ?_⟩
  · rw [href]
    exact h.outer outer (hmaps.outer outer ho)
  · rw [href]
    exact h.pages page (hmaps.pages page hp)
  · rw [href]
    exact h.valid

lemma Accounted.same (h : Accounted f s) (hsame : SameFor f s s') : Accounted f s' := by
  apply h.fewer
  · exact ⟨fun outer ho => hsame.maps.outer outer ▸ ho, fun page hp => hsame.maps.pages page ▸ hp⟩
  · rw [System.mapRefOf, hsame.entry]
    rfl

lemma Accounted.keeps {α : Type} {x : Comp (System ι) α} (hx : ∀ s₀, x.Keeps (SameFor f s₀)) :
    x.Keeps (Accounted f) := by
  intro s h
  exact h.same (hx s s ⟨⟨fun _ => rfl, fun _ => rfl⟩, rfl⟩)

lemma Accounted.nothing (h : Accounted f s) (href : (s.mapRefOf f).mapID = 0) :
    (∀ outer, s.maps.finalEntry outer f = none) ∧ ∀ page, s.maps.pages f page = none := by
  constructor
  · intro outer
    by_contra ho
    exact (h.outer outer ho).2 ((h.outer outer ho).1.trans href)
  · intro page
    by_contra hp
    exact (h.pages page hp).2 href

lemma Accounted.unknown (h : Accounted f s) (hf : s.manager.executables.lookup f = none) :
    (∀ outer, s.maps.finalEntry outer f = none) ∧ ∀ page, s.maps.pages f page = none :=
  h.nothing (congrArg MapRef.mapID (mapRefOf_none hf))

lemma accounted_of_nothing (houter : ∀ outer, s.maps.finalEntry outer f = none)
    (hpages : ∀ page, s.maps.pages f page = none) (href : (s.mapRefOf f).mapID = 0) :
      Accounted f s :=
  ⟨fun outer h => absurd (houter outer) h, fun page h => absurd (hpages page) h, fun h =>
    absurd href h⟩

def LoadFillFails (f : FileID) (s : System ι) (call : MapsCall ι) : Prop :=
  call.deferred = false ∧ s.manager.executables.lookup f = none ∧
    ∃ intervals, call.intervals = .ok intervals ∧
      FillFails call.load s.manager.unwindTable intervals

/-- The loads of the file fill the inner map, and nothing that undoes or unloads it fails. -/
def Meets (f : FileID) (s : System ι) : MapsEvent ι → Prop
  | .add g call => g = f → KernelMaps.Reverts call.load.pages ∧ ¬LoadFillFails f s call
  | .decRef _ _ => True
  | .cleanup outcome _ _ => ∀ page, outcome f page = none
  | .serve worker failure => failure ≠ none →
      ∀ u ∈ (s.maps.queues worker).head?, u.fileID = f → u.inner ≠ none

lemma mapRefOf_insertEntry (m : ManagerState ι) (k : KernelMaps) (e : Entry ι) :
    (⟨m.insertEntry f e, k⟩ : System ι).mapRefOf f = e.mapRef :=
  mapRefOf_some ((lookup_insertEntry m f f e).trans (if_pos rfl))

lemma accounted_loaded (m : ManagerState ι) (info : ι) {k : KernelMaps} {ref : MapRef}
    {entries : List StackDeltaEntry} {pages : List (ℕ × StackDeltaPageInfo)}
    (hvalid : stackDeltaBucketSmallest ≤ ref.mapID ∧ ref.mapID ≤ stackDeltaBucketLargest)
    (haddrs : ref.pageAddrs = pages.map Prod.fst) (houter : ∀ outer, k.finalEntry outer f = none)
    (hpages : ∀ page, k.pages f page = none) :
    Accounted f ⟨m.insertEntry f ⟨info, ref, 1⟩,
      (k.inserted ref.mapID f entries).insertPages f pages⟩ := by
  have hne : ref.mapID ≠ 0 := by
    have : stackDeltaBucketSmallest = 8 := rfl
    omega
  refine ⟨fun outer h => ?_, fun page h => ?_, fun _ => ?_⟩
  · rw [mapRefOf_insertEntry]
    change (k.inserted ref.mapID f entries).finalEntry outer f ≠ none at h
    rw [KernelMaps.finalEntry_inserted] at h
    by_cases hentry : outer = ref.mapID ∧ f = f
    · exact ⟨hentry.1, hentry.1 ▸ hne⟩
    · rw [if_neg hentry] at h
      exact absurd (houter outer) h
  · rw [mapRefOf_insertEntry, haddrs]
    refine ⟨KernelMaps.mem_of_lookup_ne_none fun hnone => ?_, hne⟩
    rw [KernelMaps.pages_insertPages, if_pos rfl, hnone] at h
    exact h (hpages page)
  · rw [mapRefOf_insertEntry]
    exact hvalid

variable {call : MapsCall ι} {intervals : IntervalData}

lemma addIntoMaps_accounted (h : Accounted f s) (hrevert : KernelMaps.Reverts call.load.pages)
    (hfill : ¬LoadFillFails f s call) : Accounted f ((addIntoMaps f call).exec s).2 := by
  rw [addIntoMaps]
  split
  · exact h
  next hdeferred =>
  rw [exec_get_bind]
  cases hf : s.manager.executables.lookup f with
  | some e =>
    -- only the reference count changes
    have hentry := (exec_incRef s.manager f e).2
    show Accounted f ((onManager (incRef f e)).exec s).2
    refine h.fewer ⟨fun _ ho => ho, fun _ hp => hp⟩ ?_
    rw [mapRefOf_some hf]
    show (((incRef f e).exec s.manager).2.executables.lookup f).elim _ _ = _
    rw [hentry, lookup_insertEntry, if_pos rfl]
    rfl
  | none =>
    cases hintervals : call.intervals with
    | error err => exact h
    | ok intervals =>
      obtain ⟨houter, hpages⟩ := h.unknown hf
      rcases loadIntoMaps_cases call.load f intervals s with ⟨-, hexec⟩ |
        ⟨-, e, t, k, hexec, hfewer⟩ |
        ⟨hfails, -⟩ | ⟨loader, t, mapID, n, ref, hloads, hid, haddrs, hexec⟩
      · rw [exec_bind_of_ok (exec_wrapError_ok hexec _)]
        show Accounted f ⟨s.manager.insertEntry f ⟨call.info, {}, 1⟩, s.maps⟩
        refine accounted_of_nothing houter hpages ?_
        rw [mapRefOf_insertEntry]
      · obtain ⟨e', hwrapped⟩ := exec_wrapError_fault hexec "failed to load deltas"
        rw [exec_bind_of_error hwrapped]
        exact h.fewer (hfewer hrevert f) rfl
      · exact absurd ⟨by simpa using hdeferred, hf, intervals, hintervals, hfails⟩ hfill
      · rw [exec_bind_of_ok (exec_wrapError_ok hexec _)]
        subst hid
        exact accounted_loaded (s.manager.setTable t |>.setPages n) call.info
          (getMapID_ok hloads.reaches.mapID_eq).1 haddrs houter hpages

lemma exec_unloadFromMaps {ref : MapRef} (hne : ref.mapID ≠ 0)
    (hvalid : stackDeltaBucketSmallest ≤ ref.mapID ∧ ref.mapID ≤ stackDeltaBucketLargest)
    (hdeletes : ∀ page, outcome f page = none) (s : System ι) :
    (unloadFromMaps outcome f ref).exec s = (.ok (),
      ⟨s.manager.setPages (subWord 64 s.manager.numStackDeltaMapPages ref.numPages),
        (s.maps.deletePages f ref.pageAddrs).enqueueUpdate ⟨ref.mapID, f, none⟩⟩) := by
  have hkeys : deletedPages outcome f ref = ref.pageAddrs := by
    rw [deletedPages, List.filter_eq_self]
    intro page _
    rw [hdeletes]
    rfl
  have herrs : ref.pageAddrs.filterMap (outcome f) = [] := by
    rw [List.filterMap_eq_nil_iff]
    intro page _
    exact hdeletes page
  have hdelete := exec_attempt_ok_iff.mpr (exec_onMaps
    (s := ⟨s.manager.setPages (subWord 64 s.manager.numStackDeltaMapPages ref.numPages),
      s.maps.deletePages f ref.pageAddrs⟩) (exec_deleteExeIDToStackDeltas hvalid f _))
  rw [unloadFromMaps, if_neg hne, hkeys, herrs]
  exact (exec_bind_of_ok hdelete _).trans rfl

lemma cleanupFromMaps_accounted (h : Accounted f s) (hdeletes : ∀ page, outcome f page = none)
    (cutoff : Time) : Accounted f ((cleanupFromMaps outcome cutoff f).exec s).2 := by
  rw [cleanupFromMaps, exec_get_bind]
  cases s.manager.unusedExecutables.lookup f with
  | none => exact h
  | some unusedSince =>
    dsimp only
    split
    · exact h
    cases hf : s.manager.executables.lookup f with
    | none => exact h
    | some e =>
      dsimp only
      split
      · exact h
      have href := mapRefOf_some hf
      have hgone (m : ManagerState ι) (k : KernelMaps) :
          ((⟨m.removeEntry f, k⟩ : System ι).mapRefOf f).mapID = 0 :=
        congrArg MapRef.mapID (mapRefOf_none ((lookup_removeEntry m f f).trans (if_pos rfl)))
      by_cases hid : e.mapRef.mapID = 0
      · -- nothing was loaded
        have hunload : (unloadFromMaps outcome f e.mapRef).exec s = (.ok (), s) := by
          rw [unloadFromMaps, if_pos hid]
          rfl
        rw [exec_bind_of_ok (exec_wrapError_ok hunload _)]
        obtain ⟨houter, hpages⟩ := h.nothing (by rw [href, hid])
        exact accounted_of_nothing houter hpages (hgone s.manager s.maps)
      · rw [exec_bind_of_ok (exec_wrapError_ok
          (exec_unloadFromMaps hid (href ▸ h.valid (href ▸ hid)) hdeletes s) _)]
        refine accounted_of_nothing (fun outer => ?_) (fun page => ?_) ?_
        · show ((s.maps.deletePages f e.mapRef.pageAddrs).enqueueUpdate
            ⟨e.mapRef.mapID, f, none⟩).finalEntry outer f = none
          rw [KernelMaps.finalEntry_enqueueUpdate]
          by_cases hentry : outer = e.mapRef.mapID ∧ f = f
          · rw [if_pos hentry]
            rfl
          · rw [if_neg hentry]
            by_contra ho
            have hout := h.outer outer ho
            rw [href] at hout
            exact hentry ⟨hout.1, rfl⟩
        · show (s.maps.deletePages f e.mapRef.pageAddrs).pages f page = none
          rw [KernelMaps.pages_deletePages]
          by_cases hkey : f = f ∧ page ∈ e.mapRef.pageAddrs
          · rw [if_pos hkey]
          · rw [if_neg hkey]
            by_contra hp
            have hpage := h.pages page hp
            rw [href] at hpage
            exact hkey ⟨rfl, hpage.1⟩
        · exact hgone _ _

lemma cleanupAllFromMaps_accounted (hdeletes : ∀ page, outcome f page = none) (cutoff : Time)
    (order : List FileID) :
    (cleanupAllFromMaps outcome cutoff order : Comp (System ι) Unit).Keeps (Accounted f) := by
  induction order with
  | nil => exact keeps_pure _
  | cons g order ih =>
    apply Comp.Keeps.bind
    · by_cases hg : g = f
      · subst hg
        exact fun s h => cleanupFromMaps_accounted h hdeletes cutoff
      · exact Accounted.keeps fun s₀ => cleanupFromMaps_keeps hg outcome cutoff
    · intro _
      exact ih

lemma decRef_mapRef (m : ManagerState ι) (g : FileID) (now : Time) (k : KernelMaps) :
    (⟨((decRef g now).exec m).2, k⟩ : System ι).mapRefOf f = (⟨m, k⟩ : System ι).mapRefOf f := by
  rw [decRef, exec_get_bind]
  cases he : m.executables.lookup g with
  | none => rfl
  | some e =>
    dsimp only
    split
    · rfl
    · have hinsert : (⟨m.insertEntry g { e with rc := e.rc - 1 }, k⟩ : System ι).mapRefOf f =
          (⟨m, k⟩ : System ι).mapRefOf f := by
        rw [System.mapRefOf, System.mapRefOf]
        rw [lookup_insertEntry]
        split
        · next hf =>
          rw [hf, he]
          rfl
        · rfl
      rw [← hinsert]
      split <;> rfl

lemma step_accounted (h : Accounted f s) {event : MapsEvent ι} (hmeets : Meets f s event) :
    Accounted f (s.step event) := by
  cases event with
  | add g call =>
    by_cases hg : g = f
    · subst hg
      obtain ⟨hrevert, hfill⟩ := hmeets rfl
      exact addIntoMaps_accounted h hrevert hfill
    · exact Accounted.keeps (fun s₀ => addIntoMaps_keeps hg call) s h
  | decRef g now =>
    apply h.fewer
    · exact ⟨fun _ ho => ho, fun _ hp => hp⟩
    · exact decRef_mapRef s.manager g now s.maps
  | cleanup outcome cutoff order => exact cleanupAllFromMaps_accounted hmeets cutoff order s h
  | serve worker failure =>
    apply h.fewer
    · refine ⟨fun outer ho => KernelMaps.finalEntry_serve_ne_none hmeets ho, fun page hp => ?_⟩
      rwa [← KernelMaps.pages_serve]
    · rfl

/-- The states reached by events that meet the conditions for a file. -/
inductive Later (f : FileID) (s : System ι) : System ι → Prop
  | refl : Later f s s
  | step {t : System ι} (h : Later f s t) (event : MapsEvent ι) (hmeets : Meets f t event) :
      Later f s (t.step event)

lemma Later.accounted (hlater : Later f s s') (h : Accounted f s) : Accounted f s' := by
  induction hlater with
  | refl => exact h
  | step _ event hmeets ih => exact step_accounted ih hmeets

lemma accounted_new (f : FileID) (pageCapacity : ℕ) (hlt : pageCapacity < 2 ^ 32) :
    Accounted f (System.new pageCapacity hlt : System ι) :=
  accounted_of_nothing (fun _ => rfl) (fun _ => rfl) rfl

/-! ## What a later load makes visible -/

lemma getStackDelta_congr {m m' : StackDeltaMaps} {fileID : ℕ}
    (hpages : ∀ page, m.stackDeltaPageToInfo fileID page = m'.stackDeltaPageToInfo fileID page)
    (houter : ∀ map, m.exeIDToStackDeltas map fileID = m'.exeIDToStackDeltas map fileID) (a : ℕ) :
    getStackDelta m fileID a = getStackDelta m' fileID a := by
  have hselect : selectDelta m fileID a = selectDelta m' fileID a := by
    unfold selectDelta
    simp only [hpages, houter]
  rw [getStackDelta, getStackDelta, hselect]

lemma view_pages (k : KernelMaps) (f : FileID) (page : ℕ) :
    k.drained.view.stackDeltaPageToInfo f.toNat page = k.pages f page := by
  show k.pages (BitVec.ofNat 64 f.toNat) page = _
  rw [BitVec.ofNat_toNat, BitVec.setWidth_eq]

lemma view_outer (k : KernelMaps) (f : FileID) (map : ℕ) :
    k.drained.view.exeIDToStackDeltas map f.toNat =
      (k.finalEntry map f).bind fun n => k.innerMaps[n]? := by
  show (k.finalEntry map (BitVec.ofNat 64 f.toNat)).bind _ = _
  rw [BitVec.ofNat_toNat]
  rfl

/-- Maps with the deltas of one executable and nothing else. -/
def mapsOf (mapUpdate : BitVec 16 → UnwindInfo → Option String) (table : UnwindTable) (f : FileID)
    (intervals : IntervalData) : StackDeltaMaps :=
  if intervals.numDeltas = 0 then .empty
  else
    match ((convertDeltas mapUpdate intervals).exec table).1 with
    | .error _ => .empty
    | .ok loader =>
      match updateExeIDToStackDeltas none none f.toNat loader.ebpfDeltas with
      | .error _ => .empty
      | .ok (mapID, inner) => empty.load f.toNat mapID inner (loadedPages loader mapID intervals)

def SeesLoaded (f : FileID) (s : System ι) (call : MapsCall ι) (k : KernelMaps) : Prop :=
  ∀ intervals, call.intervals = .ok intervals → ∀ a,
    getStackDelta k.drained.view f.toNat a =
      getStackDelta (mapsOf call.load.updateUnwindInfo s.manager.unwindTable f intervals) f.toNat a

section
variable {loader : Loader} {mapID : ℕ} {outcome : MapOutcome} {t : UnwindTable}
  {table : UnwindTable} (h : Loads outcome table intervals loader t mapID)
include h

lemma mapsOf_loads (f : FileID) :
    mapsOf outcome.updateUnwindInfo table f intervals = empty.load f.toNat mapID
      ⟨2 ^ mapID, KernelMaps.entriesOf loader.ebpfDeltas⟩ (loadedPages loader mapID intervals) := by
  have hfits : ¬2 ^ mapID < loader.ebpfDeltas.length := by
    intro hlt
    have hfills := h.fills
    rw [KernelMaps.fillFailure, if_pos hlt] at hfills
    cases hfills
  rw [mapsOf, if_neg h.numDeltas, h.convert]
  dsimp only
  have hupdate : updateExeIDToStackDeltas none none f.toNat loader.ebpfDeltas =
      .ok (mapID, ⟨2 ^ mapID, KernelMaps.entriesOf loader.ebpfDeltas⟩) := by
    unfold updateExeIDToStackDeltas
    rw [h.reaches.mapID_eq]
    simp only [if_neg hfits]
    rfl
  rw [hupdate]

lemma seesLoaded_of_loads {k : KernelMaps} (houter : ∀ outer, k.finalEntry outer f = none)
    (hpages : ∀ page, k.pages f page = none) (a : ℕ) :
    getStackDelta ((k.inserted mapID f (KernelMaps.entriesOf loader.ebpfDeltas)).insertPages f
        (loadedPages loader mapID intervals)).drained.view f.toNat a =
      getStackDelta (mapsOf outcome.updateUnwindInfo table f intervals) f.toNat a := by
  rw [mapsOf_loads h]
  apply getStackDelta_congr
  · intro page
    rw [view_pages, KernelMaps.pages_insertPages, if_pos rfl, KernelMaps.pages_inserted, hpages]
    exact (if_pos rfl).symm
  · intro map
    rw [view_outer]
    show ((k.inserted mapID f (KernelMaps.entriesOf loader.ebpfDeltas)).finalEntry map f).bind
      (fun n => (k.inserted mapID f _).innerMaps[n]?) = _
    rw [KernelMaps.finalEntry_inserted, houter, KernelMaps.innerMaps_inserted]
    by_cases hmap : map = mapID
    · simp [hmap, load]
    · simp [hmap, load, empty]

end

lemma addIntoMaps_seesLoaded (h : Accounted f s) (hf : s.manager.executables.lookup f = none)
    {info : ι} (hexec : (addIntoMaps f call).exec s = (.ok info, s')) :
    SeesLoaded f s call s'.maps := by
  intro intervals hintervals a
  obtain ⟨houter, hpages⟩ := h.unknown hf
  rw [addIntoMaps] at hexec
  split at hexec
  · cases hexec
  rw [exec_get_bind, hf, hintervals] at hexec
  rcases loadIntoMaps_cases call.load f intervals s with ⟨hn, hload⟩ | ⟨-, e, t, k, hload, -⟩ |
    ⟨-, err, t, mapID, entries, hload⟩ | ⟨loader, t, mapID, n, ref, hloads, -, -, hload⟩
  · rw [exec_bind_of_ok (exec_wrapError_ok hload _)] at hexec
    cases hexec
    rw [mapsOf, if_pos hn]
    apply getStackDelta_congr
    · intro page
      exact (view_pages s.maps f page).trans (hpages page)
    · intro map
      exact (view_outer s.maps f map).trans (by rw [houter]; rfl)
  · obtain ⟨e', hwrapped⟩ := exec_wrapError_fault hload "failed to load deltas"
    rw [exec_bind_of_error hwrapped] at hexec
    cases hexec
  · rw [exec_bind_of_error (exec_wrapError_error hload _)] at hexec
    cases hexec
  · rw [exec_bind_of_ok (exec_wrapError_ok hload _)] at hexec
    cases hexec
    exact seesLoaded_of_loads hloads houter hpages a

/-! ## Failed loads -/

/-- The outer maps have no entry of the file that the manager does not account for. -/
def NoStray (f : FileID) (s : System ι) : Prop :=
  ∀ outer, s.maps.finalEntry outer f ≠ none →
    ∃ e, s.manager.executables.lookup f = some e ∧ e.mapRef.mapID = outer

lemma Accounted.noStray (h : Accounted f s) : NoStray f s := by
  intro outer ho
  cases hf : s.manager.executables.lookup f with
  | none => exact absurd ((h.unknown hf).1 outer) ho
  | some e =>
    refine ⟨e, rfl, ?_⟩
    rw [(h.outer outer ho).1, mapRefOf_some hf]

/-- A load that fails to fill its inner map leaves a stray entry. -/
lemma LoadFillFails.stray (h : LoadFillFails f s call) :
    ¬NoStray f ((addIntoMaps f call).exec s).2 := by
  obtain ⟨hdeferred, hf, intervals, hintervals, hfails⟩ := h
  rcases loadIntoMaps_cases call.load f intervals s with ⟨hn, -⟩ | ⟨hnot, -⟩ |
    ⟨-, err, t, mapID, entries, hload⟩ | ⟨loader, t, mapID, n, ref, hloads, -, -, -⟩
  · exact absurd hn hfails.1
  · exact absurd hfails hnot
  · rw [addIntoMaps, hdeferred, if_neg Bool.false_ne_true, exec_get_bind, hf, hintervals]
    rw [exec_bind_of_error (exec_wrapError_error hload _)]
    intro hstray
    have hentry : (s.maps.inserted mapID f entries).finalEntry mapID f ≠ none := by
      rw [KernelMaps.finalEntry_inserted]
      simp
    obtain ⟨e, he, -⟩ := hstray mapID hentry
    cases hf.symm.trans he
  · exact absurd hfails hloads.not_fillFails

/-- A failed load leaves nothing behind exactly if it did not fail to fill its inner map. -/
theorem failedLoad_leaves_nothing_iff {pageCapacity : ℕ} {hlt : pageCapacity < 2 ^ 32}
    (hs : Later f (System.new pageCapacity hlt) s) {call : MapsCall ι}
    (hrevert : KernelMaps.Reverts call.load.pages) {err : String}
    (hexec : (addIntoMaps f call).exec s = (.error (.error err), s')) :
    (NoStray f s' ∧ ∀ t, Later f s' t → t.manager.executables.lookup f = none →
      ∀ (later : MapsCall ι) (info : ι) (t' : System ι), (addIntoMaps f later).exec t =
        (.ok info, t') → SeesLoaded f t later t'.maps) ↔ ¬LoadFillFails f s call := by
  constructor
  · rintro ⟨hstray, -⟩ hfails
    have hnot := hfails.stray
    rw [hexec] at hnot
    exact hnot hstray
  · intro hfill
    have haccounted :=
      addIntoMaps_accounted (hs.accounted (accounted_new f pageCapacity hlt)) hrevert hfill
    rw [hexec] at haccounted
    refine ⟨haccounted.noStray, fun t ht hf later info t' hload => ?_⟩
    exact addIntoMaps_seesLoaded (ht.accounted haccounted) hf hload

end Accounting

def sampleCall (fill : Option BatchFailure) (pages : Option PageFailure) : MapsCall Unit where
  deferred := false
  extracted := .ok ⟨3, [pushFunction 0x1000]⟩
  synthesized := .ok ⟨0, []⟩
  load := ⟨fun _ _ => none, none, none, none, fill, pages⟩
  info := ()

def sampleStart : System Unit := System.new 16 (by decide)

/-- The pages do not fit the map. -/
def noSpace : PageFailure := ⟨⟨"no space left on device", 0⟩, false, none, fun _ => false⟩

theorem failedLoad_leaves_nothing_noSpace :
    ((addIntoMaps 7 (sampleCall none (some noSpace))).exec sampleStart).1 = .error (.error
      "failed to load deltas: failed UpdateStackDeltaPages for FileID 7: no space left on device") ∧
    ((NoStray 7 (sampleStart.step (.add 7 (sampleCall none (some noSpace)))) ∧
      ∀ t, Later 7 (sampleStart.step (.add 7 (sampleCall none (some noSpace)))) t →
        t.manager.executables.lookup 7 = none →
        ∀ (later : MapsCall Unit) (info : Unit) (t' : System Unit),
          (addIntoMaps 7 later).exec t = (.ok info, t') → SeesLoaded 7 t later t'.maps) ↔
      ¬LoadFillFails 7 sampleStart (sampleCall none (some noSpace))) := by
  have herr : ((addIntoMaps 7 (sampleCall none (some noSpace))).exec sampleStart).1 = .error (.error
    "failed to load deltas: failed UpdateStackDeltaPages for FileID 7: no space left on device") :=
    by decide +kernel
  have hrevert : KernelMaps.Reverts (some noSpace) := by
    rintro failure ⟨⟩
    exact ⟨rfl, fun _ => rfl⟩
  have hs : Later 7 (System.new 16 (by decide)) sampleStart := Later.refl
  exact ⟨herr, failedLoad_leaves_nothing_iff hs hrevert (Prod.ext herr rfl)⟩

/-- The batch update of the inner map fails at once. -/
def outOfMemory : BatchFailure := ⟨"cannot allocate memory", 0⟩

/-- A load fails while it fills its inner map, which worker 7 then inserts. The next load succeeds,
but lookups go on to read the old map. -/
theorem failedLoad_entry_stays :
    ((addIntoMaps 7 (sampleCall (some outOfMemory) none)).exec sampleStart).1 = .error (.error
      "failed to load deltas: failed UpdateExeIDToStackDeltas for FileID 7: failed to batch insert 3 elements for 0x7 into exeIDTostack_deltas: cannot allocate memory") ∧
    ∃ s, s = (sampleStart.step (.add 7 (sampleCall (some outOfMemory) none))).step (.serve 7 none) ∧
      s.maps.outerMaps 8 7 = some 0 ∧ s.manager.executables.lookup 7 = none ∧
      ((addIntoMaps 7 (sampleCall none none)).exec s).1 = .ok () ∧
      getStackDelta (s.step (.add 7 (sampleCall none none))).maps.drained.view 7 0x1020 =
        (.ok, some (0x1020, 0)) ∧
      getStackDelta
        (mapsOf (fun _ _ => none) s.manager.unwindTable 7 ⟨3, [pushFunction 0x1000]⟩) 7 0x1020 =
        (.nativeStackDeltaInvalid, some (0x10, stackDeltaInvalid)) :=
  ⟨by decide +kernel, _, rfl, by decide +kernel, by decide +kernel, by decide +kernel,
    by decide +kernel, by decide +kernel⟩

/-- **Only known executables are found.** In every run a lookup gets past the page windows only for
an executable of the manager, on a page that unloading takes out. -/
theorem getStackDelta_of_run {f : FileID} {s : System ι} {pageCapacity : ℕ}
    {hlt : pageCapacity < 2 ^ 32} (hs : Later f (System.new pageCapacity hlt) s) (a : ℕ) :
    getStackDelta s.maps.drained.view f.toNat a = (.nativeLookupTextSection, none) ∨
      ∃ e, s.manager.executables.lookup f = some e ∧ e.mapRef.mapID ≠ 0 ∧
        a - a % 2 ^ stackDeltaPageBits ∈ e.mapRef.pageAddrs := by
  cases hpage : s.maps.pages f (a - a % 2 ^ stackDeltaPageBits) with
  | none =>
    left
    simp only [getStackDelta, selectDelta, view_pages, hpage]
  | some info =>
    have hacc :=
      (hs.accounted (accounted_new f pageCapacity hlt)).pages _ (hpage ▸ Option.some_ne_none info)
    cases hf : s.manager.executables.lookup f with
    | none =>
      rw [mapRefOf_none hf] at hacc
      exact absurd rfl hacc.2
    | some e =>
      rw [mapRefOf_some hf] at hacc
      exact .inr ⟨e, rfl, hacc.2, hacc.1⟩

theorem getStackDelta_of_run_loaded :
    Later 7 sampleStart (sampleStart.step (.add 7 (sampleCall none none))) ∧
    ∃ e, (sampleStart.step (.add 7 (sampleCall none none))).manager.executables.lookup 7 = some e ∧
      e.mapRef.mapID ≠ 0 ∧ 0x1000 - 0x1000 % 2 ^ stackDeltaPageBits ∈ e.mapRef.pageAddrs := by
  have hthree : ((convertDeltas (fun _ _ => none) ⟨3, [pushFunction 0x1000]⟩).exec .empty).1.map
      (·.ebpfDeltas.length) = .ok 3 := by decide +kernel
  have hfill : ¬LoadFillFails 7 sampleStart (sampleCall none none) := by
    rintro ⟨-, -, _, ⟨⟩, -, loader, t, mapID, hconv, hreaches, hfails⟩
    rw [show (convertDeltas (fun _ _ => none) ⟨3, [pushFunction 0x1000]⟩).exec
      .empty = _ from hconv] at hthree
    have hlen : loader.ebpfDeltas.length = 3 := Except.ok.inj hthree
    rw [hlen, KernelMaps.fillFailure] at hfails
    have hpow : 2 ^ stackDeltaBucketSmallest ≤ 2 ^ mapID :=
      Nat.pow_le_pow_right (by decide) (getMapID_ok hreaches.mapID_eq).1.1
    rw [stackDeltaBucketSmallest] at hpow
    exact hfails (if_neg (by omega))
  have hs : Later 7 sampleStart (sampleStart.step (.add 7 (sampleCall none none))) :=
    .step .refl _ fun _ => ⟨by rintro failure ⟨⟩, hfill⟩
  exact ⟨hs, (getStackDelta_of_run hs 0x1000).resolve_left (by decide +kernel)⟩

end EbpfProfiler.ExecInfo
