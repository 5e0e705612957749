import EbpfProfiler.ExecInfo.KernelMaps
import EbpfProfiler.ExecInfo.RefCount
import EbpfProfiler.StackDeltas.LoadDeltasTheorems

/-!
# Loading into the maps

What each call does to the maps, once the queued updates are executed.
-/

namespace EbpfProfiler.ExecInfo

open Lib StackDeltas List Comp Function

variable {id : FileID} {k : KernelMaps} {u : MapUpdate} {α : Type} {i mapID : ℕ}

/-! ## Queued updates -/

lemma settle_append (outer : ℕ) (id : FileID) (us vs : List MapUpdate) (entry : Option ℕ) :
    settle outer id (us ++ vs) entry = settle outer id vs (settle outer id us entry) :=
  foldl_append

lemma settle_mono {outer : ℕ} {us : List MapUpdate} {a b : Option ℕ} (hab : a ≠ none → b ≠ none)
    (h : settle outer id us a ≠ none) : settle outer id us b ≠ none := by
  induction us generalizing a b with
  | nil => exact hab h
  | cons u us ih =>
    refine ih ?_ h
    dsimp only
    split
    · cases u.inner with
      | none => exact fun hne => absurd rfl hne
      | some n =>
        intro _
        cases b with
        | none => exact Option.some_ne_none n
        | some m => exact Option.some_ne_none m
    · exact hab

namespace KernelMaps

def finalEntry (k : KernelMaps) (outer : ℕ) (id : FileID) : Option ℕ := k.drained.outerMaps outer id

section
variable (k : KernelMaps)

lemma finalEntry_eq (outer : ℕ) (id : FileID) :
    k.finalEntry outer id = settle outer id (k.queues (workerIdx id)) (k.outerMaps outer id) := rfl

lemma queues_enqueueUpdate (u : MapUpdate) : (k.enqueueUpdate u).queues =
    Function.update k.queues (workerIdx u.fileID) (k.queues (workerIdx u.fileID) ++ [u]) := rfl

lemma outerMaps_enqueueUpdate (u : MapUpdate) : (k.enqueueUpdate u).outerMaps = k.outerMaps := rfl

lemma queues_dequeue (i : ℕ) :
    (k.dequeue i).queues = Function.update k.queues i (k.queues i).tail := rfl

lemma outerMaps_execute (u : MapUpdate) (outer : ℕ) (id : FileID) :
    (k.execute u).outerMaps outer id =
      if outer = u.outer ∧ id = u.fileID then applyUpdate u.inner (k.outerMaps outer id)
      else k.outerMaps outer id := rfl

lemma finalEntry_enqueueUpdate (u : MapUpdate) (outer : ℕ) (id : FileID) :
    (k.enqueueUpdate u).finalEntry outer id =
      if outer = u.outer ∧ id = u.fileID then applyUpdate u.inner (k.finalEntry outer id)
      else k.finalEntry outer id := by
  rw [finalEntry_eq, finalEntry_eq, queues_enqueueUpdate, outerMaps_enqueueUpdate]
  by_cases hid : workerIdx id = workerIdx u.fileID
  · rw [hid, update_self, settle_append]
    rfl
  · have hne : ¬(outer = u.outer ∧ id = u.fileID) := fun h => hid (h.2 ▸ rfl)
    rw [update_of_ne hid, if_neg hne]

end

section
variable (h : (k.queues i).head? = some u)
include h

lemma queues_cons : k.queues i = u :: (k.queues i).tail := by
  cases hq : k.queues i with
  | nil =>
    rw [hq] at h
    cases h
  | cons v rest =>
    rw [hq] at h
    cases h
    rfl

lemma workerIdx_of_head? : workerIdx u.fileID = i := by
  apply k.routed i u
  rw [queues_cons h]
  exact mem_cons_self

lemma finalEntry_dequeue (outer : ℕ) (id : FileID) :
    ∃ us, (k.dequeue i).finalEntry outer id = settle outer id us (k.outerMaps outer id) ∧
      ((k.dequeue i).execute u).finalEntry outer id =
        settle outer id us (((k.dequeue i).execute u).outerMaps outer id) ∧
      k.finalEntry outer id = settle outer id us
        (((k.dequeue i).execute u).outerMaps outer id) := by
  refine ⟨(k.dequeue i).queues (workerIdx id), rfl, rfl, ?_⟩
  rw [finalEntry_eq, queues_dequeue, outerMaps_execute]
  by_cases hid : workerIdx id = i
  · rw [hid, update_self]
    nth_rewrite 1 [queues_cons h]
    rfl
  · have hne : ¬(outer = u.outer ∧ id = u.fileID) := fun hu => hid (hu.2 ▸ workerIdx_of_head? h)
    rw [update_of_ne hid, if_neg hne]
    rfl

end

lemma finalEntry_serve (k : KernelMaps) (i : ℕ) (outer : ℕ) (id : FileID) :
    (k.serve i none).finalEntry outer id = k.finalEntry outer id := by
  rw [serve]
  cases hhead : (k.queues i).head? with
  | none => rfl
  | some u =>
    obtain ⟨us, -, hserved, hfinal⟩ := finalEntry_dequeue hhead outer id
    rw [hfinal]
    exact hserved

lemma pages_serve (k : KernelMaps) (i : ℕ) (failure : Option String) :
    (k.serve i failure).pages = k.pages := by
  rw [serve]
  split
  · rfl
  · split
    · rfl
    · rfl

lemma finalEntry_serve_ne_none {failure : Option String} {outer : ℕ}
    (hdelete : failure ≠ none → ∀ u ∈ (k.queues i).head?, u.fileID = id → u.inner ≠ none)
    (h : (k.serve i failure).finalEntry outer id ≠ none) : k.finalEntry outer id ≠ none := by
  cases failure with
  | none => rwa [finalEntry_serve] at h
  | some err =>
    rw [serve] at h
    cases hhead : (k.queues i).head? with
    | none =>
      rw [hhead] at h
      exact h
    | some u =>
      rw [hhead] at h
      obtain ⟨us, hskipped, -, hfinal⟩ := finalEntry_dequeue hhead outer id
      rw [hfinal]
      rw [hskipped] at h
      refine settle_mono ?_ h
      intro hentry
      rw [outerMaps_execute]
      split
      · next hu =>
        have hinner := hdelete (Option.some_ne_none err) u hhead hu.2.symm
        obtain ⟨n, hn⟩ := Option.ne_none_iff_exists'.mp hinner
        rw [hn]
        show (k.outerMaps outer id).or (some n) ≠ none
        obtain ⟨m, hm⟩ := Option.ne_none_iff_exists'.mp hentry
        rw [hm]
        exact Option.some_ne_none m
      · exact hentry

end KernelMaps

/-! ## Page counters and page addresses -/

section
variable {mapUpdate : BitVec 16 → UnwindInfo → Option String}
  {first : ℕ} {st st' : Loader} {t t' : UnwindTable}

lemma addDelta_length {addr : ℕ} {info : UnwindInfo}
    (h : (addDelta mapUpdate first st addr info).exec t = (.ok st', t')) :
    st'.numDeltasPerPage.length = st.numDeltasPerPage.length := by
  obtain ⟨index, t₁, -, h⟩ := exec_bind_ok.mp h
  split at h
  · cases h
    rfl
  · split at h
    · cases h
      exact length_modify ..
    · cases h

lemma loadBlock_length {start : ℕ} {u u' : UnwindInfo} {ds : List StackDelta}
    (h : (loadBlock mapUpdate first start u ds st).exec t = (.ok (u', st'), t')) :
    st'.numDeltasPerPage.length = st.numDeltasPerPage.length := by
  induction ds generalizing u st t with
  | nil =>
    cases h
    rfl
  | cons d ds ih =>
    rw [loadBlock] at h
    split at h
    · exact ih h
    · obtain ⟨st₁, t₁, hadd, h⟩ := exec_bind_ok.mp h
      rw [ih h, addDelta_length hadd]

lemma loadBlocks_length {u : UnwindInfo} {bs : List BasicBlock}
    (h : (loadBlocks mapUpdate first u bs st).exec t = (.ok st', t')) :
    st'.numDeltasPerPage.length = st.numDeltasPerPage.length := by
  induction bs generalizing u st t with
  | nil =>
    cases h
    rfl
  | cons b bs ih =>
    obtain ⟨r, t₁, hblock, h⟩ := exec_bind_ok.mp h
    obtain ⟨st₂, t₂, hclose, h⟩ := exec_bind_ok.mp h
    have hlast : st₂.numDeltasPerPage.length = r.2.numDeltasPerPage.length := by
      rw [closeBlock] at hclose
      split at hclose
      · exact addDelta_length hclose
      · cases hclose
        rfl
    rw [ih h, hlast, loadBlock_length hblock]

lemma convertDeltas_length {iv : IntervalData}
    (h : (convertDeltas mapUpdate iv).exec t = (.ok st', t')) :
    st'.numDeltasPerPage.length = numPages iv := by
  unfold convertDeltas at h
  split at h
  · next hfirst hlast =>
    obtain ⟨counters, t₁, hmake, h⟩ := exec_bind_ok.mp h
    have hcounters := (makeCounters_ok hmake).2.1
    rw [loadBlocks_length h, hcounters, length_replicate, numPages, firstPage, hfirst, hlast]
    rfl
  · cases h

end

lemma keys_stackDeltaPages (mapID addr pageNumber firstDelta : ℕ) (counters : List (BitVec 16)) :
    (stackDeltaPages mapID addr pageNumber firstDelta counters).map Prod.fst =
      (List.range counters.length).map fun i =>
        (addr + (pageNumber + i) * 2 ^ stackDeltaPageBits) % 2 ^ 64 := by
  induction counters generalizing pageNumber firstDelta with
  | nil => rfl
  | cons c counters ih =>
    rw [stackDeltaPages, map_cons, ih, length_cons, range_succ_eq_map, map_cons, map_map]
    refine cons_eq_cons.mpr ⟨by rw [add_zero], ?_⟩
    apply map_congr_left
    intro i _
    rw [comp_apply, add_assoc pageNumber 1 i, add_comm 1 i]

lemma pageAddrs_eq (ref : MapRef) {counters : List (BitVec 16)}
    (hnum : ref.numPages = counters.length) :
    (updateStackDeltaPages counters ref.mapID ref.startPage).map Prod.fst = ref.pageAddrs := by
  rw [updateStackDeltaPages, keys_stackDeltaPages, MapRef.pageAddrs, hnum]
  simp

/-! ## What a load does to the maps -/

/-- The batch update of the new inner map is reached. -/
structure ReachesFill (outcome : MapOutcome) (numDeltas mapID : ℕ) : Prop where
  mapID_eq : getMapID (numDeltas % 2 ^ 32) = .ok mapID
  maximizeMemlock : outcome.maximizeMemlock = none
  newMap : outcome.newMap = none
  clone : outcome.clone = none

/-- A file has no entries in `k'` that it does not have in `k`. -/
structure FewerFor (id : FileID) (k k' : KernelMaps) : Prop where
  outer : ∀ outer, k'.finalEntry outer id ≠ none → k.finalEntry outer id ≠ none
  pages : ∀ page, k'.pages id page ≠ none → k.pages id page ≠ none

namespace KernelMaps

/-- A new inner map with elements, whose insertion is queued. -/
def inserted (k : KernelMaps) (mapID : ℕ) (fileID : FileID) (entries : List StackDeltaEntry) :
    KernelMaps :=
  ((k.newMap (2 ^ mapID)).enqueueUpdate ⟨mapID, fileID, some k.innerMaps.length⟩).fillLast entries

lemma pages_inserted
    (k : KernelMaps) (mapID : ℕ) (fileID : FileID) (entries : List StackDeltaEntry) :
    (k.inserted mapID fileID entries).pages = k.pages := rfl

lemma pages_insertPages (k : KernelMaps) (fileID : FileID) (entries : List (ℕ × StackDeltaPageInfo))
    (id : FileID) (page : ℕ) : (k.insertPages fileID entries).pages id page =
      if id = fileID then (entries.lookup page).or (k.pages id page) else k.pages id page := rfl

lemma pages_deletePages (k : KernelMaps) (fileID : FileID) (keys : List ℕ) (id : FileID)
    (page : ℕ) :
    (k.deletePages fileID keys).pages id page =
      if id = fileID ∧ page ∈ keys then none else k.pages id page := rfl

section
variable (k : KernelMaps) (mapID : ℕ) (fileID : FileID) (entries : List StackDeltaEntry)

lemma finalEntry_inserted
    (outer : ℕ) (id : FileID) : (k.inserted mapID fileID entries).finalEntry outer id =
      if outer = mapID ∧ id = fileID then (k.finalEntry outer id).or (some k.innerMaps.length)
      else k.finalEntry outer id :=
  finalEntry_enqueueUpdate (k.newMap (2 ^ mapID)) _ outer id

lemma innerMaps_inserted :
    (k.inserted mapID fileID entries).innerMaps = k.innerMaps ++ [⟨2 ^ mapID, entries⟩] := by
  show (k.innerMaps ++ [(⟨2 ^ mapID, []⟩ : InnerMap)]).modify
    ((k.innerMaps ++ [(⟨2 ^ mapID, []⟩ : InnerMap)]).length - 1) _ = _
  rw [modify_eq_take_cons_drop (by simp)]
  simp

end

/-- A load fails before a map is touched, or queues its inner map and fills it or not. -/
lemma updateExeIDToStackDeltas_cases (outcome : MapOutcome) (fileID : FileID)
    (deltas : List StackDeltaEBPF) (k : KernelMaps) :
    ((∀ mapID, ¬ReachesFill outcome deltas.length mapID) ∧ ∃ err k',
      (updateExeIDToStackDeltas outcome fileID deltas).exec k = (.error (.error err), k') ∧
        k'.finalEntry = k.finalEntry ∧ k'.pages = k.pages) ∨
    ∃ mapID, ReachesFill outcome deltas.length mapID ∧
      ((∃ failure err, fillFailure outcome mapID deltas.length = some failure ∧
        (updateExeIDToStackDeltas outcome fileID deltas).exec k = (.error (.error err),
          k.inserted mapID fileID (entriesOf (deltas.take failure.written)))) ∨
      (fillFailure outcome mapID deltas.length = none ∧
        (updateExeIDToStackDeltas outcome fileID deltas).exec k =
          (.ok mapID, k.inserted mapID fileID (entriesOf deltas)))) := by
  unfold updateExeIDToStackDeltas
  cases hmap : getMapID (deltas.length % 2 ^ 32) with
  | error err =>
    refine .inl ⟨fun mapID h => ?_, err, k, rfl, rfl, rfl⟩
    cases hmap.symm.trans h.mapID_eq
  | ok mapID =>
    dsimp only
    cases hlimit : outcome.maximizeMemlock with
    | some err =>
      refine .inl ⟨fun _ h => ?_, _, k, rfl, rfl, rfl⟩
      cases hlimit.symm.trans h.maximizeMemlock
    | none =>
      cases hnew : outcome.newMap with
      | some err =>
        refine .inl ⟨fun _ h => ?_, _, k, rfl, rfl, rfl⟩
        cases hnew.symm.trans h.newMap
      | none =>
        cases hclone : outcome.clone with
        | some err =>
          refine .inl ⟨fun _ h => ?_, _, k.newMap (2 ^ mapID), rfl, rfl, rfl⟩
          cases hclone.symm.trans h.clone
        | none =>
          refine .inr ⟨mapID, ⟨hmap, hlimit, hnew, hclone⟩, ?_⟩
          cases hfill : fillFailure outcome mapID deltas.length with
          | some failure => exact .inl ⟨failure, _, rfl, rfl⟩
          | none => exact .inr ⟨rfl, rfl⟩

/-- The cleanup of a failed page update succeeds. -/
def Reverts (outcome : Option PageFailure) : Prop :=
  ∀ failure ∈ outcome, failure.batchDelete = none ∧ ∀ page, failure.deleteFails page = false

lemma Reverts.pageFailure {outcome : Option PageFailure} (h : Reverts outcome) (k : KernelMaps)
    (n : ℕ) :
    Reverts (k.pageFailure outcome n) := by
  intro failure hfailure
  rw [KernelMaps.pageFailure] at hfailure
  split at hfailure
  · cases outcome with
    | none =>
      cases hfailure
      exact ⟨rfl, fun _ => rfl⟩
    | some own =>
      cases hfailure
      exact h own rfl
  · exact h failure hfailure

lemma mem_of_lookup_ne_none
    {l : List (ℕ × StackDeltaPageInfo)} {page : ℕ} (h : l.lookup page ≠ none) :
    page ∈ l.map Prod.fst := by
  induction l with
  | nil => exact absurd rfl h
  | cons e l ih =>
    rw [lookup_cons] at h
    cases hkey : page == e.1 with
    | true =>
      rw [beq_iff_eq.mp hkey]
      exact mem_cons_self
    | false =>
      rw [hkey] at h
      exact mem_cons_of_mem _ (ih h)

lemma fewerFor_revertPages {failure : PageFailure} (hbatch : failure.batchDelete = none)
    (hdelete : ∀ page, failure.deleteFails page = false) (k : KernelMaps) (fileID : FileID)
    (entries : List (ℕ × StackDeltaPageInfo)) (id : FileID) :
    FewerFor id k ((k.insertPages fileID (entries.take failure.written)).revertPages failure fileID
      (entries.map Prod.fst)) := by
  -- the keys that are deleted are at least those that were written
  have hkeys :
    ∃ keys, (k.insertPages fileID (entries.take failure.written)).revertPages failure fileID
      (entries.map Prod.fst) =
      (k.insertPages fileID (entries.take failure.written)).deletePages fileID keys ∧
        (entries.map Prod.fst).take failure.written ⊆ keys := by
    rw [revertPages]
    split
    · rw [hbatch]
      exact ⟨_, rfl, fun _ h => h⟩
    · refine ⟨_, rfl, fun page hpage => ?_⟩
      rw [mem_filter, hdelete]
      exact ⟨mem_of_mem_take hpage, rfl⟩
  obtain ⟨keys, heq, hsubset⟩ := hkeys
  rw [heq]
  refine ⟨fun _ h => h, fun page h => ?_⟩
  rw [pages_deletePages, pages_insertPages] at h
  split at h
  · exact absurd rfl h
  · next hkept =>
    split at h
    · next hid =>
      cases hlookup : (entries.take failure.written).lookup page with
      | none =>
        rw [hlookup] at h
        exact h
      | some info =>
        have hmem := mem_of_lookup_ne_none (hlookup ▸ Option.some_ne_none info)
        rw [map_take] at hmem
        exact absurd ⟨hid, hsubset hmem⟩ hkept
    · exact h

lemma updateStackDeltaPages_cases (outcome : Option PageFailure) (fileID : FileID)
    (counters : List (BitVec 16)) (mapID firstPageAddr : ℕ) (k : KernelMaps) :
    (∃ err k', (updateStackDeltaPages outcome fileID counters mapID firstPageAddr).exec k =
      (.error (.error err), k') ∧ k'.finalEntry = k.finalEntry ∧
        (Reverts outcome → ∀ id, FewerFor id k k')) ∨
    ((StackDeltas.updateStackDeltaPages counters mapID firstPageAddr).length < 2 ^ 32 ∧
      (updateStackDeltaPages outcome fileID counters mapID firstPageAddr).exec k =
      (.ok (), k.insertPages fileID
        (StackDeltas.updateStackDeltaPages counters mapID firstPageAddr))) := by
  unfold updateStackDeltaPages
  rw [exec_get_bind]
  generalize StackDeltas.updateStackDeltaPages counters mapID firstPageAddr = entries
  cases hfailure : k.pageFailure outcome entries.length with
  | some failure =>
    refine .inl ⟨failure.err, _, rfl, ?_, fun h => ?_⟩
    · rw [revertPages]
      split
      · split
        · rfl
        · rfl
      · rfl
    · obtain ⟨hbatch, hdelete⟩ := h.pageFailure k entries.length failure hfailure
      exact fewerFor_revertPages hbatch hdelete k fileID entries
  | none =>
    refine .inr ⟨?_, rfl⟩
    have hlt := k.pageCapacity_lt
    rw [pageFailure] at hfailure
    split at hfailure
    · cases hfailure
    · omega

end KernelMaps

/-! ## What a load does -/

variable {ι : Type}

def FillFails (outcome : MapOutcome) (table : UnwindTable) (intervals : IntervalData) : Prop :=
  intervals.numDeltas ≠ 0 ∧ ∃ loader t mapID,
    (convertDeltas outcome.updateUnwindInfo intervals).exec table = (.ok loader, t) ∧
      ReachesFill outcome loader.ebpfDeltas.length mapID ∧
      KernelMaps.fillFailure outcome mapID loader.ebpfDeltas.length ≠ none

/-- What a successful load has loaded. -/
structure Loads
    (outcome : MapOutcome) (table : UnwindTable) (intervals : IntervalData) (loader : Loader)
    (t : UnwindTable) (mapID : ℕ) : Prop where
  numDeltas : intervals.numDeltas ≠ 0
  convert : (convertDeltas outcome.updateUnwindInfo intervals).exec table = (.ok loader, t)
  reaches : ReachesFill outcome loader.ebpfDeltas.length mapID
  fills : KernelMaps.fillFailure outcome mapID loader.ebpfDeltas.length = none

lemma Loads.not_fillFails {outcome : MapOutcome} {table t : UnwindTable} {intervals : IntervalData}
    {loader : Loader}
    (h : Loads outcome table intervals loader t mapID) : ¬FillFails outcome table intervals := by
  rintro ⟨-, loader', t', mapID', hconvert, hreaches, hfill⟩
  cases h.convert.symm.trans hconvert
  cases h.reaches.mapID_eq.symm.trans hreaches.mapID_eq
  exact hfill h.fills

def loadedPages (loader : Loader) (mapID : ℕ) (intervals : IntervalData) :
    List (ℕ × StackDeltaPageInfo) :=
  updateStackDeltaPages loader.numDeltasPerPage mapID (firstPage intervals * 2 ^ stackDeltaPageBits)

lemma exec_onMaps {x : Comp KernelMaps α} {s : System ι} {r : Except Fault α}
    (h : x.exec s.maps = (r, k)) : (onMaps x).exec s = (r, s.setMaps k) := by
  show ((x.exec s.maps).1, s.setMaps (x.exec s.maps).2) = _
  rw [h]

lemma exec_deleteExeIDToStackDeltas
    (hvalid : stackDeltaBucketSmallest ≤ mapID ∧ mapID ≤ stackDeltaBucketLargest) (fileID : FileID)
    (k : KernelMaps) : (KernelMaps.deleteExeIDToStackDeltas fileID mapID).exec k =
      (.ok (), k.enqueueUpdate ⟨mapID, fileID, none⟩) := by
  rw [KernelMaps.deleteExeIDToStackDeltas, if_neg (by omega)]
  rfl

lemma fewerFor_taken_back {k' : KernelMaps} {fileID : FileID} {entries : List StackDeltaEntry}
    (hfinal : k'.finalEntry = (k.inserted mapID fileID entries).finalEntry)
    (hfewer : FewerFor id (k.inserted mapID fileID entries) k') :
    FewerFor id k (k'.enqueueUpdate ⟨mapID, fileID, none⟩) := by
  refine ⟨fun outer h => ?_, hfewer.pages⟩
  rw [KernelMaps.finalEntry_enqueueUpdate, hfinal, KernelMaps.finalEntry_inserted] at h
  by_cases hentry : outer = mapID ∧ id = fileID
  · rw [if_pos hentry] at h
    exact absurd rfl h
  · rwa [if_neg hentry, if_neg hentry] at h

lemma storePages_cases (outcome : MapOutcome) (fileID : FileID) {intervals : IntervalData}
    {loader : Loader} (hvalid : stackDeltaBucketSmallest ≤ mapID ∧ mapID ≤ stackDeltaBucketLargest)
    (hlength : loader.numDeltasPerPage.length = numPages intervals) (m : ManagerState ι)
    (entries : List StackDeltaEntry) (k : KernelMaps) :
    (∃ e k', (storePages outcome fileID intervals loader mapID).exec
      ⟨m, k.inserted mapID fileID entries⟩ =
      (.error e, ⟨m, k'⟩) ∧ (KernelMaps.Reverts outcome.pages → ∀ id, FewerFor id k k')) ∨
    (∃ n ref, ref.mapID = mapID ∧
      ref.pageAddrs = (loadedPages loader mapID intervals).map Prod.fst ∧
      (storePages outcome fileID intervals loader mapID).exec ⟨m, k.inserted mapID fileID entries⟩ =
        (.ok ref, ⟨m.setPages n, (k.inserted mapID fileID entries).insertPages fileID
          (loadedPages loader mapID intervals)⟩)) := by
  rcases KernelMaps.updateStackDeltaPages_cases outcome.pages fileID loader.numDeltasPerPage mapID
      (firstPage intervals * 2 ^ stackDeltaPageBits) (k.inserted mapID fileID entries) with
    ⟨err, k', hpages, hfinal, hfewer⟩ | ⟨hlt, hpages⟩
  · left
    have hattempt := exec_attempt_error_iff.mpr
      (exec_onMaps (s := ⟨m, k.inserted mapID fileID entries⟩) hpages)
    have hdelete := exec_attempt_ok_iff.mpr (exec_onMaps (s := ⟨m, k'⟩)
      (exec_deleteExeIDToStackDeltas hvalid fileID k'))
    rw [storePages, exec_bind_of_ok hattempt]
    dsimp only [System.setMaps]
    rw [exec_bind_of_ok hdelete]
    exact ⟨_, _, rfl, fun hrevert id => fewerFor_taken_back hfinal (hfewer hrevert id)⟩
  · right
    have hattempt := exec_attempt_ok_iff.mpr
      (exec_onMaps (s := ⟨m, k.inserted mapID fileID entries⟩) hpages)
    rw [storePages, exec_bind_of_ok hattempt]
    refine ⟨_, _, rfl, ?_, rfl⟩
    have hkeys : (updateStackDeltaPages loader.numDeltasPerPage mapID
        (firstPage intervals * 2 ^ stackDeltaPageBits)).length =
          loader.numDeltasPerPage.length := by
      rw [← length_map Prod.fst, updateStackDeltaPages, keys_stackDeltaPages, length_map,
        length_range]
    have hnum : numPages intervals % 2 ^ 32 = loader.numDeltasPerPage.length := by
      rw [hlength]
      exact Nat.mod_eq_of_lt (by omega)
    exact (pageAddrs_eq ⟨_, _, mapID⟩ hnum).symm

/-- Nothing to load, a failure without traces, a queued unfilled inner map, or success. -/
lemma loadIntoMaps_cases
    (outcome : MapOutcome) (fileID : FileID) (intervals : IntervalData) (s : System ι) :
    (intervals.numDeltas = 0 ∧ (loadIntoMaps outcome fileID intervals).exec s = (.ok {}, s)) ∨
    (¬FillFails outcome s.manager.unwindTable intervals ∧ ∃ e t k,
      (loadIntoMaps outcome fileID intervals).exec s = (.error e, ⟨s.manager.setTable t, k⟩) ∧
        (KernelMaps.Reverts outcome.pages → ∀ id, FewerFor id s.maps k)) ∨
    (FillFails outcome s.manager.unwindTable intervals ∧ ∃ err t mapID entries,
      (loadIntoMaps outcome fileID intervals).exec s =
        (.error (.error err), ⟨s.manager.setTable t, s.maps.inserted mapID fileID entries⟩)) ∨
    (∃ loader t mapID n ref, Loads outcome s.manager.unwindTable intervals loader t mapID ∧
      ref.mapID = mapID ∧ ref.pageAddrs = (loadedPages loader mapID intervals).map Prod.fst ∧
      (loadIntoMaps outcome fileID intervals).exec s = (.ok ref, ⟨(s.manager.setTable t).setPages n,
        (s.maps.inserted mapID fileID (KernelMaps.entriesOf loader.ebpfDeltas)).insertPages fileID
          (loadedPages loader mapID intervals)⟩)) := by
  by_cases hn : intervals.numDeltas = 0
  · rw [loadIntoMaps, if_pos hn]
    exact .inl ⟨hn, rfl⟩
  rcases hconv :
    (convertDeltas outcome.updateUnwindInfo intervals).exec s.manager.unwindTable with ⟨r, t⟩
  have hzoom : (onManager (zoom ManagerState.unwindTable ManagerState.setTable
      (convertDeltas outcome.updateUnwindInfo intervals))).exec s =
      (r, ⟨s.manager.setTable t, s.maps⟩) := by
    show ((convertDeltas outcome.updateUnwindInfo intervals).exec s.manager.unwindTable |>.1,
      (⟨s.manager.setTable ((convertDeltas outcome.updateUnwindInfo intervals).exec
        s.manager.unwindTable).2, s.maps⟩ : System ι)) = _
    rw [hconv]
  cases r with
  | error e =>
    rw [loadIntoMaps, if_neg hn, exec_bind_of_error hzoom]
    refine .inr (.inl ⟨?_, e, t, s.maps, rfl, fun _ id => ⟨fun _ h => h, fun _ h => h⟩⟩)
    rintro ⟨-, loader, t', mapID, hok, -⟩
    cases hconv.symm.trans hok
  | ok loader =>
    have hload : (loadIntoMaps outcome fileID intervals).exec s =
        (storeDeltas outcome fileID intervals loader).exec ⟨s.manager.setTable t, s.maps⟩ := by
      rw [loadIntoMaps, if_neg hn, exec_bind_of_ok hzoom]
    have hfails : FillFails outcome s.manager.unwindTable intervals → ∃ mapID,
        ReachesFill outcome loader.ebpfDeltas.length mapID ∧
          KernelMaps.fillFailure outcome mapID loader.ebpfDeltas.length ≠ none := by
      rintro ⟨-, loader', t', mapID, hok, hfill⟩
      cases hconv.symm.trans hok
      exact ⟨mapID, hfill⟩
    rcases KernelMaps.updateExeIDToStackDeltas_cases outcome fileID loader.ebpfDeltas s.maps with
      ⟨hnot, err, k, hexec, hfinal, hpages⟩ |
        ⟨mapID, hreach, ⟨failure, err, hfill, hexec⟩ | ⟨hfill, hexec⟩⟩
    · -- the load fails before the insertion is queued
      have hupdate := exec_onMaps (s := ⟨s.manager.setTable t, s.maps⟩) hexec
      rw [storeDeltas, exec_bind_of_error (exec_wrapError_error hupdate _)] at hload
      refine .inr (.inl ⟨fun h => ?_, _, t, k, hload, fun _ id => ?_⟩)
      swap
      · exact ⟨fun _ h => hfinal ▸ h, fun _ h => hpages ▸ h⟩
      obtain ⟨mapID, hreach, -⟩ := hfails h
      exact hnot mapID hreach
    · have hupdate := exec_onMaps (s := ⟨s.manager.setTable t, s.maps⟩) hexec
      rw [storeDeltas, exec_bind_of_error (exec_wrapError_error hupdate _)] at hload
      have hfill' : KernelMaps.fillFailure outcome mapID loader.ebpfDeltas.length ≠ none := by
        rw [hfill]
        exact Option.some_ne_none failure
      exact .inr (.inr (.inl ⟨⟨hn, loader, t, mapID, hconv, hreach, hfill'⟩, _, t,
        mapID, _, hload⟩))
    · have hupdate := exec_onMaps (s := ⟨s.manager.setTable t, s.maps⟩) hexec
      rw [storeDeltas, exec_bind_of_ok (exec_wrapError_ok hupdate _)] at hload
      rcases storePages_cases outcome fileID (getMapID_ok hreach.mapID_eq).1
        (convertDeltas_length hconv)
          (s.manager.setTable t) (KernelMaps.entriesOf loader.ebpfDeltas) s.maps with
        ⟨e, k, hpages, hfewer⟩ | ⟨n, ref, hid, haddrs, hpages⟩
      · refine .inr (.inl ⟨fun h => ?_, e, t, k, hload.trans hpages, hfewer⟩)
        obtain ⟨mapID', hreach', hfill'⟩ := hfails h
        cases hreach.mapID_eq.symm.trans hreach'.mapID_eq
        exact hfill' hfill
      · exact .inr (.inr (.inr ⟨loader, t, mapID, n, ref, ⟨hn, hconv, hreach, hfill⟩, hid, haddrs,
          hload.trans hpages⟩))

/-! ## Files do not touch each other -/

/-- The maps agree on the file. -/
structure SameMaps (f : FileID) (k k' : KernelMaps) : Prop where
  outer : ∀ outer, k'.finalEntry outer f = k.finalEntry outer f
  pages : ∀ page, k'.pages f page = k.pages f page

/-- Maps and reference count agree on the file. -/
structure SameFor (f : FileID) (s s' : System ι) : Prop where
  maps : SameMaps f s.maps s'.maps
  entry : s'.manager.executables.lookup f = s.manager.executables.lookup f

section Frame
variable {f g : FileID} {k₀ k : KernelMaps} {s₀ : System ι}

section
variable (h : SameMaps f k₀ k)
include h

lemma SameMaps.enqueueUpdate (hu : u.fileID ≠ f) : SameMaps f k₀ (k.enqueueUpdate u) := by
  refine ⟨fun outer => ?_, h.pages⟩
  rw [KernelMaps.finalEntry_enqueueUpdate, if_neg fun hf => hu hf.2.symm]
  exact h.outer outer

lemma SameMaps.insertPages (hg : g ≠ f) (entries : List (ℕ × StackDeltaPageInfo)) :
    SameMaps f k₀ (k.insertPages g entries) := by
  refine ⟨h.outer, fun page => ?_⟩
  rw [KernelMaps.pages_insertPages, if_neg hg.symm]
  exact h.pages page

lemma SameMaps.deletePages (hg : g ≠ f) (keys : List ℕ) : SameMaps f k₀ (k.deletePages g keys) := by
  refine ⟨h.outer, fun page => ?_⟩
  rw [KernelMaps.pages_deletePages, if_neg fun hf => hg hf.1.symm]
  exact h.pages page

lemma SameMaps.revertPages (hg : g ≠ f) (failure : PageFailure) (keys : List ℕ) :
    SameMaps f k₀ (k.revertPages failure g keys) := by
  rw [KernelMaps.revertPages]
  split
  · split
    · exact h.deletePages hg _
    · exact (h.deletePages hg _).deletePages hg _
  · exact h.deletePages hg _

end

lemma keeps_modify {σ : Type} {P : σ → Prop} {step : σ → σ} (h : ∀ s, P s → P (step s)) :
    Comp.Keeps P (Comp.modify step) := h

lemma SameMaps.inserted (h : SameMaps f k₀ k) (hg : g ≠ f) (mapID : ℕ)
    (entries : List StackDeltaEntry) :
    SameMaps f k₀ (k.inserted mapID g entries) := by
  refine ⟨fun outer => ?_, h.pages⟩
  rw [KernelMaps.finalEntry_inserted, if_neg fun hf => hg hf.2.symm]
  exact h.outer outer

lemma updateExeIDToStackDeltas_keeps
    (hg : g ≠ f) (outcome : MapOutcome) (deltas : List StackDeltaEBPF) :
    (KernelMaps.updateExeIDToStackDeltas outcome g deltas).Keeps (SameMaps f k₀) := by
  intro k h
  rcases KernelMaps.updateExeIDToStackDeltas_cases outcome g deltas k with
    ⟨-, err, k', hexec, hfinal, hpages⟩ | ⟨mapID, -, ⟨failure, err, -, hexec⟩ | ⟨-, hexec⟩⟩
  · rw [hexec]
    exact ⟨fun outer => hfinal ▸ h.outer outer, fun page => hpages ▸ h.pages page⟩
  · rw [hexec]
    exact h.inserted hg mapID _
  · rw [hexec]
    exact h.inserted hg mapID _

lemma updateStackDeltaPages_keeps (hg : g ≠ f) (outcome : Option PageFailure)
    (counters : List (BitVec 16)) (mapID firstPageAddr : ℕ) :
    (KernelMaps.updateStackDeltaPages outcome g counters mapID firstPageAddr).Keeps
    (SameMaps f k₀) := by
  apply keeps_get_bind
  intro k h
  split
  · exact keeps_set (h.insertPages hg _)
  · apply (keeps_set ((h.insertPages hg _).revertPages hg _ _)).bind
    intro _
    exact keeps_error _

lemma deleteExeIDToStackDeltas_keeps (hg : g ≠ f) (mapID : ℕ) :
    (KernelMaps.deleteExeIDToStackDeltas g mapID).Keeps (SameMaps f k₀) := by
  rw [KernelMaps.deleteExeIDToStackDeltas]
  split
  · exact keeps_error _
  · exact keeps_modify fun k h => h.enqueueUpdate hg

lemma onMaps_keeps {x : Comp KernelMaps α} (h : x.Keeps (SameMaps f s₀.maps)) :
    (onMaps x : Comp (System ι) α).Keeps (SameFor f s₀) :=
  h.zoom (fun _ hs => hs.maps) fun _ _ hs hk => ⟨hk, hs.entry⟩

lemma onManager_keeps {x : Comp (ManagerState ι) α}
    (h : x.Keeps fun m => m.executables.lookup f = s₀.manager.executables.lookup f) :
    (onManager x).Keeps (SameFor f s₀) :=
  h.zoom (fun _ hs => hs.entry) fun _ _ hs hm => ⟨hs.maps, hm⟩

lemma loadIntoMaps_keeps (hg : g ≠ f) (outcome : MapOutcome) (intervals : IntervalData) :
    (loadIntoMaps outcome g intervals).Keeps (SameFor f s₀) := by
  rw [loadIntoMaps]
  split
  · exact keeps_pure _
  · apply Comp.Keeps.bind
    · -- the conversion changes the recipe table only
      apply onManager_keeps
      intro m h
      exact h
    intro loader
    apply Comp.Keeps.bind
    · exact (onMaps_keeps (updateExeIDToStackDeltas_keeps hg _ _)).wrapError _
    intro mapID
    apply Comp.Keeps.bind
    · exact (onMaps_keeps (updateStackDeltaPages_keeps hg _ _ _ _)).attempt
    intro r
    split
    · apply (onMaps_keeps (deleteExeIDToStackDeltas_keeps hg _)).attempt.bind
      intro _
      exact keeps_error _
    · apply onManager_keeps
      intro m h
      exact h

lemma addIntoMaps_keeps (hg : g ≠ f) (call : MapsCall ι) : (addIntoMaps g call).Keeps
    (SameFor f s₀) := by
  rw [addIntoMaps]
  split
  · exact keeps_error _
  · apply keeps_get_bind
    intro s hs
    split
    · next e _ =>
      apply onManager_keeps
      intro m hm
      rw [(exec_incRef m g e).2, lookup_insertEntry, if_neg hg.symm]
      exact hm
    · split
      · exact keeps_error _
      · apply ((loadIntoMaps_keeps hg _ _).wrapError _).bind
        intro ref
        apply Comp.Keeps.bind
        · apply onManager_keeps
          intro m hm
          exact (lookup_insertEntry m g f _).trans ((if_neg hg.symm).trans hm)
        · intro _
          exact keeps_pure _

section
variable (hg : g ≠ f) (outcome : FileID → ℕ → Option String)
include hg

lemma unloadFromMaps_keeps (ref : MapRef) :
    (unloadFromMaps outcome g ref : Comp (System ι) Unit).Keeps (SameFor f s₀) := by
  rw [unloadFromMaps]
  split
  · exact keeps_pure _
  · apply Comp.Keeps.bind
    · exact onMaps_keeps (keeps_modify fun k h => h.deletePages hg _)
    intro _
    apply Comp.Keeps.bind
    · apply onManager_keeps
      intro m h
      exact h
    intro _
    apply (onMaps_keeps (deleteExeIDToStackDeltas_keeps hg _)).attempt.bind
    intro last
    dsimp only
    split
    · exact keeps_pure _
    · exact keeps_error _

lemma cleanupFromMaps_keeps (cutoff : Time) :
    (cleanupFromMaps outcome cutoff g).Keeps (SameFor f s₀) := by
  apply keeps_get_bind
  intro s hs
  split
  · exact keeps_pure _
  split
  · exact keeps_pure _
  split
  · exact keeps_error _
  split
  · exact keeps_error _
  apply ((unloadFromMaps_keeps hg _ _).wrapError _).bind
  intro _
  apply onManager_keeps
  intro m hm
  exact (lookup_removeEntry m g f).trans ((if_neg hg.symm).trans hm)

end

end Frame

end EbpfProfiler.ExecInfo
