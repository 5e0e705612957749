import EbpfProfiler.ProcessManager.ProcessInfo

/-!
# What synchronizing collects, and forgetting

The old list splits into mappings that stay and mappings to remove, the new one into mappings that
stay and mappings to add.
-/

namespace EbpfProfiler.ProcessManager

open AList RawMapping
open List
open ExecInfo Lib Lpm Reporter Wire

variable {ι : Type}

/-- The executable, file-backed mappings that are delivered. -/
def SyncCall.neededMappings (call : SyncCall ι) : List RawMapping :=
  call.delivered.filter needed

/-! ## The lookup map of the old mappings -/

lemma removeTable_append (ms : List Mapping) (m : Mapping) :
    removeTable (ms ++ [m]) = (removeTable ms).insert m.vaddr m := by
  rw [removeTable, foldl_append]
  rfl

variable {ms : List Mapping} {m : RawMapping}

lemma vaddr_of_lookup_removeTable {v : Word} {o : Mapping}
    (h : (removeTable ms).lookup v = some o) : o ∈ ms ∧ o.vaddr = v := by
  induction ms using reverseRecOn with
  | nil => cases h
  | append_singleton ms m ih =>
    rw [removeTable_append] at h
    by_cases hv : v = m.vaddr
    · rw [hv, lookup_insert] at h
      cases h
      exact ⟨mem_append_right ms mem_cons_self, hv.symm⟩
    · rw [lookup_insert_ne hv] at h
      exact ⟨mem_append_left [m] (ih h).1, (ih h).2⟩

lemma removeTable_perm (h : (ms.map Mapping.vaddr).Nodup) :
    ms.Perm ((removeTable ms).entries.map (·.2)) := by
  induction ms using reverseRecOn with
  | nil => exact List.Perm.refl []
  | append_singleton ms m ih =>
    rw [map_append, nodup_append] at h
    obtain ⟨hms, -, hne⟩ := h
    have hfresh : m.vaddr ∉ removeTable ms := by
      intro hm
      obtain ⟨o, ho⟩ := Option.isSome_iff_exists.mp (lookup_isSome.mpr hm)
      obtain ⟨hmem, hv⟩ := vaddr_of_lookup_removeTable ho
      exact hne o.vaddr (mem_map_of_mem hmem) m.vaddr mem_cons_self hv
    rw [removeTable_append, entries_insert_of_notMem hfresh]
    exact (perm_append_singleton m ms).trans ((ih hms).cons m)

/-! ## One callback -/

def RawMapping.area (m : RawMapping) : Word × Word := (m.vaddr, m.length)

def Mapping.area (m : Mapping) : Word × Word := (m.vaddr, m.length)

def Mapping.Spans (m : Mapping) : Prop := m.endAddr = m.vaddr + m.length

lemma spans_track (m : RawMapping) (file : FrameMappingFileData) (va : Word) :
    (m.track (m.frameMapping file va)).Spans := by
  show m.vaddr + (va + m.length) - va = m.vaddr + m.length
  rw [← add_assoc, add_comm m.vaddr va, add_assoc, add_comm va, BitVec.add_sub_cancel]

lemma sameAs_iff {old : Mapping} : old.sameAs m = true ↔
    old.length = m.length ∧ old.device = m.device ∧ old.inode = m.inode := by
  simp [Mapping.sameAs, and_assoc]

lemma track_eq_of_sameAs {old : Mapping} (hv : old.vaddr = m.vaddr)
    (h : old.sameAs m = true) : m.track old.frameMapping = old := by
  obtain ⟨hl, hd, hi⟩ := sameAs_iff.mp h
  rw [track, ← hv, ← hl, ← hd, ← hi]

/-- The mapping that can be made for a raw one, from what is known about the file. -/
def SyncCall.Tracks (call : SyncCall ι) (m : RawMapping) (n : Mapping) : Prop :=
  ∃ info va, call.elfInfo m = some info ∧ info.fileOffsetToVirtualAddress m.fileOffset = some va ∧
    n = m.track (m.frameMapping info.mappingFile va)

lemma SyncCall.Tracks.spans {call : SyncCall ι} {n : Mapping} (h : call.Tracks m n) : n.Spans := by
  obtain ⟨info, va, -, -, rfl⟩ := h
  exact spans_track m info.mappingFile va

lemma newFrameMapping_some {call : SyncCall ι} {eim : ManagerState ι} {fm : FrameMappingData}
    (h : (newFrameMapping call m eim).1 = some fm) : call.Tracks m (m.track fm) := by
  unfold newFrameMapping at h
  cases hinfo : call.elfInfo m with
  | none => rw [hinfo] at h; cases h
  | some info =>
    rw [hinfo] at h
    dsimp only at h
    cases hva : info.fileOffsetToVirtualAddress m.fileOffset with
    | none => rw [hva] at h; cases h
    | some va =>
      rw [hva] at h
      refine ⟨info, va, hinfo, hva, congrArg m.track ?_⟩
      rcases hadd : (addOrIncRef (fileIDFromLibpf info.mappingFile.fileID) (call.add m)).exec eim
        with ⟨r, t⟩
      rw [hadd] at h
      cases r with
      | error e => cases h
      | ok r => exact (Option.some.inj h).symm

section
variable (call : SyncCall ι) (st : Collector ι) (m : RawMapping)

/-- A callback skips the mapping, keeps an old one, or tries to add a new one. -/
lemma deliver_cases : (m.needed = false ∧ st.deliver call m = st) ∨
    (m.needed = true ∧ ∃ old, st.mpRemove.lookup m.vaddr = some old ∧ old.sameAs m = true ∧
      st.deliver call m = st.keep m old) ∨
    (m.needed = true ∧ (∀ old, st.mpRemove.lookup m.vaddr = some old → old.sameAs m = false) ∧
      st.deliver call m = st.addNew call m) := by
  unfold Collector.deliver
  cases hneeded : m.needed with
  | false => exact .inl ⟨rfl, rfl⟩
  | true =>
    refine .inr ?_
    rw [if_pos rfl]
    cases hold : st.mpRemove.lookup m.vaddr with
    | none => exact .inr ⟨rfl, fun old h => (nomatch h), rfl⟩
    | some old =>
      dsimp only
      cases hsame : old.sameAs m with
      | true => exact .inl ⟨rfl, old, rfl, hsame, if_pos rfl⟩
      | false =>
        refine .inr ⟨rfl, fun o ho => ?_, if_neg Bool.false_ne_true⟩
        cases ho
        exact hsame

lemma addNew_cases : ((newFrameMapping call m st.eim).1 = none ∧
      st.addNew call m = { st with eim := (newFrameMapping call m st.eim).2 }) ∨
    ∃ fm, (newFrameMapping call m st.eim).1 = some fm ∧ st.addNew call m =
      { st with
        mappings := st.mappings ++ [m.track fm]
        mpAdd := st.mpAdd ++ [m.track fm]
        eim := (newFrameMapping call m st.eim).2 } := by
  unfold Collector.addNew
  dsimp only
  cases (newFrameMapping call m st.eim).1 with
  | none => exact .inl ⟨rfl, rfl⟩
  | some fm => exact .inr ⟨fm, rfl, rfl⟩

end

/-! ## All callbacks -/

/-- The lists after the mappings `seen` have been delivered. -/
structure Collected (call : SyncCall ι) (old : List Mapping) (seen : List RawMapping)
    (st : Collector ι) (kept : List Mapping) : Prop where
  old_perm : old.Perm (kept ++ st.mpRemove.entries.map (·.2))
  mappings_perm : st.mappings.Perm (kept ++ st.mpAdd)
  keys : ∀ v o, st.mpRemove.lookup v = some o → o.vaddr = v
  areas : (st.mappings.map Mapping.area).Sublist
    ((seen.filter needed).map area)
  added : ∀ n ∈ st.mpAdd, ∃ m ∈ seen.filter needed, call.Tracks m n

variable {call : SyncCall ι} {old kept : List Mapping} {seen : List RawMapping} {st : Collector ι}

lemma Collected.added_append (h : Collected call old seen st kept) (m : RawMapping) {n : Mapping}
    (hn : n ∈ st.mpAdd) : ∃ k ∈ (seen ++ [m]).filter needed, call.Tracks k n := by
  obtain ⟨k, hk, htracks⟩ := h.added n hn
  refine ⟨k, ?_, htracks⟩
  rw [filter_append]
  exact mem_append_left _ hk

lemma areas_append {seen : List RawMapping} (hneeded : m.needed = true) :
    ((seen ++ [m]).filter needed).map area =
      (seen.filter needed).map area ++ [m.area] := by
  rw [filter_append, map_append, filter_cons_of_pos hneeded]
  rfl

section
variable (h : Collected call old seen st kept)
include h

lemma Collected.keep {o : Mapping} (hneeded : m.needed = true)
    (ho : st.mpRemove.lookup m.vaddr = some o) (hsame : o.sameAs m = true) :
    Collected call old (seen ++ [m]) (st.keep m o) (kept ++ [o]) := by
  have htrack : m.track o.frameMapping = o := track_eq_of_sameAs (h.keys m.vaddr o ho) hsame
  have hmappings : (st.keep m o).mappings = st.mappings ++ [o] := by
    rw [Collector.keep, htrack]
  have harea : o.area = m.area := by rw [← htrack]; rfl
  constructor
  case old_perm =>
    have herase := (Table.entries_perm_erase ho).map (·.2)
    have hmiddle := (herase.append_left kept).trans perm_middle
    refine h.old_perm.trans (hmiddle.trans ?_)
    exact perm_append_singleton o kept |>.symm.append_right _
  case mappings_perm =>
    rw [hmappings]
    refine (h.mappings_perm.append_right [o]).trans ?_
    rw [append_assoc, append_assoc]
    exact perm_append_comm.append_left kept
  case keys =>
    intro v o' hv
    refine h.keys v o' ?_
    by_cases hvm : v = m.vaddr
    · rw [hvm, Collector.keep, lookup_erase] at hv
      cases hv
    · rwa [Collector.keep, lookup_erase_ne hvm] at hv
  case areas =>
    rw [hmappings, map_append, areas_append hneeded]
    refine h.areas.append ?_
    rw [map_singleton, harea]
  case added => exact fun n hn => h.added_append m hn

lemma Collected.addNew
    (hneeded : m.needed = true) : Collected call old (seen ++ [m]) (st.addNew call m) kept := by
  rcases addNew_cases call st m with ⟨-, heq⟩ | ⟨fm, hfm, heq⟩
  · rw [heq]
    refine ⟨h.old_perm, h.mappings_perm, h.keys, ?_, fun n hn => h.added_append m hn⟩
    rw [areas_append hneeded]
    exact h.areas.trans (sublist_append_left _ _)
  · rw [heq]
    refine ⟨h.old_perm, ?_, h.keys, ?_, ?_⟩
    · rw [← append_assoc]
      exact h.mappings_perm.append_right _
    · rw [areas_append hneeded, map_append]
      exact h.areas.append (List.Sublist.refl _)
    · intro n hn
      rcases mem_append.mp hn with hn | hn
      · exact h.added_append m hn
      · refine ⟨m, mem_filter.mpr ⟨mem_append_right _ mem_cons_self, hneeded⟩, ?_⟩
        rw [mem_singleton.mp hn]
        exact newFrameMapping_some hfm

lemma Collected.deliver (m : RawMapping) :
    ∃ kept', Collected call old (seen ++ [m]) (st.deliver call m) kept' := by
  rcases deliver_cases call st m with
    ⟨hneeded, heq⟩ | ⟨hneeded, o, ho, hsame, heq⟩ | ⟨hneeded, -, heq⟩
  · rw [heq]
    refine ⟨kept, h.old_perm, h.mappings_perm, h.keys, ?_, fun n hn => h.added_append m hn⟩
    rw [filter_append, map_append]
    exact h.areas.trans (sublist_append_left _ _)
  · rw [heq]
    exact ⟨kept ++ [o], h.keep hneeded ho hsame⟩
  · rw [heq]
    exact ⟨kept, h.addNew hneeded⟩

end

def collectFrom (call : SyncCall ι) (old : List Mapping) (eim : ManagerState ι)
    (delivered : List RawMapping) : Collector ι :=
  delivered.foldl (Collector.deliver call) ⟨removeTable old, [], [], eim⟩

lemma collectFrom_append (call : SyncCall ι) (old : List Mapping) (eim : ManagerState ι)
    (seen : List RawMapping) (m : RawMapping) :
    collectFrom call old eim (seen ++ [m]) = (collectFrom call old eim seen).deliver call m := by
  rw [collectFrom, foldl_append]
  rfl

section
variable (call : SyncCall ι) (eim : ManagerState ι) (hold : (old.map Mapping.vaddr).Nodup)
include hold

lemma collectFrom_collected (seen : List RawMapping) :
    ∃ kept, Collected call old seen (collectFrom call old eim seen) kept := by
  induction seen using reverseRecOn with
  | nil =>
    exact ⟨[], removeTable_perm hold, List.Perm.refl [],
      fun v o h => (vaddr_of_lookup_removeTable h).2,
        List.Sublist.refl [], fun m hm => (nomatch hm)⟩
  | append_singleton seen m ih =>
    obtain ⟨kept, h⟩ := ih
    rw [collectFrom_append]
    exact h.deliver m

lemma collect_collected : ∃ kept, Collected call old call.delivered (collect call old eim) kept :=
  collectFrom_collected call eim hold call.delivered

end

/-! ## Properties of the lists -/

/-- The mappings of every process have a property. -/
def State.Each (P : List Mapping → Prop) (s : State ι) : Prop :=
  ∀ pid info, s.pidToProcessInfo.lookup pid = some info → P info.mappings

section
variable {P : List Mapping → Prop} {s t : State ι} {pid : Pid} (h : s.Each P)
include h

lemma State.Each.insert {info : ProcessInfo} (hinfo : P info.mappings)
    (ht : t.pidToProcessInfo = s.pidToProcessInfo.insert pid info) : t.Each P := by
  intro q i hq
  rw [ht] at hq
  by_cases hqp : q = pid
  · rw [hqp, lookup_insert] at hq
    cases hq
    exact hinfo
  · rw [lookup_insert_ne hqp] at hq
    exact h q i hq

lemma forgetProcess_each (detach : List InterpreterOp) (pid : Pid) :
    (forgetProcess detach pid s).Each P := by
  intro q i hq
  by_cases hqp : q = pid
  · rw [hqp] at hq
    change (s.pidToProcessInfo.erase pid).lookup pid = some i at hq
    rw [lookup_erase] at hq
    cases hq
  · change (s.pidToProcessInfo.erase pid).lookup q = some i at hq
    rw [lookup_erase_ne hqp] at hq
    exact h q i hq

end

/-! ## Forgetting processes -/

lemma processedUntil_preserves {P : State ι → Prop} {detach : Pid → List InterpreterOp}
    (hforget : ∀ s pid, P s → pid ∈ s.exitEvents → P (forgetProcess (detach pid) pid s))
    (traceCaptureKTime : Time) {s : State ι} (h : P s) :
    P (processedUntil traceCaptureKTime detach s) := by
  -- each entry is still there when its turn comes, since the others have other keys
  have hfold : ∀ (l : List (Sigma fun _ : Pid => Time)) (s : State ι), P s →
      l.NodupKeys → (∀ e ∈ l, e.1 ∈ s.exitEvents) →
      P (l.foldl (fun s e => if traceCaptureKTime < e.2 then s
        else forgetProcess (detach e.1) e.1 s) s) := by
    intro l
    induction l with
    | nil => exact fun s h _ _ => h
    | cons e l ih =>
      intro s h hkeys hmem
      rw [nodupKeys_cons] at hkeys
      have hrest : ∀ d ∈ l, d.1 ∈ s.exitEvents := fun d hd => hmem d (mem_cons_of_mem e hd)
      rw [foldl_cons]
      split
      · exact ih s h hkeys.2 hrest
      · refine ih _ (hforget s e.1 h (hmem e mem_cons_self)) hkeys.2 fun d hd => ?_
        have hne : d.1 ≠ e.1 := by
          intro hde
          exact hkeys.1 (hde ▸ mem_keys_of_mem hd)
        show d.1 ∈ s.exitEvents.erase e.1
        exact mem_erase.mpr ⟨hne, hrest d hd⟩
  exact hfold s.exitEvents.entries s h s.exitEvents.nodupKeys fun e he =>
    mem_keys.mpr (mem_keys_of_mem he)

end EbpfProfiler.ProcessManager
