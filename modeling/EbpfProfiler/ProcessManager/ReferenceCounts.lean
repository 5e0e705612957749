import EbpfProfiler.ExecInfo.RefCount
import EbpfProfiler.ProcessManager.ProcessInfoTheorems

/-!
# References on executables and the mappings that hold them

An iteration that fails loses the references it has taken for new mappings.
-/

namespace EbpfProfiler.ProcessManager

open AList State RawMapping
open List
open ExecInfo Lib Lpm Reporter Wire

variable {ms : List Mapping} {pid : Pid} {info : ProcessInfo}

variable {ι : Type}

/-! ## What is counted -/

def countFile (f : FileID) (ms : List Mapping) : ℕ := ms.countP fun m => m.fileID = f

def State.tracked (s : State ι) (f : FileID) : ℕ :=
  s.pidToProcessInfo.total fun pid info =>
    if pid ∈ s.exitEvents then 0 else countFile f info.mappings

/-- A mapping that ends behind its start. -/
def Mapping.Proper (m : Mapping) : Prop := m.vaddr.toNat < m.endAddr.toNat

/-- Tracked mappings hold the references, start at different addresses and are not empty. -/
structure State.RefsHeld (s : State ι) : Prop where
  count : ∀ f, s.eim.refCount f = s.tracked f
  distinct : ∀ pid info, s.pidToProcessInfo.lookup pid = some info →
    (info.mappings.map Mapping.vaddr).Nodup
  proper : ∀ pid info, s.pidToProcessInfo.lookup pid = some info →
    ∀ m ∈ info.mappings, m.Proper

/-! ## The condition -/

def State.mappingsOf (s : State ι) (pid : Pid) : List Mapping :=
  (s.pidToProcessInfo.lookup pid).elim [] ProcessInfo.mappings

/-- The file of a raw mapping is an ELF file with the mapped offset. -/
def SyncCall.mappable (call : SyncCall ι) (m : RawMapping) : Bool :=
  (call.elfInfo m).any fun info => (info.fileOffsetToVirtualAddress m.fileOffset).isSome

def SyncCall.Fails (call : SyncCall ι) : Prop :=
  call.result ≠ none ∧ call.result ≠ some .callbackStopped

/-- A mapping that is not tracked yet and would be. -/
def IsNew (call : SyncCall ι) (old : List Mapping) (m : RawMapping) : Prop :=
  call.mappable m = true ∧ ∀ o ∈ old, ¬ (o.vaddr = m.vaddr ∧ o.sameAs m = true)

/-- Mappings have different starts before their ends, no count overflows, and a failing iteration
has delivered no new mapping. -/
structure KeepsRefs (s : State ι) (pid : Pid) (call : SyncCall ι) : Prop where
  distinct : (call.neededMappings.map vaddr).Nodup
  nonempty : ∀ m ∈ call.neededMappings, m.vaddr.toNat < (m.vaddr + m.length).toNat
  small : ∀ f, s.eim.refCount f + call.delivered.length < 2 ^ 64
  noNew : call.Fails → ∀ m ∈ call.neededMappings, ¬ IsNew call (s.mappingsOf pid) m

/-- The condition on an event. -/
def RefsAdmissible (s : State ι) : PmEvent ι → Prop
  | .synchronizeProcess pid call => KeepsRefs s pid call
  | _ => True

/-- The states of the runs whose synchronizations meet the condition. -/
inductive RefsReachable : State ι → Prop
  | new : RefsReachable new
  | step {s : State ι} (h : RefsReachable s) (event : PmEvent ι) (hadm : RefsAdmissible s event) :
      RefsReachable (s.step event)

/-! ## Counting -/

lemma countFile_append (f : FileID) (ms ns : List Mapping) :
    countFile f (ms ++ ns) = countFile f ms + countFile f ns := countP_append

lemma countFile_singleton (f : FileID) (m : Mapping) :
    countFile f [m] = if f = m.fileID then 1 else 0 := by
  rw [countFile, countP_singleton]
  simp only [decide_eq_true_eq, eq_comm (a := f)]

lemma countFile_perm (f : FileID) {ns : List Mapping} (h : ms.Perm ns) :
    countFile f ms = countFile f ns := h.countP_eq _

/-! ## Taking references -/

lemma newFrameMapping_refCount (call : SyncCall ι) (m : RawMapping) {eim : ManagerState ι}
    (hlt : ∀ f, eim.refCount f + 1 < 2 ^ 64) (g : FileID) :
    (newFrameMapping call m eim).2.refCount g = eim.refCount g +
      countFile g ((newFrameMapping call m eim).1.toList.map m.track) := by
  unfold newFrameMapping
  cases call.elfInfo m with
  | none => rfl
  | some info =>
    dsimp only
    cases info.fileOffsetToVirtualAddress m.fileOffset with
    | none => rfl
    | some va =>
      have hadd := addOrIncRef_refCount eim (call.add m)
        (hlt (fileIDFromLibpf info.mappingFile.fileID))
      rcases hexec : (addOrIncRef (fileIDFromLibpf info.mappingFile.fileID) (call.add m)).exec eim
        with ⟨r, t⟩
      rw [hexec] at hadd
      rcases hadd with ⟨i, hok, hcount⟩ | ⟨e, herr, hcount⟩
      · subst hok
        dsimp only [Option.toList_some, map_singleton]
        rw [countFile_singleton]
        exact hcount g
      · subst herr
        exact hcount g

variable {call : SyncCall ι} {st : Collector ι} {old kept : List Mapping} {s t : State ι}

lemma newFrameMapping_not_mappable {m : RawMapping} (h : call.mappable m = false)
    (eim : ManagerState ι) : newFrameMapping call m eim = (none, eim) := by
  unfold newFrameMapping
  unfold SyncCall.mappable at h
  cases hinfo : call.elfInfo m with
  | none => rfl
  | some info =>
    rw [hinfo, Option.any_some] at h
    cases hva : info.fileOffsetToVirtualAddress m.fileOffset with
    | none => dsimp only; rw [hva]
    | some va =>
      rw [hva] at h
      cases h

lemma deliver_refCount (call : SyncCall ι) (m : RawMapping)
    (hlt : ∀ f, st.eim.refCount f + 1 < 2 ^ 64) :
    ∃ new, new.length ≤ 1 ∧ (st.deliver call m).mpAdd = st.mpAdd ++ new ∧
      ∀ f, (st.deliver call m).eim.refCount f = st.eim.refCount f + countFile f new := by
  rcases deliver_cases call st m with ⟨-, heq⟩ | ⟨-, o, -, -, heq⟩ | ⟨-, -, heq⟩
  · exact ⟨[], Nat.zero_le 1, by rw [heq, append_nil], fun f => by rw [heq]; rfl⟩
  · exact ⟨[], Nat.zero_le 1, by rw [heq, append_nil]; rfl, fun f => by rw [heq]; rfl⟩
  · have hcount := newFrameMapping_refCount call m hlt
    rw [heq]
    rcases addNew_cases call st m with ⟨hnone, hadd⟩ | ⟨fm, hsome, hadd⟩
    · rw [hnone] at hcount
      rw [hadd]
      exact ⟨[], Nat.zero_le 1, (append_nil _).symm, hcount⟩
    · rw [hsome] at hcount
      rw [hadd]
      exact ⟨[m.track fm], le_refl 1, rfl, hcount⟩

lemma collectFrom_refCount (call : SyncCall ι) (old : List Mapping) (eim : ManagerState ι)
    (seen : List RawMapping) (hlt : ∀ f, eim.refCount f + seen.length < 2 ^ 64) :
    (collectFrom call old eim seen).mpAdd.length ≤ seen.length ∧
      ∀ f, (collectFrom call old eim seen).eim.refCount f =
        eim.refCount f + countFile f (collectFrom call old eim seen).mpAdd := by
  induction seen using reverseRecOn with
  | nil => exact ⟨le_refl 0, fun f => rfl⟩
  | append_singleton seen m ih =>
    simp only [length_append, length_singleton] at hlt
    obtain ⟨hlen, hcount⟩ := ih fun f => by have := hlt f; omega
    have hone : ∀ f, (collectFrom call old eim seen).eim.refCount f + 1 < 2 ^ 64 := by
      intro f
      have hle : countFile f (collectFrom call old eim seen).mpAdd ≤
          (collectFrom call old eim seen).mpAdd.length := countP_le_length
      have := hlt f
      have := hcount f
      omega
    obtain ⟨new, hnew, hadd, hrefs⟩ := deliver_refCount call m hone
    rw [collectFrom_append, hadd, length_append, length_append, length_singleton]
    refine ⟨by omega, fun f => ?_⟩
    rw [hrefs f, hcount f, countFile_append]
    omega

open Table

lemma collectFrom_mpAdd_nil (eim : ManagerState ι) (hold : (old.map Mapping.vaddr).Nodup)
    {seen : List RawMapping} (hdistinct : ((seen.filter needed).map vaddr).Nodup)
    (hnew : ∀ m ∈ seen.filter needed, ¬ IsNew call old m) :
    (collectFrom call old eim seen).mpAdd = [] := by
  induction seen using reverseRecOn with
  | nil => rfl
  | append_singleton seen m ih =>
    rw [filter_append] at hdistinct hnew
    rw [map_append] at hdistinct
    have hih := ih hdistinct.of_append_left fun n hn => hnew n (mem_append_left _ hn)
    rw [collectFrom_append]
    rcases deliver_cases call (collectFrom call old eim seen) m with
      ⟨-, heq⟩ | ⟨-, o, -, -, heq⟩ | ⟨hneeded, hdiff, heq⟩
    · rw [heq, hih]
    · rw [heq]
      exact hih
    · rw [filter_cons_of_pos hneeded] at hdistinct hnew
      have hm := hnew m (mem_append_right _ mem_cons_self)
      have hmappable : call.mappable m = false := by
        by_contra hmap
        rw [Bool.not_eq_false] at hmap
        -- the mapping is tracked: no delivered one has used it, so it is still to be found
        refine hm ⟨hmap, fun o ho hsame => ?_⟩
        obtain ⟨kept, hcollected⟩ := collectFrom_collected call eim hold seen
        rcases mem_append.mp (hcollected.old_perm.subset ho) with hkept | hremove
        · have hmem : o ∈ (collectFrom call old eim seen).mappings :=
            hcollected.mappings_perm.symm.subset (mem_append_left _ hkept)
          have harea := hcollected.areas.subset (mem_map_of_mem hmem)
          obtain ⟨n, hn, hna⟩ := mem_map.mp harea
          have hv : n.vaddr = m.vaddr := (congrArg Prod.fst hna).trans hsame.1
          exact (nodup_append.mp hdistinct).2.2 n.vaddr (mem_map_of_mem hn) m.vaddr
            mem_cons_self hv
        · obtain ⟨e, he, heo⟩ := mem_map.mp hremove
          have hlookup := mem_entries_iff.mp he
          have hkey := hcollected.keys e.1 e.2 hlookup
          rw [heo] at hlookup hkey
          rw [← hkey, hsame.1] at hlookup
          rw [hdiff o hlookup] at hsame
          exact Bool.false_ne_true hsame.2
      rw [heq, Collector.addNew, newFrameMapping_not_mappable hmappable]
      exact hih

/-! ## Giving references back -/

lemma Mapping.Proper.prefixList_eq {m : Mapping} (h : m.Proper) :
    m.prefixList = .ok (Lpm.prefixes m.vaddr.toNat m.endAddr.toNat) :=
  calculatePrefixList_eq h

lemma processRemovedMappings_refCount (kernel : KernelOutcome) (now : Time) (pid : Pid)
    (h : ∀ m ∈ ms, m.Proper) (r : Removal ι) (f : FileID) :
    (processRemovedMappings kernel now pid ms r).eim.refCount f =
      r.eim.refCount f - countFile f ms := by
  induction ms generalizing r with
  | nil => rfl
  | cons m ms ih =>
    have hm := (h m mem_cons_self).prefixList_eq
    have hrest := ih (fun n hn => h n (mem_cons_of_mem m hn))
      (processRemovedMapping kernel now pid r m)
    have hstep : (processRemovedMapping kernel now pid r m).eim.refCount f =
        r.eim.refCount f - countFile f [m] := by
      rw [processRemovedMapping, hm]
      rw [decRef_refCount, countFile_singleton]
    have hcons : countFile f (m :: ms) = countFile f [m] + countFile f ms :=
      countFile_append f [m] ms
    rw [processRemovedMappings, foldl_cons, ← processRemovedMappings]
    omega

/-! ## What the operations do to the invariant -/

lemma State.RefsHeld.congr (h : s.RefsHeld) (hinfo : t.pidToProcessInfo = s.pidToProcessInfo)
    (hexit : t.exitEvents = s.exitEvents)
    (hcount : ∀ f, t.eim.refCount f = s.eim.refCount f) : t.RefsHeld := by
  refine ⟨fun f => ?_, ?_, ?_⟩
  · rw [hcount f, h.count f, tracked, tracked, hinfo, hexit]
  · rw [hinfo]
    exact h.distinct
  · rw [hinfo]
    exact h.proper

lemma refsHeld_new : (new : State ι).RefsHeld :=
  ⟨fun _ => rfl, fun _ _ h => (nomatch h), fun _ _ h => (nomatch h)⟩

lemma countFile_le_tracked (hinfo : s.pidToProcessInfo.lookup pid = some info)
    (hpid : pid ∉ s.exitEvents) (f : FileID) : countFile f info.mappings ≤ s.tracked f := by
  have hle := termAt_le_total
    (fun pid info => if pid ∈ s.exitEvents then 0 else countFile f info.mappings)
    s.pidToProcessInfo pid
  rwa [termAt_some hinfo, if_neg hpid] at hle

lemma State.RefsHeld.publish (h : s.RefsHeld) (hpid : pid ∉ s.exitEvents)
    (ht : t.pidToProcessInfo = s.pidToProcessInfo.insert pid ⟨ms⟩)
    (hexit : t.exitEvents = s.exitEvents) (hdistinct : (ms.map Mapping.vaddr).Nodup)
    (hproper : ∀ m ∈ ms, m.Proper)
    (hcount : ∀ f, t.eim.refCount f + countFile f (s.mappingsOf pid) =
      s.eim.refCount f + countFile f ms) :
    t.RefsHeld := by
  refine ⟨fun f => ?_,
    Each.insert (P := fun ms => (ms.map Mapping.vaddr).Nodup) h.distinct hdistinct ht,
    Each.insert (P := fun ms => ∀ m ∈ ms, m.Proper) h.proper hproper ht⟩
  have hinsert := total_insert_add
    (fun pid info => if pid ∈ s.exitEvents then 0 else countFile f info.mappings)
    s.pidToProcessInfo pid ⟨ms⟩
  have hterm : termAt (fun pid info => if pid ∈ s.exitEvents then 0 else countFile f info.mappings)
      s.pidToProcessInfo pid = countFile f (s.mappingsOf pid) := by
    unfold termAt mappingsOf
    cases s.pidToProcessInfo.lookup pid with
    | none => rfl
    | some i => exact if_neg hpid
  simp only [hterm, if_neg hpid] at hinsert
  have hs := h.count f
  have hf := hcount f
  rw [tracked] at hs ⊢
  rw [ht, hexit]
  omega

lemma getOrCreateProcessInfo_refsHeld
    {kernel : KernelOutcome} (h : s.RefsHeld) (hpid : pid ∉ s.exitEvents)
    (hget : getOrCreateProcessInfo kernel pid s = some (t, info)) :
    t.RefsHeld ∧ t.pidToProcessInfo.lookup pid = some info ∧ t.exitEvents = s.exitEvents ∧
      t.eim = s.eim ∧ s.mappingsOf pid = info.mappings := by
  unfold getOrCreateProcessInfo at hget
  unfold mappingsOf
  cases hinfo : s.pidToProcessInfo.lookup pid with
  | some i =>
    rw [hinfo] at hget
    cases hget
    exact ⟨h, hinfo, rfl, rfl, rfl⟩
  | none =>
    rw [hinfo] at hget
    dsimp only at hget
    split at hget
    · cases hget
    · cases hget
      refine ⟨h.publish hpid rfl rfl nodup_nil (fun m hm => nomatch hm) fun f => ?_,
        lookup_insert _, rfl, rfl, rfl⟩
      rw [mappingsOf, hinfo]
      rfl

lemma processPIDExit_refsHeld (kernel : KernelOutcome) (now : Time) (detach : List InterpreterOp)
    (pid : Pid) (h : s.RefsHeld) : (processPIDExit kernel now detach pid s).RefsHeld := by
  unfold processPIDExit
  cases hinfo : s.pidToProcessInfo.lookup pid with
  | none => exact h
  | some info =>
    dsimp only
    split
    · exact h
    next hpid =>
    refine ⟨fun f => ?_, h.distinct, h.proper⟩
    dsimp only [tracked]
    rw [processRemovedMappings_refCount kernel now pid (h.proper pid info hinfo)]
    have hs := h.count f
    rw [tracked] at hs
    have hdiff := total_add_termAt
      (f := fun p i => if p ∈ s.exitEvents then 0 else countFile f i.mappings)
      (g := fun p i => if p ∈ s.exitEvents.insert pid now then 0 else countFile f i.mappings)
      (k := pid) (fun p hp => by simp [mem_insert, hp]) s.pidToProcessInfo
    rw [termAt_some hinfo, termAt_some hinfo, if_neg hpid,
      if_pos (mem_insert _ |>.mpr (.inl rfl))] at hdiff
    dsimp only
    omega

lemma forgetProcess_refsHeld (detach : List InterpreterOp) (h : s.RefsHeld)
    (hpid : pid ∈ s.exitEvents) : (forgetProcess detach pid s).RefsHeld := by
  refine ⟨fun f => ?_,
    forgetProcess_each (P := fun ms => (ms.map Mapping.vaddr).Nodup) h.distinct _ pid,
    forgetProcess_each (P := fun ms => ∀ m ∈ ms, m.Proper) h.proper _ pid⟩
  have hs := h.count f
  rw [tracked] at hs
  have herase := total_erase_add
    (fun p i => if p ∈ s.exitEvents then 0 else countFile f i.mappings) s.pidToProcessInfo pid
  have hterm : termAt (fun p i => if p ∈ s.exitEvents then 0 else countFile f i.mappings)
      s.pidToProcessInfo pid = 0 := by
    unfold termAt
    cases s.pidToProcessInfo.lookup pid with
    | none => rfl
    | some i => exact if_pos hpid
  -- the exit events of the other processes are untouched
  have hothers : total
      (fun p i => if p ∈ s.exitEvents.erase pid then 0 else countFile f i.mappings)
      (s.pidToProcessInfo.erase pid) = total
      (fun p i => if p ∈ s.exitEvents then 0 else countFile f i.mappings)
      (s.pidToProcessInfo.erase pid) := by
    refine total_congr fun e he => ?_
    have hne : e.1 ≠ pid := by
      intro hep
      have hmem := mem_entries_iff.mp he
      rw [hep, lookup_erase] at hmem
      cases hmem
    simp [mem_erase, hne]
  show s.eim.refCount f = _
  rw [tracked, forgetProcess]
  dsimp only
  omega

/-! ## Synchronization -/

lemma Collected.published (h : Collected call old call.delivered st kept)
    (hold : ∀ m ∈ old, m.Proper) (hdistinct : (call.neededMappings.map vaddr).Nodup)
    (hnonempty : ∀ m ∈ call.neededMappings, m.vaddr.toNat < (m.vaddr + m.length).toNat) :
    (st.mappings.map Mapping.vaddr).Nodup ∧ ∀ m ∈ st.mappings, m.Proper := by
  refine ⟨?_, fun m hm => ?_⟩
  · have hsub := h.areas.map Prod.fst
    rw [map_map, map_map] at hsub
    exact hdistinct.sublist hsub
  · rcases mem_append.mp (h.mappings_perm.subset hm) with hkept | hadd
    · exact hold m (h.old_perm.symm.subset (mem_append_left _ hkept))
    · obtain ⟨n, hn, hna⟩ := mem_map.mp (h.areas.subset (mem_map_of_mem hm))
      have hv : n.vaddr = m.vaddr := congrArg Prod.fst hna
      have hl : n.length = m.length := congrArg Prod.snd hna
      obtain ⟨raw, -, htracks⟩ := h.added m hadd
      rw [Mapping.Proper, htracks.spans, ← hv, ← hl]
      exact hnonempty n hn

lemma finishSync_refsHeld (h : s.RefsHeld) (hinfo : s.pidToProcessInfo.lookup pid = some info)
    (hpid : pid ∉ s.exitEvents) (hst : Collected call info.mappings call.delivered st kept)
    (hcount : ∀ f, st.eim.refCount f = s.eim.refCount f + countFile f st.mpAdd)
    (hdistinct : (call.neededMappings.map vaddr).Nodup)
    (hnonempty : ∀ m ∈ call.neededMappings, m.vaddr.toNat < (m.vaddr + m.length).toNat) :
    (finishSync call pid st (afterCollect call pid st s)).RefsHeld := by
  obtain ⟨hnodup, hproper⟩ := hst.published (h.proper pid info hinfo) hdistinct hnonempty
  have hsort := perm_insertionSort (fun a b : Mapping => a.le b) st.mappings
  have hremoved : ∀ m ∈ st.mpRemove.entries.map (·.2), m.Proper := fun m hm =>
    h.proper pid info hinfo m (hst.old_perm.symm.subset (mem_append_right _ hm))
  refine h.publish hpid rfl rfl ((hsort.map _).nodup_iff.mpr hnodup)
    (fun m hm => hproper m (hsort.subset hm)) fun f => ?_
  have hold := countFile_perm f hst.old_perm
  have hnew := countFile_perm f (hsort.trans hst.mappings_perm)
  rw [countFile_append] at hold hnew
  -- the references of removed mappings are there to be given back
  have hle := countFile_le_tracked hinfo hpid f
  have hheld := h.count f
  have hcollected := hcount f
  dsimp only [finishSync]
  rw [mappingsOf, hinfo, Option.elim_some, processRemovedMappings_refCount _ _ _ hremoved]
  dsimp only
  omega

/-- Such a synchronization keeps the counts right, and one given up leaves them. -/
lemma synchronizeProcess_refsHeld (h : s.RefsHeld)
    (hcall : KeepsRefs s pid call) : (synchronizeProcess call pid s).RefsHeld ∧
      (call.result = some .permission ∨ call.result = some .noMappings →
        ∀ f, (synchronizeProcess call pid s).eim.refCount f = s.eim.refCount f) := by
  unfold synchronizeProcess
  split
  · exact ⟨h, fun _ _ => rfl⟩
  next hpid =>
  rcases hget : getOrCreateProcessInfo call.kernel pid s with _ | ⟨t, info⟩
  · exact ⟨h, fun _ _ => rfl⟩
  obtain ⟨ht, hinfo, hexit, heim, hold⟩ := getOrCreateProcessInfo_refsHeld h hpid hget
  have hpidt : pid ∉ t.exitEvents := by rwa [hexit]
  have hdistinct := ht.distinct pid info hinfo
  obtain ⟨kept, hst⟩ := collect_collected call t.eim hdistinct
  obtain ⟨-, hcount⟩ := collectFrom_refCount call info.mappings t.eim call.delivered
    (heim ▸ hcall.small)
  have hgivenUp : call.Fails → ∀ f,
      (afterCollect call pid (collect call info.mappings t.eim) t).eim.refCount f =
        t.eim.refCount f := by
    intro hfails f
    have hnil := collectFrom_mpAdd_nil t.eim hdistinct hcall.distinct fun m hm =>
      hold ▸ hcall.noNew hfails m hm
    have hf := hcount f
    rw [hnil] at hf
    exact hf
  have hafter : call.Fails →
      (afterCollect call pid (collect call info.mappings t.eim) t).RefsHeld :=
    fun hfails => ht.congr rfl rfl (hgivenUp hfails)
  have hfinish := finishSync_refsHeld ht hinfo hpidt hst hcount hcall.distinct hcall.nonempty
  unfold SyncCall.Fails at hgivenUp hafter
  dsimp only
  cases hresult : call.result with
  | none => exact ⟨hfinish, fun h => h.elim nofun nofun⟩
  | some e =>
    rw [hresult] at hgivenUp hafter
    cases e with
    | callbackStopped => exact ⟨hfinish, fun h => h.elim nofun nofun⟩
    | permission | noMappings =>
      exact ⟨hafter ⟨nofun, nofun⟩, fun _ f => (hgivenUp ⟨nofun, nofun⟩ f).trans (by rw [heim])⟩
    | notExist | other =>
      exact ⟨processPIDExit_refsHeld _ _ _ _ (hafter ⟨nofun, nofun⟩), fun h => h.elim nofun nofun⟩

lemma step_refsHeld {event : PmEvent ι} (h : s.RefsHeld)
    (hadm : RefsAdmissible s event) : (s.step event).RefsHeld := by
  cases event with
  | synchronizeProcess pid call => exact (synchronizeProcess_refsHeld h hadm).1
  | processPIDExit pid kernel now detach => exact processPIDExit_refsHeld kernel now detach pid h
  | processedUntil traceCaptureKTime detach =>
    exact processedUntil_preserves (fun _ pid => forgetProcess_refsHeld (detach pid))
      traceCaptureKTime h
  | interpreter pid ops => exact h.congr rfl rfl fun f => rfl
  | cleanupUnused outcome cutoff order =>
    exact h.congr rfl rfl fun f => cleanupUnused_refCount outcome cutoff order f s.eim

lemma RefsReachable.refsHeld (h : RefsReachable s) : s.RefsHeld := by
  induction h with
  | new => exact refsHeld_new
  | step _ event hadm ih => exact step_refsHeld ih hadm

/-- In every such run, the reference count of an executable is the number of its tracked mappings,
and a synchronization that is given up changes none. -/
theorem reachable_refCounts {s : State ι} (h : RefsReachable s) :
    (∀ f, s.eim.refCount f = s.tracked f) ∧
      ∀ pid call, KeepsRefs s pid call →
        call.result = some .permission ∨ call.result = some .noMappings →
        ∀ f, (synchronizeProcess call pid s).eim.refCount f = s.eim.refCount f :=
  ⟨h.refsHeld.count, fun _ _ hcall => (synchronizeProcess_refsHeld h.refsHeld hcall).2⟩

/-! ## A process that is read twice -/

def sampleRaw : RawMapping :=
  ⟨0x7f0000000000, 0x1000, 5, 0, 0x801, 1234, "/usr/lib/libc.so.6"⟩

/-- A file whose offsets are its addresses. -/
def sampleElf : ElfInfo := ⟨⟨7 <<< 64, "libc.so.6", "", ""⟩, some⟩

/-- The mapping that is tracked for its first page. -/
def samplePage : Mapping := sampleRaw.track (sampleRaw.frameMapping sampleElf.mappingFile 0)

/-- A synchronization that reads one executable mapping, and ends so. -/
def sampleSync (result : Option IterateError) : SyncCall Unit where
  delivered := [sampleRaw]
  result := result
  elfInfo := fun _ => some sampleElf
  add := fun _ => sampleAdd
  kernel := ⟨fun _ => none, fun _ => none⟩
  now := 1
  attach := []
  detach := []
  synchronize := []
  anonymousInterest := none

lemma keepsRefs_sampleSync {s : State Unit} {result : Option IterateError}
    (hsmall : ∀ f, s.eim.refCount f ≤ 1)
    (hnew : (sampleSync result).Fails → ¬ IsNew (sampleSync result) (s.mappingsOf pid) sampleRaw) :
    KeepsRefs s pid (sampleSync result) := by
  have hneeded : (sampleSync result).neededMappings = [sampleRaw] := by
    show [sampleRaw].filter needed = [sampleRaw]
    decide +kernel
  refine ⟨?_, ?_, fun f => ?_, fun hfails m hm => ?_⟩
  · rw [hneeded]
    exact nodup_singleton _
  · rw [hneeded]
    intro m hm
    rw [mem_singleton.mp hm]
    decide +kernel
  · have hlen : (sampleSync result).delivered.length = 1 := rfl
    have := hsmall f
    omega
  · rw [hneeded] at hm
    rw [mem_singleton.mp hm]
    exact hnew hfails

/-- A mapping that is tracked already when reading is denied. -/
theorem reachable_refCounts_twice :
    (new.run [.synchronizeProcess 42 (sampleSync none)]).eim.refCount 7 = 1 ∧
      (new.run [.synchronizeProcess 42 (sampleSync none),
        .synchronizeProcess 42 (sampleSync (some .permission))]).eim.refCount 7 =
      (new.run [.synchronizeProcess 42 (sampleSync none),
        .synchronizeProcess 42 (sampleSync (some .permission))]).tracked 7 := by
  refine ⟨by decide +kernel, (reachable_refCounts ?_).1 7⟩
  have hfirst : RefsAdmissible (new : State Unit)
      (.synchronizeProcess 42 (sampleSync none)) :=
    keepsRefs_sampleSync (fun f => Nat.zero_le 1) fun hfails => (hfails.1 rfl).elim
  have hreach := RefsReachable.step .new _ hfirst
  have hinfo : (new.step (.synchronizeProcess 42 (sampleSync none))).pidToProcessInfo =
      AList.insert 42 ⟨[sampleRaw.track (sampleRaw.frameMapping sampleElf.mappingFile 0)]⟩ ∅ :=
    AList.ext (by decide +kernel)
  have hexit : (new.step (.synchronizeProcess 42 (sampleSync none))).exitEvents = ∅ :=
    AList.ext (by decide +kernel)
  refine .step hreach (.synchronizeProcess 42 (sampleSync (some .permission))) ?_
  refine keepsRefs_sampleSync (fun f => ?_) fun _ hnew => ?_
  · rw [hreach.refsHeld.count f, tracked, hinfo]
    have hle : ∀ m : Mapping, countFile f [m] ≤ 1 := fun m => countP_le_length
    exact hle (sampleRaw.track (sampleRaw.frameMapping sampleElf.mappingFile 0))
  · exact hnew.2 (sampleRaw.track (sampleRaw.frameMapping sampleElf.mappingFile 0))
      (by decide +kernel) (by decide +kernel)

/-- A process exits while its mappings are read: a reference is never given back. -/
theorem run_leaks_interruptedRead :
    (new.run [.synchronizeProcess 42 (sampleSync (some .other))]).eim.refCount 7 = 1 ∧
    (new.run [.synchronizeProcess 42 (sampleSync (some .other))]).tracked 7 = 0 ∧
    (new.run [.synchronizeProcess 42 (sampleSync (some .other)),
      .processedUntil 5 fun _ => []]).eim.refCount 7 = 1 ∧
    (new.run [.synchronizeProcess 42 (sampleSync (some .permission))]).eim.refCount 7 = 1 ∧
    (new.run [.synchronizeProcess 42 (sampleSync (some .permission))]).tracked 7 = 0 := by
  decide +kernel

end EbpfProfiler.ProcessManager
