import EbpfProfiler.ProcessManager.PageEntries
import EbpfProfiler.ProcessManager.ReferenceCounts

/-!
# The page map and the tracked mappings

The native entries of a process are the dummy entry and the prefixes of its tracked mappings, as
long as interpreter instances stay away from these.
-/

namespace EbpfProfiler.ProcessManager

open List Function State
open ExecInfo Lib Lpm Reporter Wire

variable {kernel : KernelOutcome} {ops : List InterpreterOp} {ms : List Mapping} {m : Mapping}
  {pid : Pid} {p : Prefix} {A : ℕ → Prop}

variable {ι : Type}

/-! ## The condition -/

def Avoids (p : Prefix) (addresses : ℕ → Prop) : Prop := ∀ a, p.covers a = true → ¬ addresses a

def OpsAvoid (ops : List InterpreterOp) (addresses : ℕ → Prop) : Prop :=
  ∀ op ∈ ops, op.Foreign ∧ Avoids op.key addresses

/-- An address of a mapping with this start and length. -/
def InArea (area : Word × Word) (a : ℕ) : Prop := area.1.toNat ≤ a ∧ a < (area.1 + area.2).toNat

/-- `info.mappings` of a process that is known and has not exited. -/
def State.live (s : State ι) (pid : Pid) : Option (List Mapping) :=
  if pid ∈ s.exitEvents then none else (s.pidToProcessInfo.lookup pid).map ProcessInfo.mappings

/-- An address of a tracked mapping. -/
def State.Occupies (s : State ι) (pid : Pid) : ℕ → Prop := Occupied ((s.live pid).getD [])

/-- The eBPF operations succeed and biases can be encoded; mappings of files are disjoint pages; and
instances have entries outside of the tracked mappings. -/
structure KeepsPages (s : State ι) (pid : Pid) (call : SyncCall ι) : Prop where
  kernel : call.kernel.Ok
  bias : ∀ m ∈ call.neededMappings, ∀ n, call.Tracks m n → n.bias.toNat < 2 ^ 56
  disjoint : call.neededMappings.Pairwise fun m n => ∀ a, InArea m.area a → ¬ InArea n.area a
  nonempty : ∀ m ∈ call.neededMappings, m.vaddr.toNat < (m.vaddr + m.length).toNat
  pages : ∀ m ∈ call.neededMappings, 0x1000 ∣ m.length.toNat
  entries : ∀ p, ForeignAt s.pidPageToMappingInfo pid p →
    Avoids p ((synchronizeProcess call pid s).Occupies pid)
  attach : OpsAvoid call.attach fun a =>
    s.Occupies pid a ∨ (synchronizeProcess call pid s).Occupies pid a
  detach : OpsAvoid call.detach ((synchronizeProcess call pid s).Occupies pid)
  synchronize : OpsAvoid call.synchronize ((synchronizeProcess call pid s).Occupies pid)

/-- The condition on an event. -/
def PagesAdmissible (s : State ι) : PmEvent ι → Prop
  | .synchronizeProcess pid call => KeepsPages s pid call
  | .processPIDExit _ kernel _ detach => kernel.Ok ∧ OpsAvoid detach fun _ => False
  | .processedUntil _ detach => ∀ pid, OpsAvoid (detach pid) fun _ => False
  | .interpreter pid ops => OpsAvoid ops (s.Occupies pid)
  | .cleanupUnused _ _ _ => True

/-- The states of the runs whose events meet the condition. -/
inductive PagesReachable : State ι → Prop
  | new : PagesReachable new
  | step {s : State ι} (h : PagesReachable s) (event : PmEvent ι) (hadm : PagesAdmissible s event) :
      PagesReachable (s.step event)

/-! ## The invariant -/

def State.entries (s : State ι) (dummy : Pid → Word) : Entries := fun pid =>
  (s.live pid).elim (processEntries none []) (processEntries (some (dummy pid)))

/-- Where interpreter instances may have entries. -/
def State.foreign (s : State ι) (pid : Pid) (p : Prefix) : Prop :=
  p ≠ dummyPrefix ∧ Avoids p (s.Occupies pid)

/-- The map has its entries, the counter counts them, and mappings are apart. -/
structure State.PagesKept (s : State ι) : Prop where
  shows : ∃ dummy, Shows s.pidPageToMappingInfo (s.entries dummy) s.foreign
    s.pidPageToMappingInfoSize
  laid : ∀ pid ms, s.live pid = some ms → Laid ms

lemma not_processEntries_of_avoids (hlaid : Laid ms) (hdummy : p ≠ dummyPrefix)
    (hp : Avoids p (Occupied ms)) (dummy : Option Word) (v : PidPageMappingInfo) :
    ¬ processEntries dummy ms p v := by
  rintro (⟨hp', -⟩ | howned)
  · exact hdummy hp'
  · exact hp p.key (decide_eq_true rfl) (howned.occupied hlaid)

lemma Avoids.mono {B : ℕ → Prop} (h : Avoids p B) (hAB : ∀ a, A a → B a) : Avoids p A :=
  fun a ha hA => h a ha (hAB a hA)

variable {s t : State ι} {detach : List InterpreterOp} {call : SyncCall ι}

lemma entries_of_live (h : s.live pid = some ms) (dummy : Pid → Word) :
    s.entries dummy pid = processEntries (some (dummy pid)) ms := by
  rw [entries, h]
  rfl

lemma entries_of_not_live (h : s.live pid = none) (dummy : Pid → Word) :
    s.entries dummy pid = processEntries none [] := by
  rw [entries, h]
  rfl

lemma entries_eq_update (hothers : ∀ q, q ≠ pid → t.live q = s.live q) {dummy dummy' : Pid → Word}
    (hdummy : ∀ q, q ≠ pid → dummy' q = dummy q) :
    t.entries dummy' = Function.update (s.entries dummy) pid (t.entries dummy' pid) := by
  funext q
  by_cases hq : q = pid
  · rw [hq, update_self]
  · rw [update_of_ne hq, entries, entries, hothers q hq, hdummy q hq]

lemma pagesKept_new : (new : State ι).PagesKept := by
  refine ⟨⟨fun _ => 0, fun pid p v => ⟨fun h => (nomatch h.1), fun h => ?_⟩,
    fun pid p h => ?_, rfl⟩, fun pid ms h => (nomatch h)⟩
  · rcases h with ⟨-, d, hd, -⟩ | ⟨m, hm, -⟩
    · cases hd
    · cases hm
  · obtain ⟨v, hv, -⟩ := h
    cases hv

lemma not_processEntries_none (p : Prefix) (v : PidPageMappingInfo) :
    ¬ processEntries none [] p v := by
  rintro (⟨-, d, hd, -⟩ | ⟨m, hm, -⟩)
  · cases hd
  · cases hm

lemma not_entries (h : s.live pid = none) (dummy : Pid → Word) (p : Prefix)
    (v : PidPageMappingInfo) : ¬ s.entries dummy pid p v := by
  rw [entries_of_not_live h]
  exact not_processEntries_none p v

lemma occupies_of_live (h : s.live pid = some ms) : s.Occupies pid = Occupied ms := by
  rw [Occupies, h]
  rfl

lemma avoids_of_not_live (h : s.live pid = none) (p : Prefix) : Avoids p (s.Occupies pid) := by
  rw [Occupies, h]
  rintro a - ⟨m, hm, -⟩
  cases hm

lemma foreign_of_others {q : Pid} (hothers : ∀ q, q ≠ pid → t.live q = s.live q) (h : s.foreign q p)
    (hpid : q = pid → Avoids p (t.Occupies pid)) : t.foreign q p := by
  refine ⟨h.1, ?_⟩
  by_cases hq : q = pid
  · rw [hq]
    exact hpid hq
  · rw [Occupies, hothers q hq]
    exact h.2

lemma not_foreign_of_mem_prefixes (hlive : s.live pid = some ms) (hlaid : Laid ms) (hm : m ∈ ms)
    (hp : p ∈ m.prefixes) : ¬ s.foreign pid p := by
  rintro ⟨-, havoids⟩
  rw [occupies_of_live hlive] at havoids
  exact havoids p.key (decide_eq_true rfl) ⟨m, hm, (hlaid.mappable m hm).contains_key hp⟩

/-! ## Exit -/

/-- A process whose entries are gone, with foreign entries written only. -/
lemma State.PagesKept.gone (h : s.PagesKept) (pid : Pid)
    (hothers : ∀ q, q ≠ pid → t.live q = s.live q) (hlive : t.live pid = none) {dummy : Pid → Word}
    {map : PidPageMap} {n : ℕ}
    (hshows : Shows map
      (Function.update (s.entries dummy) pid (processEntries none [])) s.foreign n)
    (hops : OpsAvoid ops fun _ => False) (hmap : t.pidPageToMappingInfo = applyOps pid ops map)
    (hsize : t.pidPageToMappingInfoSize = n) : t.PagesKept := by
  refine ⟨⟨dummy, ?_⟩, fun q ms hq => ?_⟩
  · rw [hmap, hsize, entries_eq_update hothers fun _ _ => rfl, entries_of_not_live hlive]
    have hforeign : Shows map (update (s.entries dummy) pid (processEntries none []))
        t.foreign n := hshows.weaken fun q p _ hp =>
      foreign_of_others hothers hp fun _ => avoids_of_not_live hlive p
    refine hforeign.applyOps fun op hop => ⟨(hops op hop).1, fun w hw => ?_, ?_⟩
    · rw [update_self] at hw
      exact not_processEntries_none op.key w hw
    · exact ⟨(hops op hop).1.ne_dummy, avoids_of_not_live hlive op.key⟩
  · by_cases hqp : q = pid
    · rw [hqp, hlive] at hq
      cases hq
    · rw [hothers q hqp] at hq
      exact h.laid q ms hq

lemma live_of_lookup {info : ProcessInfo} (hpid : pid ∉ s.exitEvents)
    (hinfo : s.pidToProcessInfo.lookup pid = some info) : s.live pid = some info.mappings := by
  rw [live, if_neg hpid, hinfo]
  rfl

lemma processPIDExit_pagesKept (hk : kernel.Ok) (now : Time)
    (hdetach : OpsAvoid detach fun _ => False) (pid : Pid) (h : s.PagesKept) :
    (processPIDExit kernel now detach pid s).PagesKept := by
  unfold processPIDExit
  cases hinfo : s.pidToProcessInfo.lookup pid with
  | none => exact h
  | some info =>
    dsimp only
    split
    · exact h
    next hpid =>
    have hlive := live_of_lookup hpid hinfo
    have hlaid := h.laid pid info.mappings hlive
    obtain ⟨dummy, hshows⟩ := h.shows
    -- first the dummy entry goes, then those of the mappings
    obtain ⟨n₁, hdummy, hcount₁⟩ := hshows.deletePidPageMappingInfo hk pid
      [dummyPrefix] (fun p hp hforeign => hforeign.1 (mem_singleton.mp hp)) 0
    have hentries : Shows (deletePidPageMappingInfo kernel pid [dummyPrefix]
        s.pidPageToMappingInfo).2 (update (s.entries dummy) pid
          (processEntries none (info.mappings ++ []))) s.foreign n₁ := by
      refine hdummy.congr fun q p v => ?_
      rw [append_nil, update_apply_iff, mem_singleton]
      by_cases hq : q = pid
      · rw [hq, entries_of_live hlive]
        simp only [true_and, ne_eq, not_true_eq_false, false_and, or_false]
        constructor
        · rintro ⟨⟨hp, -⟩ | howned, hne⟩
          · exact (hne hp).elim
          · exact .inr howned
        · rintro (⟨-, d, hd, -⟩ | ⟨m, hm, hp, hv⟩)
          · cases hd
          · refine ⟨.inr ⟨m, hm, hp, hv⟩, ?_⟩
            rintro rfl
            exact (hlaid.mappable m hm).notDummy hp
      · simp [hq]
    obtain ⟨n₂, hgone, hcount₂⟩ := Shows.processRemovedMappings hk
      (r := ⟨(deletePidPageMappingInfo kernel pid [dummyPrefix] s.pidPageToMappingInfo).1,
        (deletePidPageMappingInfo kernel pid [dummyPrefix] s.pidPageToMappingInfo).2, s.eim⟩)
      (by rwa [append_nil]) hentries
      (fun m hm p hp => not_foreign_of_mem_prefixes hlive hlaid hm hp) now
    refine h.gone pid (fun q hq => ?_) ?_ hgone hdetach rfl ?_
    · simp [live, AList.mem_insert, hq]
    · simp [live]
    · dsimp only at hcount₂ ⊢
      have hfirst : (deletePidPageMappingInfo kernel pid [dummyPrefix]
        s.pidPageToMappingInfo).1 + n₁ = 0 + s.pidPageToMappingInfoSize := hcount₁
      omega

lemma forgetProcess_pagesKept (hdetach : OpsAvoid detach fun _ => False) (h : s.PagesKept)
    (hpid : pid ∈ s.exitEvents) : (forgetProcess detach pid s).PagesKept := by
  obtain ⟨dummy, hshows⟩ := h.shows
  have hlive : s.live pid = none := if_pos hpid
  rw [entries_eq_update (fun _ _ => rfl) fun _ _ => rfl, entries_of_not_live hlive] at hshows
  refine h.gone pid (fun q hq => ?_) ?_ hshows hdetach rfl rfl
  · simp [live, forgetProcess, AList.mem_erase, hq]
  · simp [live, forgetProcess]

/-! ## The mappings that are published -/

lemma Laid.nodup_vaddr (h : Laid ms) : (ms.map Mapping.vaddr).Nodup := by
  refine pairwise_map.mpr (h.apart.imp_of_mem fun {m n} hm hn hapart heq => ?_)
  refine hapart m.vaddr.toNat ⟨le_rfl, (h.mappable m hm).nonempty⟩ ?_
  rw [heq]
  exact ⟨le_rfl, (h.mappable n hn).nonempty⟩

lemma Mapping.Spans.contains_iff (h : m.Spans) {a : ℕ} : m.Contains a ↔ InArea m.area a := by
  rw [Mapping.Contains, h]
  rfl

lemma mappable_of_tracks (hcall : KeepsPages s pid call) {m : RawMapping}
    (hm : m ∈ call.neededMappings) {n : Mapping} (h : call.Tracks m n) : n.Mappable := by
  have hspans := h.spans
  obtain ⟨info, va, hinfo, hva, hn⟩ := h
  have hv : n.vaddr = m.vaddr := by rw [hn]; rfl
  have hend : n.endAddr = m.vaddr + m.length := by rw [hspans, hn]; rfl
  have hnonempty := hcall.nonempty m hm
  have hproper : n.vaddr.toNat < n.endAddr.toNat := by rwa [hv, hend]
  refine ⟨hspans, hproper, hcall.bias m hm n ⟨info, va, hinfo, hva, hn⟩, ?_⟩
  refine zero_notMem_prefixes hproper n.endAddr.isLt ?_
  obtain ⟨pages, hpages⟩ := hcall.pages m hm
  rw [hv, hend]
  rw [BitVec.toNat_add] at hnonempty ⊢
  omega

section Published

variable {s : State ι} {pid : Pid} {call : SyncCall ι} {old kept : List Mapping} {st : Collector ι}
  (hcall : KeepsPages s pid call) (hold : Laid old)
  (hst : Collected call old call.delivered st kept)
include hcall hold hst

lemma Collected.mappable (hm : m ∈ st.mappings) : m.Mappable := by
  rcases mem_append.mp (hst.mappings_perm.subset hm) with hkept | hadd
  · exact hold.mappable m (hst.old_perm.symm.subset (mem_append_left _ hkept))
  · obtain ⟨raw, hraw, htracks⟩ := hst.added m hadd
    exact mappable_of_tracks hcall hraw htracks

lemma Collected.laid : Laid st.mappings := by
  refine ⟨fun m hm => hst.mappable hcall hold hm, ?_⟩
  have hdelivered : (call.neededMappings.map RawMapping.area).Pairwise
      fun x y => ∀ a, InArea x a → ¬ InArea y a := pairwise_map.mpr hcall.disjoint
  have hareas := hdelivered.sublist hst.areas
  refine (pairwise_map.mp hareas).imp_of_mem fun {m n} hm hn hmn a hma hna => ?_
  exact hmn a ((hst.mappable hcall hold hm).spans.contains_iff.mp hma)
    ((hst.mappable hcall hold hn).spans.contains_iff.mp hna)

end Published

/-! ## Synchronization -/

def syncForeign (s : State ι) (pid : Pid) (addresses : ℕ → Prop) (q : Pid) (p : Prefix) : Prop :=
  p ≠ dummyPrefix ∧
    Avoids p (if q = pid then addresses else s.Occupies q)

lemma syncForeign_self : syncForeign s pid A pid p ↔ p ≠ dummyPrefix ∧ Avoids p A := by
  rw [syncForeign, if_pos rfl]

section Sync

variable {s : State ι} {pid : Pid} {dummy : Pid → Word} {d : Word} {ms : List Mapping}
  {A : ℕ → Prop} {map : PidPageMap} {n : ℕ}

lemma Shows.syncOps
    (h : Shows map (Function.update (s.entries dummy) pid (processEntries (some d) ms))
      (syncForeign s pid A) n)
    (hlaid : Laid ms) (hA : ∀ a, Occupied ms a → A a) (hops : OpsAvoid ops A) :
    Shows (ProcessManager.applyOps pid ops map)
      (Function.update (s.entries dummy) pid (processEntries (some d) ms))
      (syncForeign s pid A) n := by
  refine h.applyOps fun op hop => ?_
  obtain ⟨hforeign, havoids⟩ := hops op hop
  refine ⟨hforeign, fun w => ?_, syncForeign_self.mpr ⟨hforeign.ne_dummy, havoids⟩⟩
  rw [update_self]
  exact not_processEntries_of_avoids hlaid hforeign.ne_dummy (havoids.mono hA) (some d) w

lemma State.PagesKept.publish {t : State ι} (h : s.PagesKept)
    (hothers : ∀ q, q ≠ pid → t.live q = s.live q) (hlive : t.live pid = some ms)
    (hshows : Shows t.pidPageToMappingInfo
      (Function.update (s.entries dummy) pid (processEntries (some d) ms))
      (syncForeign s pid A) t.pidPageToMappingInfoSize)
    (hlaid : Laid ms) (hA : ∀ a, Occupied ms a → A a) : t.PagesKept := by
  refine ⟨⟨update dummy pid d, ?_⟩, fun q ns hq => ?_⟩
  · rw [entries_eq_update hothers fun _ hq => update_of_ne hq d dummy, entries_of_live hlive,
      update_self]
    refine hshows.weaken fun q p _ hp => ⟨hp.1, ?_⟩
    by_cases hqp : q = pid
    · subst hqp
      rw [occupies_of_live hlive]
      exact (syncForeign_self.mp hp).2.mono hA
    · have havoids := hp.2
      rwa [if_neg hqp, Occupies, ← hothers q hqp] at havoids
  · by_cases hqp : q = pid
    · rw [hqp, hlive] at hq
      cases hq
      exact hlaid
    · rw [hothers q hqp] at hq
      exact h.laid q ns hq

lemma Shows.updateInterest (hk : kernel.Ok)
    (h : Shows map (Function.update (s.entries dummy) pid (processEntries (some d) ms))
      (syncForeign s pid A) n)
    (hlaid : Laid ms) (interest : Option Bool) :
    ∃ d', Shows (updateInterest kernel pid interest map)
      (Function.update (s.entries dummy) pid (processEntries (some d') ms))
      (syncForeign s pid A) n := by
  cases interest with
  | none => exact ⟨d, h⟩
  | some enabled =>
    have hbias : (0 : Word).toNat < 2 ^ 56 := by decide
    refine ⟨if enabled then 1 else 0, ?_⟩
    rw [ProcessManager.updateInterest, updatePidPageMappingInfo_ok hk hbias]
    have hold : update (s.entries dummy) pid (processEntries (some d) ms) pid dummyPrefix
        (nativeInfo d 0) := by
      rw [update_self]
      exact .inl ⟨rfl, d, rfl, rfl⟩
    refine (h.replace (isNative_nativeInfo _ hbias) hold).congr fun q p v => ?_
    by_cases hq : q = pid
    · by_cases hp : p = dummyPrefix
      · have hnone : ¬ Owned ms dummyPrefix v := by
          rintro ⟨m, hm, hmem, -⟩
          exact (hlaid.mappable m hm).notDummy hmem
        simp [hq, hp, processEntries, hnone]
      · simp [hq, hp, processEntries]
    · simp [hq]

end Sync

lemma getOrCreateProcessInfo_pages (hk : kernel.Ok) (h : s.PagesKept) (hpid : pid ∉ s.exitEvents)
    (hA : ∀ p, ForeignAt s.pidPageToMappingInfo pid p → Avoids p A) :
    ∃ t info dummy d, getOrCreateProcessInfo kernel pid s = some (t, info) ∧
      t.exitEvents = s.exitEvents ∧ (∀ q, q ≠ pid → t.live q = s.live q) ∧
      t.pidToProcessInfo.lookup pid = some info ∧ info.mappings = (s.live pid).getD [] ∧
      Laid info.mappings ∧
      Shows t.pidPageToMappingInfo
        (Function.update (s.entries dummy) pid (processEntries (some d) info.mappings))
        (syncForeign s pid fun a => Occupied info.mappings a ∨ A a) t.pidPageToMappingInfoSize := by
  obtain ⟨dummy, hshows⟩ := h.shows
  have hforeign : Shows s.pidPageToMappingInfo (s.entries dummy)
      (syncForeign s pid fun a => s.Occupies pid a ∨ A a)
      s.pidPageToMappingInfoSize := by
    refine hshows.weaken fun q p hp hs => ⟨hs.1, ?_⟩
    by_cases hq : q = pid
    · subst hq
      rw [if_pos rfl]
      rintro a ha (hlive | hdelivered)
      · exact hs.2 a ha hlive
      · exact hA p hp a ha hdelivered
    · rw [if_neg hq]
      exact hs.2
  unfold getOrCreateProcessInfo
  cases hinfo : s.pidToProcessInfo.lookup pid with
  | some info =>
    have hlive := live_of_lookup hpid hinfo
    rw [occupies_of_live hlive] at hforeign
    refine ⟨s, info, dummy, dummy pid, rfl, rfl, fun _ _ => rfl, hinfo, by rw [hlive]; rfl,
      h.laid pid _ hlive, ?_⟩
    rw [← entries_of_live hlive, update_eq_self]
    exact hforeign
  | none =>
    have hbias : (0 : Word).toNat < 2 ^ 56 := by decide
    have hlive : s.live pid = none := by rw [live, if_neg hpid, hinfo]; rfl
    rw [Occupies, hlive] at hforeign
    rw [updatePidPageMappingInfo_ok hk hbias]
    refine ⟨_, ⟨[]⟩, dummy, 0, rfl, rfl, fun q hq => ?_, AList.lookup_insert _, by rw [hlive]; rfl,
      laid_nil, ?_⟩
    · simp [live, AList.lookup_insert_ne hq]
    · refine (hforeign.insert (isNative_nativeInfo 0 hbias) (not_entries hlive dummy _)).congr
        fun q p v => ?_
      by_cases hq : q = pid
      · simp [hq, not_entries hlive, processEntries, Owned]
      · simp [hq]

/-- At the end of a synchronization, entries go and come with the mappings. -/
lemma finishSync_shows (hcall : KeepsPages s pid call) {old kept : List Mapping} {st : Collector ι}
    {dummy : Pid → Word} {d : Word} (hold : Laid old)
    (hst : Collected call old call.delivered st kept) (hA : ∀ a, Occupied st.mappings a → A a)
    (hdetachA : OpsAvoid call.detach A) (hsyncA : OpsAvoid call.synchronize A)
    (hshows : Shows t.pidPageToMappingInfo
      (Function.update (s.entries dummy) pid (processEntries (some d) old))
      (syncForeign s pid fun a => Occupied old a ∨ A a) t.pidPageToMappingInfoSize) :
    ∃ d', Shows (finishSync call pid st t).pidPageToMappingInfo
      (Function.update (s.entries dummy) pid (processEntries (some d') st.mappings))
      (syncForeign s pid A) (finishSync call pid st t).pidPageToMappingInfoSize := by
  have hperm := hst.old_perm.trans perm_append_comm
  have hadded := hst.mappings_perm.trans perm_append_comm
  have hlaid := hst.laid hcall hold
  have hkept : Laid kept := hold.perm hst.old_perm |>.sublist (sublist_append_left _ _)
  have hkeptA : ∀ a, Occupied kept a → A a := by
    rintro a ⟨m, hm, hma⟩
    exact hA a ⟨m, hst.mappings_perm.symm.subset (mem_append_left _ hm), hma⟩
  -- the mappings that are gone
  rw [processEntries_perm hperm] at hshows
  obtain ⟨n₁, hremoved, hcount₁⟩ := Shows.processRemovedMappings hcall.kernel (hold.perm hperm)
    (r := ⟨0, t.pidPageToMappingInfo, st.eim⟩) hshows
    (fun m hm p hp hforeign => by
      have hmem : m ∈ old := hst.old_perm.symm.subset (mem_append_right _ hm)
      exact (syncForeign_self.mp hforeign).2 p.key (decide_eq_true rfl)
        (.inl ⟨m, hmem, (hold.mappable m hmem).contains_key hp⟩)) call.now
  have hdelivered := hremoved.weaken (G := syncForeign s pid A) fun q p _ hp => by
    refine ⟨hp.1, ?_⟩
    by_cases hq : q = pid
    · subst hq
      rw [if_pos rfl]
      exact (syncForeign_self.mp hp).2.mono fun a => .inr
    · have havoids := hp.2
      rwa [if_neg hq] at havoids ⊢
  -- instances that are detached, and the interest in anonymous mappings
  have hdetach := hdelivered.syncOps hkept hkeptA hdetachA
  obtain ⟨d', hinterest⟩ := hdetach.updateInterest hcall.kernel hkept call.anonymousInterest
  -- the new mappings
  obtain ⟨n₂, hnew, hcount₂⟩ :=
    hinterest.processNewMappings hcall.kernel (hlaid.perm hadded) 0
  rw [← processEntries_perm hadded] at hnew
  have hsync := hnew.syncOps hlaid hA hsyncA
  have hsize : (finishSync call pid st t).pidPageToMappingInfoSize = n₂ := by
    dsimp only [finishSync] at hcount₁ hcount₂ ⊢
    omega
  rw [hsize]
  exact ⟨d', hsync⟩

lemma synchronizeProcess_pagesKept (h : s.PagesKept)
    (hcall : KeepsPages s pid call) : (synchronizeProcess call pid s).PagesKept := by
  by_cases hpid : pid ∈ s.exitEvents
  · rwa [synchronizeProcess, if_pos hpid]
  obtain ⟨t, info, dummy, d, hget, hexit, hothers, hinfo, hlivePid, hold, hshows⟩ :=
    getOrCreateProcessInfo_pages hcall.kernel h hpid hcall.entries
  have hattachOps := hcall.attach
  rw [Occupies, ← hlivePid] at hattachOps
  have hattach := hshows.syncOps hold (fun a => .inl) hattachOps
  obtain ⟨kept, hst⟩ := collect_collected call t.eim hold.nodup_vaddr
  have hpidt : pid ∉ t.exitEvents := by rwa [hexit]
  have hafter : (afterCollect call pid (collect call info.mappings t.eim) t).PagesKept :=
    h.publish hothers (live_of_lookup hpidt hinfo) hattach hold fun a => .inl
  have hfinish (hsynced : synchronizeProcess call pid s =
      finishSync call pid (collect call info.mappings t.eim)
        (afterCollect call pid (collect call info.mappings t.eim) t)) :
      (synchronizeProcess call pid s).PagesKept := by
    have hsort := perm_insertionSort (fun a b : Mapping => a.le b)
      (collect call info.mappings t.eim).mappings
    have hlive := live_of_lookup (s := synchronizeProcess call pid s) (by rwa [hsynced])
      (by rw [hsynced]; exact AList.lookup_insert _)
    have hA : ∀ a, Occupied (collect call info.mappings t.eim).mappings a →
        (synchronizeProcess call pid s).Occupies pid a := by
      rw [occupies_of_live hlive]
      rintro a ⟨m, hm, hma⟩
      exact ⟨m, hsort.symm.subset hm, hma⟩
    obtain ⟨d', hshows'⟩ := finishSync_shows
      (t := afterCollect call pid (collect call info.mappings t.eim) t) hcall hold hst hA
      hcall.detach hcall.synchronize hattach
    rw [← processEntries_perm hsort, ← hsynced] at hshows'
    refine h.publish (fun q hq => ?_) hlive hshows'
      ((hst.laid hcall hold).perm hsort.symm) fun a ha => ?_
    · rw [hsynced, ← hothers q hq]
      show (if q ∈ t.exitEvents then none else ((t.pidToProcessInfo.insert pid _).lookup q).map _) =
        _
      rw [AList.lookup_insert_ne hq]
      rfl
    · rwa [occupies_of_live hlive]
  have hexits : (processPIDExit call.kernel call.now call.detach pid
      (afterCollect call pid (collect call info.mappings t.eim) t)).PagesKept := by
    refine processPIDExit_pagesKept hcall.kernel call.now (fun op hop => ?_) pid hafter
    exact ⟨(hcall.detach op hop).1, (hcall.detach op hop).2.mono fun _ => False.elim⟩
  have hsynced := synchronizeProcess.eq_def call pid s
  rw [if_neg hpid, hget] at hsynced
  dsimp only at hsynced
  split at hsynced
  · exact hfinish hsynced
  · exact hfinish hsynced
  · rwa [hsynced]
  · rwa [hsynced]
  · rwa [hsynced]
  · rwa [hsynced]

lemma interpreter_pagesKept (h : s.PagesKept) (hops : OpsAvoid ops (s.Occupies pid)) :
    ({ s with pidPageToMappingInfo := applyOps pid ops s.pidPageToMappingInfo } :
      State ι).PagesKept := by
  obtain ⟨dummy, hshows⟩ := h.shows
  refine ⟨⟨dummy, hshows.applyOps fun op hop => ?_⟩, h.laid⟩
  obtain ⟨hforeign, havoids⟩ := hops op hop
  refine ⟨hforeign, fun w => ?_, hforeign.ne_dummy, havoids⟩
  cases hlive : s.live pid with
  | none =>
    exact not_entries hlive dummy op.key w
  | some ms =>
    rw [occupies_of_live hlive] at havoids
    rw [entries_of_live hlive]
    exact not_processEntries_of_avoids (h.laid pid ms hlive) hforeign.ne_dummy havoids _ w

lemma step_pagesKept {event : PmEvent ι} (h : s.PagesKept)
    (hadm : PagesAdmissible s event) : (s.step event).PagesKept := by
  cases event with
  | synchronizeProcess pid call => exact synchronizeProcess_pagesKept h hadm
  | processPIDExit pid kernel now detach => exact processPIDExit_pagesKept hadm.1 now hadm.2 pid h
  | processedUntil traceCaptureKTime detach =>
    exact processedUntil_preserves (fun _ pid => forgetProcess_pagesKept (hadm pid))
      traceCaptureKTime h
  | interpreter pid ops => exact interpreter_pagesKept h hadm
  | cleanupUnused outcome cutoff order => exact ⟨h.shows, h.laid⟩

lemma PagesReachable.pagesKept (h : PagesReachable s) : s.PagesKept := by
  induction h with
  | new => exact pagesKept_new
  | step _ event hadm ih => exact step_pagesKept ih hadm

lemma State.PagesKept.nativeAt (h : s.PagesKept) (pid : Pid) :
    ∃ dummy, (dummy.isSome ↔ (s.live pid).isSome) ∧ ∀ p v,
      NativeAt s.pidPageToMappingInfo pid p v ↔
        processEntries dummy ((s.live pid).getD []) p v := by
  obtain ⟨dummy, hshows⟩ := h.shows
  cases hlive : s.live pid with
  | none =>
    refine ⟨none, Iff.rfl, fun p v => (hshows.native pid p v).trans ?_⟩
    rw [entries, hlive]
    rfl
  | some ms =>
    refine ⟨some (dummy pid), Iff.rfl, fun p v => (hshows.native pid p v).trans ?_⟩
    rw [entries_of_live hlive]
    rfl

lemma State.PagesKept.laid_live (h : s.PagesKept) (pid : Pid) : Laid ((s.live pid).getD []) := by
  cases hlive : s.live pid with
  | none => exact laid_nil
  | some ms => exact h.laid pid ms hlive

/-- In every such run, the native entries of a process are the dummy entry and the prefixes of its
tracked mappings; a lookup finds the file and bias of the mapping with the address, and no native
entry if there is none; and the counter counts the native entries. -/
theorem reachable_pageEntries {s : State ι} (h : PagesReachable s) :
    (∀ pid p, (∃ v, NativeAt s.pidPageToMappingInfo pid p v) ↔
      ∃ ms, s.live pid = some ms ∧
        (p = dummyPrefix ∨ ∃ m ∈ ms, ∃ ps, m.prefixList = .ok ps ∧ p ∈ ps)) ∧
    (∀ pid ms m a, s.live pid = some ms → m ∈ ms → m.Contains a → 0x1000 ≤ a →
      (∀ n ∈ ms, n.Contains a → n = m) ∧
      ∃ v, s.pidPageToMappingInfo.lookupPage pid a = some v ∧ v.isNative = true ∧
        v.fileID = m.fileID ∧ v.bias = m.bias) ∧
    (∀ pid a, ¬ Occupied ((s.live pid).getD []) a → 0x1000 ≤ a →
      ∀ v, s.pidPageToMappingInfo.lookupPage pid a = some v → v.isNative = false) ∧
    s.pidPageToMappingInfoSize = nativeCount s.pidPageToMappingInfo := by
  have hkept := h.pagesKept
  refine ⟨fun pid p => ?_, fun pid ms m a hlive hm hma ha => ?_, fun pid a hma ha v hv => ?_, ?_⟩
  · obtain ⟨dummy, hsome, hnative⟩ := hkept.nativeAt pid
    simp only [hnative]
    cases hlive : s.live pid with
    | none =>
      rw [hlive] at hsome
      obtain rfl : dummy = none := Option.not_isSome_iff_eq_none.mp fun hd => by
        cases hsome.mp hd
      constructor
      · rintro ⟨v, hv⟩
        exact (not_processEntries_none p v hv).elim
      · rintro ⟨ms, hms, -⟩
        cases hms
    | some ms =>
      have hlaid := hkept.laid pid ms hlive
      rw [hlive] at hsome
      obtain ⟨d, rfl⟩ := Option.isSome_iff_exists.mp (hsome.mpr rfl)
      constructor
      · rintro ⟨v, ⟨hp, -⟩ | ⟨m, hm, hp, -⟩⟩
        · exact ⟨ms, rfl, .inl hp⟩
        · exact ⟨ms, rfl, .inr ⟨m, hm, m.prefixes, (hlaid.mappable m hm).prefixList_eq, hp⟩⟩
      · rintro ⟨ns, hns, hp | ⟨m, hm, ps, hps, hp⟩⟩
        · exact ⟨nativeInfo d 0, .inl ⟨hp, d, rfl, rfl⟩⟩
        · cases hns
          rw [(hlaid.mappable m hm).prefixList_eq] at hps
          cases hps
          exact ⟨m.info, .inr ⟨m, hm, hp, rfl⟩⟩
  · have hlaid := hkept.laid pid ms hlive
    obtain ⟨dummy, -, hnative⟩ := hkept.nativeAt pid
    obtain ⟨fileIDs, hshows⟩ := hkept.shows
    rw [hlive] at hnative
    refine ⟨fun n hn hna => hlaid.eq_of_contains hn hm hna hma, m.info, ?_, ?_, rfl, ?_⟩
    · refine lookupPage_of_contains hlaid hnative ha (fun p hp => ?_) hm hma
      have havoids := (hshows.foreign pid p hp).2
      rw [occupies_of_live hlive] at havoids
      exact Bool.eq_false_of_not_eq_true fun hcovers => havoids a hcovers ⟨m, hm, hma⟩
    · exact (hlaid.mappable m hm).isNative_info
    · exact bias_nativeInfo m.fileID (hlaid.mappable m hm).bias
  · obtain ⟨dummy, -, hnative⟩ := hkept.nativeAt pid
    exact lookupPage_of_not_occupied (hkept.laid_live pid) hnative ha hma hv
  · obtain ⟨dummy, hshows⟩ := hkept.shows
    exact hshows.count.symm

/-! ## A process with a .NET image -/

/-- An image with compiled code: an executable mapping of a file that is not ELF. -/
def imageRaw : RawMapping :=
  { sampleRaw with vaddr := 0x7f1000000000, inode := 1235, path := "/app/App.dll" }

/-- The area of one page that the .NET instance registers for the image. -/
def imagePage : Prefix := ⟨0x7f1000000000, 52⟩

/-- `codeReadyToRun`, with the start of the image and `support.ProgUnwindDotnet`. -/
def imageInfo : PidPageMappingInfo := ⟨15, 0x7f1000000000 ||| 8#64 <<< 56⟩

/-- A synchronization in which the instance finds the image. -/
def imageSync : SyncCall Unit :=
  { sampleSync none with
    delivered := [sampleRaw, imageRaw]
    elfInfo := fun m => if m.inode = imageRaw.inode then none else some sampleElf
    synchronize := [.update imagePage imageInfo] }

lemma keepsPages_imageSync : KeepsPages new 42 imageSync := by
  have hneeded : imageSync.neededMappings = [sampleRaw, imageRaw] := by decide +kernel
  have hlive : (synchronizeProcess imageSync 42 new).live 42 = some [samplePage] := by
    decide +kernel
  refine ⟨⟨fun _ => rfl, fun _ => rfl⟩, ?_, ?_, ?_, ?_, ?_, ?_, ?_, ?_⟩
  case refine_5 =>
    rintro p ⟨v, hv, -⟩
    cases hv
  case refine_6 => exact fun op hop => (nomatch hop)
  case refine_7 => exact fun op hop => (nomatch hop)
  case refine_8 =>
    intro op hop
    rw [mem_singleton.mp hop, occupies_of_live hlive]
    refine ⟨⟨by decide, by decide⟩, ?_⟩
    rintro a hcovers ⟨m, hm, -, hhi⟩
    rw [mem_singleton.mp hm] at hhi
    have hend : samplePage.endAddr.toNat = 0x7f0000001000 := by decide +kernel
    have hpage : a / 2 ^ 12 = 0x7f1000000000 / 2 ^ 12 := of_decide_eq_true hcovers
    omega
  all_goals rw [hneeded]
  · rintro m hm n ⟨info, va, hinfo, hva, rfl⟩
    rcases mem_pair.mp hm with rfl | rfl
    · cases hinfo
      cases hva
      decide +kernel
    · cases hinfo
  · rw [pairwise_pair]
    rintro a ⟨-, hhi⟩ ⟨hlo, -⟩
    have hend : (sampleRaw.area.1 + sampleRaw.area.2).toNat = 0x7f0000001000 := by decide +kernel
    have hstart : imageRaw.area.1.toNat = 0x7f1000000000 := by decide +kernel
    omega
  all_goals
    intro m hm
    rcases mem_pair.mp hm with rfl | rfl
    all_goals decide +kernel

/-- File and bias of an address of the library, next to the instance's entry. -/
theorem reachable_pageEntries_image :
    ∃ v, (new.run [.synchronizeProcess 42 imageSync]).pidPageToMappingInfo.lookupPage 42
        0x7f0000000123 = some v ∧
      v.isNative = true ∧ v.fileID = 7 ∧ v.bias = 0x7f0000000000 := by
  have hreach : PagesReachable (new.run [.synchronizeProcess 42 imageSync]) :=
    .step .new (.synchronizeProcess 42 imageSync) keepsPages_imageSync
  obtain ⟨-, v, hv⟩ := (reachable_pageEntries hreach).2.1 42 [samplePage] samplePage
    0x7f0000000123 (by decide +kernel) mem_cons_self (by decide +kernel) (by decide)
  exact ⟨v, hv⟩

/-! ## A process with a JIT area -/

/-- The area of one page that the V8 instance registers. -/
def jitPage : Prefix := ⟨0x7f1000000000, 52⟩

/-- `support.ProgUnwindV8`, with no file and no bias. -/
def jitInfo : PidPageMappingInfo := ⟨0, 7#64 <<< 56⟩

/-- A synchronization in which the instance finds its area. -/
def jitSync : SyncCall Unit :=
  { sampleSync none with synchronize := [.update jitPage jitInfo] }

/-- A file is mapped over the area, and the instance gives it up. -/
def remapSync : SyncCall Unit :=
  { sampleSync none with
    delivered := [sampleRaw, { sampleRaw with vaddr := 0x7f1000000000, inode := 1235 }]
    synchronize := [.delete jitPage] }

/-- An instance's entry is found outside of the mappings and not counted; a file mapped over it is
tracked without an entry. -/
theorem run_pageEntries_jit :
    (new.run [.synchronizeProcess 42 jitSync]).pidPageToMappingInfo.lookup (42, jitPage) =
      some jitInfo ∧
    (new.run [.synchronizeProcess 42 jitSync]).pidPageToMappingInfo.lookupPage 42
      0x7f1000000123 = some jitInfo ∧
    (new.run [.synchronizeProcess 42 jitSync]).live 42 = some [samplePage] ∧
    (new.run [.synchronizeProcess 42 jitSync]).pidPageToMappingInfoSize = 2 ∧
    (new.run [.synchronizeProcess 42 jitSync]).pidPageToMappingInfo.entries.length = 3 ∧
    ((new.run [.synchronizeProcess 42 jitSync,
      .synchronizeProcess 42 remapSync]).live 42).map (List.map Mapping.vaddr) =
        some [0x7f0000000000, 0x7f1000000000] ∧
    (new.run [.synchronizeProcess 42 jitSync,
      .synchronizeProcess 42 remapSync]).pidPageToMappingInfo.lookupPage 42 0x7f1000000123 =
        none := by
  decide +kernel

end EbpfProfiler.ProcessManager
