import EbpfProfiler.Interpreter.DotnetRanges
import Mathlib.Data.Set.Insert

/-!
# JIT areas at the end of a process

Every step keeps `Tracks`: the record of prefixes is the set of live ones.
-/

namespace EbpfProfiler.Interpreter

open Lib Lpm ProcessManager List Comp AList
open Wire (Word)

variable {ops : List InterpreterOp} {pid : Pid} {p : Prefix} {ι : Type}

/-! ## Live prefixes -/

def liveStep (s : Set Prefix) : InterpreterOp → Set Prefix
  | .update p _ => insert p s
  | .delete p => s \ {p}

/-- The prefixes that were updated and not deleted afterwards. -/
def live (ops : List InterpreterOp) : Set Prefix := ops.foldl liveStep ∅

lemma live_update (ops : List InterpreterOp) (p : Prefix) (v : PidPageMappingInfo) :
    live (ops ++ [.update p v]) = insert p (live ops) := by
  rw [live, foldl_append]
  rfl

lemma live_delete (ops : List InterpreterOp) (p : Prefix) :
    live (ops ++ [.delete p]) = live ops \ {p} := by
  rw [live, foldl_append]
  rfl

/-- The instance registered the prefix at some point. -/
def Inserted (ops : List InterpreterOp) (p : Prefix) : Prop := ∃ v, .update p v ∈ ops

variable {op : InterpreterOp} {f : DotnetInstance → DotnetInstance}

lemma inserted_append_of_key_ne (h : op.key ≠ p) : Inserted (ops ++ [op]) p ↔ Inserted ops p := by
  constructor
  · rintro ⟨v, hv⟩
    rw [mem_append, mem_singleton] at hv
    rcases hv with hv | rfl
    · exact ⟨v, hv⟩
    · exact absurd rfl h
  · rintro ⟨v, hv⟩
    exact ⟨v, mem_append_left _ hv⟩

/-- Nothing that the instance inserted is left in the map. -/
def NothingLeft (pid : Pid) (ops : List InterpreterOp) (t : PidPageMap) : Prop :=
  ∀ p, Inserted ops p → (pid, p) ∉ applyOps pid ops t

lemma applyOps_append (pid : Pid) (ops : List InterpreterOp) (op : InterpreterOp) (t : PidPageMap) :
    applyOps pid (ops ++ [op]) t = op.apply pid (applyOps pid ops t) := by
  rw [applyOps, foldl_append]
  rfl

lemma mem_apply_of_key_ne (t : PidPageMap) (h : op.key ≠ p) :
    (pid, p) ∈ op.apply pid t ↔ (pid, p) ∈ t := by
  have hne : (pid, p) ≠ (pid, op.key) := fun he => h (congrArg Prod.snd he).symm
  cases op with
  | update q v =>
    dsimp only [InterpreterOp.apply]
    split
    · rfl
    · rw [mem_insert]
      exact or_iff_right hne
  | delete q =>
    unfold InterpreterOp.apply
    rw [mem_erase]
    exact and_iff_right hne

lemma mem_applyOps_iff (t : PidPageMap) (h : Inserted ops p) :
    (pid, p) ∈ applyOps pid ops t ↔ p ∈ live ops := by
  induction ops using reverseRecOn with
  | nil =>
    obtain ⟨v, hv⟩ := h
    cases hv
  | append_singleton ops op ih =>
    rw [applyOps_append]
    by_cases hkey : op.key = p
    · cases op with
      | update q v =>
        obtain rfl : q = p := hkey
        rw [live_update]
        refine iff_of_true ?_ (Set.mem_insert q _)
        dsimp only [InterpreterOp.apply]
        split
        · assumption
        · exact mem_insert _ |>.2 (.inl rfl)
      | delete q =>
        obtain rfl : q = p := hkey
        rw [live_delete]
        refine iff_of_false ?_ fun hmem => hmem.2 rfl
        unfold InterpreterOp.apply
        rw [mem_erase]
        exact fun hmem => hmem.1 rfl
    · rw [mem_apply_of_key_ne _ hkey, ih ((inserted_append_of_key_ne hkey).1 h)]
      have hne : p ≠ op.key := fun he => hkey he.symm
      cases op with
      | update q v =>
        rw [live_update]
        exact (Set.mem_insert_iff.trans (or_iff_right hne)).symm
      | delete q =>
        rw [live_delete]
        exact ⟨fun hmem => ⟨hmem, hne⟩, fun hmem => hmem.1⟩

lemma inserted_of_live (h : p ∈ live ops) : Inserted ops p := by
  induction ops using reverseRecOn with
  | nil => exact absurd h (Set.notMem_empty p)
  | append_singleton ops op ih =>
    cases op with
    | update q v =>
      rw [live_update] at h
      rcases Set.mem_insert_iff.1 h with rfl | h
      · exact ⟨v, by simp⟩
      · obtain ⟨w, hw⟩ := ih h
        exact ⟨w, mem_append_left _ hw⟩
    | delete q =>
      rw [live_delete] at h
      obtain ⟨w, hw⟩ := ih h.1
      exact ⟨w, mem_append_left _ hw⟩

lemma nothingLeft_iff (t : PidPageMap) : NothingLeft pid ops t ↔ live ops = ∅ := by
  rw [Set.eq_empty_iff_forall_notMem]
  constructor
  · intro h p hp
    have hins := inserted_of_live hp
    exact h p hins ((mem_applyOps_iff t hins).2 hp)
  · intro h p hins hmem
    exact h p ((mem_applyOps_iff t hins).1 hmem)

/-! ## Steps of the handler -/

section Handler

variable {ι : Type} {s : Tracked ι}

lemma encode_zero (program : BitVec 8) :
    ∃ value, encodeBiasAndUnwindProgram 0 program = .ok value := by
  exact ⟨_, if_neg (by decide)⟩

lemma exec_update_zero (p : Prefix) (program : BitVec 8) (fileID : Word) :
    ∃ v, exec (updatePidInterpreterMapping p program fileID 0) s =
      (.ok (), { s with ops := s.ops ++ [.update p v] }) := by
  obtain ⟨value, hvalue⟩ := encode_zero program
  refine ⟨⟨fileID, value⟩, ?_⟩
  unfold updatePidInterpreterMapping
  rw [hvalue]
  rfl

lemma exec_delete (p : Prefix) : Comp.exec (deletePidInterpreterMapping p) s =
      (.ok (), { s with ops := s.ops ++ [.delete p] }) := rfl

lemma exec_each_delete (ps : List Prefix) (s : Tracked ι) :
    exec (each deletePidInterpreterMapping ps) s =
      (.ok (), { s with ops := s.ops ++ ps.map .delete }) := by
  induction ps generalizing s with
  | nil => rw [map_nil, append_nil]; rfl
  | cons p ps ih =>
    rw [each, exec_bind_of_ok (exec_delete p), ih, map_cons]
    simp only [append_assoc, singleton_append]

lemma live_deletes (ops : List InterpreterOp) (ps : List Prefix) :
    live (ops ++ ps.map .delete) = live ops \ {p | p ∈ ps} := by
  induction ps generalizing ops with
  | nil => simp
  | cons p ps ih =>
    rw [map_cons, append_cons, ih, live_delete]
    ext q
    simp only [Set.mem_sdiff, Set.mem_singleton_iff, Set.mem_ofPred_eq, mem_cons, not_or, and_assoc]

end Handler

/-! ## Instances with a record -/

/-- The record of an instance is the set of its live prefixes. -/
def Tracks {ι : Type} (recorded : ι → Set Prefix) (s : Tracked ι) : Prop :=
  live s.ops = recorded s.inst

section Record

variable {α ρ : Type}

/-- The prefixes with a tag. -/
def Registered.recorded (i : Registered α ρ) : Set Prefix := {p | p ∈ i.prefixes}

lemma recorded_record (p : Prefix) (tag : α) (i : Registered α ρ) :
    (i.record p tag).recorded = insert p i.recorded := by
  ext q
  exact mem_insert _

lemma recorded_forget (p : Prefix) (i : Registered α ρ) :
    (i.forget p).recorded = i.recorded \ {p} := by
  ext q
  refine (mem_erase (s := i.prefixes)).trans ?_
  exact and_comm

lemma keeps_modifyInst {recorded : ι → Set Prefix} {f : ι → ι}
    (h : ∀ i, recorded (f i) = recorded i) : Keeps (Tracks recorded) (modifyInst f) := by
  intro s hs
  exact Eq.trans hs (h s.inst).symm

variable {s : Tracked (Registered α ρ)} {f : Registered α ρ → Registered α ρ}

lemma Tracks.record (h : Tracks Registered.recorded s) (p : Prefix) (v : PidPageMappingInfo)
    (tag : α) : Tracks Registered.recorded
      { s with ops := s.ops ++ [.update p v], inst := s.inst.record p tag } := by
  show live (s.ops ++ [.update p v]) = (s.inst.record p tag).recorded
  rw [live_update, recorded_record, h]

lemma Tracks.forget (h : Tracks Registered.recorded s) (p : Prefix) : Tracks Registered.recorded
      { s with ops := s.ops ++ [.delete p], inst := s.inst.forget p } := by
  show live (s.ops ++ [.delete p]) = (s.inst.forget p).recorded
  rw [live_delete, recorded_forget, h]

abbrev KeepsRecord {β : Type} (x : Comp (Tracked (Registered α ρ)) β) : Prop :=
  Keeps (Tracks Registered.recorded) x

lemma keeps_registerPrefix (program : BitVec 8) (tag : α) (p : Prefix) :
    KeepsRecord (registerPrefix (ρ := ρ) program tag p) := by
  intro s hs
  unfold registerPrefix
  rw [exec_get_bind]
  by_cases hp : p ∈ s.inst.prefixes
  · rw [if_neg (not_not_intro hp)]
    -- only the tag changes
    show live s.ops = (s.inst.record p tag).recorded
    rw [recorded_record, Set.insert_eq_of_mem (show p ∈ s.inst.recorded from hp)]
    exact hs
  · rw [if_pos hp]
    obtain ⟨v, hv⟩ := @exec_update_zero _ s p program 0
    rw [exec_bind_of_ok hv]
    exact hs.record p v tag

lemma keeps_prunePrefixes (stale : α → Bool) : KeepsRecord (prunePrefixes (ρ := ρ) stale) := by
  refine keeps_get_bind fun s _ => Comp.Keeps.each (fun e => ?_) _
  intro t ht
  by_cases hstale : stale e.2 = true
  · rw [if_pos hstale]
    exact ht.forget e.1
  · rw [if_neg hstale]
    exact ht

lemma live_deleteRecorded (h : Tracks Registered.recorded s) :
    live (exec deleteRecorded s).2.ops = ∅ := by
  have hexec : exec deleteRecorded s =
      exec (each deletePidInterpreterMapping s.inst.prefixes.keys) s := rfl
  rw [hexec, exec_each_delete, live_deletes, h]
  exact Set.sdiff_self

lemma keeps_modifyOwn (h : ∀ i, (f i).prefixes = i.prefixes) : KeepsRecord (modifyInst f) :=
  keeps_modifyInst fun i => by rw [Registered.recorded, h i]; rfl

lemma keeps_own_bind {x : Comp (Tracked (Registered α ρ)) Unit}
    (h : ∀ i, (f i).prefixes = i.prefixes) (hx : KeepsRecord x) :
    KeepsRecord (modifyInst f >>= fun _ => x) :=
  (keeps_modifyOwn h).bind fun _ => hx

lemma keeps_registerPrefixes (program : BitVec 8) (tag : α) (ps : List Prefix) :
    KeepsRecord
      (each (registerPrefix (ρ := ρ) program tag) ps) :=
  Comp.Keeps.each (keeps_registerPrefix program tag) ps

end Record

lemma keeps_v8Mapping (m : RawMapping) : KeepsRecord (v8Mapping m) := by
  unfold v8Mapping
  split
  · refine keeps_get_bind fun s _ => ?_
    dsimp only
    split
    · exact keeps_modifyOwn fun _ => rfl
    · refine keeps_own_bind (fun _ => rfl) ?_
      split
      · exact keeps_error _
      · exact keeps_registerPrefixes _ _ _
  · exact keeps_pure _

variable (mappings : List RawMapping)

lemma keeps_v8Synchronize : KeepsRecord (v8Synchronize mappings) := by
  refine keeps_own_bind (fun _ => rfl) ?_
  refine (Comp.Keeps.each keeps_v8Mapping mappings).bind fun _ => ?_
  refine keeps_get_bind fun s _ => ?_
  exact (keeps_prunePrefixes _).bind fun _ => keeps_modifyOwn fun _ => rfl

lemma keeps_beamMapping (m : RawMapping) : KeepsRecord (beamMapping m) := by
  unfold beamMapping
  split
  · refine keeps_get_bind fun s _ => ?_
    split
    · exact keeps_error _
    · exact keeps_registerPrefixes _ _ _
  · exact keeps_pure _

lemma keeps_beamSynchronize : KeepsRecord (beamSynchronize mappings) := by
  refine keeps_own_bind (fun _ => rfl) ?_
  refine (Comp.Keeps.each keeps_beamMapping mappings).bind fun _ => ?_
  exact keeps_get_bind fun s _ => keeps_prunePrefixes _

lemma keeps_rubyRegister (jitStart jitEnd : Word) (ps : List Prefix) :
    KeepsRecord (rubyRegister jitStart jitEnd ps) := by
  refine keeps_own_bind (fun _ => rfl) ?_
  refine keeps_get_bind fun s _ => ?_
  exact (keeps_registerPrefixes _ _ _).bind fun _ => keeps_prunePrefixes _

lemma keeps_rubySynchronize : KeepsRecord (rubySynchronize mappings) := by
  refine keeps_own_bind (fun _ => rfl) ?_
  split
  · exact keeps_rubyRegister _ _ _
  · exact ((keeps_lift _).wrapError _).bind fun _ => keeps_rubyRegister _ _ _

lemma keeps_addJitPrefix (pid : Pid) (area : JitArea) (p : Prefix) :
    KeepsRecord (addJitPrefix pid area p) := by
  intro s hs
  unfold addJitPrefix
  rw [exec_get_bind]
  by_cases hp : p ∈ s.inst.prefixes
  · rw [if_neg (not_not_intro hp)]
    exact hs
  · rw [if_pos hp]
    unfold updatePidInterpreterMapping
    cases encodeBiasAndUnwindProgram area.codeStart progUnwindHotspot with
    | error err => exact hs
    | ok value => exact hs.record p _ ()

lemma keeps_addJitArea (pid : Pid) (area : JitArea) : KeepsRecord (addJitArea pid area) := by
  unfold addJitArea
  split
  · exact keeps_error _
  · exact Comp.Keeps.each (keeps_addJitPrefix pid area) _

section
variable (pid : Pid) (call : HotspotCall)

lemma keeps_populateMainMappings : KeepsRecord (populateMainMappings pid call) := by
  have hheap (r : HeapRange) : KeepsRecord (addHeap pid r) :=
    (keeps_addJitArea pid r.area).bind fun _ => keeps_modifyOwn fun _ => rfl
  refine keeps_get_bind fun s _ => ?_
  split
  · exact keeps_pure _
  · split
    · exact keeps_error _
    · exact keeps_pure _
    · exact keeps_pure _
    · exact (Comp.Keeps.each hheap _).bind fun _ => keeps_modifyOwn fun _ => rfl

lemma keeps_updateStub (stub : StubRoutine) : KeepsRecord (updateStub pid call stub) := by
  refine keeps_get_bind fun s _ => ?_
  split
  · exact keeps_pure _
  · refine keeps_own_bind (fun _ => rfl) ?_
    split
    · split
      · exact keeps_pure _
      · split
        · exact keeps_pure _
        · exact (keeps_addJitArea pid _).attempt.bind fun _ => keeps_pure _
    · exact keeps_pure _

lemma keeps_syncStubMappings : KeepsRecord (syncStubMappings pid call) := by
  refine keeps_get_bind fun s _ => ?_
  split
  · exact keeps_own_bind (fun _ => rfl) (Comp.Keeps.each (keeps_updateStub pid call) _)
  · exact keeps_pure _

end

lemma keeps_markFrameSeen : KeepsRecord markFrameSeen := by
  refine keeps_modifyOwn fun i => ?_
  split <;> rfl

lemma keeps_hotspotSynchronize (pid : Pid) (call : HotspotCall) :
    KeepsRecord (hotspotSynchronize pid call) := by
  unfold hotspotSynchronize
  split
  · exact keeps_error _
  · exact keeps_error _
  · refine (keeps_populateMainMappings pid call).bind fun _ => ?_
    refine keeps_get_bind fun s _ => ?_
    split
    · exact keeps_syncStubMappings pid call
    · exact keeps_pure _

lemma keeps_symbolizeFrames (call : HotspotCall) : KeepsRecord (symbolizeFrames call) := by
  unfold symbolizeFrames
  split
  · exact keeps_markFrameSeen
  · exact keeps_pure _

/-! ## PHP opcache -/

def OpcacheInstance.recorded (i : OpcacheInstance) : Set Prefix := {p | p ∈ i.prefixes.getD []}

lemma exec_each_update (program : BitVec 8) (ps : List Prefix) (s : Tracked ι) :
    ∃ ops, exec (each (fun p => updatePidInterpreterMapping p program 0 0) ps) s =
        (.ok (), { s with ops := ops }) ∧ live ops = live s.ops ∪ {p | p ∈ ps} := by
  induction ps generalizing s with
  | nil => exact ⟨s.ops, rfl, by simp⟩
  | cons p ps ih =>
    obtain ⟨v, hv⟩ := @exec_update_zero _ s p program 0
    obtain ⟨ops, hexec, hlive⟩ := ih { s with ops := s.ops ++ [.update p v] }
    refine ⟨ops, ?_, ?_⟩
    · rw [each, exec_bind_of_ok hv, hexec]
    · rw [hlive, live_update]
      ext q
      simp only [Set.mem_union, Set.mem_insert_iff, Set.mem_ofPred_eq, mem_cons]
      tauto

lemma keeps_opcacheSynchronize (dasmBuf dasmSize : Word) :
    Keeps (Tracks OpcacheInstance.recorded) (opcacheSynchronize dasmBuf dasmSize) := by
  intro s hs
  unfold opcacheSynchronize
  rw [exec_get_bind]
  split
  · next hattach =>
    cases hps : calculatePrefixList dasmBuf.toNat (dasmBuf + dasmSize).toNat with
    | error e => exact hs
    | ok ps =>
      -- the slice is recorded first, and then each of its prefixes is registered
      obtain ⟨ops, hexec, hlive⟩ :=
        exec_each_update progUnwindPHP ps { s with inst := OpcacheInstance.mk (some ps) }
      have hempty : live s.ops = ∅ := by
        rw [hs, OpcacheInstance.recorded, hattach.1]
        simp
      have hrun : exec (do
          let ps ← (lift (.ok ps) : Comp (Tracked OpcacheInstance) (List Prefix))
          modifyInst fun _ => ⟨some ps⟩
          each (fun p => updatePidInterpreterMapping p progUnwindPHP 0 0) ps) s =
          exec (each (fun p => updatePidInterpreterMapping p progUnwindPHP 0 0) ps)
            { s with inst := OpcacheInstance.mk (some ps) } := rfl
      rw [hrun, hexec]
      show live ops = _
      rw [hlive, hempty, Set.empty_union]
      rfl
  · exact hs

lemma live_opcacheDetach {s : Tracked OpcacheInstance} (h : Tracks OpcacheInstance.recorded s) :
    live (exec opcacheDetach s).2.ops = ∅ := by
  have hexec : exec opcacheDetach s =
      exec (each deletePidInterpreterMapping (s.inst.prefixes.getD [])) s := rfl
  rw [hexec, exec_each_delete, live_deletes, h]
  exact Set.sdiff_self

/-! ## .NET -/

/-- The instance called the handler at least once. -/
def Touched {ι : Type} (s : Tracked ι) : Prop := s.ops ≠ [] ∨ s.failures ≠ []

/-- Only updates, and none of them without a range that is recorded. -/
structure RangesTracked (s : Tracked DotnetInstance) : Prop where
  updates : ∀ op ∈ s.ops, ∃ p v, op = .update p v
  touched : Touched s ↔ ∃ a, a ∈ s.inst.ranges

lemma live_updates (h : ∀ op ∈ ops, ∃ p v, op = .update p v) : live ops = ∅ ↔ ops = [] := by
  constructor
  · intro hlive
    rcases eq_nil_or_concat ops with hnil | ⟨init, op, rfl⟩
    · exact hnil
    · obtain ⟨p, v, rfl⟩ := h op (by simp)
      rw [concat_eq_append, live_update] at hlive
      exact absurd hlive (Set.insert_nonempty p _).ne_empty
  · rintro rfl
    rfl

lemma exec_tryUpdate (p : Prefix) (program : BitVec 8) (fileID bias : Word) (s : Tracked ι) :
    ∃ t, exec (do
        let _ ← Comp.attempt (updatePidInterpreterMapping p program fileID bias)
        pure ()) s = (.ok (), t) ∧ t.inst = s.inst ∧ Touched t ∧
      ((∀ op ∈ s.ops, ∃ p v, op = .update p v) → ∀ op ∈ t.ops, ∃ p v, op = .update p v) := by
  unfold updatePidInterpreterMapping
  cases encodeBiasAndUnwindProgram bias program with
  | error err =>
    exact ⟨{ s with failures := s.failures ++ [err] }, rfl, rfl, .inr (by simp), fun h => h⟩
  | ok value =>
    refine ⟨{ s with ops := s.ops ++ [.update p ⟨fileID, value⟩] }, rfl, rfl, .inl (by simp), ?_⟩
    intro h op hop
    rcases mem_append.1 hop with hop | hop
    · exact h op hop
    · exact ⟨p, _, mem_singleton.1 hop⟩

lemma exec_tryUpdates (program : BitVec 8) (fileID bias : Word) (ps : List Prefix) (s : Tracked ι) :
    ∃ t, exec (each (fun p => do
        let _ ← Comp.attempt (updatePidInterpreterMapping p program fileID bias)
        pure ()) ps) s = (.ok (), t) ∧ t.inst = s.inst ∧ (ps ≠ [] → Touched t) ∧
      ((∀ op ∈ s.ops, ∃ p v, op = .update p v) → ∀ op ∈ t.ops, ∃ p v, op = .update p v) := by
  induction ps generalizing s with
  | nil => exact ⟨s, rfl, rfl, fun h => absurd rfl h, fun h => h⟩
  | cons p ps ih =>
    obtain ⟨t, hexec, hinst, htouched, hupdates⟩ := exec_tryUpdate p program fileID bias s
    obtain ⟨u, hexec', hinst', htouched', hupdates'⟩ := ih t
    refine ⟨u, ?_, hinst'.trans hinst, fun _ => ?_, fun h => hupdates' (hupdates h)⟩
    · rw [each, exec_bind_of_ok hexec, hexec']
    · by_cases hps : ps = []
      · subst hps
        cases hexec'
        exact htouched
      · exact htouched' hps

lemma calculatePrefixList_ne_nil {start «end» : ℕ} {ps : List Prefix}
    (h : calculatePrefixList start «end» = .ok ps) : ps ≠ [] := by
  by_cases hlt : start < «end»
  · rw [calculatePrefixList_eq hlt] at h
    obtain ⟨n, hn⟩ : ∃ n, «end» - start = n + 1 := ⟨«end» - start - 1, by omega⟩
    rw [← Except.ok.inj h, prefixes, hn, prefixesFrom, if_pos hlt]
    exact cons_ne_nil _ _
  · rw [calculatePrefixList, if_pos (not_lt.1 hlt)] at h
    cases h

lemma keeps_addRange (cdac : DotnetCdac) (low high base kind : Word) :
    Keeps RangesTracked (addRange cdac low high base kind) := by
  intro s hs
  unfold addRange
  cases hps : calculatePrefixList low.toNat high.toNat with
  | error e => exact hs
  | ok ps =>
    obtain ⟨t, hexec, hinst, htouched, hupdates⟩ := exec_tryUpdates cdac.unwinder
      (if kind ∈ leafStubs then kind ||| codeFlagLeaf else kind) base ps
      { s with inst := { s.inst with ranges := s.inst.ranges.insert low ps } }
    have hrun : (exec (do
        modifyInst fun i => { i with ranges := i.ranges.insert low ps }
        each (fun p => do
          let _ ← attempt (updatePidInterpreterMapping p cdac.unwinder
            (if kind ∈ leafStubs then kind ||| codeFlagLeaf else kind) base)
          pure ()) ps) s).2 = t := congrArg Prod.snd hexec
    show RangesTracked (exec _ s).2
    rw [hrun]
    refine ⟨hupdates hs.updates, iff_of_true (htouched (calculatePrefixList_ne_nil hps)) ⟨low, ?_⟩⟩
    rw [hinst]
    exact mem_insert _ |>.2 (.inl rfl)

lemma keeps_modifyWalk (h : ∀ i, (f i).ranges = i.ranges) :
    Keeps RangesTracked (modifyInst f) := by
  intro s hs
  refine ⟨hs.updates, hs.touched.trans ?_⟩
  show _ ↔ ∃ a, a ∈ (f s.inst).ranges
  rw [h]

lemma keeps_walk_bind {α : Type} {x : Comp (Tracked DotnetInstance) α}
    (h : ∀ i, (f i).ranges = i.ranges) (hx : Keeps RangesTracked x) :
    Keeps RangesTracked (modifyInst f >>= fun _ => x) :=
  (keeps_modifyWalk h).bind fun _ => hx

lemma keeps_markSeen (a : Word) : Keeps RangesTracked (markSeen a) := by
  refine keeps_get_bind fun s _ => ?_
  split
  · exact keeps_pure _
  · split
    · exact keeps_error _
    · exact keeps_walk_bind (fun _ => rfl) (keeps_pure _)

lemma keeps_walkBlock (cdac : DotnetCdac) (codeType : ℕ) (block : List Byte) (indices : List ℕ) :
    Keeps RangesTracked (walkBlock cdac codeType block indices) := by
  induction indices with
  | nil => exact keeps_pure _
  | cons index rest ih =>
    unfold walkBlock
    dsimp only
    split
    · exact keeps_pure _
    · refine keeps_get_bind fun s _ => ?_
      split
      · exact (keeps_addRange _ _ _ _ _).bind fun _ => ih
      · exact ih

section
variable (cdac : DotnetCdac) (rm : RemoteMemory)
include cdac rm

lemma keeps_walkBlocks (codeType fuel : ℕ) (ptr : Word) :
    Keeps RangesTracked (walkBlocks cdac rm codeType fuel ptr) := by
  induction fuel generalizing ptr with
  | zero => exact keeps_hang
  | succ fuel ih =>
    unfold walkBlocks
    split
    · exact keeps_pure _
    · refine (keeps_markSeen ptr).bind fun fresh => ?_
      split
      · split
        · exact keeps_pure _
        · refine (keeps_walkBlock _ _ _ _).bind fun goOn => ?_
          split
          · exact ih _
          · exact keeps_pure _
      · exact keeps_pure _

lemma keeps_walkRangeList (l : Word × ℕ) :
    Keeps RangesTracked (walkRangeList cdac rm l.1 l.2) :=
  keeps_walk_bind (fun _ => rfl)
    ((keeps_walkBlocks cdac rm l.2 _ _).attempt.bind fun _ => keeps_pure _)

lemma keeps_addHeapOrModule (mappings : List DotnetMapping) (rangeSection : List Byte)
    (low high : Word) (flags : BitVec 32) :
    Keeps RangesTracked (addHeapOrModule cdac rm mappings rangeSection low high flags) := by
  unfold addHeapOrModule
  dsimp only
  split
  · split
    · exact keeps_error _
    · exact keeps_addRange _ _ _ _ _
  · split
    · exact keeps_addRange _ _ _ _ _
    · exact keeps_pure _

lemma keeps_addRangeSection (rangeSection : List Byte) :
    Keeps RangesTracked (addRangeSection cdac rm rangeSection) := by
  refine keeps_get_bind fun s _ => ?_
  split
  · exact keeps_pure _
  · split
    · exact (keeps_addRange _ _ _ _ _).bind fun _ => keeps_addHeapOrModule _ _ _ _ _ _ _
    · exact keeps_addHeapOrModule _ _ _ _ _ _ _

lemma keeps_walkSections (fuel : ℕ) (ptr : Word) :
    Keeps RangesTracked (walkSections cdac rm fuel ptr) := by
  induction fuel generalizing ptr with
  | zero => exact keeps_hang
  | succ fuel ih =>
    unfold walkSections
    split
    · exact keeps_pure _
    · refine (keeps_markSeen ptr).bind fun fresh => ?_
      split
      · split
        · exact keeps_error _
        · exact (keeps_addRangeSection _ _ _).bind fun _ => ih _
      · exact keeps_pure _

lemma keeps_walkFragments (fuel : ℕ) (ptr : Word) :
    Keeps RangesTracked (walkRangeSectionMapFragments cdac rm fuel ptr) := by
  induction fuel generalizing ptr with
  | zero => exact keeps_hang
  | succ fuel ih =>
    unfold walkRangeSectionMapFragments
    split
    · exact keeps_pure _
    · refine (keeps_markSeen ptr).bind fun fresh => ?_
      split
      · split
        · exact keeps_error _
        · refine (keeps_markSeen _).bind fun freshSection => ?_
          split
          · split
            · exact keeps_error _
            · exact (keeps_addRangeSection _ _ _).bind fun _ => ih _
          · exact ih _
      · exact keeps_pure _

lemma keeps_walkLevel (below : ℕ) (ptr : Word) :
    Keeps RangesTracked (walkRangeSectionMapLevel cdac rm below ptr) := by
  induction below generalizing ptr with
  | zero =>
    unfold walkRangeSectionMapLevel
    split
    · exact keeps_error _
    · refine Comp.Keeps.each (fun index => ?_) _
      dsimp only
      split
      · exact keeps_pure _
      · exact keeps_walkFragments _ _ _ _
  | succ below ih =>
    unfold walkRangeSectionMapLevel
    split
    · exact keeps_error _
    · refine Comp.Keeps.each (fun index => ?_) _
      dsimp only
      split
      · exact keeps_pure _
      · refine (keeps_markSeen _).bind fun fresh => ?_
        split
        · exact ih _
        · exact keeps_pure _

end

section
variable (data : DotnetData) (cdac : DotnetCdac) (rm : RemoteMemory)
include data cdac rm

lemma keeps_walkRangeSections : Keeps RangesTracked (walkRangeSections data cdac rm) := by
  unfold walkRangeSections
  split
  · exact keeps_walk_bind (fun _ => rfl)
      (keeps_get_bind fun s _ => keeps_walkSections cdac rm _ _)
  · exact keeps_walk_bind (fun _ => rfl)
      (keeps_get_bind fun s _ => keeps_walkLevel cdac rm _ _)

lemma keeps_walkVirtualCalls (n : ℕ)
    (ptr : Word) : Keeps RangesTracked (walkVirtualCalls data cdac rm n ptr) := by
  induction n generalizing ptr with
  | zero => exact keeps_pure _
  | succ n ih =>
    unfold walkVirtualCalls
    split
    · exact keeps_pure _
    · exact (Comp.Keeps.each (keeps_walkRangeList cdac rm) _).bind fun _ => ih _

lemma keeps_walkRanges : Keeps RangesTracked (walkRanges data cdac rm) := by
  refine (keeps_walkRangeSections data cdac rm).attempt.bind fun _ => ?_
  refine keeps_get_bind fun s _ => ?_
  refine (Comp.Keeps.each (keeps_walkRangeList cdac rm) _).bind fun _ => ?_
  split
  · exact keeps_walkVirtualCalls data cdac rm _ _
  · exact keeps_pure _

end

lemma keeps_dotnetSynchronize (data : DotnetData) (call : DotnetCall) :
    Keeps RangesTracked (dotnetSynchronize data call) := by
  unfold dotnetSynchronize
  split
  · exact keeps_error _
  · next cdac _ =>
    refine keeps_get_bind fun s _ => ?_
    generalize (if s.inst.codeRangeListPtr = 0 then _ else s.inst.codeRangeListPtr) = listPtr
    refine keeps_walk_bind (fun _ => rfl) ?_
    split
    · exact keeps_pure _
    · refine keeps_walk_bind (fun _ => rfl) ?_
      split
      · exact keeps_error _
      · exact keeps_walk_bind (fun _ => rfl) (keeps_walkRanges data cdac _)

/-! ## Runs -/

/-- The interpreters that register areas. -/
inductive JitInterpreter
  | v8
  | hotspot
  | ruby
  | opcache
  | beam
  | dotnet (data : DotnetData)

namespace JitInterpreter

def Inst : JitInterpreter → Type
  | v8 => V8Instance
  | hotspot => HotspotInstance
  | ruby => RubyInstance
  | opcache => OpcacheInstance
  | beam => BeamInstance
  | dotnet _ => DotnetInstance

/-- What a call of `SynchronizeMappings` depends on. -/
def Call : JitInterpreter → Type
  | v8 => List RawMapping
  | hotspot => HotspotCall
  | ruby => List RawMapping
  | opcache => Word × Word
  | beam => List RawMapping
  | dotnet _ => DotnetCall

def new : (k : JitInterpreter) → k.Inst
  | v8 => V8Instance.new
  | hotspot => HotspotInstance.new
  | ruby => RubyInstance.new
  | opcache => OpcacheInstance.mk none
  | beam => BeamInstance.new
  | dotnet _ => DotnetInstance.new

def synchronize (pid : Pid) : (k : JitInterpreter) → k.Call → Comp (Tracked k.Inst) Unit
  | v8, mappings => v8Synchronize mappings
  | hotspot, call => symbolizeFrames call >>= fun _ => hotspotSynchronize pid call
  | ruby, mappings => rubySynchronize mappings
  | opcache, buffer => opcacheSynchronize buffer.1 buffer.2
  | beam, mappings => beamSynchronize mappings
  | dotnet data, call => dotnetSynchronize data call

def detach : (k : JitInterpreter) → Comp (Tracked k.Inst) Unit
  | v8 => (deleteRecorded : Comp (Tracked V8Instance) Unit)
  | hotspot => (deleteRecorded : Comp (Tracked HotspotInstance) Unit)
  | ruby => (deleteRecorded : Comp (Tracked RubyInstance) Unit)
  | opcache => opcacheDetach
  | beam => beamDetach
  | dotnet _ => dotnetDetach

def run (pid : Pid) (k : JitInterpreter) (calls : List k.Call) : Tracked k.Inst :=
  calls.foldl (fun s call => (Comp.exec (k.synchronize pid call) s).2) ⟨k.new, [], []⟩

def detached (pid : Pid) (k : JitInterpreter) (calls : List k.Call) : Tracked k.Inst :=
  (Comp.exec k.detach (k.run pid calls)).2

/-- The instances whose `Detach` deletes nothing have no prefixes or ranges. -/
def NothingRecorded : (k : JitInterpreter) → k.Inst → Prop
  | v8, _ => True
  | hotspot, _ => True
  | ruby, _ => True
  | opcache, _ => True
  | beam, i => ∀ p, p ∉ (show BeamInstance from i).prefixes
  | dotnet _, i => ∀ a, a ∉ (show DotnetInstance from i).ranges

/-- What the record of an instance says about the map. -/
def Consistent : (k : JitInterpreter) → Tracked k.Inst → Prop
  | v8, s => Tracks (ι := V8Instance) Registered.recorded s
  | hotspot, s => Tracks (ι := HotspotInstance) Registered.recorded s
  | ruby, s => Tracks (ι := RubyInstance) Registered.recorded s
  | opcache, s => Tracks OpcacheInstance.recorded s
  | beam, s => Tracks (ι := BeamInstance) Registered.recorded s
  | dotnet _, s => RangesTracked s

lemma keeps_synchronize (pid : Pid) (k : JitInterpreter) (call : k.Call) :
    Keeps k.Consistent (k.synchronize pid call) := by
  cases k with
  | v8 => exact keeps_v8Synchronize call
  | hotspot => exact (keeps_symbolizeFrames call).bind fun _ => keeps_hotspotSynchronize pid call
  | ruby => exact keeps_rubySynchronize call
  | opcache => exact keeps_opcacheSynchronize _ _
  | beam => exact keeps_beamSynchronize call
  | dotnet data => exact keeps_dotnetSynchronize data call

lemma consistent_new (k : JitInterpreter) : k.Consistent ⟨k.new, [], []⟩ := by
  have hnone {α ρ : Type} (own : ρ) : ∅ = Registered.recorded (⟨∅, own⟩ : Registered α ρ) :=
    (Set.eq_empty_iff_forall_notMem.2 fun p hp => notMem_empty p hp).symm
  cases k with
  | v8 | hotspot | ruby | beam => exact hnone _
  | opcache => exact (Set.eq_empty_iff_forall_notMem.2 fun p hp => not_mem_nil hp).symm
  | dotnet data =>
    refine ⟨fun op hop => absurd hop not_mem_nil, iff_of_false ?_ ?_⟩
    · rintro (h | h)
      · exact h rfl
      · exact h rfl
    · rintro ⟨a, ha⟩
      exact notMem_empty a ha

lemma consistent_run (pid : Pid) (k : JitInterpreter) (calls : List k.Call) :
    k.Consistent (k.run pid calls) := by
  unfold run
  generalize hstart : (⟨k.new, [], []⟩ : Tracked k.Inst) = s
  have hs : k.Consistent s := hstart ▸ k.consistent_new
  clear hstart
  induction calls generalizing s with
  | nil => exact hs
  | cons call calls ih => exact ih _ (k.keeps_synchronize pid call s hs)

/-- `Detach` leaves nothing inserted just when a BEAM instance has no prefixes and a .NET instance
no ranges then. -/
theorem detach_nothingLeft_iff (pid : Pid) (k : JitInterpreter) (calls : List k.Call)
    (t : PidPageMap) (hok : (k.run pid calls).failures = []) :
    NothingLeft pid (k.detached pid calls).ops t ↔ k.NothingRecorded (k.run pid calls).inst := by
  have hrun := k.consistent_run pid calls
  rw [nothingLeft_iff, detached]
  generalize k.run pid calls = s at hrun hok
  cases k with
  | v8 | hotspot | ruby => exact iff_of_true (live_deleteRecorded hrun) trivial
  | opcache => exact iff_of_true (live_opcacheDetach hrun) trivial
  | beam =>
    show live s.ops = ∅ ↔ _
    rw [show live s.ops = _ from hrun]
    exact Set.eq_empty_iff_forall_notMem
  | dotnet data =>
    obtain ⟨hupdates, htouched⟩ := hrun
    show live s.ops = ∅ ↔ ∀ a, a ∉ _
    rw [live_updates hupdates, ← not_exists, ← htouched]
    constructor
    · rintro hnil (hops | hfail)
      · exact hops hnil
      · exact hfail hok
    · intro huntouched
      by_contra hops
      exact huntouched (.inl hops)

/-- An anonymous executable mapping of a page at 0x1000. -/
def jitPage : RawMapping := ⟨0x1000, 0x1000, 5, 0, 0, 0, ""⟩

/-- V8 registers the page and removes it again. -/
theorem detach_nothingLeft_v8 :
    (⟨0x1000, 52⟩ : Prefix) ∈ (v8.run 7 [[jitPage]]).inst.prefixes ∧
      NothingLeft 7 (v8.detached 7 [[jitPage]]).ops ∅ :=
  ⟨by decide +kernel, (detach_nothingLeft_iff 7 v8 [[jitPage]] ∅ (by decide +kernel)).2 trivial⟩

/-- A .NET 6 process: slot 0x100, list 0x200, section 0x300, heap 0x400, code 0x1000, map 0x2000. -/
def sectionMemory : RemoteMemory where
  read a n :=
    let words : List ℕ :=
      if a = 0x100 then [0x200]
      else if a = 0x200 then [0x300]
      else if a = 0x300 then [0x1000, 0x2000, 0, 0, 0, 2, 0x400]
      else if a = 0x400 then [0, 0, 0, 0, 0x1000, 0x2000]
      else []
    let bytes := (words.flatMap (leBytes 8)).take n
    if bytes.length = n then .ok bytes else .error "bad address"
  bias := 0

def sectionCall : DotnetCall where
  cdac := .ok
    { types :=
        { rangeBegin := 0, rangeEndOpen := 8, flags := 0x28, rangeList := 0, heapList := 0x30
          r2rModule := 0x30, rangeSectionNext := 0x18, rangeSectionSizeOf := 0x38
          rangeListType := 0, mapBase := 0x20, headerMap := 0x28, codeHeapListNodeSizeOf := 0x30
          stubPrecodeRangeList := 0, fixupPrecodeRangeList := 0, stubManagerSizeOf := 0
          virtualCallStubManagerNext := 0, lockedRangeListSizeOf := 0 }
      dacTable := ⟨0, 0, 0, 0, 0, 0⟩
      executionManager := 1 }
  rm := sectionMemory
  mappings := []
  peInfo _ := .ok 0

lemma not_nothingLeft_update (pid : Pid) (p : Prefix) (v : PidPageMappingInfo) (t : PidPageMap) :
    ¬NothingLeft pid [.update p v] t := by
  rw [nothingLeft_iff]
  exact (Set.insert_nonempty p ∅).ne_empty

/-- BEAM and .NET register a page, and the entry is still there after `Detach`. -/
theorem detach_beam_dotnet_leave :
    ¬NothingLeft 7 (beam.detached 7 [[jitPage]]).ops ∅ ∧
      ¬NothingLeft 7 ((dotnet ⟨6, 0x100, 0⟩).detached 7 [sectionCall]).ops ∅ := by
  exact ⟨not_nothingLeft_update _ _ _ _, not_nothingLeft_update _ _ _ _⟩

end JitInterpreter

end EbpfProfiler.Interpreter
