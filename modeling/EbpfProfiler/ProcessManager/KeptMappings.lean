import EbpfProfiler.ProcessManager.FindMapping

/-!
# Mappings that are kept

`SynchronizeProcess` keeps a mapping with the same length, device and inode.
-/

namespace EbpfProfiler.ProcessManager

open List RawMapping
open ExecInfo Reporter Wire

/-- A (device, inode) pair denotes a file, except for the name, which is from a path. -/
def SyncCall.Reads (call : SyncCall ι) (files : Word → Word → Option ElfInfo)
    (name : RawMapping → String) : Prop :=
  ∀ m, call.elfInfo m = (files m.device m.inode).map fun info =>
    { info with mappingFile.fileName := name m }

lemma collectFrom_mem (call : SyncCall ι) (old : List Mapping) (eim : ManagerState ι)
    (seen : List RawMapping) :
    (∀ v o, (collectFrom call old eim seen).mpRemove.lookup v = some o → o ∈ old ∧ o.vaddr = v) ∧
      ∀ n ∈ (collectFrom call old eim seen).mappings, n ∈ old ∨ ∃ m, call.Tracks m n := by
  induction seen using reverseRecOn with
  | nil => exact ⟨fun v o h => vaddr_of_lookup_removeTable h, nofun⟩
  | append_singleton seen m ih =>
    rw [collectFrom_append]
    generalize collectFrom call old eim seen = st at ih ⊢
    obtain ⟨hremove, hmappings⟩ := ih
    rcases deliver_cases call st m with ⟨-, heq⟩ | ⟨-, o, ho, hsame, heq⟩ | ⟨-, -, heq⟩
    · rw [heq]
      exact ⟨hremove, hmappings⟩
    · obtain ⟨hmem, hv⟩ := hremove m.vaddr o ho
      rw [heq, Collector.keep, track_eq_of_sameAs hv hsame]
      refine ⟨fun v k hk => hremove v k ?_, fun n hn => ?_⟩
      · by_cases hvm : v = m.vaddr
        · rw [hvm, AList.lookup_erase] at hk
          cases hk
        · rwa [AList.lookup_erase_ne hvm] at hk
      · rcases mem_append.mp hn with hn | hn
        · exact hmappings n hn
        · exact .inl (mem_singleton.mp hn ▸ hmem)
    · rw [heq]
      rcases addNew_cases call st m with ⟨-, heq⟩ | ⟨fm, hfm, heq⟩
      · rw [heq]
        exact ⟨hremove, hmappings⟩
      · rw [heq]
        refine ⟨hremove, fun n hn => ?_⟩
        rcases mem_append.mp hn with hn | hn
        · exact hmappings n hn
        · exact .inr ⟨m, mem_singleton.mp hn ▸ newFrameMapping_some hfm⟩

/-- **Kept mappings.** In every run, the mapping and bias of a kept old mapping are those of the new
raw mapping exactly when the file offset and the name are the same. -/
theorem kept_eq_rebuilt_iff {files : Word → Word → Option ElfInfo} {events : List (PmEvent ι)}
    (hevents : ∀ pid call, .synchronizeProcess pid call ∈ events → ∃ name, call.Reads files name)
    {pid : Pid} {info : ProcessInfo}
    (hinfo : (State.new.run events).pidToProcessInfo.lookup pid = some info) {call : SyncCall ι}
    {name : RawMapping → String} (hcall : call.Reads files name) {eim : ManagerState ι}
    {seen : List RawMapping} {m : RawMapping} {old : Mapping}
    (hold : (collectFrom call info.mappings eim seen).mpRemove.lookup m.vaddr = some old)
    (hsame : old.sameAs m = true) :
    (∃ n, call.Tracks m n ∧ old.frameMapping = n.frameMapping ∧ old.bias = n.bias) ↔
      old.frameMapping.fileOffset = m.fileOffset ∧ old.frameMapping.file.fileName = name m := by
  have hmade := run_each
    (P := fun ms => ∀ n ∈ ms, ∃ (c : SyncCall ι) (m : RawMapping),
      (∃ name, c.Reads files name) ∧ c.Tracks m n) nofun events
    (fun pid c hmem ms eim hms n hn => by
      rcases (collectFrom_mem c ms eim c.delivered).2 n ((mem_insertionSort _).mp hn)
        with hn | ⟨m, hm⟩
      · exact hms n hn
      · exact ⟨c, m, hevents pid c hmem, hm⟩) pid info hinfo
  obtain ⟨hmem, hv⟩ := (collectFrom_mem call info.mappings eim seen).1 _ old hold
  obtain ⟨c, m₀, ⟨name₀, hc⟩, info₀, va, helf, hva, rfl⟩ := hmade old hmem
  obtain ⟨hl, hd, hi⟩ := sameAs_iff.mp hsame
  dsimp only [track] at hv hl hd hi
  rw [hc, hd, hi, Option.map_eq_some_iff] at helf
  obtain ⟨file, hfile, rfl⟩ := helf
  have hread := hcall m
  rw [hfile] at hread
  constructor
  · rintro ⟨n, ⟨info, va', helf', -, rfl⟩, hfm, -⟩
    rw [hread] at helf'
    cases helf'
    exact ⟨congrArg (·.fileOffset) hfm, congrArg (·.file.fileName) hfm⟩
  · rintro ⟨hoff, hname⟩
    refine ⟨_, ⟨_, va, hread, ?_, rfl⟩, ?_, ?_⟩
    · rw [← hva]
      exact congrArg _ hoff.symm
    · simp_all [track, frameMapping]
    · simp_all [track, frameMapping, Mapping.bias]

theorem kept_eq_rebuilt_iff_sample :
    ∃ n, (sampleSync none).Tracks sampleRaw n ∧
      samplePage.frameMapping = n.frameMapping ∧ samplePage.bias = n.bias :=
  (@kept_eq_rebuilt_iff Unit (fun _ _ => some sampleElf)
    [.synchronizeProcess 42 (sampleSync none)]
    (fun _ call hcall => by
      cases mem_singleton.mp hcall
      exact ⟨fun _ => "libc.so.6", fun _ => rfl⟩) 42 ⟨[samplePage]⟩ (by decide +kernel)
    (sampleSync none) (fun _ => "libc.so.6") (fun _ => rfl) State.new.eim [] sampleRaw samplePage
    (by decide +kernel) (by decide +kernel)).mpr (by decide +kernel)

def movedSync : SyncCall Unit :=
  { sampleSync none with delivered := [{ sampleRaw with fileOffset := 0x1000 }] }

/-- The mapping of the first page is kept. -/
theorem kept_stale :
    (State.new.run [.synchronizeProcess 42 (sampleSync none),
        .synchronizeProcess 42 movedSync]).pidToProcessInfo.lookup 42 = some ⟨[samplePage]⟩ ∧
      samplePage.frameMapping.fileOffset = 0 ∧
      movedSync.Tracks { sampleRaw with fileOffset := 0x1000 }
        ⟨sampleRaw.vaddr, 0x1000, 0x801, 1234, ⟨sampleElf.mappingFile, 0x1000, 0x2000, 0x1000⟩⟩ :=
  ⟨by decide +kernel, rfl, sampleElf, 0x1000, rfl, rfl, rfl⟩

end EbpfProfiler.ProcessManager
