import EbpfProfiler.ProcessManager.FrameCache

/-!
# When the frame cache is transparent

A hit is right if the frames that share a key convert alike (`Recorded`).
-/

namespace EbpfProfiler.ProcessManager

open Lib Reporter Wire List Option Snapshot Lru

variable {f : EbpfFrame} {cache : FrameCache} {address : Word}

/-! ## Runs -/

/-- The frames of a call, as the walk finds them. -/
def TraceCall.frames (call : TraceCall) : List EbpfFrame :=
  (walkFrames call.trace.frameData).getD []

/-- The frame data consists of frames that unwinders pushed. -/
def TraceCall.FromUnwinders (call : TraceCall) : Prop :=
  ∃ frames : List EbpfFrame,
    (∀ f ∈ frames, Pushed f) ∧ call.trace.frameData = frames.flatMap EbpfFrame.words

/-- Converting a frame of a process gives the same frames in all calls. -/
def SameConversions (calls : List TraceCall) : Prop :=
  ∀ c ∈ calls, ∀ c' ∈ calls, ∀ pid f, convertedFrames c.env pid f = convertedFrames c'.env pid f

/-- A generation stands for one symbol table, and no address is in a program and a module. -/
structure KernelTables (calls : List TraceCall) : Prop where
  modules : ∀ c ∈ calls, ∀ c' ∈ calls,
    c.env.snapshot.kernelGeneration = c'.env.snapshot.kernelGeneration →
      c.env.snapshot.modules = c'.env.snapshot.modules
  bpf : ∀ c ∈ calls, ∀ c' ∈ calls,
    c.env.snapshot.bpfGeneration = c'.env.snapshot.bpfGeneration →
      c.env.snapshot.bpf = c'.env.snapshot.bpf
  disjoint : ∀ c ∈ calls, ∀ address,
    (c.env.snapshot.findModule address).isSome → c.env.snapshot.findProgram address = none

/-- Ruby frames that differ in the instruction sequence only convert alike. -/
def RubyAlike (calls : List TraceCall) : Prop :=
  ∀ c ∈ calls, ∀ c' ∈ calls, c.trace.pid = c'.trace.pid →
    ∀ frameType file line iseqAddr iseqAddr', pushRuby frameType file line iseqAddr ∈ c.frames →
      pushRuby frameType file line iseqAddr' ∈ c'.frames →
      convertedFrames c.env c.trace.pid (pushRuby frameType file line iseqAddr) =
        convertedFrames c'.env c'.trace.pid (pushRuby frameType file line iseqAddr')

/-- A frame that is not marked as specific to a process converts alike in all of the run. -/
def SharedAlike (calls : List TraceCall) : Prop :=
  ∀ c ∈ calls, ∀ c' ∈ calls, ∀ f, f.isError = false → f.isPidSpecific = false →
    f ∈ c.frames → f ∈ c'.frames →
      convertedFrames c.env c.trace.pid f = convertedFrames c'.env c'.trace.pid f

lemma TraceCall.FromUnwinders.walk {call : TraceCall} (h : call.FromUnwinders) :
    walkFrames call.trace.frameData = some call.frames ∧ ∀ f ∈ call.frames, Pushed f := by
  obtain ⟨frames, hp, hd⟩ := h
  have hw := walkFrames_flatMap fun f hf => (hp f hf).sized
  rw [TraceCall.frames, hd, hw]
  exact ⟨rfl, hp⟩

/-! ## Keys -/

lemma eq_of_keyData {f' : EbpfFrame} (hs : f.Sized) (hs' : f'.Sized) (hv : f.vars.length ≤ 2)
    (h : keyData f = keyData f') : f = f' := by
  obtain ⟨header, vars⟩ := f
  obtain ⟨header', vars'⟩ := f'
  simp only [keyData, Prod.mk.injEq] at h
  obtain ⟨rfl, h0, h1⟩ := h
  -- The header holds the number of words, so the lists have the same length.
  have hl : vars.length = vars'.length := by
    simp only [EbpfFrame.Sized] at hs hs'
    omega
  congr 1
  apply ext_getElem hl
  intro i hi hi'
  -- at most two words, and the key holds both
  obtain rfl | rfl : i = 0 ∨ i = 1 := by
    have : vars.length ≤ 2 := hv
    omega
  · simpa [hi, hi'] using h0
  · simpa [hi, hi'] using h1

/-- Pushed frames with equal key data are equal, or Ruby frames with other third words. -/
lemma eq_or_ruby {f' : EbpfFrame} (h : Pushed f) (h' : Pushed f') (hk : keyData f = keyData f') :
    f = f' ∨ ∃ frameType file line iseqAddr iseqAddr',
      f = pushRuby frameType file line iseqAddr ∧
        f' = pushRuby frameType file line iseqAddr' := by
  by_cases hv : f.vars.length ≤ 2
  · exact .inl (eq_of_keyData h.sized h'.sized hv hk)
  · -- Only `push_ruby` writes three variable words.
    have hl : f.vars.length = f'.vars.length := by
      have hs := h.sized
      have hs' := h'.sized
      have hh : f.header = f'.header := congrArg Prod.fst hk
      rw [EbpfFrame.Sized, hh] at hs
      rw [EbpfFrame.Sized] at hs'
      omega
    have ruby {g : EbpfFrame} (hg : Pushed g) (hgv : ¬ g.vars.length ≤ 2) :
        ∃ frameType file line iseqAddr, g = pushRuby frameType file line iseqAddr := by
      cases hg with
      | ruby frameType file line iseqAddr => exact ⟨_, _, _, _, rfl⟩
      | _ => exact absurd (by simp [pushNative, pushPython, pushPhp, pushPerl, pushHotspot, pushV8,
          pushDotnet, pushBeam, pushError, pushFrame]) hgv
    obtain ⟨ft, file, line, iseq, rfl⟩ := ruby h hv
    obtain ⟨ft', file', line', iseq', rfl⟩ := ruby h' (hl ▸ hv)
    simp only [keyData, pushRuby, pushFrame, Prod.mk.injEq] at hk
    obtain ⟨hh, h0, h1⟩ := hk
    have hft : ft = ft' := by
      have : (ft.setWidth 64).setWidth 8 = (ft'.setWidth 64).setWidth 8 := by
        rw [show ft.setWidth 64 = ft'.setWidth 64 from h0]
      simpa using this
    have hline : line = line' := h1
    refine .inr ⟨ft, file, line, iseq, iseq', rfl, ?_⟩
    rw [hft, hline, pushRuby, pushFrame]
    congr 1
    exact hh.symm

lemma key_ne_kernel (h : Pushed f) (pid : Pid) (address generation : Word) :
    frameCacheKey pid f ≠ kernelFrameCacheKey address generation := by
  intro hk
  have hh : f.header = newEbpfFrameHeader frameMarkerKernel 0 3 0 :=
    congrArg (fun k => k.data.1) hk
  apply h.type_ne_kernel
  rw [EbpfFrame.type, hh]
  decide

lemma kernelFrameCacheKey_inj {a a' g g' : Word}
    (h : kernelFrameCacheKey a g = kernelFrameCacheKey a' g') : a = a' ∧ g = g' := by
  simpa [kernelFrameCacheKey] using h

/-! ## What the cache holds -/

/-- A key and frames that some call of the run stores under it. -/
inductive Recorded (calls : List TraceCall) : FrameCacheKey → List Frame → Prop
  | user (c : TraceCall) (hc : c ∈ calls) (f : EbpfFrame) (hf : f ∈ c.frames)
      (hne : f.isError = false) (frames : List Frame)
      (h : convertedFrames c.env c.trace.pid f = some frames) :
      Recorded calls (frameCacheKey c.trace.pid f) frames
  | kernel (c : TraceCall) (hc : c ∈ calls) (address : Word) (r : AddressResolution)
      (h : c.env.snapshot.resolveAddress address = some r) :
      Recorded calls (kernelFrameCacheKey address r.generation)
        [(symbolizeKernelFrame address (some r)).1]

lemma isPidSpecific_pushRuby (frameType : BitVec 8) (file line iseqAddr : Word) :
    (pushRuby frameType file line iseqAddr).isPidSpecific = true := by
  have hf : (pushRuby frameType file line iseqAddr).flags = frameFlagPidSpecific :=
    pushFrame_flags file (by decide) (by decide) (by simp)
  rw [EbpfFrame.isPidSpecific, hf]
  decide

/-! ### Kernel symbols -/

lemma Snapshot.kernelGeneration_even (s : Snapshot) : s.kernelGeneration &&& 1 = 0 := by
  unfold kernelGeneration
  split
  · next table _ => exact table.generation_even
  · decide

lemma Snapshot.bpfGeneration_odd (s : Snapshot) : s.bpfGeneration &&& 1 = 1 := by
  unfold bpfGeneration
  split
  · next table _ => exact table.generation_odd
  · decide

lemma Snapshot.kernelGeneration_ne_bpfGeneration (s s' : Snapshot) :
    s.kernelGeneration ≠ s'.bpfGeneration := by
  intro h
  have heven := s.kernelGeneration_even
  rw [h, s'.bpfGeneration_odd] at heven
  exact absurd heven (by decide)

lemma Snapshot.resolveAddress_cases {s : Snapshot} {r : AddressResolution}
    (h : s.resolveAddress address = some r) : (∃ program, s.findProgram address = some program ∧
      r = .bpf program.1 program.2 s.bpfGeneration) ∨
    (∃ kmod, s.findProgram address = none ∧ s.findModule address = some kmod ∧
      r = .module kmod s.kernelGeneration) := by
  unfold resolveAddress at h
  split at h
  · next name offset hp => exact .inl ⟨_, hp, (some.inj h).symm⟩
  · next hp =>
    obtain ⟨kmod, hm, rfl⟩ := map_eq_some_iff.mp h
    exact .inr ⟨kmod, hp, hm, rfl⟩

section Hits

variable {calls : List TraceCall} {c : TraceCall} (hc : c ∈ calls)
include hc

variable {frames : List Frame}

section
variable (hpushed : ∀ c ∈ calls, c.FromUnwinders)
include hpushed

lemma Recorded.user_hit (hsame : SameConversions calls) (hruby : RubyAlike calls)
    (hshared : SharedAlike calls) (hf : f ∈ c.frames) (hne : f.isError = false)
    (h : Recorded calls (frameCacheKey c.trace.pid f) frames) :
    convertedFrames c.env c.trace.pid f = some frames := by
  have hp := (hpushed c hc).walk.2 f hf
  generalize hk : frameCacheKey c.trace.pid f = key at h
  cases h with
  | kernel c' hc' address r hr => exact absurd hk (key_ne_kernel hp _ _ _)
  | user c' hc' f' hf' hne' _ hconv =>
    have hpid : f.isPidSpecific = true → f'.isPidSpecific = true → c.trace.pid = c'.trace.pid := by
      intro hs hs'
      simpa [frameCacheKey, hs, hs'] using congrArg FrameCacheKey.pid hk
    have hdata : keyData f = keyData f' :=
      congrArg FrameCacheKey.data hk
    rw [← hconv]
    rcases eq_or_ruby hp ((hpushed c' hc').walk.2 f' hf') hdata with rfl |
      ⟨ft, file, line, iseq, iseq', rfl, rfl⟩
    · -- The same words: the process is part of the key, or does not matter.
      by_cases hs : f.isPidSpecific = true
      · rw [hpid hs hs]
        exact hsame c hc c' hc' _ _
      · exact hshared c hc c' hc' f hne (by simpa using hs) hf hf'
    · have hpids := hpid (isPidSpecific_pushRuby ..) (isPidSpecific_pushRuby ..)
      exact hruby c hc c' hc' hpids _ _ _ _ _ hf hf'

lemma Recorded.kernel_hit (hkernel : KernelTables calls)
    (hg : g = c.env.snapshot.kernelGeneration ∨ g = c.env.snapshot.bpfGeneration)
    (h : Recorded calls (kernelFrameCacheKey address g) frames) :
    frames = [freshKernelFrame c.env.snapshot address] := by
  generalize hk : kernelFrameCacheKey address g = key at h
  cases h with
  | user c' hc' f hf hne _ hconv =>
    exact absurd hk.symm (key_ne_kernel ((hpushed c' hc').walk.2 f hf) _ _ _)
  | kernel c' hc' address' r hr =>
    obtain ⟨rfl, hr'⟩ := kernelFrameCacheKey_inj hk
    rw [hr'] at hg
    rcases resolveAddress_cases hr with ⟨program, hp, rfl⟩ | ⟨kmod, -, hm, rfl⟩
    · have hg' := hg.resolve_left (kernelGeneration_ne_bpfGeneration _ _).symm
      have hp' : c.env.snapshot.findProgram address = some program := by
        rw [findProgram, hkernel.bpf c hc c' hc' hg'.symm]
        exact hp
      rw [freshKernelFrame, resolveAddress, hp']
      rfl
    · -- The module table is the same, and no BPF program has taken the address since.
      have hg' := hg.resolve_right (kernelGeneration_ne_bpfGeneration _ _)
      have hm' : c.env.snapshot.findModule address = some kmod := by
        rw [findModule, hkernel.modules c hc c' hc' hg'.symm]
        exact hm
      have hp' := hkernel.disjoint c hc address (by rw [hm']; rfl)
      rw [freshKernelFrame, resolveAddress, hp', hm']
      rfl

end

/-! ## One step -/

section
variable (hpushed : ∀ c ∈ calls, c.FromUnwinders)
include hpushed

lemma appendKernelFrame_fresh (hkernel : KernelTables calls) (address : Word)
    (hcache : cache.Sound (Recorded calls)) : (appendKernelFrame c.env.snapshot address cache).1 =
        [freshKernelFrame c.env.snapshot address] ∧
      (appendKernelFrame c.env.snapshot address cache).2.Sound (Recorded calls) := by
  unfold appendKernelFrame
  have hfirst := hcache.get (kernelFrameCacheKey address c.env.snapshot.kernelGeneration)
  dsimp only
  split
  · next cached h =>
    rw [get_fst] at h
    exact ⟨(hcache.lookup h).kernel_hit hc hpushed hkernel (.inl rfl), hfirst⟩
  have hsecond := hfirst.get (kernelFrameCacheKey address c.env.snapshot.bpfGeneration)
  split
  · next cached h =>
    rw [get_fst] at h
    exact ⟨(hfirst.lookup h).kernel_hit hc hpushed hkernel (.inr rfl), hsecond⟩
  -- No entry: the frame is resolved, and stored under the generation of its table.
  unfold resolveKernelFrame freshKernelFrame
  split
  · next h => exact ⟨by rw [h], hsecond⟩
  · next r h =>
    refine ⟨by rw [h], ?_⟩
    dsimp only
    split
    · exact hsecond.add (.kernel c hc address r h)
    · exact hsecond

lemma appendKernelFrames_fresh (hkernel : KernelTables calls) (addresses : List Word)
    (hcache : cache.Sound (Recorded calls)) :
    (appendKernelFrames c.env.snapshot addresses cache).1 =
        addresses.map (freshKernelFrame c.env.snapshot) ∧
      (appendKernelFrames c.env.snapshot addresses cache).2.Sound (Recorded calls) := by
  induction addresses generalizing cache with
  | nil => exact ⟨rfl, hcache⟩
  | cons address rest ih =>
    obtain ⟨hfirst, hsound⟩ := appendKernelFrame_fresh hc hpushed hkernel address hcache
    obtain ⟨hrest, hsound⟩ := ih hsound
    refine ⟨?_, hsound⟩
    rw [appendKernelFrames, hfirst, hrest]
    rfl

section
variable (hsame : SameConversions calls) (hruby : RubyAlike calls) (hshared : SharedAlike calls)
  (filterErrorFrames : Bool)
include hsame hruby hshared filterErrorFrames

lemma handleFrame_fresh (hf : f ∈ c.frames) (hcache : cache.Sound (Recorded calls))
    (hfresh : freshFrame filterErrorFrames c.env c.trace.pid f = some frames) :
    ∃ cache', handleFrame filterErrorFrames c.env c.trace.pid f cache = some (frames, cache') ∧
      cache'.Sound (Recorded calls) := by
  unfold handleFrame
  unfold freshFrame at hfresh
  cases herr : f.isError with
  | true =>
    rw [herr] at hfresh
    exact ⟨cache, by simpa using hfresh, hcache⟩
  | false =>
    rw [herr] at hfresh
    have hget := hcache.get (frameCacheKey c.trace.pid f)
    simp only [Bool.false_eq_true, if_false] at hfresh ⊢
    split
    · next cached h =>
      rw [get_fst] at h
      have hhit := (hcache.lookup h).user_hit hc hpushed hsame hruby hshared hf herr
      rw [hfresh, some.injEq] at hhit
      exact ⟨_, by rw [hhit], hget⟩
    · obtain ⟨converted, hconv, rfl⟩ := map_eq_some_iff.mp hfresh
      refine ⟨_, by rw [convertAndCache, hconv]; rfl, ?_⟩
      split
      · exact hget.add (.user c hc f hf herr _ hfresh)
      · exact hget

lemma handleFrames_fresh {fs : List EbpfFrame} (hfs : ∀ f ∈ fs, f ∈ c.frames)
    (hcache : cache.Sound (Recorded calls))
    (hfresh : freshFrames filterErrorFrames c.env c.trace.pid fs = some frames) :
    ∃ cache', handleFrames filterErrorFrames c.env c.trace.pid fs cache = some (frames, cache') ∧
      cache'.Sound (Recorded calls) := by
  induction fs generalizing cache frames with
  | nil =>
    obtain rfl : [] = frames := some.inj hfresh
    exact ⟨cache, rfl, hcache⟩
  | cons f rest ih =>
    simp only [freshFrames, bind_eq_bind, bind_eq_some_iff] at hfresh
    obtain ⟨first, hfirst, others, hothers, hframes⟩ := hfresh
    obtain ⟨cache₁, hstep, hsound⟩ := handleFrame_fresh hc hpushed hsame hruby hshared
      filterErrorFrames (hfs f mem_cons_self) hcache hfirst
    obtain ⟨cache₂, hrest, hsound⟩ :=
      ih (fun g hg => hfs g (mem_cons_of_mem f hg)) hsound hothers
    refine ⟨cache₂, ?_, hsound⟩
    rw [handleFrames, hstep, bind_eq_bind, bind_some, hrest]
    simpa using hframes

end

end

end Hits

/-! ## Fresh conversion comes to a result -/

lemma vars_ne_nil_of_native (h : Pushed f) (ht : f.type = frameMarkerNative) : f.vars ≠ [] := by
  cases h with
  | error frameType h error =>
    exfalso
    have hft : frameType.toNat < 16 := by rcases h with rfl | rfl | rfl <;> decide
    have htype : (pushError frameType error).type = frameType :=
      pushFrame_type error hft (by decide) (by simp)
    rw [htype] at ht
    subst ht
    revert h
    decide
  | _ => exact cons_ne_nil _ _

lemma freshFrame_isSome (h : Pushed f) (filterErrorFrames : Bool) (env : Environment) (pid : Pid) :
    (freshFrame filterErrorFrames env pid f).isSome := by
  unfold freshFrame convertedFrames convertFrame
  split
  · rfl
  split
  · rfl
  split
  · next ht =>
    obtain ⟨word, rest, hv⟩ := exists_cons_of_ne_nil (vars_ne_nil_of_native h ht)
    rw [hv]
    rfl
  · rfl

lemma freshFrames_isSome {fs : List EbpfFrame} (h : ∀ f ∈ fs, Pushed f) (filterErrorFrames : Bool)
    (env : Environment) (pid : Pid) :
    ∃ frames, freshFrames filterErrorFrames env pid fs = some frames := by
  induction fs with
  | nil => exact ⟨[], rfl⟩
  | cons f rest ih =>
    obtain ⟨first, hfirst⟩ := isSome_iff_exists.mp
      (freshFrame_isSome (h f mem_cons_self) filterErrorFrames env pid)
    obtain ⟨others, hothers⟩ := ih fun g hg => h g (mem_cons_of_mem f hg)
    exact ⟨first ++ others, by rw [freshFrames, hfirst, hothers]; rfl⟩

/-! ## Whole runs -/

section Runs

variable {calls : List TraceCall} (hpushed : ∀ c ∈ calls, c.FromUnwinders)
  (hsame : SameConversions calls) (hkernel : KernelTables calls) (hruby : RubyAlike calls)
  (hshared : SharedAlike calls) (filterErrorFrames : Bool)
include hpushed hsame hkernel hruby hshared

lemma handleTrace_fresh {c : TraceCall} (hc : c ∈ calls) (hcache : cache.Sound (Recorded calls)) :
    ∃ trace cache', freshTrace filterErrorFrames c = some trace ∧
      handleTrace filterErrorFrames c.env c.trace cache = some (trace, cache') ∧
      cache'.Sound (Recorded calls) := by
  have hwalk := (hpushed c hc).walk.1
  obtain ⟨user, huser⟩ := freshFrames_isSome (hpushed c hc).walk.2
    filterErrorFrames c.env c.trace.pid
  obtain ⟨hk, hsound⟩ := appendKernelFrames_fresh hc hpushed hkernel c.trace.kernelFrames hcache
  obtain ⟨cache', hframes, hsound⟩ := handleFrames_fresh hc hpushed hsame hruby hshared
    filterErrorFrames (fun f hf => hf) hsound huser
  refine ⟨⟨c.trace.customLabels, c.trace.kernelFrames.map (freshKernelFrame c.env.snapshot) ++ user,
    0⟩, cache', ?_, ?_, hsound⟩
  · rw [freshTrace, hwalk, bind_eq_bind, bind_some, huser]
    rfl
  · rw [handleTrace, hwalk, bind_eq_bind, bind_some, hframes, hk]
    rfl

lemma handleTraces_fresh_of_sound {rest : List TraceCall} (hrest : ∀ c ∈ rest, c ∈ calls)
    (hcache : cache.Sound (Recorded calls)) :
    ∃ traces cache', freshTraces filterErrorFrames rest = some traces ∧
      handleTraces filterErrorFrames rest cache = some (traces, cache') := by
  induction rest generalizing cache with
  | nil => exact ⟨[], cache, rfl, rfl⟩
  | cons c rest ih =>
    obtain ⟨trace, cache₁, hfresh, hstep, hsound⟩ := handleTrace_fresh hpushed hsame hkernel hruby
      hshared filterErrorFrames (hrest c mem_cons_self) hcache
    obtain ⟨traces, cache₂, hfreshes, hsteps⟩ :=
      ih (fun d hd => hrest d (mem_cons_of_mem c hd)) hsound
    refine ⟨trace :: traces, cache₂, ?_, ?_⟩
    · rw [freshTraces, mapM_cons, hfresh, ← freshTraces, hfreshes]
      rfl
    · rw [handleTraces, hstep, bind_eq_bind, bind_some, hsteps]
      rfl

/-- From an empty cache of any capacity, all traces are those of converting afresh. -/
theorem handleTraces_fresh (capacity : ℕ) :
    ∃ traces cache, freshTraces filterErrorFrames calls = some traces ∧
      handleTraces filterErrorFrames calls (empty capacity) = some (traces, cache) :=
  handleTraces_fresh_of_sound hpushed hsame hkernel hruby hshared filterErrorFrames
    (fun _ h => h) (sound_empty capacity)

end Runs

/-- An instance for one type of frames; the line is the second variable word. -/
def sampleInstance (type : BitVec 8) (name : String) : Instance := fun f _ =>
  if f.type = type then
    ([{ type := type, functionName := name, sourceLine := f.vars.getD 1 0 }], .ok)
  else
    ([], .mismatchInterpreterType)

/-- One module that covers the kernel's text, and no BPF programs. -/
def sampleSnapshot : Snapshot where
  bpf := none
  modules := some
    { generation := 2
      generation_even := by decide
      getModuleByAddress := fun address =>
        if 0xffffffff81000000 ≤ address then
          some ⟨none, 0xffffffff81000000, fun _ => some "do_syscall_64"⟩
        else none }

/-- Two processes that run the same Ruby program. -/
def workerEnvironment : Environment where
  interpreters := fun _ => [sampleInstance frameMarkerRuby "work"]
  findMappingForTrace := fun _ _ _ => none
  snapshot := sampleSnapshot

def workerCall (pid : Pid) (iseqAddr : Word) : TraceCall where
  env := workerEnvironment
  trace :=
    { pid := pid
      customLabels := Labels.empty
      kernelFrames := [0xffffffff81000042]
      frameData := (pushRuby 1 0x7000 12 iseqAddr).words ++ (pushNative 0xabc 0x1234 true).words }

lemma workerCall_fromUnwinders (pid : Pid) (iseqAddr : Word) :
    (workerCall pid iseqAddr).FromUnwinders := by
  refine ⟨[pushRuby 1 0x7000 12 iseqAddr, pushNative 0xabc 0x1234 true], ?_, by simp [workerCall]⟩
  intro f hf
  rcases mem_pair.mp hf with rfl | rfl
  · exact .ruby ..
  · exact .native ..

/-- The frame cache is transparent for two workers with two traces each. -/
theorem handleTraces_fresh_workers :
    ∃ traces cache,
      freshTraces false [workerCall 100 0x7100, workerCall 200 0x7100, workerCall 100 0x7200] =
        some traces ∧
      handleTraces false [workerCall 100 0x7100, workerCall 200 0x7100, workerCall 100 0x7200]
        (empty 16) = some (traces, cache) := by
  have hcall : ∀ c ∈ [workerCall 100 0x7100, workerCall 200 0x7100, workerCall 100 0x7200],
      ∃ pid iseqAddr, c = workerCall pid iseqAddr := by
    simp
  refine handleTraces_fresh ?_ ?_ ⟨?_, ?_, ?_⟩ ?_ ?_ false 16
  · intro c hc
    obtain ⟨pid, iseq, rfl⟩ := hcall c hc
    exact workerCall_fromUnwinders pid iseq
  case refine_5 =>
    intro c hc
    obtain ⟨pid, iseq, rfl⟩ := hcall c hc
    exact fun _ _ => rfl
  all_goals
    intro c hc c' hc'
    obtain ⟨pid, iseq, rfl⟩ := hcall c hc
    obtain ⟨pid', iseq', rfl⟩ := hcall c' hc'
  · exact fun _ _ => rfl
  · exact fun _ => rfl
  · exact fun _ => rfl
  · exact fun _ _ _ _ _ _ _ _ => rfl
  · exact fun _ _ _ _ _ => rfl

/-- Two Erlang nodes that have loaded different modules to the same addresses. -/
def nodeEnvironment : Environment where
  interpreters := fun pid =>
    if pid = 100 then [sampleInstance frameMarkerBeam "lists:map/2"]
    else [sampleInstance frameMarkerBeam "gen_server:loop/7"]
  findMappingForTrace := fun _ _ _ => none
  snapshot := sampleSnapshot

def nodeCall (pid : Pid) : TraceCall where
  env := nodeEnvironment
  trace :=
    { pid := pid
      customLabels := Labels.empty
      kernelFrames := []
      frameData := (pushBeam 0x7f0000001040 0x7f0000001000 false).words }

/-- The second node's frame gets the function of the first: BEAM frames are not marked. -/
theorem handleTraces_mixes_nodes :
    (∀ c ∈ [nodeCall 100, nodeCall 200], c.FromUnwinders) ∧
    SameConversions [nodeCall 100, nodeCall 200] ∧ KernelTables [nodeCall 100, nodeCall 200] ∧
    (freshTraces false [nodeCall 100, nodeCall 200]).map (·.map Trace.frames) =
      some [[{ type := frameMarkerBeam, functionName := "lists:map/2" }],
        [{ type := frameMarkerBeam, functionName := "gen_server:loop/7" }]] ∧
    (handleTraces false [nodeCall 100, nodeCall 200] (empty 16)).map (·.1.map Trace.frames) =
      some [[{ type := frameMarkerBeam, functionName := "lists:map/2" }],
        [{ type := frameMarkerBeam, functionName := "lists:map/2" }]] := by
  have hcall : ∀ c ∈ [nodeCall 100, nodeCall 200], ∃ pid, c = nodeCall pid := by
    simp
  refine ⟨?_, ?_, ⟨?_, ?_, ?_⟩, by decide +kernel, by decide +kernel⟩
  · intro c hc
    obtain ⟨pid, rfl⟩ := hcall c hc
    exact ⟨[pushBeam 0x7f0000001040 0x7f0000001000 false], by simp [Pushed.beam], rfl⟩
  case refine_5 =>
    intro c hc
    obtain ⟨pid, rfl⟩ := hcall c hc
    exact fun _ _ => rfl
  all_goals
    intro c hc c' hc'
    obtain ⟨pid, rfl⟩ := hcall c hc
    obtain ⟨pid', rfl⟩ := hcall c' hc'
  · exact fun _ _ => rfl
  · exact fun _ => rfl
  · exact fun _ => rfl

end EbpfProfiler.ProcessManager
