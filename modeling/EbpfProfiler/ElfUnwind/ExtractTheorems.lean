import EbpfProfiler.ElfUnwind.Extract
import EbpfProfiler.ExecInfo.LoadPanics

/-!
# What extraction promises the loader

The recipes are canonical (`extractFile_sound`); nothing else about the blocks is checked.
-/

namespace EbpfProfiler.ElfUnwind

open Lib StackDeltas List

variable {deltas : List StackDelta} {α : Type} {info : UnwindInfo}

/-! ## Recipes -/

/-- A recipe that is canonical after `StackDeltaArray.add` has reduced it. -/
def Proper (info : UnwindInfo) : Prop :=
  info.mergeOpcode = 0 ∧ (info.isCommand = true → info.param.toNat < 2 ^ 15)

instance (info : UnwindInfo) : Decidable (Proper info) := inferInstanceAs (Decidable (_ ∧ _))

def AllCanonical (deltas : List StackDelta) : Prop := ∀ d ∈ deltas, d.info.Canonical

lemma allCanonical_nil : AllCanonical [] := by
  intro d hd
  cases hd

/-- **Step lemma.** Adding a proper recipe keeps all recipes canonical. -/
lemma AllCanonical.add (h : AllCanonical deltas) (offset : ℕ) (hinfo : Proper info) :
    AllCanonical (StackDeltaArray.add deltas offset info) := by
  have hreduced : (if info.isCommand then UnwindInfo.command info.param else info).Canonical := by
    cases hc : info.isCommand with
    | true => exact ⟨rfl, fun _ => ⟨rfl, hinfo.2 hc⟩⟩
    | false => exact ⟨hinfo.1, fun hc' => absurd (hc.symm.trans hc') (by decide)⟩
  rcases StackDeltaArray.add_cases deltas offset info with ⟨heq, -⟩ | heq
  · rw [heq]
    exact h
  · rw [heq]
    intro d hd
    rcases mem_append.mp hd with hd | hd
    · exact h d hd
    · rw [mem_singleton.mp hd]
      exact hreduced

lemma proper_command {param : BitVec 32} (h : param.toNat < 2 ^ 15) :
    Proper (.command param) := ⟨rfl, fun _ => h⟩

lemma proper_stop : Proper .stop := proper_command (by decide)

lemma proper_invalid : Proper .invalid := proper_command (by decide)

/-- A recipe that is no command, and has no merge opcode. -/
structure Plain (info : UnwindInfo) : Prop where
  merge : info.mergeOpcode = 0
  flags : info.flags &&& unwindFlagCommand = 0

namespace Plain

variable {info : UnwindInfo}

lemma isCommand (h : Plain info) : info.isCommand = false := by
  rw [UnwindInfo.isCommand, decide_eq_false_iff_not, not_not]
  exact h.flags

lemma proper (h : Plain info) : Proper info :=
  ⟨h.merge, fun hc => absurd (h.isCommand.symm.trans hc) (by decide)⟩

lemma of_flags_zero (hmerge : info.mergeOpcode = 0) (hflags : info.flags = 0) : Plain info :=
  ⟨hmerge, by rw [hflags]; decide⟩

/-- Registers and parameters do not make a command. -/
lemma congr (h : Plain info) {new : UnwindInfo} (hmerge : new.mergeOpcode = info.mergeOpcode)
    (hflags : new.flags = info.flags) : Plain new :=
  ⟨hmerge.trans h.merge, hflags ▸ h.flags⟩

lemma or (h : Plain info) (flag : BitVec 8) (hflag : flag &&& unwindFlagCommand = 0) :
    Plain { info with flags := info.flags ||| flag } := by
  refine ⟨h.merge, ?_⟩
  rw [BitVec.and_comm, BitVec.and_or_distrib_left, BitVec.and_comm, h.flags, BitVec.and_comm, hflag]
  rfl

end Plain

namespace VmRegs

variable (regs : VmRegs)

lemma fpInfoX86_plain (h : Plain info) : Plain (regs.fpInfoX86 info) := by
  unfold fpInfoX86
  split
  · split
    · exact h.congr rfl rfl
    · exact h
  · split
    · dsimp only
      split
      · exact h.congr rfl rfl
      · exact h
    · exact h

/-- The only command is that of a PLT. -/
lemma cfaInfoX86_proper (h : Plain info) : Proper (regs.cfaInfoX86 info) := by
  have hleaf := h.or unwindFlagLeafOnly (by decide)
  have hderef := h.or unwindFlagDerefCfa (by decide)
  unfold cfaInfoX86
  dsimp only
  split
  · apply Plain.proper
    exact h.congr rfl rfl
  split
  · apply Plain.proper
    exact hleaf.congr rfl rfl
  split
  · exact ⟨h.merge, fun _ => (by decide : unwindCommandPLT.toNat < 2 ^ 15)⟩
  split
  · split
    · split
      · apply Plain.proper
        exact hderef.congr rfl rfl
      · exact h.proper
    · exact h.proper
  · exact h.proper

lemma getUnwindInfoX86_proper : Proper regs.getUnwindInfoX86 := by
  unfold getUnwindInfoX86
  split
  · exact proper_stop
  split
  · split
    · exact proper_invalid
    · exact proper_stop
  extract_lets raReg raInReg flags info
  split
  · exact proper_invalid
  have hflags : flags &&& unwindFlagCommand = 0 := by
    unfold flags
    split <;> decide
  have hinfo : Proper info := regs.cfaInfoX86_proper (regs.fpInfoX86_plain ⟨rfl, hflags⟩)
  split
  · exact proper_invalid
  split
  · exact ⟨hinfo.1, hinfo.2⟩
  · exact hinfo

lemma getUnwindInfoARM_proper : Proper regs.getUnwindInfoARM := by
  unfold getUnwindInfoARM
  split
  · exact proper_stop
  split
  · exact proper_stop
  extract_lets info info'
  have hinfo : Plain info := by
    unfold info
    split
    · exact .of_flags_zero rfl rfl
    split <;> exact .of_flags_zero rfl rfl
  have hinfo' : Plain info' := by
    unfold info'
    split
    · exact hinfo.congr rfl rfl
    split
    · exact hinfo.congr rfl rfl
    · exact hinfo
  split
  · apply Plain.proper
    exact hinfo'.or unwindFlagFrame (by decide)
  · exact hinfo'.proper

lemma getUnwindInfo_proper {allow : Bool} (h : regs.getUnwindInfo allow = some info) :
    Proper info := by
  obtain ⟨raw, hraw, rfl⟩ := Option.map_eq_some_iff.mp h
  have hproper : Proper raw := by
    split at hraw
    · cases hraw
      exact getUnwindInfoARM_proper regs
    · cases hraw
      exact getUnwindInfoX86_proper regs
    · cases hraw
  split
  · exact proper_invalid
  · exact hproper

end VmRegs

/-! ## Blocks -/

/-- What holds of interval data while it is collected. -/
structure Sound (iv : IntervalData) : Prop where
  canonical : ∀ b ∈ iv.blocks, AllCanonical b.deltas
  empty : iv.blocks = [] → iv.numDeltas = 0

variable {iv : IntervalData} {P : IntervalData → Prop}

/-- **Step lemma.** A block with canonical recipes is added or merged. -/
lemma Sound.add (h : Sound iv) {bb : BasicBlock}
    (hbb : AllCanonical bb.deltas) : Sound (iv.add bb) := by
  have happend : Sound ⟨(iv.numDeltas + bb.deltas.length) % 2 ^ 32, iv.blocks ++ [bb]⟩ := by
    refine ⟨?_, by simp⟩
    intro b hb
    rcases mem_append.mp hb with hb | hb
    · exact h.canonical b hb
    · rw [mem_singleton.mp hb]
      exact hbb
  unfold IntervalData.add
  split
  · exact happend
  · next lastBlock hlast =>
    split
    · refine ⟨?_, by simp⟩
      intro b hb
      rcases mem_append.mp hb with hb | hb
      · exact h.canonical b (dropLast_subset _ hb)
      · rw [mem_singleton.mp hb]
        exact h.canonical lastBlock (mem_of_getLast? hlast)
    · exact happend

def Extraction.Sound (s : Extraction) : Prop := ElfUnwind.Sound s.intervals

lemma onReader_triple {x : Comp Cursor α} {V : α → Prop}
    (hx : x.Triple (fun _ => True) fun a _ => V a) :
    (onReader x).Triple (fun s => P s.intervals) fun a s => P s.intervals ∧ V a :=
  hx.zoom fun _ _ h => h

lemma onReader_keeps (x : Comp Cursor α) :
    (onReader x).Triple (fun s => P s.intervals) fun _ s => P s.intervals := by
  have hx : x.Triple (fun _ => True) fun _ _ => True := fun _ _ _ _ _ => trivial
  exact (onReader_triple hx).conseq (fun _ h => h) fun _ _ h => h.1

/-! ## `.eh_frame` and `.debug_frame` -/

/-- **Run lemma.** The rows of an FDE have what every recipe that is added keeps. -/
lemma fdeRows_keeps {P : List StackDelta → Prop} {r : Reader} {cie : CieInfo} {allow : Bool}
    (hadd : ∀ (regs : VmRegs) info, regs.getUnwindInfo allow = some info → ∀ ds offset, P ds →
      P (StackDeltaArray.add ds offset info)) (fuel : ℕ) (st : State) (h : P deltas) :
    (fdeRows r cie allow fuel st deltas).Triple (fun _ => True) fun ds _ => P ds := by
  induction fuel generalizing st deltas with
  | zero => exact .pure fun _ _ => h
  | succ fuel ih =>
    refine .bind .get fun c => ?_
    split
    · exact .pure fun _ _ => h
    · refine Comp.Triple.bind (fun _ _ _ _ _ => trivial) fun next => ?_
      split
      · exact .panic _
      · next info hinfo => exact ih next (hadd _ info hinfo _ _ h)

section
variable (ee : ElfExtractor)
include ee

lemma fdeDeltas_triple (r : Reader) (cie : CieInfo) (ipStart ipLen : Word) :
    (fdeDeltas ee r cie ipStart ipLen).Triple (fun _ => True) fun ds _ => AllCanonical ds := by
  unfold fdeDeltas
  split
  · exact .pure fun _ _ => allCanonical_nil.add 0 (proper_command (by decide))
  · refine .bind (fun _ _ _ _ _ => trivial) fun c => fdeRows_keeps ?_ c.remaining _ allCanonical_nil
    intro regs info hinfo ds offset hds
    exact hds.add offset (regs.getUnwindInfo_proper hinfo)

lemma parseFDE_triple (r : Reader) (n : ℕ) (cie : CieInfo) :
    (parseFDE ee r n cie).Triple Extraction.Sound fun _ s => s.Sound := by
  have hbody : (fdeBody ee r cie).Triple Extraction.Sound fun _ s => s.Sound := by
    refine .bind (onReader_keeps _) fun range => .bind .get fun s => ?_
    dsimp only
    split
    · refine .bind (Q := fun _ s => s.Sound) (.set ?_) fun _ => ?_
      · rintro _ ⟨rfl, hs⟩
        exact hs
      · refine .bind (onReader_triple (fdeDeltas_triple ee r cie _ _)) fun deltas => ?_
        refine .bind .get fun s => .set ?_
        rintro _ ⟨rfl, hs, hdeltas⟩
        exact hs.add hdeltas
    · exact .pure fun _ h => h.2
  exact .bind (onReader_keeps _) fun _ => hbody.deferring fun _ => onReader_keeps _

lemma walkEntry_triple (r : Reader) :
    (walkEntry ee r).Triple Extraction.Sound fun _ s => s.Sound := by
  refine .bind (Comp.Triple.get.conseq (fun _ h => h) fun _ _ h => h.2) fun s => ?_
  refine .bind ((onReader_keeps _).wrapError _) fun entry => ?_
  split
  · exact .pure fun _ h => h
  · split
    · exact .bind ((onReader_keeps _).wrapError _) fun _ => .pure fun _ h => h
    · refine .bind ((onReader_keeps _).wrapError _) fun cie => ?_
      exact .bind ((parseFDE_triple ee r _ cie).wrapError _) fun _ => .pure fun _ h => h

/-- **Run lemma.** A walk over the FDEs keeps the blocks sound. -/
lemma walkFDEs_triple (ef : ElfFile) (frames : ElfRegion) (debug : Bool) :
    (walkFDEs ee ef frames debug).Triple Extraction.Sound fun _ s => s.Sound := by
  have hloop : ∀ r fuel, (walkLoop ee r fuel).Triple Extraction.Sound fun _ s => s.Sound := by
    intro r fuel
    induction fuel with
    | zero => exact .pure fun _ h => h
    | succ fuel ih =>
      refine .bind (Comp.Triple.get.conseq (fun _ h => h) fun _ _ h => h.2) fun s => ?_
      split
      · exact .pure fun _ h => h
      · refine .bind (walkEntry_triple ee r) fun more => ?_
        split
        · exact ih
        · exact .pure fun _ h => h
  exact .bind (onReader_keeps _) fun _ => hloop _ _

lemma parseEHFrame_triple : (parseEHFrame ee).Triple Extraction.Sound fun _ s => s.Sound := by
  refine .bind (onReader_keeps _) fun frames => ?_
  split
  · exact walkFDEs_triple ee _ frames false
  · exact .pure fun _ h => h

lemma parseDebugFrame_triple (ef : ElfFile) :
    (parseDebugFrame ee ef).Triple Extraction.Sound fun _ s => s.Sound := by
  unfold parseDebugFrame
  dsimp only
  split
  · exact walkFDEs_triple ee ef _ true
  · exact .pure fun _ h => h

end

/-! ## `.gopclntab` -/

lemma getFunctionUnwindInfo_proper {name : String} {arch : Machine} {useFP : Bool}
    (h : getFunctionUnwindInfo name arch useFP = some info) : Proper info := by
  have horStop (info : UnwindInfo) (hinfo : Proper info) :
      Proper (if useFP then info else .stop) := by
    split
    · exact hinfo
    · exact proper_stop
  unfold getFunctionUnwindInfo at h
  dsimp only at h
  split at h
  · cases h
    exact proper_stop
  split at h
  · cases h
    exact proper_stop
  split at h
  · cases h
    apply horStop
    split <;> exact proper_command (by decide)
  split at h
  · cases h
    exact horStop _ (proper_command (by decide))
  split at h
  · cases h
    exact horStop _ (proper_command (by decide))
  split at h
  · cases h
    exact proper_command (by decide)
  · cases h

/-- The Go strategies give proper infos. -/
structure GoStrategies.Proper (gs : GoStrategies) : Prop where
  rowInfo : ∀ val s, ElfUnwind.Proper (gs.rowInfo val s)
  funcUnwindInfo : ∀ nameOff info, gs.funcUnwindInfo nameOff = some info → ElfUnwind.Proper info

lemma rowInfoX86_plain (val : BitVec 32) (s : Strategy) : Plain (rowInfoX86 val s) := by
  unfold rowInfoX86
  dsimp only
  split <;> exact .of_flags_zero rfl rfl

lemma rowInfoArm64_plain (val : BitVec 32) (s : Strategy) : Plain (rowInfoArm64 val s) := by
  unfold rowInfoArm64
  split
  · exact .of_flags_zero rfl rfl
  split <;> exact .of_flags_zero rfl rfl

lemma goStrategies_triple (ef : ElfFile) (g : Gopclntab) :
    (goStrategies ef g).Triple (fun _ => True) fun gs _ => gs.Proper := by
  have hfunc (useFP : Bool) : (resolveFunctionUnwindInfo ef g useFP).Triple (fun _ => True)
      fun f _ => ∀ nameOff info, f nameOff = some info → Proper info := by
    refine Comp.Triple.bind (fun _ _ _ _ _ => trivial) fun _ =>
      .bind (fun _ _ _ _ _ => trivial) fun c =>
      Comp.Triple.bind (Q := fun _ _ => True) (fun _ _ _ _ _ => trivial) fun names => .pure ?_
    intro _ _ nameOff info hinfo
    obtain ⟨name, -, hname⟩ := Option.bind_eq_some_iff.mp hinfo
    exact getFunctionUnwindInfo_proper hname
  unfold goStrategies
  split
  · refine Comp.Triple.bind (fun _ _ _ _ _ => trivial) fun cuStrategy => ?_
    refine .bind ((hfunc true).wrapError _) fun f => .pure ?_
    intro _ hf
    exact ⟨fun val s => (rowInfoX86_plain val s).proper, hf⟩
  · refine .bind ((hfunc _).wrapError _) fun f => .pure ?_
    intro _ hf
    exact ⟨fun val s => (rowInfoArm64_plain val s).proper, hf⟩
  · exact .error _

lemma parsePclntab_keeps {P : List StackDelta → Prop} {rowInfo : BitVec 32 → Strategy → UnwindInfo}
    {s : Strategy} (hadd : ∀ ds offset val, P ds →
      P (StackDeltaArray.add ds offset (rowInfo val s)))
    (fuel : ℕ) (p : PcVal) (h : P deltas) : P (parsePclntab rowInfo s fuel p deltas) := by
  induction fuel generalizing p deltas with
  | zero => exact h
  | succ fuel ih =>
    have hnext := hadd _ (p.pcStart.toNat % 2 ^ 32) p.val h
    rw [parsePclntab]
    split
    · exact hnext
    · exact ih _ hnext

section
variable {g : Gopclntab} {gs : GoStrategies} {i : ℕ} {funcPc : Word} {fn : Gopclntab.Func}

lemma goDeltas_cases (h : goDeltas g gs i funcPc fn = .ok (some deltas)) :
    (∃ info, (gs.funcUnwindInfo fn.nameOff = some info ∨
      info = .command unwindCommandFramePointer) ∧
        deltas = StackDeltaArray.add [] 0 info) ∨
      ∃ s p, g.getPcval fn.pcspOff 0 = .ok p ∧
        deltas = parsePclntab gs.rowInfo s (p.ptr.length + 1) p [] := by
  unfold goDeltas at h
  split at h
  · next info hinfo =>
    cases h
    exact .inl ⟨info, .inl hinfo, rfl⟩
  · split at h
    · cases h
    · cases h
      exact .inl ⟨_, .inr rfl, rfl⟩
    · split at h
      · cases h
      · split at h
        · cases h
        · next p hp =>
          cases h
          exact .inr ⟨_, p, hp, rfl⟩

lemma goDeltas_canonical (hgs : gs.Proper) (h : goDeltas g gs i funcPc fn = .ok (some deltas)) :
    AllCanonical deltas := by
  rcases goDeltas_cases h with ⟨info, hinfo | rfl, rfl⟩ | ⟨s, p, -, rfl⟩
  · exact allCanonical_nil.add 0 (hgs.funcUnwindInfo _ _ hinfo)
  · exact allCanonical_nil.add 0 (proper_command (by decide))
  · exact parsePclntab_keeps (fun ds offset val h => h.add offset (hgs.rowInfo val s)) _ p
      allCanonical_nil

end

lemma liftFault_keeps {P : Extraction → Prop} (x : Except Fault α) :
    (liftFault x).Triple P fun _ s => P s := by
  cases x with
  | ok a => exact .pure fun _ h => h
  | error f =>
    intro s a t _ h
    cases h

section Blocks

variable {P : IntervalData → Prop}

lemma goFunction_keeps {g : Gopclntab} {gs : GoStrategies}
    (hadd : ∀ iv i funcPc fn start stop deltas, goDeltas g gs i funcPc fn = .ok (some deltas) →
      P iv → P (iv.add ⟨start, stop, deltas⟩)) (i : ℕ) :
    (goFunction g gs i).Triple (fun s => P s.intervals) fun _ s => P s.intervals := by
  refine .bind (liftFault_keeps _) fun entry => ?_
  dsimp only
  split
  · exact .error _
  · split
    · exact .error _
    · refine .bind (liftFault_keeps _) fun next => ?_
      split
      · exact .error _
      · exact .pure fun _ h => h
      · next deltas hdeltas =>
        refine .bind .get fun s => .set ?_
        rintro _ ⟨rfl, hs⟩
        exact hadd _ _ _ _ _ _ _ hdeltas hs

lemma parseGoPclntab_keeps
    (hadd : ∀ g gs, GoStrategies.Proper gs → ∀ iv i funcPc fn start stop deltas,
      goDeltas g gs i funcPc fn = .ok (some deltas) → P iv → P (iv.add ⟨start, stop, deltas⟩))
    (ee : ElfExtractor) :
    (parseGoPclntab ee).Triple (fun s => P s.intervals) fun _ s => P s.intervals := by
  have hloop : ∀ g gs, gs.Proper → ∀ n i,
      (goFunctions g gs n i).Triple (fun s => P s.intervals) fun _ s => P s.intervals := by
    intro g gs hgs n
    induction n with
    | zero =>
      intro i
      exact .pure fun _ h => h
    | succ n ih =>
      intro i
      exact .bind (goFunction_keeps (hadd g gs hgs) i) fun _ => ih (i + 1)
  unfold parseGoPclntab
  split
  · exact .error _
  · exact .pure fun _ h => h
  · split
    · exact .error _
    · next g _ =>
      refine .bind (onReader_triple (goStrategies_triple ee.file g)) fun gs => .assume fun hgs => ?_
      refine .bind (hloop g gs hgs _ _) fun _ => .bind (liftFault_keeps _) fun start =>
        .bind (liftFault_keeps _) fun stop => .bind .get fun s => .set ?_
      rintro _ ⟨rfl, hs⟩
      exact hs

end Blocks

lemma parseGoPclntab_triple (ee : ElfExtractor) :
    (parseGoPclntab ee).Triple Extraction.Sound fun _ s => s.Sound := by
  apply parseGoPclntab_keeps
  intro g gs hgs iv i funcPc fn start stop deltas hdeltas hiv
  exact hiv.add (goDeltas_canonical hgs hdeltas)

/-! ## Files -/

lemma entryExtraction_sound (env : ExtractEnv) (elfFile : ElfFile) :
    (entryExtraction env elfFile).Sound := by
  have hempty : ElfUnwind.Sound ⟨0, []⟩ := ⟨by simp, fun _ => rfl⟩
  unfold entryExtraction
  dsimp only
  split
  · exact hempty
  · exact hempty.add (allCanonical_nil.add 0 proper_stop)

lemma extractFile_sound {env : ExtractEnv} (hsort : ∀ l, (env.sort l).Perm l) {elfFile : ElfFile}
    (h : extractFile env elfFile = .ok iv) : Sound iv := by
  have hsources : ∀ ee, (parseSources env ee).Triple Extraction.Sound fun _ s => s.Sound := by
    intro ee
    refine .bind ((parseGoPclntab_triple ee).wrapError _) fun _ =>
      .bind ((parseEHFrame_triple ee).wrapError _) fun _ =>
      .bind ((parseDebugFrame_triple ee _).wrapError _) fun _ => .wrapError _ ?_
    refine .bind (Comp.Triple.get.conseq (fun _ h => h) fun _ _ h => h.2) fun s => ?_
    split
    · split
      · exact .pure fun _ h => h
      · exact parseDebugFrame_triple ee _
    · exact .pure fun _ h => h
  unfold extractFile at h
  dsimp only at h
  split at h
  · cases h
  · next u s hexec =>
    have hs := hsources _ _ _ _ (entryExtraction_sound env elfFile) hexec
    cases h
    split
    · have hperm := hsort s.intervals.blocks
      refine ⟨fun b hb => hs.canonical b (hperm.mem_iff.mp hb), fun hnil => hs.empty ?_⟩
      exact (List.Perm.nil_eq (hnil ▸ hperm)).symm
    · exact hs

/-! ## Extraction and loading -/

open ExecInfo in
/-- A file is loaded without a panic, in every run, exactly if every row has its counter. -/
theorem loadDeltas_extractFile_safe_iff {ι : Type} {env : ExtractEnv}
    (hsort : ∀ l, (env.sort l).Perm l) {elfFile : ElfFile} {iv : IntervalData}
    (h : extractFile env elfFile = .ok iv) :
    (∀ (outcome : LoadOutcome) (fileID : FileID) (events : List (Event ι)),
      ¬ (loadDeltas outcome fileID iv).Panics (run ManagerState.new events)) ↔
    iv.numDeltas = 0 ∨ Loadable iv := by
  have hiv := extractFile_sound hsort h
  exact loadDeltas_safe_iff hiv.canonical hiv.empty

def ehFrameFile (ehFrame : List Byte) : ElfFile where
  machine := .x86_64
  entry := 0
  insideCore := false
  underlying := List.replicate 64 0 ++ ehFrame
  findSection name :=
    if name = ".eh_frame" then
      some ⟨false, false, 64, BitVec.ofNat 64 ehFrame.length, 0x20000, .ok ehFrame⟩
    else none
  progs := []
  progByVirtualAddress _ := none
  virtualMemory _ _ := .error "no matching segment"
  soNames := none
  pclntabSymbols := (0, 0)
  moduleText := .error "symbol not found"
  goVersionOld := true

/-- Nothing is disassembled, and there is no debug file. -/
def sampleEnv : ExtractEnv where
  disassembler := ⟨fun _ => none, fun _ => none⟩
  sort l := l.insertionSort fun a b => a.start ≤ b.start
  hasRef := false
  openDebugLink := none

/-- A CIE with the CFA at `rsp + 8`, an FDE for `[0x10000, 0x10010)`, and the end marker. -/
def ordinaryEhFrame : List Byte :=
  [0x14, 0, 0, 0,  0, 0, 0, 0,  1,  0x7a, 0x52, 0,  1,  0x78,  0x10,  1, 0,
    0x0c, 7, 8,  0x90, 1,  0, 0,
    0x18, 0, 0, 0,  0x1c, 0, 0, 0,  0, 0, 1, 0, 0, 0, 0, 0,  0x10, 0, 0, 0, 0, 0, 0, 0,  0,
    0x41,  0x0e, 0x10,
    0, 0, 0, 0]

def ordinaryIntervals : IntervalData :=
  ⟨2, [⟨0x10000, 0x10010, [⟨0, { baseReg := unwindRegSp, param := 8 }⟩,
    ⟨1, { baseReg := unwindRegSp, param := 16 }⟩]⟩]⟩

theorem loadDeltas_extractFile_safe_ordinary :
    extractFile sampleEnv (ehFrameFile ordinaryEhFrame) = .ok ordinaryIntervals ∧
    ∀ (outcome : ExecInfo.LoadOutcome) (fileID : ExecInfo.FileID)
      (events : List (ExecInfo.Event Unit)),
      ¬ (ExecInfo.loadDeltas outcome fileID ordinaryIntervals).Panics
        (ExecInfo.run ExecInfo.ManagerState.new events) := by
  have hextract : extractFile sampleEnv (ehFrameFile ordinaryEhFrame) = .ok ordinaryIntervals := by
    decide +kernel
  refine ⟨hextract, ?_⟩
  refine (loadDeltas_extractFile_safe_iff (fun l => perm_insertionSort _ l) hextract).mpr ?_
  exact .inr (ExecInfo.loadable_of_forall (by decide +kernel) (by decide +kernel))

/-- As before, but the FDE is that of a signal handler, at the start of a page. -/
def signalEhFrame : List Byte :=
  [0x10, 0, 0, 0,  0, 0, 0, 0,  1,  0x7a, 0x52, 0x53, 0,  1,  0x78,  0x10,  1, 0,  0, 0,
    0x18, 0, 0, 0,  0x18, 0, 0, 0,  0, 0, 1, 0, 0, 0, 0, 0,  0x10, 0, 0, 0, 0, 0, 0, 0,  0,
    0, 0, 0,
    0, 0, 0, 0]

/-- The recipe of a signal handler is written one byte early, in a page that is not counted. -/
theorem loadDeltas_signal_panics :
    extractFile sampleEnv (ehFrameFile signalEhFrame) =
        .ok ⟨1, [⟨0x10000, 0x10010, [⟨0, .signal⟩]⟩]⟩ ∧
      ((ExecInfo.loadDeltas ⟨fun _ _ => none, none, none, none⟩ 1
          ⟨1, [⟨0x10000, 0x10010, [⟨0, .signal⟩]⟩]⟩).exec
        (ExecInfo.ManagerState.new : ExecInfo.ManagerState Unit)).1 =
        .error (.panic "index out of range") := by
  decide +kernel

end EbpfProfiler.ElfUnwind
