import EbpfProfiler.Lib.Bisect
import EbpfProfiler.ProcessManager.ReferenceCounts

/-!
# The mapping of an address of a file

`findMappingForTrace` (`processinfo.go`) bisects mappings that need not ascend in the file.
-/

namespace EbpfProfiler.ProcessManager

open List Mapping State
open ExecInfo Lib Reporter Wire

variable {m : Mapping} {pid : Pid}

/-! ## The lookup -/

/-- The test of the search in `findMappingForTrace`. -/
def Mapping.notBefore (fid : FileID) (addr : Word) (m : Mapping) : Bool :=
  if m.fileID ≠ fid then fid ≤ m.fileID else addr ≤ m.frameMapping.start

/-- The mapping is of the file and has the address. -/
def Mapping.Has (fid : FileID) (addr : Word) (m : Mapping) : Prop :=
  m.fileID = fid ∧ m.frameMapping.start ≤ addr ∧ addr < m.frameMapping.end

instance (fid : FileID) (addr : Word) (m : Mapping) : Decidable (m.Has fid addr) :=
  inferInstanceAs (Decidable (_ ∧ _ ∧ _))

def searchedMapping (maps : List Mapping) (fid : FileID) (addr : Word) : Option Mapping :=
  match firstPassing (fun i => maps[i]?.any (Mapping.notBefore fid addr)) maps.length with
  | 0 => none
  | i + 1 => maps[i]?

/-- `findMappingForTrace`, of the mappings of the process. -/
def findMapping (maps : List Mapping) (fid : FileID) (addr : Word) : Option FrameMappingData :=
  match searchedMapping maps fid addr with
  | none => none
  | some m => if m.Has fid addr then some m.frameMapping else none

variable {ι : Type}

def State.findMappingForTrace (s : State ι) (pid : Pid) (fid : FileID) (addr : Word) :
    Option FrameMappingData :=
  match s.pidToProcessInfo.lookup pid with
  | none => none
  | some info => findMapping info.mappings fid addr

/-! ## The order of the mappings -/

lemma Mapping.le_iff (a b : Mapping) :
    a.le b = true ↔ a.fileID < b.fileID ∨ a.fileID = b.fileID ∧ a.vaddr ≤ b.vaddr := by
  unfold Mapping.le
  by_cases h : a.fileID = b.fileID <;> simp [h]

lemma Mapping.le_total (a b : Mapping) : a.le b = true ∨ b.le a = true := by
  rw [le_iff, le_iff]
  bv_omega

lemma Mapping.le_trans {a b c : Mapping} (h : a.le b = true) (h' : b.le c = true) :
    a.le c = true := by
  rw [le_iff] at *
  bv_omega

instance : Std.Total fun a b : Mapping => a.le b = true := ⟨le_total⟩

instance : IsTrans Mapping fun a b => a.le b = true := ⟨fun _ _ _ => le_trans⟩

/-- The mappings of every process are in the order of `compareMapping`. -/
def State.Ordered (s : State ι) : Prop :=
  ∀ pid info, s.pidToProcessInfo.lookup pid = some info →
    info.mappings.Pairwise fun a b => a.le b = true

section
variable {P : List Mapping → Prop} {s t : State ι} (h : s.Each P)
include h

lemma processPIDExit_each (kernel : KernelOutcome) (now : Time) (detach : List InterpreterOp)
    (pid : Pid) : (processPIDExit kernel now detach pid s).Each P := by
  unfold processPIDExit
  split
  · exact h
  · split
    · exact h
    · exact h

lemma getOrCreateProcessInfo_each {kernel : KernelOutcome} {info : ProcessInfo} (hnil : P [])
    (hget : getOrCreateProcessInfo kernel pid s = some (t, info)) :
    t.Each P ∧ P info.mappings := by
  unfold getOrCreateProcessInfo at hget
  split at hget
  · next hinfo =>
    cases hget
    exact ⟨h, h pid info hinfo⟩
  · split at hget
    · cases hget
    · cases hget
      exact ⟨h.insert hnil rfl, hnil⟩

lemma synchronizeProcess_each {call : SyncCall ι} (hnil : P [])
    (hcall : ∀ ms eim, P ms → P ((collect call ms eim).mappings.insertionSort fun a b => a.le b))
    (pid : Pid) : (synchronizeProcess call pid s).Each P := by
  unfold synchronizeProcess
  split
  · exact h
  · split
    · exact h
    · next t info hget =>
      obtain ⟨hget', hinfo⟩ := getOrCreateProcessInfo_each h hnil hget
      have ht : (afterCollect call pid (collect call info.mappings t.eim) t).Each P := hget'
      have hfinish := ht.insert (hcall info.mappings t.eim hinfo)
        (t := finishSync call pid (collect call info.mappings t.eim) _) rfl
      split
      · exact hfinish
      · exact hfinish
      · exact ht
      · exact ht
      · exact processPIDExit_each ht _ _ _ pid
      · exact processPIDExit_each ht _ _ _ pid

end

lemma run_each {P : List Mapping → Prop} (hnil : P []) (events : List (PmEvent ι))
    (hsync : ∀ pid call, .synchronizeProcess pid call ∈ events → ∀ ms eim, P ms →
      P ((collect call ms eim).mappings.insertionSort fun a b => a.le b)) :
    (new.run events : State ι).Each P := by
  induction events using reverseRecOn with
  | nil => exact fun pid info h => nomatch h
  | append_singleton events event ih =>
    have h := ih fun pid call hmem => hsync pid call (mem_append_left _ hmem)
    rw [State.run, foldl_append]
    cases event with
    | synchronizeProcess pid call =>
      exact synchronizeProcess_each h hnil (hsync pid call mem_concat_self) pid
    | processPIDExit pid kernel now detach => exact processPIDExit_each h kernel now detach pid
    | processedUntil traceCaptureKTime detach =>
      exact processedUntil_preserves (P := State.Each P)
        (fun s pid hs _ => forgetProcess_each hs (detach pid) pid) traceCaptureKTime h
    | interpreter pid ops => exact h
    | cleanupUnused outcome cutoff order => exact h

lemma run_ordered (events : List (PmEvent ι)) : (new.run events : State ι).Ordered :=
  run_each (P := fun ms => ms.Pairwise fun a b : Mapping => a.le b = true) Pairwise.nil events
    fun _ _ _ _ _ _ => pairwise_insertionSort _ _

/-! ## Where the search ends -/

variable {maps : List Mapping} {fid : FileID} {addr : Word}

/-- The search ends with the mapping in front before the address, and the next one not. -/
lemma searchedMapping_cases (maps : List Mapping) (fid : FileID) (addr : Word) :
    (searchedMapping maps fid addr = none ∧
        ∀ n, maps.head? = some n → n.notBefore fid addr = true) ∨
      ∃ pre m post, maps = pre ++ m :: post ∧ searchedMapping maps fid addr = some m ∧
        m.notBefore fid addr = false ∧ ∀ n, post.head? = some n → n.notBefore fid addr = true := by
  have hfound := firstPassing_found (fun i => maps[i]?.any (Mapping.notBefore fid addr)) maps.length
  unfold searchedMapping
  cases hr : firstPassing (fun i => maps[i]?.any (Mapping.notBefore fid addr)) maps.length with
  | zero =>
    rw [hr] at hfound
    refine .inl ⟨rfl, fun n hn => ?_⟩
    rw [head?_eq_getElem?] at hn
    have hpass := Except.ok.inj (hfound.pass (List.getElem?_eq_some_iff.mp hn).1)
    rwa [hn] at hpass
  | succ i =>
    rw [hr] at hfound
    have hi : i < maps.length := hfound.le_hi
    have hm : maps[i]? = some maps[i] := getElem?_eq_getElem hi
    refine .inr ⟨maps.take i, maps[i], maps.drop (i + 1), ?_, hm, ?_, fun n hn => ?_⟩
    · rw [getElem_cons_drop, take_append_drop]
    · have hfail := Except.ok.inj (hfound.fail (Nat.succ_pos i))
      rw [Nat.add_sub_cancel, hm] at hfail
      exact hfail
    · rw [head?_drop] at hn
      have hpass := Except.ok.inj (hfound.pass (List.getElem?_eq_some_iff.mp hn).1)
      rwa [hn] at hpass

lemma mem_of_searchedMapping (h : searchedMapping maps fid addr = some m) :
    m ∈ maps ∧ m.notBefore fid addr = false := by
  obtain ⟨hnone, -⟩ | ⟨pre, n, post, hmaps, hn, hbefore, -⟩ := searchedMapping_cases maps fid addr
  · rw [hnone] at h
    cases h
  · obtain rfl : n = m := Option.some.inj (hn.symm.trans h)
    rw [hmaps]
    exact ⟨mem_append_right _ mem_cons_self, hbefore⟩

lemma Mapping.notBefore_eq_true (hfile : m.fileID = fid) :
    m.notBefore fid addr = true ↔ ¬m.frameMapping.start < addr := by
  unfold Mapping.notBefore
  rw [if_neg (not_not_intro hfile), decide_eq_true_eq, BitVec.not_lt]

/-- The search ends behind a mapping exactly when it tells apart the mappings of the file on the
way; the order of the list does so for the others. -/
lemma searchedMapping_eq_iff {i : ℕ} (hle : maps.Pairwise fun a b => a.le b = true)
    (hi : maps[i]? = some m) (hfile : m.fileID = fid) :
    firstPassing (fun i => maps[i]?.any (Mapping.notBefore fid addr)) maps.length = i + 1 ↔
      ∀ h ∈ probes (i + 1) maps.length 0 maps.length, ∀ n, maps[h]? = some n → n.fileID = fid →
        (n.frameMapping.start < addr ↔ h ≤ i) := by
  obtain ⟨hlt, hget⟩ := List.getElem?_eq_some_iff.mp hi
  rw [firstPassing_eq_iff _ hlt]
  refine forall₂_congr fun h hmem => ?_
  have hh := (lt_of_mem_probes hmem).2
  have hn : maps[h]? = some maps[h] := getElem?_eq_getElem hh
  rw [hn]
  simp only [Option.any_some, Option.some.injEq, forall_eq']
  by_cases hnfile : maps[h].fileID = fid
  · rw [notBefore_eq_true hnfile]
    simp only [hnfile, forall_const]
    have hside : i + 1 ≤ h ↔ ¬h ≤ i := by omega
    rw [hside, not_iff_not]
  · simp only [hnfile, false_implies, iff_true]
    unfold Mapping.notBefore
    rw [if_pos hnfile, decide_eq_true_eq]
    rcases Nat.lt_trichotomy h i with hlt' | rfl | hgt
    · have horder := (le_iff _ _).mp (pairwise_iff_getElem.mp hle h i hh hlt hlt')
      rw [hget, hfile] at horder
      refine iff_of_false ?_ (by omega)
      bv_omega
    · exact absurd (hget ▸ hfile) hnfile
    · have horder := (le_iff _ _).mp (pairwise_iff_getElem.mp hle i h hlt hh hgt)
      rw [hget, hfile] at horder
      refine iff_of_true ?_ (by omega)
      bv_omega

lemma searchedMapping_eq_some_iff : searchedMapping maps fid addr = some m ↔
    ∃ i, maps[i]? = some m ∧
      firstPassing (fun i => maps[i]?.any (Mapping.notBefore fid addr)) maps.length = i + 1 := by
  unfold searchedMapping
  split
  · next h => simp [h]
  · next i h => simp [h]

/-! ## What the lookup answers -/

/-- The right answer: a mapping of the file with the address if there is one. -/
def Answers (maps : List Mapping) (fid : FileID) (addr : Word) (answer : Option FrameMappingData) :
    Prop :=
  ((∃ m ∈ maps, m.Has fid addr) → ∃ m ∈ maps, m.Has fid addr ∧ answer = some m.frameMapping) ∧
    ((∀ m ∈ maps, ¬m.Has fid addr) → answer = none)

lemma findMapping_answers_iff (maps : List Mapping) (fid : FileID) (addr : Word) :
    Answers maps fid addr (findMapping maps fid addr) ↔
      (∀ m ∈ maps, ¬m.Has fid addr) ∨
        ∃ m, searchedMapping maps fid addr = some m ∧ m.Has fid addr := by
  have hnone (h : ∀ m, searchedMapping maps fid addr = some m → ¬m.Has fid addr) :
      findMapping maps fid addr = none := by
    unfold findMapping
    split
    · rfl
    · next m hm => rw [if_neg (h m hm)]
  constructor
  · intro h
    by_cases hsome : ∃ m ∈ maps, m.Has fid addr
    · right
      by_contra hend
      obtain ⟨m, -, -, hanswer⟩ := h.1 hsome
      rw [hnone fun m hm hhas => hend ⟨m, hm, hhas⟩] at hanswer
      cases hanswer
    · left
      exact fun m hm hhas => hsome ⟨m, hm, hhas⟩
  · rintro (hno | ⟨m, hm, hhas⟩)
    · refine ⟨fun ⟨m, hm, hhas⟩ => absurd hhas (hno m hm), fun _ => hnone fun m hm => ?_⟩
      exact hno m (mem_of_searchedMapping hm).1
    · have hmem := (mem_of_searchedMapping hm).1
      refine ⟨fun _ => ⟨m, hmem, hhas, ?_⟩, fun hno => absurd hhas (hno m hmem)⟩
      unfold findMapping
      rw [hm]
      exact if_pos hhas

def Ascends (maps : List Mapping) (fid : FileID) : Prop :=
  maps.Pairwise fun m n =>
    m.fileID = fid → n.fileID = fid → m.frameMapping.start ≤ n.frameMapping.start

/-- The mapping is of the file and starts before the address. -/
def Mapping.before (fid : FileID) (addr : Word) (m : Mapping) : Bool :=
  m.fileID = fid ∧ m.frameMapping.start < addr

lemma notBefore_of_le {n : Mapping} (hle : m.le n = true)
    (hasc : m.fileID = fid → n.fileID = fid → m.frameMapping.start ≤ n.frameMapping.start)
    (h : m.notBefore fid addr = true) : n.notBefore fid addr = true := by
  rw [le_iff] at hle
  unfold Mapping.notBefore at h ⊢
  by_cases hm : m.fileID = fid
  · rw [if_neg (not_not_intro hm), decide_eq_true_eq] at h
    by_cases hn : n.fileID = fid
    · rw [if_neg (not_not_intro hn), decide_eq_true_eq]
      exact BitVec.le_trans h (hasc hm hn)
    · rw [if_pos hn, decide_eq_true_eq]
      bv_omega
  · rw [if_pos hm, decide_eq_true_eq] at h
    have hn : n.fileID ≠ fid := by bv_omega
    rw [if_pos hn, decide_eq_true_eq]
    bv_omega

lemma before_eq_false (h : m.notBefore fid addr = true) : m.before fid addr = false := by
  unfold Mapping.notBefore at h
  unfold Mapping.before
  rw [decide_eq_false_iff_not]
  rintro ⟨hfile, hstart⟩
  rw [if_neg (not_not_intro hfile), decide_eq_true_eq] at h
  exact BitVec.not_le.mpr hstart h

lemma filter_before_eq_nil {l : List Mapping} (hle : l.Pairwise fun a b => a.le b = true)
    (hasc : Ascends l fid) (hhead : ∀ n, l.head? = some n → n.notBefore fid addr = true) :
    l.filter (Mapping.before fid addr) = [] := by
  rw [filter_eq_nil_iff]
  intro n hn
  rw [Bool.not_eq_true]
  apply before_eq_false
  cases l with
  | nil => cases hn
  | cons m l =>
    have hm := hhead m rfl
    obtain rfl | hn := mem_cons.mp hn
    · exact hm
    · exact notBefore_of_le ((pairwise_cons.mp hle).1 n hn)
        ((pairwise_cons.mp hasc).1 n hn) hm

/-- Where mappings of the file ascend, the search ends behind the last one before the address. -/
lemma getLast?_filter_before (hle : maps.Pairwise fun a b => a.le b = true)
    (hasc : Ascends maps fid) : (maps.filter (Mapping.before fid addr)).getLast? =
      (searchedMapping maps fid addr).filter (Mapping.before fid addr) := by
  obtain ⟨hnone, hhead⟩ | ⟨pre, m, post, rfl, hm, hbefore, hpost⟩ :=
    searchedMapping_cases maps fid addr
  · rw [hnone, filter_before_eq_nil hle hasc hhead]
    rfl
  · obtain ⟨-, hle', hpre⟩ := pairwise_append.mp hle
    have hbehind : post.filter (Mapping.before fid addr) = [] :=
      filter_before_eq_nil (pairwise_cons.mp hle').2
        (pairwise_cons.mp (pairwise_append.mp hasc).2.1).2 hpost
    rw [hm, filter_append, filter_cons, hbehind]
    by_cases hfile : m.fileID = fid
    · have hmb : m.before fid addr = true := by
        unfold Mapping.notBefore at hbefore
        rw [if_neg (not_not_intro hfile), decide_eq_false_iff_not] at hbefore
        exact decide_eq_true ⟨hfile, BitVec.not_le.mp hbefore⟩
      rw [if_pos hmb, getLast?_concat, Option.filter_some_pos hmb]
    · -- the mappings in front of one of a smaller file are of smaller files, too
      have hmb : m.before fid addr = false := decide_eq_false fun h => hfile h.1
      have hfront : pre.filter (Mapping.before fid addr) = [] := by
        rw [filter_eq_nil_iff]
        intro n hn hnb
        have hnm := (le_iff n m).mp (hpre n hn m mem_cons_self)
        have hnfile : n.fileID = fid := (of_decide_eq_true hnb).1
        unfold Mapping.notBefore at hbefore
        rw [if_pos hfile, decide_eq_false_iff_not] at hbefore
        bv_omega
      rw [hmb, hfront, Option.filter_some_neg hmb]
      rfl

lemma has_iff_before (h : m.notBefore fid addr = false) :
    m.Has fid addr ↔ m.before fid addr = true ∧ addr < m.frameMapping.end := by
  unfold Mapping.Has Mapping.before
  rw [decide_eq_true_eq]
  constructor
  · rintro ⟨hfile, -, hend⟩
    unfold Mapping.notBefore at h
    rw [if_neg (not_not_intro hfile), decide_eq_false_iff_not] at h
    exact ⟨⟨hfile, BitVec.not_le.mp h⟩, hend⟩
  · rintro ⟨⟨hfile, hstart⟩, hend⟩
    exact ⟨hfile, BitVec.le_of_lt hstart, hend⟩

/-- **The mapping of an address.** The answer is right exactly when no mapping of the file has the
address, or one with it tells apart the mappings of the file on the way of a bisection: up to it
they start before the address, and behind it they do not. Where they ascend, it is the last one that
starts before the address. -/
theorem findMappingForTrace_iff {events : List (PmEvent ι)} {pid : Pid} {info : ProcessInfo}
    (hinfo : (new.run events).pidToProcessInfo.lookup pid = some info) (fid : FileID)
    (addr : Word) :
    (Answers info.mappings fid addr
        ((new.run events).findMappingForTrace pid fid addr) ↔
      (∀ m ∈ info.mappings, ¬m.Has fid addr) ∨
        ∃ i m, info.mappings[i]? = some m ∧ m.Has fid addr ∧
          ∀ h ∈ probes (i + 1) info.mappings.length 0 info.mappings.length, ∀ n,
            info.mappings[h]? = some n → n.fileID = fid →
              (n.frameMapping.start < addr ↔ h ≤ i)) ∧
    (Ascends info.mappings fid →
      (Answers info.mappings fid addr
          ((new.run events).findMappingForTrace pid fid addr) ↔
        (∀ m ∈ info.mappings, ¬m.Has fid addr) ∨
          ∃ m, (info.mappings.filter (Mapping.before fid addr)).getLast? = some m ∧
            addr < m.frameMapping.end)) := by
  have hfind : (new.run events).findMappingForTrace pid fid addr =
      findMapping info.mappings fid addr := by
    unfold findMappingForTrace
    rw [hinfo]
  have hordered := run_ordered events pid info hinfo
  rw [hfind, findMapping_answers_iff]
  refine ⟨or_congr_right ?_, fun hasc => or_congr_right (exists_congr fun m => ?_)⟩
  · simp only [searchedMapping_eq_some_iff]
    constructor
    · rintro ⟨m, ⟨i, hi, hend⟩, hhas⟩
      exact ⟨i, m, hi, hhas, (searchedMapping_eq_iff hordered hi hhas.1).mp hend⟩
    · rintro ⟨i, m, hi, hhas, hprobes⟩
      exact ⟨m, ⟨i, hi, (searchedMapping_eq_iff hordered hi hhas.1).mpr hprobes⟩, hhas⟩
  · rw [getLast?_filter_before hordered hasc, Option.filter_eq_some_iff, and_assoc]
    refine and_congr_right fun hm => ?_
    exact has_iff_before (mem_of_searchedMapping hm).2

/-- The third page of the file is mapped in front of the second one. -/
def descendingSync : SyncCall Unit :=
  { sampleSync none with
    delivered := [{ sampleRaw with fileOffset := 0x2000 },
      { sampleRaw with vaddr := 0x7f0000001000, fileOffset := 0x1000 }] }

/-- What is tracked after it. -/
def descendingPages : List Mapping :=
  descendingSync.delivered.map fun m => m.track (m.frameMapping sampleElf.mappingFile m.fileOffset)

theorem findMappingForTrace_descending :
    Answers descendingPages 7 0x1123
      ((new.run [.synchronizeProcess 42 descendingSync]).findMappingForTrace 42 7 0x1123) := by
  refine (@findMappingForTrace_iff Unit _ 42 ⟨descendingPages⟩ (by decide +kernel) 7 0x1123).1.mpr
    (.inr ⟨1, _, rfl, by decide +kernel, ?_⟩)
  intro h hmem n hn _
  obtain rfl : h = 1 := by simpa [probes, descendingPages, descendingSync] using hmem
  cases hn
  decide +kernel

/-- A mapping is not found for its start, and out of file order not even in the middle. -/
theorem findMappingForTrace_missed :
    (((new.run [.synchronizeProcess 42 (sampleSync none)]).pidToProcessInfo.lookup 42 =
        some ⟨[samplePage]⟩ ∧ samplePage.Has 7 0) ∧
      (new.run [.synchronizeProcess 42 (sampleSync none)]).findMappingForTrace 42 7 0 = none) ∧
    ((((new.run [.synchronizeProcess 42 descendingSync]).pidToProcessInfo.lookup 42).any
        fun info => info.mappings.any fun m => m.Has 7 0x2123) = true ∧
      (new.run [.synchronizeProcess 42 descendingSync]).findMappingForTrace 42 7 0x2123 =
        none) := by
  decide +kernel

end EbpfProfiler.ProcessManager
