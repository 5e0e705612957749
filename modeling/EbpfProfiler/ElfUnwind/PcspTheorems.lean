import EbpfProfiler.ElfUnwind.GoSymbolize
import EbpfProfiler.ElfUnwind.WalkTheorems

/-!
# Deltas of a Go function and the value at an address

The block and `mapPcval` read one table of stack adjustments (`parsePclntab_mapPcval`).
-/

namespace EbpfProfiler.ElfUnwind

open Lib StackDeltas List BitVec Nat

/-! ## Deltas by offset -/

/-- The last delta with an offset up to `off`. -/
def deltaAt (deltas : List StackDelta) (off : ℕ) : Option StackDelta :=
  (deltas.filter fun d => d.offset ≤ off).getLast?

/-- The offsets do not decrease, and none is behind `stop`. -/
structure OrderedTo (deltas : List StackDelta) (stop : ℕ) : Prop where
  ordered : deltas.Pairwise fun d e => d.offset ≤ e.offset
  le : ∀ d ∈ deltas, d.offset ≤ stop

section Deltas

variable {deltas : List StackDelta} {offset stop off : ℕ} {info : UnwindInfo}

lemma orderedTo_nil (stop : ℕ) : OrderedTo [] stop := ⟨.nil, by simp⟩

lemma OrderedTo.mono (h : OrderedTo deltas offset) (hle : offset ≤ stop) : OrderedTo deltas stop :=
  ⟨h.ordered, fun d hd => le_trans (h.le d hd) hle⟩

lemma add_cases (deltas : List StackDelta) (offset : ℕ) (hinfo : info.isCommand = false) :
    (StackDeltaArray.add deltas offset info = deltas ∧ ∃ last, deltas.getLast? = some last ∧
      last.info = info) ∨ StackDeltaArray.add deltas offset info = deltas ++ [⟨offset, info⟩] := by
  have hsame : (if info.isCommand then UnwindInfo.command info.param else info) = info := by
    rw [hinfo]
    rfl
  have hcases := StackDeltaArray.add_cases deltas offset info
  rwa [hsame] at hcases

lemma OrderedTo.add (h : OrderedTo deltas offset) (hinfo : info.isCommand = false) :
    OrderedTo (StackDeltaArray.add deltas offset info) offset := by
  rcases add_cases deltas offset hinfo with ⟨heq, -⟩ | heq
  · rw [heq]
    exact h
  · rw [heq]
    constructor
    · rw [pairwise_append]
      refine ⟨h.ordered, by simp, ?_⟩
      intro d hd e he
      rw [mem_singleton.mp he]
      exact h.le d hd
    · intro d hd
      rcases mem_append.mp hd with hd | hd
      · exact h.le d hd
      · rw [mem_singleton.mp hd]

lemma deltaAt_add_of_lt (hinfo : info.isCommand = false) (hoff : off < offset) :
    deltaAt (StackDeltaArray.add deltas offset info) off = deltaAt deltas off := by
  rcases add_cases deltas offset hinfo with ⟨heq, -⟩ | heq
  · rw [heq]
  · rw [heq]
    simp [deltaAt, filter_append, hoff]

lemma deltaAt_add (h : OrderedTo deltas offset) (hinfo : info.isCommand = false)
    (hoff : offset ≤ off) :
    ∃ d, deltaAt (StackDeltaArray.add deltas offset info) off = some d ∧ d.info = info := by
  rcases add_cases deltas offset hinfo with ⟨heq, last, hlast, hsame⟩ | heq
  · have hall : deltas.filter (fun d => d.offset ≤ off) = deltas := by
      rw [filter_eq_self]
      intro d hd
      simpa using le_trans (h.le d hd) hoff
    refine ⟨last, ?_, hsame⟩
    rw [heq, deltaAt, hall]
    exact hlast
  · rw [heq]
    simp [deltaAt, filter_append, hoff]

end Deltas

/-! ## Rows -/

namespace PcVal

/-- The rows of a table from `p` on. -/
def Rows : PcVal → PcVal → Prop := Relation.ReflTransGen fun p q => p.step = some q

lemma getInt_length {ptr rest : List Byte} {shift : ℕ} {v w : BitVec 32}
    (h : getInt ptr shift v = some (w, rest)) : rest.length < ptr.length := by
  induction ptr generalizing shift v with
  | nil => cases h
  | cons b ptr ih =>
    rw [getInt] at h
    split at h
    · cases h
      simp
    · have hrest := ih h
      rw [length_cons]
      omega

variable {p q : PcVal}

lemma step_ok (h : p.step = some q) : q.pcStart = p.pcEnd ∧
    q.ptr.length < p.ptr.length ∧ ∃ pcDelta : BitVec 32,
      q.pcEnd = p.pcEnd + pcDelta.setWidth 64 * p.quantum.setWidth 64 := by
  unfold step at h
  split at h
  · cases h
  · obtain ⟨⟨d, ptr⟩, hd, h⟩ := Option.bind_eq_some_iff.mp h
    obtain ⟨⟨pcDelta, rest⟩, hpc, h⟩ := Option.bind_eq_some_iff.mp h
    cases h
    have h₁ := getInt_length hd
    have h₂ := getInt_length hpc
    exact ⟨rfl, lt_trans h₂ h₁, pcDelta, rfl⟩

/-- A row has fewer than `2 ^ 40` bytes of code, so its end does not wrap. -/
lemma pcEnd_le (h : p.step = some q) (hp : p.pcEnd.toNat < 2 ^ 32) :
    p.pcEnd.toNat ≤ q.pcEnd.toNat := by
  obtain ⟨-, -, pcDelta, hend⟩ := step_ok h
  have hprod : pcDelta.toNat * p.quantum.toNat < 2 ^ 32 * 2 ^ 8 :=
    mul_lt_mul'' pcDelta.isLt p.quantum.isLt
  have hmul : (pcDelta.setWidth 64 * p.quantum.setWidth 64).toNat =
      pcDelta.toNat * p.quantum.toNat := by
    have hdelta : pcDelta.toNat < 2 ^ 64 := lt_trans pcDelta.isLt (by decide)
    have hquantum : p.quantum.toNat < 2 ^ 64 := lt_trans p.quantum.isLt (by decide)
    rw [toNat_mul, toNat_setWidth, toNat_setWidth, mod_eq_of_lt hdelta, mod_eq_of_lt hquantum,
      mod_eq_of_lt (by omega)]
  rw [hend, toNat_add, mod_eq_of_lt (by omega)]
  exact le_add_right _ _

/-- All rows from `p` on end below `2 ^ 32`. -/
def Short (p : PcVal) : Prop := ∀ q, p.Rows q → q.pcEnd.toNat < 2 ^ 32

lemma Short.self (h : p.Short) : p.pcEnd.toNat < 2 ^ 32 := h p .refl

lemma Short.step (h : p.Short) (hstep : p.step = some q) : q.Short :=
  fun r hr => h r (.head hstep hr)

/-- The same row of a function that starts `a` bytes later. -/
def shift (a : Word) (p : PcVal) : PcVal :=
  { p with pcStart := p.pcStart + a, pcEnd := p.pcEnd + a }

lemma step_shift (p : PcVal) (start a : Word) :
    ({ p with pcStart := start, pcEnd := p.pcEnd + a } : PcVal).step = p.step.map (shift a) := by
  unfold step
  split
  · rfl
  · rcases getInt p.ptr 0 0 with _ | ⟨d, rest⟩
    · rfl
    dsimp only [bind, Option.bind]
    rcases getInt rest 0 0 with _ | ⟨pcDelta, rest⟩
    · rfl
    · simp [shift, add_assoc, add_comm a]

lemma valueAt_shift {a pc : Word} (h : p.Short) (ha : a.toNat + 2 ^ 32 ≤ 2 ^ 64) (hpc : a ≤ pc)
    (fuel : ℕ) : (p.shift a).valueAt pc fuel = p.valueAt (pc - a) fuel := by
  induction fuel generalizing p with
  | zero => rfl
  | succ fuel ih =>
    have hend : (p.shift a).pcEnd ≤ pc ↔ p.pcEnd ≤ pc - a := by
      have hself := h.self
      rw [le_def] at hpc
      rw [le_def, le_def, toNat_sub_of_le (le_def.mpr hpc), shift, toNat_add]
      omega
    have hstep : (p.shift a).step = p.step.map (shift a) := step_shift p (p.pcStart + a) a
    rw [valueAt, valueAt, hstep]
    by_cases hle : p.pcEnd ≤ pc - a
    · rw [if_pos hle, if_pos (hend.mpr hle)]
      cases hnext : p.step with
      | none => rfl
      | some q => exact ih (h.step hnext)
    · rw [if_neg hle, if_neg (fun hc => hle (hend.mp hc))]
      rfl

lemma valueAt_isSome_iff {pc : Word} {fuel : ℕ} (hfuel : p.ptr.length < fuel) :
    (p.valueAt pc fuel).isSome = true ↔ ∃ q, p.Rows q ∧ pc < q.pcEnd := by
  induction fuel generalizing p with
  | zero => omega
  | succ fuel ih =>
    rw [valueAt]
    by_cases hle : p.pcEnd ≤ pc
    · rw [if_pos hle]
      have hself : ¬ pc < p.pcEnd := BitVec.not_lt.mpr hle
      cases hnext : p.step with
      | none =>
        refine iff_of_false (by simp) ?_
        rintro ⟨q, hrows, hlt⟩
        rcases hrows.cases_head with rfl | ⟨q', hstep, -⟩
        · exact hself hlt
        · rw [hnext] at hstep
          cases hstep
      | some p' =>
        have hshort := (step_ok hnext).2.1
        rw [ih (by omega)]
        constructor
        · rintro ⟨q, hrows, hlt⟩
          exact ⟨q, .head hnext hrows, hlt⟩
        · rintro ⟨q, hrows, hlt⟩
          rcases hrows.cases_head with rfl | ⟨q', hstep, hrest⟩
          · exact absurd hlt hself
          · cases hnext.symm.trans hstep
            exact ⟨q, hrest, hlt⟩
    · rw [if_neg hle]
      exact iff_of_true rfl ⟨p, .refl, BitVec.not_le.mp hle⟩

end PcVal

lemma getPcval_shift (g : Gopclntab) (offs : BitVec 32) (startPc : Word) :
    g.getPcval offs startPc = (g.getPcval offs 0).map (PcVal.shift startPc) := by
  unfold Gopclntab.getPcval
  split
  · rfl
  · have hstep := PcVal.step_shift ⟨g.pctab.drop offs.toNat, 0, 0, -1, g.quantum⟩ 0 startPc
    have hzero : (0 : Word) + startPc = startPc := zero_add startPc
    rw [hzero] at hstep
    rw [hstep]
    cases (PcVal.mk (g.pctab.drop offs.toNat) 0 0 (-1) g.quantum).step with
    | none => rfl
    | some p =>
      dsimp only [Option.map_some, PcVal.shift]
      split <;> rfl

/-! ## The deltas of a table -/

section Table

variable {rowInfo : BitVec 32 → Strategy → UnwindInfo}

/-- **Run lemma.** Behind `p` the deltas have the recipes of the rows; in front nothing changes. -/
lemma parsePclntab_spec (hrow : ∀ val s, Plain (rowInfo val s)) (s : Strategy) (fuel : ℕ)
    {p : PcVal} (hshort : p.Short) (hle : p.pcStart.toNat ≤ p.pcEnd.toNat)
    {deltas : List StackDelta} (h : OrderedTo deltas p.pcStart.toNat) :
    ((parsePclntab rowInfo s fuel p deltas).Pairwise fun d e => d.offset ≤ e.offset) ∧
      (∀ off, off < p.pcStart.toNat →
        deltaAt (parsePclntab rowInfo s fuel p deltas) off = deltaAt deltas off) ∧
      ∀ pc v, p.pcStart ≤ pc → p.valueAt pc fuel = some v →
        ∃ d, deltaAt (parsePclntab rowInfo s fuel p deltas) pc.toNat = some d ∧
          d.info = rowInfo v s := by
  induction fuel generalizing p deltas with
  | zero => exact ⟨h.ordered, fun _ _ => rfl, fun _ _ _ hv => by cases hv⟩
  | succ fuel ih =>
    have hself := hshort.self
    have hmod : p.pcStart.toNat % 2 ^ 32 = p.pcStart.toNat := mod_eq_of_lt (by omega)
    have hadd := h.add (hrow p.val s).isCommand
    -- the row itself, as long as it is the last one up to an offset
    have hhere : ∀ pc : Word, p.pcStart ≤ pc →
        ∃ d, deltaAt (StackDeltaArray.add deltas p.pcStart.toNat (rowInfo p.val s)) pc.toNat =
          some d ∧ d.info = rowInfo p.val s :=
      fun pc hpc => deltaAt_add h (hrow _ _).isCommand (le_def.mp hpc)
    rw [parsePclntab, hmod]
    cases hstep : p.step with
    | none =>
      refine ⟨hadd.ordered, fun off hoff => deltaAt_add_of_lt (hrow _ _).isCommand hoff, ?_⟩
      intro pc v hpc hv
      rw [PcVal.valueAt, hstep] at hv
      split at hv
      · cases hv
      · cases hv
        exact hhere pc hpc
    | some q =>
      have hstart := (PcVal.step_ok hstep).1
      have hmono := PcVal.pcEnd_le hstep hself
      obtain ⟨hordered, hbefore, hvalue⟩ := ih (hshort.step hstep) (by rw [hstart]; exact hmono)
        (hadd.mono (show p.pcStart.toNat ≤ q.pcStart.toNat by rw [hstart]; exact hle))
      refine ⟨hordered, ?_, ?_⟩
      · intro off hoff
        rw [hbefore off (by rw [hstart]; omega), deltaAt_add_of_lt (hrow _ _).isCommand hoff]
      · intro pc v hpc hv
        rw [PcVal.valueAt, hstep] at hv
        split at hv
        · next hend => exact hvalue pc v (by rw [hstart]; exact hend) hv
        · next hend =>
          cases hv
          rw [hbefore pc.toNat (by rw [hstart]; exact lt_def.mp (BitVec.not_le.mp hend))]
          exact hhere pc hpc

end Table

def parseX86pclntabFunc (p : PcVal) (s : Strategy) : List StackDelta :=
  parsePclntab rowInfoX86 s (p.ptr.length + 1) p []

def parseArm64pclntabFunc (p : PcVal) (s : Strategy) : List StackDelta :=
  parsePclntab rowInfoArm64 s (p.ptr.length + 1) p []

/-- The recipe adjusts the stack on x86-64, with the CFA behind the return address. -/
structure AdjustsX86 (v : BitVec 32) (info : UnwindInfo) : Prop where
  plain : info.isCommand = false
  baseReg : info.baseReg = unwindRegSp
  param : info.param = v + 8

/-- The recipe adjusts the stack on aarch64; without it the link register has the address. -/
structure AdjustsArm64 (v : BitVec 32) (info : UnwindInfo) : Prop where
  plain : info.isCommand = false
  link : v = 0 → info = { baseReg := unwindRegSp, auxBaseReg := unwindRegLr }
  baseReg : info.baseReg = unwindRegSp
  param : v ≠ 0 → info.param = v

lemma adjustsX86_rowInfo (v : BitVec 32) (s : Strategy) : AdjustsX86 v (rowInfoX86 v s) := by
  refine ⟨(rowInfoX86_plain v s).isCommand, ?_, ?_⟩
  all_goals
    unfold rowInfoX86
    dsimp only
    split <;> rfl

lemma adjustsArm64_rowInfo (v : BitVec 32) (s : Strategy) : AdjustsArm64 v (rowInfoArm64 v s) := by
  refine ⟨(rowInfoArm64_plain v s).isCommand, ?_, ?_, ?_⟩
  · intro hv
    rw [rowInfoArm64, if_pos hv]
  · unfold rowInfoArm64
    split
    · rfl
    · split
      · rfl
      · rfl
  · intro hv
    rw [rowInfoArm64, if_neg hv]
    split <;> rfl

/-- The deltas begin at 0 and ascend, and where `mapPcval` finds a value, the last delta up to there
adjusts the stack by it. The function may start anywhere below the last 4 GiB. -/
structure Agrees (g : Gopclntab) (offs : BitVec 32) (p : PcVal) (deltas : List StackDelta)
    (Adjusts : BitVec 32 → UnwindInfo → Prop) : Prop where
  first : StartsAtZero deltas
  ordered : deltas.Pairwise fun d e => d.offset ≤ e.offset
  covered : ∀ startPc pc : Word, startPc.toNat + 2 ^ 32 ≤ 2 ^ 64 → startPc ≤ pc →
    ((g.mapPcval offs startPc pc).isSome = true ↔ ∃ q, p.Rows q ∧ pc - startPc < q.pcEnd)
  value : ∀ startPc pc v, startPc.toNat + 2 ^ 32 ≤ 2 ^ 64 → startPc ≤ pc →
    g.mapPcval offs startPc pc = some v →
    ∃ d, deltaAt deltas (pc - startPc).toNat = some d ∧ Adjusts v d.info

section Agreement

variable {g : Gopclntab} {offs : BitVec 32} {p : PcVal}

lemma mapPcval_eq (h : g.getPcval offs 0 = .ok p) (hshort : p.Short) {startPc pc : Word}
    (hstart : startPc.toNat + 2 ^ 32 ≤ 2 ^ 64) (hpc : startPc ≤ pc) :
    g.mapPcval offs startPc pc = p.valueAt (pc - startPc) (p.ptr.length + 1) := by
  unfold Gopclntab.mapPcval
  rw [getPcval_shift, h]
  exact PcVal.valueAt_shift hshort hstart hpc _

lemma pcStart_le (h : g.getPcval offs 0 = .ok p) : p.pcStart = 0 ∧
    p.pcStart.toNat ≤ p.pcEnd.toNat := by
  have hstart := getPcval_pcStart h
  refine ⟨hstart, ?_⟩
  rw [hstart]
  exact zero_le _

lemma agrees_parsePclntab {rowInfo : BitVec 32 → Strategy → UnwindInfo}
    {Adjusts : BitVec 32 → UnwindInfo → Prop} (s : Strategy) (hrow : ∀ val s, Plain (rowInfo val s))
    (hadjusts : ∀ v, Adjusts v (rowInfo v s)) (h : g.getPcval offs 0 = .ok p) (hshort : p.Short) :
    Agrees g offs p (parsePclntab rowInfo s (p.ptr.length + 1) p []) Adjusts := by
  obtain ⟨hzero, hle⟩ := pcStart_le h
  obtain ⟨hordered, -, hvalue⟩ := parsePclntab_spec hrow s (p.ptr.length + 1) hshort hle
    (orderedTo_nil _)
  constructor
  · exact parsePclntab_startsAtZero hzero _
  · exact hordered
  · intro startPc pc hstart hpc
    rw [mapPcval_eq h hshort hstart hpc]
    exact PcVal.valueAt_isSome_iff (lt_succ_self _)
  · intro startPc pc v hstart hpc hv
    rw [mapPcval_eq h hshort hstart hpc] at hv
    obtain ⟨d, hd, hinfo⟩ := hvalue (pc - startPc) v (by rw [hzero]; exact zero_le _) hv
    exact ⟨d, hd, hinfo ▸ hadjusts v⟩

/-- **Main result.** If all rows end below `2 ^ 32`, the deltas agree with `mapPcval`. -/
theorem parsePclntab_mapPcval (h : g.getPcval offs 0 = .ok p) (hshort : p.Short) (s : Strategy) :
    Agrees g offs p (parseX86pclntabFunc p s) AdjustsX86 ∧
      Agrees g offs p (parseArm64pclntabFunc p s) AdjustsArm64 := by
  constructor
  · exact agrees_parsePclntab s rowInfoX86_plain (adjustsX86_rowInfo · s) h hshort
  · exact agrees_parsePclntab s rowInfoArm64_plain (adjustsArm64_rowInfo · s) h hshort

end Agreement

/-- A table at offset 1: 4 bytes without adjustment, 8 bytes with 16 in two rows, and the rest. -/
def pcspTables : Gopclntab where
  headerOffset := 0
  version := .go1_20
  quantum := 1
  textStart := 0x401000
  numFuncs := 0
  numFiles := 0
  funcnameOffset := 0
  cuOffset := 0
  filetabOffset := 0
  pctabOffset := 0
  functab := []
  funcnametab := []
  filetab := []
  pctab := [0,  2, 4,  16, 0,  16, 4,  0x80, 0, 4,  31, 6,  0]
  cutab := []

def pcspFirst : PcVal := ⟨[16, 0,  16, 4,  0x80, 0, 4,  31, 6,  0], 0, 4, 0, 1⟩

lemma pcspFirst_short : pcspFirst.Short := by
  intro q hrows
  rcases hrows.cases_head with rfl | ⟨p₁, hstep, hrows⟩
  · decide
  cases (show pcspFirst.step = some ⟨[16, 4, 0x80, 0, 4, 31, 6, 0], 4, 4, 8,
    1⟩ by decide).symm.trans hstep
  rcases hrows.cases_head with rfl | ⟨p₂, hstep, hrows⟩
  · decide
  cases (show PcVal.step _ = some ⟨[0x80, 0, 4, 31, 6, 0], 4, 8, 16, 1⟩ by decide).symm.trans hstep
  rcases hrows.cases_head with rfl | ⟨p₃, hstep, hrows⟩
  · decide
  cases (show PcVal.step _ = some ⟨[31, 6, 0], 8, 12, 16, 1⟩ by decide).symm.trans hstep
  rcases hrows.cases_head with rfl | ⟨p₄, hstep, hrows⟩
  · decide
  cases (show PcVal.step _ = some ⟨[0], 12, 18, 0, 1⟩ by decide).symm.trans hstep
  rcases hrows.cases_head with rfl | ⟨p₅, hstep, -⟩
  · decide
  · cases hstep

theorem parsePclntab_mapPcval_sample :
    pcspTables.mapPcval 1 0x401000 0x401009 = some 16 ∧
      deltaAt (parseX86pclntabFunc pcspFirst .deltasWithoutFrame) 9 =
        some ⟨4, { baseReg := unwindRegSp, param := 24 }⟩ ∧
      Agrees pcspTables 1 pcspFirst (parseX86pclntabFunc pcspFirst .deltasWithoutFrame) AdjustsX86 ∧
      Agrees pcspTables 1 pcspFirst (parseArm64pclntabFunc pcspFirst .deltasWithoutFrame)
        AdjustsArm64 := by
  refine ⟨by decide, by decide, parsePclntab_mapPcval ?_ pcspFirst_short .deltasWithoutFrame⟩
  decide

end EbpfProfiler.ElfUnwind
