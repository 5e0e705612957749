import EbpfProfiler.ElfUnwind.GoPclntabTheorems
import EbpfProfiler.ProcessManager.FrameCache

/-!
# Symbolizing the frames of a Go binary

`Symbolize` (`go/symbolize.go`) makes its lookup before it goes back to the call.
-/

namespace EbpfProfiler.ElfUnwind

open Lib

/-! ## What the tables assign to an address -/

/-- A row of a table of values, for the addresses up to its end. -/
structure PcRow where
  pcEnd : Word
  val : BitVec 32
  deriving DecidableEq

/-- The rows of a table from its current one on. -/
def PcVal.rows : ℕ → PcVal → List PcRow
  | 0, _ => []
  | fuel + 1, p =>
    ⟨p.pcEnd, p.val⟩ :: match p.step with
      | none => []
      | some p => PcVal.rows fuel p

namespace Gopclntab

def rows (g : Gopclntab) (offs : BitVec 32) (startPc : Word) : List PcRow :=
  match g.getPcval offs startPc with
  | .error _ => []
  | .ok p => p.rows (p.ptr.length + 1)

/-- The value of the row that covers an address. -/
def rowValue (g : Gopclntab) (offs : BitVec 32) (startPc pc : Word) : Option (BitVec 32) :=
  ((g.rows offs startPc).find? fun r => pc < r.pcEnd).map PcRow.val

/-- What the function with this index says about an address. -/
def functionSymbol (g : Gopclntab) (pc : Word) (i : ℕ) : Option GoSymbol :=
  match g.getFuncMapEntry (BitVec.ofNat 64 i) with
  | .error _ => none
  | .ok (start, funcOff) =>
    match g.getFunc funcOff with
    | none => none
    | some (funcPc, fn) => if start =
        funcPc then some (g.symbolFrom (g.rowValue · funcPc pc) fn) else none

/-- The address is in this function: before the next entry, the last of which is the end marker. -/
def Covers (g : Gopclntab) (pc : Word) (i : ℕ) : Prop :=
  i + 1 < g.entries ∧ g.startsAfter pc i = .ok false ∧ g.startsAfter pc (i + 1) = .ok true

instance (g : Gopclntab) (pc : Word) (i : ℕ) : Decidable (g.Covers pc i) :=
  inferInstanceAs (Decidable (_ ∧ _ ∧ _))

/-- The tables assign the symbol to the address: a function that covers it does. -/
def Assigns (g : Gopclntab) (pc : Word) (sym : GoSymbol) : Prop :=
  ∃ i, g.Covers pc i ∧ g.functionSymbol pc i = some sym

/-- The function table can be read, and its entries ascend. -/
def Ascends (g : Gopclntab) : Prop :=
  ∀ i j, i ≤ j → j < g.entries → ∃ e e', g.getFuncMapEntry (BitVec.ofNat 64 i) = .ok e ∧
    g.getFuncMapEntry (BitVec.ofNat 64 j) = .ok e' ∧ e.1 ≤ e'.1

/-- The address is in the function, and the entries on the way of a bisection to it agree. -/
def Reaches (g : Gopclntab) (pc : Word) (i : ℕ) : Prop :=
  g.Covers pc i ∧ ∀ h ∈ probes (i + 1) 64 0 g.entries, g.startsAfter pc h = .ok (decide (i < h))

/-! ## The lookup finds what is assigned -/

variable {g : Gopclntab} {pc : Word}

lemma valueAt_eq_find (pc : Word) (fuel : ℕ) (p : PcVal) :
    p.valueAt pc fuel = ((p.rows fuel).find? fun r => pc < r.pcEnd).map PcRow.val := by
  induction fuel generalizing p with
  | zero => rfl
  | succ fuel ih =>
    rw [PcVal.valueAt, PcVal.rows, List.find?_cons]
    by_cases hend : pc < p.pcEnd
    · rw [if_neg (BitVec.not_le.mpr hend), decide_eq_true hend]
      rfl
    · rw [if_pos (BitVec.not_lt.mp hend), decide_eq_false hend]
      cases p.step with
      | none => rfl
      | some p' => exact ih p'

lemma mapPcval_eq_rowValue (g : Gopclntab) (offs : BitVec 32) (startPc pc : Word) :
    g.mapPcval offs startPc pc = g.rowValue offs startPc pc := by
  rw [mapPcval, rowValue, rows]
  cases g.getPcval offs startPc with
  | error err => rfl
  | ok p => exact valueAt_eq_find pc _ p

/-- Of the entries, only the last one is not that of a function. -/
lemma sle_ofNat_eq_false_iff {i : ℕ} (hi : i < g.entries) :
    g.numFuncs.sle (BitVec.ofNat 64 i) = false ↔ i + 1 < g.entries := by
  have hlt := entries_lt g
  have hindex : (BitVec.ofNat 64 i).toInt = i := by
    rw [BitVec.toInt_eq_toNat_cond, BitVec.toNat_ofNat, Nat.mod_eq_of_lt (by omega),
      if_pos (by omega)]
  have hentries : g.entries = (g.numFuncs + 1).toNat := by
    unfold entries at hi ⊢
    split at hi
    · omega
    · next hneg => rw [if_neg hneg]
  have hadd : (g.numFuncs + 1).toNat = (g.numFuncs.toNat + 1) % 2 ^ 64 := by
    rw [BitVec.toNat_add, show (1 : Word).toNat = 1 from rfl]
  rw [BitVec.sle_eq_decide, decide_eq_false_iff_not, hindex, BitVec.toInt_eq_toNat_cond]
  split <;> omega

/-- Where the search of `Symbolize` ends. -/
lemma reaches_iff {i : ℕ} : g.Reaches pc i ↔
    g.firstAfter pc = .ok (i + 1) ∧ g.numFuncs.sle (BitVec.ofNat 64 i) = false := by
  have hsize : g.entries - 0 < 2 ^ 64 := by
    have := entries_lt g
    omega
  have hsearch (hi : i + 1 ≤ g.entries) : g.firstAfter pc = .ok (i + 1) ↔
      ∀ h ∈ probes (i + 1) 64 0 g.entries, g.startsAfter pc h = .ok (decide (i < h)) :=
    search_eq_iff (Nat.zero_le _) hi hsize
  constructor
  · rintro ⟨⟨hi, -⟩, hprobes⟩
    exact ⟨(hsearch (by omega)).mpr hprobes, (sle_ofNat_eq_false_iff (by omega)).mpr hi⟩
  · rintro ⟨hfirst, hsle⟩
    have hfound := firstAfter_found hfirst
    have hi := (sle_ofNat_eq_false_iff hfound.le_hi).mp hsle
    exact ⟨⟨hi, hfound.fail (by omega), hfound.pass hi⟩, (hsearch (by omega)).mp hfirst⟩

/-- Along ascending entries every look says on which side the function is. -/
lemma Ascends.reaches (h : g.Ascends) {i : ℕ} (hcovers : g.Covers pc i) : g.Reaches pc i := by
  refine ⟨hcovers, fun j hj => ?_⟩
  obtain ⟨hi, hstart, hend⟩ := hcovers
  have hj := (lt_of_mem_probes hj).2
  rcases Nat.lt_or_ge i j with hlt | hge
  · obtain ⟨e, e', he, he', hle⟩ := h (i + 1) j hlt hj
    rw [startsAfter, he] at hend
    rw [startsAfter, he', decide_eq_true hlt]
    have hpc : pc < e.1 := of_decide_eq_true (Except.ok.inj hend)
    exact congrArg Except.ok (decide_eq_true (by bv_omega))
  · obtain ⟨e, e', he, he', hle⟩ := h j i hge (by omega)
    rw [startsAfter, he'] at hstart
    rw [startsAfter, he, decide_eq_false (by omega)]
    have hpc : ¬pc < e'.1 := of_decide_eq_false (Except.ok.inj hstart)
    exact congrArg Except.ok (decide_eq_false (by bv_omega))

variable {sym : GoSymbol}

lemma empty_ne_of_name (hname : sym.funcName ≠ []) :
    (.ok {} : Except Fault GoSymbol) ≠ .ok sym := by
  intro h
  rw [← Except.ok.inj h] at hname
  exact hname rfl

lemma symbolOf_ok_iff (g : Gopclntab) (pc : Word) (i : ℕ) (hname : sym.funcName ≠ []) :
    g.symbolOf pc i = .ok sym ↔ g.functionSymbol pc i = some sym := by
  have hvalue (funcPc : Word) : (g.mapPcval · funcPc pc) = (g.rowValue · funcPc pc) :=
    funext fun offs => mapPcval_eq_rowValue g offs funcPc pc
  unfold symbolOf functionSymbol
  rcases g.getFuncMapEntry (BitVec.ofNat 64 i) with f | ⟨start, funcOff⟩
  · simp
  · dsimp only
    rcases g.getFunc funcOff with _ | ⟨funcPc, fn⟩
    · exact iff_of_false (empty_ne_of_name hname) (by simp)
    · dsimp only
      rw [hvalue]
      by_cases hpc : start = funcPc
      · simp [hpc]
      · rw [if_pos hpc, if_neg hpc]
        exact iff_of_false (empty_ne_of_name hname) (by simp)

lemma symbolize_ok_iff (hname : sym.funcName ≠ []) :
    g.symbolize pc = .ok sym ↔ ∃ i, g.Reaches pc i ∧ g.functionSymbol pc i = some sym := by
  simp only [reaches_iff]
  unfold symbolize
  rcases g.firstAfter pc with f | r
  · simp
  · cases r with
    | zero => exact iff_of_false (empty_ne_of_name hname) (by simp)
    | succ index =>
      dsimp only
      cases hsle : g.numFuncs.sle (BitVec.ofNat 64 index) with
      | true =>
        refine iff_of_false (empty_ne_of_name hname) ?_
        rintro ⟨i, ⟨hi, hsle'⟩, -⟩
        cases hi
        rw [hsle] at hsle'
        cases hsle'
      | false =>
        constructor
        · intro h
          exact ⟨index, ⟨rfl, hsle⟩, (symbolOf_ok_iff g pc index hname).mp h⟩
        · rintro ⟨i, ⟨hi, -⟩, h⟩
          cases hi
          exact (symbolOf_ok_iff g pc index hname).mpr h

end Gopclntab

end EbpfProfiler.ElfUnwind

namespace EbpfProfiler.Interpreter

open Lib ElfUnwind Reporter ProcessManager
open Wire (EbpfFrame frameMarkerNative)

/-! ## The symbolizer -/

def frameMarkerGo : BitVec 8 := 0xB

/-- `goData`: the fields that symbolizing reads. -/
structure GoData where
  fileID : Word
  pclntab : Option Gopclntab

/-- `goInstance.Symbolize`: the frames that it appends, and what it returns. -/
def goSymbolize (d : GoData) (ef : EbpfFrame) (mapping : Option FrameMappingData) :
    Except Fault (List Frame × SymbolizeResult) :=
  match d.pclntab with
  | none => .ok ([], .mismatchInterpreterType)
  | some pclntab =>
    if ef.type ≠ frameMarkerNative then .ok ([], .mismatchInterpreterType)
    else
      match ef.vars.head? with
      | none => .error (.panic "index out of range")
      | some fileID =>
        if fileID ≠ d.fileID then .ok ([], .mismatchInterpreterType)
        else
          match pclntab.symbolize ef.data with
          | .error f => .error f
          | .ok sym =>
            if sym.funcName = [] then .ok ([], .error)
            else
              .ok ([{ type := frameMarkerGo
                      addressOrLineno := if ef.isReturnAddress then ef.data - 1 else ef.data
                      mapping := mapping
                      functionName := text sym.funcName
                      sourceFile := text sym.sourceFile
                      sourceLine := sym.line }], .ok)

/-- The address whose symbol is wanted: that of the call. -/
def callSite (ef : EbpfFrame) : Word := if ef.isReturnAddress then ef.data - 1 else ef.data

def Shows (frame : Frame) (sym : GoSymbol) : Prop :=
  frame.functionName = text sym.funcName ∧ frame.sourceFile = text sym.sourceFile ∧
    frame.sourceLine = sym.line

/-! ## Frames of calls -/

lemma text_injective : Function.Injective text := by
  intro a b h
  have hchar : ∀ c : BitVec 8, (Char.ofNat c.toNat).toNat = c.toNat := by decide +kernel
  have hchars : Function.Injective fun c : Byte => Char.ofNat c.toNat := by
    intro c c' hc
    apply BitVec.eq_of_toNat_eq
    rw [← hchar c, ← hchar c']
    exact congrArg Char.toNat hc
  exact List.map_injective_iff.mpr hchars (String.ofList_injective h)

lemma Shows.unique {frame : Frame} {sym sym' : GoSymbol} (h : Shows frame sym)
    (h' : Shows frame sym') : sym = sym' := by
  cases sym
  have hname := text_injective (h.1.symm.trans h'.1)
  have hfile := text_injective (h.2.1.symm.trans h'.2.1)
  have hline := h.2.2.symm.trans h'.2.2
  simp_all

variable {d : GoData} {ef : EbpfFrame} {g : Gopclntab} (mapping : Option FrameMappingData)

def goFrame (ef : EbpfFrame) (mapping : Option FrameMappingData) (sym : GoSymbol) : Frame where
  type := frameMarkerGo
  addressOrLineno := callSite ef
  mapping := mapping
  functionName := text sym.funcName
  sourceFile := text sym.sourceFile
  sourceLine := sym.line

lemma shows_goFrame (sym : GoSymbol) : Shows (goFrame ef mapping sym) sym := ⟨rfl, rfl, rfl⟩

lemma goSymbolize_ok_iff (hd : d.pclntab = some g) (htype : ef.type = frameMarkerNative)
    (hfile : ef.vars.head? = some d.fileID) (frame : Frame) :
    (∃ frames r, goSymbolize d ef mapping = .ok (frames, r) ∧ frame ∈ frames) ↔
      ∃ sym, g.symbolize ef.data = .ok sym ∧ sym.funcName ≠ [] ∧
        frame = goFrame ef mapping sym := by
  unfold goSymbolize
  rw [hd]
  dsimp only
  rw [if_neg (not_not_intro htype), hfile]
  dsimp only
  rw [if_neg (not_not_intro rfl)]
  rcases g.symbolize ef.data with f | sym
  · simp
  · dsimp only
    by_cases hname : sym.funcName = []
    · simp [hname]
    · rw [if_neg hname]
      constructor
      · rintro ⟨frames, r, h, hframe⟩
        cases h
        exact ⟨sym, rfl, hname, List.mem_singleton.mp hframe⟩
      · rintro ⟨sym', h, -, rfl⟩
        cases h
        exact ⟨_, _, rfl, List.mem_singleton.mpr rfl⟩

/-- Every frame shows its call exactly when it is no return address, or the symbol of the function
reached for the return address is also assigned to the call. -/
lemma goSymbolize_call (hd : d.pclntab = some g) (htype : ef.type = frameMarkerNative)
    (hfile : ef.vars.head? = some d.fileID) :
    (∀ frames r, goSymbolize d ef mapping = .ok (frames, r) →
        ∀ frame ∈ frames, ∃ sym, g.Assigns (callSite ef) sym ∧ Shows frame sym) ↔
      (ef.isReturnAddress = true →
        ∀ i sym, g.Reaches ef.data i → g.functionSymbol ef.data i = some sym → sym.funcName ≠ [] →
          g.Assigns (ef.data - 1) sym) := by
  constructor
  · intro h hret i sym hfound hsym hname
    have hsymbolize := (Gopclntab.symbolize_ok_iff hname).mpr ⟨i, hfound, hsym⟩
    obtain ⟨frames, r, hframes, hmem⟩ := (goSymbolize_ok_iff mapping hd htype hfile
      (goFrame ef mapping sym)).mpr ⟨sym, hsymbolize, hname, rfl⟩
    obtain ⟨sym', hassigns, hshows⟩ := h frames r hframes _ hmem
    rw [callSite, if_pos hret] at hassigns
    rwa [(shows_goFrame mapping sym).unique hshows]
  · intro h frames r hframes frame hmem
    obtain ⟨sym, hsymbolize, hname, rfl⟩ :=
      (goSymbolize_ok_iff mapping hd htype hfile frame).mp ⟨frames, r, hframes, hmem⟩
    obtain ⟨i, hfound, hsym⟩ := (Gopclntab.symbolize_ok_iff hname).mp hsymbolize
    refine ⟨sym, ?_, shows_goFrame mapping sym⟩
    unfold callSite
    by_cases hret : ef.isReturnAddress = true
    · rw [if_pos hret]
      exact h hret i sym hfound hsym hname
    · rw [if_neg hret]
      exact ⟨i, hfound.1, hsym⟩

/-- **A return address is symbolized as the call.** The symbol of every appended frame is assigned
to the call exactly when the frame has no return address, or what a bisection reaches for the return
address is assigned to the call, too. Where entries ascend, that is every symbol of the return
address. -/
theorem goSymbolize_call_iff (hd : d.pclntab = some g) (htype : ef.type = frameMarkerNative)
    (hfile : ef.vars.head? = some d.fileID) :
    ((∀ frames r, goSymbolize d ef mapping = .ok (frames, r) →
        ∀ frame ∈ frames, ∃ sym, g.Assigns (callSite ef) sym ∧ Shows frame sym) ↔
      (ef.isReturnAddress = true →
        ∀ i sym, g.Reaches ef.data i → g.functionSymbol ef.data i = some sym → sym.funcName ≠ [] →
          g.Assigns (ef.data - 1) sym)) ∧
    (g.Ascends →
      ((∀ frames r, goSymbolize d ef mapping = .ok (frames, r) →
          ∀ frame ∈ frames, ∃ sym, g.Assigns (callSite ef) sym ∧ Shows frame sym) ↔
        (ef.isReturnAddress = true → ∀ sym, g.Assigns ef.data sym → sym.funcName ≠ [] →
          g.Assigns (ef.data - 1) sym))) := by
  refine ⟨goSymbolize_call mapping hd htype hfile, fun hasc => ?_⟩
  rw [goSymbolize_call mapping hd htype hfile]
  refine forall_congr' fun _ => ?_
  constructor
  · rintro h sym ⟨i, hcovers, hsym⟩ hname
    exact h i sym (hasc.reaches hcovers) hsym hname
  · intro h i sym hreaches hsym hname
    exact h sym ⟨i, hreaches.1, hsym⟩ hname

/-- The frame of a return address in the file with the ID 7. -/
def returnFrame (address : Word) : EbpfFrame :=
  Wire.pushFrame frameMarkerNative Wire.frameFlagReturnAddress address [7]

def twoFunctionsTable : Gopclntab :=
  { Gopclntab.ofHeader (twoFunctions 2) 64 .go1_20 0x401000 32 with
    functab := (twoFunctions 2).drop 97
    funcnametab := [0x66, 0, 0x67, 0]
    filetab := [0x61, 0x2e, 0x67, 0x6f, 0]
    pctab := [0,  2, 16, 0,  22, 8, 20, 8, 0,  62, 16, 0]
    cutab := [0, 0, 0, 0] }

lemma entries_twoFunctionsTable : twoFunctionsTable.entries = 3 := by decide +kernel

lemma lt_two_of_covers {pc : Word} {i : ℕ} (h : twoFunctionsTable.Covers pc i) : i < 2 := by
  have hi := h.1
  rw [entries_twoFunctionsTable] at hi
  omega

lemma ascends_twoFunctionsTable : twoFunctionsTable.Ascends := by
  have hentries : ∀ j < 3, ∀ i ≤ j,
      (twoFunctionsTable.getFuncMapEntry (BitVec.ofNat 64 i)).toOption.any (fun e =>
        (twoFunctionsTable.getFuncMapEntry (BitVec.ofNat 64 j)).toOption.any (e.1 ≤ ·.1)) := by
    decide +kernel
  intro i j hij hj
  have hpair := hentries j (entries_twoFunctionsTable ▸ hj) i hij
  rcases hi : twoFunctionsTable.getFuncMapEntry (BitVec.ofNat 64 i) with f | e
  · rw [hi] at hpair
    cases hpair
  · rcases hj : twoFunctionsTable.getFuncMapEntry (BitVec.ofNat 64 j) with f | e'
    · rw [hi, hj] at hpair
      cases hpair
    · rw [hi, hj] at hpair
      exact ⟨e, e', rfl, rfl, of_decide_eq_true hpair⟩

/-- The return address is in the middle of a row: the call has the same symbol. -/
theorem goSymbolize_call_middle :
    Gopclntab.new (goFile (twoFunctions 2)) (twoFunctions 2) 64 = .ok twoFunctionsTable ∧
      ∀ frames r,
        goSymbolize ⟨7, some twoFunctionsTable⟩ (returnFrame 0x401004) none = .ok (frames, r) →
        ∀ frame ∈ frames, ∃ sym,
          twoFunctionsTable.Assigns (callSite (returnFrame 0x401004)) sym ∧ Shows frame sym := by
  have htype : (returnFrame 0x401004).type = frameMarkerNative := by decide +kernel
  have honly : ∀ i < 2, twoFunctionsTable.Covers 0x401004 i → i = 0 := by decide +kernel
  have hcovers : twoFunctionsTable.Covers 0x401003 0 := by decide +kernel
  have hrow (pc : Word) (hpc : pc = 0x401003 ∨ pc = 0x401004) :
      twoFunctionsTable.functionSymbol pc 0 = some ⟨[0x61, 0x2e, 0x67, 0x6f], 10, [0x66]⟩ := by
    rcases hpc with rfl | rfl <;> decide +kernel
  refine ⟨by decide +kernel,
    ((goSymbolize_call_iff none rfl htype rfl).2 ascends_twoFunctionsTable).mpr ?_⟩
  rintro - sym ⟨i, hcall, hsym⟩ -
  obtain rfl := honly i (lt_two_of_covers hcall) hcall
  exact ⟨0, hcovers, (hrow _ (.inl rfl)).trans ((hrow _ (.inr rfl)).symm.trans hsym)⟩

/-- `0x401008` and `0x401010` start a row and a function. The calls are in lines 10 and 20 of `f`,
but the frames show line 20 of `f` and line 30 of `g`. -/
theorem goSymbolize_border_diverges :
    Gopclntab.new (goFile (twoFunctions 2)) (twoFunctions 2) 64 = .ok twoFunctionsTable ∧
      (∀ sym, twoFunctionsTable.Assigns 0x401007 sym → sym.line = 10 ∧ text sym.funcName = "f") ∧
      goSymbolize ⟨7, some twoFunctionsTable⟩ (returnFrame 0x401008) none =
        .ok ([{ type := frameMarkerGo, addressOrLineno := 0x401007, functionName := "f",
                sourceFile := "a.go", sourceLine := 20 }], .ok) ∧
      (∀ sym, twoFunctionsTable.Assigns 0x40100f sym → sym.line = 20 ∧ text sym.funcName = "f") ∧
      goSymbolize ⟨7, some twoFunctionsTable⟩ (returnFrame 0x401010) none =
        .ok ([{ type := frameMarkerGo, addressOrLineno := 0x40100f, functionName := "g",
                sourceFile := "a.go", sourceLine := 30 }], .ok) := by
  -- the functions that cover an address are among the two of the table
  have hrow : ∀ i < 2, twoFunctionsTable.Covers 0x401007 i →
      ∀ sym ∈ twoFunctionsTable.functionSymbol 0x401007 i,
        sym.line = 10 ∧ text sym.funcName = "f" := by decide +kernel
  have hrow' : ∀ i < 2, twoFunctionsTable.Covers 0x40100f i →
      ∀ sym ∈ twoFunctionsTable.functionSymbol 0x40100f i,
        sym.line = 20 ∧ text sym.funcName = "f" := by decide +kernel
  refine ⟨by decide +kernel, ?_, by decide +kernel, ?_, by decide +kernel⟩
  · rintro sym ⟨i, hcovers, hsym⟩
    exact hrow i (lt_two_of_covers hcovers) hcovers sym hsym
  · rintro sym ⟨i, hcovers, hsym⟩
    exact hrow' i (lt_two_of_covers hcovers) hcovers sym hsym

end EbpfProfiler.Interpreter
