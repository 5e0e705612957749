import EbpfProfiler.ElfUnwind.GoSymbolize

/-!
# Reads of the function table stay inside it

The length that is needed is computed in 64 bits, and may wrap around (`new_funcMap_safe_iff`).
-/

namespace EbpfProfiler.ElfUnwind

open Lib Nat Gopclntab

variable {g : Gopclntab} {data : List Byte} {i : ℕ}

lemma numAt_lt (data : List Byte) (offset size : ℕ) : numAt data offset size < 256 ^ size := by
  have hlen : (slice data offset (offset + size)).length ≤ size := by simp [slice]
  exact Nat.lt_of_lt_of_le (leNat_lt _) (Nat.pow_le_pow_right (by decide) hlen)

namespace Gopclntab

variable {g : Gopclntab}

/-! ## What is accepted -/

def headerIs116 (data : List Byte) : Bool := goMagicToVersion (numAt data 0 4) = .go1_16

def headerPclnOffset (data : List Byte) : ℕ :=
  if headerIs116 data then numAt data 56 8 else numAt data 64 8

def headerFuncMapSize (data : List Byte) : ℕ := if headerIs116 data then 16 else 8

/-- The function table and its end marker fit into the data. -/
def HeaderFits (data : List Byte) : Prop :=
  (numAt data 8 8 + 1) * headerFuncMapSize data ≤ data.length - headerPclnOffset data

/-- How a table follows from the data it was made of. -/
structure Accepted (data : List Byte) (g : Gopclntab) : Prop where
  numFuncs : g.numFuncs.toNat = numAt data 8 8
  functab : g.functab.length = data.length - headerPclnOffset data
  funcMapSize : g.funcMapSize = headerFuncMapSize data

lemma toNat_numAt (data : List Byte) (offset : ℕ) :
    (BitVec.ofNat 64 (numAt data offset 8)).toNat = numAt data offset 8 := by
  exact mod_eq_of_lt (numAt_lt data offset 8)

lemma checked_accepted {offset : ℕ} {g₀ : Gopclntab}
    (h : checked data (BitVec.ofNat 64 (numAt data offset 8)) g₀ = .ok g)
    (hnum : g₀.numFuncs = BitVec.ofNat 64 (numAt data 8 8))
    (hoffset : numAt data offset 8 = headerPclnOffset data)
    (hsize : g₀.funcMapSize = headerFuncMapSize data) : Accepted data g := by
  unfold checked at h
  dsimp only at h
  split at h
  · cases h
  · cases h
    refine ⟨?_, ?_, hsize⟩
    · show g₀.numFuncs.toNat = _
      rw [hnum, toNat_numAt]
    · show (data.drop _).length = _
      rw [List.length_drop, toNat_numAt, hoffset]

lemma new_accepted {ef : ElfFile} {headerOffset : Word} (h : new ef data headerOffset = .ok g) :
    Accepted data g := by
  unfold new at h
  dsimp only at h
  split at h
  · cases h
  · split at h
    · next hversion =>
      have h116 : headerIs116 data = true := by
        split at hversion
        · cases hversion
        · exact decide_eq_true hversion
      split at h
      · cases h
      · apply checked_accepted h rfl
        · rw [headerPclnOffset, if_pos h116]
        · rw [headerFuncMapSize, if_pos h116]
          rfl
    · cases h
    · cases h
    · next version hnot116 hvalid hnot12 =>
      -- the version is one of the two with 32-bit offsets
      have hplain : ¬(numAt data 4 2 ≠ 0 ∨ numAt data 7 1 ≠ 8) := by
        intro hbad
        exact hvalid (if_pos hbad)
      rw [if_neg hplain] at hnot116 hvalid hnot12 h
      have h116 : headerIs116 data = false := decide_eq_false hnot116
      split at h
      · cases h
      · split at h
        · cases h
        · apply checked_accepted h rfl
          · rw [headerPclnOffset, h116, if_neg Bool.false_ne_true]
          · rw [headerFuncMapSize, h116, if_neg Bool.false_ne_true, funcMapSize, if_pos]
            apply decide_eq_true
            show goMagicToVersion (numAt data 0 4) = .go1_18 ∨
              goMagicToVersion (numAt data 0 4) = .go1_20
            cases hversion : goMagicToVersion (numAt data 0 4) with
            | invalid => exact absurd hversion hvalid
            | go1_2 => exact absurd hversion hnot12
            | go1_16 => exact absurd hversion hnot116
            | go1_18 => exact .inl rfl
            | go1_20 => exact .inr rfl

/-! ## Entries -/

lemma toNat_entryPos {size : ℕ} (h : i * size < 2 ^ 64) :
    (BitVec.ofNat 64 i * BitVec.ofNat 64 size).toNat = i * size := by
  rw [BitVec.toNat_mul, BitVec.toNat_ofNat, BitVec.toNat_ofNat, ← mul_mod, mod_eq_of_lt h]

lemma getFuncMapEntry_ok (hlen : g.functab.length < 2 ^ 63)
    (hi : (i + 1) * g.funcMapSize ≤ g.functab.length) :
    ∃ e, g.getFuncMapEntry (BitVec.ofNat 64 i) = .ok e := by
  rw [add_mul] at hi
  have hpos : (BitVec.ofNat 64 i * BitVec.ofNat 64 g.funcMapSize).toNat = i * g.funcMapSize :=
    toNat_entryPos (by omega)
  unfold getFuncMapEntry
  rw [if_neg]
  · exact ⟨_, rfl⟩
  · rintro (hneg | hend)
    · rw [slt_zero_iff] at hneg
      omega
    · omega

lemma getFuncMapEntry_end (hlen : g.functab.length < 2 ^ 63) (hsize : 0 < g.funcMapSize)
    (e : Word × Word) :
    g.getFuncMapEntry (BitVec.ofNat 64 (g.functab.length / g.funcMapSize)) ≠ .ok e := by
  have hle : g.functab.length / g.funcMapSize * g.funcMapSize ≤ g.functab.length :=
    div_mul_le_self _ _
  have hgt : g.functab.length <
      g.functab.length / g.funcMapSize * g.funcMapSize + g.funcMapSize :=
    lt_div_mul_add hsize
  have hfits : g.functab.length / g.funcMapSize * g.funcMapSize < 2 ^ 64 := by omega
  have hpos := toNat_entryPos hfits
  unfold getFuncMapEntry
  rw [if_pos (.inr (by rw [hpos]; exact hgt))]
  intro h
  cases h

/-- All entries of the table and its end marker can be read. -/
structure Readable (g : Gopclntab) : Prop where
  numFuncs : g.numFuncs.slt 0 = false
  entry : ∀ i ≤ g.numFuncs.toNat, ∃ e, g.getFuncMapEntry (BitVec.ofNat 64 i) = .ok e

lemma readable_iff (hlen : data.length < 2 ^ 63) (h : Accepted data g) :
    g.Readable ↔ HeaderFits data := by
  have hsize : 0 < g.funcMapSize := by
    unfold funcMapSize
    split <;> omega
  have htab : g.functab.length < 2 ^ 63 := by
    rw [h.functab]
    omega
  rw [HeaderFits, ← h.numFuncs, ← h.functab, ← h.funcMapSize]
  constructor
  · intro hread
    by_contra hshort
    -- the entry at the end of the table has an index in the range
    have hindex : g.functab.length / g.funcMapSize < g.numFuncs.toNat + 1 :=
      (div_lt_iff_lt_mul hsize).mpr (Nat.lt_of_not_le hshort)
    obtain ⟨e, he⟩ := hread.entry _ (le_of_lt_succ hindex)
    exact getFuncMapEntry_end htab hsize e he
  · intro hfit
    constructor
    · have hsmall : g.numFuncs.toNat + 1 ≤ (g.numFuncs.toNat + 1) * g.funcMapSize :=
        Nat.le_mul_of_pos_right _ hsize
      rw [← Bool.not_eq_true, slt_zero_iff]
      omega
    · intro i hi
      exact getFuncMapEntry_ok htab
        (Nat.le_trans (mul_le_mul_right _ (succ_le_succ hi)) hfit)

/-! ## Symbols -/

lemma startsAfter_ok (h : g.Readable) (pc : Word) (hi : i ≤ g.numFuncs.toNat) :
    ∃ b, g.startsAfter pc i = .ok b := by
  obtain ⟨e, he⟩ := h.entry i hi
  exact ⟨decide (pc < e.1), by rw [startsAfter, he]⟩

/-- The window of the search: the entries of the functions and the end marker. -/
def entries (g : Gopclntab) : ℕ :=
  if (g.numFuncs + 1).slt 0 then 0 else (g.numFuncs + 1).toNat

lemma entries_lt (g : Gopclntab) : g.entries < 2 ^ 63 := by
  unfold entries
  by_cases hneg : (g.numFuncs + 1).slt 0 = true
  · rw [if_pos hneg]
    decide
  · rw [if_neg hneg]
    rw [slt_zero_iff] at hneg
    omega

lemma entries_le (g : Gopclntab) : g.entries ≤ g.numFuncs.toNat + 1 := by
  have hadd : (g.numFuncs + 1).toNat ≤ g.numFuncs.toNat + 1 := by
    exact mod_le _ _
  unfold entries
  split
  · exact zero_le _
  · exact hadd

lemma firstAfter_ok (h : g.Readable) (pc : Word) : ∃ r, g.firstAfter pc = .ok r := by
  apply search_ok
  intro i _ hi
  have hle := entries_le g
  exact startsAfter_ok h pc (by change i < g.entries at hi; omega)

lemma firstAfter_found {pc : Word} {r : ℕ} (h : g.firstAfter pc = .ok r) :
    Found (g.startsAfter pc) 0 g.entries r := by
  have hlt := entries_lt g
  exact search_found (zero_le _) (by omega) h

lemma symbolOf_ok (h : g.Readable) (pc : Word) (hi : i ≤ g.numFuncs.toNat) :
    ∃ sym, g.symbolOf pc i = .ok sym := by
  obtain ⟨e, he⟩ := h.entry i hi
  unfold symbolOf
  rw [he]
  dsimp only
  split <;> exact ⟨_, rfl⟩

lemma symbolize_ok (h : g.Readable) (pc : Word) : ∃ sym, g.symbolize pc = .ok sym := by
  obtain ⟨r, hr⟩ := firstAfter_ok h pc
  have hle := (firstAfter_found hr).le_hi
  have hentries := entries_le g
  unfold symbolize
  rw [hr]
  cases r with
  | zero => exact ⟨_, rfl⟩
  | succ index =>
    dsimp only
    split
    · exact ⟨_, rfl⟩
    · exact symbolOf_ok h pc (by omega)

end Gopclntab

/-! ## The loop over the functions -/

open Comp

lemma noPanic_liftFault {σ α : Type} {r : Except Fault α} (h : ∃ a, r = .ok a) :
    NoPanic (liftFault r : Comp σ α) := by
  obtain ⟨a, rfl⟩ := h
  exact noPanic_pure a

open NoPanic

lemma noPanic_goFunction (h : g.Readable) (gs : GoStrategies) (hi : i < g.numFuncs.toNat) :
    NoPanic (goFunction g gs i) := by
  refine bind (noPanic_liftFault (h.entry i (by omega))) fun ⟨mapPc, funcOff⟩ => ?_
  dsimp only
  split
  · exact noPanic_error _
  · split
    · exact noPanic_error _
    · refine bind (noPanic_liftFault (h.entry (i + 1) (by omega))) fun ⟨endPc, _⟩ => ?_
      split
      · exact noPanic_error _
      · exact noPanic_pure _
      · exact bind noPanic_get fun s => noPanic_set _

lemma noPanic_goFunctions (h : g.Readable) (gs : GoStrategies) {n : ℕ}
    (hn : i + n ≤ g.numFuncs.toNat) : NoPanic (goFunctions g gs n i) := by
  induction n generalizing i with
  | zero => exact noPanic_pure _
  | succ n ih =>
    exact bind (noPanic_goFunction h gs (by omega)) fun _ => ih (by omega)

/-! ## Reading names -/

lemma noPanic_cstring (bufSize : ℕ) : NoPanic (cstring bufSize) := by
  rintro c ⟨text, d, h⟩
  unfold exec cstring at h
  dsimp only at h
  split at h
  · cases h
  · split at h
    · cases h
    · cases h

lemma noPanic_walkStrings (n : ℕ) : NoPanic (walkStrings n) := by
  induction n with
  | zero => exact noPanic_pure _
  | succ n ih =>
    exact bind noPanic_get fun _ => bind (noPanic_cstring _) fun _ =>
      bind ih fun _ => noPanic_pure _

lemma noPanic_walkAllStrings (n : ℕ) : NoPanic (walkAllStrings n) := by
  induction n with
  | zero => exact noPanic_pure _
  | succ n ih =>
    refine bind noPanic_get fun _ => bind (noPanic_cstring _).attempt fun r => ?_
    cases r with
    | error err =>
      dsimp only
      split
      · exact noPanic_pure _
      · exact noPanic_error _
    | ok s => exact bind ih fun _ => noPanic_pure _

section
variable (ef : ElfFile) (g : Gopclntab)

lemma noPanic_resolveCUStrategies : NoPanic (resolveCUStrategies ef g) :=
  bind (noPanic_set _) fun _ => bind (noPanic_walkStrings _) fun _ =>
    noPanic_pure _

lemma noPanic_resolveFunctionUnwindInfo (useFP : Bool) :
    NoPanic (resolveFunctionUnwindInfo ef g useFP) :=
  bind (noPanic_set _) fun _ => bind noPanic_get fun _ =>
    bind (noPanic_walkAllStrings _) fun _ => noPanic_pure _

lemma noPanic_goStrategies : NoPanic (goStrategies ef g) := by
  unfold goStrategies
  split
  · exact bind ((noPanic_resolveCUStrategies ef g).wrapError _) fun _ =>
      bind ((noPanic_resolveFunctionUnwindInfo ef g true).wrapError _) fun _ =>
        noPanic_pure _
  · exact bind ((noPanic_resolveFunctionUnwindInfo ef g _).wrapError _) fun _ =>
      noPanic_pure _
  · exact noPanic_error _

end

/-! ## The exact condition -/

lemma noPanic_parseGoPclntab {ee : ElfExtractor} {headerOffset : Word}
    (hdata : extractGoPclntab ee.file = .ok (some (data, headerOffset)))
    (hnew : new ee.file data headerOffset = .ok g) (h : g.Readable) :
    NoPanic (parseGoPclntab ee) := by
  unfold parseGoPclntab
  rw [hdata]
  dsimp only
  rw [hnew]
  dsimp only
  rw [h.numFuncs, if_neg Bool.false_ne_true]
  refine bind (noPanic_goStrategies ee.file g).zoom fun gs => ?_
  refine bind (noPanic_goFunctions h gs (by omega)) fun _ => ?_
  refine bind (noPanic_liftFault (h.entry 0 (by omega))) fun first => ?_
  have hlast := h.entry g.numFuncs.toNat le_rfl
  rw [BitVec.ofNat_toNat] at hlast
  refine bind (noPanic_liftFault hlast) fun last => ?_
  exact bind noPanic_get fun s => noPanic_set _

/-- **The reads of an accepted function table.** They are inside the table, and neither symbolizing
nor the loop over the functions panics, exactly when the table and its end marker fit. -/
theorem new_funcMap_safe_iff {ef : ElfFile} {data : List Byte} {headerOffset : Word} {g : Gopclntab}
    (hlen : data.length < 2 ^ 63) (hnew : new ef data headerOffset = .ok g) :
    (g.numFuncs.slt 0 = false ∧
      (∀ i ≤ g.numFuncs.toNat, ∃ e, g.getFuncMapEntry (BitVec.ofNat 64 i) = .ok e) ∧
      (∀ pc, ∃ sym, g.symbolize pc = .ok sym) ∧
      ∀ allowGenericRegs, extractGoPclntab ef = .ok (some (data, headerOffset)) →
        NoPanic (parseGoPclntab ⟨ef, allowGenericRegs⟩)) ↔
      Gopclntab.HeaderFits data := by
  rw [← readable_iff hlen (new_accepted hnew)]
  constructor
  · rintro ⟨hnum, hentry, -, -⟩
    exact ⟨hnum, hentry⟩
  · intro h
    exact ⟨h.numFuncs, h.entry, symbolize_ok h, fun _ hdata =>
      noPanic_parseGoPclntab hdata hnew h⟩

/-- Functions `f` at `0x401000` and `g` at `0x401010` in `a.go`: lines 10 and 20, and line 30. -/
def twoFunctions (numFuncs : ℕ) : List Byte :=
  [0xf1, 0xff, 0xff, 0xff,  0, 0,  1,  8] ++
    [numFuncs, 1, 0x401000, 72, 76, 80, 85, 97].flatMap (leBytes 8) ++
    [0x66, 0, 0x67, 0] ++ [0, 0, 0, 0] ++ [0x61, 0x2e, 0x67, 0x6f, 0] ++
    [0,  2, 16, 0,  22, 8, 20, 8, 0,  62, 16, 0] ++
    [0, 24, 16, 60, 32, 0].flatMap (leBytes 4) ++
    [0, 0, 0, 0, 0, 1, 4, 0, 0].flatMap (leBytes 4) ++
    [16, 2, 0, 0, 0, 1, 9, 0, 0].flatMap (leBytes 4)

def goFile (pclntab : List Byte) : ElfFile where
  machine := .x86_64
  entry := 0
  insideCore := false
  underlying := List.replicate 64 0 ++ pclntab
  findSection name :=
    if name = ".gopclntab" then
      some ⟨false, false, 64, BitVec.ofNat 64 pclntab.length, 0x500000, .ok pclntab⟩
    else none
  progs := []
  progByVirtualAddress _ := none
  virtualMemory _ _ := .error "no matching segment"
  soNames := none
  pclntabSymbols := (0, 0)
  moduleText := .error "symbol not found"
  goVersionOld := true

theorem new_funcMap_safe_twoFunctions :
    ∃ g, new (goFile (twoFunctions 2)) (twoFunctions 2) 64 = .ok g ∧
      (∀ pc, ∃ sym, g.symbolize pc = .ok sym) ∧
      NoPanic (parseGoPclntab ⟨goFile (twoFunctions 2), false⟩) := by
  have haccepted : (new (goFile (twoFunctions 2)) (twoFunctions 2) 64).isOk = true := by
    decide +kernel
  rcases hnew : new (goFile (twoFunctions 2)) (twoFunctions 2) 64 with err | g
  · rw [hnew] at haccepted
    cases haccepted
  · obtain ⟨-, -, hsym, hparse⟩ := (new_funcMap_safe_iff (by decide +kernel) hnew).mpr
      (by unfold Gopclntab.HeaderFits; decide +kernel)
    exact ⟨g, rfl, hsym, hparse false rfl⟩

/-- Numbers near `2 ^ 64` and `2 ^ 61` are accepted. The loop then reads an entry in front of the
table, and the search one behind it. -/
theorem new_wrapped_panics :
    ((new (goFile (twoFunctions (2 ^ 64 - 2))) (twoFunctions (2 ^ 64 - 2)) 64).toOption.map
        fun g => g.numFuncs) = some (-2) ∧
      ((parseGoPclntab ⟨goFile (twoFunctions (2 ^ 64 - 2)), false⟩).exec
        ⟨⟨[], 0, 0, []⟩, ⟨0, []⟩, {}⟩).1 = .error (.panic "index out of range") ∧
      ((new (goFile (twoFunctions (2 ^ 61 - 1))) (twoFunctions (2 ^ 61 - 1)) 64).toOption.map
        fun g => g.symbolize 0x401004) = some (.error (.panic "index out of range")) := by
  decide +kernel

end EbpfProfiler.ElfUnwind
