import EbpfProfiler.ElfUnwind.CallFrame

/-!
# Rules that dereference a register

The CFA at `*(r + o) + c` is packed into one number; nothing checks the first offset.
-/

namespace EbpfProfiler.ElfUnwind

open Lib StackDeltas VmRegs

/-! ## The eBPF side -/

/-- `state->regs`, and the memory of the process: `none` where it cannot be read. -/
structure UnwindState where
  regs : BitVec 8 → Word
  memory : Word → Option Word

/-- `unwind_calc_register`. -/
def UnwindState.calcRegister (state : UnwindState) (baseReg : BitVec 8)
    (param : BitVec 32) : Word :=
  state.regs (baseReg % 16) + param.signExtend 64

/-- `unwind_calc_register_with_deref`. -/
def UnwindState.calcRegisterWithDeref (state : UnwindState) (baseReg : BitVec 8) (param : BitVec 32)
    (deref : Bool) : Word :=
  if deref then
    match state.memory (state.calcRegister baseReg (param &&& ~~~7)) with
    | none => 0
    | some val => val + BitVec.ofNat 64 ((param &&& 7).toNat * 8)
  else state.calcRegister baseReg param

/-- The CFA that `unwind_one_frame` computes with a plain recipe. -/
def UnwindState.cfa (state : UnwindState) (machine : Machine) (info : UnwindInfo) : Word :=
  match machine with
  | .x86_64 =>
    state.calcRegisterWithDeref (info.baseReg &&& 0xf) info.param
      (info.flags &&& unwindFlagDerefCfa ≠ 0)
  | _ => state.calcRegister info.baseReg info.param

/-! ## The expressions -/

def derefExpression (r o : Word) (c : Option Word) : List DwarfExpression :=
  ⟨opBReg0, r, o⟩ :: ⟨opDeref, 0, 0⟩ :: (c.map fun c => ⟨opPlusUConst, c, 0⟩).toList

/-- The register of the eBPF unwinder for a numbered one. -/
def unwinderReg (machine : Machine) (r : Word) : BitVec 8 :=
  match machine with
  | .x86_64 => getUnwinderRegX86 r
  | _ => if r = armRegFP then unwindRegFp else if r = armRegSP then unwindRegSp
    else if r = armRegLR then unwindRegLr else unwindRegInvalid

/-- The recipe for a row whose CFA is given by an expression. -/
def cfaInfo (regs : VmRegs) (allowGenericRegs : Bool) (expr : List DwarfExpression) :
    Option UnwindInfo :=
  getUnwindInfo { regs with cfa := (matchedRule expr).getD ⟨regUndefined, 0⟩ } allowGenericRegs

/-- With a recipe the unwinder computes `*(r + o) + c`, where this can be read. -/
def ComputesDeref (machine : Machine) (info : UnwindInfo) (r o c : Word) : Prop :=
  ∀ (state : UnwindState) (v : Word),
    state.memory (state.regs (unwinderReg machine r) + o) = some v →
    state.cfa machine info = v + c

/-- The return address on x86-64 is below the CFA, or in a register that may be used. -/
def RaUsable (ra : VmReg) (allowGenericRegs : Bool) : Prop :=
  let raReg := getUnwinderRegX86 ra.reg
  (ra.reg = regCFA ∧ ra.off = -8) ∨ raReg = unwindRegFp ∨ raReg = unwindRegSp ∨
    (raReg ≠ unwindRegInvalid ∧ raReg ≠ unwindRegCfa ∧ allowGenericRegs = true)

/-- The offsets survive: one is a multiple of 8 of 16 bits, the other one is small. -/
def OffsetsFit (o c : Word) : Prop :=
  o = (o.setWidth 16).signExtend 64 ∧ o.toNat % 8 = 0 ∧ c.toNat ≤ 0x20

/-! ## Packing -/

lemma splitOff_makeOff (a b c d : BitVec 16) : splitOff (makeOff a b c d) = (a, b, c, d) := by
  have hoff : (makeOff a b c d).toNat =
      a.toNat * 2 ^ 48 + b.toNat * 2 ^ 32 + c.toNat * 2 ^ 16 + d.toNat := by
    simp only [makeOff, BitVec.toNat_add, BitVec.toNat_shiftLeft, BitVec.toNat_setWidth,
      Nat.shiftLeft_eq]
    omega
  unfold splitOff
  simp only [Prod.mk.injEq]
  refine ⟨?_, ?_, ?_, ?_⟩
  all_goals
    apply BitVec.eq_of_toNat_eq
    simp only [BitVec.toNat_setWidth, BitVec.toNat_ushiftRight, Nat.shiftRight_eq_div_pow, hoff]
    omega

/-- What can be packed. -/
lemma packDerefParam_eq_some {pre post param : BitVec 32}
    (h : packDerefParam pre post = some param) :
    post.toNat ≤ 0x20 ∧ post.toNat % 8 = 0 ∧ param = pre + BitVec.ofNat 32 (post.toNat / 8) := by
  unfold packDerefParam at h
  split at h
  · cases h
  · next hpost =>
    rw [not_or, not_or, not_not] at hpost
    obtain ⟨hneg, hbig, hmod⟩ := hpost
    have hzero : (0 : BitVec 32).toInt = 0 := by decide
    have hmax : (0x20 : BitVec 32).toInt = 0x20 := by decide
    have hint := BitVec.toInt_eq_toNat_cond post
    rw [BitVec.slt_iff_toInt_lt] at hneg hbig
    have hle : post.toNat ≤ 0x20 := by omega
    exact ⟨hle, hmod, (Option.some.inj h).symm⟩

lemma toNat_and_seven (x : BitVec 32) : (x &&& 7).toNat = x.toNat % 8 := by
  exact Nat.and_two_pow_sub_one_eq_mod _ 3

lemma toNat_and_not_seven (x : BitVec 32) : (x &&& ~~~7).toNat = x.toNat - x.toNat % 8 := by
  have hsum : (x &&& 7) + (x &&& ~~~7) = x := by
    rw [BitVec.add_eq_or_of_and_eq_zero]
    · ext i hi
      simp only [BitVec.getElem_or, BitVec.getElem_and, BitVec.getElem_not]
      cases x[i] <;> cases (7 : BitVec 32)[i] <;> rfl
    · ext i hi
      simp only [BitVec.getElem_and, BitVec.getElem_not, BitVec.getElem_zero]
      cases x[i] <;> cases (7 : BitVec 32)[i] <;> rfl
  have hseven := toNat_and_seven x
  have hadd := congrArg BitVec.toNat hsum
  rw [BitVec.toNat_add] at hadd
  omega

lemma unpack_iff {o c : Word} {param : BitVec 32}
    (h : packDerefParam ((o.setWidth 16).signExtend 32) ((c.setWidth 16).signExtend 32) =
      some param) :
    ((param &&& ~~~7).signExtend 64 = o ∧ BitVec.ofNat 64 ((param &&& 7).toNat * 8) = c) ↔
      OffsetsFit o c := by
  obtain ⟨hle, hmod, rfl⟩ := packDerefParam_eq_some h
  -- the numbers that the bit vectors stand for
  have hpost : ((c.setWidth 16).signExtend 32).toNat = c.toNat % 2 ^ 16 := by
    rw [BitVec.toNat_signExtend, BitVec.toNat_setWidth, BitVec.toNat_setWidth] at hle ⊢
    split at hle
    · omega
    · next hmsb =>
      rw [if_neg hmsb]
      omega
  have hpre : ((o.setWidth 16).signExtend 32).toInt = (o.setWidth 16).toInt :=
    BitVec.toInt_signExtend_of_le (by decide)
  have hfit : o = (o.setWidth 16).signExtend 64 ↔ o.toInt = (o.setWidth 16).toInt := by
    rw [← BitVec.toInt_inj, BitVec.toInt_signExtend_of_le (by decide)]
  rw [OffsetsFit, hfit, ← BitVec.toInt_inj, BitVec.toInt_signExtend_of_le (by decide),
    ← BitVec.toNat_inj, toNat_and_seven]
  simp only [BitVec.toInt_eq_toNat_cond, BitVec.toNat_setWidth, toNat_and_not_seven,
    BitVec.toNat_add, BitVec.toNat_ofNat] at hpre ⊢
  omega

/-! ## Recipes on x86-64 -/

section X86

variable {regs : VmRegs} {allow : Bool} {r o c : Word}

/-- The rule for `*(r + o) + c`. -/
abbrev derefRule (r o c : Word) : VmReg :=
  ⟨regExprRegDeref, makeOff (r.setWidth 16) 0 (o.setWidth 16) (c.setWidth 16)⟩

lemma matchedRule_deref (r o : Word) (c : Option Word) :
    matchedRule (derefExpression r o c) = some (derefRule r o (c.getD 0)) := by
  cases c with
  | none => rfl
  | some c => rfl

lemma fpInfoX86_eq (regs : VmRegs) (info : UnwindInfo) : ∃ reg param,
    regs.fpInfoX86 info = { info with auxBaseReg := reg, auxParam := param } := by
  unfold fpInfoX86
  split
  · split
    · exact ⟨_, _, rfl⟩
    · exact ⟨_, _, rfl⟩
  · split
    · dsimp only
      split <;> exact ⟨_, _, rfl⟩
    · exact ⟨_, _, rfl⟩

lemma cfaInfoX86_deref (hr : r.toNat < 32) (hcfa : regs.cfa = derefRule r o c) (info : UnwindInfo) :
    regs.cfaInfoX86 info =
      match packDerefParam ((o.setWidth 16).signExtend 32) ((c.setWidth 16).signExtend 32) with
      | some param =>
        if r = x86RegRBP ∨ r = x86RegRSP then
          { info with
            flags := info.flags ||| unwindFlagDerefCfa
            baseReg := getUnwinderRegX86 r
            param := param }
        else info
      | none => info := by
  have hreg : (r.setWidth 16).signExtend 64 = r := by
    apply BitVec.eq_of_toNat_eq
    rw [BitVec.toNat_signExtend, BitVec.msb_eq_decide, BitVec.toNat_setWidth, BitVec.toNat_setWidth]
    rw [if_neg (by simp; omega)]
    omega
  rw [cfaInfoX86, hcfa]
  simp only [splitOff_makeOff, hreg]
  rfl

/-- The return address is in a register other than the CFA. -/
def raInReg (ra : VmReg) : Bool :=
  getUnwinderRegX86 ra.reg ≠ unwindRegInvalid ∧ getUnwinderRegX86 ra.reg ≠ unwindRegCfa

/-- The flags for the return address. -/
def raFlags (ra : VmReg) : BitVec 8 :=
  if raInReg ra ∧ getUnwinderRegX86 ra.reg ≠ unwindRegFp ∧
    getUnwinderRegX86 ra.reg ≠ unwindRegSp then unwindFlagLeafOnly else 0

lemma raFlags_cases (ra : VmReg) : raFlags ra = 0 ∨ raFlags ra = unwindFlagLeafOnly := by
  unfold raFlags
  split
  · exact .inr rfl
  · exact .inl rfl

/-- The CFA is in the stack pointer, and the return address was there. -/
def Popped (regs : VmRegs) : Prop :=
  regs.ra.reg = regCFA ∧ regs.cfa.reg = x86RegRSP ∧ (regs.cfa.off + regs.ra.off).slt 0

/-- `getUnwindInfoX86` behind its first checks. -/
lemma getUnwindInfoX86_eq (hcfa : regs.cfa.reg ≠ regUndefined) (hra : regs.ra.reg ≠ regUndefined)
    (hpopped : ¬ Popped regs) : regs.getUnwindInfoX86 =
      if raInReg regs.ra = false ∧ ¬(regs.ra.reg = regCFA ∧ regs.ra.off = -8) then .invalid
      else
        let info := regs.cfaInfoX86 (regs.fpInfoX86 { flags := raFlags regs.ra })
        if info.isCommand = false ∧ info.baseReg = unwindRegInvalid then .invalid
        else if raInReg regs.ra then
          { info with baseReg := info.baseReg ||| getUnwinderRegX86 regs.ra.reg <<< 4 }
        else info := by
  have hundefined : ¬(regs.cfa.reg = regUndefined ∨ regs.ra.reg = regUndefined) :=
    not_or.mpr ⟨hcfa, hra⟩
  unfold Popped at hpopped
  rw [getUnwindInfoX86, if_neg hundefined, if_neg hpopped]
  rfl

lemma lowNibble_or_shift (b x : BitVec 8) : (b ||| x <<< 4) &&& 0xf = b &&& 0xf := by
  have hshift : x <<< 4 &&& (0xf : BitVec 8) = 0 := by
    revert x
    decide
  have hdistrib (m : BitVec 8) : (b ||| x <<< 4) &&& m = (b &&& m) ||| (x <<< 4 &&& m) := by
    ext i hi
    simp only [BitVec.getElem_and, BitVec.getElem_or, Bool.and_or_distrib_right]
  rw [hdistrib, hshift]
  exact BitVec.or_zero

/-- How `getUnwindInfo` passes on a recipe with the flags of a dereferencing rule. -/
lemma getUnwindInfo_x86 (harch : regs.arch = .x86_64) (allow : Bool) : regs.getUnwindInfo allow =
      some (if !allow && regs.getUnwindInfoX86.flags &&& unwindFlagLeafOnly ≠ 0 then .invalid
        else regs.getUnwindInfoX86) := by
  rw [getUnwindInfo, harch]
  rfl

/-- A return address can be used exactly when its part is not invalid. -/
lemma raUsable_iff (ra : VmReg) (allow : Bool) : RaUsable ra allow ↔
    ¬(raInReg ra = false ∧ ¬(ra.reg = regCFA ∧ ra.off = -8)) ∧
      ¬(allow = false ∧ raFlags ra = unwindFlagLeafOnly) := by
  have hstd : ra.reg = regCFA ∧ ra.off = -8 → getUnwinderRegX86 ra.reg = unwindRegCfa := by
    intro h
    rw [h.1]
    decide
  have hflag : ¬0#8 = unwindFlagLeafOnly := by decide
  have hfp : ¬unwindRegFp = unwindRegInvalid ∧ ¬unwindRegFp = unwindRegCfa := by decide
  have hsp : ¬unwindRegSp = unwindRegInvalid ∧ ¬unwindRegSp = unwindRegCfa := by decide
  have hcfa : ¬unwindRegCfa = unwindRegFp ∧ ¬unwindRegCfa = unwindRegSp := by decide
  have hinvalid : ¬unwindRegInvalid = unwindRegFp ∧ ¬unwindRegInvalid = unwindRegSp := by decide
  unfold RaUsable raFlags raInReg
  generalize getUnwinderRegX86 ra.reg = reg at hstd ⊢
  generalize (ra.reg = regCFA ∧ ra.off = -8) = std at hstd ⊢
  by_cases hstd' : std
  · simp [hstd', hstd hstd', hflag]
  · by_cases h : reg = unwindRegInvalid
    · subst h
      simp [hstd', hinvalid, hflag]
    · by_cases h' : reg = unwindRegCfa
      · subst h'
        simp [hstd', hcfa, hflag]
      · by_cases h₁ : reg = unwindRegFp
        · simp [h₁, hfp, hflag]
        · by_cases h₂ : reg = unwindRegSp
          · simp [h₂, hsp, hflag]
          · cases allow with
            | true => simp [h, h']
            | false => simp [h, h', h₁, h₂, hstd']

/-- The part for the CFA depends on nothing that is set before it. -/
lemma cfaInfoX86_eq
    (regs : VmRegs) {info : UnwindInfo} (hbase : info.baseReg = 0) (hparam : info.param = 0) :
    regs.cfaInfoX86 info =
      { info with
        flags := info.flags ||| (regs.cfaInfoX86 {}).flags
        baseReg := (regs.cfaInfoX86 {}).baseReg
        param := (regs.cfaInfoX86 {}).param } := by
  obtain ⟨flags, baseReg, aux, merge, param, auxParam⟩ := info
  subst hbase hparam
  unfold cfaInfoX86
  dsimp only
  cases packDerefParam ((splitOff regs.cfa.off).2.2.1.signExtend 32)
    ((splitOff regs.cfa.off).2.2.2.signExtend 32)
  all_goals
    dsimp only
    split_ifs <;> simp

/-- The part for the CFA gives a command, or a base register that may be used. -/
def CfaFound (part : UnwindInfo) (allowGenericRegs : Bool) : Prop :=
  ¬(part.isCommand = false ∧ part.baseReg = unwindRegInvalid) ∧
    ¬(allowGenericRegs = false ∧ part.flags &&& unwindFlagLeafOnly ≠ 0)

lemma not_cfaFound (allow : Bool) : ¬ CfaFound {} allow := by
  intro h
  exact h.1 ⟨rfl, rfl⟩

lemma cfaFound_of_reg {flags reg : BitVec 8} {param : BitVec 32} (hreg : reg ≠ unwindRegInvalid) :
    CfaFound { flags := flags, baseReg := reg, param := param } allow ↔
      flags &&& unwindFlagLeafOnly = 0 ∨ allow = true := by
  refine (and_iff_right fun h => hreg h.2).trans ?_
  cases allow with
  | true => simp
  | false => simp

lemma raFlags_or (ra : VmReg) (flags : BitVec 8) :
    (raFlags ra ||| flags) &&& unwindFlagCommand = flags &&& unwindFlagCommand ∧
      (raFlags ra ||| flags) &&& unwindFlagDerefCfa = flags &&& unwindFlagDerefCfa ∧
      ((raFlags ra ||| flags) &&& unwindFlagLeafOnly ≠ 0 ↔
        raFlags ra = unwindFlagLeafOnly ∨ flags &&& unwindFlagLeafOnly ≠ 0) := by
  rcases raFlags_cases ra with h | h
  all_goals
    rw [h]
    revert flags
    decide

/-- The part for the CFA is no command, or the one for a PLT. -/
lemma cfaInfoX86_command (regs : VmRegs) :
    (regs.cfaInfoX86 {}).isCommand = false ∨ (regs.cfaInfoX86 {}).param = unwindCommandPLT := by
  have hleaf : unwindFlagLeafOnly &&& unwindFlagCommand = 0 := by decide
  have hderef : unwindFlagDerefCfa &&& unwindFlagCommand = 0 := by decide
  unfold cfaInfoX86
  dsimp only
  cases packDerefParam ((splitOff regs.cfa.off).2.2.1.signExtend 32)
    ((splitOff regs.cfa.off).2.2.2.signExtend 32)
  all_goals
    dsimp only
    split_ifs <;> simp [UnwindInfo.isCommand, hleaf, hderef]

/-- With rules for CFA and return address, the recipe is invalid or has both parts. -/
lemma getUnwindInfo_frame (harch : regs.arch = .x86_64) (hcfa : regs.cfa.reg ≠ regUndefined)
    (hra : regs.ra.reg ≠ regUndefined) (hpopped : ¬ Popped regs) (allow : Bool) :
    (regs.getUnwindInfo allow = some .invalid ∧
      ¬(RaUsable regs.ra allow ∧ CfaFound (regs.cfaInfoX86 {}) allow)) ∨
    ∃ info, regs.getUnwindInfo allow = some info ∧ info ≠ .invalid ∧
      RaUsable regs.ra allow ∧ CfaFound (regs.cfaInfoX86 {}) allow ∧
      info.flags = raFlags regs.ra ||| (regs.cfaInfoX86 {}).flags ∧
      info.param = (regs.cfaInfoX86 {}).param ∧
      info.baseReg &&& 0xf = (regs.cfaInfoX86 {}).baseReg &&& 0xf := by
  have hplt := cfaInfoX86_command regs
  have heq := getUnwindInfoX86_eq hcfa hra hpopped
  obtain ⟨auxReg, auxParam, hfp⟩ := fpInfoX86_eq regs { flags := raFlags regs.ra }
  rw [hfp, cfaInfoX86_eq regs rfl rfl] at heq
  rw [getUnwindInfo_x86 harch, raUsable_iff, CfaFound]
  generalize regs.cfaInfoX86 {} = part at heq hplt ⊢
  obtain ⟨hcommand, -, hleaf⟩ := raFlags_or regs.ra part.flags
  by_cases hnone : raInReg regs.ra = false ∧ ¬(regs.ra.reg = regCFA ∧ regs.ra.off = -8)
  · refine .inl ⟨?_, fun h => h.1.1 hnone⟩
    rw [heq, if_pos hnone, ite_self]
  by_cases hreg : part.isCommand = false ∧ part.baseReg = unwindRegInvalid
  · refine .inl ⟨?_, fun h => h.2.1 hreg⟩
    rw [heq, if_neg hnone]
    simp only [UnwindInfo.isCommand, hcommand] at hreg ⊢
    rw [if_pos hreg, ite_self]
  have hinfo : regs.getUnwindInfoX86.flags = raFlags regs.ra ||| part.flags ∧
      regs.getUnwindInfoX86.param = part.param ∧
      regs.getUnwindInfoX86.baseReg &&& 0xf = part.baseReg &&& 0xf := by
    rw [heq, if_neg hnone]
    simp only [UnwindInfo.isCommand, hcommand] at hreg ⊢
    rw [if_neg hreg]
    split
    · exact ⟨rfl, rfl, lowNibble_or_shift _ _⟩
    · exact ⟨rfl, rfl, rfl⟩
  generalize regs.getUnwindInfoX86 = info at hinfo ⊢
  rw [hinfo.1]
  by_cases hallowed : allow = false ∧ (raFlags regs.ra ||| part.flags) &&& unwindFlagLeafOnly ≠ 0
  · refine .inl ⟨by rw [if_pos (by simpa using hallowed)], fun h => ?_⟩
    rcases hleaf.mp hallowed.2 with h' | h'
    · exact h.1.2 ⟨hallowed.1, h'⟩
    · exact h.2.2 ⟨hallowed.1, h'⟩
  · refine .inr ⟨info, by rw [if_neg (by simpa using hallowed)], ?_, ?_⟩
    · rintro rfl
      rcases hplt with h | h
      · simp only [UnwindInfo.isCommand, ← hcommand, ← hinfo.1] at h
        exact absurd h (by decide)
      · exact absurd (hinfo.2.1.trans h) (by decide)
    · rw [hleaf] at hallowed
      exact ⟨⟨hnone, fun h => hallowed ⟨h.1, .inl h.2⟩⟩,
        ⟨hreg, fun h => hallowed ⟨h.1, .inr h.2⟩⟩, hinfo⟩

/-- On x86-64 a dereferencing rule is invalid, or has packed offsets. -/
lemma getUnwindInfo_deref_x86
    (allow : Bool) (harch : regs.arch = .x86_64) (hra : regs.ra.reg ≠ regUndefined)
    (hr : r.toNat < 32) (hcfa : regs.cfa = derefRule r o c) :
    (regs.getUnwindInfo allow = some .invalid ∧
      (¬RaUsable regs.ra allow ∨ (r ≠ x86RegRBP ∧ r ≠ x86RegRSP) ∨
        packDerefParam ((o.setWidth 16).signExtend 32) ((c.setWidth 16).signExtend 32) = none)) ∨
    ∃ info param, regs.getUnwindInfo allow = some info ∧
      packDerefParam ((o.setWidth 16).signExtend 32) ((c.setWidth 16).signExtend 32) = some param ∧
      RaUsable regs.ra allow ∧ (r = x86RegRBP ∨ r = x86RegRSP) ∧
      info.baseReg &&& 0xf = getUnwinderRegX86 r ∧ info.param = param ∧
      info.flags &&& unwindFlagDerefCfa ≠ 0 := by
  have hreg : regs.cfa.reg = regExprRegDeref := by rw [hcfa]
  have hpart := cfaInfoX86_deref hr hcfa {}
  -- With a dereferencing rule there is no return address to be popped.
  have hframe := getUnwindInfo_frame harch (by rw [hreg]; decide) hra
    (fun hpopped => absurd (hreg.symm.trans hpopped.2.1) (by decide)) allow
  have hnone (h : regs.cfaInfoX86 {} = {}) : regs.getUnwindInfo allow = some .invalid := by
    rcases hframe with ⟨hinvalid, -⟩ | ⟨info, -, -, -, hfound, -⟩
    · exact hinvalid
    · rw [h] at hfound
      exact absurd hfound (not_cfaFound allow)
  cases hpack : packDerefParam ((o.setWidth 16).signExtend 32) ((c.setWidth 16).signExtend 32) with
  | none =>
    rw [hpack] at hpart
    exact .inl ⟨hnone hpart, .inr (.inr rfl)⟩
  | some param =>
    rw [hpack] at hpart
    by_cases hbase : r = x86RegRBP ∨ r = x86RegRSP
    · have hlow : getUnwinderRegX86 r ≠ unwindRegInvalid ∧
          getUnwinderRegX86 r &&& 0xf = getUnwinderRegX86 r := by
        rcases hbase with rfl | rfl <;> decide
      dsimp only at hpart
      rw [if_pos hbase] at hpart
      rw [hpart] at hframe
      rcases hframe with ⟨hinvalid, hnot⟩ | ⟨info, hinfo, -, husable, -, hflags, hparam, hreg⟩
      · refine .inl ⟨hinvalid, .inl fun h => hnot ⟨h, ?_⟩⟩
        exact (cfaFound_of_reg hlow.1).mpr (.inl (by decide))
      · refine .inr ⟨info, param, hinfo, rfl, husable, hbase, hreg.trans hlow.2, hparam, ?_⟩
        rw [hflags, (raFlags_or _ _).2.1]
        dsimp only
        decide
    · dsimp only at hpart
      rw [if_neg hbase] at hpart
      exact .inl ⟨hnone hpart, .inr (.inl (not_or.mp hbase))⟩

end X86

/-! ## What the unwinder computes -/

variable {info : UnwindInfo}

lemma computesDeref_iff {r o c : Word} (hbase : info.baseReg &&& 0xf = getUnwinderRegX86 r)
    (hderef : info.flags &&& unwindFlagDerefCfa ≠ 0) : ComputesDeref .x86_64 info r o c ↔
      (info.param &&& ~~~7).signExtend 64 = o ∧
        BitVec.ofNat 64 ((info.param &&& 7).toNat * 8) = c := by
  have hreg : getUnwinderRegX86 r % 16 = getUnwinderRegX86 r := by
    have hlow : ∀ x : BitVec 8, (x &&& 0xf) % 16 = x &&& 0xf := by decide
    rw [← hbase]
    exact hlow _
  have hcfa (state : UnwindState) : state.cfa .x86_64 info =
      match state.memory (state.regs (getUnwinderRegX86 r) + (info.param &&& ~~~7).signExtend 64)
        with
      | none => 0
      | some val => val + BitVec.ofNat 64 ((info.param &&& 7).toNat * 8) := by
    rw [UnwindState.cfa, hbase, UnwindState.calcRegisterWithDeref, if_pos (decide_eq_true hderef),
      UnwindState.calcRegister, hreg]
  generalize (info.param &&& ~~~7).signExtend 64 = pre at hcfa ⊢
  generalize BitVec.ofNat 64 ((info.param &&& 7).toNat * 8) = post at hcfa ⊢
  constructor
  · intro h
    have hpre : pre = o := by
      by_contra hne
      -- a memory with another value at the address that is read
      have hval :=
        h ⟨fun _ => 0, fun a => if a = 0 + o then some 0 else some (c - post + 1)⟩ 0 (if_pos rfl)
      rw [hcfa] at hval
      dsimp only at hval
      rw [if_neg (by simpa using hne)] at hval
      bv_omega
    subst hpre
    have hval := h ⟨fun _ => 0, fun _ => some 0⟩ 0 rfl
    rw [hcfa] at hval
    simpa using hval
  · rintro ⟨rfl, rfl⟩ state v hv
    rw [hcfa]
    have hv' : state.memory (state.regs (getUnwinderRegX86 r) + pre) = some v := hv
    rw [hv']

lemma getUnwindInfoARM_plain (regs : VmRegs) :
    regs.getUnwindInfoARM ≠ .invalid ∧ regs.getUnwindInfoARM.flags &&& unwindFlagLeafOnly = 0 := by
  have hstop : UnwindInfo.stop ≠ .invalid ∧ UnwindInfo.stop.flags &&& unwindFlagLeafOnly =
      0 := by decide
  have hflags (info : UnwindInfo) (h : info.flags = 0 ∨ info.flags = unwindFlagFrame) :
      info ≠ .invalid ∧ info.flags &&& unwindFlagLeafOnly = 0 := by
    constructor
    · rintro rfl
      rcases h with h | h <;> exact absurd h (by decide)
    · rcases h with h | h
      all_goals
        rw [h]
        decide
  have hzero (info : UnwindInfo) (h : info.flags = 0) :
      { info with flags := info.flags ||| unwindFlagFrame }.flags = unwindFlagFrame := by
    dsimp only
    rw [h]
    decide
  unfold getUnwindInfoARM
  split
  · exact hstop
  split
  · exact hstop
  extract_lets info₁ info₂
  have h₁ : info₁.flags = 0 := by
    unfold info₁
    split
    · rfl
    · split
      · rfl
      · rfl
  have h₂ : info₂.flags = 0 := by
    unfold info₂
    split
    · exact h₁
    · split
      · exact h₁
      · exact h₁
  split
  · exact hflags _ (.inr (hzero _ h₂))
  · exact hflags _ (.inl h₂)

lemma getUnwindInfo_deref_aarch64 {fp ra : VmReg} {off : Word} {allow : Bool}
    (hra : ra.reg ≠ regUndefined)
    (h : getUnwindInfo ⟨.aarch64, ⟨regExprRegDeref, off⟩, fp, ra⟩ allow = some info) :
    info ≠ .invalid ∧ info.baseReg = 0 ∧ info.param = 0 := by
  have hundefined : regExprRegDeref ≠ regUndefined := by decide
  have hfp : regExprRegDeref ≠ armRegFP := by decide
  have hsp : regExprRegDeref ≠ armRegSP := by decide
  obtain ⟨hne, hleaf⟩ := getUnwindInfoARM_plain ⟨.aarch64, ⟨regExprRegDeref, off⟩, fp, ra⟩
  rw [getUnwindInfo] at h
  dsimp only [Option.map_some] at h
  rw [hleaf, if_neg (by simp)] at h
  cases h
  refine ⟨hne, ?_⟩
  simp only [getUnwindInfoARM, if_neg hra, if_neg hundefined, if_neg hfp, if_neg hsp]
  split_ifs <;> exact ⟨rfl, rfl⟩

/-- On aarch64 no recipe dereferences. -/
lemma not_computesDeref_aarch64 (hbase : info.baseReg = 0) (hparam : info.param = 0)
    (r o c : Word) : ¬ComputesDeref .aarch64 info r o c := by
  intro h
  have hval := h ⟨fun _ => 0, fun _ => some (1 - c)⟩ (1 - c) rfl
  have hcfa (state : UnwindState) :
      state.cfa .aarch64 info = state.regs 0 + (0#32).signExtend 64 := by
    show state.regs (info.baseReg % 16) + info.param.signExtend 64 = _
    rw [hbase, hparam]
    rfl
  rw [hcfa, BitVec.sub_add_cancel] at hval
  exact absurd hval (show (0#64 + (0#32).signExtend 64) ≠ 1 by decide)

/-- The row is an outermost function or invalid, or the unwinder computes what the rule says. -/
def DerefKept (regs : VmRegs) (allowGenericRegs : Bool) (r o : Word) (c : Option Word) : Prop :=
  regs.ra.reg = regUndefined ∨
    ∃ info, cfaInfo regs allowGenericRegs (derefExpression r o c) = some info ∧
      (info = .invalid ∨ ComputesDeref regs.arch info r o (c.getD 0))

/-- On x86-64, the recipe is invalid anyway, or the offsets fit. -/
def DerefFits (regs : VmRegs) (allowGenericRegs : Bool) (r o : Word) (c : Option Word) : Prop :=
  regs.ra.reg = regUndefined ∨
    (regs.arch = .x86_64 ∧
      (¬RaUsable regs.ra allowGenericRegs ∨ (r ≠ x86RegRBP ∧ r ≠ x86RegRSP) ∨
        packDerefParam ((o.setWidth 16).signExtend 32)
          (((c.getD 0).setWidth 16).signExtend 32) = none ∨
        OffsetsFit o (c.getD 0)))

/-- A dereferencing rule is kept exactly when its offsets fit or the recipe is invalid anyway. -/
theorem cfaInfo_deref_iff {regs : VmRegs} (harch : regs.arch = .x86_64 ∨ regs.arch = .aarch64)
    (allow : Bool) {r : Word} (hr : r.toNat < 32) (o : Word) (c : Option Word) :
    DerefKept regs allow r o c ↔ DerefFits regs allow r o c := by
  obtain ⟨arch, cfa, fp, ra⟩ := regs
  unfold DerefKept DerefFits
  by_cases hra : ra.reg = regUndefined
  · simp [hra]
  · rw [or_iff_right hra, or_iff_right hra, cfaInfo, matchedRule_deref]
    rcases harch with rfl | rfl
    · have hcfa : (mk .x86_64 (derefRule r o (c.getD 0)) fp ra).cfa = derefRule r o (c.getD 0) :=
        rfl
      rw [and_iff_right rfl]
      rcases getUnwindInfo_deref_x86 allow rfl hra hr hcfa with
        ⟨hinfo, hwhy⟩ | ⟨info, param, hinfo, hpack, husable, hbase, hlow, hparam, hflags⟩
      · refine iff_of_true ⟨_, hinfo, .inl rfl⟩ ?_
        rcases hwhy with hwhy | hwhy | hwhy
        · exact .inl hwhy
        · exact .inr (.inl hwhy)
        · exact .inr (.inr (.inl hwhy))
      · -- the recipe is there, so it has to compute the right thing
        have hvalid : info ≠ .invalid := by
          rintro rfl
          exact hflags (by decide)
        have hreg : ¬(r ≠ x86RegRBP ∧ r ≠ x86RegRSP) := by
          rw [not_and_or, not_not, not_not]
          exact hbase
        rw [hpack, or_iff_right (not_not.mpr husable), or_iff_right hreg, or_iff_right (by simp),
          ← unpack_iff hpack, ← hparam, ← computesDeref_iff hlow hflags]
        constructor
        · rintro ⟨info', hinfo', h⟩
          obtain rfl : info = info' := Option.some.inj (hinfo.symm.trans hinfo')
          exact h.resolve_left hvalid
        · intro h
          exact ⟨info, hinfo, .inr h⟩
    · rw [iff_false_right fun h => Machine.noConfusion h.1]
      rintro ⟨info, hinfo, h⟩
      obtain ⟨hvalid, hbase, hparam⟩ := getUnwindInfo_deref_aarch64 hra hinfo
      exact not_computesDeref_aarch64 hbase hparam r o (c.getD 0) (h.resolve_left hvalid)

def plainRow : VmRegs := ⟨.x86_64, ⟨x86RegRSP, 8⟩, ⟨regUndefined, 0⟩, ⟨regCFA, -8⟩⟩

/-- `breg rbp, -16; deref; plus_uconst 8`. -/
theorem cfaInfo_deref_plainRow : DerefKept plainRow false x86RegRBP (-16) (some 8) :=
  (cfaInfo_deref_iff (.inl rfl) false (by decide) (-16) (some 8)).mpr
    (.inr ⟨rfl, .inr (.inr (.inr ⟨by decide, by decide, by decide⟩))⟩)

/-- What the unwinder is told for `breg rbp, 4; deref`. -/
def unalignedInfo : UnwindInfo :=
  { flags := unwindFlagDerefCfa, baseReg := unwindRegFp, param := 4 }

/-- With the recipe for `breg rbp, 4; deref` the unwinder computes `*rbp + 32`. -/
theorem cfaInfo_deref_unaligned :
    cfaInfo plainRow false (derefExpression x86RegRBP 4 none) = some unalignedInfo ∧
      ComputesDeref .x86_64 unalignedInfo x86RegRBP 0 32 ∧
      ¬DerefKept plainRow false x86RegRBP 4 none := by
  have hbase : unalignedInfo.baseReg &&& 0xf = getUnwinderRegX86 x86RegRBP := by decide
  have hflags : unalignedInfo.flags &&& unwindFlagDerefCfa ≠ 0 := by decide
  have hinfo : cfaInfo plainRow false (derefExpression x86RegRBP 4 none) = some unalignedInfo := by
    decide
  refine ⟨hinfo, (computesDeref_iff hbase hflags).mpr (by decide), ?_⟩
  rintro (hra | ⟨info, hinfo', h⟩)
  · exact absurd hra (by decide)
  · obtain rfl : unalignedInfo = info := Option.some.inj (hinfo.symm.trans hinfo')
    rcases h with h | h
    · exact absurd h (by decide)
    · exact absurd ((computesDeref_iff hbase hflags).mp h) (by decide)

end EbpfProfiler.ElfUnwind
