import EbpfProfiler.ElfUnwind.DerefTheorems
import EbpfProfiler.ElfUnwind.WalkTheorems

/-!
# Expressions for the CFA that cannot be used

One that cannot be read leaves the old rule, one that is not recognised an undefined CFA.
-/

namespace EbpfProfiler.ElfUnwind

open Lib StackDeltas Comp VmRegs State UnwindInfo

variable {allow : Bool} {c : Cursor} {r : Reader} {st : State}

/-! ## Rows without a recipe -/

/-- The packed offset can be used: it is from `rbp` or `rsp`, and fits. -/
def DerefUsable (off : Word) : Prop :=
  (packDerefParam ((splitOff off).2.2.1.signExtend 32)
    ((splitOff off).2.2.2.signExtend 32)).isSome = true ∧
    ((splitOff off).1.signExtend 64 = x86RegRBP ∨ (splitOff off).1.signExtend 64 = x86RegRSP)

/-- The CFA is found from `rbp` or `rsp`. -/
def CfaFixed (cfa : VmReg) : Prop :=
  cfa.reg = x86RegRBP ∨ cfa.reg = x86RegRSP ∨ (cfa.reg = regExprRegDeref ∧ DerefUsable cfa.off)

/-- The CFA is found from another register. -/
def CfaGeneric (cfa : VmReg) : Prop :=
  cfa.reg = x86RegRAX ∨ cfa.reg = x86RegR9 ∨ cfa.reg = x86RegR11 ∨ cfa.reg = x86RegR15

def CfaUsable (cfa : VmReg) (allowGenericRegs : Bool) : Prop :=
  CfaFixed cfa ∨ cfa.reg = regExprPLT ∨ (CfaGeneric cfa ∧ allowGenericRegs = true)

/-- No way to unwind with the rules of a row, which aarch64 always has. -/
def NoRecipe (regs : VmRegs) (allowGenericRegs : Bool) : Prop :=
  regs.arch = .x86_64 ∧ regs.cfa.reg ≠ regUndefined ∧ regs.ra.reg ≠ regUndefined ∧
    ((Popped regs ∧ regs.cfa.off.slt 0 = true) ∨
      (¬ Popped regs ∧ ¬ (RaUsable regs.ra allowGenericRegs ∧ CfaUsable regs.cfa allowGenericRegs)))

section Recipes

variable {regs : VmRegs} {allow : Bool}

/-- The part for the CFA of a recipe is found exactly for the rules that can be used. -/
lemma cfaFound_iff (regs : VmRegs) (allow : Bool) :
    CfaFound (regs.cfaInfoX86 {}) allow ↔ CfaUsable regs.cfa allow := by
  unfold cfaInfoX86 CfaUsable CfaFixed CfaGeneric DerefUsable
  dsimp only
  split_ifs with hfixed hgeneric hplt hderef hbase
  · rw [cfaFound_of_reg (by rcases hfixed with h | h <;> rw [h] <;> decide)]
    exact iff_of_true (.inl (by decide)) (.inl (hfixed.imp_right .inl))
  · have hreg : getUnwinderRegX86 regs.cfa.reg ≠ unwindRegInvalid ∧
        regs.cfa.reg ≠ regExprPLT ∧ regs.cfa.reg ≠ regExprRegDeref := by
      rcases hgeneric with h | h | h | h
      all_goals
        rw [h]
        decide
    rw [cfaFound_of_reg hreg.1, or_iff_right (by decide)]
    tauto
  · exact iff_of_true ⟨fun h => absurd h.1 (by decide), fun h => absurd h.2 (by decide)⟩
      (.inr (.inl hplt))
  · cases packDerefParam ((splitOff regs.cfa.off).2.2.1.signExtend 32)
        ((splitOff regs.cfa.off).2.2.2.signExtend 32) with
    | none =>
      refine iff_of_false (not_cfaFound allow) ?_
      rw [Option.isSome_none]
      tauto
    | some param =>
      refine (cfaFound_of_reg (by rcases hbase with h | h <;> rw [h] <;> decide)).trans ?_
      exact iff_of_true (.inl (by decide)) (.inl (.inr (.inr ⟨hderef, rfl, hbase⟩)))
  · refine iff_of_false ?_ (by tauto)
    split <;> exact not_cfaFound allow
  · exact iff_of_false (not_cfaFound allow) (by tauto)

lemma getUnwindInfo_x86_invalid_iff (harch : regs.arch = .x86_64) (allow : Bool) :
    regs.getUnwindInfo allow = some .invalid ↔
      (allow = false ∧ regs.getUnwindInfoX86.flags &&& unwindFlagLeafOnly ≠ 0) ∨
        regs.getUnwindInfoX86 = .invalid := by
  rw [getUnwindInfo_x86 harch]
  cases allow with
  | true => simp
  | false => simp [imp_iff_not_or]

/-- With rules for both, a recipe is invalid exactly if the return address or CFA is not found. -/
lemma getUnwindInfo_frame_invalid_iff
    (harch : regs.arch = .x86_64) (hcfa : regs.cfa.reg ≠ regUndefined)
    (hra : regs.ra.reg ≠ regUndefined) (hpopped : ¬ Popped regs) (allow : Bool) :
    regs.getUnwindInfo allow = some .invalid ↔
      ¬ (RaUsable regs.ra allow ∧ CfaUsable regs.cfa allow) := by
  rw [← cfaFound_iff]
  rcases getUnwindInfo_frame harch hcfa hra hpopped allow with ⟨hinvalid, hnot⟩ |
    ⟨info, hinfo, hne, husable, hfound, -⟩
  · exact iff_of_true hinvalid hnot
  · refine iff_of_false ?_ (not_not.mpr ⟨husable, hfound⟩)
    rw [hinfo]
    exact fun h => hne (Option.some.inj h)

/-- A row has an invalid recipe exactly if there is no way to unwind with its rules. -/
lemma getUnwindInfo_invalid_iff (regs : VmRegs) (allow : Bool) :
    regs.getUnwindInfo allow = some .invalid ↔ NoRecipe regs allow := by
  unfold NoRecipe
  cases harch : regs.arch with
  | x86_64 =>
    by_cases hundefined : regs.cfa.reg = regUndefined ∨ regs.ra.reg = regUndefined
    · -- the outermost function
      have hstop : regs.getUnwindInfoX86 = .stop := by
        rw [getUnwindInfoX86, if_pos hundefined]
      refine iff_of_false ?_ fun h => hundefined.elim h.2.1 h.2.2.1
      rw [getUnwindInfo_x86_invalid_iff harch, hstop]
      intro h
      exact h.elim (fun h => absurd h.2 (by decide)) fun h => absurd h (by decide)
    obtain ⟨hcfa, hra⟩ := not_or.mp hundefined
    by_cases hpopped : Popped regs
    · have hinfo : regs.getUnwindInfoX86 = if regs.cfa.off.slt 0 then .invalid else .stop := by
        rw [getUnwindInfoX86, if_neg hundefined]
        exact if_pos hpopped
      rw [getUnwindInfo_x86_invalid_iff harch, hinfo]
      cases hneg : regs.cfa.off.slt 0 with
      | true => exact iff_of_true (.inr rfl) ⟨rfl, hcfa, hra, .inl ⟨hpopped, rfl⟩⟩
      | false =>
        refine iff_of_false ?_ ?_
        · intro h
          exact h.elim (fun h => absurd h.2 (by decide)) fun h => absurd h (by decide)
        · rintro ⟨-, -, -, h | h⟩
          · cases h.2
          · exact h.1 hpopped
    · rw [getUnwindInfo_frame_invalid_iff harch hcfa hra hpopped]
      tauto
  | aarch64 =>
    obtain ⟨hne, hleaf⟩ := getUnwindInfoARM_plain regs
    rw [getUnwindInfo, harch]
    simp [hne, hleaf]
  | other m =>
    rw [getUnwindInfo, harch]
    simp

lemma getUnwindInfo_ne_invalid (hcfa : regs.cfa.reg = regUndefined) :
    regs.getUnwindInfo allow ≠ some .invalid := by
  rw [Ne, getUnwindInfo_invalid_iff]
  intro h
  exact h.2.1 hcfa

end Recipes

/-! ## Rows behind an instruction -/

/-- The instructions that give the CFA another rule. -/
def CfaInstruction.definesCfa : CfaInstruction → Bool
  | .defCfa _ _ | .defCfaRegister _ | .defCfaOffset _ | .defCfaExpression _ | .defCfaSf _ _
  | .defCfaOffsetSf _ | .restoreState => true
  | _ => false

/-- The rows that `parseFDE` adds from a point inside of a step on, with the ends of their steps. -/
inductive RowFrom (r : Reader) (cie : CieInfo) : State × Cursor → State × Cursor → Prop
  | this {st next : State} {c d : Cursor} (h : (st.step r cie).exec c = (.ok next, d)) :
      RowFrom r cie (st, c) (next, d)
  | later {st next : State} {c d : Cursor} {t : State × Cursor}
      (h : (st.step r cie).exec c = (.ok next, d)) (hd : d.remaining ≠ 0)
      (hrest : RowFrom r cie (next, d) t) : RowFrom r cie (st, c) t

/-- No instruction on the way defines the CFA. -/
def WithoutCfa (r : Reader) (cie : CieInfo) : State × Cursor → State × Cursor → Prop :=
  Relation.ReflTransGen (Round r cie fun _ ins => !ins.definesCfa)

/-- The instruction in front of `p` is `DW_CFA_def_cfa_expression`, and leads to `q`. -/
structure DefCfaExpression (r : Reader) (cie : CieInfo) (p q : State × Cursor)
    (expr : Except String (List DwarfExpression)) : Prop where
  remaining : p.2.remaining ≠ 0
  read : (readInstruction r cie.enc).exec p.2 = (.ok (.defCfaExpression expr), q.2)
  execute : p.1.execute cie (.defCfaExpression expr) = .ok q.1

/-- The expression is of no known form, or could not be read. -/
def Unusable : Except String (List DwarfExpression) → Prop
  | .ok expr => matchedRule expr = none
  | .error _ => True

def Block (c : Cursor) (n : Word) (b : Cursor) : Prop :=
  ∃ opcode c₁, uint8.exec c = (.ok opcode, c₁) ∧ uleb.exec c₁ = (.ok n, b)

/-- The rows up to the next CFA definition are invalid, and a block in the FDE is left behind. -/
structure Rejected (r : Reader) (cie : CieInfo) (allow : Bool) (p q : State × Cursor) : Prop where
  rows : ∀ t, RowFrom r cie q t → WithoutCfa r cie q t → t.1.cur.getUnwindInfo allow = some .invalid
  continues : ∃ n b, Block p.2 n b ∧ (b.pos + n.toNat ≤ b.slimit → q.2.pos = b.pos + n.toNat)

/-- The expression could not be read, and the rule before it gives no recipe up to the next one. -/
structure RejectedBefore (r : Reader) (cie : CieInfo) (allow : Bool) (p q : State × Cursor)
    (expr : Except String (List DwarfExpression)) : Prop where
  rows : ∀ t, RowFrom r cie q t → WithoutCfa r cie q t →
    (∃ err, expr = .error err) ∧ NoRecipe { t.1.cur with cfa := p.1.cur.cfa } allow
  continues : ∃ n b, Block p.2 n b ∧ (b.pos + n.toNat ≤ b.slimit →
    n = 0 ∨ (n.toNat < 2 ^ 63 ∧ b.pos + n.toNat ≤ b.source.length))

lemma exists_mem_add (deltas : List StackDelta) (offset : ℕ) (info : UnwindInfo) :
    deltas ⊆ StackDeltaArray.add deltas offset info ∧ ∃ d ∈ StackDeltaArray.add deltas offset info,
      d.info = if info.isCommand then .command info.param else info := by
  rcases StackDeltaArray.add_cases deltas offset info with ⟨heq, last, hlast, hinfo⟩ | heq
  · rw [heq]
    exact ⟨List.Subset.refl _, last, List.mem_of_getLast? hlast, hinfo⟩
  · rw [heq]
    exact ⟨List.subset_append_left .., _, List.mem_concat_self, rfl⟩

section Rows

variable {r : Reader} {cie : CieInfo} {p q t : State × Cursor}
  {expr : Except String (List DwarfExpression)}

variable {deltas ds : List StackDelta}

/-- A recipe stays in the deltas, as `StackDeltaArray.add` has reduced it. -/
lemma mem_fdeRows {fuel : ℕ} {e : Cursor} {d : StackDelta} (hd : d ∈ deltas)
    (h : (fdeRows r cie allow fuel st deltas).exec c = (.ok ds, e)) : d ∈ ds := by
  induction fuel generalizing st deltas c with
  | zero =>
    cases h
    exact hd
  | succ fuel ih =>
    rw [fdeRows, exec_get_bind] at h
    split at h
    · cases h
      exact hd
    · obtain ⟨next, c', -, h⟩ := exec_bind_ok.mp h
      split at h
      · cases h
      · exact ih ((exists_mem_add _ _ _).1 hd) h

/-- The rows are those that the loop of `parseFDE` adds. -/
lemma RowFrom.mem_deltas {fuel : ℕ} {e : Cursor} (hrow : RowFrom r cie p t) (hp : p.2.remaining ≠ 0)
    (hfuel : p.2.remaining ≤ fuel)
    (h : (fdeRows r cie allow fuel p.1 deltas).exec p.2 = (.ok ds, e)) :
    ∃ info, t.1.cur.getUnwindInfo allow = some info ∧ ∃ d ∈ ds,
      d.info = if info.isCommand then .command info.param else info := by
  induction hrow generalizing fuel deltas with
  | @this st next c d hstep =>
    cases fuel with
    | zero => exact absurd (Nat.le_zero.mp hfuel) hp
    | succ fuel =>
      rw [fdeRows, exec_get_bind, if_neg hp, exec_bind_of_ok hstep] at h
      split at h
      · cases h
      · next info hinfo =>
        obtain ⟨-, d, hd, hd'⟩ := exists_mem_add deltas (st.loc.toNat % 2 ^ 32) info
        exact ⟨info, hinfo, d, mem_fdeRows hd h, hd'⟩
  | @later st next c d t hstep hd _ ih =>
    cases fuel with
    | zero => exact absurd (Nat.le_zero.mp hfuel) hp
    | succ fuel =>
      have hless := (stepLoop_forward hstep).2 hp
      dsimp only at hfuel
      rw [fdeRows, exec_get_bind, if_neg hp, exec_bind_of_ok hstep] at h
      split at h
      · cases h
      · exact ih hd (show d.remaining ≤ fuel by omega) h

/-- **Step lemma.** -/
lemma execute_cfa {st' : State} {ins : CfaInstruction} (hins : ins.definesCfa = false)
    (h : st.execute cie ins = .ok st') : st'.cur.cfa = st.cur.cfa := by
  have hset (regs : VmRegs) (slot : VmRegs.Slot) (rule : VmReg) :
      (regs.set slot rule).cfa = regs.cfa := by
    cases slot with
    | fp => rfl
    | ra => rfl
  have hrule (reg base off : Word) : (st.rule cie reg base off).cur.cfa = st.cur.cfa := by
    unfold rule
    split
    · exact hset _ _ _
    · rfl
  cases ins with
  | nop | gnuWindowSave | gnuArgsSize | setLoc _ | advanceLoc _ =>
    cases h
    rfl
  | offset _ _ | undefined _ | sameValue _ | register _ _ | valOffset _ _ | valExpression _ =>
    cases h
    exact hrule _ _ _
  | restore reg =>
    cases h
    unfold restore
    split
    · exact hset _ _ _
    · rfl
  | rememberState =>
    rw [execute] at h
    split at h
    · cases h
    · cases h
      rfl
  | expression reg expr =>
    rw [execute] at h
    split at h
    · cases h
      exact hset _ _ _
    · cases h
      rfl
  | restoreState | defCfa _ _ | defCfaRegister _ | defCfaOffset _
  | defCfaExpression _ | defCfaSf _ _
  | defCfaOffsetSf _ => cases hins

/-- **Run lemma.** The CFA keeps its rule. -/
lemma WithoutCfa.cfa_eq (h : WithoutCfa r cie q t) : t.1.cur.cfa = q.1.cur.cfa := by
  induction h with
  | refl => rfl
  | tail _ hround ih =>
    obtain ⟨-, ins, -, hexec, hins⟩ := hround
    rw [execute_cfa (by simpa using hins) hexec]
    exact ih

/-- A row is invalid exactly if the expression was not read and the old rule gives no recipe. -/
lemma row_invalid_iff (h : DefCfaExpression r cie p q expr) (hexpr : Unusable expr)
    (ht : WithoutCfa r cie q t) : t.1.cur.getUnwindInfo allow = some .invalid ↔
      (∃ err, expr = .error err) ∧ NoRecipe { t.1.cur with cfa := p.1.cur.cfa } allow := by
  have hcfa := ht.cfa_eq
  have hq : q.1 = p.1.setCfa ((expressionRule expr).getD p.1.cur.cfa) :=
    (Except.ok.inj h.execute).symm
  rw [hq] at hcfa
  cases expr with
  | ok e =>
    -- the CFA is undefined
    have hnone : matchedRule e = none := hexpr
    have hundefined : t.1.cur.cfa.reg = regUndefined := by
      rw [hcfa, expressionRule, hnone]
      rfl
    refine iff_of_false (getUnwindInfo_ne_invalid hundefined) ?_
    rintro ⟨⟨err, herr⟩, -⟩
    cases herr
  | error err =>
    have hsame : { t.1.cur with cfa := p.1.cur.cfa } = t.1.cur := by
      rw [show p.1.cur.cfa = t.1.cur.cfa from hcfa.symm]
    rw [hsame, getUnwindInfo_invalid_iff]
    exact (and_iff_right ⟨err, rfl⟩).symm

end Rows

/-! ## Where decoding continues -/

lemma exec_lebLoop (fuel shift : ℕ) (val : Word) (c : Cursor) :
    ∃ v d, (lebLoop fuel shift val).exec c = (.ok v, d) := by
  induction fuel generalizing shift val c with
  | zero => exact ⟨_, _, rfl⟩
  | succ fuel ih =>
    obtain ⟨b, d, hb⟩ : ∃ b d, uint8.exec c = (.ok b, d) := by
      rcases lt_or_ge c.available 1 with hlt | hle
      · exact ⟨_, _, exec_bind_of_ok (exec_uintLE_of_lt hlt) _⟩
      · exact ⟨_, _, exec_bind_of_ok (exec_uintLE_of_le hle) _⟩
    rw [lebLoop, exec_bind_of_ok hb]
    split
    · exact ih _ _ _
    · exact ⟨_, _, rfl⟩

lemma exec_uleb (c : Cursor) : ∃ n b, uleb.exec c = (.ok n, b) := by
  obtain ⟨v, d, h⟩ := exec_lebLoop (c.available + 1) 0 0 c
  refine ⟨v.1, d, ?_⟩
  rw [uleb, exec_get_bind, exec_bind_of_ok h]
  rfl

variable {expr : Except String (List DwarfExpression)}

lemma pos_expression {d : Cursor}
    (h : (Comp.attempt expression).exec c = (.ok expr, d)) : ∃ n b, uleb.exec c = (.ok n, b) ∧
      ((n.toNat < 2 ^ 63 ∧ b.pos + n.toNat ≤ b.slimit ∧
          d.pos = max b.pos (min (b.pos + n.toNat) b.source.length)) ∨
        (¬ (n.toNat < 2 ^ 63 ∧ b.pos + n.toNat ≤ b.slimit) ∧ d = b)) := by
  obtain ⟨n, b, hn⟩ := exec_uleb c
  refine ⟨n, b, hn, ?_⟩
  have hrest : (attempt (if 2 ^ 63 ≤ n.toNat then error "negative count"
      else withSection n.toNat (do operators (← get).remaining []))).exec b = (.ok expr, d) := by
    have hexec : expression.exec c = (if 2 ^ 63 ≤ n.toNat then error "negative count"
        else withSection n.toNat (do operators (← get).remaining [])).exec b := by
      rw [expression, exec_bind_of_ok hn]
    unfold exec at h hexec ⊢
    unfold attempt at h ⊢
    rw [← hexec]
    exact h
  by_cases hbig : 2 ^ 63 ≤ n.toNat
  · rw [if_pos hbig] at hrest
    cases hrest
    exact .inr ⟨fun h => by omega, rfl⟩
  · rw [if_neg hbig] at hrest
    have hreads : (do operators (← get).remaining [] : Comp Cursor _).Reads :=
      .bind reads_get fun c => reads_operators _ _
    rcases pos_withSection hreads hrest with ⟨hfits, hpos⟩ | ⟨hlong, rfl⟩
    · exact .inl ⟨by omega, hfits, hpos⟩
    · exact .inr ⟨fun h => by omega, rfl⟩

lemma readInstruction_defCfaExpression {enc : BitVec 8} {d : Cursor}
    (h : (readInstruction r enc).exec c = (.ok (.defCfaExpression expr), d)) :
    ∃ opcode c₁, uint8.exec c = (.ok opcode, c₁) ∧ (Comp.attempt expression).exec c₁ =
      (.ok expr, d) := by
  obtain ⟨opcode, c₁, hopcode, h⟩ := exec_bind_ok.mp h
  refine ⟨opcode, c₁, hopcode, ?_⟩
  split at h
  · cases h
  · obtain ⟨_, _, _, h⟩ := exec_bind_ok.mp h
    cases h
  · cases h
  · unfold readExtended at h
    split at h
    -- the other instructions are other constructors
    case h_16 =>
      obtain ⟨e, c₂, he, h⟩ := exec_bind_ok.mp h
      cases h
      exact he
    all_goals first
      | cases h
      | obtain ⟨_, _, _, h⟩ := exec_bind_ok.mp h
        cases h
      | obtain ⟨_, _, _, h⟩ := exec_bind_ok.mp h
        obtain ⟨_, _, _, h⟩ := exec_bind_ok.mp h
        cases h

/-- **Main result.** An expression that cannot be used is rejected exactly if it could not be read,
its block is in the file, and the rule before it is of no use up to the next definition. -/
theorem defCfaExpression_rejected_iff {r : Reader} {cie : CieInfo} {p q : State × Cursor}
    {expr : Except String (List DwarfExpression)} (allow : Bool)
    (h : DefCfaExpression r cie p q expr) (hexpr : Unusable expr) :
    Rejected r cie allow p q ↔ RejectedBefore r cie allow p q expr := by
  have hrows : (∀ t, RowFrom r cie q t → WithoutCfa r cie q t →
      t.1.cur.getUnwindInfo allow = some .invalid) ↔ ∀ t, RowFrom r cie q t → WithoutCfa r cie q t →
        (∃ err, expr = .error err) ∧ NoRecipe { t.1.cur with cfa := p.1.cur.cfa } allow :=
    forall_congr' fun t => imp_congr_right fun _ => forall_congr' fun ht =>
      row_invalid_iff h hexpr ht
  obtain ⟨opcode, c₁, hopcode, hblock⟩ := readInstruction_defCfaExpression h.read
  obtain ⟨n, b, hn, hpos⟩ := pos_expression hblock
  have hunique : ∀ n' b', Block p.2 n' b' → n' = n ∧ b' = b := by
    rintro n' b' ⟨opcode', c₁', hopcode', hn'⟩
    cases hopcode.symm.trans hopcode'
    cases hn.symm.trans hn'
    exact ⟨rfl, rfl⟩
  have hthere : (b.pos + n.toNat ≤ b.slimit → q.2.pos = b.pos + n.toNat) ↔
      (b.pos + n.toNat ≤ b.slimit →
        n = 0 ∨ (n.toNat < 2 ^ 63 ∧ b.pos + n.toNat ≤ b.source.length)) := by
    have hzero : n = 0 ↔ n.toNat = 0 := by
      rw [← BitVec.toNat_inj]
      rfl
    rw [hzero]
    rcases hpos with ⟨hsmall, hfits, hpos⟩ | ⟨hlong, heq⟩
    · omega
    · rw [heq]
      omega
  constructor
  · rintro ⟨hinvalid, n', b', hb, hcontinues⟩
    obtain ⟨rfl, rfl⟩ := hunique n' b' hb
    exact ⟨hrows.mp hinvalid, _, _, hb, hthere.mp hcontinues⟩
  · rintro ⟨hinvalid, n', b', hb, hcontinues⟩
    obtain ⟨rfl, rfl⟩ := hunique n' b' hb
    exact ⟨hrows.mpr hinvalid, _, _, hb, hthere.mpr hcontinues⟩

/-- A CIE with the CFA at an offset from a register. -/
def expressionCie (reg off : Word) : CieInfo where
  dataAlign := -8
  codeAlign := 1
  enc := 0
  hasAugmentation := false
  isSignalHandler := false
  initialState := ⟨.x86_64, ⟨reg, off⟩, ⟨regUndefined, 0⟩, ⟨regCFA, -8⟩⟩

def expressionReader : Reader := ⟨.x86_64, false, 0, 0, maxBufferSize⟩

/-- The instructions of an FDE: `DW_CFA_def_cfa_expression` with a block of one byte. -/
def expressionAt (op : Byte) (pos : ℕ) : Cursor := ⟨[0x0f, 1, op], pos, 3, []⟩

/-- A point in these instructions, with the rules of the CIE. -/
def expressionPoint (cie : CieInfo) (op : Byte) (pos : ℕ) : State × Cursor :=
  (.first cie, expressionAt op pos)

lemma exec_step_end {cie : CieInfo} (st : State) (hc : c.remaining = 0) :
    (st.step r cie).exec c = (.ok st, c) := by
  rw [exec_step, exec_stepLoop_end _ hc]

lemma rowFrom_end {cie : CieInfo} (hc : c.remaining = 0) {t : State × Cursor}
    (h : RowFrom r cie (st, c) t) : t = (st, c) := by
  cases h with
  | this h =>
    cases (exec_step_end st hc).symm.trans h
    rfl
  | later h hd =>
    cases (exec_step_end st hc).symm.trans h
    exact absurd hc hd

/-- An unknown operator, where the CFA was in an unusable register. -/
theorem defCfaExpression_rejected_r12 :
    Rejected expressionReader (expressionCie 12 16) false
      (expressionPoint (expressionCie 12 16) 0x08 0)
      (expressionPoint (expressionCie 12 16) 0x08 3) := by
  have h : DefCfaExpression expressionReader (expressionCie 12 16)
      (expressionPoint (expressionCie 12 16) 0x08 0) (expressionPoint (expressionCie 12 16) 0x08 3)
      (.error "unsupported expression opcode: 8") :=
    ⟨by decide, by decide +kernel, by decide +kernel⟩
  apply (defCfaExpression_rejected_iff false h trivial).mpr
  constructor
  · intro t hrow _
    obtain rfl := rowFrom_end (by decide) hrow
    refine ⟨⟨_, rfl⟩, ?_⟩
    rw [← getUnwindInfo_invalid_iff]
    decide
  · have hblock : Block (expressionAt 0x08 0) 1 (expressionAt 0x08 2) :=
      ⟨0x0f, expressionAt 0x08 1, by decide +kernel, by decide +kernel⟩
    exact ⟨1, expressionAt 0x08 2, hblock, fun _ => .inr (by decide)⟩

/-- As `ordinaryEhFrame`, with the CFA of the FDE in an expression that is not known. -/
def staleEhFrame : List Byte :=
  [0x14, 0, 0, 0,  0, 0, 0, 0,  1,  0x7a, 0x52, 0,  1,  0x78,  0x10,  1, 0,
    0x0c, 7, 8,  0x90, 1,  0, 0,
    0x18, 0, 0, 0,  0x1c, 0, 0, 0,  0, 0, 1, 0, 0, 0, 0, 0,  0x10, 0, 0, 0, 0, 0, 0, 0,  0,
    0x0f, 1, 0x08,
    0, 0, 0, 0]

/-- The FDE uses the CFA of its CIE. A number as an expression makes the function the outermost. -/
theorem defCfaExpression_stale :
    extractFile sampleEnv (ehFrameFile staleEhFrame) =
        .ok ⟨1, [⟨0x10000, 0x10010, [⟨0, { baseReg := unwindRegSp, param := 8 }⟩]⟩]⟩ ∧
      (DefCfaExpression expressionReader (expressionCie 7 8)
        (expressionPoint (expressionCie 7 8) 0x08 0)
          (expressionPoint (expressionCie 7 8) 0x08 3) (.error "unsupported expression opcode: 8") ∧
        ¬ Rejected expressionReader (expressionCie 7 8) false
          (expressionPoint (expressionCie 7 8) 0x08 0)
          (expressionPoint (expressionCie 7 8) 0x08 3)) ∧
      (DefCfaExpression expressionReader (expressionCie 7 8)
        (expressionPoint (expressionCie 7 8) 0x30 0)
          ((first (expressionCie 7 8)).setCfa ⟨regUndefined, 0⟩, expressionAt 0x30 3)
          (.ok [⟨opLit0, 0, 0⟩]) ∧
        ¬ Rejected expressionReader (expressionCie 7 8) false
          (expressionPoint (expressionCie 7 8) 0x30 0)
          ((first (expressionCie 7 8)).setCfa ⟨regUndefined, 0⟩, expressionAt 0x30 3)) := by
  refine ⟨by decide +kernel, ⟨⟨by decide, by decide +kernel, by decide +kernel⟩, ?_⟩,
    ⟨by decide, by decide +kernel, by decide +kernel⟩, ?_⟩
  · intro h
    have hrow := h.rows (_, expressionAt 0x08 3) (.this (exec_step_end _ (by decide))) .refl
    exact absurd hrow (by decide)
  · intro h
    have hrow := h.rows (_, expressionAt 0x30 3) (.this (exec_step_end _ (by decide))) .refl
    exact absurd hrow (by decide)

end EbpfProfiler.ElfUnwind
