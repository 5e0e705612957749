import Mathlib.Logic.Relation
import EbpfProfiler.ElfUnwind.EhFrame

/-!
# Reading call frame information goes forward

All reads end, except that `step` reads zeros at the end of the file (`stepLoop_hangs_iff`).
-/

namespace EbpfProfiler.ElfUnwind

open Lib StackDeltas Comp

variable {enc : BitVec 8} {c d : Cursor} {r : Reader} {fuel : ℕ}

/-! ## Numbers, pointers and expressions -/

lemma reads_uint8 : uint8.Reads :=
  (reads_uintLE 1).map _

lemma reads_lebLoop (fuel shift : ℕ) (val : Word) : (lebLoop fuel shift val).Reads := by
  induction fuel generalizing shift val with
  | zero => exact reads_pure _
  | succ fuel ih =>
    refine .bind reads_uint8 fun b => ?_
    split
    · exact ih _ _
    · exact reads_pure _

lemma reads_uleb : uleb.Reads :=
  .bind reads_get fun _ => (reads_lebLoop _ _ _).map _

lemma reads_sleb : sleb.Reads :=
  .bind reads_get fun _ => (reads_lebLoop _ _ _).map _

lemma reads_discardUleb : discardUleb.Reads := by
  apply Comp.Reads.bind reads_uleb
  intro n
  apply reads_of_exec
  intro c
  refine .inl ⟨(), _, rfl, ?_⟩
  split
  · exact c.until_discard _
  · exact .refl c

lemma reads_ptr (r : Reader) (enc : BitVec 8) : (r.ptr enc).Reads := by
  have hvalue : (ptrValue enc).Reads := by
    unfold ptrValue
    split
    · exact (reads_uintLE 2).map _
    · exact (reads_uintLE 4).map _
    · exact (reads_uintLE 8).map _
    · exact (reads_uintLE 8).map _
    · exact (reads_uintLE 8).map _
    · exact (reads_uintLE 2).map _
    · exact (reads_uintLE 4).map _
    · exact reads_error _
  unfold Reader.ptr
  split
  · exact reads_pure _
  · refine .bind hvalue fun v => .bind reads_get fun c => ?_
    have hend (val : Word) : (if enc &&& encIndirect ≠ 0 then
          error s!"unsupported indirect encoding {hexByte enc}"
        else pure val : Comp Cursor Word).Reads := by
      split
      · exact reads_error _
      · exact reads_pure _
    dsimp only
    split
    · exact .bind (reads_pure _) hend
    · exact .bind (reads_pure _) hend
    · exact .bind (reads_pure _) hend
    · exact .bind (reads_error _) hend

lemma reads_readOperator : readOperator.Reads := by
  refine .bind reads_uint8 fun op => ?_
  split
  · exact reads_pure _
  split
  · exact reads_sleb.map _
  split
  · exact reads_uleb.map _
  split
  · exact reads_sleb.map _
  split
  · exact reads_pure _
  · exact reads_error _

lemma reads_operators (fuel : ℕ) (expr : List DwarfExpression) : (operators fuel expr).Reads := by
  induction fuel generalizing expr with
  | zero => exact reads_pure _
  | succ fuel ih =>
    refine .bind reads_get fun c => ?_
    split
    · exact reads_pure _
    · exact .bind reads_readOperator fun op => ih _

lemma reads_expression : expression.Reads := by
  refine .bind reads_uleb fun n => ?_
  split
  · exact reads_error _
  · exact .withSection _ (.bind reads_get fun c => reads_operators _ _)

/-! ## Instructions -/

lemma reads_readExtended (r : Reader) (enc opcode : BitVec 8) :
    (readExtended r enc opcode).Reads := by
  have htwo (f : Word → Word → CfaInstruction) :
      (uleb >>= fun a => uleb >>= fun b => pure (f a b)).Reads :=
    .bind reads_uleb fun _ => reads_uleb.map _
  have hsf (f : Word → Word → CfaInstruction) :
      (uleb >>= fun a => sleb >>= fun b => pure (f a b)).Reads :=
    .bind reads_uleb fun _ => reads_sleb.map _
  unfold readExtended
  split
  · exact reads_pure _
  · exact (reads_ptr r enc).map _
  · exact (reads_uintLE 1).map _
  · exact (reads_uintLE 2).map _
  · exact (reads_uintLE 4).map _
  · exact htwo _
  · exact reads_uleb.map _
  · exact reads_uleb.map _
  · exact reads_uleb.map _
  · exact htwo _
  · exact reads_pure _
  · exact reads_pure _
  · exact htwo _
  · exact reads_uleb.map _
  · exact reads_uleb.map _
  · exact reads_expression.attempt.map _
  · exact .bind reads_uleb fun _ => reads_expression.attempt.map _
  · exact hsf _
  · exact hsf _
  · exact reads_sleb.map _
  · exact htwo _
  · exact hsf _
  · exact .bind reads_uleb fun _ => reads_discardUleb.map _
  · exact reads_pure _
  · exact reads_uleb.map _
  · exact .bind reads_uleb fun _ => reads_sleb.map _
  · exact reads_error _

lemma reads_readInstruction (r : Reader) (enc : BitVec 8) : (readInstruction r enc).Reads := by
  refine .bind reads_uint8 fun opcode => ?_
  split
  · exact reads_pure _
  · exact reads_uleb.map _
  · exact reads_pure _
  · exact reads_readExtended r enc opcode

/-- At the end of the file a zero is read, over and over. -/
lemma exec_readInstruction_stuck (h : c.available = 0) :
    (readInstruction r enc).exec c = (.ok .nop, c) := by
  have hbyte : uint8.exec c = (.ok 0, c) := by
    rw [uint8, exec_bind_of_ok (exec_uintLE_of_lt (by omega))]
    rfl
  rw [readInstruction, exec_bind_of_ok hbyte]
  rfl

lemma readInstruction_progress {i : CfaInstruction}
    (h : (readInstruction r enc).exec c = (.ok i, d)) :
    (0 < c.available ∧ c.Before d ∧ c.pos < d.pos) ∨ (c.available = 0 ∧ d = c) := by
  rcases Nat.eq_zero_or_pos c.available with hzero | hpos
  · right
    rw [exec_readInstruction_stuck hzero] at h
    cases h
    exact ⟨hzero, rfl⟩
  · left
    obtain ⟨opcode, c₁, hop, h⟩ := exec_bind_ok.mp h
    obtain ⟨n, c₂, hn, hop⟩ := exec_bind_ok.mp hop
    cases hop
    rw [exec_uintLE_of_le hpos] at hn
    cases hn
    have hrest : Cursor.Before { c with pos := c.pos + 1 } d := by
      split at h
      · exact (reads_pure _).forward _ _ _ h
      · exact (reads_uleb.map _).forward _ _ _ h
      · exact (reads_pure _).forward _ _ _ h
      · exact (reads_readExtended r enc _).forward _ _ _ h
    exact ⟨hpos, (c.before_skip 1).trans hrest, hrest.pos⟩

lemma readInstruction_remaining {i : CfaInstruction} (hc : c.remaining ≠ 0) (ha : c.available ≠ 0)
    (h : (readInstruction r enc).exec c = (.ok i, d)) : c.Before d ∧ d.remaining < c.remaining := by
  rcases readInstruction_progress h with ⟨-, hbefore, hlt⟩ | ⟨hzero, -⟩
  · exact ⟨hbefore, hbefore.remaining_add hc hlt⟩
  · exact absurd hzero ha

/-! ## Entries -/

section
variable (r : Reader)

lemma reads_checkMarker (length ciePos cieMarker : Word) (size : ℕ) :
    (checkMarker r length ciePos cieMarker size).Reads := by
  refine .bind reads_get fun c => ?_
  extract_lets pos
  split
  · exact reads_error _
  · exact reads_pure _

lemma reads_parseLengthAndMarker : (parseLengthAndMarker r).Reads := by
  refine .bind (reads_uintLE 4) fun length => ?_
  split
  · exact reads_pure _
  split
  · exact .bind (reads_uintLE 4) fun ciePos => reads_checkMarker r _ _ _ _
  split
  · exact .bind (reads_uintLE 8) fun length => .bind (reads_uintLE 8) fun ciePos =>
      reads_checkMarker r _ _ _ _
  · exact reads_error _

lemma reads_parseAugmentation (augmentation : List Byte) (cie : CieInfo) :
    (parseAugmentation r augmentation cie).Reads := by
  have hdata (all letters : List Byte) (cie : CieInfo) :
      (augmentationData r all letters cie).Reads := by
    induction letters generalizing cie with
    | nil => exact reads_pure _
    | cons ch rest ih =>
      unfold augmentationData
      split
      · exact .bind reads_uint8 fun _ => ih _
      · exact .bind reads_uint8 fun _ => ih _
      · exact .bind reads_uint8 fun _ => .bind (reads_ptr r _) fun _ => ih _
      · exact ih _
      · exact reads_error _
  unfold parseAugmentation
  split
  · exact reads_pure _
  · split
    · exact reads_error _
    · exact .bind reads_uleb fun _ => hdata _ _ _

lemma reads_parseCIEHeader : (parseCIEHeader r).Reads := by
  have hend (cie : CieInfo) : (newVMRegs r.machine >>= fun regs =>
      pure { cie with initialState := regs }).Reads := by
    unfold newVMRegs
    split
    · exact reads_pure _
    · exact reads_pure _
    · exact reads_panic _
  refine .bind reads_uint8 fun ver => ?_
  split
  · exact reads_error _
  refine .bind (reads_cstring _) fun augmentation => ?_
  split
  · exact reads_error _
  apply reads_modify
  · intro c
    split
    · exact c.until_discard 2
    · exact .refl c
  · refine .bind reads_uleb fun codeAlign => .bind reads_sleb fun dataAlign => ?_
    split
    · exact .bind (reads_uint8.map _) fun _ =>
        .bind (reads_parseAugmentation r _ _) hend
    · exact .bind reads_uleb fun _ => .bind (reads_parseAugmentation r _ _) hend

lemma reads_fdeHeader (cie : CieInfo) : (fdeHeader r cie).Reads := by
  refine .bind (reads_ptr r _) fun ipStart => .bind (reads_ptr r _) fun ipLen => ?_
  split
  · exact reads_discardUleb.map _
  · exact reads_pure _

end

lemma parseLengthAndMarker_progress {entry : ℕ × Word}
    (h : (parseLengthAndMarker r).exec c = (.ok (some entry), d)) : c.Before d ∧ c.pos < d.pos := by
  refine ⟨(reads_parseLengthAndMarker r).forward c _ d h, ?_⟩
  obtain ⟨length, c₁, hlength, h⟩ := exec_bind_ok.mp h
  rcases lt_or_ge c.available 4 with hlt | hle
  · rw [exec_uintLE_of_lt hlt] at hlength
    cases hlength
    cases h
  · rw [exec_uintLE_of_le hle] at hlength
    cases hlength
    have hrest : Cursor.Before { c with pos := c.pos + 4 } d := by
      split at h
      · cases h
      split at h
      · exact (Comp.Reads.bind (reads_uintLE 4) fun _ =>
          reads_checkMarker r _ _ _ _).forward _ _ _ h
      split at h
      · exact (Comp.Reads.bind (reads_uintLE 8) fun _ => .bind (reads_uintLE 8) fun _ =>
          reads_checkMarker r _ _ _ _).forward _ _ _ h
      · cases h
    exact lt_of_lt_of_le (Nat.lt_add_of_pos_right (by decide)) hrest.pos

/-! ## The loop of `step` -/

/-- One round of the loop of `step`, after which `go` follows. -/
def Round (r : Reader) (cie : CieInfo) (go : State → CfaInstruction → Bool) (p q : State × Cursor) :
    Prop :=
  p.2.remaining ≠ 0 ∧ ∃ ins, (readInstruction r cie.enc).exec p.2 = (.ok ins, q.2) ∧
    p.1.execute cie ins = .ok q.1 ∧ go q.1 ins = true

/-- The instructions come to the end of the file, and their section is longer. -/
def RunsOut (r : Reader) (cie : CieInfo) (go : State → CfaInstruction → Bool) (st : State)
    (c : Cursor) : Prop :=
  ∃ p, Relation.ReflTransGen (Round r cie go) (st, c) p ∧ p.2.remaining ≠ 0 ∧ p.2.available = 0

/-- `step` goes on until the location moves. -/
def withinRow (_ : State) (ins : CfaInstruction) : Bool := !ins.isMove

/-- The loop of `parseFDE` goes on with the next row. -/
def withinFde (allowGenericRegs : Bool) (st : State) (ins : CfaInstruction) : Bool :=
  !ins.isMove || (st.cur.getUnwindInfo allowGenericRegs).isSome

section Step

variable {r : Reader} {cie : CieInfo} {go : State → CfaInstruction → Bool} {st : State} {c : Cursor}

lemma runsOut_of_stuck (hc : c.remaining ≠ 0) (ha : c.available = 0) : RunsOut r cie go st c :=
  ⟨(st, c), .refl, hc, ha⟩

lemma not_runsOut_of_end (hc : c.remaining = 0) : ¬ RunsOut r cie go st c := by
  rintro ⟨p, hrun, hp, -⟩
  rcases hrun.cases_head with rfl | ⟨q, hround, -⟩
  · exact hp hc
  · exact hround.1 hc

/-- Where a byte can be read, the first round decides. -/
lemma runsOut_iff (hc : c.remaining ≠ 0) (ha : c.available ≠ 0) : RunsOut r cie go st c ↔
    ∃ ins d st', (readInstruction r cie.enc).exec c = (.ok ins, d) ∧ st.execute cie ins = .ok st' ∧
      go st' ins = true ∧ RunsOut r cie go st' d := by
  constructor
  · rintro ⟨p, hrun, hp, hpa⟩
    rcases hrun.cases_head with rfl | ⟨q, ⟨-, ins, hread, hexec, hgo⟩, hrest⟩
    · exact absurd hpa ha
    · exact ⟨ins, q.2, q.1, hread, hexec, hgo, p, hrest, hp, hpa⟩
  · rintro ⟨ins, d, st', hread, hexec, hgo, p, hrest, hp⟩
    exact ⟨p, .head (b := (st', d)) ⟨hc, ins, hread, hexec, hgo⟩ hrest, hp⟩

lemma runsOut_iff_of_read (hc : c.remaining ≠ 0) (ha : c.available ≠ 0) {ins : CfaInstruction}
    {st' : State} (hread : (readInstruction r cie.enc).exec c = (.ok ins, d))
    (hexec : st.execute cie ins = .ok st') :
    RunsOut r cie go st c ↔ go st' ins = true ∧ RunsOut r cie go st' d := by
  rw [runsOut_iff hc ha]
  constructor
  · rintro ⟨ins', d', st'', hread', hexec', hgo, hrun⟩
    rw [hread] at hread'
    cases hread'
    rw [hexec] at hexec'
    cases hexec'
    exact ⟨hgo, hrun⟩
  · intro h
    exact ⟨ins, d, st', hread, hexec, h⟩

lemma Round.progress {p q : State × Cursor} (h : Round r cie go p q) :
    (p.2.available ≠ 0 ∧ p.2.Before q.2 ∧ q.2.remaining < p.2.remaining) ∨
      (p.2.available = 0 ∧ q.2 = p.2) := by
  obtain ⟨hc, ins, hread, -⟩ := h
  rcases readInstruction_progress hread with ⟨hpos, hbefore, hlt⟩ | ⟨hzero, heq⟩
  · exact .inl ⟨by omega, hbefore, hbefore.remaining_add hc hlt⟩
  · exact .inr ⟨hzero, heq⟩

/-! The first round of the loop of `step`, by how it ends. -/

variable {ins : CfaInstruction} {d : Cursor} {st' : State}

lemma exec_stepLoop_end (fuel : ℕ) (hc : c.remaining = 0) :
    (stepLoop r cie (fuel + 1) st).exec c = (.ok st, c) := by
  show (if c.remaining = 0 then pure st else _ : Comp Cursor State).exec c = _
  rw [if_pos hc]
  rfl

lemma exec_stepLoop_fault (fuel : ℕ) (hc : c.remaining ≠ 0) {f : Fault}
    (hread : (readInstruction r cie.enc).exec c = (.error f, d)) :
    (stepLoop r cie (fuel + 1) st).exec c = (.error f, d) := by
  show (if c.remaining = 0 then pure st else _ : Comp Cursor State).exec c = _
  rw [if_neg hc, exec_bind_of_error hread]

lemma exec_stepLoop_error (fuel : ℕ) (hc : c.remaining ≠ 0) {err : String}
    (hread : (readInstruction r cie.enc).exec c = (.ok ins, d))
    (hexec : st.execute cie ins = .error err) :
    (stepLoop r cie (fuel + 1) st).exec c = (.error (.error err), d) := by
  show (if c.remaining = 0 then pure st else _ : Comp Cursor State).exec c = _
  rw [if_neg hc, exec_bind_of_ok hread, hexec]
  rfl

section
variable (fuel : ℕ) (hc : c.remaining ≠ 0)
  (hread : (readInstruction r cie.enc).exec c = (.ok ins, d))
  (hexec : st.execute cie ins = .ok st')
include hc hread hexec

lemma exec_stepLoop_ok : (stepLoop r cie (fuel + 1) st).exec c =
    if ins.isMove then (.ok st', d) else (stepLoop r cie fuel st').exec d := by
  show (if c.remaining = 0 then pure st else _ : Comp Cursor State).exec c = _
  rw [if_neg hc, exec_bind_of_ok hread, hexec]
  exact apply_ite (exec · d) _ _ _

lemma exec_stepLoop_move (hmove : ins.isMove = true) :
    (stepLoop r cie (fuel + 1) st).exec c = (.ok st', d) := by
  rw [exec_stepLoop_ok fuel hc hread hexec, if_pos hmove]

lemma exec_stepLoop_next (hmove : ins.isMove = false) :
    (stepLoop r cie (fuel + 1) st).exec c = (stepLoop r cie fuel st').exec d := by
  rw [exec_stepLoop_ok fuel hc hread hexec, hmove]
  rfl

end

lemma exec_stepLoop_stuck (fuel : ℕ) (hc : c.remaining ≠ 0) (ha : c.available = 0) :
    (stepLoop r cie fuel st).exec c = (.error .hang, c) := by
  induction fuel with
  | zero => rfl
  | succ fuel ih =>
    rw [exec_stepLoop_next fuel hc (exec_readInstruction_stuck ha) rfl rfl]
    exact ih

/-- The first round ends the loop for every number of rounds, or it has taken a byte. -/
lemma stepLoop_round (hc : c.remaining ≠ 0) (ha : c.available ≠ 0) :
    (∃ v d, (∀ fuel, (stepLoop r cie (fuel + 1) st).exec c = (v, d)) ∧ v ≠ .error .hang ∧
      ¬RunsOut r cie withinRow st c ∧ ∀ st', v = .ok st' → c.Before d ∧ d.remaining < c.remaining) ∨
    ∃ st' d, (∀ fuel, (stepLoop r cie (fuel + 1) st).exec c = (stepLoop r cie fuel st').exec d) ∧
      c.Before d ∧ d.remaining < c.remaining ∧
      (RunsOut r cie withinRow st c ↔ RunsOut r cie withinRow st' d) := by
  rcases hread : (readInstruction r cie.enc).exec c with ⟨v, d⟩
  cases v with
  | error f =>
    refine .inl ⟨_, d, fun fuel => exec_stepLoop_fault fuel hc hread, ?_, ?_, nofun⟩
    · rintro ⟨⟩
      exact (reads_readInstruction r cie.enc).halts c ⟨d, hread⟩
    · rw [runsOut_iff hc ha]
      simp [hread]
  | ok ins =>
    obtain ⟨hbefore, hrem⟩ := readInstruction_remaining hc ha hread
    cases hexec : st.execute cie ins with
    | error err =>
      refine .inl ⟨_, d, fun fuel => exec_stepLoop_error fuel hc hread hexec, by simp, ?_, nofun⟩
      rw [runsOut_iff hc ha]
      simp [hread, hexec]
    | ok st' =>
      cases hmove : ins.isMove with
      | true =>
        refine .inl ⟨_, d, fun fuel => exec_stepLoop_move fuel hc hread hexec hmove, by simp, ?_,
          fun _ _ => ⟨hbefore, hrem⟩⟩
        rw [runsOut_iff_of_read hc ha hread hexec, withinRow, hmove]
        simp
      | false =>
        refine .inr ⟨st', d, fun fuel => exec_stepLoop_next fuel hc hread hexec hmove,
          hbefore, hrem, ?_⟩
        rw [runsOut_iff_of_read hc ha hread hexec, withinRow, hmove]
        simp

/-- **Run lemma.** More rounds than the loop may take make no difference. -/
lemma stepLoop_fuel {m n : ℕ} (hm : c.remaining < m) (hn : c.remaining < n) :
    (stepLoop r cie m st).exec c = (stepLoop r cie n st).exec c := by
  induction m generalizing n st c with
  | zero => omega
  | succ m ih =>
    cases n with
    | zero => omega
    | succ n =>
      by_cases hc : c.remaining = 0
      · rw [exec_stepLoop_end m hc, exec_stepLoop_end n hc]
      by_cases ha : c.available = 0
      · rw [exec_stepLoop_stuck _ hc ha, exec_stepLoop_stuck _ hc ha]
      rcases stepLoop_round hc ha with ⟨v, d, hend, -⟩ | ⟨st', d, hnext, -, hrem, -⟩
      · rw [hend, hend]
      · rw [hnext, hnext]
        exact ih (by omega) (by omega)

/-- **Run lemma.** `step` does not end exactly if the instructions of the row run out. -/
lemma stepLoop_hangs_iff (hfuel : c.remaining < fuel) :
    (stepLoop r cie fuel st).Hangs c ↔ RunsOut r cie withinRow st c := by
  induction fuel generalizing st c with
  | zero => omega
  | succ fuel ih =>
    by_cases hc : c.remaining = 0
    · apply iff_of_false _ (not_runsOut_of_end hc)
      rintro ⟨t, h⟩
      rw [exec_stepLoop_end fuel hc] at h
      cases h
    by_cases ha : c.available = 0
    · exact iff_of_true ⟨c, exec_stepLoop_stuck _ hc ha⟩ (runsOut_of_stuck hc ha)
    rcases stepLoop_round hc ha with ⟨v, d, hend, hv, hout, -⟩ | ⟨st', d, hnext, -, hrem, hout⟩
    · refine iff_of_false ?_ hout
      rintro ⟨t, h⟩
      rw [hend] at h
      cases h
      exact hv rfl
    · rw [hout, ← ih (by omega), Comp.Hangs, hnext, Comp.Hangs]

lemma stepLoop_forward (h : (stepLoop r cie fuel st).exec c = (.ok st', d)) :
    c.Before d ∧ (c.remaining ≠ 0 → d.remaining < c.remaining) := by
  induction fuel generalizing st c with
  | zero => cases h
  | succ fuel ih =>
    by_cases hc : c.remaining = 0
    · rw [exec_stepLoop_end fuel hc] at h
      cases h
      exact ⟨.refl _, fun hne => absurd hc hne⟩
    by_cases ha : c.available = 0
    · rw [exec_stepLoop_stuck _ hc ha] at h
      cases h
    rcases stepLoop_round hc ha with ⟨v, e, hend, -, -, hfwd⟩ | ⟨st₁, e, hnext, hbefore, hrem, -⟩
    · rw [hend] at h
      cases h
      obtain ⟨hbefore, hrem⟩ := hfwd st' rfl
      exact ⟨hbefore, fun _ => hrem⟩
    · rw [hnext] at h
      obtain ⟨hrest, -⟩ := ih h
      have hle := hrest.remaining_le
      exact ⟨hbefore.trans hrest, fun _ => by omega⟩

lemma exec_step (r : Reader) (cie : CieInfo) (st : State) (c : Cursor) :
    (st.step r cie).exec c = (stepLoop r cie (c.remaining + 1) st).exec c := rfl

lemma step_hangs_iff : (st.step r cie).Hangs c ↔ RunsOut r cie withinRow st c := by
  exact stepLoop_hangs_iff (Nat.lt_succ_self _)

lemma exec_step_next (hc : c.remaining ≠ 0) (ha : c.available ≠ 0)
    (hread : (readInstruction r cie.enc).exec c = (.ok ins, d))
    (hexec : st.execute cie ins = .ok st')
    (hmove : ins.isMove = false) : (st.step r cie).exec c = (st'.step r cie).exec d := by
  have hrem := (readInstruction_remaining hc ha hread).2
  rw [exec_step, exec_stepLoop_next _ hc hread hexec hmove]
  exact stepLoop_fuel hrem (Nat.lt_succ_self _)

/-! ## The rows of an FDE -/

/-- The instructions of an FDE run out in the first row, or in the rows behind it. -/
lemma runsOut_withinFde_iff {allow : Bool} (hc : c.remaining ≠ 0) :
    RunsOut r cie (withinFde allow) st c ↔ RunsOut r cie withinRow st c ∨
      ∃ next d, (st.step r cie).exec c = (.ok next, d) ∧
        (next.cur.getUnwindInfo allow).isSome = true ∧
        RunsOut r cie (withinFde allow) next d := by
  induction hn : c.remaining using Nat.strong_induction_on generalizing st c with
  | h n ih =>
    by_cases ha : c.available = 0
    · exact iff_of_true (runsOut_of_stuck hc ha) (.inl (runsOut_of_stuck hc ha))
    rcases hread : (readInstruction r cie.enc).exec c with ⟨v, d⟩
    cases v with
    | error f =>
      rw [runsOut_iff hc ha, runsOut_iff hc ha, exec_step, exec_stepLoop_fault _ hc hread]
      simp [hread]
    | ok ins =>
      cases hexec : st.execute cie ins with
      | error err =>
        rw [runsOut_iff hc ha, runsOut_iff hc ha, exec_step, exec_stepLoop_error _ hc hread hexec]
        simp [hread, hexec]
      | ok st' =>
        cases hmove : ins.isMove with
        | true =>
          rw [runsOut_iff_of_read hc ha hread hexec, runsOut_iff_of_read hc ha hread hexec,
            exec_step, exec_stepLoop_move _ hc hread hexec hmove]
          simp [withinRow, withinFde, hmove]
        | false =>
          have hrem := (readInstruction_remaining hc ha hread).2
          have hfde : withinFde allow st' ins = true := by rw [withinFde, hmove]; rfl
          have hrow : withinRow st' ins = true := by rw [withinRow, hmove]; rfl
          rw [exec_step_next hc ha hread hexec hmove, runsOut_iff_of_read hc ha hread hexec,
            runsOut_iff_of_read hc ha hread hexec, and_iff_right hfde, and_iff_right hrow]
          by_cases hd : d.remaining = 0
          · -- nothing is left for another row
            have hend : (st'.step r cie).exec d = (.ok st', d) := by
              rw [exec_step, exec_stepLoop_end _ hd]
            rw [hend]
            refine iff_of_false (not_runsOut_of_end hd) ?_
            rintro (hout | ⟨next, e, heq, -, hout⟩)
            · exact not_runsOut_of_end hd hout
            · cases heq
              exact not_runsOut_of_end hd hout
          · exact ih d.remaining (by omega) hd rfl

/-- **Run lemma.** The loop of `parseFDE` does not end exactly if the instructions run out. -/
lemma fdeRows_hangs_iff {allow : Bool} (hfuel : c.remaining ≤ fuel) (deltas : List StackDelta) :
    (fdeRows r cie allow fuel st deltas).Hangs c ↔ RunsOut r cie (withinFde allow) st c := by
  induction fuel generalizing st c deltas with
  | zero =>
    apply iff_of_false _ (not_runsOut_of_end (by omega))
    exact halts_pure deltas c
  | succ fuel ih =>
    by_cases hc : c.remaining = 0
    · apply iff_of_false _ (not_runsOut_of_end hc)
      rintro ⟨t, h⟩
      rw [fdeRows, exec_get_bind, if_pos hc] at h
      cases h
    rw [Comp.Hangs, fdeRows, exec_get_bind, if_neg hc, ← Comp.Hangs, hangs_bind, step_hangs_iff,
      runsOut_withinFde_iff hc]
    apply or_congr_right
    constructor
    · rintro ⟨next, d, hstep, h⟩
      have hrem := (stepLoop_forward hstep).2 hc
      cases hinfo : next.cur.getUnwindInfo allow with
      | none =>
        rw [hinfo] at h
        exact absurd h (halts_panic _ d)
      | some info =>
        rw [hinfo] at h
        exact ⟨next, d, hstep, by rw [hinfo]; rfl, (ih (by omega) _).mp h⟩
    · rintro ⟨next, d, hstep, hsome, hout⟩
      have hrem := (stepLoop_forward hstep).2 hc
      obtain ⟨info, hinfo⟩ := Option.isSome_iff_exists.mp hsome
      refine ⟨next, d, hstep, ?_⟩
      rw [hinfo]
      exact (ih (by omega) _).mpr hout

end Step

end EbpfProfiler.ElfUnwind
