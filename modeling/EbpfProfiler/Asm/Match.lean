import EbpfProfiler.Asm.Expression
import EbpfProfiler.Lib.Lists

/-!
# Patterns over expressions

`Match` writes immediates into captures; a later write replaces an earlier one.
-/

namespace EbpfProfiler.Asm

open List

/-- `cmpOrder`. -/
def Expression.cmpOrder : Expression → ℕ
  | .mem .. => 1
  | .op .. => 2
  | .named _ => 3
  | .capture _ => 4
  | .imm _ => 5
  | .clear .. => 6
  | .extend .. => 0

/-- `sort.Sort` on operands, which is not stable. -/
abbrev OperandSort := Lib.Sorter fun a b : Expression => a.cmpOrder ≤ b.cmpOrder

/-- What each capture holds. -/
abbrev Captures := ℕ → Word

/-- `e.Match(pattern)`, with `none` for false. -/
def Expression.match (sorter : OperandSort) (e pattern : Expression) (σ : Captures) :
    Option Captures :=
  match e, pattern with
  | .imm v, .imm w => if v = w then some σ else none
  | .imm v, .capture id => some (Function.update σ id v)
  | .named name, .named pname => if pname = name then some σ else none
  | .mem segment address _, .mem psegment paddress _ =>
    if segment ≠ psegment then none else address.match sorter paddress σ
  | .extend v bits sign, .extend pv pbits psign =>
    if pbits = bits ∧ psign = sign then v.match sorter pv σ else none
  | .clear v bits, .clear pv pbits => if pbits = bits then v.match sorter pv σ else none
  | .op typ operands, .op ptyp poperands =>
    if typ ≠ ptyp ∨ operands.length ≠ poperands.length then none
    else ((sorter.sort operands).attach.zip (sorter.sort poperands)).foldlM
      (fun σ x => x.1.1.match sorter x.2 σ) σ
  | _, _ => none
termination_by sizeOf e
decreasing_by
  all_goals simp_wf
  all_goals try omega
  have hmem := sizeOf_lt_of_mem ((sorter.perm _).mem_iff.mp x.1.2)
  omega

/-- The parts that `Match` compares with each other. -/
def Expression.pairs (sorter : OperandSort) (e pattern : Expression) :
    List (Expression × Expression) :=
  (e, pattern) :: match e, pattern with
    | .mem _ address _, .mem _ paddress _ => address.pairs sorter paddress
    | .extend v _ _, .extend pv _ _ => v.pairs sorter pv
    | .clear v _, .clear pv _ => v.pairs sorter pv
    | .op _ operands, .op _ poperands =>
      ((sorter.sort operands).attach.zip (sorter.sort poperands)).flatMap
        fun x => x.1.1.pairs sorter x.2
    | _, _ => []
termination_by sizeOf e
decreasing_by
  all_goals simp_wf
  all_goals try omega
  have hmem := sizeOf_lt_of_mem ((sorter.perm _).mem_iff.mp x.1.2)
  omega

/-- Memory reads that are compared have one width. -/
def SameWidths (pairs : List (Expression × Expression)) : Prop :=
  ∀ segment address m psegment paddress n,
    (.mem segment address m, .mem psegment paddress n) ∈ pairs → m = n

/-- A capture is compared with one number only, wherever it stands. -/
def OneValue (pairs : List (Expression × Expression)) : Prop :=
  ∀ id v w, (.imm v, .capture id) ∈ pairs → (.imm w, .capture id) ∈ pairs → v = w

/-- What a match has written: numbers that the captures were compared with. -/
def Written (pairs : List (Expression × Expression)) (σ σ' : Captures) : Prop :=
  ∀ id, ((∀ v, (.imm v, .capture id) ∉ pairs) ∧ σ' id = σ id) ∨ (.imm (σ' id), .capture id) ∈ pairs

section Sound

variable {env : Env} {sorter : OperandSort} {σ ρ σ' : Captures}
  {ps qs : List (Expression × Expression)}

lemma Written.append (hfirst : Written ps σ ρ) (hlast : Written qs ρ σ') :
    Written (ps ++ qs) σ σ' := by
  intro id
  rcases hlast id with ⟨hnone, hsame⟩ | hmem
  · rw [hsame]
    rcases hfirst id with ⟨hnone', hsame'⟩ | hmem
    · refine .inl ⟨fun v hv => ?_, hsame'⟩
      exact (mem_append.mp hv).elim (hnone' v) (hnone v)
    · exact .inr (mem_append_left qs hmem)
  · exact .inr (mem_append_right ps hmem)

lemma Written.cons {x : Expression × Expression} (h : Written ps σ σ')
    (hx : ∀ id v, (Expression.imm v, Expression.capture id) ≠ x) : Written (x :: ps) σ σ' := by
  intro id
  refine (h id).imp (fun hsame => ⟨fun v hv => ?_, hsame.2⟩) (mem_cons_of_mem x)
  exact (mem_cons.mp hv).elim (hx id v) (hsame.1 v)

lemma Written.nil (σ : Captures) : Written [] σ σ := fun _ => .inl ⟨fun _ => not_mem_nil, rfl⟩

lemma written_foldlM {α : Type} {f : Captures → α → Option Captures} {l : List α}
    {pairs : α → List (Expression × Expression)}
    (hf : ∀ x σ σ', f σ x = some σ' → Written (pairs x) σ σ') (h : l.foldlM f σ = some σ') :
    Written (l.flatMap pairs) σ σ' := by
  induction l generalizing σ with
  | nil =>
    cases h
    exact .nil _
  | cons x l ih =>
    rw [foldlM_cons] at h
    obtain ⟨ρ, hhead, htail⟩ := Option.bind_eq_some_iff.mp h
    rw [flatMap_cons]
    exact (hf x σ ρ hhead).append (ih htail)

/-- The captures hold numbers that they were compared with. -/
lemma written_match (e p : Expression) (h : e.match sorter p σ = some σ') :
    Written (e.pairs sorter p) σ σ' := by
  fun_induction Expression.match sorter e p σ generalizing σ' with
  | case1 | case4 =>
    cases h
    simp only [Expression.pairs]
    exact (Written.nil _).cons (by simp)
  | case2 | case5 | case6 | case9 | case11 | case12 | case14 => cases h
  | case3 σ v id =>
    cases h
    simp only [Expression.pairs]
    intro i
    by_cases hi : i = id
    · rw [hi, Function.update_self]
      exact .inr mem_cons_self
    · exact .inl ⟨by simp [hi], Function.update_of_ne hi v σ⟩
  | case7 σ segment address m psegment paddress n hsegment ih =>
    rw [Expression.pairs]
    exact (ih h).cons (by simp)
  | case8 σ v bits sign pv pbits psign hsame ih =>
    rw [Expression.pairs]
    exact (ih h).cons (by simp)
  | case10 σ v pv bits ih =>
    rw [Expression.pairs]
    exact (ih h).cons (by simp)
  | case13 σ typ os ptyp ps hsame ih =>
    rw [Expression.pairs]
    exact (written_foldlM (fun x σ σ' => ih σ x) h).cons (by simp)

lemma OpType.apply_perm (typ : OpType) {vs ws : List Word} (h : vs.Perm ws) :
    typ.apply vs = typ.apply ws := by
  cases typ
  · exact h.sum_eq
  · exact h.prod_eq

lemma exists_of_foldlM {α : Type} {f : Captures → α → Option Captures} {l : List α} {x : α}
    (h : l.foldlM f σ = some σ') (hx : x ∈ l) : ∃ ρ ρ', f ρ x = some ρ' := by
  induction l generalizing σ with
  | nil => cases hx
  | cons y l ih =>
    rw [foldlM_cons] at h
    obtain ⟨ρ, hhead, htail⟩ := Option.bind_eq_some_iff.mp h
    rcases mem_cons.mp hx with rfl | hx
    · exact ⟨σ, ρ, hhead⟩
    · exact ih htail hx

/-- The widths agree, and the captures hold the numbers that they are compared with. -/
structure Agrees (pairs : List (Expression × Expression)) (τ : Captures) : Prop where
  widths : SameWidths pairs
  captures : ∀ id v, (.imm v, .capture id) ∈ pairs → τ id = v

lemma Agrees.mono {τ : Captures} (h : Agrees qs τ) (hsub : ps ⊆ qs) : Agrees ps τ :=
  ⟨fun _ _ _ _ _ _ hx => h.widths _ _ _ _ _ _ (hsub hx), fun id v hx => h.captures id v (hsub hx)⟩

lemma eval_eq_of_match {τ : Captures} (e p : Expression) (h : e.match sorter p σ = some σ')
    (hτ : Agrees (e.pairs sorter p) τ) : e.eval env = p.eval { env with capture := τ } := by
  fun_induction Expression.match sorter e p σ generalizing σ' with
  | case1 | case4 => rfl
  | case2 | case5 | case6 | case9 | case11 | case12 | case14 => cases h
  | case3 σ v id =>
    simp only [Expression.pairs] at hτ
    exact (hτ.captures id v mem_cons_self).symm
  | case7 σ segment address m psegment paddress n hsegment ih =>
    rw [Expression.pairs] at hτ
    rw [Expression.eval, Expression.eval, ih h (hτ.mono (subset_cons_self _ _)),
      not_not.mp hsegment, hτ.widths _ _ _ _ _ _ mem_cons_self]
  | case8 σ v bits sign pv pbits psign hsame ih =>
    rw [Expression.pairs] at hτ
    rw [Expression.eval, Expression.eval, ih h (hτ.mono (subset_cons_self _ _)), hsame.1, hsame.2]
  | case10 σ v pv bits ih =>
    rw [Expression.pairs] at hτ
    rw [Expression.eval, Expression.eval, ih h (hτ.mono (subset_cons_self _ _))]
  | case13 σ typ os ptyp ps hsame ih =>
    obtain ⟨rfl, hlen⟩ := by simpa only [not_or, not_not] using hsame
    rw [Expression.pairs] at hτ
    have hos := sorter.perm os
    have hps := sorter.perm ps
    have hlen' : (sorter.sort os).attach.length = (sorter.sort ps).length := by
      rw [length_attach, hos.length_eq, hps.length_eq, hlen]
    have heach : ∀ x ∈ (sorter.sort os).attach.zip (sorter.sort ps),
        x.1.1.eval env = x.2.eval { env with capture := τ } := by
      intro x hx
      obtain ⟨ρ, ρ', hρ⟩ := exists_of_foldlM h hx
      exact ih ρ x hρ (hτ.mono fun y hy => mem_cons_of_mem _ (mem_flatMap.mpr ⟨x, hx, hy⟩))
    have hvals : (sorter.sort os).map (·.eval env) =
        (sorter.sort ps).map (·.eval { env with capture := τ }) := by
      calc (sorter.sort os).map (·.eval env)
          = ((sorter.sort os).attach.zip (sorter.sort ps)).map (·.1.1.eval env) := by
            conv_lhs => rw [← attach_map_subtype_val (sorter.sort os), ← map_fst_zip hlen'.le,
              map_map, map_map]
            rfl
        _ = ((sorter.sort os).attach.zip (sorter.sort ps)).map
              (·.2.eval { env with capture := τ }) := map_congr_left heach
        _ = (sorter.sort ps).map (·.eval { env with capture := τ }) := by
            conv_rhs => rw [← map_snd_zip hlen'.ge, map_map]
            rfl
    -- neither sum nor product depends on the order
    calc typ.apply (evalAll env os) = typ.apply ((sorter.sort os).map (·.eval env)) := by
          rw [evalAll_eq, typ.apply_perm (hos.map _).symm]
      _ = typ.apply (evalAll { env with capture := τ } ps) := by
          rw [hvals, evalAll_eq, typ.apply_perm (hps.map _)]

/-- With reads of one width, and one number for each capture, a match means equal numbers. -/
theorem eval_of_match (sorter : OperandSort) (e p : Expression) (env : Env) (σ σ' : Captures)
    (hwidths : SameWidths (e.pairs sorter p)) (hvalues : OneValue (e.pairs sorter p))
    (h : e.match sorter p σ = some σ') : e.eval env = p.eval { env with capture := σ' } := by
  refine eval_eq_of_match e p h ⟨hwidths, fun id v hv => ?_⟩
  rcases written_match e p h id with ⟨hnone, -⟩ | hmem
  · exact absurd hv (hnone v)
  · exact hvalues id _ _ hmem hv

end Sound

/-- One sort of the operands. -/
def byKind : OperandSort :=
  haveI : Std.Total fun a b : Expression => a.cmpOrder ≤ b.cmpOrder := ⟨fun _ _ => le_total ..⟩
  haveI : IsTrans Expression fun a b => a.cmpOrder ≤ b.cmpOrder := ⟨fun _ _ _ => le_trans⟩
  Lib.Sorter.insertion _

/-- Operations on sorted operands are compared operand by operand. -/
lemma match_op {sorter : OperandSort} {typ : OpType} {os ps : List Expression} {σ : Captures}
    (hos : sorter.sort os = os) (hps : sorter.sort ps = ps) (hlen : os.length = ps.length) :
    (Expression.op typ os).match sorter (.op typ ps) σ =
      (os.zip ps).foldlM (fun σ x => x.1.match sorter x.2 σ) σ := by
  rw [Expression.match, if_neg (by simp [hlen]), hps, hos]
  conv_rhs => rw [← attach_map_subtype_val os, zip_map_left, foldlM_map]
  rfl

/-- The parts of operations on sorted operands are those of their operands. -/
lemma pairs_op {sorter : OperandSort} {typ ptyp : OpType} {os ps : List Expression}
    (hos : sorter.sort os = os) (hps : sorter.sort ps = ps) :
    (Expression.op typ os).pairs sorter (.op ptyp ps) =
      (.op typ os, .op ptyp ps) :: (os.zip ps).flatMap fun x => x.1.pairs sorter x.2 := by
  have hzip : os.zip ps = (os.attach.zip ps).map (Prod.map Subtype.val id) := by
    rw [← zip_map_left, attach_map_subtype_val]
  rw [Expression.pairs, hps, hos, hzip, flatMap_map]
  rfl

/-- The pattern of a number that is added to eight bytes from the memory. -/
theorem eval_of_match_sum :
    (Expression.op .add [.mem 0 (.imm 5) 8, .imm 5]).eval
      ⟨fun _ => 2, fun _ a n => a + n, fun _ => 0⟩ =
      (Expression.op .add [.mem 0 (.capture 0) 8, .capture 0]).eval
        ⟨fun _ => 2, fun _ a n => a + n,
          Function.update (Function.update (fun _ => 0) 0 5) 0 5⟩ := by
  refine eval_of_match byKind _ _ ⟨fun _ => 2, fun _ a n => a + n, fun _ => 0⟩ (fun _ => 0) _ ?_ ?_
    ((match_op (by rfl) (by rfl) (by rfl)).trans (by simp [Expression.match]))
  all_goals
    rw [pairs_op (by rfl) (by rfl)]
    simp +contextual [Expression.pairs, SameWidths, OneValue]

/-- A byte matches eight, and `[@c] + @c` matches `[3] + 5`: the last capture counts. -/
theorem match_unsound :
    (∃ (e p : Expression) (σ σ' : Captures) (env : Env), e.match byKind p σ = some σ' ∧
      OneValue (e.pairs byKind p) ∧ e.eval env ≠ p.eval { env with capture := σ' }) ∧
    ∃ (e p : Expression) (σ σ' : Captures) (env : Env), e.match byKind p σ = some σ' ∧
      SameWidths (e.pairs byKind p) ∧ e.eval env ≠ p.eval { env with capture := σ' } := by
  constructor
  · exact ⟨.mem 0 (.named "rax") 1, .mem 0 (.named "rax") 8, fun _ => 0, fun _ => 0,
      ⟨fun _ => 0, fun _ _ n => n, fun _ => 0⟩, by simp [Expression.match],
      by simp [Expression.pairs, OneValue], by decide⟩
  · refine ⟨.op .add [.mem 0 (.imm 3) 8, .imm 5], .op .add [.mem 0 (.capture 0) 8, .capture 0],
      fun _ => 0, Function.update (Function.update (fun _ => 0) 0 3) 0 5,
      ⟨fun _ => 0, fun _ address _ => address, fun _ => 0⟩, ?_, ?_, by decide⟩
    · exact (match_op (by rfl) (by rfl) (by rfl)).trans (by simp [Expression.match])
    · rw [pairs_op (by rfl) (by rfl)]
      simp +contextual [Expression.pairs, SameWidths]

end EbpfProfiler.Asm
