import Mathlib.Algebra.BigOperators.Ring.List
import Mathlib.Algebra.Order.BigOperators.Group.List
import Mathlib.Data.BitVec
import Mathlib.Tactic.Ring

/-!
# Expressions of the abstract interpreter

What registers hold while code is followed (`asm/expression`). The constructors keep `eval`.
-/

namespace EbpfProfiler.Asm

open List

abbrev Word := BitVec 64

/-- Binary operations. -/
inductive OpType
  | add
  | mul
  deriving DecidableEq

/-- `Expression`. A capture is known by its instance. Widths are not negative. -/
inductive Expression
  | imm (value : Word)
  | named (name : String)
  | capture (id : ℕ)
  | mem (segment : BitVec 8) (address : Expression) (sizeBytes : ℕ)
  | extend (v : Expression) (bits : ℕ) (sign : Bool)
  | clear (v : Expression) (bits : ℕ)
  | op (typ : OpType) (operands : List Expression)

/-- Values for the registers, the memory and the captures. -/
structure Env where
  reg : String → Word
  mem : BitVec 8 → Word → ℕ → Word
  capture : ℕ → Word

def mask (bits : ℕ) : Word := ((1 : Word) <<< bits) - 1

def OpType.apply : OpType → List Word → Word
  | add, vs => vs.sum
  | mul, vs => vs.prod

def OpType.unit : OpType → Word
  | add => 0
  | mul => 1

mutual

/-- The number that an expression stands for. -/
def Expression.eval (env : Env) : Expression → Word
  | .imm value => value
  | .named name => env.reg name
  | .capture id => env.capture id
  | .mem segment address sizeBytes => env.mem segment (address.eval env) sizeBytes
  | .extend v bits sign =>
    if sign then ((v.eval env).setWidth bits).signExtend 64
      else ((v.eval env).setWidth bits).setWidth 64
  | .clear v bits => v.eval env &&& ~~~mask bits
  | .op typ operands => typ.apply (evalAll env operands)

def evalAll (env : Env) : List Expression → List Word
  | [] => []
  | e :: es => e.eval env :: evalAll env es

end

variable (env : Env) {oss oss' es : List Expression} {v v' : Word}

@[simp] lemma evalAll_eq : evalAll env es = es.map (·.eval env) := by
  induction es with
  | nil => rfl
  | cons e es ih => rw [evalAll, ih, map_cons]

/-- The operands with what was folded, unless this is the unit. -/
def withImm (typ : OpType) (v : Word) (oss : List Expression) : List Expression :=
  if v ≠ typ.unit then oss ++ [.imm v] else oss

lemma apply_withImm (typ : OpType) (v : Word) (oss : List Expression) :
    typ.apply ((withImm typ v oss).map (·.eval env)) = typ.apply (v :: oss.map (·.eval env)) := by
  unfold withImm
  split
  · cases typ <;> simp [OpType.apply, Expression.eval, add_comm, mul_comm]
  · rename_i hv
    rw [not_not.mp hv]
    cases typ <;> simp [OpType.apply, OpType.unit]

/-- Where one operand is left, it stands for the whole. -/
lemma eval_of_withImm {typ : OpType} {e : Expression} (h : withImm typ v oss = [e]) :
    e.eval env = typ.apply (v :: oss.map (·.eval env)) := by
  rw [← apply_withImm, h]
  cases typ <;> simp [OpType.apply]

/-! ## Sums -/

/-- The operands that `Add` takes from an argument. -/
def summands : Expression → List Expression
  | .op .add operands => operands
  | e => [e]

/-- The loops of `Add`. -/
def addLoop : List Expression → Word → List Expression → List Expression × Word
  | oss, v, [] => (oss, v)
  | oss, v, .imm w :: es => addLoop oss (v + w) es
  | oss, v, e :: es => addLoop (oss ++ [e]) v es

def add (vs : List Expression) : Expression :=
  let (oss, v) := addLoop [] 0 (vs.flatMap summands)
  if oss = [] then .imm v
  else match withImm .add v oss with
    | [e] => e
    | oss => .op .add oss

lemma addLoop_sum (h : addLoop oss v es = (oss', v')) : v' + (oss'.map (·.eval env)).sum =
      v + (oss.map (·.eval env)).sum + (es.map (·.eval env)).sum := by
  fun_induction addLoop oss v es with
  | case1 oss v =>
    cases h
    simp
  | case2 oss v w es ih =>
    rw [ih h, map_cons, sum_cons, Expression.eval]
    ring
  | case3 oss v e es hne ih =>
    simp only [ih h, map_append, sum_append, map_cons, map_nil, sum_cons, sum_nil]
    ring

lemma sum_summands (vs : List Expression) :
    ((vs.flatMap summands).map (·.eval env)).sum = (vs.map (·.eval env)).sum := by
  induction vs with
  | nil => rfl
  | cons e vs ih =>
    have hopened : ((summands e).map (·.eval env)).sum = e.eval env := by
      unfold summands
      split <;> simp [Expression.eval, OpType.apply]
    rw [flatMap_cons, map_append, sum_append, hopened, ih, map_cons, sum_cons]

lemma eval_add (vs : List Expression) : (add vs).eval env = (vs.map (·.eval env)).sum := by
  obtain ⟨⟨oss, v⟩, hloop⟩ : ∃ r, addLoop [] 0 (vs.flatMap summands) = r := ⟨_, rfl⟩
  have hsum := addLoop_sum env hloop
  rw [map_nil, sum_nil, add_zero, zero_add, sum_summands] at hsum
  rw [add, hloop, ← hsum]
  dsimp only
  split
  · rename_i hempty
    simp [hempty, Expression.eval]
  · split
    · rename_i e he
      exact eval_of_withImm env he
    · rw [Expression.eval, evalAll_eq]
      exact apply_withImm env .add v oss

/-! ## Products -/

/-- The loop of `Multiply`; `none` is the return at a zero. -/
def mulLoop : List Expression → Word → List Expression → Option (List Expression × Word)
  | oss, v, [] => some (oss, v)
  | oss, v, .imm w :: es => if w = 0 then none else mulLoop oss (v * w) es
  | oss, v, e :: es => mulLoop (oss ++ [e]) v es

mutual

/-- The operations in an expression that a product may open. -/
def Expression.size : Expression → ℕ
  | .op _ operands => 1 + sizeAll operands
  | _ => 0

def sizeAll : List Expression → ℕ
  | [] => 0
  | e :: es => e.size + sizeAll es

end

lemma sizeAll_eq : sizeAll es = (es.map (·.size)).sum := by
  induction es with
  | nil => rfl
  | cons e es ih => rw [sizeAll, ih, map_cons, sum_cons]

lemma mulLoop_size (h : mulLoop oss v es = some (oss', v')) :
    sizeAll (withImm .mul v' oss') = sizeAll oss + sizeAll es := by
  fun_induction mulLoop oss v es with
  | case1 oss v =>
    cases h
    unfold withImm
    split <;> simp [sizeAll_eq, Expression.size]
  | case2 => cases h
  | case3 oss v w es hw ih => simp [ih h, sizeAll, Expression.size]
  | case4 oss v e es hne ih => simp [ih h, sizeAll_eq, add_assoc]

def multiply (vs : List Expression) : Expression :=
  match _ : mulLoop [] 1 vs with
  | none => .imm 0
  | some (oss, v) =>
    if oss = [] then .imm v
    else match _ : withImm .mul v oss with
      | [e] => e
      | [.op .add operands, e] => add (operands.attach.map fun ⟨a, _⟩ => multiply [a, e])
      | oss => .op .mul oss
termination_by sizeAll vs
decreasing_by
  have hsize := mulLoop_size ‹mulLoop [] 1 vs = _›
  have hopened := le_sum_of_mem (mem_map_of_mem (f := (·.size)) ‹a ∈ operands›)
  rw [‹withImm _ _ _ = _›] at hsize
  simp only [sizeAll, Expression.size, sizeAll_eq] at hsize ⊢
  omega

lemma mulLoop_prod (oss es : List Expression) (v : Word) :
    (mulLoop oss v es).elim 0 (fun r => r.2 * (r.1.map (·.eval env)).prod) =
      v * (oss.map (·.eval env)).prod * (es.map (·.eval env)).prod := by
  fun_induction mulLoop oss v es with
  | case1 oss v => simp
  | case2 oss v es => simp [Expression.eval]
  | case3 oss v w es hw ih =>
    rw [ih, map_cons, prod_cons, Expression.eval]
    ring
  | case4 oss v e es hne ih =>
    simp only [ih, map_append, prod_append, map_cons, map_nil, prod_cons, prod_nil]
    ring

lemma eval_multiply (vs : List Expression) :
    (multiply vs).eval env = (vs.map (·.eval env)).prod := by
  have hprod := mulLoop_prod env [] vs 1
  fun_induction multiply vs with
  | case1 vs h | case2 vs v h =>
    rw [h] at hprod
    simpa [Expression.eval] using hprod
  | case3 vs oss v h hne e he =>
    rw [h] at hprod
    rw [eval_of_withImm env he]
    simpa [OpType.apply] using hprod
  | case4 vs oss v h hne operands e he ih =>
    rw [h] at hprod
    have hleft := apply_withImm env .mul v oss
    simp only [he, OpType.apply, map_cons, map_nil, prod_cons, prod_nil, Expression.eval,
      evalAll_eq, mul_one] at hleft
    have heach : ∀ a ∈ operands, (multiply [a, e]).eval env = a.eval env * e.eval env := by
      intro a ha
      rw [ih a ha (mulLoop_prod env [] [a, e] 1)]
      simp
    rw [eval_add, map_map]
    -- the product of the sum is the sum of the products
    calc (operands.attach.map fun a => (multiply [a.1, e]).eval env).sum
        = (operands.map fun a => a.eval env * e.eval env).sum := by
          rw [attach_map_val (f := fun a => (multiply [a, e]).eval env), map_congr_left heach]
      _ = (operands.map (·.eval env)).sum * e.eval env := sum_map_mul_right ..
      _ = (vs.map (·.eval env)).prod := by
          rw [hleft]
          simpa using hprod
  | case5 vs oss v h hne he hdist =>
    rw [h] at hprod
    rw [Expression.eval, evalAll_eq, apply_withImm]
    simpa [OpType.apply] using hprod

/-! ## Widths -/

lemma toNat_mask (bits : ℕ) : (mask bits).toNat = 2 ^ min bits 64 - 1 := by
  rw [mask, BitVec.toNat_sub, BitVec.toNat_shiftLeft, show (1 : Word).toNat = 1 from rfl,
    Nat.shiftLeft_eq, one_mul]
  by_cases h : bits < 64
  · have hlt : 2 ^ bits < 2 ^ 64 := Nat.pow_lt_pow_right (by decide) h
    have hpos := Nat.two_pow_pos bits
    rw [min_eq_left h.le]
    omega
  · have hzero : 2 ^ bits % 2 ^ 64 = 0 := Nat.mod_eq_zero_of_dvd (Nat.pow_dvd_pow 2 (by omega))
    rw [min_eq_right (by omega), hzero]
    rfl

/-- What is left of a word when its low bits are cleared. -/
lemma getLsbD_and_not_mask (x : Word) (bits i : ℕ) :
    (x &&& ~~~mask bits).getLsbD i = (decide (bits ≤ i) && x.getLsbD i) := by
  have hmask : (mask bits).getLsbD i = decide (i < min bits 64) := by
    rw [BitVec.getLsbD, toNat_mask, Nat.testBit_two_pow_sub_one]
  by_cases hi : i < 64
  · rw [BitVec.getLsbD_and, BitVec.getLsbD_not, hmask]
    by_cases hbits : bits ≤ i
    · simp [hi, hbits]
    · simp [hi, hbits, Nat.lt_of_not_le hbits]
  · simp [BitVec.getLsbD_of_ge x i (by omega)]

/-- `ZeroExtend`, where `mask` is `MaxValue`. -/
def zeroExtend (v : Expression) (bits : ℕ) : Expression :=
  if bits = 0 then .imm 0
  else if 64 ≤ bits then v
  else match v with
    | .imm value => .imm (value &&& mask bits)
    | .extend w wbits false => if wbits ≤ bits then .extend w wbits false else .extend w bits false
    | v => .extend v bits false

def clear (v : Expression) (bits : ℕ) : Expression :=
  if bits = 0 then v
  else match v with
    | .imm value => .imm (value &&& ~~~mask (min bits 64))
    | .clear w wbits => clear w (max wbits (min bits 64))
    | v => .clear v (min bits 64)

lemma toNat_eval_extend (v : Expression) (bits : ℕ) :
    ((Expression.extend v bits false).eval env).toNat = (v.eval env).toNat % 2 ^ bits := by
  have hlt := Nat.mod_le (v.eval env).toNat (2 ^ bits)
  simp only [Expression.eval, Bool.false_eq_true, if_false, BitVec.toNat_setWidth]
  exact Nat.mod_eq_of_lt (by omega)

lemma toNat_eval_zeroExtend (v : Expression) (bits : ℕ) :
    ((zeroExtend v bits).eval env).toNat = (v.eval env).toNat % 2 ^ bits := by
  fun_cases zeroExtend v bits with
  | case1 _ hzero => simp [Expression.eval, hzero, Nat.mod_one]
  | case2 _ hpos hbits =>
    have hle : 2 ^ 64 ≤ 2 ^ bits := Nat.pow_le_pow_right (by decide) hbits
    rw [Nat.mod_eq_of_lt (by omega)]
  | case3 hpos hbits value =>
    rw [Expression.eval, BitVec.toNat_and, toNat_mask, min_eq_left (by omega),
      Nat.and_two_pow_sub_one_eq_mod, Expression.eval]
  | case4 hpos hbits w wbits hle =>
    have hlt : (w.eval env).toNat % 2 ^ wbits < 2 ^ bits :=
      (Nat.mod_lt _ (Nat.two_pow_pos _)).trans_le (Nat.pow_le_pow_right (by decide) hle)
    rw [toNat_eval_extend, Nat.mod_eq_of_lt hlt]
  | case5 hpos hbits w wbits hle =>
    rw [toNat_eval_extend, toNat_eval_extend, Nat.mod_mod_of_dvd _ (Nat.pow_dvd_pow 2 (by omega))]
  | case6 hpos hbits => exact toNat_eval_extend env v bits

lemma getLsbD_eval_clear (v : Expression) (bits i : ℕ) :
    ((clear v bits).eval env).getLsbD i = (decide (bits ≤ i) && (v.eval env).getLsbD i) := by
  -- no bit of a word is behind the 64th
  have beyond : ∀ (bits : ℕ) (x : Word), (decide (min bits 64 ≤ i) && x.getLsbD i) =
      (decide (bits ≤ i) && x.getLsbD i) := by
    intro bits x
    by_cases hi : i < 64
    · simp [show min bits 64 ≤ i ↔ bits ≤ i by omega]
    · simp [BitVec.getLsbD_of_ge x i (by omega)]
  fun_induction clear v bits with
  | case1 => simp
  | case2 bits hpos value =>
    rw [Expression.eval, getLsbD_and_not_mask, beyond, Expression.eval]
  | case3 bits hpos w wbits ih =>
    rw [ih, Expression.eval, getLsbD_and_not_mask, Bool.and_left_comm, ← beyond bits]
    by_cases h : wbits ≤ i <;> simp [h]
  | case4 bits hpos => rw [Expression.eval, getLsbD_and_not_mask, beyond]

/-- The constructors keep what their arguments stand for, whatever they simplify. -/
theorem constructors_eval :
    (∀ vs, (add vs).eval env = (vs.map (·.eval env)).sum) ∧
    (∀ vs, (multiply vs).eval env = (vs.map (·.eval env)).prod) ∧
    (∀ v bits, ((zeroExtend v bits).eval env).toNat = (v.eval env).toNat % 2 ^ bits) ∧
    ∀ v bits i, ((clear v bits).eval env).getLsbD i =
      (decide (bits ≤ i) && (v.eval env).getLsbD i) :=
  ⟨eval_add env, eval_multiply env, toNat_eval_zeroExtend env, getLsbD_eval_clear env⟩

end EbpfProfiler.Asm
