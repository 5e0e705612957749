import EbpfProfiler.ElfUnwind.Registers
import EbpfProfiler.Lib.Cursor

/-!
# Call frame instructions

The virtual machine of `elfehframe.go`: `readInstruction` and `State.execute` are its switch.
-/

namespace EbpfProfiler.ElfUnwind

open Lib StackDeltas

/-- `reader`, less the position. `start` is the offset of the section in the file. -/
structure Reader where
  machine : Machine
  debugFrame : Bool
  vaddr : Word
  start : ℕ
  bufSize : ℕ
  deriving DecidableEq

/-! ## Numbers and pointers -/

def uint8 : Comp Cursor (BitVec 8) := do return BitVec.ofNat 8 (← Comp.uintLE 1)

/-- The loop of `uleb` and `sleb`: the value, the shift and the last byte. -/
def lebLoop : ℕ → ℕ → Word → Comp Cursor (Word × ℕ × BitVec 8)
  | 0, shift, val => return (val, shift, 0)
  | fuel + 1, shift, val => do
    let b ← uint8
    let val := val ||| (b &&& 0x7f).setWidth 64 <<< shift
    if b &&& 0x80 ≠ 0 then lebLoop fuel (shift + 7) val else return (val, shift + 7, b)

def uleb : Comp Cursor Word := do
  let (val, _, _) ← lebLoop ((← Comp.get).available + 1) 0 0
  return val

def sleb : Comp Cursor Word := do
  let (val, shift, b) ← lebLoop ((← Comp.get).available + 1) 0 0
  return if b &&& 0x40 ≠ 0 then val ||| -1#64 <<< shift else val

/-- `Discard(int(r.uleb()))`: nothing is skipped for a negative number. -/
def discardUleb : Comp Cursor Unit := do
  let n ← uleb
  let c ← Comp.get
  Comp.set (if n.toNat < 2 ^ 63 then c.discard n.toNat else c)

def encOmit : BitVec 8 := 0xff
def encIndirect : BitVec 8 := 0x80
def encFormatMask : BitVec 8 := 0x07
def encSignedMask : BitVec 8 := 0x08
def encAdjustMask : BitVec 8 := 0x70

/-- `%#02x` of a byte. -/
def hexByte (b : BitVec 8) : String := "0x" ++ (if b.toNat < 16 then "0" else "") ++ hex b.toNat

def ptrValue (enc : BitVec 8) : Comp Cursor (Word × Word) :=
  match (enc &&& (encFormatMask ||| encSignedMask)).toNat with
  | 0x02 => do return (BitVec.ofNat 64 (← Comp.uintLE 2), 2)
  | 0x03 => do return (BitVec.ofNat 64 (← Comp.uintLE 4), 4)
  | 0x04 | 0x00 | 0x0c => do return (BitVec.ofNat 64 (← Comp.uintLE 8), 8)
  | 0x0a => do return ((BitVec.ofNat 16 (← Comp.uintLE 2)).signExtend 64, 2)
  | 0x0b => do return ((BitVec.ofNat 32 (← Comp.uintLE 4)).signExtend 64, 4)
  | _ => Comp.error s!"unsupported format encoding {hexByte enc}"

def Reader.ptr (r : Reader) (enc : BitVec 8) : Comp Cursor Word := do
  if enc = encOmit then
    return 0
  else
    let (val, sz) ← ptrValue enc
    let c ← Comp.get
    let val ← match (enc &&& encAdjustMask).toNat with
      | 0x00 => pure val
      | 0x10 => pure (val + (BitVec.ofNat 64 c.pos - sz + r.vaddr))
      | 0x30 => pure (val + r.vaddr)
      | _ => Comp.error s!"unsupported adjust encoding {hexByte enc}"
    if enc &&& encIndirect ≠ 0 then
      Comp.error s!"unsupported indirect encoding {hexByte enc}"
    else
      return val

/-! ## Expressions -/

/-- `dwarfExpression`: an operator and its operands. -/
structure DwarfExpression where
  opcode : BitVec 8
  operand1 : Word := 0
  operand2 : Word := 0
  deriving DecidableEq

def opDeref : BitVec 8 := 0x06
def opConstU : BitVec 8 := 0x10
def opConstS : BitVec 8 := 0x11
def opRot : BitVec 8 := 0x17
def opAnd : BitVec 8 := 0x1a
def opMul : BitVec 8 := 0x1e
def opPlus : BitVec 8 := 0x22
def opPlusUConst : BitVec 8 := 0x23
def opShl : BitVec 8 := 0x24
def opGE : BitVec 8 := 0x2a
def opNE : BitVec 8 := 0x2e
def opLit0 : BitVec 8 := 0x30
def opBReg0 : BitVec 8 := 0x70

/-- One operator of an expression. -/
def readOperator : Comp Cursor DwarfExpression := do
  let op ← uint8
  if opLit0 ≤ op ∧ op ≤ opLit0 + 31 then
    return { opcode := opLit0, operand1 := (op - opLit0).setWidth 64 }
  else if opBReg0 ≤ op ∧ op ≤ opBReg0 + 31 then
    return { opcode := opBReg0, operand1 := (op - opBReg0).setWidth 64, operand2 := ← sleb }
  else if op = opConstU ∨ op = opPlusUConst then
    return { opcode := op, operand1 := ← uleb }
  else if op = opConstS then
    return { opcode := op, operand1 := ← sleb }
  else if op = opDeref ∨ (opRot ≤ op ∧ op ≤ opNE) then
    return { opcode := op }
  else
    Comp.error s!"unsupported expression opcode: {hex op.toNat}"

/-- The loop of `expression`. A missing byte is the opcode zero, which is an error. -/
def operators : ℕ → List DwarfExpression → Comp Cursor (List DwarfExpression)
  | 0, expr => return expr
  | fuel + 1, expr => do
    if (← Comp.get).remaining = 0 then
      return expr
    else
      let op ← readOperator
      operators fuel (expr ++ [op])

def expression : Comp Cursor (List DwarfExpression) := do
  let n ← uleb
  if 2 ^ 63 ≤ n.toNat then
    Comp.error "negative count"
  else
    Comp.withSection n.toNat (do operators (← Comp.get).remaining [])

/-- `vmReg.expression`: the rule of a known expression; `none` is an undefined rule. -/
def matchedRule (expr : List DwarfExpression) : Option VmReg :=
  let ops := expr.map (·.opcode)
  let operand1 (i : ℕ) : BitVec 16 := (expr[i]?.elim 0 (·.operand1)).setWidth 16
  let operand2 (i : ℕ) : BitVec 16 := (expr[i]?.elim 0 (·.operand2)).setWidth 16
  if ops = [opBReg0, opBReg0, opLit0, opAnd, opLit0, opGE, opLit0, opShl, opPlus] then
    some ⟨regExprPLT, 0⟩
  else if ops = [opBReg0] then
    some ⟨regExprReg, makeOff (operand1 0) 0 (operand2 0) 0⟩
  else if ops = [opBReg0, opDeref] then
    some ⟨regExprRegDeref, makeOff (operand1 0) 0 (operand2 0) 0⟩
  else if ops = [opBReg0, opDeref, opPlusUConst] then
    some ⟨regExprRegDeref, makeOff (operand1 0) 0 (operand2 0) (operand1 2)⟩
  else if ops = [opBReg0, opBReg0, opLit0, opMul, opPlus, opDeref, opPlusUConst] ∧
      expr[1]?.map (·.operand2) = some 0 ∧ expr[2]?.map (·.operand1) = some 8 then
    some ⟨regExprRegRegDeref, makeOff (operand1 0) (operand1 1) (operand2 0) (operand1 6)⟩
  else none

/-! ## Instructions -/

/-- The call frame instructions, by what they do: several opcodes may share one. -/
inductive CfaInstruction
  | nop
  | setLoc (address : Word)
  | advanceLoc (delta : Word)
  | offset (reg off : Word)
  | restore (reg : Word)
  | undefined (reg : Word)
  | sameValue (reg : Word)
  | register (reg base : Word)
  | rememberState
  | restoreState
  | defCfa (reg off : Word)
  | defCfaRegister (reg : Word)
  | defCfaOffset (off : Word)
  | defCfaExpression (expr : Except String (List DwarfExpression))
  | expression (reg : Word) (expr : Except String (List DwarfExpression))
  | defCfaSf (reg off : Word)
  | defCfaOffsetSf (off : Word)
  | valOffset (reg off : Word)
  | valExpression (reg : Word)
  | gnuWindowSave
  | gnuArgsSize
  deriving DecidableEq

/-- The instructions with an opcode of their own. -/
def readExtended (r : Reader) (enc opcode : BitVec 8) : Comp Cursor CfaInstruction :=
  match opcode.toNat with
  | 0x00 => return .nop
  | 0x01 => do return .setLoc (← r.ptr enc)
  | 0x02 => do return .advanceLoc (BitVec.ofNat 64 (← Comp.uintLE 1))
  | 0x03 => do return .advanceLoc (BitVec.ofNat 64 (← Comp.uintLE 2))
  | 0x04 => do return .advanceLoc (BitVec.ofNat 64 (← Comp.uintLE 4))
  | 0x05 => do return .offset (← uleb) (← uleb)
  | 0x06 => do return .restore (← uleb)
  | 0x07 => do return .undefined (← uleb)
  | 0x08 => do return .sameValue (← uleb)
  | 0x09 => do return .register (← uleb) (← uleb)
  | 0x0a => return .rememberState
  | 0x0b => return .restoreState
  | 0x0c => do return .defCfa (← uleb) (← uleb)
  | 0x0d => do return .defCfaRegister (← uleb)
  | 0x0e => do return .defCfaOffset (← uleb)
  | 0x0f => do return .defCfaExpression (← Comp.attempt expression)
  | 0x10 => do return .expression (← uleb) (← Comp.attempt expression)
  | 0x11 => do return .offset (← uleb) (← sleb)
  | 0x12 => do return .defCfaSf (← uleb) (← sleb)
  | 0x13 => do return .defCfaOffsetSf (← sleb)
  | 0x14 => do return .valOffset (← uleb) (← uleb)
  | 0x15 => do return .valOffset (← uleb) (← sleb)
  | 0x16 => do
    let reg ← uleb
    discardUleb
    return .valExpression reg
  | 0x2d => return .gnuWindowSave
  | 0x2e => do
    let _ ← uleb
    return .gnuArgsSize
  | 0x2f => do return .offset (← uleb) (-(← sleb))
  | _ => Comp.error s!"DWARF opcode {hexByte opcode} not implemented"

/-- The next instruction; the high bits may be an opcode with its operand below. -/
def readInstruction (r : Reader) (enc : BitVec 8) : Comp Cursor CfaInstruction := do
  let opcode ← uint8
  let operand := (opcode &&& 0x3f).setWidth 64
  match (opcode &&& 0xc0).toNat with
  | 0x40 => return .advanceLoc operand
  | 0x80 => return .offset operand (← uleb)
  | 0xc0 => return .restore operand
  | _ => readExtended r enc opcode

/-! ## The virtual machine -/

/-- `cieInfo`, without what is not used of it. -/
structure CieInfo where
  dataAlign : Word
  codeAlign : Word
  enc : BitVec 8
  hasAugmentation : Bool
  isSignalHandler : Bool
  initialState : VmRegs
  deriving DecidableEq

/-- `state`, with the used part of the stack, its top first. -/
structure State where
  loc : Word
  cur : VmRegs
  stack : List VmRegs
  deriving DecidableEq

namespace State

def rule (cie : CieInfo) (st : State) (reg baseReg off : Word) : State :=
  match VmRegs.slot st.cur.arch reg with
  | some slot => { st with cur := st.cur.set slot ⟨baseReg, off * cie.dataAlign⟩ }
  | none => st

def restore (cie : CieInfo) (st : State) (reg : Word) : State :=
  match VmRegs.slot st.cur.arch reg with
  | some slot => { st with cur := st.cur.set slot (cie.initialState.get slot) }
  | none => st

/-- The rule after an expression: the old one if the expression could not be read. -/
def expressionRule : Except String (List DwarfExpression) → Option VmReg
  | .ok expr => some ((matchedRule expr).getD ⟨regUndefined, 0⟩)
  | .error _ => none

def setCfa (st : State) (cfa : VmReg) : State := { st with cur := { st.cur with cfa := cfa } }

/-- What an instruction does. -/
def execute (cie : CieInfo) (st : State) : CfaInstruction → Except String State
  | .nop | .gnuWindowSave | .gnuArgsSize => .ok st
  | .setLoc address => .ok { st with loc := address }
  | .advanceLoc delta => .ok { st with loc := st.loc + delta * cie.codeAlign }
  | .offset reg off => .ok (st.rule cie reg regCFA off)
  | .restore reg => .ok (st.restore cie reg)
  | .undefined reg | .valExpression reg => .ok (st.rule cie reg regUndefined 0)
  | .sameValue reg => .ok (st.rule cie reg regSame 0)
  | .register reg base => .ok (st.rule cie reg base 0)
  | .valOffset reg off => .ok (st.rule cie reg regCFAVal off)
  | .rememberState =>
    if 2 ≤ st.stack.length then .error s!"dwarf stack overflow at {hex st.loc.toNat}"
    else .ok { st with stack := st.cur :: st.stack }
  | .restoreState =>
    match st.stack with
    | [] => .error s!"dwarf stack underflow at {hex st.loc.toNat}"
    | top :: stack => .ok { st with cur := top, stack := stack }
  | .defCfa reg off => .ok (st.setCfa ⟨reg, off⟩)
  | .defCfaRegister reg => .ok (st.setCfa ⟨reg, st.cur.cfa.off⟩)
  | .defCfaOffset off => .ok (st.setCfa ⟨st.cur.cfa.reg, off⟩)
  | .defCfaExpression expr => .ok (st.setCfa ((expressionRule expr).getD st.cur.cfa))
  | .expression reg expr =>
    match VmRegs.slot st.cur.arch reg with
    | some slot =>
      .ok { st with cur := st.cur.set slot ((expressionRule expr).getD (st.cur.get slot)) }
    | none => .ok st
  | .defCfaSf reg off => .ok (st.setCfa ⟨reg, off * cie.dataAlign⟩)
  | .defCfaOffsetSf off => .ok (st.setCfa ⟨st.cur.cfa.reg, off * cie.dataAlign⟩)

end State

/-- The instructions with which `step` returns. -/
def CfaInstruction.isMove : CfaInstruction → Bool
  | .setLoc _ | .advanceLoc _ => true
  | _ => false

/-- The loop of `step`. Where no byte can be read, zeros do nothing and the loop does not end. -/
def stepLoop (r : Reader) (cie : CieInfo) : ℕ → State → Comp Cursor State
  | 0, _ => Comp.hang
  | fuel + 1, st => do
    if (← Comp.get).remaining = 0 then
      return st
    else
      let ins ← readInstruction r cie.enc
      match st.execute cie ins with
      | .error err => Comp.error err
      | .ok st => if ins.isMove then return st else stepLoop r cie fuel st

def State.step (r : Reader) (cie : CieInfo) (st : State) : Comp Cursor State := do
  stepLoop r cie ((← Comp.get).remaining + 1) st

end EbpfProfiler.ElfUnwind
