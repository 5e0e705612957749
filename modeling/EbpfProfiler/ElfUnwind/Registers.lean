import EbpfProfiler.StackDeltas.Types

/-!
# Register rules and the recipes made of them

`vmRegs` (`elfehframe.go`) has rules for CFA, frame pointer and return address; `getUnwindInfo`
makes a recipe of them.
-/

namespace EbpfProfiler.ElfUnwind

open StackDeltas

/-- `uleb128` and `sleb128`: 64 bits, unsigned or signed. -/
abbrev Word := BitVec 64

/-- The machines with unwind rules. -/
inductive Machine
  | x86_64
  | aarch64
  | other (machine : BitVec 16)
  deriving DecidableEq

/-! ## Rules -/

def regUndefined : Word := 128
def regCFA : Word := 129
def regCFAVal : Word := 130
def regSame : Word := 131
def regExprPLT : Word := 256
def regExprRegDeref : Word := 257
def regExprRegRegDeref : Word := 258
def regExprReg : Word := 259

/-- `vmReg`: the rule for a register. The architecture is there for printing only. -/
structure VmReg where
  reg : Word := 0
  off : Word := 0
  deriving DecidableEq

/-- The registers the unwinder follows. -/
structure VmRegs where
  arch : Machine
  cfa : VmReg
  fp : VmReg
  ra : VmReg
  deriving DecidableEq

/-- `makeOff`: four numbers of 16 bits in the offset of a rule. -/
def makeOff (a b c d : BitVec 16) : Word :=
  (a.setWidth 64 <<< 48) + (b.setWidth 64 <<< 32) + (c.setWidth 64 <<< 16) + d.setWidth 64

def splitOff (off : Word) : BitVec 16 × BitVec 16 × BitVec 16 × BitVec 16 :=
  ((off >>> 48).setWidth 16, (off >>> 32).setWidth 16, (off >>> 16).setWidth 16, off.setWidth 16)

/-! ## Numbers of registers -/

def x86RegRAX : Word := 0
def x86RegRDI : Word := 5
def x86RegRBP : Word := 6
def x86RegRSP : Word := 7
def x86RegR8 : Word := 8
def x86RegR9 : Word := 9
def x86RegR11 : Word := 11
def x86RegR13 : Word := 13
def x86RegR15 : Word := 15
def x86RegRIP : Word := 16

def armRegFP : Word := 29
def armRegLR : Word := 30
def armRegSP : Word := 31

def unwindRegInvalid : BitVec 8 := 0
def unwindRegCfa : BitVec 8 := 1
def unwindRegPc : BitVec 8 := 2
def unwindRegSp : BitVec 8 := 3
def unwindRegFp : BitVec 8 := 4
def unwindRegLr : BitVec 8 := 5
def unwindRegX86RAX : BitVec 8 := 6
def unwindRegX86RDI : BitVec 8 := 7
def unwindRegX86R8 : BitVec 8 := 8
def unwindRegX86R9 : BitVec 8 := 9
def unwindRegX86R11 : BitVec 8 := 0xa
def unwindRegX86R13 : BitVec 8 := 0xb
def unwindRegX86R15 : BitVec 8 := 0xc

def unwindFlagFrame : BitVec 8 := 2
def unwindFlagLeafOnly : BitVec 8 := 4
def unwindFlagDerefCfa : BitVec 8 := 8

namespace VmRegs

/-- `newVMRegsX86`. -/
def newX86 : VmRegs := ⟨.x86_64, ⟨regUndefined, 0⟩, ⟨regUndefined, 0⟩, ⟨regUndefined, 0⟩⟩

/-- `newVMRegsARM`. -/
def newARM : VmRegs := ⟨.aarch64, ⟨regUndefined, 0⟩, ⟨regSame, 0⟩, ⟨regSame, 0⟩⟩

/-- The registers whose rules are followed. -/
inductive Slot
  | fp
  | ra
  deriving DecidableEq

/-- `regX86` and `regARM`: which of the rules is that of a numbered register. -/
def slot (arch : Machine) (ndx : Word) : Option Slot :=
  match arch with
  | .x86_64 => if ndx = x86RegRBP then some .fp else if ndx = x86RegRIP then some .ra else none
  | .aarch64 => if ndx = armRegFP then some .fp else if ndx = armRegLR then some .ra else none
  | .other _ => none

def get (regs : VmRegs) : Slot → VmReg
  | .fp => regs.fp
  | .ra => regs.ra

def set (regs : VmRegs) (slot : Slot) (r : VmReg) : VmRegs :=
  match slot with
  | .fp => { regs with fp := r }
  | .ra => { regs with ra := r }

/-! ## Recipes for x86-64 -/

def getUnwinderRegX86 (reg : Word) : BitVec 8 :=
  if reg = x86RegRAX then unwindRegX86RAX
  else if reg = x86RegRDI then unwindRegX86RDI
  else if reg = x86RegRBP then unwindRegFp
  else if reg = x86RegRSP then unwindRegSp
  else if reg = x86RegR8 then unwindRegX86R8
  else if reg = x86RegR9 then unwindRegX86R9
  else if reg = x86RegR11 then unwindRegX86R11
  else if reg = x86RegR13 then unwindRegX86R13
  else if reg = x86RegR15 then unwindRegX86R15
  else if reg = x86RegRIP then unwindRegPc
  else if reg = regCFA then unwindRegCfa
  else unwindRegInvalid

def packDerefParam (preDeref postDeref : BitVec 32) : Option (BitVec 32) :=
  if postDeref.slt 0 ∨ BitVec.slt 0x20 postDeref ∨ postDeref.toNat % 8 ≠ 0 then none
  else some (preDeref + BitVec.ofNat 32 (postDeref.toNat / 8))

/-- The part of `getUnwindInfoX86` for the frame pointer. -/
def fpInfoX86 (regs : VmRegs) (info : UnwindInfo) : UnwindInfo :=
  if regs.fp.reg = regCFA then
    -- RBP is between CFA and stack top
    if regs.cfa.reg ≠ x86RegRSP ∨ (regs.fp.off.slt 0 ∧ (-regs.cfa.off).sle regs.fp.off) then
      { info with auxBaseReg := unwindRegCfa, auxParam := regs.fp.off.setWidth 32 }
    else info
  else if regs.fp.reg = regExprReg then
    let (r, _, offrbp, _) := splitOff regs.fp.off
    if r.signExtend 64 = x86RegRBP then
      { info with auxBaseReg := unwindRegFp, auxParam := offrbp.signExtend 32 }
    else info
  else info

/-- The part of `getUnwindInfoX86` for the stack pointer. -/
def cfaInfoX86 (regs : VmRegs) (info : UnwindInfo) : UnwindInfo :=
  let reg := regs.cfa.reg
  if reg = x86RegRBP ∨ reg = x86RegRSP then
    { info with baseReg := getUnwinderRegX86 reg, param := regs.cfa.off.setWidth 32 }
  else if reg = x86RegRAX ∨ reg = x86RegR9 ∨ reg = x86RegR11 ∨ reg = x86RegR15 then
    { info with
      flags := info.flags ||| unwindFlagLeafOnly
      baseReg := getUnwinderRegX86 reg
      param := regs.cfa.off.setWidth 32 }
  else if reg = regExprPLT then
    { info with flags := info.flags ||| unwindFlagCommand, param := unwindCommandPLT }
  else if reg = regExprRegDeref then
    let (r, _, off, off2) := splitOff regs.cfa.off
    match packDerefParam (off.signExtend 32) (off2.signExtend 32) with
    | some param =>
      if r.signExtend 64 = x86RegRBP ∨ r.signExtend 64 = x86RegRSP then
        { info with
          flags := info.flags ||| unwindFlagDerefCfa
          baseReg := getUnwinderRegX86 (r.signExtend 64)
          param := param }
      else info
    | none => info
  else info

def getUnwindInfoX86 (regs : VmRegs) : UnwindInfo :=
  if regs.cfa.reg = regUndefined ∨ regs.ra.reg = regUndefined then .stop
  else if regs.ra.reg = regCFA ∧ regs.cfa.reg = x86RegRSP ∧
      (regs.cfa.off + regs.ra.off).slt 0 then
    if regs.cfa.off.slt 0 then .invalid else .stop
  else
    let raReg := getUnwinderRegX86 regs.ra.reg
    -- the return address is in a register, and not at the CFA
    let raInReg : Bool := raReg ≠ unwindRegInvalid ∧ raReg ≠ unwindRegCfa
    if raInReg = false ∧ ¬ (regs.ra.reg = regCFA ∧ regs.ra.off = -8) then .invalid
    else
      let flags := if raInReg ∧ raReg ≠ unwindRegFp ∧ raReg ≠ unwindRegSp then unwindFlagLeafOnly
        else 0
      let info := cfaInfoX86 regs (fpInfoX86 regs { flags := flags })
      if info.isCommand = false ∧ info.baseReg = unwindRegInvalid then .invalid
      else if raInReg then { info with baseReg := info.baseReg ||| raReg <<< 4 }
      else info

/-! ## Recipes for aarch64 -/

def getUnwindInfoARM (regs : VmRegs) : UnwindInfo :=
  if regs.cfa.reg = regUndefined then .stop
  else if regs.ra.reg = regUndefined then .stop
  else
    let info : UnwindInfo :=
      if regs.cfa.reg = armRegFP then
        { baseReg := unwindRegFp, param := regs.cfa.off.setWidth 32 }
      else if regs.cfa.reg = armRegSP then
        { baseReg := unwindRegSp, param := regs.cfa.off.setWidth 32 }
      else {}
    let info :=
      if regs.ra.reg = regSame then { info with auxBaseReg := unwindRegLr, auxParam := 0 }
      else if regs.ra.reg = regCFA then
        { info with auxBaseReg := unwindRegCfa, auxParam := regs.ra.off.setWidth 32 }
      else info
    if regs.ra.reg ≠ regSame ∧ regs.fp.reg = regs.ra.reg ∧ regs.fp.off + 8 = regs.ra.off then
      { info with flags := info.flags ||| unwindFlagFrame }
    else info

/-- `getUnwindInfo`; `none` is the panic for another architecture. -/
def getUnwindInfo (regs : VmRegs) (allowGenericRegisters : Bool) : Option UnwindInfo :=
  let info := match regs.arch with
    | .aarch64 => some regs.getUnwindInfoARM
    | .x86_64 => some regs.getUnwindInfoX86
    | .other _ => none
  info.map fun info =>
    if !allowGenericRegisters && info.flags &&& unwindFlagLeafOnly ≠ 0 then .invalid else info

end VmRegs

end EbpfProfiler.ElfUnwind
