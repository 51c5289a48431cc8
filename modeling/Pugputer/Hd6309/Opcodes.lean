import Pugputer.Hd6309.Core

namespace Pugputer.Hd6309

variable {σ : Type} [Bus σ]

/-! Opcode dispatch for the three pages.  Each macro of the source's tables is a
definition of the same name here; its cycle arguments are emulation mode first
where the two modes differ. -/

inductive Acc8
  | a | b | e | f
  deriving DecidableEq, Repr

def Acc8.get (acc : Acc8) (r : Regs) : Byte :=
  match acc with
  | .a => r.a
  | .b => r.b
  | .e => r.e
  | .f => r.f

def Acc8.set (acc : Acc8) (value : Byte) (r : Regs) : Regs :=
  match acc with
  | .a => { r with a := value }
  | .b => { r with b := value }
  | .e => { r with e := value }
  | .f => { r with f := value }

inductive Reg16
  | x | y | u | s | d | w
  deriving DecidableEq, Repr

def Reg16.get (reg : Reg16) (r : Regs) : Word :=
  match reg with
  | .x => r.x
  | .y => r.y
  | .u => r.u
  | .s => r.s
  | .d => r.d
  | .w => r.w

def Reg16.set (reg : Reg16) (value : Word) (r : Regs) : Regs :=
  match reg with
  | .x => { r with x := value }
  | .y => { r with y := value }
  | .u => { r with u := value }
  | .s => { r with s := value }
  | .d => r.setD value
  | .w => r.setW value

def alu8 (acc : Acc8) (op : AluOp) (operand : Byte) : Exec σ Unit := do
  let result ← applyAlu8 op (acc.get (← regs)) operand
  modifyRegs (acc.set result)

def alu8Imm (acc : Acc8) (op : AluOp) (c : Nat) : Exec σ Unit := do
  alu8 acc op (← fetch8)
  addCycles c

def alu8Dir (acc : Acc8) (op : AluOp) (em nm : Nat) : Exec σ Unit := do
  alu8 acc op (← read8 (← eaDirect))
  addCyclesEmNm em nm

def alu8Idx (acc : Acc8) (op : AluOp) (c : Nat) : Exec σ Unit := do
  alu8 acc op (← read8 (← eaIndexed))
  addCycles c

def alu8Ext (acc : Acc8) (op : AluOp) (em nm : Nat) : Exec σ Unit := do
  alu8 acc op (← read8 (← eaExtended))
  addCyclesEmNm em nm

def st8 (acc : Acc8) (a : Word) : Exec σ Unit := do
  write8 a (acc.get (← regs))
  let _ ← logic8 (acc.get (← regs))

def st8Dir (acc : Acc8) (em nm : Nat) : Exec σ Unit := do
  st8 acc (← eaDirect)
  addCyclesEmNm em nm

def st8Idx (acc : Acc8) (c : Nat) : Exec σ Unit := do
  st8 acc (← eaIndexed)
  addCycles c

def st8Ext (acc : Acc8) (em nm : Nat) : Exec σ Unit := do
  st8 acc (← eaExtended)
  addCyclesEmNm em nm

def rmw8Mem (op : RmwOp) (a : Word) : Exec σ Unit := do
  write8 a (← rmw8 op (← read8 a))

def rmw8Dir (op : RmwOp) : Exec σ Unit := do
  rmw8Mem op (← eaDirect)
  addCyclesEmNm 6 5

def rmw8Idx (op : RmwOp) : Exec σ Unit := do
  rmw8Mem op (← eaIndexed)
  addCycles 6

def rmw8Ext (op : RmwOp) : Exec σ Unit := do
  rmw8Mem op (← eaExtended)
  addCyclesEmNm 7 6

def rmw8Acc (op : RmwOp) (acc : Acc8) : Exec σ Unit := do
  let result ← rmw8 op (acc.get (← regs))
  modifyRegs (acc.set result)

def rmw8Inh (op : RmwOp) (acc : Acc8) : Exec σ Unit := do
  rmw8Acc op acc
  addCyclesEmNm 2 1

def rmw8EfInh (op : RmwOp) (acc : Acc8) : Exec σ Unit := do
  rmw8Acc op acc
  addCyclesEmNm 3 2

def rmw16Inh (op : RmwOp) (reg : Reg16) : Exec σ Unit := do
  let result ← rmw16 op (reg.get (← regs))
  modifyRegs (reg.set result)
  addCyclesEmNm 3 2

def alu16 (reg : Reg16) (op : AluOp) (operand : Word) : Exec σ Unit := do
  let result ← applyAlu16 op (reg.get (← regs)) operand
  modifyRegs (reg.set result)

def alu16Imm (reg : Reg16) (op : AluOp) (em nm : Nat) : Exec σ Unit := do
  alu16 reg op (← fetch16)
  addCyclesEmNm em nm

def alu16Dir (reg : Reg16) (op : AluOp) (em nm : Nat) : Exec σ Unit := do
  alu16 reg op (← read16 (← eaDirect))
  addCyclesEmNm em nm

def alu16Idx (reg : Reg16) (op : AluOp) (c : Nat) : Exec σ Unit := do
  alu16 reg op (← read16 (← eaIndexed))
  addCycles c

def alu16Ext (reg : Reg16) (op : AluOp) (em nm : Nat) : Exec σ Unit := do
  alu16 reg op (← read16 (← eaExtended))
  addCyclesEmNm em nm

def ld16 (reg : Reg16) (v : Word) : Exec σ Unit := do
  let _ ← logic16 v
  modifyRegs (reg.set v)

def ld16Imm (reg : Reg16) (c : Nat) : Exec σ Unit := do
  ld16 reg (← fetch16)
  addCycles c

def ld16Dir (reg : Reg16) (em nm : Nat) : Exec σ Unit := do
  ld16 reg (← read16 (← eaDirect))
  addCyclesEmNm em nm

def ld16Idx (reg : Reg16) (c : Nat) : Exec σ Unit := do
  ld16 reg (← read16 (← eaIndexed))
  addCycles c

def ld16Ext (reg : Reg16) (em nm : Nat) : Exec σ Unit := do
  ld16 reg (← read16 (← eaExtended))
  addCyclesEmNm em nm

def st16 (reg : Reg16) (a : Word) : Exec σ Unit := do
  write16 a (reg.get (← regs))
  let _ ← logic16 (reg.get (← regs))

def st16Dir (reg : Reg16) (em nm : Nat) : Exec σ Unit := do
  st16 reg (← eaDirect)
  addCyclesEmNm em nm

def st16Idx (reg : Reg16) (c : Nat) : Exec σ Unit := do
  st16 reg (← eaIndexed)
  addCycles c

def st16Ext (reg : Reg16) (em nm : Nat) : Exec σ Unit := do
  st16 reg (← eaExtended)
  addCyclesEmNm em nm

def cmp16Imm (reg : Reg16) (em nm : Nat) : Exec σ Unit := do
  let v ← fetch16
  cmp16 (reg.get (← regs)) v
  addCyclesEmNm em nm

def cmp16Dir (reg : Reg16) (em nm : Nat) : Exec σ Unit := do
  let v ← read16 (← eaDirect)
  cmp16 (reg.get (← regs)) v
  addCyclesEmNm em nm

def cmp16Idx (reg : Reg16) (c : Nat) : Exec σ Unit := do
  let v ← read16 (← eaIndexed)
  cmp16 (reg.get (← regs)) v
  addCycles c

def cmp16Ext (reg : Reg16) (em nm : Nat) : Exec σ Unit := do
  let v ← read16 (← eaExtended)
  cmp16 (reg.get (← regs)) v
  addCyclesEmNm em nm

/-- AIM, OIM, EIM and TIM; TIM does not write its result back. -/
def logicmem (op : Byte → Byte → Byte) (writeBack : Bool) (mask : Byte) (a : Word) :
    Exec σ Unit := do
  let res := op (← read8 a) mask
  if writeBack then write8 a res
  let _ ← logic8 res

def logicmemDir (op : Byte → Byte → Byte) (writeBack : Bool) : Exec σ Unit := do
  let mask ← fetch8
  logicmem op writeBack mask (← eaDirect)
  addCycles 6

def logicmemIdx (op : Byte → Byte → Byte) (writeBack : Bool) : Exec σ Unit := do
  let mask ← fetch8
  logicmem op writeBack mask (← eaIndexed)
  addCycles 7

def logicmemExt (op : Byte → Byte → Byte) (writeBack : Bool) : Exec σ Unit := do
  let mask ← fetch8
  logicmem op writeBack mask (← eaExtended)
  addCycles 7

/-! The 32-bit accumulator. -/

def setFlagsQ (v : BitVec 32) : Exec σ Unit := do
  setFlag ccV false
  setFlag ccZ (v = 0)
  setFlag ccN v.msb

def ldq (a : Word) : Exec σ Unit := do
  let hi ← read16 a
  let lo ← read16 (a + 2)
  let v : BitVec 32 := hi ++ lo
  setFlagsQ v
  modifyRegs fun r => r.setQ v

def stq (a : Word) : Exec σ Unit := do
  let v := (← regs).q
  write16 a (v.extractLsb' 16 16)
  write16 (a + 2) (v.extractLsb' 0 16)
  setFlagsQ v

def ldqImm : Exec σ Unit := do
  let hi ← fetch16
  let lo ← fetch16
  let v : BitVec 32 := hi ++ lo
  setFlagsQ v
  modifyRegs fun r => r.setQ v
  addCycles 5

/-! Jumps, calls and the stack. -/

def setPc (target : Word) : Exec σ Unit := modifyRegs fun r => { r with pc := target }

def jumpTo (ea : Exec σ Word) : Exec σ Unit := do setPc (← ea)

def callTo (ea : Exec σ Word) : Exec σ Unit := do
  let a ← ea
  push16 .system (← regs).pc
  setPc a

def branchRel (off : Word) : Exec σ Unit :=
  modifyRegs fun r => { r with pc := r.pc + off }

def shortBranch (opcode : Byte) : Exec σ Unit := do
  let off ← rel8
  if testCondition (← regs) (opcode.extractLsb' 0 4) then branchRel off
  addCycles 3

def longBranch (opcode : Byte) : Exec σ Unit := do
  let off ← rel16
  let taken := testCondition (← regs) (opcode.extractLsb' 0 4)
  if taken then branchRel off
  addCyclesEmNm (if taken then 6 else 5) 5

def Stack.other (stack : Stack) (r : Regs) : Word :=
  match stack with
  | .system => r.u
  | .user => r.s

def Stack.setOther (stack : Stack) (value : Word) (r : Regs) : Regs :=
  match stack with
  | .system => { r with u := value }
  | .user => { r with s := value }

/-- PSHS and PSHU: the same list, with the other stack pointer in bit 6. -/
def psh (sp : Stack) : Exec σ Unit := do
  let pb ← fetch8
  if pb.getLsbD 7 then push16 sp (← regs).pc
  if pb.getLsbD 6 then push16 sp (sp.other (← regs))
  if pb.getLsbD 5 then push16 sp (← regs).y
  if pb.getLsbD 4 then push16 sp (← regs).x
  if pb.getLsbD 3 then push8 sp (← regs).dp
  if pb.getLsbD 2 then push8 sp (← regs).b
  if pb.getLsbD 1 then push8 sp (← regs).a
  if pb.getLsbD 0 then push8 sp (← regs).cc
  addCyclesEmNm (5 + rlistExtraCycles pb) (4 + rlistExtraCycles pb)

def pull8To (sp : Stack) (assign : Byte → Regs → Regs) : Exec σ Unit := do
  let value ← pull8 sp
  modifyRegs (assign value)

def pull16To (sp : Stack) (assign : Word → Regs → Regs) : Exec σ Unit := do
  let value ← pull16 sp
  modifyRegs (assign value)

def pul (sp : Stack) : Exec σ Unit := do
  let pb ← fetch8
  if pb.getLsbD 0 then pull8To sp fun v r => { r with cc := v }
  if pb.getLsbD 1 then pull8To sp fun v r => { r with a := v }
  if pb.getLsbD 2 then pull8To sp fun v r => { r with b := v }
  if pb.getLsbD 3 then pull8To sp fun v r => { r with dp := v }
  if pb.getLsbD 4 then pull16To sp fun v r => { r with x := v }
  if pb.getLsbD 5 then pull16To sp fun v r => { r with y := v }
  if pb.getLsbD 6 then pull16To sp sp.setOther
  if pb.getLsbD 7 then pull16To sp fun v r => { r with pc := v }
  addCyclesEmNm (5 + rlistExtraCycles pb) (4 + rlistExtraCycles pb)

def rts : Exec σ Unit := do
  pull16To .system fun v r => { r with pc := v }
  addCyclesEmNm 5 4

/-- RTI decides between the two kinds of frame by the E flag of the stacked CC,
and between the two full frames by MD alone. -/
def rti : Exec σ Unit := do
  let cc ← pull8 .system
  modifyRegs fun r => { r with cc }
  if cc &&& ccE ≠ 0 then
    pull8To .system fun v r => { r with a := v }
    pull8To .system fun v r => { r with b := v }
    if ← native then
      pull8To .system fun v r => { r with e := v }
      pull8To .system fun v r => { r with f := v }
    pull8To .system fun v r => { r with dp := v }
    pull16To .system fun v r => { r with x := v }
    pull16To .system fun v r => { r with y := v }
    pull16To .system fun v r => { r with u := v }
    pull16To .system fun v r => { r with pc := v }
    addCyclesEmNm 15 17
  else
    pull16To .system fun v r => { r with pc := v }
    addCycles 6

def cwai : Exec σ Unit := do
  let mask ← fetch8
  modifyRegs fun r => { r with cc := r.cc &&& mask }
  pushFullSet
  modify fun c => { c with cwaiPushedPending := true, waitSync := true }
  addCyclesEmNm 22 20

def swi : Exec σ Unit := do
  pushFullSet
  modifyRegs fun r => { r with cc := r.cc ||| (ccI ||| ccF) }
  setPc (← read16 vecSwi)
  addCyclesEmNm 19 21

/-- SWI2 and SWI3 leave the interrupt masks alone. -/
def swiUnmasked (vector : Word) : Exec σ Unit := do
  pushFullSet
  setPc (← read16 vector)
  addCyclesEmNm 20 22

/-! Remaining inherent operations. -/

def sexw : Exec σ Unit := do
  let d : Word := if (← regs).w.msb then 0xFFFF#16 else 0#16
  setD d
  setNz16 d
  setFlag ccV false
  addCycles 4

def sex : Exec σ Unit := do
  let d := (← regs).b.signExtend 16
  setD d
  setNz16 d
  setFlag ccV false
  addCyclesEmNm 2 1

def mul : Exec σ Unit := do
  let r ← regs
  let result : Word := r.a.setWidth 16 * r.b.setWidth 16
  setD result
  setFlag ccZ (result = 0)
  setFlag ccC (result.getLsbD 7)
  addCyclesEmNm 11 10

def leaFlag (assign : Word → Regs → Regs) : Exec σ Unit := do
  let a ← eaIndexed
  modifyRegs (assign a)
  setFlag ccZ (a = 0)
  addCycles 4

def lea (assign : Word → Regs → Regs) : Exec σ Unit := do
  let a ← eaIndexed
  modifyRegs (assign a)
  addCycles 4

def bitmd : Exec σ Unit := do
  let imm ← fetch8
  let test := (← regs).md &&& imm
  setFlag ccZ (test = 0)
  modifyRegs fun r => { r with md := r.md &&& ~~~test }
  addCycles 4

/-- ADDR to CMPR, by the low three bits of the opcode. -/
def regAluOp (opcode : Byte) : AluOp :=
  match opcode.toNat with
  | 0x30 => .add
  | 0x31 => .adc
  | 0x32 => .sub
  | 0x33 => .sbc
  | 0x34 => .and
  | 0x35 => .or
  | 0x36 => .eor
  | _ => .cmp

def regToReg (opcode : Byte) : Exec σ Unit := do
  let pb ← fetch8
  let src := pb.extractLsb' 4 4
  let dst := pb.extractLsb' 0 4
  let r ← regs
  if regCodeIs16bit dst then
    let result ← applyAlu16 (regAluOp opcode) (r.getRegByCode dst) (r.getRegByCode src)
    modifyRegs fun r => r.setRegByCode dst result
  else
    let result ← applyAlu8 (regAluOp opcode) (r.getRegRaw8 dst) (r.getRegRaw8 src)
    modifyRegs fun r => r.setRegByCode dst (word 0 result)
  addCycles 4

def executePage10 (opcode : Byte) : Exec σ Unit :=
  match opcode.toNat with
  | 0x21 | 0x22 | 0x23 | 0x24 | 0x25 | 0x26 | 0x27 | 0x28
  | 0x29 | 0x2A | 0x2B | 0x2C | 0x2D | 0x2E | 0x2F => longBranch opcode
  | 0x30 | 0x31 | 0x32 | 0x33 | 0x34 | 0x35 | 0x36 | 0x37 => regToReg opcode
  | 0x38 => do
      push16 .system (← regs).w
      addCycles 6
  | 0x39 => do
      pull16To .system fun v r => r.setW v
      addCycles 6
  | 0x3A => do
      push16 .user (← regs).w
      addCycles 6
  | 0x3B => do
      pull16To .user fun v r => r.setW v
      addCycles 6
  | 0x3F => swiUnmasked vecSwi2
  | 0x40 => rmw16Inh .neg .d
  | 0x43 => rmw16Inh .com .d
  | 0x44 => rmw16Inh .lsr .d
  | 0x46 => rmw16Inh .ror .d
  | 0x47 => rmw16Inh .asr .d
  | 0x48 => rmw16Inh .asl .d
  | 0x49 => rmw16Inh .rol .d
  | 0x4A => rmw16Inh .dec .d
  | 0x4C => rmw16Inh .inc .d
  | 0x4D => rmw16Inh .tst .d
  | 0x4F => rmw16Inh .clr .d
  | 0x53 => rmw16Inh .com .w
  | 0x54 => rmw16Inh .lsr .w
  | 0x56 => rmw16Inh .ror .w
  | 0x59 => rmw16Inh .rol .w
  | 0x5A => rmw16Inh .dec .w
  | 0x5C => rmw16Inh .inc .w
  | 0x5D => rmw16Inh .tst .w
  | 0x5F => rmw16Inh .clr .w
  | 0x80 => alu16Imm .w .sub 5 4
  | 0x81 => alu16Imm .w .cmp 5 4
  | 0x82 => alu16Imm .d .sbc 5 4
  | 0x83 => alu16Imm .d .cmp 5 4
  | 0x84 => alu16Imm .d .and 5 4
  | 0x85 => alu16Imm .d .bit 5 4
  | 0x86 => ld16Imm .w 4
  | 0x88 => alu16Imm .d .eor 5 4
  | 0x89 => alu16Imm .d .adc 5 4
  | 0x8A => alu16Imm .d .or 5 4
  | 0x8B => alu16Imm .w .add 5 4
  | 0x8C => cmp16Imm .y 5 4
  | 0x8E => ld16Imm .y 4
  | 0x90 => alu16Dir .w .sub 7 5
  | 0x91 => alu16Dir .w .cmp 7 5
  | 0x92 => alu16Dir .d .sbc 7 5
  | 0x93 => alu16Dir .d .cmp 7 5
  | 0x94 => alu16Dir .d .and 7 5
  | 0x95 => alu16Dir .d .bit 7 5
  | 0x96 => ld16Dir .w 6 5
  | 0x97 => st16Dir .w 6 5
  | 0x98 => alu16Dir .d .eor 7 5
  | 0x99 => alu16Dir .d .adc 7 5
  | 0x9A => alu16Dir .d .or 7 5
  | 0x9B => alu16Dir .w .add 7 5
  | 0x9C => cmp16Dir .y 7 5
  | 0x9E => ld16Dir .y 6 5
  | 0x9F => st16Dir .y 6 5
  | 0xA0 => alu16Idx .w .sub 7
  | 0xA1 => alu16Idx .w .cmp 7
  | 0xA2 => alu16Idx .d .sbc 7
  | 0xA3 => alu16Idx .d .cmp 7
  | 0xA4 => alu16Idx .d .and 7
  | 0xA5 => alu16Idx .d .bit 7
  | 0xA6 => ld16Idx .w 6
  | 0xA7 => st16Idx .w 6
  | 0xA8 => alu16Idx .d .eor 7
  | 0xA9 => alu16Idx .d .adc 7
  | 0xAA => alu16Idx .d .or 7
  | 0xAB => alu16Idx .w .add 7
  | 0xAC => cmp16Idx .y 7
  | 0xAE => ld16Idx .y 6
  | 0xAF => st16Idx .y 6
  | 0xB0 => alu16Ext .w .sub 8 6
  | 0xB1 => alu16Ext .w .cmp 8 6
  | 0xB2 => alu16Ext .d .sbc 8 6
  | 0xB3 => alu16Ext .d .cmp 8 6
  | 0xB4 => alu16Ext .d .and 8 6
  | 0xB5 => alu16Ext .d .bit 8 6
  | 0xB6 => ld16Ext .w 7 6
  | 0xB7 => st16Ext .w 7 6
  | 0xB8 => alu16Ext .d .eor 8 6
  | 0xB9 => alu16Ext .d .adc 8 6
  | 0xBA => alu16Ext .d .or 8 6
  | 0xBB => alu16Ext .w .add 8 6
  | 0xBC => cmp16Ext .y 8 6
  | 0xBE => ld16Ext .y 7 6
  | 0xBF => st16Ext .y 7 6
  | 0xCE => ld16Imm .s 4
  | 0xDC => do
      ldq (← eaDirect)
      addCyclesEmNm 8 7
  | 0xDD => do
      stq (← eaDirect)
      addCyclesEmNm 8 7
  | 0xDE => ld16Dir .s 6 5
  | 0xDF => st16Dir .s 6 5
  | 0xEC => do
      ldq (← eaIndexed)
      addCycles 8
  | 0xED => do
      stq (← eaIndexed)
      addCycles 8
  | 0xEE => ld16Idx .s 6
  | 0xEF => st16Idx .s 6
  | 0xFC => do
      ldq (← eaExtended)
      addCyclesEmNm 9 8
  | 0xFD => do
      stq (← eaExtended)
      addCyclesEmNm 9 8
  | 0xFE => ld16Ext .s 7 6
  | 0xFF => st16Ext .s 7 6
  | _ => illegalOpcodeTrap

def executePage11 (opcode : Byte) : Exec σ Unit :=
  match opcode.toNat with
  | 0x30 => doBitbit .band
  | 0x31 => doBitbit .biand
  | 0x32 => doBitbit .bor
  | 0x33 => doBitbit .bior
  | 0x34 => doBitbit .beor
  | 0x35 => doBitbit .bieor
  | 0x36 => doBitbit .ldbt
  | 0x37 => doBitbit .stbt
  | 0x38 => doTfm .incInc
  | 0x39 => doTfm .decDec
  | 0x3A => doTfm .incFix
  | 0x3B => doTfm .fixInc
  | 0x3C => bitmd
  | 0x3D => do
      let md ← fetch8
      modifyRegs fun r => { r with md }
      addCycles 5
  | 0x3F => swiUnmasked vecSwi3
  | 0x43 => rmw8EfInh .com .e
  | 0x4A => rmw8EfInh .dec .e
  | 0x4C => rmw8EfInh .inc .e
  | 0x4D => rmw8EfInh .tst .e
  | 0x4F => rmw8EfInh .clr .e
  | 0x53 => rmw8EfInh .com .f
  | 0x5A => rmw8EfInh .dec .f
  | 0x5C => rmw8EfInh .inc .f
  | 0x5D => rmw8EfInh .tst .f
  | 0x5F => rmw8EfInh .clr .f
  | 0x80 => alu8Imm .e .sub 3
  | 0x81 => alu8Imm .e .cmp 3
  | 0x83 => cmp16Imm .u 5 4
  | 0x86 => alu8Imm .e .ld 3
  | 0x8B => alu8Imm .e .add 3
  | 0x8C => cmp16Imm .s 5 4
  | 0x8D => do
      doDivd (← fetch8)
      addCycles 25
  | 0x8E => do
      doDivq (← fetch16)
      addCycles 34
  | 0x8F => do
      doMuld (← fetch16)
      addCycles 28
  | 0x90 => alu8Dir .e .sub 5 4
  | 0x91 => alu8Dir .e .cmp 5 4
  | 0x93 => cmp16Dir .u 7 5
  | 0x96 => alu8Dir .e .ld 5 4
  | 0x97 => st8Dir .e 5 4
  | 0x9B => alu8Dir .e .add 5 4
  | 0x9C => cmp16Dir .s 7 5
  | 0x9D => do
      doDivd (← read8 (← eaDirect))
      addCyclesEmNm 27 26
  | 0x9E => do
      doDivq (← read16 (← eaDirect))
      addCyclesEmNm 36 35
  | 0x9F => do
      doMuld (← read16 (← eaDirect))
      addCyclesEmNm 30 29
  | 0xA0 => alu8Idx .e .sub 5
  | 0xA1 => alu8Idx .e .cmp 5
  | 0xA3 => cmp16Idx .u 7
  | 0xA6 => alu8Idx .e .ld 5
  | 0xA7 => st8Idx .e 5
  | 0xAB => alu8Idx .e .add 5
  | 0xAC => cmp16Idx .s 7
  | 0xAD => do
      doDivd (← read8 (← eaIndexed))
      addCycles 27
  | 0xAE => do
      doDivq (← read16 (← eaIndexed))
      addCycles 36
  | 0xAF => do
      doMuld (← read16 (← eaIndexed))
      addCycles 30
  | 0xB0 => alu8Ext .e .sub 6 5
  | 0xB1 => alu8Ext .e .cmp 6 5
  | 0xB3 => cmp16Ext .u 8 6
  | 0xB6 => alu8Ext .e .ld 6 5
  | 0xB7 => st8Ext .e 6 5
  | 0xBB => alu8Ext .e .add 6 5
  | 0xBC => cmp16Ext .s 8 6
  | 0xBD => do
      doDivd (← read8 (← eaExtended))
      addCyclesEmNm 28 27
  | 0xBE => do
      doDivq (← read16 (← eaExtended))
      addCyclesEmNm 37 36
  | 0xBF => do
      doMuld (← read16 (← eaExtended))
      addCyclesEmNm 31 30
  | 0xC0 => alu8Imm .f .sub 3
  | 0xC1 => alu8Imm .f .cmp 3
  | 0xC6 => alu8Imm .f .ld 3
  | 0xCB => alu8Imm .f .add 3
  | 0xD0 => alu8Dir .f .sub 5 4
  | 0xD1 => alu8Dir .f .cmp 5 4
  | 0xD6 => alu8Dir .f .ld 5 4
  | 0xD7 => st8Dir .f 5 4
  | 0xDB => alu8Dir .f .add 5 4
  | 0xE0 => alu8Idx .f .sub 5
  | 0xE1 => alu8Idx .f .cmp 5
  | 0xE6 => alu8Idx .f .ld 5
  | 0xE7 => st8Idx .f 5
  | 0xEB => alu8Idx .f .add 5
  | 0xF0 => alu8Ext .f .sub 6 5
  | 0xF1 => alu8Ext .f .cmp 6 5
  | 0xF6 => alu8Ext .f .ld 6 5
  | 0xF7 => st8Ext .f 6 5
  | 0xFB => alu8Ext .f .add 6 5
  | _ => illegalOpcodeTrap

def execute (opcode : Byte) : Exec σ Unit :=
  match opcode.toNat with
  | 0x00 => rmw8Dir .neg
  | 0x01 => logicmemDir (· ||| ·) true
  | 0x02 => logicmemDir (· &&& ·) true
  | 0x03 => rmw8Dir .com
  | 0x04 => rmw8Dir .lsr
  | 0x05 => logicmemDir (· ^^^ ·) true
  | 0x06 => rmw8Dir .ror
  | 0x07 => rmw8Dir .asr
  | 0x08 => rmw8Dir .asl
  | 0x09 => rmw8Dir .rol
  | 0x0A => rmw8Dir .dec
  | 0x0B => logicmemDir (· &&& ·) false
  | 0x0C => rmw8Dir .inc
  | 0x0D => do
      let _ ← rmw8 .tst (← read8 (← eaDirect))
      addCyclesEmNm 6 4
  | 0x0E => do
      jumpTo eaDirect
      addCyclesEmNm 3 2
  | 0x0F => rmw8Dir .clr
  | 0x10 => do executePage10 (← fetch8)
  | 0x11 => do executePage11 (← fetch8)
  | 0x12 => addCyclesEmNm 2 1
  | 0x13 => do
      modify fun c => { c with waitSync := true }
      addCyclesEmNm 2 1
  | 0x14 => sexw
  | 0x16 => do
      branchRel (← rel16)
      addCyclesEmNm 5 4
  | 0x17 => do
      let off ← rel16
      push16 .system (← regs).pc
      branchRel off
      addCyclesEmNm 9 7
  | 0x19 => do
      doDaa
      addCyclesEmNm 2 1
  | 0x1A => do
      let m ← fetch8
      modifyRegs fun r => { r with cc := r.cc ||| m }
      addCyclesEmNm 3 2
  | 0x1C => do
      let m ← fetch8
      modifyRegs fun r => { r with cc := r.cc &&& m }
      addCyclesEmNm 3 2
  | 0x1D => sex
  | 0x1E => do
      doTfrExg (← fetch8) true
      addCyclesEmNm 8 5
  | 0x1F => do
      doTfrExg (← fetch8) false
      addCyclesEmNm 6 4
  | 0x20 | 0x21 | 0x22 | 0x23 | 0x24 | 0x25 | 0x26 | 0x27
  | 0x28 | 0x29 | 0x2A | 0x2B | 0x2C | 0x2D | 0x2E | 0x2F => shortBranch opcode
  | 0x30 => leaFlag fun a r => { r with x := a }
  | 0x31 => leaFlag fun a r => { r with y := a }
  | 0x32 => lea fun a r => { r with s := a }
  | 0x33 => lea fun a r => { r with u := a }
  | 0x34 => psh .system
  | 0x35 => pul .system
  | 0x36 => psh .user
  | 0x37 => pul .user
  | 0x39 => rts
  | 0x3A => do
      modifyRegs fun r => { r with x := r.x + r.b.setWidth 16 }
      addCyclesEmNm 3 1
  | 0x3B => rti
  | 0x3C => cwai
  | 0x3D => mul
  | 0x3F => swi
  | 0x40 => rmw8Inh .neg .a
  | 0x43 => rmw8Inh .com .a
  | 0x44 => rmw8Inh .lsr .a
  | 0x46 => rmw8Inh .ror .a
  | 0x47 => rmw8Inh .asr .a
  | 0x48 => rmw8Inh .asl .a
  | 0x49 => rmw8Inh .rol .a
  | 0x4A => rmw8Inh .dec .a
  | 0x4C => rmw8Inh .inc .a
  | 0x4D => rmw8Inh .tst .a
  | 0x4F => rmw8Inh .clr .a
  | 0x50 => rmw8Inh .neg .b
  | 0x53 => rmw8Inh .com .b
  | 0x54 => rmw8Inh .lsr .b
  | 0x56 => rmw8Inh .ror .b
  | 0x57 => rmw8Inh .asr .b
  | 0x58 => rmw8Inh .asl .b
  | 0x59 => rmw8Inh .rol .b
  | 0x5A => rmw8Inh .dec .b
  | 0x5C => rmw8Inh .inc .b
  | 0x5D => rmw8Inh .tst .b
  | 0x5F => rmw8Inh .clr .b
  | 0x60 => rmw8Idx .neg
  | 0x61 => logicmemIdx (· ||| ·) true
  | 0x62 => logicmemIdx (· &&& ·) true
  | 0x63 => rmw8Idx .com
  | 0x64 => rmw8Idx .lsr
  | 0x65 => logicmemIdx (· ^^^ ·) true
  | 0x66 => rmw8Idx .ror
  | 0x67 => rmw8Idx .asr
  | 0x68 => rmw8Idx .asl
  | 0x69 => rmw8Idx .rol
  | 0x6A => rmw8Idx .dec
  | 0x6B => logicmemIdx (· &&& ·) false
  | 0x6C => rmw8Idx .inc
  | 0x6D => do
      let _ ← rmw8 .tst (← read8 (← eaIndexed))
      addCycles 5
  | 0x6E => do
      jumpTo eaIndexed
      addCycles 3
  | 0x6F => rmw8Idx .clr
  | 0x70 => rmw8Ext .neg
  | 0x71 => logicmemExt (· ||| ·) true
  | 0x72 => logicmemExt (· &&& ·) true
  | 0x73 => rmw8Ext .com
  | 0x74 => rmw8Ext .lsr
  | 0x75 => logicmemExt (· ^^^ ·) true
  | 0x76 => rmw8Ext .ror
  | 0x77 => rmw8Ext .asr
  | 0x78 => rmw8Ext .asl
  | 0x79 => rmw8Ext .rol
  | 0x7A => rmw8Ext .dec
  | 0x7B => logicmemExt (· &&& ·) false
  | 0x7C => rmw8Ext .inc
  | 0x7D => do
      let _ ← rmw8 .tst (← read8 (← eaExtended))
      addCyclesEmNm 7 5
  | 0x7E => do
      jumpTo eaExtended
      addCyclesEmNm 4 3
  | 0x7F => rmw8Ext .clr
  | 0x80 => alu8Imm .a .sub 2
  | 0x81 => alu8Imm .a .cmp 2
  | 0x82 => alu8Imm .a .sbc 2
  | 0x83 => alu16Imm .d .sub 4 3
  | 0x84 => alu8Imm .a .and 2
  | 0x85 => alu8Imm .a .bit 2
  | 0x86 => alu8Imm .a .ld 2
  | 0x88 => alu8Imm .a .eor 2
  | 0x89 => alu8Imm .a .adc 2
  | 0x8A => alu8Imm .a .or 2
  | 0x8B => alu8Imm .a .add 2
  | 0x8C => cmp16Imm .x 4 3
  | 0x8D => do
      let off ← rel8
      push16 .system (← regs).pc
      branchRel off
      addCyclesEmNm 7 6
  | 0x8E => ld16Imm .x 3
  | 0x90 => alu8Dir .a .sub 4 3
  | 0x91 => alu8Dir .a .cmp 4 3
  | 0x92 => alu8Dir .a .sbc 4 3
  | 0x93 => alu16Dir .d .sub 6 4
  | 0x94 => alu8Dir .a .and 4 3
  | 0x95 => alu8Dir .a .bit 4 3
  | 0x96 => alu8Dir .a .ld 4 3
  | 0x97 => st8Dir .a 4 3
  | 0x98 => alu8Dir .a .eor 4 3
  | 0x99 => alu8Dir .a .adc 4 3
  | 0x9A => alu8Dir .a .or 4 3
  | 0x9B => alu8Dir .a .add 4 3
  | 0x9C => cmp16Dir .x 6 4
  | 0x9D => do
      callTo eaDirect
      addCyclesEmNm 7 6
  | 0x9E => ld16Dir .x 5 4
  | 0x9F => st16Dir .x 5 4
  | 0xA0 => alu8Idx .a .sub 4
  | 0xA1 => alu8Idx .a .cmp 4
  | 0xA2 => alu8Idx .a .sbc 4
  | 0xA3 => alu16Idx .d .sub 6
  | 0xA4 => alu8Idx .a .and 4
  | 0xA5 => alu8Idx .a .bit 4
  | 0xA6 => alu8Idx .a .ld 4
  | 0xA7 => st8Idx .a 4
  | 0xA8 => alu8Idx .a .eor 4
  | 0xA9 => alu8Idx .a .adc 4
  | 0xAA => alu8Idx .a .or 4
  | 0xAB => alu8Idx .a .add 4
  | 0xAC => cmp16Idx .x 6
  | 0xAD => do
      callTo eaIndexed
      addCyclesEmNm 7 6
  | 0xAE => ld16Idx .x 5
  | 0xAF => st16Idx .x 5
  | 0xB0 => alu8Ext .a .sub 5 4
  | 0xB1 => alu8Ext .a .cmp 5 4
  | 0xB2 => alu8Ext .a .sbc 5 4
  | 0xB3 => alu16Ext .d .sub 7 5
  | 0xB4 => alu8Ext .a .and 5 4
  | 0xB5 => alu8Ext .a .bit 5 4
  | 0xB6 => alu8Ext .a .ld 5 4
  | 0xB7 => st8Ext .a 5 4
  | 0xB8 => alu8Ext .a .eor 5 4
  | 0xB9 => alu8Ext .a .adc 5 4
  | 0xBA => alu8Ext .a .or 5 4
  | 0xBB => alu8Ext .a .add 5 4
  | 0xBC => cmp16Ext .x 7 5
  | 0xBD => do
      callTo eaExtended
      addCyclesEmNm 8 7
  | 0xBE => ld16Ext .x 6 5
  | 0xBF => st16Ext .x 6 5
  | 0xC0 => alu8Imm .b .sub 2
  | 0xC1 => alu8Imm .b .cmp 2
  | 0xC2 => alu8Imm .b .sbc 2
  | 0xC3 => alu16Imm .d .add 4 3
  | 0xC4 => alu8Imm .b .and 2
  | 0xC5 => alu8Imm .b .bit 2
  | 0xC6 => alu8Imm .b .ld 2
  | 0xC8 => alu8Imm .b .eor 2
  | 0xC9 => alu8Imm .b .adc 2
  | 0xCA => alu8Imm .b .or 2
  | 0xCB => alu8Imm .b .add 2
  | 0xCC => ld16Imm .d 3
  | 0xCD => ldqImm
  | 0xCE => ld16Imm .u 3
  | 0xD0 => alu8Dir .b .sub 4 3
  | 0xD1 => alu8Dir .b .cmp 4 3
  | 0xD2 => alu8Dir .b .sbc 4 3
  | 0xD3 => alu16Dir .d .add 6 4
  | 0xD4 => alu8Dir .b .and 4 3
  | 0xD5 => alu8Dir .b .bit 4 3
  | 0xD6 => alu8Dir .b .ld 4 3
  | 0xD7 => st8Dir .b 4 3
  | 0xD8 => alu8Dir .b .eor 4 3
  | 0xD9 => alu8Dir .b .adc 4 3
  | 0xDA => alu8Dir .b .or 4 3
  | 0xDB => alu8Dir .b .add 4 3
  | 0xDC => ld16Dir .d 5 4
  | 0xDD => st16Dir .d 5 4
  | 0xDE => ld16Dir .u 5 4
  | 0xDF => st16Dir .u 5 4
  | 0xE0 => alu8Idx .b .sub 4
  | 0xE1 => alu8Idx .b .cmp 4
  | 0xE2 => alu8Idx .b .sbc 4
  | 0xE3 => alu16Idx .d .add 6
  | 0xE4 => alu8Idx .b .and 4
  | 0xE5 => alu8Idx .b .bit 4
  | 0xE6 => alu8Idx .b .ld 4
  | 0xE7 => st8Idx .b 4
  | 0xE8 => alu8Idx .b .eor 4
  | 0xE9 => alu8Idx .b .adc 4
  | 0xEA => alu8Idx .b .or 4
  | 0xEB => alu8Idx .b .add 4
  | 0xEC => ld16Idx .d 5
  | 0xED => st16Idx .d 5
  | 0xEE => ld16Idx .u 5
  | 0xEF => st16Idx .u 5
  | 0xF0 => alu8Ext .b .sub 5 4
  | 0xF1 => alu8Ext .b .cmp 5 4
  | 0xF2 => alu8Ext .b .sbc 5 4
  | 0xF3 => alu16Ext .d .add 7 5
  | 0xF4 => alu8Ext .b .and 5 4
  | 0xF5 => alu8Ext .b .bit 5 4
  | 0xF6 => alu8Ext .b .ld 5 4
  | 0xF7 => st8Ext .b 5 4
  | 0xF8 => alu8Ext .b .eor 5 4
  | 0xF9 => alu8Ext .b .adc 5 4
  | 0xFA => alu8Ext .b .or 5 4
  | 0xFB => alu8Ext .b .add 5 4
  | 0xFC => ld16Ext .d 6 5
  | 0xFD => st16Ext .d 6 5
  | 0xFE => ld16Ext .u 6 5
  | 0xFF => st16Ext .u 6 5
  | _ => illegalOpcodeTrap

end Pugputer.Hd6309
