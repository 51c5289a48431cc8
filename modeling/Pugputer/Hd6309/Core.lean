import Pugputer.Hd6309.State

namespace Pugputer.Hd6309

variable {σ : Type} [Bus σ]

/-! Addressing modes. -/

def eaDirect : Exec σ Word := do
  let dp := (← regs).dp
  return word dp (← fetch8)

def eaExtended : Exec σ Word := fetch16

def rel8 : Exec σ Word := do
  return (← fetch8).signExtend 16

def rel16 : Exec σ Word := fetch16

def idxEm : List Nat := [2, 3, 2, 3, 0, 1, 1, 1, 1, 4, 1, 4, 1, 5, 4, 0]
def idxNm : List Nat := [1, 2, 1, 2, 0, 1, 1, 1, 1, 3, 1, 2, 1, 3, 1, 0]
def indirEm : List Nat := [0, 6, 0, 6, 3, 4, 4, 1, 4, 7, 1, 4, 4, 8, 4, 5]
def indirNm : List Nat := [0, 6, 0, 6, 3, 4, 4, 1, 4, 7, 1, 4, 4, 8, 4, 5]

/-- Combinations the source's tables mark `-1` cost nothing there either. -/
def indexedExtraCycles (nm : Bool) (pb : Byte) : Nat :=
  if pb &&& 0x80#8 = 0 then 1
  else match pb.toNat with
    | 0x8F => 0
    | 0xAF => 2
    | 0xCF => 1
    | 0xEF => 1
    | 0x90 => 3
    | 0xB0 => 5
    | 0xD0 => 4
    | 0xF0 => 4
    | _ =>
        let ssss := (pb &&& 0x0F#8).toNat
        if pb &&& 0x10#8 ≠ 0 then
          (if nm then indirNm else indirEm).getD ssss 0
        else
          (if nm then idxNm else idxEm).getD ssss 0

def rlistExtraCycles (pb : Byte) : Nat :=
  (List.range 8).foldl
    (fun total i =>
      if pb &&& (1#8 <<< i) ≠ 0 then total + (if i ≤ 3 then 1 else 2)
      else total) 0

/-- `regs4[i]`: the index register a postbyte's bits 6-5 select. -/
def getIndexReg (i : BitVec 2) : Exec σ Word := do
  let r ← regs
  return if i = 0 then r.x else if i = 1 then r.y else if i = 2 then r.u else r.s

def setIndexReg (i : BitVec 2) (value : Word) : Exec σ Unit :=
  modifyRegs fun r =>
    if i = 0 then { r with x := value }
    else if i = 1 then { r with y := value }
    else if i = 2 then { r with u := value }
    else { r with s := value }

def setW (value : Word) : Exec σ Unit := modifyRegs fun r => r.setW value

def setD (value : Word) : Exec σ Unit := modifyRegs fun r => r.setD value

def eaIndexed : Exec σ Word := do
  let pb ← fetch8
  addCycles (indexedExtraCycles (← native) pb)
  let i := pb.extractLsb' 5 2
  if pb &&& 0x80#8 = 0 then
    return (← getIndexReg i) + (pb.extractLsb' 0 5).signExtend 16
  else match pb.toNat with
    | 0x8F => return (← regs).w
    | 0xAF => do
        let off ← fetch16
        return (← regs).w + off
    | 0xCF => do
        let v := (← regs).w
        setW (v + 2)
        return v
    | 0xEF => do
        let v := (← regs).w - 2
        setW v
        return v
    | 0x90 => do read16 (← regs).w
    | 0xB0 => do
        let off ← fetch16
        read16 ((← regs).w + off)
    | 0xD0 => do
        let v := (← regs).w
        setW (v + 2)
        read16 v
    | 0xF0 => do
        let v := (← regs).w - 2
        setW v
        read16 v
    | _ => do
        let addr ← (match (pb &&& 0x0F#8).toNat with
          | 0x0 => do
              let v ← getIndexReg i
              setIndexReg i (v + 1)
              return v
          | 0x1 => do
              let v ← getIndexReg i
              setIndexReg i (v + 2)
              return v
          | 0x2 => do
              setIndexReg i ((← getIndexReg i) - 1)
              getIndexReg i
          | 0x3 => do
              setIndexReg i ((← getIndexReg i) - 2)
              getIndexReg i
          | 0x4 => getIndexReg i
          | 0x5 => do return (← getIndexReg i) + (← regs).b.signExtend 16
          | 0x6 => do return (← getIndexReg i) + (← regs).a.signExtend 16
          | 0x7 => do return (← getIndexReg i) + (← regs).e.signExtend 16
          | 0x8 => do
              let off ← rel8
              return (← getIndexReg i) + off
          | 0x9 => do
              let off ← fetch16
              return (← getIndexReg i) + off
          | 0xA => do return (← getIndexReg i) + (← regs).f.signExtend 16
          | 0xB => do return (← getIndexReg i) + (← regs).d
          | 0xC => do
              let off ← rel8
              return (← regs).pc + off
          | 0xD => do
              let off ← fetch16
              return (← regs).pc + off
          | 0xE => do return (← getIndexReg i) + (← regs).w
          | _ => fetch16)
        if pb &&& 0x10#8 ≠ 0 then read16 addr else return addr

/-! Stacks.  `push8` and its siblings take the stack pointer by reference in
the source; here `Stack` says which of the two registers that is. -/

inductive Stack
  | system | user
  deriving DecidableEq, Repr

def Stack.get (stack : Stack) (r : Regs) : Word :=
  match stack with
  | .system => r.s
  | .user => r.u

def Stack.set (stack : Stack) (value : Word) (r : Regs) : Regs :=
  match stack with
  | .system => { r with s := value }
  | .user => { r with u := value }

def push8 (sp : Stack) (value : Byte) : Exec σ Unit := do
  modifyRegs fun r => sp.set (sp.get r - 1) r
  write8 (sp.get (← regs)) value

def pull8 (sp : Stack) : Exec σ Byte := do
  let value ← read8 (sp.get (← regs))
  modifyRegs fun r => sp.set (sp.get r + 1) r
  return value

def push16 (sp : Stack) (value : Word) : Exec σ Unit := do
  push8 sp (loByte value)
  push8 sp (hiByte value)

def pull16 (sp : Stack) : Exec σ Word := do
  let hi ← pull8 sp
  let lo ← pull8 sp
  return word hi lo

/-! Register codes of TFR, EXG, the register-to-register family and TFM. -/

def regCodeIs16bit (code : BitVec 4) : Bool := code ≤ 7#4

/-- 8-bit registers read back as `$FFxx` in a 16-bit context. -/
def Regs.getRegByCode (r : Regs) (code : BitVec 4) : Word :=
  match code.toNat with
  | 0 => r.d
  | 1 => r.x
  | 2 => r.y
  | 3 => r.u
  | 4 => r.s
  | 5 => r.pc
  | 6 => r.w
  | 7 => r.v
  | 8 => word 0xFF#8 r.a
  | 9 => word 0xFF#8 r.b
  | 10 => word 0xFF#8 r.cc
  | 11 => word 0xFF#8 r.dp
  | 12 | 13 => 0xFFFF#16
  | 14 => word 0xFF#8 r.e
  | _ => word 0xFF#8 r.f

def Regs.getRegRaw8 (r : Regs) (code : BitVec 4) : Byte :=
  match code.toNat with
  | 8 => r.a
  | 9 => r.b
  | 10 => r.cc
  | 11 => r.dp
  | 14 => r.e
  | _ => r.f

def Regs.setRegByCode (r : Regs) (code : BitVec 4) (v : Word) : Regs :=
  match code.toNat with
  | 0 => r.setD v
  | 1 => { r with x := v }
  | 2 => { r with y := v }
  | 3 => { r with u := v }
  | 4 => { r with s := v }
  | 5 => { r with pc := v }
  | 6 => r.setW v
  | 7 => { r with v := v }
  | 8 => { r with a := loByte v }
  | 9 => { r with b := loByte v }
  | 10 => { r with cc := loByte v }
  | 11 => { r with dp := loByte v }
  | 12 | 13 => r
  | 14 => { r with e := loByte v }
  | _ => { r with f := loByte v }

/-! Flags. -/

def setNz8 (v : Byte) : Exec σ Unit := do
  setFlag ccN v.msb
  setFlag ccZ (v = 0)

def setNz16 (v : Word) : Exec σ Unit := do
  setFlag ccN v.msb
  setFlag ccZ (v = 0)

def testCondition (r : Regs) (cond4 : BitVec 4) : Bool :=
  let c := r.getFlag ccC
  let z := r.getFlag ccZ
  let v := r.getFlag ccV
  let n := r.getFlag ccN
  match cond4.toNat with
  | 0x0 => true
  | 0x1 => false
  | 0x2 => !c && !z
  | 0x3 => c || z
  | 0x4 => !c
  | 0x5 => c
  | 0x6 => !z
  | 0x7 => z
  | 0x8 => !v
  | 0x9 => v
  | 0xA => !n
  | 0xB => n
  | 0xC => n == v
  | 0xD => n != v
  | 0xE => !z && (n == v)
  | _ => z || (n != v)

/-! ALU primitives.  Each computes its result, sets the flags and returns the
result, as the source's member functions do. -/

def add8 (a b : Byte) (carryIn affectH : Bool) : Exec σ Byte := do
  let r16 := a.toNat + b.toNat + carryIn.toNat
  let r8 := BitVec.ofNat 8 r16
  if affectH then
    setFlag ccH ((a &&& 0xF#8).toNat + (b &&& 0xF#8).toNat + carryIn.toNat > 0xF)
  setFlag ccC (r16 > 0xFF)
  setFlag ccV (~~~(a ^^^ b) &&& (a ^^^ r8)).msb
  setNz8 r8
  return r8

def sub8 (a b : Byte) (borrowIn : Bool) : Exec σ Byte := do
  let diff : Int := (a.toNat : Int) - b.toNat - borrowIn.toNat
  let r8 := BitVec.ofInt 8 diff
  setFlag ccC (diff < 0)
  setFlag ccV ((a ^^^ b) &&& (a ^^^ r8)).msb
  setNz8 r8
  return r8

def add16 (a b : Word) (carryIn : Bool) : Exec σ Word := do
  let r32 := a.toNat + b.toNat + carryIn.toNat
  let r16 := BitVec.ofNat 16 r32
  setFlag ccC (r32 > 0xFFFF)
  setFlag ccV (~~~(a ^^^ b) &&& (a ^^^ r16)).msb
  setNz16 r16
  return r16

def sub16 (a b : Word) (borrowIn : Bool) : Exec σ Word := do
  let diff : Int := (a.toNat : Int) - b.toNat - borrowIn.toNat
  let r16 := BitVec.ofInt 16 diff
  setFlag ccC (diff < 0)
  setFlag ccV ((a ^^^ b) &&& (a ^^^ r16)).msb
  setNz16 r16
  return r16

/-- The shared tail of the logic operations and loads: V cleared, N and Z from
the result. -/
def logic8 (r : Byte) : Exec σ Byte := do
  setFlag ccV false
  setNz8 r
  return r

def logic16 (r : Word) : Exec σ Word := do
  setFlag ccV false
  setNz16 r
  return r

def cmp8 (a b : Byte) : Exec σ Unit := do
  let _ ← sub8 a b false

def cmp16 (a b : Word) : Exec σ Unit := do
  let _ ← sub16 a b false

/-- Every read-modify-write operation, at either width. -/
def rmw (setNz : BitVec n → Exec σ Unit) (op : RmwOp) (v : BitVec n) :
    Exec σ (BitVec n) := do
  let top := BitVec.twoPow n (n - 1)
  let bit0 := v.getLsbD 0
  let bitTop := v.getLsbD (n - 1)
  let bitNext := v.getLsbD (n - 2)
  match op with
  | .neg =>
      setFlag ccC (v ≠ 0)
      setFlag ccV (v = top)
      setNz (0 - v)
      return 0 - v
  | .com =>
      setFlag ccC true
      setFlag ccV false
      setNz (~~~v)
      return ~~~v
  | .lsr =>
      setFlag ccC bit0
      setNz (v >>> 1)
      return v >>> 1
  | .ror =>
      let oldc ← getFlag ccC
      setFlag ccC bit0
      let r := (v >>> 1) ||| (if oldc then top else 0)
      setNz r
      return r
  | .asr =>
      setFlag ccC bit0
      let r := (v >>> 1) ||| (v &&& top)
      setNz r
      return r
  | .asl =>
      setFlag ccC bitTop
      setFlag ccV (bitTop != bitNext)
      setNz (v <<< 1)
      return v <<< 1
  | .rol =>
      let oldc ← getFlag ccC
      setFlag ccC bitTop
      setFlag ccV (bitTop != bitNext)
      let r := (v <<< 1) ||| (if oldc then 1 else 0)
      setNz r
      return r
  | .dec =>
      setFlag ccV (v = top)
      setNz (v - 1)
      return v - 1
  | .inc =>
      setFlag ccV (v = top - 1)
      setNz (v + 1)
      return v + 1
  | .tst =>
      setFlag ccV false
      setNz v
      return v
  | .clr =>
      setFlag ccN false
      setFlag ccZ true
      setFlag ccV false
      setFlag ccC false
      return 0

def rmw8 (op : RmwOp) (v : Byte) : Exec σ Byte := rmw setNz8 op v

def rmw16 (op : RmwOp) (v : Word) : Exec σ Word := rmw setNz16 op v

def applyAlu8 (op : AluOp) (reg operand : Byte) : Exec σ Byte :=
  match op with
  | .sub => sub8 reg operand false
  | .cmp => do
      cmp8 reg operand
      return reg
  | .sbc => do sub8 reg operand (← getFlag ccC)
  | .and => logic8 (reg &&& operand)
  | .bit => do
      let _ ← logic8 (reg &&& operand)
      return reg
  | .ld => logic8 operand
  | .eor => logic8 (reg ^^^ operand)
  | .adc => do add8 reg operand (← getFlag ccC) true
  | .or => logic8 (reg ||| operand)
  | .add => add8 reg operand false true

def applyAlu16 (op : AluOp) (reg operand : Word) : Exec σ Word :=
  match op with
  | .sub => sub16 reg operand false
  | .cmp => do
      cmp16 reg operand
      return reg
  | .sbc => do sub16 reg operand (← getFlag ccC)
  | .and => logic16 (reg &&& operand)
  | .bit => do
      let _ ← logic16 (reg &&& operand)
      return reg
  | .ld => logic16 operand
  | .eor => logic16 (reg ^^^ operand)
  | .adc => do add16 reg operand (← getFlag ccC)
  | .or => logic16 (reg ||| operand)
  | .add => add16 reg operand false

/-! Interrupts. -/

def pushFullSet : Exec σ Unit := do
  setFlag ccE true
  push16 .system (← regs).pc
  push16 .system (← regs).u
  push16 .system (← regs).y
  push16 .system (← regs).x
  push8 .system (← regs).dp
  if ← native then
    push8 .system (← regs).f
    push8 .system (← regs).e
  push8 .system (← regs).b
  push8 .system (← regs).a
  push8 .system (← regs).cc

def pushPartialSet : Exec σ Unit := do
  setFlag ccE false
  push16 .system (← regs).pc
  push8 .system (← regs).cc

def enterInterrupt (vector : Word) (ccSetMask : Byte) (fullStack : Bool) :
    Exec σ Unit := do
  let skipPush := (← get).cwaiPushedPending
  modify fun c => { c with cwaiPushedPending := false }
  if !skipPush then
    if fullStack then pushFullSet else pushPartialSet
  modifyRegs fun r => { r with cc := r.cc ||| ccSetMask }
  let target ← read16 vector
  modifyRegs fun r => { r with pc := target }

/-- The two traps differ only in the MD bit they leave set. -/
def trap (mdBit : Byte) : Exec σ Unit := do
  modifyRegs fun r => { r with md := r.md ||| mdBit }
  enterInterrupt vecTrap (ccI ||| ccF) true
  modify fun c => { c with stopReason := .illegalOpcodeTrap }
  addCyclesEmNm 19 21

def illegalOpcodeTrap : Exec σ Unit := trap mdIllegal

def divisionByZeroTrap : Exec σ Unit := trap mdDivzero

def serviceInterrupts : Exec σ Bool := do
  let c ← get
  if c.lines.nmiPending then
    modify fun c => { c with
      lines := { c.lines with nmiPending := false }, waitSync := false }
    enterInterrupt vecNmi (ccI ||| ccF) true
    addCyclesEmNm 19 21
    return true
  else if c.lines.firqLine && !c.r.getFlag ccF then
    modify fun c => { c with waitSync := false }
    let full := c.r.md &&& mdFirqNative != 0
    enterInterrupt vecFirq (ccI ||| ccF) full
    if full then addCyclesEmNm 19 21 else addCyclesEmNm 10 8
    return true
  else if c.lines.irqLine && !c.r.getFlag ccI then
    modify fun c => { c with waitSync := false }
    enterInterrupt vecIrq ccI true
    addCyclesEmNm 19 21
    return true
  else
    return false

/-! Transfers between registers, block moves, bit operations and division. -/

def doTfrExg (postbyte : Byte) (isExg : Bool) : Exec σ Unit := do
  let src := postbyte.extractLsb' 4 4
  let dst := postbyte.extractLsb' 0 4
  let r ← regs
  let sv := r.getRegByCode src
  if isExg then
    let dv := r.getRegByCode dst
    modifyRegs fun r => (r.setRegByCode dst sv).setRegByCode src dv
  else
    modifyRegs fun r => r.setRegByCode dst sv

inductive TfmForm
  | incInc | decDec | incFix | fixInc
  deriving DecidableEq, Repr

def TfmForm.srcStep : TfmForm → Word
  | .incInc => 1
  | .decDec => -1
  | .incFix => 1
  | .fixInc => 0

def TfmForm.dstStep : TfmForm → Word
  | .incInc => 1
  | .decDec => -1
  | .incFix => 0
  | .fixInc => 1

/-- The loop of `do_tfm`: the pointers live in locals, and are written back,
with the count, after every byte.  The result says whether a request arrived
with bytes still to move. -/
def tfmLoop (form : TfmForm) (src dst : BitVec 4) :
    (count : Nat) → (sp dp : Word) → Exec σ Bool
  | 0, _, _ => return false
  | count + 1, sp, dp => do
      let v ← read8 sp
      write8 dp v
      let sp := sp + form.srcStep
      let dp := dp + form.dstStep
      addCycles 3
      modifyRegs fun r => r.setRegByCode src sp
      modifyRegs fun r => r.setRegByCode dst dp
      modifyRegs fun r => r.setW (BitVec.ofNat 16 count)
      let c ← get
      if count ≠ 0 ∧ c.lines.serviceable c.r then return true
      tfmLoop form src dst count sp dp

def doTfm (form : TfmForm) : Exec σ Unit := do
  let pb ← fetch8
  let src := pb.extractLsb' 4 4
  let dst := pb.extractLsb' 0 4
  let sp := (← regs).getRegByCode src
  let dp := (← regs).getRegByCode dst
  let count := (← regs).w
  addCycles 6
  let interrupted ← tfmLoop form src dst count.toNat sp dp
  if interrupted then
    modify fun c => { c with r := { c.r with pc := c.insnPc } }

inductive BitOp
  | band | biand | bor | bior | beor | bieor | ldbt | stbt
  deriving DecidableEq, Repr

/-- The register bit a BAND-family instruction leaves; STBT changes memory
instead. -/
def BitOp.result (op : BitOp) (rbit mbit : Bool) : Bool :=
  match op with
  | .band => rbit && mbit
  | .biand => rbit && !mbit
  | .bor => rbit || mbit
  | .bior => rbit || !mbit
  | .beor => rbit != mbit
  | .bieor => rbit != !mbit
  | .ldbt => mbit
  | .stbt => rbit

def setBit (v : Byte) (bit : Nat) (value : Bool) : Byte :=
  (v &&& ~~~(1#8 <<< bit)) ||| (if value then 1#8 <<< bit else 0)

def doBitbit (op : BitOp) : Exec σ Unit := do
  let pb ← fetch8
  let regSel := (pb.extractLsb' 6 2).toNat
  let membit := (pb.extractLsb' 3 3).toNat
  let regbit := (pb.extractLsb' 0 3).toNat
  let addr ← eaDirect
  let mem ← read8 addr
  let r ← regs
  let reg := if regSel = 1 then r.a else if regSel = 2 then r.b else r.cc
  let rbit := reg.getLsbD regbit
  match op with
  | .stbt =>
      write8 addr (setBit mem membit rbit)
      addCyclesEmNm 8 7
  | _ =>
      let value := setBit reg regbit (op.result rbit (mem.getLsbD membit))
      modifyRegs fun r =>
        if regSel = 1 then { r with a := value }
        else if regSel = 2 then { r with b := value }
        else { r with cc := value }
      addCyclesEmNm 7 6

def doDaa : Exec σ Unit := do
  let a := (← regs).a
  let lo := (a &&& 0x0F#8).toNat
  let hi := (a >>> 4).toNat
  let carryIn ← getFlag ccC
  let half ← getFlag ccH
  let low := if half || lo > 9 then 0x06#8 else 0#8
  let carryOut := carryIn || hi > 9 || (hi ≥ 9 && lo > 9)
  let correction := if carryOut then low ||| 0x60#8 else low
  let result := a + correction
  modifyRegs fun r => { r with a := result }
  setFlag ccC carryOut
  setNz8 result

/-- `/` and `%` of C++ round the quotient toward zero. -/
def doDivd (divisor : Byte) : Exec σ Unit := do
  if divisor = 0 then divisionByZeroTrap
  else
    let dividend := (← regs).d.toInt
    let quotient := dividend.tdiv divisor.toInt
    let remainder := dividend.tmod divisor.toInt
    modifyRegs fun r => { r with
      b := BitVec.ofInt 8 quotient, a := BitVec.ofInt 8 remainder }
    setFlag ccV (quotient < -128 || quotient > 127)
    setFlag ccC false
    setNz8 (BitVec.ofInt 8 quotient)

def doDivq (divisor : Word) : Exec σ Unit := do
  if divisor = 0 then divisionByZeroTrap
  else
    let dividend := (← regs).q.toInt
    let quotient := dividend.tdiv divisor.toInt
    let remainder := dividend.tmod divisor.toInt
    setD (BitVec.ofInt 16 quotient)
    setW (BitVec.ofInt 16 remainder)
    setFlag ccV (quotient < -32768 || quotient > 32767)
    setFlag ccC false
    setNz16 (BitVec.ofInt 16 quotient)

def doMuld (multiplier : Word) : Exec σ Unit := do
  let result := (← regs).d.toInt * multiplier.toInt
  modifyRegs fun r => r.setQ (BitVec.ofInt 32 result)
  setFlag ccN (result < 0)
  setFlag ccZ (result = 0)
  setFlag ccV false
  setFlag ccC false

end Pugputer.Hd6309
