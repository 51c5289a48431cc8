import Pugputer.Basic

namespace Pugputer.Hd6309

/-! Condition-code and mode-register bits. -/

def ccC : Byte := 0x01#8
def ccV : Byte := 0x02#8
def ccZ : Byte := 0x04#8
def ccN : Byte := 0x08#8
def ccI : Byte := 0x10#8
def ccH : Byte := 0x20#8
def ccF : Byte := 0x40#8
def ccE : Byte := 0x80#8

def mdNative : Byte := 0x01#8
def mdFirqNative : Byte := 0x02#8
def mdIllegal : Byte := 0x40#8
def mdDivzero : Byte := 0x80#8

def vecTrap : Word := 0xFFF0#16
def vecSwi3 : Word := 0xFFF2#16
def vecSwi2 : Word := 0xFFF4#16
def vecFirq : Word := 0xFFF6#16
def vecIrq : Word := 0xFFF8#16
def vecSwi : Word := 0xFFFA#16
def vecNmi : Word := 0xFFFC#16
def vecReset : Word := 0xFFFE#16

structure Regs where
  pc : Word := 0
  x : Word := 0
  y : Word := 0
  u : Word := 0
  s : Word := 0
  v : Word := 0
  a : Byte := 0
  b : Byte := 0
  dp : Byte := 0
  cc : Byte := 0
  e : Byte := 0
  f : Byte := 0
  md : Byte := 0
  deriving DecidableEq, Repr

namespace Regs

def d (r : Regs) : Word := word r.a r.b

def setD (r : Regs) (value : Word) : Regs :=
  { r with a := hiByte value, b := loByte value }

def w (r : Regs) : Word := word r.e r.f

def setW (r : Regs) (value : Word) : Regs :=
  { r with e := hiByte value, f := loByte value }

def q (r : Regs) : BitVec 32 := r.d ++ r.w

def setQ (r : Regs) (value : BitVec 32) : Regs :=
  (r.setD (value.extractLsb' 16 16)).setW (value.extractLsb' 0 16)

@[simp] theorem d_setD (r : Regs) (value : Word) : (r.setD value).d = value := by
  simp [setD, d]

@[simp] theorem w_setW (r : Regs) (value : Word) : (r.setW value).w = value := by
  simp [setW, w]

@[simp] theorem d_setW (r : Regs) (value : Word) : (r.setW value).d = r.d := rfl

@[simp] theorem w_setD (r : Regs) (value : Word) : (r.setD value).w = r.w := rfl

@[simp] theorem setW_setW (r : Regs) (first second : Word) :
    (r.setW first).setW second = r.setW second := rfl

@[simp] theorem setD_setD (r : Regs) (first second : Word) :
    (r.setD first).setD second = r.setD second := rfl

@[simp] theorem setW_w (r : Regs) : r.setW r.w = r := by
  cases r
  simp [setW, w]

@[simp] theorem setD_d (r : Regs) : r.setD r.d = r := by
  cases r
  simp [setD, d]

def native (r : Regs) : Bool := r.md &&& mdNative != 0

def getFlag (r : Regs) (bit : Byte) : Bool := r.cc &&& bit != 0

def setFlag (r : Regs) (bit : Byte) (value : Bool) : Regs :=
  { r with cc := if value then r.cc ||| bit else r.cc &&& ~~~bit }

theorem getFlag_setFlag (r : Regs) {bit : Byte} (value : Bool) (bitNe : bit ≠ 0#8) :
    (r.setFlag bit value).getFlag bit = value := by
  cases value with
  | true =>
      have kept : (r.cc ||| bit) &&& bit = bit := by
        ext i
        simp only [BitVec.getElem_and, BitVec.getElem_or]
        cases bit[i] <;> simp
      simp [setFlag, getFlag, kept, bitNe]
  | false =>
      have cleared : (r.cc &&& ~~~bit) &&& bit = 0 := by
        ext i
        simp
      simp [setFlag, getFlag, cleared]

/-- Flags are independent of each other. -/
theorem getFlag_setFlag_ne (r : Regs) {bit other : Byte} (value : Bool)
    (apart : bit &&& other = 0#8) :
    (r.setFlag bit value).getFlag other = r.getFlag other := by
  have bitwise : ∀ i, bit.getLsbD i = true → other.getLsbD i = false := by
    intro i set
    have clash := congrArg (BitVec.getLsbD · i) apart
    simpa [set] using clash
  have same : (r.setFlag bit value).cc &&& other = r.cc &&& other := by
    apply BitVec.eq_of_getLsbD_eq
    intro i _
    have apartHere := bitwise i
    cases value <;> cases here : bit.getLsbD i <;> simp_all [setFlag]
  rw [getFlag, getFlag, same]

section Fields

variable (r : Regs) (bit value : Byte) (wide : Word)

@[simp] theorem getFlag_a : ({ r with a := value } : Regs).getFlag bit = r.getFlag bit := rfl
@[simp] theorem getFlag_b : ({ r with b := value } : Regs).getFlag bit = r.getFlag bit := rfl
@[simp] theorem getFlag_x : ({ r with x := wide } : Regs).getFlag bit = r.getFlag bit := rfl
@[simp] theorem getFlag_y : ({ r with y := wide } : Regs).getFlag bit = r.getFlag bit := rfl
@[simp] theorem getFlag_u : ({ r with u := wide } : Regs).getFlag bit = r.getFlag bit := rfl

end Fields

theorem a_setFlag (r : Regs) (bit : Byte) (value : Bool) :
    (r.setFlag bit value).a = r.a := rfl

@[simp] theorem native_setFlag (r : Regs) (bit : Byte) (value : Bool) :
    (r.setFlag bit value).native = r.native := rfl

end Regs

inductive RmwOp
  | neg | com | lsr | ror | asr | asl | rol | dec | inc | tst | clr
  deriving DecidableEq, Repr

inductive AluOp
  | sub | cmp | sbc | and | bit | ld | eor | adc | or | add
  deriving DecidableEq, Repr

inductive StopReason
  | cycleBudget | breakpoint | illegalOpcodeTrap | sync | halted
  deriving DecidableEq, Repr

/-! The request inputs of the CPU: two level-sensitive lines and the NMI
latch set by each pulse. -/

structure Lines where
  irqLine : Bool := false
  firqLine : Bool := false
  nmiPending : Bool := false
  deriving DecidableEq, Repr

namespace Lines

/-- The condition under which a request is taken: NMI always, FIRQ and IRQ
unless their mask is set. -/
def serviceable (lines : Lines) (r : Regs) : Bool :=
  lines.nmiPending ||
    ((lines.firqLine && !r.getFlag ccF) || (lines.irqLine && !r.getFlag ccI))

end Lines

/-! The CPU owns no memory: every access goes through two callbacks.  A
callback may also raise or drop request lines on the CPU it was called from,
which is what `signal` says. -/

class Bus (σ : Type) where
  read : σ → Word → Byte × σ
  write : σ → Word → Byte → σ
  signal : σ → Lines → Lines := fun _ lines => lines

structure Cpu (σ : Type) where
  r : Regs
  bus : σ
  lines : Lines := {}
  waitSync : Bool := false
  halted : Bool := false
  cwaiPushedPending : Bool := false
  totalCycles : Nat := 0
  stopReason : StopReason := .cycleBudget
  cycles : Nat := 0
  insnPc : Word := 0
  breakpoints : List (Nat × Word) := []
  nextBpId : Nat := 0

abbrev Exec (σ : Type) := StateM (Cpu σ)

variable {σ : Type}

def regs : Exec σ Regs := fun c => (c.r, c)

def modifyRegs (change : Regs → Regs) : Exec σ Unit :=
  fun c => ((), { c with r := change c.r })

def addCycles (n : Nat) : Exec σ Unit :=
  fun c => ((), { c with cycles := c.cycles + n })

/-- Cycles that differ between emulation and native mode. -/
def addCyclesEmNm (em nm : Nat) : Exec σ Unit :=
  fun c => ((), { c with cycles := c.cycles + if c.r.native then nm else em })

def native : Exec σ Bool := fun c => (c.r.native, c)

def getFlag (bit : Byte) : Exec σ Bool := fun c => (c.r.getFlag bit, c)

def setFlag (bit : Byte) (value : Bool) : Exec σ Unit :=
  modifyRegs fun r => r.setFlag bit value

@[simp] theorem exec_bind (first : Exec σ α) (next : α → Exec σ β) (c : Cpu σ) :
    (first >>= next) c = next (first c).1 (first c).2 := rfl

@[simp] theorem exec_pure (value : α) (c : Cpu σ) :
    (pure value : Exec σ α) c = (value, c) := rfl

@[simp] theorem exec_get (c : Cpu σ) : (get : Exec σ (Cpu σ)) c = (c, c) := rfl

@[simp] theorem exec_modify (change : Cpu σ → Cpu σ) (c : Cpu σ) :
    (modify change : Exec σ Unit) c = ((), change c) := rfl

@[simp] theorem exec_ite (condition : Prop) [Decidable condition]
    (yes no : Exec σ α) (c : Cpu σ) :
    (if condition then yes else no) c = if condition then yes c else no c := by
  split <;> rfl

@[simp] theorem regs_exec (c : Cpu σ) : regs c = (c.r, c) := rfl

@[simp] theorem native_exec (c : Cpu σ) : native c = (c.r.native, c) := rfl

@[simp] theorem modifyRegs_exec (change : Regs → Regs) (c : Cpu σ) :
    modifyRegs change c = ((), { c with r := change c.r }) := rfl

@[simp] theorem setFlag_exec (bit : Byte) (value : Bool) (c : Cpu σ) :
    setFlag bit value c = ((), { c with r := c.r.setFlag bit value }) := rfl

section Memory

variable [Bus σ]

def read8 (addr : Word) : Exec σ Byte := fun c =>
  let (value, bus) := Bus.read c.bus addr
  (value, { c with bus, lines := Bus.signal bus c.lines })

def write8 (addr : Word) (value : Byte) : Exec σ Unit := fun c =>
  let bus := Bus.write c.bus addr value
  ((), { c with bus, lines := Bus.signal bus c.lines })

def read16 (addr : Word) : Exec σ Word := do
  let hi ← read8 addr
  let lo ← read8 (addr + 1)
  return word hi lo

def write16 (addr value : Word) : Exec σ Unit := do
  write8 addr (hiByte value)
  write8 (addr + 1) (loByte value)

def fetch8 : Exec σ Byte := do
  let value ← read8 (← regs).pc
  modifyRegs fun r => { r with pc := r.pc + 1 }
  return value

def fetch16 : Exec σ Word := do
  let hi ← fetch8
  let lo ← fetch8
  return word hi lo

end Memory

end Pugputer.Hd6309
