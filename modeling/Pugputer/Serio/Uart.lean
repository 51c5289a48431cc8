import Pugputer.Basic

namespace Pugputer.Serio

/-! The R65C51 UART as the simulator implements it. -/

structure Uart where
  command : Byte := 0
  control : Byte := 0
  irqFlag : Bool := false
  dsrReady : Bool := true
  dcdDetected : Bool := true
  overrun : Bool := false
  framingError : Bool := false
  parityError : Bool := false
  tdre : Bool := true
  rdrf : Bool := false
  rxData : Byte := 0
  txActive : Bool := false
  txShiftByte : Byte := 0
  txCyclesRemaining : Int := 0
  rxPending : List Byte := []
  rxActive : Bool := false
  rxShiftByte : Byte := 0
  rxCyclesRemaining : Int := 0
  txQueue : List Byte := []
  deriving DecidableEq, Repr

namespace Uart

def txIrqEnabled (u : Uart) : Bool :=
  u.command.getLsbD 0 && (u.command >>> 2) &&& 3#8 == 1#8

def rxIrqEnabled (u : Uart) : Bool :=
  u.command.getLsbD 0 && !u.command.getLsbD 1

def statusRegister (u : Uart) : Byte :=
  (if u.irqFlag then 0x80#8 else 0#8) ||| (if u.dsrReady then 0#8 else 0x40#8) |||
  (if u.dcdDetected then 0#8 else 0x20#8) ||| (if u.tdre then 0x10#8 else 0#8) |||
  (if u.rdrf then 0x08#8 else 0#8) ||| (if u.overrun then 0x04#8 else 0#8) |||
  (if u.framingError then 0x02#8 else 0#8) ||| (if u.parityError then 0x01#8 else 0#8)

def read (u : Uart) (offset : Word) : Byte × Uart :=
  match (offset &&& 3#16).toNat with
  | 0 =>
      (u.rxData, { u with
        rdrf := false, overrun := false, framingError := false, parityError := false })
  | 1 => (u.statusRegister, { u with irqFlag := false })
  | 2 => (u.command, u)
  | _ => (u.control, u)

/-! `cyclesPerChar control command` stands for `cycles_per_char`, whose value
comes out of floating-point arithmetic on the clock and those two registers. -/

variable (cyclesPerChar : Byte → Byte → Nat)

def write (u : Uart) (offset : Word) (value : Byte) : Uart :=
  match (offset &&& 3#16).toNat with
  | 0 =>
      { u with
        txShiftByte := value
        txActive := true
        txCyclesRemaining := cyclesPerChar u.control u.command
        tdre := false }
  | 1 => { u with command := u.command &&& 0xE0#8, overrun := false }
  | 2 =>
      let u := { u with command := value }
      { u with irqFlag :=
          u.irqFlag || (u.tdre && u.txIrqEnabled) || (u.rdrf && u.rxIrqEnabled) }
  | _ => { u with control := value }

def reset (u : Uart) : Uart :=
  { dsrReady := u.dsrReady
    dcdDetected := u.dcdDetected
    txShiftByte := u.txShiftByte
    rxShiftByte := u.rxShiftByte }

def tickTx (u : Uart) (cpuCycles : Nat) : Uart :=
  if u.txActive then
    let u := { u with txCyclesRemaining := u.txCyclesRemaining - cpuCycles }
    if u.txCyclesRemaining ≤ 0 then
      { u with
        txActive := false
        tdre := true
        txQueue := u.txQueue ++ [u.txShiftByte]
        irqFlag := u.irqFlag || u.txIrqEnabled }
    else u
  else u

/-- DTR gates only the start of a character. -/
def startRx (u : Uart) : Uart :=
  match u.rxPending with
  | next :: rest =>
      if !u.rxActive && u.command.getLsbD 0 then
        { u with
          rxActive := true
          rxShiftByte := next
          rxPending := rest
          rxCyclesRemaining := cyclesPerChar u.control u.command }
      else u
  | [] => u

def tickRx (u : Uart) (cpuCycles : Nat) : Uart :=
  if u.rxActive then
    let u := { u with rxCyclesRemaining := u.rxCyclesRemaining - cpuCycles }
    if u.rxCyclesRemaining ≤ 0 then
      let u := { u with rxActive := false }
      if u.rdrf then { u with overrun := true }
      else
        { u with
          rxData := u.rxShiftByte
          rdrf := true
          irqFlag := u.irqFlag || u.rxIrqEnabled }
    else u
  else u

def tick (u : Uart) (cpuCycles : Nat) : Uart :=
  (startRx cyclesPerChar (u.tickTx cpuCycles)).tickRx cpuCycles

def rxEnqueue (u : Uart) (byte : Byte) : Bool × Uart :=
  if u.rxPending.length ≥ 65536 then (false, u)
  else (true, { u with rxPending := u.rxPending ++ [byte] })

private theorem status_bits : ∀ irq dsr dcd tdre rdrf overrun framing parity : Bool,
    let value : Byte :=
      (if irq then 0x80#8 else 0#8) ||| (if dsr then 0#8 else 0x40#8) |||
      (if dcd then 0#8 else 0x20#8) ||| (if tdre then 0x10#8 else 0#8) |||
      (if rdrf then 0x08#8 else 0#8) ||| (if overrun then 0x04#8 else 0#8) |||
      (if framing then 0x02#8 else 0#8) ||| (if parity then 0x01#8 else 0#8)
    (value &&& 0x80#8 ≠ 0 ↔ irq = true) ∧ (value &&& 0x10#8 ≠ 0 ↔ tdre = true) ∧
      (value &&& 0x08#8 ≠ 0 ↔ rdrf = true) ∧
      (value &&& 0x07#8 ≠ 0 ↔ overrun = true ∨ framing = true ∨ parity = true) := by
  decide

theorem statusRegister_bits (u : Uart) :
    (u.statusRegister &&& 0x80#8 ≠ 0 ↔ u.irqFlag = true) ∧
      (u.statusRegister &&& 0x10#8 ≠ 0 ↔ u.tdre = true) ∧
      (u.statusRegister &&& 0x08#8 ≠ 0 ↔ u.rdrf = true) ∧
      (u.statusRegister &&& 0x07#8 ≠ 0 ↔
        u.overrun = true ∨ u.framingError = true ∨ u.parityError = true) :=
  status_bits ..

/-! The chip at each of its addresses. -/

def utDat : Word := 0
def utSta : Word := 1
def utCmd : Word := 2
def utCtl : Word := 3

@[simp] theorem read_utDat (u : Uart) :
    u.read utDat = (u.rxData, { u with
      rdrf := false, overrun := false, framingError := false, parityError := false }) := rfl

@[simp] theorem read_utSta (u : Uart) :
    u.read utSta = (u.statusRegister, { u with irqFlag := false }) := rfl

@[simp] theorem write_utDat (u : Uart) (value : Byte) :
    u.write cyclesPerChar utDat value = { u with
      txShiftByte := value
      txActive := true
      txCyclesRemaining := cyclesPerChar u.control u.command
      tdre := false } := rfl

@[simp] theorem write_utCmd (u : Uart) (value : Byte) :
    u.write cyclesPerChar utCmd value = { u with
      command := value
      irqFlag := u.irqFlag || (u.tdre && ({ u with command := value } : Uart).txIrqEnabled) ||
        (u.rdrf && ({ u with command := value } : Uart).rxIrqEnabled) } := rfl

@[simp] theorem write_utCtl (u : Uart) (value : Byte) :
    u.write cyclesPerChar utCtl value = { u with control := value } := rfl

/-! What time, the line and the host can do to the chip between two accesses. -/

/-- The transmitter is either empty or shifting, and errors belong to a character
that waits to be read. -/
structure Sound (u : Uart) : Prop where
  tdre : u.tdre = !u.txActive
  errors : u.overrun = true ∨ u.framingError = true ∨ u.parityError = true → u.rdrf = true

/-- Bounds on a change of the chip that no access of the CPU made. -/
structure Drifts (u u' : Uart) : Prop where
  command : u'.command = u.command
  sound : u.Sound → u'.Sound
  irq : u.irqFlag = true → u'.irqFlag = true
  tdre : u.tdre = true → u'.tdre = true
  sends : u.txIrqEnabled = true → u.txActive = true ∨ u.irqFlag = true →
    u'.txActive = true ∨ u'.irqFlag = true
  receives : u.rxIrqEnabled = true → u'.rdrf = true → u.rdrf = true ∨ u'.irqFlag = true

namespace Drifts

theorem refl (u : Uart) : u.Drifts u :=
  ⟨rfl, id, id, id, fun _ => id, fun _ => Or.inl⟩

theorem trans {u v w : Uart} (first : u.Drifts v) (second : v.Drifts w) : u.Drifts w where
  command := second.command.trans first.command
  sound := second.sound ∘ first.sound
  irq := second.irq ∘ first.irq
  tdre := second.tdre ∘ first.tdre
  sends enabled waiting := by
    have stillEnabled : v.txIrqEnabled = true := by
      rw [← enabled, txIrqEnabled, txIrqEnabled, first.command]
    exact second.sends stillEnabled (first.sends enabled waiting)
  receives enabled full := by
    have stillEnabled : v.rxIrqEnabled = true := by
      rw [← enabled, rxIrqEnabled, rxIrqEnabled, first.command]
    rcases second.receives stillEnabled full with earlier | latched
    · rcases first.receives enabled earlier with earliest | latched
      · exact .inl earliest
      · exact .inr (second.irq latched)
    · exact .inr latched

end Drifts

theorem tickTx_drifts (u : Uart) (cpuCycles : Nat) : u.Drifts (u.tickTx cpuCycles) := by
  unfold tickTx
  split
  · rename_i active
    dsimp only
    split
    · exact {
        command := rfl
        sound := fun sound => ⟨rfl, sound.errors⟩
        irq := fun latched => by simp [latched]
        tdre := fun _ => rfl
        sends := fun enabled _ => .inr ((Bool.or_eq_true _ _).mpr (.inr enabled))
        receives := fun _ => .inl }
    · exact ⟨rfl, fun sound => ⟨sound.tdre, sound.errors⟩, id, id, fun _ => id,
        fun _ => .inl⟩
  · exact .refl u

theorem startRx_drifts (u : Uart) : u.Drifts (u.startRx cyclesPerChar) := by
  unfold startRx
  split
  · split
    · exact ⟨rfl, fun sound => ⟨sound.tdre, sound.errors⟩, id, id, fun _ => id,
        fun _ => .inl⟩
    · exact .refl u
  · exact .refl u

theorem tickRx_drifts (u : Uart) (cpuCycles : Nat) : u.Drifts (u.tickRx cpuCycles) := by
  unfold tickRx
  split
  · dsimp only
    split
    · split
      · rename_i full
        exact ⟨rfl, fun sound => ⟨sound.tdre, fun _ => full⟩, id, id, fun _ => id,
          fun _ => .inl⟩
      · exact {
          command := rfl
          sound := fun sound => ⟨sound.tdre, fun _ => rfl⟩
          irq := fun latched => by simp [latched]
          tdre := id
          sends := fun _ waiting => by
            rcases waiting with active | latched
            · exact .inl active
            · exact .inr (by simp [latched])
          receives := fun enabled _ => .inr ((Bool.or_eq_true _ _).mpr (.inr enabled)) }
    · exact ⟨rfl, fun sound => ⟨sound.tdre, sound.errors⟩, id, id, fun _ => id,
        fun _ => .inl⟩
  · exact .refl u

theorem tick_drifts (u : Uart) (cpuCycles : Nat) :
    u.Drifts (u.tick cyclesPerChar cpuCycles) :=
  ((u.tickTx_drifts cpuCycles).trans (startRx_drifts cyclesPerChar _)).trans
    (tickRx_drifts _ cpuCycles)

theorem rxEnqueue_drifts (u : Uart) (byte : Byte) : u.Drifts (u.rxEnqueue byte).2 := by
  unfold rxEnqueue
  split
  · exact .refl u
  · exact ⟨rfl, fun sound => ⟨sound.tdre, sound.errors⟩, id, id, fun _ => id,
      fun _ => .inl⟩

end Uart

end Pugputer.Serio
