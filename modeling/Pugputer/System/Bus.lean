import Pugputer.Hd6309.Step
import Pugputer.Sd.Card
import Pugputer.Serio.Uart

namespace Pugputer.System

open Hd6309 (Bus Cpu Lines)
open Sd (SdCard)
open Serio (Uart)

/-! The system bus: banked RAM, and devices mapped over it. -/

inductive IrqLine
  | none | irq | firq | nmi
  deriving DecidableEq, Repr

/-- The devices of a machine.  Those besides the UART, the card, the ROM and the bank
registers are known by a number. -/
inductive Device
  | rom | uart | sdcard | bankRegisters
  | other (index : Nat)
  deriving DecidableEq, Repr

structure DeviceMapping where
  base : Word
  size : Nat
  device : Device
  irqLine : IrqLine := .none
  deriving DecidableEq, Repr

class IDevice (δ : Type) where
  read : δ → Word → Byte × δ
  write : δ → Word → Byte → δ
  reset : δ → δ
  tick : δ → Nat → δ := fun device _ => device
  irqAsserted : δ → Bool := fun _ => false

structure RomDevice where
  size : Nat
  data : Nat → Byte

namespace RomDevice

def read (rom : RomDevice) (offset : Word) : Byte :=
  if offset.toNat < rom.size then rom.data offset.toNat else 0xFF#8

end RomDevice

structure Board (δ : Type) where
  ramPages : Nat
  ram : Nat → Byte
  bankRegs : Fin 4 → Byte := fun bank => BitVec.ofNat 8 bank
  /-- In the order of registration. -/
  devices : List DeviceMapping
  rom : RomDevice
  uart : Uart := {}
  cyclesPerChar : Byte → Byte → Nat
  sdcard : SdCard := .absent
  others : Nat → δ
  nmiPrev : Bool := false

namespace Board

variable {δ : Type} [IDevice δ]

def covers (m : DeviceMapping) (addr : Word) : Bool :=
  decide (m.base.toNat ≤ addr.toNat) && decide (addr.toNat < m.base.toNat + m.size)

/-- The last-registered mapping wins on overlap. -/
def findMapping (s : Board δ) (addr : Word) : Option DeviceMapping :=
  s.devices.reverse.find? (covers · addr)

/-- The bank of an address: its top two bits. -/
def bank (addr : Word) : Fin 4 := ⟨addr.toNat / 16384, by omega⟩

/-- The index in RAM an address has through the banks, if its page is installed. -/
def physByte (s : Board δ) (addr : Word) : Option Nat :=
  let page := (s.bankRegs (bank addr)).toNat
  if page < s.ramPages then some (page * 16384 + addr.toNat % 16384) else none

/-- What RAM delivers; an uninstalled page floats high. -/
def ramByte (s : Board δ) (addr : Word) : Byte :=
  match s.physByte addr with
  | some index => s.ram index
  | none => 0xFF#8

def readDevice (s : Board δ) (device : Device) (offset : Word) : Byte × Board δ :=
  match device with
  | .rom => (s.rom.read offset, s)
  | .uart =>
      let (value, uart) := s.uart.read offset
      (value, { s with uart })
  | .sdcard =>
      let (value, sdcard) := s.sdcard.read offset
      (value, { s with sdcard })
  | .bankRegisters => (0xFF#8, s)
  | .other index =>
      let (value, other) := IDevice.read (s.others index) offset
      (value, { s with others := Function.update s.others index other })

def writeDevice (s : Board δ) (device : Device) (offset : Word) (value : Byte) : Board δ :=
  match device with
  | .rom => s
  | .uart => { s with uart := s.uart.write s.cyclesPerChar offset value }
  | .sdcard => { s with sdcard := s.sdcard.write offset value }
  | .bankRegisters =>
      { s with bankRegs := Function.update s.bankRegs ⟨offset.toNat % 4, by omega⟩ value }
  | .other index =>
      { s with others :=
          Function.update s.others index (IDevice.write (s.others index) offset value) }

def read8 (s : Board δ) (addr : Word) : Byte × Board δ :=
  match s.findMapping addr with
  | some m => s.readDevice m.device (addr - m.base)
  | none => (s.ramByte addr, s)

def write8 (s : Board δ) (addr : Word) (value : Byte) : Board δ :=
  match s.findMapping addr with
  | some m => s.writeDevice m.device (addr - m.base) value
  | none =>
      match s.physByte addr with
      | some index => { s with ram := Function.update s.ram index value }
      | none => s

instance : Bus (Board δ) where
  read := read8
  write := write8

def resetDevice (s : Board δ) (device : Device) : Board δ :=
  match device with
  | .rom | .bankRegisters => s
  | .uart => { s with uart := s.uart.reset }
  | .sdcard => { s with sdcard := s.sdcard.reset }
  | .other index =>
      { s with others := Function.update s.others index (IDevice.reset (s.others index)) }

/-- The devices of a list of mappings, in order. -/
def resetDevices (s : Board δ) (mappings : List DeviceMapping) : Board δ :=
  mappings.foldl (fun bus mapping => bus.resetDevice mapping.device) s

def tickDevice (s : Board δ) (cpuCycles : Nat) (device : Device) : Board δ :=
  match device with
  | .rom | .bankRegisters | .sdcard => s
  | .uart => { s with uart := s.uart.tick s.cyclesPerChar cpuCycles }
  | .other index =>
      { s with others :=
          Function.update s.others index (IDevice.tick (s.others index) cpuCycles) }

def tickDevices (s : Board δ) (cpuCycles : Nat) (mappings : List DeviceMapping) : Board δ :=
  mappings.foldl (fun bus mapping => bus.tickDevice cpuCycles mapping.device) s

def irqAsserted (s : Board δ) (device : Device) : Bool :=
  match device with
  | .rom | .bankRegisters | .sdcard => false
  | .uart => s.uart.irqFlag
  | .other index => IDevice.irqAsserted (s.others index)

def lineAsserted (s : Board δ) (line : IrqLine) : Bool :=
  s.devices.any fun m => m.irqLine == line && s.irqAsserted m.device

end Board

/-- The CPU and the bus it is on. -/
abbrev Machine (δ : Type) := Cpu (Board δ)

namespace Machine

variable {δ : Type} [IDevice δ]

/-- `CPU::reset`: the PC comes through the bus as it stands. -/
def resetCpu (m : Machine δ) : Machine δ :=
  let (pc, m) := Hd6309.read16 Hd6309.vecReset m
  { m with
    r := { cc := Hd6309.ccI ||| Hd6309.ccF, md := 0, pc }
    lines := {}
    waitSync := false
    halted := false
    cwaiPushedPending := false
    totalCycles := 0
    stopReason := .cycleBudget }

/-- `SystemBus::reset`. -/
def reset (m : Machine δ) : Machine δ :=
  let m := m.resetCpu
  let bus := { m.bus with bankRegs := fun bank => BitVec.ofNat 8 bank }
  { m with bus := { bus.resetDevices bus.devices with nmiPrev := false } }

def updateIrqLines (m : Machine δ) : Machine δ :=
  let nmi := m.bus.lineAsserted .nmi
  { m with
    lines := {
      irqLine := m.bus.lineAsserted .irq
      firqLine := m.bus.lineAsserted .firq
      nmiPending := m.lines.nmiPending || (nmi && !m.bus.nmiPrev) }
    bus := { m.bus with nmiPrev := nmi } }

/-- `SystemBus::step`. -/
def step (m : Machine δ) : Machine δ :=
  let (cycles, m) := Hd6309.step m
  updateIrqLines { m with bus := m.bus.tickDevices cycles m.bus.devices }

/-- What happens to a machine: it steps, or its host acts on a device. -/
inductive Event
  | step
  | reset
  | rxEnqueue (byte : Byte)
  | setDsr (ready : Bool)
  | setDcd (detected : Bool)
  | setCardPresent (present : Bool)
  | setStuckBusy (stuck : Bool)
  | failNextReads (n : Int)
  | failNextWrites (n : Int)
  | failReadsAfter (n : Int)

def next (m : Machine δ) : Event → Option (Machine δ)
  | .step => some m.step
  | .reset => some m.reset
  | .rxEnqueue byte => some { m with bus.uart := (m.bus.uart.rxEnqueue byte).2 }
  | .setDsr ready => some { m with bus.uart.dsrReady := ready }
  | .setDcd detected => some { m with bus.uart.dcdDetected := detected }
  | .setCardPresent present => some { m with bus.sdcard.cardPresent := present }
  | .setStuckBusy stuck => some { m with bus.sdcard.stuckBusy := stuck }
  | .failNextReads n => some { m with bus.sdcard.failReads := n }
  | .failNextWrites n => some { m with bus.sdcard.failWrites := n }
  | .failReadsAfter n => some { m with bus.sdcard.failReadsAfter := n }

end Machine

end Pugputer.System
