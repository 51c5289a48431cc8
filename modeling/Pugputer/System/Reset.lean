import Pugputer.Lib.Run
import Pugputer.Sd.Transfer
import Pugputer.System.Bus

namespace Pugputer.System

open Sd (SdCard)
open Serio (Uart)

/-! What a reset forgets, and what it does not. -/

/-- A read of the chip changes nothing that a reset keeps. -/
theorem uart_read_reset (u : Uart) (offset : Word) : (u.read offset).2.reset = u.reset := by
  unfold Uart.read
  split <;> rfl

theorem uart_reset_reset (u : Uart) : u.reset.reset = u.reset := rfl

theorem sdcard_read_reset (d : SdCard) (offset : Word) : (d.read offset).2.reset = d.reset := by
  unfold SdCard.read SdCard.advance
  split
  · rfl
  · rfl
  · dsimp only
    split <;> rfl
  · rfl
  · rfl

theorem sdcard_reset_reset (d : SdCard) : d.reset.reset = d.reset := rfl

theorem word_inj {hi lo hi' lo' : Byte} : word hi lo = word hi' lo' ↔ hi = hi' ∧ lo = lo' := by
  constructor
  · intro same
    have high := congrArg hiByte same
    have low := congrArg loByte same
    rw [hiByte_word, hiByte_word] at high
    rw [loByte_word, loByte_word] at low
    exact ⟨high, low⟩
  · rintro ⟨rfl, rfl⟩
    rfl

namespace Board

variable {δ : Type} [IDevice δ]

def Maps (s : Board δ) (device : Device) : Prop := ∃ m ∈ s.devices, m.device = device

/-- What a read through the bus leaves as it was, devices up to a reset. -/
structure Touched (s s' : Board δ) : Prop where
  devices : s'.devices = s.devices
  rom : s'.rom = s.rom
  uart : s'.uart.reset = s.uart.reset
  sdcard : s'.sdcard.reset = s.sdcard.reset

omit [IDevice δ] in
theorem Touched.trans {s t u : Board δ} (first : s.Touched t) (second : t.Touched u) :
    s.Touched u where
  devices := second.devices.trans first.devices
  rom := second.rom.trans first.rom
  uart := second.uart.trans first.uart
  sdcard := second.sdcard.trans first.sdcard

theorem read8_touched (s : Board δ) (addr : Word) : s.Touched (s.read8 addr).2 := by
  unfold read8
  split
  · unfold readDevice
    split
    · exact ⟨rfl, rfl, rfl, rfl⟩
    · exact ⟨rfl, rfl, uart_read_reset .., rfl⟩
    · exact ⟨rfl, rfl, rfl, sdcard_read_reset ..⟩
    · exact ⟨rfl, rfl, rfl, rfl⟩
    · exact ⟨rfl, rfl, rfl, rfl⟩
  · exact ⟨rfl, rfl, rfl, rfl⟩

/-- The source of a byte holds the same in two states of a machine: a ROM and the bank
registers always do, RAM through the bank selected, a device as it stands. -/
def SameByte (s t : Board δ) (addr : Word) : Prop :=
  match s.findMapping addr with
  | none => s.ramByte addr = t.ramByte addr
  | some m =>
      match m.device with
      | .rom | .bankRegisters => True
      | .uart => (s.uart.read (addr - m.base)).1 = (t.uart.read (addr - m.base)).1
      | .sdcard => (s.sdcard.read (addr - m.base)).1 = (t.sdcard.read (addr - m.base)).1
      | .other index =>
          (IDevice.read (s.others index) (addr - m.base)).1 =
            (IDevice.read (t.others index) (addr - m.base)).1

theorem sameByte_iff {s t : Board δ} (addr : Word) (devices : s.devices = t.devices)
    (rom : s.rom = t.rom) : (s.read8 addr).1 = (t.read8 addr).1 ↔ s.SameByte t addr := by
  have found : t.findMapping addr = s.findMapping addr := by
    rw [findMapping, findMapping, devices]
  rw [read8, read8, SameByte, found]
  cases s.findMapping addr with
  | none => rfl
  | some m =>
      dsimp only
      cases m.device with
      | rom => simp only [readDevice, rom]
      | uart => rfl
      | sdcard => rfl
      | bankRegisters => simp only [readDevice]
      | other index => rfl

/-- The two bytes of the reset vector come from sources that hold the same. -/
def SameVector (s t : Board δ) : Prop :=
  s.SameByte t Hd6309.vecReset ∧
    (s.read8 Hd6309.vecReset).2.SameByte (t.read8 Hd6309.vecReset).2 (Hd6309.vecReset + 1)

/-- A device mapped twice is reset twice, which does no more than once. -/
theorem resetDevices_uart (mappings : List DeviceMapping) (s : Board δ) :
    ((s.resetDevices mappings).uart = s.uart ∨ (s.resetDevices mappings).uart = s.uart.reset) ∧
      ((∃ m ∈ mappings, m.device = .uart) →
        (s.resetDevices mappings).uart = s.uart.reset) := by
  induction mappings generalizing s with
  | nil => exact ⟨.inl rfl, fun ⟨_, member, _⟩ => absurd member (by simp)⟩
  | cons m rest ih =>
      obtain ⟨either, mapped⟩ := ih (s.resetDevice m.device)
      rw [resetDevices, List.foldl_cons, ← resetDevices]
      by_cases here : m.device = .uart
      · have once : (s.resetDevice m.device).uart = s.uart.reset := by rw [here]; rfl
        rw [once, uart_reset_reset, or_self] at either
        exact ⟨.inr either, fun _ => either⟩
      · have kept : (s.resetDevice m.device).uart = s.uart := by
          cases device : m.device <;> first | rfl | exact absurd device here
        rw [kept] at either mapped
        refine ⟨either, fun ⟨found, member, isUart⟩ => ?_⟩
        rcases List.mem_cons.mp member with rfl | later
        · exact absurd isUart here
        · exact mapped ⟨found, later, isUart⟩

theorem resetDevices_sdcard (mappings : List DeviceMapping) (s : Board δ) :
    ((s.resetDevices mappings).sdcard = s.sdcard ∨
        (s.resetDevices mappings).sdcard = s.sdcard.reset) ∧
      ((∃ m ∈ mappings, m.device = .sdcard) →
        (s.resetDevices mappings).sdcard = s.sdcard.reset) := by
  induction mappings generalizing s with
  | nil => exact ⟨.inl rfl, fun ⟨_, member, _⟩ => absurd member (by simp)⟩
  | cons m rest ih =>
      obtain ⟨either, mapped⟩ := ih (s.resetDevice m.device)
      rw [resetDevices, List.foldl_cons, ← resetDevices]
      by_cases here : m.device = .sdcard
      · have once : (s.resetDevice m.device).sdcard = s.sdcard.reset := by rw [here]; rfl
        rw [once, sdcard_reset_reset, or_self] at either
        exact ⟨.inr either, fun _ => either⟩
      · have kept : (s.resetDevice m.device).sdcard = s.sdcard := by
          cases device : m.device <;> first | rfl | exact absurd device here
        rw [kept] at either mapped
        refine ⟨either, fun ⟨found, member, isCard⟩ => ?_⟩
        rcases List.mem_cons.mp member with rfl | later
        · exact absurd isCard here
        · exact mapped ⟨found, later, isCard⟩

theorem resetDevices_bankRegs (mappings : List DeviceMapping) (s : Board δ) :
    (s.resetDevices mappings).bankRegs = s.bankRegs := by
  induction mappings generalizing s with
  | nil => rfl
  | cons m rest ih =>
      rw [resetDevices, List.foldl_cons, ← resetDevices, ih]
      cases m.device <;> rfl

theorem resetDevices_devices (mappings : List DeviceMapping) (s : Board δ) :
    (s.resetDevices mappings).devices = s.devices := by
  induction mappings generalizing s with
  | nil => rfl
  | cons m rest ih =>
      rw [resetDevices, List.foldl_cons, ← resetDevices, ih]
      cases m.device <;> rfl

end Board

/-- What two states of one machine have in common: the mappings, the RAM, the ROM, the
disk image and what the host drives. -/
structure Same {δ : Type} (s t : Board δ) : Prop where
  devices : s.devices = t.devices
  ramPages : s.ramPages = t.ramPages
  ram : s.ram = t.ram
  rom : s.rom = t.rom
  cyclesPerChar : s.cyclesPerChar = t.cyclesPerChar
  file : s.sdcard.file = t.sdcard.file
  cardPresent : s.sdcard.cardPresent = t.sdcard.cardPresent
  stuckBusy : s.sdcard.stuckBusy = t.sdcard.stuckBusy
  failReads : s.sdcard.failReads = t.sdcard.failReads
  failWrites : s.sdcard.failWrites = t.sdcard.failWrites
  failReadsAfter : s.sdcard.failReadsAfter = t.sdcard.failReadsAfter
  dsrReady : s.uart.dsrReady = t.uart.dsrReady
  dcdDetected : s.uart.dcdDetected = t.uart.dcdDetected

/-- The CPU, the bank registers and the readable registers of the UART and the card
are the same. -/
structure Agree {δ : Type} (m n : Machine δ) : Prop where
  r : m.r = n.r
  lines : m.lines = n.lines
  waitSync : m.waitSync = n.waitSync
  halted : m.halted = n.halted
  cwaiPushedPending : m.cwaiPushedPending = n.cwaiPushedPending
  totalCycles : m.totalCycles = n.totalCycles
  stopReason : m.stopReason = n.stopReason
  bankRegs : m.bus.bankRegs = n.bus.bankRegs
  uart : m.bus.Maps .uart → ∀ offset, (m.bus.uart.read offset).1 = (n.bus.uart.read offset).1
  sdcard : m.bus.Maps .sdcard →
    ∀ offset, (m.bus.sdcard.read offset).1 = (n.bus.sdcard.read offset).1

/-- The registers of a card after a reset tell the ERROR bit and what the host drives. -/
theorem sdcard_reset_read {d e : SdCard} (file : d.file = e.file)
    (cardPresent : d.cardPresent = e.cardPresent) (stuckBusy : d.stuckBusy = e.stuckBusy) :
    (∀ offset, (d.reset.read offset).1 = (e.reset.read offset).1) ↔
      d.lastError = e.lastError := by
  constructor
  · intro same
    have status := same 3
    rw [SdCard.read_status, SdCard.read_status] at status
    have error := SdCard.status_error d.reset
    rw [show d.reset.status = e.reset.status from status, SdCard.status_error] at error
    have bits : e.lastError = false ↔ d.lastError = false := error
    cases dBit : d.lastError <;> cases eBit : e.lastError <;> simp_all
  · intro lastError offset
    have status : d.reset.status = e.reset.status := by
      simp only [SdCard.status, SdCard.reset, file, cardPresent, stuckBusy, lastError]
      congr
    unfold SdCard.read
    split
    · rfl
    · rfl
    · rfl
    · exact status
    · rfl

theorem uart_reset_read {u v : Uart} (dsrReady : u.dsrReady = v.dsrReady)
    (dcdDetected : u.dcdDetected = v.dcdDetected) (offset : Word) :
    (u.reset.read offset).1 = (v.reset.read offset).1 := by
  unfold Uart.read
  split
  · rfl
  · simp only [Uart.statusRegister, Uart.reset, dsrReady, dcdDetected]
    congr
  · rfl
  · rfl

namespace Machine

variable {δ : Type} [IDevice δ]

/-- The bus once the reset has fetched the vector from it. -/
def fetched (m : Machine δ) : Board δ :=
  ((m.bus.read8 Hd6309.vecReset).2.read8 (Hd6309.vecReset + 1)).2

theorem fetched_touched (m : Machine δ) : m.bus.Touched m.fetched :=
  (Board.read8_touched ..).trans (Board.read8_touched ..)

theorem reset_pc (m : Machine δ) :
    m.reset.r.pc = word (m.bus.read8 Hd6309.vecReset).1
      ((m.bus.read8 Hd6309.vecReset).2.read8 (Hd6309.vecReset + 1)).1 := rfl

theorem reset_bus (m : Machine δ) :
    m.reset.bus = { ({ m.fetched with bankRegs := fun bank => BitVec.ofNat 8 bank } :
      Board δ).resetDevices m.fetched.devices with nmiPrev := false } := rfl

theorem reset_maps (m : Machine δ) (device : Device) :
    m.reset.bus.Maps device ↔ m.bus.Maps device := by
  have devices : m.reset.bus.devices = m.bus.devices := by
    rw [reset_bus]
    exact (Board.resetDevices_devices ..).trans m.fetched_touched.devices
  rw [Board.Maps, Board.Maps, devices]

theorem reset_uart (m : Machine δ) (mapped : m.bus.Maps .uart) :
    m.reset.bus.uart = m.bus.uart.reset := by
  obtain ⟨mapping, member, isUart⟩ := mapped
  rw [← m.fetched_touched.devices] at member
  rw [reset_bus, ← m.fetched_touched.uart]
  exact (Board.resetDevices_uart m.fetched.devices _).2 ⟨mapping, member, isUart⟩

theorem reset_sdcard (m : Machine δ) (mapped : m.bus.Maps .sdcard) :
    m.reset.bus.sdcard = m.bus.sdcard.reset := by
  obtain ⟨mapping, member, isCard⟩ := mapped
  rw [← m.fetched_touched.devices] at member
  rw [reset_bus, ← m.fetched_touched.sdcard]
  exact (Board.resetDevices_sdcard m.fetched.devices _).2 ⟨mapping, member, isCard⟩

theorem reset_bankRegs (m : Machine δ) :
    m.reset.bus.bankRegs = fun bank : Fin 4 => BitVec.ofNat 8 bank := by
  rw [reset_bus]
  exact Board.resetDevices_bankRegs ..

/-- Two states of one machine are the same to the CPU after a reset exactly when they
agreed on the card's error flag and on where the vector comes from. -/
theorem reset_forgets (m n : Machine δ) (same : Same m.bus n.bus) :
    Agree m.reset n.reset ↔
      (m.bus.Maps .sdcard → m.bus.sdcard.lastError = n.bus.sdcard.lastError) ∧
        m.bus.SameVector n.bus := by
  have vector : m.reset.r.pc = n.reset.r.pc ↔ m.bus.SameVector n.bus := by
    have first := m.bus.read8_touched Hd6309.vecReset
    have second := n.bus.read8_touched Hd6309.vecReset
    rw [reset_pc, reset_pc, word_inj, Board.SameVector,
      Board.sameByte_iff _ same.devices same.rom,
      Board.sameByte_iff _ (by rw [first.devices, second.devices, same.devices])
        (by rw [first.rom, second.rom, same.rom])]
  have mapsToo (device : Device) : m.bus.Maps device → n.bus.Maps device := by
    rw [Board.Maps, Board.Maps, same.devices]
    exact id
  have card : (m.reset.bus.Maps .sdcard → ∀ offset,
      (m.reset.bus.sdcard.read offset).1 = (n.reset.bus.sdcard.read offset).1) ↔
        (m.bus.Maps .sdcard → m.bus.sdcard.lastError = n.bus.sdcard.lastError) := by
    rw [reset_maps]
    apply forall_congr'
    intro mapped
    rw [m.reset_sdcard mapped, n.reset_sdcard (mapsToo _ mapped)]
    exact sdcard_reset_read same.file same.cardPresent same.stuckBusy
  constructor
  · intro agree
    exact ⟨card.mp agree.sdcard, vector.mp (congrArg Hd6309.Regs.pc agree.r)⟩
  · rintro ⟨lastError, sameVector⟩
    have pc := vector.mpr sameVector
    exact {
      r := congrArg (fun pc => ({
        cc := Hd6309.ccI ||| Hd6309.ccF, md := 0, pc } : Hd6309.Regs)) pc
      lines := rfl
      waitSync := rfl
      halted := rfl
      cwaiPushedPending := rfl
      totalCycles := rfl
      stopReason := rfl
      bankRegs := by rw [reset_bankRegs, reset_bankRegs]
      uart := fun mapped offset => by
        rw [reset_maps] at mapped
        rw [m.reset_uart mapped, n.reset_uart (mapsToo _ mapped)]
        exact uart_reset_read same.dsrReady same.dcdDetected offset
      sdcard := card.mpr lastError }

end Machine

/-! A machine without other devices, its ROM holding LDA #1, STA $FFDB: a read
command to a slot without a card. -/

instance : IDevice Unit where
  read device _ := (0, device)
  write device _ _ := device
  reset device := device

def emptySlot : Machine Unit where
  r := {}
  bus := {
    ramPages := 64
    ram := fun _ => 0#8
    devices := [⟨0xF000, 0x1000, .rom, .none⟩, ⟨0xFFD8, 4, .sdcard, .none⟩]
    rom := {
      size := 0x1000
      data := fun i =>
        if i = 0xFFE then 0xF0#8 else [0x86#8, 0x01#8, 0xB7#8, 0xFF#8, 0xDB#8].getD i 0#8 }
    cyclesPerChar := fun _ _ => 1
    others := fun _ => () }

theorem reset_keeps_error :
    ¬∀ (start m n : Machine Unit) (events events' : List Machine.Event),
      Run.run Machine.next start events = some m → Run.run Machine.next start events' = some n →
        Same m.bus n.bus → Agree m.reset n.reset := by
  intro forgets
  have agree := forgets emptySlot emptySlot.reset emptySlot.reset.step.step
    [.reset] [.reset, .step, .step] rfl rfl
    ⟨rfl, rfl, rfl, rfl, rfl, rfl, rfl, rfl, rfl, rfl, rfl, rfl, rfl⟩
  have status := agree.sdcard ⟨⟨0xFFD8, 4, .sdcard, .none⟩, by decide, rfl⟩ 3
  exact absurd status (by decide)

/-- Between two resets with no failing command, the same machine. -/
theorem reset_forgets_one_step :
    Agree emptySlot.reset.reset emptySlot.reset.step.reset :=
  (Machine.reset_forgets emptySlot.reset emptySlot.reset.step
    ⟨rfl, rfl, rfl, rfl, rfl, rfl, rfl, rfl, rfl, rfl, rfl, rfl, rfl⟩).mpr
    ⟨fun _ => rfl, trivial, trivial⟩

end Pugputer.System
