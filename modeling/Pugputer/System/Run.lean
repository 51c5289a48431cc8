import Mathlib.Logic.Function.Basic
import Pugputer.Hd6309.Run
import Pugputer.System.Reset

namespace Pugputer.System

open Hd6309 (BusInvariant Cpu mostCycles)

/-! The run loop of the machine, and the ticks its devices get. -/

variable {δ : Type} [IDevice δ]

namespace Board

theorem tickDevices_devices (s : Board δ) (cycles : Nat) (devices : List DeviceMapping) :
    (s.tickDevices cycles devices).devices = s.devices := by
  induction devices generalizing s with
  | nil => rfl
  | cons mapping rest ih =>
      rw [tickDevices, List.foldl_cons]
      refine (ih _).trans ?_
      rw [tickDevice.eq_def]
      split
      all_goals rfl

/-- No access maps or unmaps a device. -/
theorem devices_kept (devices : List DeviceMapping) :
    BusInvariant fun s : Board δ => s.devices = devices where
  read s addr kept := by
    change (s.read8 addr).2.devices = devices
    rw [read8]
    split
    · rw [readDevice.eq_def]
      split
      all_goals exact kept
    · exact kept
  write s addr value kept := by
    change (s.write8 addr value).devices = devices
    rw [write8]
    split
    · rw [writeDevice.eq_def]
      split
      all_goals exact kept
    · split
      · exact kept
      · exact kept

end Board

namespace Machine

/-- `SystemBus::step` with the count it returns; the devices get its low 32 bits. -/
def stepCycles (m : Machine δ) : Nat × Machine δ :=
  let (cycles, m) := Hd6309.step m
  (cycles, updateIrqLines { m with bus := m.bus.tickDevices (cycles % 2 ^ 32) m.bus.devices })

def leaveRun (m : Machine δ) : Option Unit := if m.halted then some () else none

/-- `SystemBus::run`. -/
def run (maxCycles : BitVec 64) (fuel : Nat) (m : Machine δ) : Option (BitVec 64 × Machine δ) :=
  (Budget.spend stepCycles leaveRun maxCycles fuel 0 m).map fun (consumed, _, m) => (consumed, m)

theorem stepCycles_eq (m : Machine δ) (running : m.halted = false) :
    m.stepCycles = ((Hd6309.step m).1, m.step) := by
  have few : (Hd6309.step m).1 < 2 ^ 32 :=
    Nat.lt_of_le_of_lt (Hd6309.step_costs m running).most (by decide)
  change ((Hd6309.step m).1, updateIrqLines { (Hd6309.step m).2 with
    bus := (Hd6309.step m).2.bus.tickDevices ((Hd6309.step m).1 % 2 ^ 32)
      (Hd6309.step m).2.bus.devices }) = _
  rw [Nat.mod_eq_of_lt few]
  rfl

end Machine

/-- A machine with a meter: the cycles each device has been ticked. -/
structure Metered (δ : Type) where
  machine : Machine δ
  ticked : Device → Nat

namespace Metered

def tick (cycles : Nat) (s : Metered δ) (device : Device) : Metered δ where
  machine := { s.machine with bus := s.machine.bus.tickDevice cycles device }
  ticked := Function.update s.ticked device (s.ticked device + cycles)

def tickDevices (s : Metered δ) (cycles : Nat) (mappings : List DeviceMapping) : Metered δ :=
  mappings.foldl (fun s mapping => s.tick cycles mapping.device) s

/-- `Machine.stepCycles`, metered. -/
def step (s : Metered δ) : Nat × Metered δ :=
  let (cycles, m) := Hd6309.step s.machine
  let s := { s with machine := m }.tickDevices (cycles % 2 ^ 32) m.bus.devices
  (cycles, { s with machine := s.machine.updateIrqLines })

def run (maxCycles : BitVec 64) (fuel : Nat) (s : Metered δ) : Option (BitVec 64 × Metered δ) :=
  (Budget.spend step (fun s => s.machine.leaveRun) maxCycles fuel 0 s).map
    fun (consumed, _, s) => (consumed, s)

/-- How often a device is mapped. -/
def mappings (devices : List DeviceMapping) (device : Device) : Nat :=
  devices.countP fun m => m.device = device

theorem tickDevices_machine (s : Metered δ) (cycles : Nat) (devices : List DeviceMapping) :
    (s.tickDevices cycles devices).machine =
      { s.machine with bus := s.machine.bus.tickDevices cycles devices } := by
  induction devices generalizing s with
  | nil => rfl
  | cons mapping rest ih =>
      rw [tickDevices, List.foldl_cons]
      exact ih (s.tick cycles mapping.device)

theorem tickDevices_ticked (s : Metered δ) (cycles : Nat) (devices : List DeviceMapping)
    (device : Device) :
    (s.tickDevices cycles devices).ticked device =
      s.ticked device + cycles * mappings devices device := by
  induction devices generalizing s with
  | nil => rfl
  | cons mapping rest ih =>
      have rest := ih (s.tick cycles mapping.device)
      rw [tickDevices] at rest ⊢
      rw [List.foldl_cons, rest, tick, mappings, mappings, List.countP_cons]
      by_cases same : mapping.device = device
      · subst same
        simp only [Function.update_self, decide_true, if_true]
        ring
      · simp only [Function.update_of_ne (Ne.symm same), same, decide_false,
          Bool.false_eq_true, if_false, Nat.add_zero]

/-- The meter takes no part in what the machine does. -/
theorem step_machine (s : Metered δ) :
    s.machine.stepCycles = (s.step.1, s.step.2.machine) := by
  rw [step]
  dsimp only
  rw [tickDevices_machine]
  rfl

theorem run_machine (maxCycles : BitVec 64) (fuel : Nat) (s : Metered δ) :
    s.machine.run maxCycles fuel =
      (s.run maxCycles fuel).map fun (n, s) => (n, s.machine) := by
  rw [Machine.run, run, Budget.spend_map (fun s : Metered δ => s.machine) step_machine
    (fun _ => rfl), Option.map_map, Option.map_map]
  rfl

end Metered


namespace Metered

/-- What `cycles` of running have done: they are counted, and every device has been ticked
them once for each of its mappings. -/
structure Spends (s : Metered δ) (cycles : Nat) (s' : Metered δ) : Prop where
  totalCycles : s'.machine.totalCycles = s.machine.totalCycles + cycles
  devices : s'.machine.bus.devices = s.machine.bus.devices
  ticked : ∀ device, s'.ticked device =
    s.ticked device + cycles * mappings s.machine.bus.devices device

omit [IDevice δ] in
theorem Spends.refl (s : Metered δ) : Spends s 0 s :=
  ⟨rfl, rfl, fun device => by rw [Nat.zero_mul, Nat.add_zero]⟩

omit [IDevice δ] in
theorem Spends.trans {s s₁ s₂ : Metered δ} {first second : Nat} (before : Spends s first s₁)
    (after : Spends s₁ second s₂) : Spends s (first + second) s₂ where
  totalCycles := by rw [after.totalCycles, before.totalCycles, Nat.add_assoc]
  devices := after.devices.trans before.devices
  ticked device := by
    rw [after.ticked, before.ticked, before.devices, Nat.add_mul, Nat.add_assoc]

theorem step_spends (s : Metered δ) (running : s.machine.halted = false) :
    1 ≤ s.step.1 ∧ s.step.1 ≤ mostCycles ∧ Spends s s.step.1 s.step.2 := by
  have costs := Hd6309.step_costs s.machine running
  have few : s.step.1 % 2 ^ 32 = s.step.1 :=
    Nat.mod_eq_of_lt (Nat.lt_of_le_of_lt costs.most (by decide))
  have mapped : (Hd6309.step s.machine).2.bus.devices = s.machine.bus.devices :=
    costs.bus (Board.devices_kept s.machine.bus.devices) rfl
  have stepped : s.step.2 =
      let after := { s with machine := (Hd6309.step s.machine).2 }.tickDevices (s.step.1 % 2 ^ 32)
        (Hd6309.step s.machine).2.bus.devices
      { after with machine := after.machine.updateIrqLines } := rfl
  refine ⟨costs.least, costs.most, ?_, ?_, fun device => ?_⟩
  · rw [stepped]
    dsimp only
    rw [tickDevices_machine]
    exact costs.totalCycles
  · rw [stepped]
    dsimp only
    rw [tickDevices_machine]
    exact (Board.tickDevices_devices _ _ _).trans mapped
  · rw [stepped]
    dsimp only
    rw [tickDevices_ticked, few, mapped]

end Metered

/-- The end of a run of the machine, `returned` cycles after `s`. -/
structure RunEnds (maxCycles : BitVec 64) (s : Metered δ) (returned : BitVec 64)
    (s' : Metered δ) : Prop where
  /-- What was consumed before the last step was under the budget. -/
  lastStep : Budget.LastStep Metered.step (fun s => s.machine.leaveRun) maxCycles.toNat s
    returned.toNat s'
  spends : Metered.Spends s returned.toNat s'
  early : returned < maxCycles → s'.machine.halted = true

omit [IDevice δ] in
theorem running_of_leaveRun {m : Machine δ} (going : m.leaveRun = none) : m.halted = false := by
  cases halted : m.halted with
  | false => rfl
  | true =>
      rw [Machine.leaveRun, if_pos halted] at going
      contradiction

/-- `SystemBus::run` ends if its counter has room for one step past the budget. -/
theorem run_ends (maxCycles : BitVec 64) (room : maxCycles.toNat + mostCycles ≤ 2 ^ 64)
    (s : Metered δ) :
    ∃ fuel returned s', RunEnds maxCycles s returned s' ∧
      ∀ more, s.run maxCycles (fuel + more) = some (returned, s') := by
  have costs (u : Metered δ) (going : u.machine.leaveRun = none) :
      1 ≤ u.step.1 ∧ u.step.1 ≤ mostCycles := by
    obtain ⟨least, most, -⟩ := u.step_spends (running_of_leaveRun going)
    exact ⟨least, most⟩
  obtain ⟨fuel, why, returned, last, ended, spent⟩ := Budget.spend_ends costs room s
  refine ⟨fuel, returned, last, ⟨ended.lastStep, ?_, fun under => ?_⟩, fun more => ?_⟩
  · refine ended.lastStep.steps.holds (Metered.Spends s) (.refl s) fun cost u spends going => ?_
    exact spends.trans (u.step_spends (running_of_leaveRun going)).2.2
  · by_contra running
    refine ended.left under ?_
    rw [Machine.leaveRun, if_neg running]
  · rw [Metered.run, spent more]
    rfl

/-- A machine whose RAM holds NOPs, and a device under two names. -/
def nops : Metered Unit where
  machine := {
    r := {}
    bus := {
      ramPages := 4
      ram := fun _ => 0x12#8
      devices := [⟨0x8000#16, 16, .other 0, .none⟩, ⟨0x9000#16, 16, .other 0, .none⟩]
      rom := ⟨0, fun _ => 0xFF#8⟩
      cyclesPerChar := fun _ _ => 1
      others := fun _ => () } }
  ticked := fun _ => 0

end Pugputer.System
