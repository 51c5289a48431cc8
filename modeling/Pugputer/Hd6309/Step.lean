import Pugputer.Hd6309.Opcodes

namespace Pugputer.Hd6309

variable {σ : Type} [Bus σ]

def stepBody : Exec σ Unit := do
  modify fun c => { c with cycles := 0, stopReason := .cycleBudget }
  if (← get).halted then
    modify fun c => { c with stopReason := .halted }
  else if ← serviceInterrupts then
    return ()
  else if (← get).waitSync then
    modify fun c => { c with cycles := 1, stopReason := .sync }
  else
    modify fun c => { c with insnPc := c.r.pc }
    execute (← fetch8)

/-- `CPU::step` with the cycle count it returns. -/
def step (c : Cpu σ) : Nat × Cpu σ :=
  let c' := (stepBody c).2
  if c'.halted then (0, c')
  else (c'.cycles, { c' with totalCycles := c'.totalCycles + c'.cycles })

/-- Past its body, `step` only adds up cycles. -/
theorem step_eq (c : Cpu σ) :
    ∃ totalCycles, (step c).2 = { (stepBody c).2 with totalCycles } := by
  rw [step]
  dsimp only
  split
  · exact ⟨_, rfl⟩
  · exact ⟨_, rfl⟩

section Fields

variable (c : Cpu σ)

@[simp] theorem step_r : (step c).2.r = (stepBody c).2.r := by
  obtain ⟨_, equal⟩ := step_eq c
  rw [equal]

@[simp] theorem step_bus : (step c).2.bus = (stepBody c).2.bus := by
  obtain ⟨_, equal⟩ := step_eq c
  rw [equal]

@[simp] theorem step_lines : (step c).2.lines = (stepBody c).2.lines := by
  obtain ⟨_, equal⟩ := step_eq c
  rw [equal]

@[simp] theorem step_waitSync : (step c).2.waitSync = (stepBody c).2.waitSync := by
  obtain ⟨_, equal⟩ := step_eq c
  rw [equal]

@[simp] theorem step_halted : (step c).2.halted = (stepBody c).2.halted := by
  obtain ⟨_, equal⟩ := step_eq c
  rw [equal]

@[simp] theorem step_cwaiPushedPending :
    (step c).2.cwaiPushedPending = (stepBody c).2.cwaiPushedPending := by
  obtain ⟨_, equal⟩ := step_eq c
  rw [equal]

end Fields

/-- The state in which `step` looks for a request. -/
def Cpu.begun (c : Cpu σ) : Cpu σ :=
  { c with cycles := 0, stopReason := .cycleBudget }

theorem serviceInterrupts_idle (c : Cpu σ)
    (idle : c.lines.serviceable c.r = false) :
    serviceInterrupts c = (false, c) := by
  simp only [Lines.serviceable, Bool.or_eq_false_iff] at idle
  obtain ⟨nmi, firq, irq⟩ := idle
  rw [serviceInterrupts, exec_bind, exec_get]
  simp only [nmi, firq, irq, Bool.false_eq_true, if_false, exec_pure]

theorem stepBody_halted (c : Cpu σ) (halted : c.halted = true) :
    (stepBody c).2 = { c.begun with stopReason := .halted } := by
  rw [stepBody, exec_bind, exec_modify, exec_bind, exec_get, if_pos halted]
  rfl

/-- The rest of `step` once the CPU is found not to be halted. -/
private theorem stepBody_running (c : Cpu σ) (running : c.halted = false) :
    (stepBody c).2 =
      if (serviceInterrupts c.begun).1 then (serviceInterrupts c.begun).2
      else if (serviceInterrupts c.begun).2.waitSync then
        { (serviceInterrupts c.begun).2 with cycles := 1, stopReason := .sync }
      else
        ((fetch8 >>= execute) { (serviceInterrupts c.begun).2 with
          insnPc := (serviceInterrupts c.begun).2.r.pc }).2 := by
  rw [stepBody, exec_bind, exec_modify, exec_bind, exec_get, if_neg (by simp [running]),
    exec_bind]
  change ((if (serviceInterrupts c.begun).1 then _ else _ : Exec σ Unit)
    (serviceInterrupts c.begun).2).2 = _
  split
  · rfl
  · rw [exec_bind, exec_get]
    split
    · rfl
    · rfl

theorem stepBody_service (c : Cpu σ) (running : c.halted = false)
    (served : (serviceInterrupts c.begun).1 = true) :
    (stepBody c).2 = (serviceInterrupts c.begun).2 := by
  rw [stepBody_running c running, if_pos served]

theorem stepBody_wait (c : Cpu σ) (running : c.halted = false)
    (idle : c.lines.serviceable c.r = false) (waiting : c.waitSync = true) :
    (stepBody c).2 = { c.begun with cycles := 1, stopReason := .sync } := by
  rw [stepBody_running c running, serviceInterrupts_idle c.begun idle,
    if_neg (by simp), if_pos (by exact waiting)]

/-- With nothing to take, `step` executes the instruction at PC. -/
theorem stepBody_execute (c : Cpu σ) (running : c.halted = false)
    (idle : c.lines.serviceable c.r = false) (awake : c.waitSync = false) :
    (stepBody c).2 =
      ((fetch8 >>= execute) { c.begun with insnPc := c.r.pc }).2 := by
  rw [stepBody_running c running, serviceInterrupts_idle c.begun idle,
    if_neg (by simp), if_neg (by simp [Cpu.begun, awake])]
  rfl

end Pugputer.Hd6309
