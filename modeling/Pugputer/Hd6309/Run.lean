import Pugputer.Hd6309.Costs
import Pugputer.Hd6309.Ram
import Pugputer.Lib.Budget

namespace Pugputer.Hd6309

/-! The run loop of the CPU, and what each of its steps costs. -/

variable {σ α : Type} [Bus σ]

/-- Why `CPU::run` returns before its budget is spent. -/
def leaveRun (c : Cpu σ) : Option StopReason :=
  if c.halted then some .halted
  else if c.breakpoints.any fun bp => bp.2 == c.r.pc then some .breakpoint
  else none

/-- `CPU::run`: the cycles it returns, and the CPU. -/
def run (maxCycles : BitVec 64) (fuel : Nat) (c : Cpu σ) : Option (BitVec 64 × Cpu σ) :=
  (Budget.spend step leaveRun maxCycles fuel 0
    { c with stopReason := .cycleBudget }).map fun (consumed, why, c) =>
      (consumed, { c with stopReason := why.getD .cycleBudget })

/-- The bookkeeping of a step of a CPU that runs. -/
structure Charged (c c' : Cpu σ) : Prop where
  least : 1 ≤ c'.cycles
  most : c'.cycles ≤ mostCycles
  halted : c'.halted = c.halted
  totalCycles : c'.totalCycles = c.totalCycles
  bus : ∀ {P : σ → Prop}, BusInvariant P → P c.bus → P c'.bus

theorem Adds.charged {act : Exec σ α} (adds : Adds 1 mostCycles act) (c : Cpu σ)
    (fresh : c.cycles = 0) : Charged c (act c).2 where
  least := by
    have least := adds.least c
    omega
  most := by
    have most := adds.most c
    omega
  halted := adds.halted c
  totalCycles := adds.totalCycles c
  bus invariant holds := adds.bus invariant c holds

/-- An interrupt taken costs what its entry costs. -/
theorem serviceInterrupts_charged (c : Cpu σ) (fresh : c.cycles = 0)
    (ready : c.lines.serviceable c.r = true) :
    (serviceInterrupts c).1 = true ∧ Charged c (serviceInterrupts c).2 := by
  have cost (em nm : Nat) (some : 1 ≤ min em nm) (few : max em nm ≤ mostCycles) :
      Adds 1 mostCycles (do
        addCyclesEmNm em nm
        return true : Exec σ Bool) :=
    ((Adds.addCyclesEmNm em nm).bind fun _ => .pure true).weaken some few
  have awake : Adds 0 0 (modify fun c : Cpu σ => { c with waitSync := false } : Exec σ Unit) :=
    .of_same (fun _ => rfl) (fun _ => rfl) (fun _ => rfl) fun _ => rfl
  rw [serviceInterrupts, exec_bind, exec_get]
  cases nmi : c.lines.nmiPending with
  | true =>
      rw [if_pos rfl]
      refine ⟨rfl, Adds.charged (Adds.then' ?_ fun _ => (Adds.enterInterrupt _ _ _).then' fun _ =>
        cost 19 21 (by decide) (by decide)) c fresh⟩
      exact .of_same (fun _ => rfl) (fun _ => rfl) (fun _ => rfl) fun _ => rfl
  | false =>
      rw [if_neg (by simp)]
      cases firq : c.lines.firqLine && !c.r.getFlag ccF with
      | true =>
          rw [if_pos rfl]
          cases full : c.r.md &&& mdFirqNative != 0 with
          | true =>
              exact ⟨rfl, (awake.then' fun _ => (Adds.enterInterrupt _ _ _).then' fun _ =>
                cost 19 21 (by decide) (by decide)).charged c fresh⟩
          | false =>
              exact ⟨rfl, (awake.then' fun _ => (Adds.enterInterrupt _ _ _).then' fun _ =>
                cost 10 8 (by decide) (by decide)).charged c fresh⟩
      | false =>
          have irq : (c.lines.irqLine && !c.r.getFlag ccI) = true := by
            simpa only [Lines.serviceable, nmi, firq, Bool.false_or] using ready
          rw [if_neg (by simp), if_pos irq]
          exact ⟨rfl, (awake.then' fun _ => (Adds.enterInterrupt _ _ _).then' fun _ =>
            cost 19 21 (by decide) (by decide)).charged c fresh⟩

/-- No path through a step leaves the count at zero. -/
theorem stepBody_charged (c : Cpu σ) (running : c.halted = false) :
    Charged c (stepBody c).2 := by
  cases ready : c.lines.serviceable c.r with
  | true =>
      obtain ⟨served, charged⟩ := serviceInterrupts_charged c.begun rfl ready
      rw [stepBody_service c running served]
      exact ⟨charged.least, charged.most, charged.halted, charged.totalCycles, charged.bus⟩
  | false =>
      cases waiting : c.waitSync with
      | true =>
          rw [stepBody_wait c running ready waiting]
          exact ⟨Nat.le_refl 1, (by decide : 1 ≤ mostCycles), rfl, rfl, fun _ holds => holds⟩
      | false =>
          rw [stepBody_execute c running ready waiting]
          have charged := (Adds.fetch8.then' fun opcode => execute_adds opcode).charged
            { c.begun with insnPc := c.r.pc } rfl
          exact ⟨charged.least, charged.most, charged.halted, charged.totalCycles, charged.bus⟩

/-- One step of a CPU that runs: what it returns, and what it leaves as it was. -/
structure Costs (c : Cpu σ) (cycles : Nat) (c' : Cpu σ) : Prop where
  least : 1 ≤ cycles
  most : cycles ≤ mostCycles
  running : c'.halted = false
  totalCycles : c'.totalCycles = c.totalCycles + cycles
  bus : ∀ {P : σ → Prop}, BusInvariant P → P c.bus → P c'.bus

theorem step_running (c : Cpu σ) (running : (stepBody c).2.halted = false) :
    step c = ((stepBody c).2.cycles, { (stepBody c).2 with
      totalCycles := (stepBody c).2.totalCycles + (stepBody c).2.cycles }) := by
  rw [step]
  dsimp only
  rw [if_neg (by simp [running])]

theorem step_costs (c : Cpu σ) (running : c.halted = false) :
    Costs c (step c).1 (step c).2 := by
  have charged := stepBody_charged c running
  have still : (stepBody c).2.halted = false := charged.halted.trans running
  rw [step_running c still]
  refine ⟨charged.least, charged.most, still, ?_, charged.bus⟩
  rw [charged.totalCycles]

omit [Bus σ] in
theorem leaveRun_some {c : Cpu σ} {why : StopReason} (left : leaveRun c = some why) :
    c.halted = true ∧ why = .halted ∨
      (∃ bp ∈ c.breakpoints, bp.2 = c.r.pc) ∧ why = .breakpoint := by
  rw [leaveRun] at left
  split at left
  · rename_i halted
    exact .inl ⟨halted, (Option.some.inj left).symm⟩
  · split at left
    · rename_i hit
      refine .inr ⟨?_, (Option.some.inj left).symm⟩
      simpa using hit
    · contradiction

omit [Bus σ] in
/-- The loop of `CPU::run` goes on only while the CPU runs. -/
theorem running_of_leaveRun {c : Cpu σ} (going : leaveRun c = none) : c.halted = false := by
  cases halted : c.halted with
  | false => rfl
  | true =>
      rw [leaveRun, if_pos halted] at going
      contradiction

/-- The end of a run of the CPU, `returned` cycles after `c`. -/
structure RunEnds (maxCycles : BitVec 64) (c : Cpu σ)
    (returned : BitVec 64) (c' : Cpu σ) : Prop where
  /-- What was consumed before the last step was under the budget. -/
  lastStep : ∃ last, Budget.LastStep step leaveRun maxCycles.toNat
      { c with stopReason := .cycleBudget } returned.toNat last ∧
    c' = { last with stopReason := c'.stopReason }
  totalCycles : c'.totalCycles = c.totalCycles + returned.toNat
  early : returned < maxCycles → c'.halted = true ∧ c'.stopReason = .halted ∨
    (∃ bp ∈ c'.breakpoints, bp.2 = c'.r.pc) ∧ c'.stopReason = .breakpoint
  late : ¬ returned < maxCycles → c'.stopReason = .cycleBudget

/-- `CPU::run` ends, whatever the bus answers, if its counter has room for one step past
the budget. -/
theorem run_ends (maxCycles : BitVec 64)
    (room : maxCycles.toNat + mostCycles ≤ 2 ^ 64) (c : Cpu σ) :
    ∃ fuel returned c', RunEnds maxCycles c returned c' ∧
      ∀ more, run maxCycles (fuel + more) c = some (returned, c') := by
  have costs (u : Cpu σ) (going : leaveRun u = none) :
      1 ≤ (step u).1 ∧ (step u).1 ≤ mostCycles :=
    ⟨(step_costs u (running_of_leaveRun going)).least,
      (step_costs u (running_of_leaveRun going)).most⟩
  obtain ⟨fuel, why, returned, last, ended, spent⟩ :=
    Budget.spend_ends costs room { c with stopReason := .cycleBudget }
  have total : last.totalCycles = c.totalCycles + returned.toNat := by
    refine ended.lastStep.steps.holds (fun cost u => u.totalCycles = c.totalCycles + cost) rfl
      fun cost u total going => ?_
    rw [(step_costs u (running_of_leaveRun going)).totalCycles, total, Nat.add_assoc]
  refine ⟨fuel, returned, { last with stopReason := why.getD .cycleBudget },
    ⟨⟨last, ended.lastStep, rfl⟩, total, fun under => ?_, fun past => ?_⟩, fun more => ?_⟩
  · have reason := ended.reason
    rw [if_pos under] at reason
    obtain ⟨stopped, leaves⟩ := Option.ne_none_iff_exists'.mp (ended.left under)
    rw [reason, leaves]
    exact leaveRun_some leaves
  · have reason := ended.reason
    rw [if_neg past] at reason
    rw [reason]
    rfl
  · rw [run, spent more]
    rfl

/-! A counter that wraps. -/

/-- A CPU that finds nothing but NOP, in emulation mode, with nothing to wait for. -/
structure Idles (c : Cpu Ram) : Prop where
  nop : ∀ addr, c.bus addr = 0x12#8
  emulates : c.r.native = false
  running : c.halted = false
  awake : c.waitSync = false
  idle : c.lines = {}
  free : c.breakpoints = []

theorem Idles.step {c : Cpu Ram} (idles : Idles c) :
    (Hd6309.step c).1 = 2 ∧ Idles (Hd6309.step c).2 := by
  have quiet : c.lines.serviceable c.r = false := by
    rw [idles.idle]
    rfl
  have body : (stepBody c).2 = { c.begun with
      insnPc := c.r.pc, r := { c.r with pc := c.r.pc + 1 }, cycles := 2 } := by
    rw [stepBody_execute c idles.running quiet idles.awake, exec_bind]
    change (execute (c.bus c.r.pc) { c.begun with
      insnPc := c.r.pc, r := { c.r with pc := c.r.pc + 1 } }).2 = _
    rw [idles.nop]
    change { c.begun with
      insnPc := c.r.pc, r := { c.r with pc := c.r.pc + 1 },
      cycles := 0 + if c.r.native then 1 else 2 } = _
    rw [idles.emulates]
    rfl
  rw [step_running c (by rw [body]; exact idles.running), body]
  exact ⟨rfl, idles.nop, idles.emulates, idles.running, idles.awake, idles.idle, idles.free⟩

/-- Two cycles a step pass by an odd budget that only the last value of the counter meets. -/
theorem Idles.run {c : Cpu Ram} (idles : Idles c) (fuel : Nat) :
    Hd6309.run (BitVec.allOnes 64) fuel c = none := by
  have turns (consumed : BitVec 64) (u : Cpu Ram) (holds : consumed.toNat % 2 = 0 ∧ Idles u) :
      consumed < BitVec.allOnes 64 ∧ leaveRun u = none ∧
        ((consumed + BitVec.ofNat 64 (Hd6309.step u).1).toNat % 2 = 0 ∧
          Idles (Hd6309.step u).2) := by
    obtain ⟨even, idles⟩ := holds
    obtain ⟨two, idles'⟩ := idles.step
    refine ⟨?_, ?_, ?_, idles'⟩
    · have small := consumed.isLt
      have top : (BitVec.allOnes 64).toNat = 2 ^ 64 - 1 := rfl
      rw [BitVec.lt_def]
      omega
    · rw [leaveRun, idles.running, idles.free]
      rfl
    · rw [two, BitVec.toNat_add]
      change (consumed.toNat + 2) % 2 ^ 64 % 2 = 0
      omega
  have start : Idles { c with stopReason := .cycleBudget } :=
    ⟨idles.nop, idles.emulates, idles.running, idles.awake, idles.idle, idles.free⟩
  rw [Hd6309.run, Budget.spend_never _ turns fuel ⟨rfl, start⟩]
  rfl

end Pugputer.Hd6309
