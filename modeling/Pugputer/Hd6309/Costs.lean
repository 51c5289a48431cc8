import Pugputer.Hd6309.Cycles

namespace Pugputer.Hd6309

/-! What each opcode costs. -/

variable {σ : Type} [Bus σ]

namespace Adds

theorem alu8 (acc : Acc8) (op : AluOp) (operand : Byte) :
    Adds 0 0 (Hd6309.alu8 acc op operand : Exec σ Unit) :=
  Adds.regs.then' fun _ => (Adds.applyAlu8 _ _ _).then' fun _ => .modifyRegs _

theorem alu8Imm (acc : Acc8) (op : AluOp) (c : Nat) :
    Adds c c (Hd6309.alu8Imm acc op c : Exec σ Unit) :=
  Adds.fetch8.then' fun _ => (Adds.alu8 _ _ _).then' fun _ => .addCycles c

theorem alu8Dir (acc : Acc8) (op : AluOp) (em nm : Nat) :
    Adds (min em nm) (max em nm) (Hd6309.alu8Dir acc op em nm : Exec σ Unit) :=
  Adds.eaDirect.then' fun _ => (Adds.read8 _).then' fun _ => (Adds.alu8 _ _ _).then' fun _ =>
    .addCyclesEmNm em nm

/-- What follows an indexed operand. -/
theorem indexed {lo hi : Nat} {next : Word → Exec σ Unit} (rest : ∀ a, Adds lo hi (next a)) :
    Adds lo (8 + hi) (Hd6309.eaIndexed >>= next) :=
  (Adds.eaIndexed.bind rest).weaken (Nat.le_of_eq (Nat.zero_add lo).symm) (Nat.le_refl _)

theorem alu8Idx (acc : Acc8) (op : AluOp) (c : Nat) :
    Adds c (8 + c) (Hd6309.alu8Idx acc op c : Exec σ Unit) :=
  .indexed fun _ => (Adds.read8 _).then' fun _ => (Adds.alu8 _ _ _).then' fun _ => .addCycles c

theorem alu8Ext (acc : Acc8) (op : AluOp) (em nm : Nat) :
    Adds (min em nm) (max em nm) (Hd6309.alu8Ext acc op em nm : Exec σ Unit) :=
  Adds.fetch16.then' fun _ => (Adds.read8 _).then' fun _ => (Adds.alu8 _ _ _).then' fun _ =>
    .addCyclesEmNm em nm

theorem st8 (acc : Acc8) (a : Word) : Adds 0 0 (Hd6309.st8 acc a : Exec σ Unit) :=
  Adds.regs.then' fun _ => (Adds.write8 _ _).then' fun _ => Adds.regs.then' fun _ =>
    (Adds.logic8 _).then' fun _ => .pure _

theorem st8Dir (acc : Acc8) (em nm : Nat) :
    Adds (min em nm) (max em nm) (Hd6309.st8Dir acc em nm : Exec σ Unit) :=
  Adds.eaDirect.then' fun _ => (Adds.st8 _ _).then' fun _ => .addCyclesEmNm em nm

theorem st8Idx (acc : Acc8) (c : Nat) : Adds c (8 + c) (Hd6309.st8Idx acc c : Exec σ Unit) :=
  .indexed fun _ => (Adds.st8 _ _).then' fun _ => .addCycles c

theorem st8Ext (acc : Acc8) (em nm : Nat) :
    Adds (min em nm) (max em nm) (Hd6309.st8Ext acc em nm : Exec σ Unit) :=
  Adds.fetch16.then' fun _ => (Adds.st8 _ _).then' fun _ => .addCyclesEmNm em nm

theorem rmw8Mem (op : RmwOp) (a : Word) : Adds 0 0 (Hd6309.rmw8Mem op a : Exec σ Unit) :=
  (Adds.read8 _).then' fun _ => (Adds.rmw8 _ _).then' fun _ => .write8 _ _

theorem rmw8Dir (op : RmwOp) : Adds 5 6 (Hd6309.rmw8Dir op : Exec σ Unit) :=
  Adds.eaDirect.then' fun _ => (Adds.rmw8Mem _ _).then' fun _ => .addCyclesEmNm 6 5

theorem rmw8Idx (op : RmwOp) : Adds 6 14 (Hd6309.rmw8Idx op : Exec σ Unit) :=
  .indexed fun _ => (Adds.rmw8Mem _ _).then' fun _ => .addCycles 6

theorem rmw8Ext (op : RmwOp) : Adds 6 7 (Hd6309.rmw8Ext op : Exec σ Unit) :=
  Adds.fetch16.then' fun _ => (Adds.rmw8Mem _ _).then' fun _ => .addCyclesEmNm 7 6

theorem rmw8Acc (op : RmwOp) (acc : Acc8) : Adds 0 0 (Hd6309.rmw8Acc op acc : Exec σ Unit) :=
  Adds.regs.then' fun _ => (Adds.rmw8 _ _).then' fun _ => .modifyRegs _

theorem rmw8Inh (op : RmwOp) (acc : Acc8) : Adds 1 2 (Hd6309.rmw8Inh op acc : Exec σ Unit) :=
  (Adds.rmw8Acc _ _).then' fun _ => .addCyclesEmNm 2 1

theorem rmw8EfInh (op : RmwOp) (acc : Acc8) : Adds 2 3 (Hd6309.rmw8EfInh op acc : Exec σ Unit) :=
  (Adds.rmw8Acc _ _).then' fun _ => .addCyclesEmNm 3 2

theorem rmw16Inh (op : RmwOp) (reg : Reg16) : Adds 2 3 (Hd6309.rmw16Inh op reg : Exec σ Unit) :=
  Adds.regs.then' fun _ => (Adds.rmw16 _ _).then' fun _ => (Adds.modifyRegs _).then' fun _ =>
    .addCyclesEmNm 3 2

theorem alu16 (reg : Reg16) (op : AluOp) (operand : Word) :
    Adds 0 0 (Hd6309.alu16 reg op operand : Exec σ Unit) :=
  Adds.regs.then' fun _ => (Adds.applyAlu16 _ _ _).then' fun _ => .modifyRegs _

theorem alu16Imm (reg : Reg16) (op : AluOp) (em nm : Nat) :
    Adds (min em nm) (max em nm) (Hd6309.alu16Imm reg op em nm : Exec σ Unit) :=
  Adds.fetch16.then' fun _ => (Adds.alu16 _ _ _).then' fun _ => .addCyclesEmNm em nm

theorem alu16Dir (reg : Reg16) (op : AluOp) (em nm : Nat) :
    Adds (min em nm) (max em nm) (Hd6309.alu16Dir reg op em nm : Exec σ Unit) :=
  Adds.eaDirect.then' fun _ => (Adds.read16 _).then' fun _ => (Adds.alu16 _ _ _).then' fun _ =>
    .addCyclesEmNm em nm

theorem alu16Idx (reg : Reg16) (op : AluOp) (c : Nat) :
    Adds c (8 + c) (Hd6309.alu16Idx reg op c : Exec σ Unit) :=
  .indexed fun _ => (Adds.read16 _).then' fun _ => (Adds.alu16 _ _ _).then' fun _ => .addCycles c

theorem alu16Ext (reg : Reg16) (op : AluOp) (em nm : Nat) :
    Adds (min em nm) (max em nm) (Hd6309.alu16Ext reg op em nm : Exec σ Unit) :=
  Adds.fetch16.then' fun _ => (Adds.read16 _).then' fun _ => (Adds.alu16 _ _ _).then' fun _ =>
    .addCyclesEmNm em nm

theorem ld16 (reg : Reg16) (v : Word) : Adds 0 0 (Hd6309.ld16 reg v : Exec σ Unit) :=
  (Adds.logic16 _).then' fun _ => .modifyRegs _

theorem ld16Imm (reg : Reg16) (c : Nat) : Adds c c (Hd6309.ld16Imm reg c : Exec σ Unit) :=
  Adds.fetch16.then' fun _ => (Adds.ld16 _ _).then' fun _ => .addCycles c

theorem ld16Dir (reg : Reg16) (em nm : Nat) :
    Adds (min em nm) (max em nm) (Hd6309.ld16Dir reg em nm : Exec σ Unit) :=
  Adds.eaDirect.then' fun _ => (Adds.read16 _).then' fun _ => (Adds.ld16 _ _).then' fun _ =>
    .addCyclesEmNm em nm

theorem ld16Idx (reg : Reg16) (c : Nat) : Adds c (8 + c) (Hd6309.ld16Idx reg c : Exec σ Unit) :=
  .indexed fun _ => (Adds.read16 _).then' fun _ => (Adds.ld16 _ _).then' fun _ => .addCycles c

theorem ld16Ext (reg : Reg16) (em nm : Nat) :
    Adds (min em nm) (max em nm) (Hd6309.ld16Ext reg em nm : Exec σ Unit) :=
  Adds.fetch16.then' fun _ => (Adds.read16 _).then' fun _ => (Adds.ld16 _ _).then' fun _ =>
    .addCyclesEmNm em nm

theorem st16 (reg : Reg16) (a : Word) : Adds 0 0 (Hd6309.st16 reg a : Exec σ Unit) :=
  Adds.regs.then' fun _ => (Adds.write16 _ _).then' fun _ => Adds.regs.then' fun _ =>
    (Adds.logic16 _).then' fun _ => .pure _

theorem st16Dir (reg : Reg16) (em nm : Nat) :
    Adds (min em nm) (max em nm) (Hd6309.st16Dir reg em nm : Exec σ Unit) :=
  Adds.eaDirect.then' fun _ => (Adds.st16 _ _).then' fun _ => .addCyclesEmNm em nm

theorem st16Idx (reg : Reg16) (c : Nat) : Adds c (8 + c) (Hd6309.st16Idx reg c : Exec σ Unit) :=
  .indexed fun _ => (Adds.st16 _ _).then' fun _ => .addCycles c

theorem st16Ext (reg : Reg16) (em nm : Nat) :
    Adds (min em nm) (max em nm) (Hd6309.st16Ext reg em nm : Exec σ Unit) :=
  Adds.fetch16.then' fun _ => (Adds.st16 _ _).then' fun _ => .addCyclesEmNm em nm

theorem cmp16Imm (reg : Reg16) (em nm : Nat) :
    Adds (min em nm) (max em nm) (Hd6309.cmp16Imm reg em nm : Exec σ Unit) :=
  Adds.fetch16.then' fun _ => Adds.regs.then' fun _ => (Adds.cmp16 _ _).then' fun _ =>
    .addCyclesEmNm em nm

theorem cmp16Dir (reg : Reg16) (em nm : Nat) :
    Adds (min em nm) (max em nm) (Hd6309.cmp16Dir reg em nm : Exec σ Unit) :=
  Adds.eaDirect.then' fun _ => (Adds.read16 _).then' fun _ => Adds.regs.then' fun _ =>
    (Adds.cmp16 _ _).then' fun _ => .addCyclesEmNm em nm

theorem cmp16Idx (reg : Reg16) (c : Nat) : Adds c (8 + c) (Hd6309.cmp16Idx reg c : Exec σ Unit) :=
  .indexed fun _ => (Adds.read16 _).then' fun _ => Adds.regs.then' fun _ =>
    (Adds.cmp16 _ _).then' fun _ => .addCycles c

theorem cmp16Ext (reg : Reg16) (em nm : Nat) :
    Adds (min em nm) (max em nm) (Hd6309.cmp16Ext reg em nm : Exec σ Unit) :=
  Adds.fetch16.then' fun _ => (Adds.read16 _).then' fun _ => Adds.regs.then' fun _ =>
    (Adds.cmp16 _ _).then' fun _ => .addCyclesEmNm em nm

theorem logicmem (op : Byte → Byte → Byte) (writeBack : Bool) (mask : Byte) (a : Word) :
    Adds 0 0 (Hd6309.logicmem op writeBack mask a : Exec σ Unit) := by
  have flags {res : Byte} : Adds 0 0 (do
      let _ ← Hd6309.logic8 res
      return () : Exec σ Unit) := (Adds.logic8 _).then' fun _ => .pure _
  exact (Adds.read8 _).then' fun _ => .ite ((Adds.write8 _ _).then' fun _ => flags) flags

theorem logicmemDir (op : Byte → Byte → Byte) (writeBack : Bool) :
    Adds 6 6 (Hd6309.logicmemDir op writeBack : Exec σ Unit) :=
  Adds.fetch8.then' fun _ => Adds.eaDirect.then' fun _ => (Adds.logicmem _ _ _ _).then' fun _ =>
    .addCycles 6

theorem logicmemIdx (op : Byte → Byte → Byte) (writeBack : Bool) :
    Adds 7 15 (Hd6309.logicmemIdx op writeBack : Exec σ Unit) :=
  Adds.fetch8.then' fun _ => .indexed fun _ => (Adds.logicmem _ _ _ _).then' fun _ => .addCycles 7

theorem logicmemExt (op : Byte → Byte → Byte) (writeBack : Bool) :
    Adds 7 7 (Hd6309.logicmemExt op writeBack : Exec σ Unit) :=
  Adds.fetch8.then' fun _ => Adds.fetch16.then' fun _ => (Adds.logicmem _ _ _ _).then' fun _ =>
    .addCycles 7

theorem setFlagsQ (v : BitVec 32) : Adds 0 0 (Hd6309.setFlagsQ v : Exec σ Unit) :=
  (Adds.setFlag _ _).then' fun _ => (Adds.setFlag _ _).then' fun _ => .setFlag _ _

theorem ldq (a : Word) : Adds 0 0 (Hd6309.ldq a : Exec σ Unit) :=
  (Adds.read16 _).then' fun _ => (Adds.read16 _).then' fun _ => (Adds.setFlagsQ _).then' fun _ =>
    .modifyRegs _

theorem stq (a : Word) : Adds 0 0 (Hd6309.stq a : Exec σ Unit) :=
  Adds.regs.then' fun _ => (Adds.write16 _ _).then' fun _ => (Adds.write16 _ _).then' fun _ =>
    .setFlagsQ _

theorem ldqImm : Adds 5 5 (Hd6309.ldqImm : Exec σ Unit) :=
  Adds.fetch16.then' fun _ => Adds.fetch16.then' fun _ => (Adds.setFlagsQ _).then' fun _ =>
    (Adds.modifyRegs _).then' fun _ => .addCycles 5

/-! Jumps, calls and the stack. -/

theorem setPc (target : Word) : Adds 0 0 (Hd6309.setPc target : Exec σ Unit) := .modifyRegs _

theorem branchRel (off : Word) : Adds 0 0 (Hd6309.branchRel off : Exec σ Unit) := .modifyRegs _

theorem jumpTo {lo hi : Nat} {ea : Exec σ Word} (operand : Adds lo hi ea) :
    Adds lo hi (Hd6309.jumpTo ea) := operand.bind fun _ => .setPc _

theorem callTo {lo hi : Nat} {ea : Exec σ Word} (operand : Adds lo hi ea) :
    Adds lo hi (Hd6309.callTo ea) :=
  operand.andThen fun _ => Adds.regs.then' fun _ => (Adds.push16 _ _).then' fun _ => .setPc _

theorem shortBranch (opcode : Byte) : Adds 3 3 (Hd6309.shortBranch opcode : Exec σ Unit) :=
  Adds.rel8.then' fun _ => Adds.regs.then' fun _ =>
    .ite ((Adds.branchRel _).then' fun _ => .addCycles 3) (.addCycles 3)

theorem longBranch (opcode : Byte) : Adds 5 6 (Hd6309.longBranch opcode : Exec σ Unit) := by
  refine Adds.fetch16.then' fun _ => Adds.regs.then' fun r => ?_
  generalize testCondition r (opcode.extractLsb' 0 4) = taken
  have counted : Adds 5 6 (Hd6309.addCyclesEmNm (if taken then 6 else 5) 5 : Exec σ Unit) := by
    refine (Adds.addCyclesEmNm _ _).weaken ?_ ?_
    · cases taken <;> decide
    · cases taken <;> decide
  exact .ite ((Adds.branchRel _).then' fun _ => counted) counted

section Choice

variable {lo hi : Nat} {chosen : Bool} {next : Unit → Exec σ Unit} {sp : Stack}

/-- A register of PSHS's list. -/
theorem push16_if (field : Regs → Word) (rest : Adds lo hi (next ())) :
    Adds lo hi (if chosen = true then (do
      let r ← Hd6309.regs
      let u ← Hd6309.push16 sp (field r)
      next u) else next ()) :=
  .ite (Adds.regs.then' fun _ => (Adds.push16 _ _).then' fun _ => rest) rest

theorem push8_if (field : Regs → Byte) (rest : Adds lo hi (next ())) :
    Adds lo hi (if chosen = true then (do
      let r ← Hd6309.regs
      let u ← Hd6309.push8 sp (field r)
      next u) else next ()) :=
  .ite (Adds.regs.then' fun _ => (Adds.push8 _ _).then' fun _ => rest) rest

theorem pull8To (sp : Stack) (assign : Byte → Regs → Regs) :
    Adds 0 0 (Hd6309.pull8To sp assign : Exec σ Unit) := (Adds.pull8 _).then' fun _ => .modifyRegs _

theorem pull16To (sp : Stack) (assign : Word → Regs → Regs) :
    Adds 0 0 (Hd6309.pull16To sp assign : Exec σ Unit) := (Adds.pull16 _).then' fun _ => .modifyRegs _

/-- A register of PULS's list. -/
theorem pull_if {act : Exec σ Unit} (free : Adds 0 0 act) (rest : Adds lo hi (next ())) :
    Adds lo hi (if chosen = true then act >>= next else next ()) :=
  .ite (free.then' fun _ => rest) rest

end Choice

theorem rlistExtraCycles_le : ∀ pb, rlistExtraCycles pb ≤ 12 := by decide

theorem stacked (pb : Byte) : Adds 4 17 (Hd6309.addCyclesEmNm (5 + rlistExtraCycles pb)
    (4 + rlistExtraCycles pb) : Exec σ Unit) := by
  have most := rlistExtraCycles_le pb
  exact (Adds.addCyclesEmNm _ _).weaken (by omega) (by omega)

theorem psh (sp : Stack) : Adds 4 17 (Hd6309.psh sp : Exec σ Unit) := by
  refine Adds.fetch8.then' fun pb => ?_
  refine push16_if (·.pc) ?_
  refine push16_if sp.other ?_
  refine push16_if (·.y) ?_
  refine push16_if (·.x) ?_
  refine push8_if (·.dp) ?_
  refine push8_if (·.b) ?_
  refine push8_if (·.a) ?_
  exact push8_if (·.cc) (.stacked pb)

theorem pul (sp : Stack) : Adds 4 17 (Hd6309.pul sp : Exec σ Unit) := by
  refine Adds.fetch8.then' fun pb => ?_
  refine pull_if (.pull8To _ _) ?_
  refine pull_if (.pull8To _ _) ?_
  refine pull_if (.pull8To _ _) ?_
  refine pull_if (.pull8To _ _) ?_
  refine pull_if (.pull16To _ _) ?_
  refine pull_if (.pull16To _ _) ?_
  refine pull_if (.pull16To _ _) ?_
  exact pull_if (.pull16To _ _) (.stacked pb)

theorem rts : Adds 4 5 (Hd6309.rts : Exec σ Unit) :=
  (Adds.pull16To _ _).then' fun _ => .addCyclesEmNm 5 4

theorem rti : Adds 6 17 (Hd6309.rti : Exec σ Unit) := by
  have tail : Adds 6 17 (do
      Hd6309.pull8To .system fun v r => { r with dp := v }
      Hd6309.pull16To .system fun v r => { r with x := v }
      Hd6309.pull16To .system fun v r => { r with y := v }
      Hd6309.pull16To .system fun v r => { r with u := v }
      Hd6309.pull16To .system fun v r => { r with pc := v }
      Hd6309.addCyclesEmNm 15 17 : Exec σ Unit) :=
    (Adds.pull8To _ _).then' fun _ => (Adds.pull16To _ _).then' fun _ => (Adds.pull16To _ _).then' fun _ =>
      (Adds.pull16To _ _).then' fun _ => (Adds.pull16To _ _).then' fun _ =>
      (Adds.addCyclesEmNm 15 17).weaken (by decide) (by decide)
  refine (Adds.pull8 _).then' fun _ => (Adds.modifyRegs _).then' fun _ => .ite ?_ ?_
  · refine (Adds.pull8To _ _).then' fun _ => (Adds.pull8To _ _).then' fun _ => Adds.native.then' fun _ => ?_
    exact .ite ((Adds.pull8To _ _).then' fun _ => (Adds.pull8To _ _).then' fun _ => tail) tail
  · exact (Adds.pull16To _ _).then' fun _ => (Adds.addCycles 6).weaken (by decide) (by decide)

theorem cwai : Adds 20 22 (Hd6309.cwai : Exec σ Unit) := by
  refine Adds.fetch8.then' fun _ => (Adds.modifyRegs _).then' fun _ => Adds.pushFullSet.then' fun _ =>
    Adds.then' ?_ fun _ => .addCyclesEmNm 22 20
  exact .of_same (fun _ => rfl) (fun _ => rfl) (fun _ => rfl) fun _ => rfl

theorem swi : Adds 19 21 (Hd6309.swi : Exec σ Unit) :=
  Adds.pushFullSet.then' fun _ => (Adds.modifyRegs _).then' fun _ => (Adds.read16 _).then' fun _ =>
    (Adds.setPc _).then' fun _ => .addCyclesEmNm 19 21

theorem swiUnmasked (vector : Word) : Adds 20 22 (Hd6309.swiUnmasked vector : Exec σ Unit) :=
  Adds.pushFullSet.then' fun _ => (Adds.read16 _).then' fun _ => (Adds.setPc _).then' fun _ =>
    .addCyclesEmNm 20 22

/-! Remaining inherent operations. -/

theorem sexw : Adds 4 4 (Hd6309.sexw : Exec σ Unit) :=
  Adds.regs.then' fun _ => (Adds.setD _).then' fun _ => (Adds.setNz16 _).then' fun _ =>
    (Adds.setFlag _ _).then' fun _ => .addCycles 4

theorem sex : Adds 1 2 (Hd6309.sex : Exec σ Unit) :=
  Adds.regs.then' fun _ => (Adds.setD _).then' fun _ => (Adds.setNz16 _).then' fun _ =>
    (Adds.setFlag _ _).then' fun _ => .addCyclesEmNm 2 1

theorem mul : Adds 10 11 (Hd6309.mul : Exec σ Unit) :=
  Adds.regs.then' fun _ => (Adds.setD _).then' fun _ => (Adds.setFlag _ _).then' fun _ =>
    (Adds.setFlag _ _).then' fun _ => .addCyclesEmNm 11 10

theorem leaFlag (assign : Word → Regs → Regs) : Adds 4 12 (Hd6309.leaFlag assign : Exec σ Unit) :=
  .indexed fun _ => (Adds.modifyRegs _).then' fun _ => (Adds.setFlag _ _).then' fun _ => .addCycles 4

theorem lea (assign : Word → Regs → Regs) : Adds 4 12 (Hd6309.lea assign : Exec σ Unit) :=
  .indexed fun _ => (Adds.modifyRegs _).then' fun _ => .addCycles 4

theorem bitmd : Adds 4 4 (Hd6309.bitmd : Exec σ Unit) :=
  Adds.fetch8.then' fun _ => Adds.regs.then' fun _ => (Adds.setFlag _ _).then' fun _ =>
    (Adds.modifyRegs _).then' fun _ => .addCycles 4

theorem regToReg (opcode : Byte) : Adds 4 4 (Hd6309.regToReg opcode : Exec σ Unit) := by
  refine Adds.fetch8.then' fun _ => Adds.regs.then' fun _ => .ite ?_ ?_
  · exact (Adds.applyAlu16 _ _ _).then' fun _ => (Adds.modifyRegs _).then' fun _ => .addCycles 4
  · exact (Adds.applyAlu8 _ _ _).then' fun _ => (Adds.modifyRegs _).then' fun _ => .addCycles 4

end Adds

/-- TFM of the most bytes. -/
def mostCycles : Nat := 6 + 3 * 0xFFFF

theorem Adds.instruction {lo hi : Nat} {act : Exec σ Unit} (adds : Adds lo hi act) (some : 1 ≤ lo)
    (most : hi ≤ mostCycles) : Adds 1 mostCycles act := adds.weaken some most

theorem executePage10_adds (opcode : Byte) :
    Adds 1 mostCycles (executePage10 opcode : Exec σ Unit) := by
  have small := opcode.isLt
  delta executePage10
  generalize opcode.toNat = n at small ⊢
  match n with
  | 0x21 | 0x22 | 0x23 | 0x24 | 0x25 | 0x26 | 0x27 | 0x28 | 0x29 | 0x2A | 0x2B | 0x2C | 0x2D
  | 0x2E | 0x2F =>
      exact (Adds.longBranch _).instruction (by decide) (by decide)
  | 0x30 | 0x31 | 0x32 | 0x33 | 0x34 | 0x35 | 0x36 | 0x37 =>
      exact (Adds.regToReg _).instruction (by decide) (by decide)
  | 0x38 | 0x3A =>
      exact (Adds.regs.then' fun _ => (Adds.push16 _ _).then' fun _ =>
        .addCycles 6).instruction (by decide) (by decide)
  | 0x39 | 0x3B =>
      exact ((Adds.pull16To _ _).then' fun _ => .addCycles 6).instruction (by decide) (by decide)
  | 0x3F =>
      exact (Adds.swiUnmasked _).instruction (by decide) (by decide)
  | 0x40 | 0x43 | 0x44 | 0x46 | 0x47 | 0x48 | 0x49 | 0x4A | 0x4C | 0x4D | 0x4F | 0x53 | 0x54
  | 0x56 | 0x59 | 0x5A | 0x5C | 0x5D | 0x5F =>
      exact (Adds.rmw16Inh _ _).instruction (by decide) (by decide)
  | 0x80 | 0x81 | 0x82 | 0x83 | 0x84 | 0x85 | 0x88 | 0x89 | 0x8A | 0x8B =>
      exact (Adds.alu16Imm _ _ _ _).instruction (by decide) (by decide)
  | 0x86 | 0x8E | 0xCE =>
      exact (Adds.ld16Imm _ _).instruction (by decide) (by decide)
  | 0x8C =>
      exact (Adds.cmp16Imm _ _ _).instruction (by decide) (by decide)
  | 0x90 | 0x91 | 0x92 | 0x93 | 0x94 | 0x95 | 0x98 | 0x99 | 0x9A | 0x9B =>
      exact (Adds.alu16Dir _ _ _ _).instruction (by decide) (by decide)
  | 0x96 | 0x9E | 0xDE =>
      exact (Adds.ld16Dir _ _ _).instruction (by decide) (by decide)
  | 0x97 | 0x9F | 0xDF =>
      exact (Adds.st16Dir _ _ _).instruction (by decide) (by decide)
  | 0x9C =>
      exact (Adds.cmp16Dir _ _ _).instruction (by decide) (by decide)
  | 0xA0 | 0xA1 | 0xA2 | 0xA3 | 0xA4 | 0xA5 | 0xA8 | 0xA9 | 0xAA | 0xAB =>
      exact (Adds.alu16Idx _ _ _).instruction (by decide) (by decide)
  | 0xA6 | 0xAE | 0xEE =>
      exact (Adds.ld16Idx _ _).instruction (by decide) (by decide)
  | 0xA7 | 0xAF | 0xEF =>
      exact (Adds.st16Idx _ _).instruction (by decide) (by decide)
  | 0xAC =>
      exact (Adds.cmp16Idx _ _).instruction (by decide) (by decide)
  | 0xB0 | 0xB1 | 0xB2 | 0xB3 | 0xB4 | 0xB5 | 0xB8 | 0xB9 | 0xBA | 0xBB =>
      exact (Adds.alu16Ext _ _ _ _).instruction (by decide) (by decide)
  | 0xB6 | 0xBE | 0xFE =>
      exact (Adds.ld16Ext _ _ _).instruction (by decide) (by decide)
  | 0xB7 | 0xBF | 0xFF =>
      exact (Adds.st16Ext _ _ _).instruction (by decide) (by decide)
  | 0xBC =>
      exact (Adds.cmp16Ext _ _ _).instruction (by decide) (by decide)
  | 0xDC =>
      exact (Adds.eaDirect.then' fun _ => (Adds.ldq _).then' fun _ =>
        .addCyclesEmNm 8 7).instruction (by decide) (by decide)
  | 0xDD =>
      exact (Adds.eaDirect.then' fun _ => (Adds.stq _).then' fun _ =>
        .addCyclesEmNm 8 7).instruction (by decide) (by decide)
  | 0xEC =>
      exact (Adds.indexed fun _ => (Adds.ldq _).then' fun _ =>
        .addCycles 8).instruction (by decide) (by decide)
  | 0xED =>
      exact (Adds.indexed fun _ => (Adds.stq _).then' fun _ =>
        .addCycles 8).instruction (by decide) (by decide)
  | 0xFC =>
      exact (Adds.fetch16.then' fun _ => (Adds.ldq _).then' fun _ =>
        .addCyclesEmNm 9 8).instruction (by decide) (by decide)
  | 0xFD =>
      exact (Adds.fetch16.then' fun _ => (Adds.stq _).then' fun _ =>
        .addCyclesEmNm 9 8).instruction (by decide) (by decide)
  | 0x00 | 0x01 | 0x02 | 0x03 | 0x04 | 0x05 | 0x06 | 0x07 | 0x08 | 0x09 | 0x0A | 0x0B | 0x0C
  | 0x0D | 0x0E | 0x0F | 0x10 | 0x11 | 0x12 | 0x13 | 0x14 | 0x15 | 0x16 | 0x17 | 0x18 | 0x19
  | 0x1A | 0x1B | 0x1C | 0x1D | 0x1E | 0x1F | 0x20 | 0x3C | 0x3D | 0x3E | 0x41 | 0x42 | 0x45
  | 0x4B | 0x4E | 0x50 | 0x51 | 0x52 | 0x55 | 0x57 | 0x58 | 0x5B | 0x5E | 0x60 | 0x61 | 0x62
  | 0x63 | 0x64 | 0x65 | 0x66 | 0x67 | 0x68 | 0x69 | 0x6A | 0x6B | 0x6C | 0x6D | 0x6E | 0x6F
  | 0x70 | 0x71 | 0x72 | 0x73 | 0x74 | 0x75 | 0x76 | 0x77 | 0x78 | 0x79 | 0x7A | 0x7B | 0x7C
  | 0x7D | 0x7E | 0x7F | 0x87 | 0x8D | 0x8F | 0x9D | 0xAD | 0xBD | 0xC0 | 0xC1 | 0xC2 | 0xC3
  | 0xC4 | 0xC5 | 0xC6 | 0xC7 | 0xC8 | 0xC9 | 0xCA | 0xCB | 0xCC | 0xCD | 0xCF | 0xD0 | 0xD1
  | 0xD2 | 0xD3 | 0xD4 | 0xD5 | 0xD6 | 0xD7 | 0xD8 | 0xD9 | 0xDA | 0xDB | 0xE0 | 0xE1 | 0xE2
  | 0xE3 | 0xE4 | 0xE5 | 0xE6 | 0xE7 | 0xE8 | 0xE9 | 0xEA | 0xEB | 0xF0 | 0xF1 | 0xF2 | 0xF3
  | 0xF4 | 0xF5 | 0xF6 | 0xF7 | 0xF8 | 0xF9 | 0xFA | 0xFB =>
      exact (Adds.trap _).instruction (by decide) (by decide)
  | n + 0x100 => omega

theorem executePage11_adds (opcode : Byte) :
    Adds 1 mostCycles (executePage11 opcode : Exec σ Unit) := by
  have small := opcode.isLt
  delta executePage11
  generalize opcode.toNat = n at small ⊢
  match n with
  | 0x30 | 0x31 | 0x32 | 0x33 | 0x34 | 0x35 | 0x36 | 0x37 =>
      exact (Adds.doBitbit _).instruction (by decide) (by decide)
  | 0x38 | 0x39 | 0x3A | 0x3B =>
      exact (Adds.doTfm _).instruction (by decide) (by decide)
  | 0x3C =>
      exact Adds.bitmd.instruction (by decide) (by decide)
  | 0x3D =>
      exact (Adds.fetch8.then' fun _ => (Adds.modifyRegs _).then' fun _ =>
        .addCycles 5).instruction (by decide) (by decide)
  | 0x3F =>
      exact (Adds.swiUnmasked _).instruction (by decide) (by decide)
  | 0x43 | 0x4A | 0x4C | 0x4D | 0x4F | 0x53 | 0x5A | 0x5C | 0x5D | 0x5F =>
      exact (Adds.rmw8EfInh _ _).instruction (by decide) (by decide)
  | 0x80 | 0x81 | 0x86 | 0x8B | 0xC0 | 0xC1 | 0xC6 | 0xCB =>
      exact (Adds.alu8Imm _ _ _).instruction (by decide) (by decide)
  | 0x83 | 0x8C =>
      exact (Adds.cmp16Imm _ _ _).instruction (by decide) (by decide)
  | 0x8D =>
      exact (Adds.fetch8.then' fun _ => (Adds.doDivd _).bind fun _ =>
        .addCycles 25).instruction (by decide) (by decide)
  | 0x8E =>
      exact (Adds.fetch16.then' fun _ => (Adds.doDivq _).bind fun _ =>
        .addCycles 34).instruction (by decide) (by decide)
  | 0x8F =>
      exact (Adds.fetch16.then' fun _ => (Adds.doMuld _).then' fun _ =>
        .addCycles 28).instruction (by decide) (by decide)
  | 0x90 | 0x91 | 0x96 | 0x9B | 0xD0 | 0xD1 | 0xD6 | 0xDB =>
      exact (Adds.alu8Dir _ _ _ _).instruction (by decide) (by decide)
  | 0x93 | 0x9C =>
      exact (Adds.cmp16Dir _ _ _).instruction (by decide) (by decide)
  | 0x97 | 0xD7 =>
      exact (Adds.st8Dir _ _ _).instruction (by decide) (by decide)
  | 0x9D =>
      exact (Adds.eaDirect.then' fun _ => (Adds.read8 _).then' fun _ =>
        (Adds.doDivd _).bind fun _ => .addCyclesEmNm 27 26).instruction (by decide) (by decide)
  | 0x9E =>
      exact (Adds.eaDirect.then' fun _ => (Adds.read16 _).then' fun _ =>
        (Adds.doDivq _).bind fun _ => .addCyclesEmNm 36 35).instruction (by decide) (by decide)
  | 0x9F =>
      exact (Adds.eaDirect.then' fun _ => (Adds.read16 _).then' fun _ =>
        (Adds.doMuld _).then' fun _ => .addCyclesEmNm 30 29).instruction (by decide) (by decide)
  | 0xA0 | 0xA1 | 0xA6 | 0xAB | 0xE0 | 0xE1 | 0xE6 | 0xEB =>
      exact (Adds.alu8Idx _ _ _).instruction (by decide) (by decide)
  | 0xA3 | 0xAC =>
      exact (Adds.cmp16Idx _ _).instruction (by decide) (by decide)
  | 0xA7 | 0xE7 =>
      exact (Adds.st8Idx _ _).instruction (by decide) (by decide)
  | 0xAD =>
      exact (Adds.indexed fun _ => (Adds.read8 _).then' fun _ =>
        (Adds.doDivd _).bind fun _ => .addCycles 27).instruction (by decide) (by decide)
  | 0xAE =>
      exact (Adds.indexed fun _ => (Adds.read16 _).then' fun _ =>
        (Adds.doDivq _).bind fun _ => .addCycles 36).instruction (by decide) (by decide)
  | 0xAF =>
      exact (Adds.indexed fun _ => (Adds.read16 _).then' fun _ =>
        (Adds.doMuld _).then' fun _ => .addCycles 30).instruction (by decide) (by decide)
  | 0xB0 | 0xB1 | 0xB6 | 0xBB | 0xF0 | 0xF1 | 0xF6 | 0xFB =>
      exact (Adds.alu8Ext _ _ _ _).instruction (by decide) (by decide)
  | 0xB3 | 0xBC =>
      exact (Adds.cmp16Ext _ _ _).instruction (by decide) (by decide)
  | 0xB7 | 0xF7 =>
      exact (Adds.st8Ext _ _ _).instruction (by decide) (by decide)
  | 0xBD =>
      exact (Adds.fetch16.then' fun _ => (Adds.read8 _).then' fun _ =>
        (Adds.doDivd _).bind fun _ => .addCyclesEmNm 28 27).instruction (by decide) (by decide)
  | 0xBE =>
      exact (Adds.fetch16.then' fun _ => (Adds.read16 _).then' fun _ =>
        (Adds.doDivq _).bind fun _ => .addCyclesEmNm 37 36).instruction (by decide) (by decide)
  | 0xBF =>
      exact (Adds.fetch16.then' fun _ => (Adds.read16 _).then' fun _ =>
        (Adds.doMuld _).then' fun _ => .addCyclesEmNm 31 30).instruction (by decide) (by decide)
  | 0x00 | 0x01 | 0x02 | 0x03 | 0x04 | 0x05 | 0x06 | 0x07 | 0x08 | 0x09 | 0x0A | 0x0B | 0x0C
  | 0x0D | 0x0E | 0x0F | 0x10 | 0x11 | 0x12 | 0x13 | 0x14 | 0x15 | 0x16 | 0x17 | 0x18 | 0x19
  | 0x1A | 0x1B | 0x1C | 0x1D | 0x1E | 0x1F | 0x20 | 0x21 | 0x22 | 0x23 | 0x24 | 0x25 | 0x26
  | 0x27 | 0x28 | 0x29 | 0x2A | 0x2B | 0x2C | 0x2D | 0x2E | 0x2F | 0x3E | 0x40 | 0x41 | 0x42
  | 0x44 | 0x45 | 0x46 | 0x47 | 0x48 | 0x49 | 0x4B | 0x4E | 0x50 | 0x51 | 0x52 | 0x54 | 0x55
  | 0x56 | 0x57 | 0x58 | 0x59 | 0x5B | 0x5E | 0x60 | 0x61 | 0x62 | 0x63 | 0x64 | 0x65 | 0x66
  | 0x67 | 0x68 | 0x69 | 0x6A | 0x6B | 0x6C | 0x6D | 0x6E | 0x6F | 0x70 | 0x71 | 0x72 | 0x73
  | 0x74 | 0x75 | 0x76 | 0x77 | 0x78 | 0x79 | 0x7A | 0x7B | 0x7C | 0x7D | 0x7E | 0x7F | 0x82
  | 0x84 | 0x85 | 0x87 | 0x88 | 0x89 | 0x8A | 0x92 | 0x94 | 0x95 | 0x98 | 0x99 | 0x9A | 0xA2
  | 0xA4 | 0xA5 | 0xA8 | 0xA9 | 0xAA | 0xB2 | 0xB4 | 0xB5 | 0xB8 | 0xB9 | 0xBA | 0xC2 | 0xC3
  | 0xC4 | 0xC5 | 0xC7 | 0xC8 | 0xC9 | 0xCA | 0xCC | 0xCD | 0xCE | 0xCF | 0xD2 | 0xD3 | 0xD4
  | 0xD5 | 0xD8 | 0xD9 | 0xDA | 0xDC | 0xDD | 0xDE | 0xDF | 0xE2 | 0xE3 | 0xE4 | 0xE5 | 0xE8
  | 0xE9 | 0xEA | 0xEC | 0xED | 0xEE | 0xEF | 0xF2 | 0xF3 | 0xF4 | 0xF5 | 0xF8 | 0xF9 | 0xFA
  | 0xFC | 0xFD | 0xFE | 0xFF =>
      exact (Adds.trap _).instruction (by decide) (by decide)
  | n + 0x100 => omega

theorem execute_adds_first (opcode : Byte) (below : opcode.toNat < 0x40) :
    Adds 1 mostCycles (execute opcode : Exec σ Unit) := by
  delta execute
  generalize opcode.toNat = n at below ⊢
  match n with
  | 0x00 | 0x03 | 0x04 | 0x06 | 0x07 | 0x08 | 0x09 | 0x0A | 0x0C | 0x0F =>
      exact (Adds.rmw8Dir _).instruction (by decide) (by decide)
  | 0x01 | 0x02 | 0x05 | 0x0B =>
      exact (Adds.logicmemDir _ _).instruction (by decide) (by decide)
  | 0x0D =>
      exact (Adds.eaDirect.then' fun _ => (Adds.read8 _).then' fun _ =>
        (Adds.rmw8 _ _).then' fun _ => .addCyclesEmNm 6 4).instruction (by decide) (by decide)
  | 0x0E =>
      exact ((Adds.jumpTo Adds.eaDirect).bind fun _ =>
        .addCyclesEmNm 3 2).instruction (by decide) (by decide)
  | 0x10 =>
      exact Adds.fetch8.then' fun _ => executePage10_adds _
  | 0x11 =>
      exact Adds.fetch8.then' fun _ => executePage11_adds _
  | 0x12 =>
      exact (Adds.addCyclesEmNm 2 1).instruction (by decide) (by decide)
  | 0x13 =>
      exact
        (Adds.then' (.of_same (fun _ => rfl) (fun _ => rfl) (fun _ => rfl) fun _ => rfl) fun _ =>
          .addCyclesEmNm 2 1).instruction (by decide) (by decide)
  | 0x14 =>
      exact Adds.sexw.instruction (by decide) (by decide)
  | 0x16 =>
      exact (Adds.fetch16.then' fun _ => (Adds.branchRel _).then' fun _ =>
        .addCyclesEmNm 5 4).instruction (by decide) (by decide)
  | 0x17 =>
      exact (Adds.fetch16.then' fun _ => Adds.regs.then' fun _ =>
        (Adds.push16 _ _).then' fun _ => (Adds.branchRel _).then' fun _ =>
          .addCyclesEmNm 9 7).instruction (by decide) (by decide)
  | 0x19 =>
      exact (Adds.doDaa.then' fun _ => .addCyclesEmNm 2 1).instruction (by decide) (by decide)
  | 0x1A | 0x1C =>
      exact (Adds.fetch8.then' fun _ => (Adds.modifyRegs _).then' fun _ =>
        .addCyclesEmNm 3 2).instruction (by decide) (by decide)
  | 0x1D =>
      exact Adds.sex.instruction (by decide) (by decide)
  | 0x1E =>
      exact (Adds.fetch8.then' fun _ => (Adds.doTfrExg _ _).then' fun _ =>
        .addCyclesEmNm 8 5).instruction (by decide) (by decide)
  | 0x1F =>
      exact (Adds.fetch8.then' fun _ => (Adds.doTfrExg _ _).then' fun _ =>
        .addCyclesEmNm 6 4).instruction (by decide) (by decide)
  | 0x20 | 0x21 | 0x22 | 0x23 | 0x24 | 0x25 | 0x26 | 0x27 | 0x28 | 0x29 | 0x2A | 0x2B | 0x2C
  | 0x2D | 0x2E | 0x2F =>
      exact (Adds.shortBranch _).instruction (by decide) (by decide)
  | 0x30 | 0x31 =>
      exact (Adds.leaFlag _).instruction (by decide) (by decide)
  | 0x32 | 0x33 =>
      exact (Adds.lea _).instruction (by decide) (by decide)
  | 0x34 | 0x36 =>
      exact (Adds.psh _).instruction (by decide) (by decide)
  | 0x35 | 0x37 =>
      exact (Adds.pul _).instruction (by decide) (by decide)
  | 0x39 =>
      exact Adds.rts.instruction (by decide) (by decide)
  | 0x3A =>
      exact ((Adds.modifyRegs _).then' fun _ =>
        .addCyclesEmNm 3 1).instruction (by decide) (by decide)
  | 0x3B =>
      exact Adds.rti.instruction (by decide) (by decide)
  | 0x3C =>
      exact Adds.cwai.instruction (by decide) (by decide)
  | 0x3D =>
      exact Adds.mul.instruction (by decide) (by decide)
  | 0x3F =>
      exact Adds.swi.instruction (by decide) (by decide)
  | 0x15 | 0x18 | 0x1B | 0x38 | 0x3E =>
      exact (Adds.trap _).instruction (by decide) (by decide)
  | n + 0x40 => omega

set_option maxRecDepth 4000 in
theorem execute_adds_second (opcode : Byte) (above : 0x40 ≤ opcode.toNat)
    (below : opcode.toNat < 0x80) : Adds 1 mostCycles (execute opcode : Exec σ Unit) := by
  obtain ⟨n, is⟩ := Nat.exists_eq_add_of_le' above
  delta execute
  rw [is] at below ⊢
  clear above is
  -- codes less 0x40
  match n with
  | 0x00 | 0x03 | 0x04 | 0x06 | 0x07 | 0x08 | 0x09 | 0x0A | 0x0C | 0x0D | 0x0F | 0x10 | 0x13
  | 0x14 | 0x16 | 0x17 | 0x18 | 0x19 | 0x1A | 0x1C | 0x1D | 0x1F =>
      exact (Adds.rmw8Inh _ _).instruction (by decide) (by decide)
  | 0x20 | 0x23 | 0x24 | 0x26 | 0x27 | 0x28 | 0x29 | 0x2A | 0x2C | 0x2F =>
      exact (Adds.rmw8Idx _).instruction (by decide) (by decide)
  | 0x21 | 0x22 | 0x25 | 0x2B =>
      exact (Adds.logicmemIdx _ _).instruction (by decide) (by decide)
  | 0x2D =>
      exact (Adds.indexed fun _ => (Adds.read8 _).then' fun _ =>
        (Adds.rmw8 _ _).then' fun _ => .addCycles 5).instruction (by decide) (by decide)
  | 0x2E =>
      exact ((Adds.jumpTo Adds.eaIndexed).bind fun _ =>
        .addCycles 3).instruction (by decide) (by decide)
  | 0x30 | 0x33 | 0x34 | 0x36 | 0x37 | 0x38 | 0x39 | 0x3A | 0x3C | 0x3F =>
      exact (Adds.rmw8Ext _).instruction (by decide) (by decide)
  | 0x31 | 0x32 | 0x35 | 0x3B =>
      exact (Adds.logicmemExt _ _).instruction (by decide) (by decide)
  | 0x3D =>
      exact (Adds.fetch16.then' fun _ => (Adds.read8 _).then' fun _ =>
        (Adds.rmw8 _ _).then' fun _ => .addCyclesEmNm 7 5).instruction (by decide) (by decide)
  | 0x3E =>
      exact ((Adds.jumpTo Adds.fetch16).bind fun _ =>
        .addCyclesEmNm 4 3).instruction (by decide) (by decide)
  | 0x01 | 0x02 | 0x05 | 0x0B | 0x0E | 0x11 | 0x12 | 0x15 | 0x1B | 0x1E =>
      exact (Adds.trap _).instruction (by decide) (by decide)
  | n + 0x40 => omega

set_option maxRecDepth 4000 in
theorem execute_adds_third (opcode : Byte) (above : 0x80 ≤ opcode.toNat)
    (below : opcode.toNat < 0xC0) : Adds 1 mostCycles (execute opcode : Exec σ Unit) := by
  obtain ⟨n, is⟩ := Nat.exists_eq_add_of_le' above
  delta execute
  rw [is] at below ⊢
  clear above is
  -- codes less 0x80
  match n with
  | 0x00 | 0x01 | 0x02 | 0x04 | 0x05 | 0x06 | 0x08 | 0x09 | 0x0A | 0x0B =>
      exact (Adds.alu8Imm _ _ _).instruction (by decide) (by decide)
  | 0x03 =>
      exact (Adds.alu16Imm _ _ _ _).instruction (by decide) (by decide)
  | 0x0C =>
      exact (Adds.cmp16Imm _ _ _).instruction (by decide) (by decide)
  | 0x0D =>
      exact (Adds.rel8.then' fun _ => Adds.regs.then' fun _ =>
        (Adds.push16 _ _).then' fun _ => (Adds.branchRel _).then' fun _ =>
          .addCyclesEmNm 7 6).instruction (by decide) (by decide)
  | 0x0E =>
      exact (Adds.ld16Imm _ _).instruction (by decide) (by decide)
  | 0x10 | 0x11 | 0x12 | 0x14 | 0x15 | 0x16 | 0x18 | 0x19 | 0x1A | 0x1B =>
      exact (Adds.alu8Dir _ _ _ _).instruction (by decide) (by decide)
  | 0x13 =>
      exact (Adds.alu16Dir _ _ _ _).instruction (by decide) (by decide)
  | 0x17 =>
      exact (Adds.st8Dir _ _ _).instruction (by decide) (by decide)
  | 0x1C =>
      exact (Adds.cmp16Dir _ _ _).instruction (by decide) (by decide)
  | 0x1D =>
      exact ((Adds.callTo Adds.eaDirect).bind fun _ =>
        .addCyclesEmNm 7 6).instruction (by decide) (by decide)
  | 0x1E =>
      exact (Adds.ld16Dir _ _ _).instruction (by decide) (by decide)
  | 0x1F =>
      exact (Adds.st16Dir _ _ _).instruction (by decide) (by decide)
  | 0x20 | 0x21 | 0x22 | 0x24 | 0x25 | 0x26 | 0x28 | 0x29 | 0x2A | 0x2B =>
      exact (Adds.alu8Idx _ _ _).instruction (by decide) (by decide)
  | 0x23 =>
      exact (Adds.alu16Idx _ _ _).instruction (by decide) (by decide)
  | 0x27 =>
      exact (Adds.st8Idx _ _).instruction (by decide) (by decide)
  | 0x2C =>
      exact (Adds.cmp16Idx _ _).instruction (by decide) (by decide)
  | 0x2D =>
      exact ((Adds.callTo Adds.eaIndexed).bind fun _ =>
        .addCyclesEmNm 7 6).instruction (by decide) (by decide)
  | 0x2E =>
      exact (Adds.ld16Idx _ _).instruction (by decide) (by decide)
  | 0x2F =>
      exact (Adds.st16Idx _ _).instruction (by decide) (by decide)
  | 0x30 | 0x31 | 0x32 | 0x34 | 0x35 | 0x36 | 0x38 | 0x39 | 0x3A | 0x3B =>
      exact (Adds.alu8Ext _ _ _ _).instruction (by decide) (by decide)
  | 0x33 =>
      exact (Adds.alu16Ext _ _ _ _).instruction (by decide) (by decide)
  | 0x37 =>
      exact (Adds.st8Ext _ _ _).instruction (by decide) (by decide)
  | 0x3C =>
      exact (Adds.cmp16Ext _ _ _).instruction (by decide) (by decide)
  | 0x3D =>
      exact ((Adds.callTo Adds.fetch16).bind fun _ =>
        .addCyclesEmNm 8 7).instruction (by decide) (by decide)
  | 0x3E =>
      exact (Adds.ld16Ext _ _ _).instruction (by decide) (by decide)
  | 0x3F =>
      exact (Adds.st16Ext _ _ _).instruction (by decide) (by decide)
  | 0x07 | 0x0F =>
      exact (Adds.trap _).instruction (by decide) (by decide)
  | n + 0x40 => omega

set_option maxRecDepth 4000 in
theorem execute_adds_fourth (opcode : Byte) (above : 0xC0 ≤ opcode.toNat)
    (below : opcode.toNat < 0x100) : Adds 1 mostCycles (execute opcode : Exec σ Unit) := by
  obtain ⟨n, is⟩ := Nat.exists_eq_add_of_le' above
  delta execute
  rw [is] at below ⊢
  clear above is
  -- codes less 0xC0
  match n with
  | 0x00 | 0x01 | 0x02 | 0x04 | 0x05 | 0x06 | 0x08 | 0x09 | 0x0A | 0x0B =>
      exact (Adds.alu8Imm _ _ _).instruction (by decide) (by decide)
  | 0x03 =>
      exact (Adds.alu16Imm _ _ _ _).instruction (by decide) (by decide)
  | 0x0C | 0x0E =>
      exact (Adds.ld16Imm _ _).instruction (by decide) (by decide)
  | 0x10 | 0x11 | 0x12 | 0x14 | 0x15 | 0x16 | 0x18 | 0x19 | 0x1A | 0x1B =>
      exact (Adds.alu8Dir _ _ _ _).instruction (by decide) (by decide)
  | 0x13 =>
      exact (Adds.alu16Dir _ _ _ _).instruction (by decide) (by decide)
  | 0x17 =>
      exact (Adds.st8Dir _ _ _).instruction (by decide) (by decide)
  | 0x1C | 0x1E =>
      exact (Adds.ld16Dir _ _ _).instruction (by decide) (by decide)
  | 0x1D | 0x1F =>
      exact (Adds.st16Dir _ _ _).instruction (by decide) (by decide)
  | 0x20 | 0x21 | 0x22 | 0x24 | 0x25 | 0x26 | 0x28 | 0x29 | 0x2A | 0x2B =>
      exact (Adds.alu8Idx _ _ _).instruction (by decide) (by decide)
  | 0x23 =>
      exact (Adds.alu16Idx _ _ _).instruction (by decide) (by decide)
  | 0x27 =>
      exact (Adds.st8Idx _ _).instruction (by decide) (by decide)
  | 0x2C | 0x2E =>
      exact (Adds.ld16Idx _ _).instruction (by decide) (by decide)
  | 0x2D | 0x2F =>
      exact (Adds.st16Idx _ _).instruction (by decide) (by decide)
  | 0x30 | 0x31 | 0x32 | 0x34 | 0x35 | 0x36 | 0x38 | 0x39 | 0x3A | 0x3B =>
      exact (Adds.alu8Ext _ _ _ _).instruction (by decide) (by decide)
  | 0x33 =>
      exact (Adds.alu16Ext _ _ _ _).instruction (by decide) (by decide)
  | 0x37 =>
      exact (Adds.st8Ext _ _ _).instruction (by decide) (by decide)
  | 0x3C | 0x3E =>
      exact (Adds.ld16Ext _ _ _).instruction (by decide) (by decide)
  | 0x3D | 0x3F =>
      exact (Adds.st16Ext _ _ _).instruction (by decide) (by decide)
  | 0x0D =>
      exact Adds.ldqImm.instruction (by decide) (by decide)
  | 0x07 | 0x0F =>
      exact (Adds.trap _).instruction (by decide) (by decide)
  | n + 0x40 => omega

theorem execute_adds (opcode : Byte) : Adds 1 mostCycles (execute opcode : Exec σ Unit) := by
  have small := opcode.isLt
  by_cases low : opcode.toNat < 0x80
  · by_cases first : opcode.toNat < 0x40
    · exact execute_adds_first opcode first
    · exact execute_adds_second opcode (by omega) low
  · by_cases third : opcode.toNat < 0xC0
    · exact execute_adds_third opcode (by omega) third
    · exact execute_adds_fourth opcode (by omega) small

end Pugputer.Hd6309
