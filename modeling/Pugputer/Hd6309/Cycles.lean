import Pugputer.Hd6309.Step

namespace Pugputer.Hd6309

/-! What instructions add to the cycle count. -/

variable {σ α β : Type} [Bus σ]

/-- A property of the bus that accesses leave. -/
structure BusInvariant (P : σ → Prop) : Prop where
  read : ∀ s addr, P s → P (Bus.read s addr).2
  write : ∀ s addr value, P s → P (Bus.write s addr value)

/-- From `lo` to `hi` cycles are added; the rest of `step`'s bookkeeping is left alone. -/
structure Adds (lo hi : Nat) (act : Exec σ α) : Prop where
  least : ∀ c, c.cycles + lo ≤ (act c).2.cycles
  most : ∀ c, (act c).2.cycles ≤ c.cycles + hi
  halted : ∀ c, (act c).2.halted = c.halted
  totalCycles : ∀ c, (act c).2.totalCycles = c.totalCycles
  bus : ∀ {P : σ → Prop}, BusInvariant P → ∀ c, P c.bus → P (act c).2.bus

namespace Adds

variable {lo hi lo' hi' : Nat} {act : Exec σ α} {next : α → Exec σ β}

theorem bind (first : Adds lo hi act) (rest : ∀ x, Adds lo' hi' (next x)) :
    Adds (lo + lo') (hi + hi') (act >>= next) where
  least c := by
    have before := first.least c
    have after := (rest (act c).1).least (act c).2
    rw [exec_bind]
    omega
  most c := by
    have before := first.most c
    have after := (rest (act c).1).most (act c).2
    rw [exec_bind]
    omega
  halted c := ((rest _).halted _).trans (first.halted c)
  totalCycles c := ((rest _).totalCycles _).trans (first.totalCycles c)
  bus invariant c holds := (rest _).bus invariant _ (first.bus invariant c holds)

theorem weaken (adds : Adds lo hi act) (less : lo' ≤ lo) (more : hi ≤ hi') : Adds lo' hi' act :=
  ⟨fun c => Nat.le_trans (Nat.add_le_add_left less _) (adds.least c),
    fun c => Nat.le_trans (adds.most c) (Nat.add_le_add_left more _),
    adds.halted, adds.totalCycles, adds.bus⟩

/-- An action that costs nothing comes first ... -/
theorem then' (first : Adds 0 0 act) (rest : ∀ x, Adds lo hi (next x)) :
    Adds lo hi (act >>= next) :=
  (first.bind rest).weaken (Nat.le_of_eq (Nat.zero_add lo).symm) (Nat.le_of_eq (Nat.zero_add hi))

/-- ... or last. -/
theorem andThen (first : Adds lo hi act) (rest : ∀ x, Adds 0 0 (next x)) :
    Adds lo hi (act >>= next) := first.bind rest

theorem ite {condition : Prop} [Decidable condition] {yes no : Exec σ α}
    (first : Adds lo hi yes) (second : Adds lo hi no) :
    Adds lo hi (if condition then yes else no) := by
  split
  · exact first
  · exact second

theorem pure (value : α) : Adds 0 0 (Pure.pure value : Exec σ α) :=
  ⟨fun _ => Nat.le_refl _, fun _ => Nat.le_refl _, fun _ => rfl, fun _ => rfl, fun _ _ holds => holds⟩

/-- An action on the registers, or on what the bookkeeping of `step` does not see. -/
theorem of_same (cycles : ∀ c, (act c).2.cycles = c.cycles) (halted : ∀ c, (act c).2.halted = c.halted)
    (totalCycles : ∀ c, (act c).2.totalCycles = c.totalCycles) (bus : ∀ c, (act c).2.bus = c.bus) :
    Adds 0 0 act :=
  ⟨fun c => Nat.le_of_eq (cycles c).symm, fun c => Nat.le_of_eq (cycles c), halted, totalCycles,
    fun _ c holds => (bus c).symm ▸ holds⟩

theorem regs : Adds 0 0 (Hd6309.regs : Exec σ Regs) :=
  .of_same (fun _ => rfl) (fun _ => rfl) (fun _ => rfl) fun _ => rfl

theorem get : Adds 0 0 (MonadState.get : Exec σ (Cpu σ)) :=
  .of_same (fun _ => rfl) (fun _ => rfl) (fun _ => rfl) fun _ => rfl

theorem native : Adds 0 0 (Hd6309.native : Exec σ Bool) :=
  .of_same (fun _ => rfl) (fun _ => rfl) (fun _ => rfl) fun _ => rfl

theorem getFlag (bit : Byte) : Adds 0 0 (Hd6309.getFlag bit : Exec σ Bool) :=
  .of_same (fun _ => rfl) (fun _ => rfl) (fun _ => rfl) fun _ => rfl

theorem modifyRegs (change : Regs → Regs) : Adds 0 0 (Hd6309.modifyRegs change : Exec σ Unit) :=
  .of_same (fun _ => rfl) (fun _ => rfl) (fun _ => rfl) fun _ => rfl

theorem setFlag (bit : Byte) (value : Bool) : Adds 0 0 (Hd6309.setFlag bit value : Exec σ Unit) :=
  .modifyRegs _

theorem addCycles (n : Nat) : Adds n n (Hd6309.addCycles n : Exec σ Unit) :=
  ⟨fun _ => Nat.le_refl _, fun _ => Nat.le_refl _, fun _ => rfl, fun _ => rfl, fun _ _ holds => holds⟩

theorem addCyclesEmNm (em nm : Nat) :
    Adds (min em nm) (max em nm) (Hd6309.addCyclesEmNm em nm : Exec σ Unit) := by
  refine ⟨fun c => ?_, fun c => ?_, fun _ => rfl, fun _ => rfl, fun _ _ holds => holds⟩
  · change c.cycles + min em nm ≤ c.cycles + if c.r.native then nm else em
    split
    · omega
    · omega
  · change (c.cycles + if c.r.native then nm else em) ≤ c.cycles + max em nm
    split
    · omega
    · omega

theorem read8 (addr : Word) : Adds 0 0 (Hd6309.read8 addr : Exec σ Byte) :=
  ⟨fun _ => Nat.le_refl _, fun _ => Nat.le_refl _, fun _ => rfl, fun _ => rfl,
    fun invariant c holds => invariant.read c.bus addr holds⟩

theorem write8 (addr : Word) (value : Byte) : Adds 0 0 (Hd6309.write8 addr value : Exec σ Unit) :=
  ⟨fun _ => Nat.le_refl _, fun _ => Nat.le_refl _, fun _ => rfl, fun _ => rfl,
    fun invariant c holds => invariant.write c.bus addr value holds⟩

theorem read16 (addr : Word) : Adds 0 0 (Hd6309.read16 addr : Exec σ Word) :=
  (Adds.read8 _).then' fun _ => (Adds.read8 _).then' fun _ => .pure _

theorem write16 (addr value : Word) : Adds 0 0 (Hd6309.write16 addr value : Exec σ Unit) :=
  (Adds.write8 _ _).then' fun _ => .write8 _ _

theorem fetch8 : Adds 0 0 (Hd6309.fetch8 : Exec σ Byte) :=
  Adds.regs.then' fun _ => (Adds.read8 _).then' fun _ => (Adds.modifyRegs _).then' fun _ => .pure _

theorem fetch16 : Adds 0 0 (Hd6309.fetch16 : Exec σ Word) :=
  Adds.fetch8.then' fun _ => Adds.fetch8.then' fun _ => .pure _

/-! Operands and stacks. -/

theorem eaDirect : Adds 0 0 (Hd6309.eaDirect : Exec σ Word) :=
  Adds.regs.then' fun _ => Adds.fetch8.then' fun _ => .pure _

theorem rel8 : Adds 0 0 (Hd6309.rel8 : Exec σ Word) := Adds.fetch8.then' fun _ => .pure _

theorem getIndexReg (i : BitVec 2) : Adds 0 0 (Hd6309.getIndexReg i : Exec σ Word) :=
  Adds.regs.then' fun _ => .pure _

theorem setIndexReg (i : BitVec 2) (value : Word) :
    Adds 0 0 (Hd6309.setIndexReg i value : Exec σ Unit) := .modifyRegs _

theorem setW (value : Word) : Adds 0 0 (Hd6309.setW value : Exec σ Unit) := .modifyRegs _

theorem setD (value : Word) : Adds 0 0 (Hd6309.setD value : Exec σ Unit) := .modifyRegs _

theorem push8 (sp : Stack) (value : Byte) : Adds 0 0 (Hd6309.push8 sp value : Exec σ Unit) :=
  (Adds.modifyRegs _).then' fun _ => Adds.regs.then' fun _ => .write8 _ _

theorem push16 (sp : Stack) (value : Word) : Adds 0 0 (Hd6309.push16 sp value : Exec σ Unit) :=
  (Adds.push8 _ _).then' fun _ => .push8 _ _

theorem pull8 (sp : Stack) : Adds 0 0 (Hd6309.pull8 sp : Exec σ Byte) :=
  Adds.regs.then' fun _ => (Adds.read8 _).then' fun _ => (Adds.modifyRegs _).then' fun _ => .pure _

theorem pull16 (sp : Stack) : Adds 0 0 (Hd6309.pull16 sp : Exec σ Word) :=
  (Adds.pull8 _).then' fun _ => (Adds.pull8 _).then' fun _ => .pure _

end Adds

theorem indexedExtraCycles_le : ∀ nm pb, indexedExtraCycles nm pb ≤ 8 := by decide

namespace Adds

theorem eaIndexed : Adds 0 8 (Hd6309.eaIndexed : Exec σ Word) := by
  refine Adds.fetch8.then' fun pb => Adds.native.then' fun nm => ?_
  refine ((Adds.addCycles _).weaken (Nat.zero_le _) (indexedExtraCycles_le nm pb)).andThen
    fun _ => ?_
  dsimp only
  split
  · exact (Adds.getIndexReg _).then' fun _ => .pure _
  · split
    · exact Adds.regs.then' fun _ => .pure _
    · exact Adds.fetch16.then' fun _ => Adds.regs.then' fun _ => .pure _
    · exact Adds.regs.then' fun _ => (Adds.setW _).then' fun _ => .pure _
    · exact Adds.regs.then' fun _ => (Adds.setW _).then' fun _ => .pure _
    · exact Adds.regs.then' fun _ => .read16 _
    · exact Adds.fetch16.then' fun _ => Adds.regs.then' fun _ => .read16 _
    · exact Adds.regs.then' fun _ => (Adds.setW _).then' fun _ => .read16 _
    · exact Adds.regs.then' fun _ => (Adds.setW _).then' fun _ => .read16 _
    · refine Adds.then' ?_ fun _ => .ite (.read16 _) (.pure _)
      have stepped (value : Word) : Adds 0 0 (do
          let v ← Hd6309.getIndexReg (pb.extractLsb' 5 2)
          Hd6309.setIndexReg (pb.extractLsb' 5 2) (v + value)
          return v : Exec σ Word) :=
        (Adds.getIndexReg _).then' fun _ => (Adds.setIndexReg _ _).then' fun _ => .pure _
      have added (offset : Regs → Word) : Adds 0 0 (do
          return (← Hd6309.getIndexReg (pb.extractLsb' 5 2)) + offset (← Hd6309.regs) : Exec σ Word) :=
        (Adds.getIndexReg _).then' fun _ => Adds.regs.then' fun _ => .pure _
      split
      · exact stepped 1
      · exact stepped 2
      · exact (Adds.getIndexReg _).then' fun _ => (Adds.setIndexReg _ _).then' fun _ => .getIndexReg _
      · exact (Adds.getIndexReg _).then' fun _ => (Adds.setIndexReg _ _).then' fun _ => .getIndexReg _
      · exact Adds.getIndexReg _
      · exact added fun r => r.b.signExtend 16
      · exact added fun r => r.a.signExtend 16
      · exact added fun r => r.e.signExtend 16
      · exact Adds.rel8.then' fun _ => (Adds.getIndexReg _).then' fun _ => .pure _
      · exact Adds.fetch16.then' fun _ => (Adds.getIndexReg _).then' fun _ => .pure _
      · exact added fun r => r.f.signExtend 16
      · exact added fun r => r.d
      · exact Adds.rel8.then' fun _ => Adds.regs.then' fun _ => .pure _
      · exact Adds.fetch16.then' fun _ => Adds.regs.then' fun _ => .pure _
      · exact added fun r => r.w
      · exact Adds.fetch16

/-! Flags and the ALU. -/

theorem setNz8 (v : Byte) : Adds 0 0 (Hd6309.setNz8 v : Exec σ Unit) :=
  (Adds.setFlag _ _).then' fun _ => .setFlag _ _

theorem setNz16 (v : Word) : Adds 0 0 (Hd6309.setNz16 v : Exec σ Unit) :=
  (Adds.setFlag _ _).then' fun _ => .setFlag _ _

theorem sub8 (a b : Byte) (borrowIn : Bool) : Adds 0 0 (Hd6309.sub8 a b borrowIn : Exec σ Byte) :=
  (Adds.setFlag _ _).then' fun _ => (Adds.setFlag _ _).then' fun _ => (Adds.setNz8 _).then' fun _ =>
    .pure _

theorem add8 (a b : Byte) (carryIn affectH : Bool) :
    Adds 0 0 (Hd6309.add8 a b carryIn affectH : Exec σ Byte) := by
  have rest {r8 : Byte} {first second : Bool} : Adds 0 0 (do
      Hd6309.setFlag ccC first
      Hd6309.setFlag ccV second
      Hd6309.setNz8 r8
      return r8 : Exec σ Byte) :=
    (Adds.setFlag _ _).then' fun _ => (Adds.setFlag _ _).then' fun _ => (Adds.setNz8 _).then' fun _ =>
      .pure _
  exact .ite ((Adds.setFlag _ _).then' fun _ => rest) rest

theorem add16 (a b : Word) (carryIn : Bool) : Adds 0 0 (Hd6309.add16 a b carryIn : Exec σ Word) :=
  (Adds.setFlag _ _).then' fun _ => (Adds.setFlag _ _).then' fun _ => (Adds.setNz16 _).then' fun _ =>
    .pure _

theorem sub16 (a b : Word) (borrowIn : Bool) : Adds 0 0 (Hd6309.sub16 a b borrowIn : Exec σ Word) :=
  (Adds.setFlag _ _).then' fun _ => (Adds.setFlag _ _).then' fun _ => (Adds.setNz16 _).then' fun _ =>
    .pure _

theorem logic8 (r : Byte) : Adds 0 0 (Hd6309.logic8 r : Exec σ Byte) :=
  (Adds.setFlag _ _).then' fun _ => (Adds.setNz8 _).then' fun _ => .pure _

theorem logic16 (r : Word) : Adds 0 0 (Hd6309.logic16 r : Exec σ Word) :=
  (Adds.setFlag _ _).then' fun _ => (Adds.setNz16 _).then' fun _ => .pure _

theorem cmp8 (a b : Byte) : Adds 0 0 (Hd6309.cmp8 a b : Exec σ Unit) :=
  (Adds.sub8 _ _ _).then' fun _ => .pure _

theorem cmp16 (a b : Word) : Adds 0 0 (Hd6309.cmp16 a b : Exec σ Unit) :=
  (Adds.sub16 _ _ _).then' fun _ => .pure _

theorem rmw {n : Nat} {setNz : BitVec n → Exec σ Unit} (free : ∀ v, Adds 0 0 (setNz v))
    (op : RmwOp) (v : BitVec n) : Adds 0 0 (Hd6309.rmw setNz op v : Exec σ (BitVec n)) := by
  cases op with
  | neg | com | asl =>
      exact (Adds.setFlag _ _).then' fun _ => (Adds.setFlag _ _).then' fun _ => (free _).then' fun _ =>
        .pure _
  | lsr | asr | dec | inc | tst =>
      exact (Adds.setFlag _ _).then' fun _ => (free _).then' fun _ => .pure _
  | ror =>
      exact (Adds.getFlag _).then' fun _ => (Adds.setFlag _ _).then' fun _ => (free _).then' fun _ =>
        .pure _
  | rol =>
      exact (Adds.getFlag _).then' fun _ => (Adds.setFlag _ _).then' fun _ =>
        (Adds.setFlag _ _).then' fun _ => (free _).then' fun _ => .pure _
  | clr =>
      exact (Adds.setFlag _ _).then' fun _ => (Adds.setFlag _ _).then' fun _ =>
        (Adds.setFlag _ _).then' fun _ => (Adds.setFlag _ _).then' fun _ => .pure _

theorem rmw8 (op : RmwOp) (v : Byte) : Adds 0 0 (Hd6309.rmw8 op v : Exec σ Byte) := .rmw .setNz8 op v

theorem rmw16 (op : RmwOp) (v : Word) : Adds 0 0 (Hd6309.rmw16 op v : Exec σ Word) :=
  .rmw .setNz16 op v

theorem applyAlu8 (op : AluOp) (reg operand : Byte) :
    Adds 0 0 (Hd6309.applyAlu8 op reg operand : Exec σ Byte) := by
  cases op with
  | sub => exact Adds.sub8 _ _ _
  | cmp => exact (Adds.cmp8 _ _).then' fun _ => .pure _
  | sbc => exact (Adds.getFlag _).then' fun _ => .sub8 _ _ _
  | and | ld | eor | or => exact Adds.logic8 _
  | bit => exact (Adds.logic8 _).then' fun _ => .pure _
  | adc => exact (Adds.getFlag _).then' fun _ => .add8 _ _ _ _
  | add => exact Adds.add8 reg operand false true

theorem applyAlu16 (op : AluOp) (reg operand : Word) :
    Adds 0 0 (Hd6309.applyAlu16 op reg operand : Exec σ Word) := by
  cases op with
  | sub => exact Adds.sub16 _ _ _
  | cmp => exact (Adds.cmp16 _ _).then' fun _ => .pure _
  | sbc => exact (Adds.getFlag _).then' fun _ => .sub16 _ _ _
  | and | ld | eor | or => exact Adds.logic16 _
  | bit => exact (Adds.logic16 _).then' fun _ => .pure _
  | adc => exact (Adds.getFlag _).then' fun _ => .add16 _ _ _
  | add => exact Adds.add16 _ _ _

/-! Interrupts. -/

theorem pushFullSet : Adds 0 0 (Hd6309.pushFullSet : Exec σ Unit) := by
  have tail : Adds 0 0 (do
      Hd6309.push8 .system (← Hd6309.regs).b
      Hd6309.push8 .system (← Hd6309.regs).a
      Hd6309.push8 .system (← Hd6309.regs).cc : Exec σ Unit) :=
    Adds.regs.then' fun _ => (Adds.push8 _ _).then' fun _ => Adds.regs.then' fun _ =>
      (Adds.push8 _ _).then' fun _ => Adds.regs.then' fun _ => .push8 _ _
  refine (Adds.setFlag _ _).then' fun _ => Adds.regs.then' fun _ => (Adds.push16 _ _).then' fun _ =>
    Adds.regs.then' fun _ => (Adds.push16 _ _).then' fun _ => Adds.regs.then' fun _ =>
    (Adds.push16 _ _).then' fun _ => Adds.regs.then' fun _ => (Adds.push16 _ _).then' fun _ =>
    Adds.regs.then' fun _ => (Adds.push8 _ _).then' fun _ => Adds.native.then' fun _ => ?_
  exact .ite (Adds.regs.then' fun _ => (Adds.push8 _ _).then' fun _ => Adds.regs.then' fun _ =>
    (Adds.push8 _ _).then' fun _ => tail) tail

theorem pushPartialSet : Adds 0 0 (Hd6309.pushPartialSet : Exec σ Unit) :=
  (Adds.setFlag _ _).then' fun _ => Adds.regs.then' fun _ => (Adds.push16 _ _).then' fun _ =>
    Adds.regs.then' fun _ => .push8 _ _

theorem enterInterrupt (vector : Word) (ccSetMask : Byte) (fullStack : Bool) :
    Adds 0 0 (Hd6309.enterInterrupt vector ccSetMask fullStack : Exec σ Unit) := by
  have tail : Adds 0 0 (do
      Hd6309.modifyRegs fun r => { r with cc := r.cc ||| ccSetMask }
      let target ← Hd6309.read16 vector
      Hd6309.modifyRegs fun r => { r with pc := target } : Exec σ Unit) :=
    (Adds.modifyRegs _).then' fun _ => (Adds.read16 _).then' fun _ => .modifyRegs _
  refine Adds.get.then' fun c => Adds.then' ?_ fun _ => ?_
  · exact .of_same (fun _ => rfl) (fun _ => rfl) (fun _ => rfl) fun _ => rfl
  · exact .ite (.ite (Adds.pushFullSet.then' fun _ => tail)
      (Adds.pushPartialSet.then' fun _ => tail)) tail

theorem trap (mdBit : Byte) : Adds 19 21 (Hd6309.trap mdBit : Exec σ Unit) := by
  refine (Adds.modifyRegs _).then' fun _ => (Adds.enterInterrupt _ _ _).then' fun _ =>
    Adds.then' ?_ fun _ => .addCyclesEmNm 19 21
  exact .of_same (fun _ => rfl) (fun _ => rfl) (fun _ => rfl) fun _ => rfl

/-! Transfers, block moves, bits and division. -/

theorem doTfrExg (postbyte : Byte) (isExg : Bool) :
    Adds 0 0 (Hd6309.doTfrExg postbyte isExg : Exec σ Unit) :=
  Adds.regs.then' fun _ => .ite (.modifyRegs _) (.modifyRegs _)

/-- A byte of TFM is three cycles. -/
theorem tfmLoop (form : TfmForm) (src dst : BitVec 4) (count : Nat) (sp dp : Word) :
    Adds 0 (3 * count) (Hd6309.tfmLoop form src dst count sp dp : Exec σ Bool) := by
  induction count generalizing sp dp with
  | zero => exact Adds.pure _
  | succ count ih =>
      have rest : Adds 0 (3 * count) (do
          let c ← MonadState.get
          if count ≠ 0 ∧ c.lines.serviceable c.r then return true
          Hd6309.tfmLoop form src dst count (sp + form.srcStep) (dp + form.dstStep) : Exec σ Bool) :=
        Adds.get.then' fun _ => .ite ((Adds.pure _).weaken (Nat.le_refl 0) (Nat.zero_le _)) (ih _ _)
      refine (Adds.read8 _).then' fun _ => (Adds.write8 _ _).then' fun _ => ?_
      refine ((Adds.addCycles 3).bind fun _ => (Adds.modifyRegs _).then' fun _ =>
        (Adds.modifyRegs _).then' fun _ => (Adds.modifyRegs _).then' fun _ => rest).weaken ?_ ?_
      · exact Nat.zero_le _
      · omega

theorem doTfm (form : TfmForm) : Adds 6 (6 + 3 * 0xFFFF) (Hd6309.doTfm form : Exec σ Unit) := by
  refine Adds.fetch8.then' fun _ => Adds.regs.then' fun _ => Adds.regs.then' fun _ =>
    Adds.regs.then' fun r => ?_
  have most := r.w.isLt
  have moved (sp dp : Word) (src dst : BitVec 4) :=
    (Adds.tfmLoop (σ := σ) form src dst r.w.toNat sp dp).weaken (Nat.le_refl 0)
      (show 3 * r.w.toNat ≤ 3 * 0xFFFF by omega)
  refine (Adds.addCycles 6).bind fun _ => (moved _ _ _ _).andThen fun _ => ?_
  refine .ite ?_ (.pure _)
  exact .of_same (fun _ => rfl) (fun _ => rfl) (fun _ => rfl) fun _ => rfl

theorem doBitbit (op : BitOp) : Adds 6 8 (Hd6309.doBitbit op : Exec σ Unit) := by
  refine Adds.fetch8.then' fun _ => Adds.eaDirect.then' fun _ => (Adds.read8 _).then' fun _ =>
    Adds.regs.then' fun _ => ?_
  have loads : Adds 6 8 (Hd6309.addCyclesEmNm 7 6 : Exec σ Unit) :=
    (Adds.addCyclesEmNm 7 6).weaken (by decide) (by decide)
  cases op with
  | stbt =>
      exact (Adds.write8 _ _).then' fun _ => (Adds.addCyclesEmNm 8 7).weaken (by decide) (by decide)
  | band | biand | bor | bior | beor | bieor | ldbt => exact (Adds.modifyRegs _).then' fun _ => loads

theorem doDaa : Adds 0 0 (Hd6309.doDaa : Exec σ Unit) :=
  Adds.regs.then' fun _ => (Adds.getFlag _).then' fun _ => (Adds.getFlag _).then' fun _ =>
    (Adds.modifyRegs _).then' fun _ => (Adds.setFlag _ _).then' fun _ => .setNz8 _

theorem doDivd (divisor : Byte) : Adds 0 21 (Hd6309.doDivd divisor : Exec σ Unit) := by
  refine .ite ((Adds.trap _).weaken (by decide) (by decide)) ?_
  refine (?_ : Adds 0 0 _).weaken (by decide) (by decide)
  exact Adds.regs.then' fun _ => (Adds.modifyRegs _).then' fun _ => (Adds.setFlag _ _).then' fun _ =>
    (Adds.setFlag _ _).then' fun _ => .setNz8 _

theorem doDivq (divisor : Word) : Adds 0 21 (Hd6309.doDivq divisor : Exec σ Unit) := by
  refine .ite ((Adds.trap _).weaken (by decide) (by decide)) ?_
  refine (?_ : Adds 0 0 _).weaken (by decide) (by decide)
  exact Adds.regs.then' fun _ => (Adds.setD _).then' fun _ => (Adds.setW _).then' fun _ =>
    (Adds.setFlag _ _).then' fun _ => (Adds.setFlag _ _).then' fun _ => .setNz16 _

theorem doMuld (multiplier : Word) : Adds 0 0 (Hd6309.doMuld multiplier : Exec σ Unit) :=
  Adds.regs.then' fun _ => (Adds.modifyRegs _).then' fun _ => (Adds.setFlag _ _).then' fun _ =>
    (Adds.setFlag _ _).then' fun _ => (Adds.setFlag _ _).then' fun _ => .setFlag _ _

end Adds

end Pugputer.Hd6309
