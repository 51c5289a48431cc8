import Pugputer.Operand.Emitted

namespace Pugputer.Operand

open Hd6309

/-! What an indexed operand means, and that its bytes mean it to the CPU. -/

def load (bus : Ram) (addr : Word) : Word := word (bus addr) (bus (addr + 1))

/-- The register as it is used, and as it is left. -/
def Step.moved (v : Word) : Step → Option (Word × Word)
  | .minus2 => some (v - 2, v - 2)
  | .minus1 => some (v - 1, v - 1)
  | .zero => none
  | .plus1 => some (v, v + 1)
  | .plus2 => some (v, v + 2)

def Indexed.indirect : Indexed → Bool
  | .incdec _ _ indirect => indirect
  | .acc _ _ indirect => indirect
  | .offset _ _ _ indirect => indirect
  | .address _ => true

/-- The address, before any indirection, and the registers afterwards: from those at the end of the
operand, and the value of its expression. -/
def Indexed.denotes (value : Word) (regs : Regs) : Indexed → Word × Regs
  | .incdec r step _ =>
      match step.moved (r.get regs) with
      | none => (r.get regs, regs)
      | some (used, left) => (used, r.set regs left)
  | .acc a r _ => (r.get regs + a.get regs, regs)
  | .offset _ _ r _ => (r.get regs + value, regs)
  | .address _ => (value, regs)

/-- The CPU finds the address, and leaves the registers so. -/
structure Finds (c : Cpu Ram) (indirect : Bool) (found : Word × Regs) : Prop where
  ea : (eaIndexed c).1 = if indirect then load c.bus found.1 else found.1
  regs : (eaIndexed c).2.r = found.2
  bus : (eaIndexed c).2.bus = c.bus

def Stored (bus : Ram) : Word → List Byte → Prop
  | _, [] => True
  | addr, b :: bytes => bus addr = b ∧ Stored bus (addr + 1) bytes

/-- The registers with the PC past so many bytes. -/
def past (r : Regs) (length : ℕ) : Regs := { r with pc := r.pc + BitVec.ofNat 16 length }

variable {c : Cpu Ram} {r : Reg} {indirect : Bool} {bytes : List Byte}

theorem indirectly_finds {address : Exec Ram Word} {c' : Cpu Ram} {addr : Word} {regs : Regs}
    (run : eaIndexed c = indirectly indirect address c') (ea : (address c').1 = addr)
    (left : (address c').2.r = regs) (bus : (address c').2.bus = c.bus) :
    Finds c indirect (addr, regs) := by
  rw [indirectly, exec_bind, ea] at run
  cases indirect with
  | false => exact ⟨congrArg Prod.fst run, (congrArg (·.2.r) run).trans left, (congrArg (·.2.bus) run).trans bus⟩
  | true =>
      refine ⟨(congrArg Prod.fst run).trans ?_, (congrArg (·.2.r) run).trans left,
        (congrArg (·.2.bus) run).trans bus⟩
      change load (address c').2.bus addr = load c.bus addr
      rw [bus]

theorem eaIndexed_pc {m : Byte} (mode : m = 0x8C ∨ m = 0x8D) (stored : c.bus c.r.pc = ind10 indirect m) :
    ∃ i, eaIndexed c = indirectly indirect (byMode i (m &&& 0x0F#8).toNat)
      (fetchedPost (ind10 indirect m) c) := by
  have post : ind10 indirect m &&& 0x80#8 ≠ 0 ∧ (∀ k ∈ wBytes, (ind10 indirect m).toNat ≠ k) ∧
      ind10 indirect m &&& 0x0F#8 = m &&& 0x0F#8 ∧
      decide (ind10 indirect m &&& 0x10#8 ≠ 0) = indirect := by
    rcases mode with rfl | rfl <;> cases indirect <;> decide
  obtain ⟨long, other, low, flag⟩ := post
  refine ⟨(ind10 indirect m).extractLsb' 5 2, ?_⟩
  rw [eaIndexed_mode stored long other, low, flag]

/-! Registers that move, and accumulators. -/

theorem incdec_four (four : r.Four) {step : Step} (fair : indirect = true → step.single = false)
    (stored : c.bus c.r.pc = ind10 indirect (step.pb ||| r.rn <<< 5)) :
    Finds c indirect ((Indexed.incdec r step indirect).denotes 0 (past c.r 1)) := by
  have mode : step.pb ∈ modes := by
    cases step <;> decide
  have fair : indirect = true → step.pb ≠ 0x80#8 := fun isIndirect => by
    have double := fair isIndirect
    revert double
    cases step <;> decide
  have run := eaIndexed_four four mode fair stored
  rcases four with rfl | rfl | rfl | rfl <;> cases step <;> exact indirectly_finds run rfl rfl rfl

theorem incdec_w {step : Step} (double : step.single = false) (stored : c.bus c.r.pc = wpb step indirect) :
    Finds c indirect ((Indexed.incdec .W step indirect).denotes 0 (past c.r 1)) := by
  have long : wpb step indirect &&& 0x80#8 ≠ 0 := by
    cases step <;> cases indirect <;> decide
  have run := eaIndexed_long stored long
  cases step <;> cases indirect <;> first
    | exact ⟨congrArg Prod.fst run, congrArg (·.2.r) run, congrArg (·.2.bus) run⟩
    | cases double

theorem incdec_finds {step : Step} {f : Form} (parsed : idxparse (.incdec r step indirect) = .ok f)
    (stored : c.bus c.r.pc = f.IDXPB) :
    Finds c indirect ((Indexed.incdec r step indirect).denotes 0 (past c.r 1)) := by
  rw [idxparse] at parsed
  split at parsed
  · cases parsed
  next listed =>
  split at parsed
  · cases parsed
  next fair =>
  cases parsed
  rw [Bool.not_eq_true, Bool.and_eq_false_iff, Bool.or_eq_false_iff, decide_eq_false_iff_not] at fair
  dsimp only at stored
  split at stored
  · next w =>
      subst w
      exact incdec_w (fair.resolve_left fun other => other.2 rfl) stored
  · next other =>
      have four : r.Four := by
        revert listed other
        cases r <;> decide
      refine incdec_four four (fun isIndirect => fair.resolve_left fun plain => ?_) stored
      rw [isIndirect] at plain
      cases plain.1

theorem acc_finds {a : Acc} {f : Form} (parsed : idxparse (.acc a r indirect) = .ok f)
    (stored : c.bus c.r.pc = f.IDXPB) :
    Finds c indirect ((Indexed.acc a r indirect).denotes 0 (past c.r 1)) := by
  rw [idxparse] at parsed
  split at parsed
  · cases parsed
  next listed =>
  cases parsed
  have four : r.Four := by
    revert listed
    cases r <;> decide
  have same : ind10 indirect (r.rn <<< 5) ||| a.pb = ind10 indirect (a.pb ||| r.rn <<< 5) := by
    cases r <;> cases a <;> cases indirect <;> rfl
  have mode : a.pb ∈ modes ∧ a.pb ≠ 0x80#8 := by
    cases a <;> decide
  dsimp only at stored
  rw [same] at stored
  have run := eaIndexed_four four mode.1 (fun _ => mode.2) stored
  rcases four with rfl | rfl | rfl | rfl <;> cases a <;> exact indirectly_finds run rfl rfl rfl

/-! Offsets. -/

theorem fetch16_stored {n : Word} (c : Cpu Ram) (high : c.bus c.r.pc = hiByte n)
    (low : c.bus (c.r.pc + 1) = loByte n) :
    fetch16 c = (n, { c with r := { c.r with pc := c.r.pc + 1 + 1 } }) := by
  have value : word (c.bus c.r.pc) (c.bus (c.r.pc + 1)) = n := by
    rw [high, low, word_hiByte_loByte]
  exact Prod.ext value rfl

theorem rel8_stored {low : Byte} (c : Cpu Ram) (stored : c.bus c.r.pc = low) :
    rel8 c = (low.signExtend 16, { c with r := { c.r with pc := c.r.pc + 1 } }) := by
  rw [← stored]
  rfl

theorem past_two (regs : Regs) : { regs with pc := regs.pc + 1 + 1 } = past regs 2 := by
  have same : regs.pc + 1 + 1 = regs.pc + BitVec.ofNat 16 2 := BitVec.add_assoc regs.pc 1 1
  rw [past, same]

theorem past_three (regs : Regs) : { regs with pc := regs.pc + 1 + 1 + 1 } = past regs 3 := by
  have same : regs.pc + 1 + 1 + 1 = regs.pc + BitVec.ofNat 16 3 := by
    rw [BitVec.add_assoc, BitVec.add_assoc]
    rfl
  rw [past, same]

/-- From where the register is, or from the end of the operand. -/
def Reg.start (regs : Regs) (r : Reg) : Word := if r = .PCR then regs.pc else r.get regs

theorem start_four (four : r.Four) (regs : Regs) : r.start regs = r.get regs := by
  rcases four with rfl | rfl | rfl | rfl <;> rfl

theorem five_post (four : r.Four) : ∀ low : Byte,
    (low &&& 0x1F#8 ||| r.rn <<< 5) &&& 0x80#8 = 0 ∧
      (low &&& 0x1F#8 ||| r.rn <<< 5).extractLsb' 5 2 = r.index ∧
      (low &&& 0x1F#8 ||| r.rn <<< 5).extractLsb' 0 5 = low.extractLsb' 0 5 := by
  rcases four with rfl | rfl | rfl | rfl
  · decide
  · decide
  · decide
  · decide

theorem start_pc {r : Reg} (pc : r = .PC ∨ r = .PCR) (regs : Regs) : r.start regs = regs.pc := by
  rcases pc with rfl | rfl <;> rfl

theorem byW_none (other : Exec Ram Word) :
    byW other (if indirect = true then 0x90 else 0x8F : Byte).toNat =
      indirectly indirect (do return (← regs).w) := by
  cases indirect <;> rfl

def wOffset : Exec Ram Word := do
  let off ← fetch16
  return (← regs).w + off

theorem byW_sixteen (other : Exec Ram Word) :
    byW other (w16 indirect).toNat = indirectly indirect wOffset := by
  cases indirect <;> rfl

/-- A CPU that has come to the end of an operand, but for the cycles. -/
structure Passed (c c' : Cpu Ram) (length : ℕ) : Prop where
  regs : c'.r = past c.r length
  bus : c'.bus = c.bus

theorem rel8_passed {pb low : Byte} (stored : Stored c.bus c.r.pc [pb, low]) :
    ∃ c', rel8 (fetchedPost pb c) = (low.signExtend 16, c') ∧ Passed c c' 2 :=
  ⟨_, rel8_stored _ stored.2.1, past_two c.r, rfl⟩

theorem fetch16_passed {pb : Byte} {n : Word} (stored : Stored c.bus c.r.pc [pb, hiByte n, loByte n]) :
    ∃ c', fetch16 (fetchedPost pb c) = (n, c') ∧ Passed c c' 3 :=
  ⟨_, fetch16_stored _ stored.2.1 stored.2.2.1, past_three c.r, rfl⟩

/-- The address is found once the offset's bytes are passed. -/
theorem passed_finds {address : Exec Ram Word} (base : Regs → Word) {n : Word} {length : ℕ}
    {pb : Byte} {c' : Cpu Ram} (run : eaIndexed c = indirectly indirect address (fetchedPost pb c))
    (found : address (fetchedPost pb c) = (base c'.r + n, c')) (passed : Passed c c' length) :
    Finds c indirect (base (past c.r length) + n, past c.r length) :=
  indirectly_finds run ((congrArg Prod.fst found).trans (passed.regs ▸ rfl))
    ((congrArg (·.2.r) found).trans passed.regs) ((congrArg (·.2.bus) found).trans passed.bus)

theorem Emitted.finds {n : Word} (emitted : Emitted r indirect n bytes)
    (stored : Stored c.bus c.r.pc bytes) :
    Finds c indirect (r.start (past c.r bytes.length) + n, past c.r bytes.length) := by
  cases emitted with
  | none four =>
      have run := eaIndexed_four four (by decide) (fun _ => by decide) stored.1
      have same : r.start (past c.r 1) + 0 = r.get (past c.r 1) := by
        rw [start_four four]
        exact BitVec.add_zero _
      refine same ▸ ?_
      rcases four with rfl | rfl | rfl | rfl <;> exact indirectly_finds run rfl rfl rfl
  | five four plain low =>
      obtain ⟨short, index, bits⟩ := five_post four low
      have run := eaIndexed_short stored.1 short
      rw [index, bits] at run
      subst plain
      rcases four with rfl | rfl | rfl | rfl <;>
        exact ⟨congrArg Prod.fst run, congrArg (·.2.r) run, congrArg (·.2.bus) run⟩
  | eight four low =>
      have run := eaIndexed_four four (by decide) (fun _ => by decide) stored.1
      obtain ⟨c', off, passed⟩ := rel8_passed stored
      have address : byMode r.index 8 (fetchedPost (ind10 indirect (0x88 ||| r.rn <<< 5)) c) =
          (r.get c'.r + low.signExtend 16, c') := by
        rw [byMode, exec_bind, off, exec_bind, getIndexReg_four four]
        rfl
      rw [start_four four]
      exact passed_finds r.get run address passed
  | sixteen four n =>
      have run := eaIndexed_four four (by decide) (fun _ => by decide) stored.1
      obtain ⟨c', off, passed⟩ := fetch16_passed stored
      have address : byMode r.index 9 (fetchedPost (ind10 indirect (0x89 ||| r.rn <<< 5)) c) =
          (r.get c'.r + n, c') := by
        rw [byMode, exec_bind, off, exec_bind, getIndexReg_four four]
        rfl
      rw [start_four four]
      exact passed_finds r.get run address passed
  | wNone w =>
      subst w
      have long : (if indirect = true then 0x90 else 0x8F : Byte) &&& 0x80#8 ≠ 0 := by
        cases indirect <;> decide
      have run := eaIndexed_long stored.1 long
      rw [byW_none] at run
      have same : Reg.start (past c.r 1) .W + 0 = c.r.w := BitVec.add_zero _
      exact same ▸ indirectly_finds run rfl rfl rfl
  | wSixteen w n =>
      subst w
      have long : w16 indirect &&& 0x80#8 ≠ 0 := by
        cases indirect <;> decide
      have run := eaIndexed_long stored.1 long
      rw [byW_sixteen] at run
      obtain ⟨c', off, passed⟩ := fetch16_passed stored
      have address : wOffset (fetchedPost (w16 indirect) c) = (c'.r.w + n, c') := by
        rw [wOffset, exec_bind, off]
        rfl
      exact passed_finds (·.w) run address passed
  | pcEight pc low =>
      obtain ⟨i, run⟩ := eaIndexed_pc (.inl rfl) stored.1
      obtain ⟨c', off, passed⟩ := rel8_passed stored
      have address : byMode i 0xC (fetchedPost (ind10 indirect 0x8C) c) = (c'.r.pc + low.signExtend 16, c') := by
        rw [byMode, exec_bind, off]
        rfl
      rw [start_pc pc]
      exact passed_finds (·.pc) run address passed
  | pcSixteen pc n =>
      obtain ⟨i, run⟩ := eaIndexed_pc (.inr rfl) stored.1
      obtain ⟨c', off, passed⟩ := fetch16_passed stored
      have address : byMode i 0xD (fetchedPost (ind10 indirect 0x8D) c) = (c'.r.pc + n, c') := by
        rw [byMode, exec_bind, off]
        rfl
      rw [start_pc pc]
      exact passed_finds (·.pc) run address passed

/-! Operands assembled. -/

variable {l : Line} {s : Sized} {value : Option (BitVec 32)} {op : Indexed}

/-- [n]. -/
theorem address_finds {n : Word} (stored : Stored c.bus c.r.pc [0x9F, hiByte n, loByte n]) :
    Finds c true (n, past c.r 3) := by
  have run := eaIndexed_mode stored.1 (by decide) (by decide)
  obtain ⟨c', off, passed⟩ := fetch16_passed stored
  exact indirectly_finds run (congrArg Prod.fst off) ((congrArg (·.2.r) off).trans passed.regs)
    ((congrArg (·.2.bus) off).trans passed.bus)

theorem address_emitted {size : Size} (accepted : assemble l s value (.address size) = .ok bytes) :
    ∃ n, n = (value.getD 0).setWidth 16 ∧ bytes = [0x9F, hiByte n, loByte n] := by
  obtain ⟨f, parsed, accepted⟩ := assemble_parsed accepted
  have form : f = { IDXPB := 0x9F, IDXLINT := 2, IDXPCR := false } := by
    cases size <;> cases parsed <;> rfl
  subst form
  exact @idEmit_two l value .X _ bytes rfl rfl accepted

theorem moving_emitted {r : Reg} (moving : (∃ step, op = .incdec r step indirect) ∨
      ∃ a, op = .acc a r indirect) (accepted : assemble l s value op = .ok bytes) :
    ∃ f, idxparse op = .ok f ∧ bytes = [f.IDXPB] := by
  obtain ⟨f, parsed, accepted⟩ := assemble_parsed accepted
  have lint : f.IDXLINT = 0 := by
    rcases moving with ⟨step, rfl⟩ | ⟨a, rfl⟩
    · rw [idxparse] at parsed
      split at parsed
      · cases parsed
      split at parsed
      · cases parsed
      cases parsed
      rfl
    · rw [idxparse] at parsed
      split at parsed
      · cases parsed
      cases parsed
      rfl
  rw [if_neg (by rw [lint]; decide)] at accepted
  exact ⟨f, parsed, idEmit_zero lint accepted⟩

theorem setWidth_relative (l : Line) (n : ℕ) (value : BitVec 32) :
    (l.relative n value).setWidth 16 =
      value.setWidth 16 - (BitVec.ofNat 16 (l.oplen + l.IDXELEN + n) + l.LADDR) := by
  rw [Line.relative]
  generalize BitVec.ofNat 16 (l.oplen + l.IDXELEN + n) + l.LADDR = ends
  have small := ends.isLt
  apply BitVec.eq_of_toNat_eq
  rw [BitVec.toNat_setWidth, BitVec.toNat_sub, BitVec.toNat_sub, BitVec.toNat_setWidth,
    BitVec.toNat_setWidth]
  omega

theorem reach_start {n : ℕ} (here : c.r.pc = BitVec.ofNat 16 (l.oplen + l.IDXELEN) + l.LADDR)
    (value : BitVec 32) :
    r.start (past c.r n) + l.reach r n value = r.get (past c.r n) + value.setWidth 16 := by
  by_cases relative : r = .PCR
  · subst relative
    have ends : (past c.r n).pc = BitVec.ofNat 16 (l.oplen + l.IDXELEN + n) + l.LADDR := by
      change c.r.pc + BitVec.ofNat 16 n = _
      rw [here, @BitVec.ofNat_add 16 (l.oplen + l.IDXELEN) n, BitVec.add_assoc, BitVec.add_comm l.LADDR,
        BitVec.add_assoc]
    change (past c.r n).pc + (l.relative n value).setWidth 16 = 0 + value.setWidth 16
    rw [setWidth_relative, ← ends, BitVec.add_comm, BitVec.sub_add_cancel]
    exact (BitVec.zero_add _).symm
  · rw [Reg.start, Line.reach, if_neg relative, if_neg relative]

/-- In the bytes that an operand is assembled to, the CPU finds the address that it denotes, and moves the
registers as it says: where a value known before the line stays as it is, and << has none from 65536 up. -/
theorem indexed_operands (accepted : assemble l s value op = .ok bytes)
    (exact : s.known = true → s.inexact = false → value = some s.EVAL)
    (small : ∀ zero r indirect, op = .offset .five zero r indirect →
      ∀ v, value = some v → v.msb = true ∨ v.toNat < 0x10000)
    (stored : Stored c.bus c.r.pc bytes)
    (here : c.r.pc = BitVec.ofNat 16 (l.oplen + l.IDXELEN) + l.LADDR) :
    Finds c op.indirect (op.denotes ((value.getD 0).setWidth 16) (past c.r bytes.length)) := by
  cases op with
  | incdec r step indirect =>
      obtain ⟨f, parsed, rfl⟩ := moving_emitted (.inl ⟨step, rfl⟩) accepted
      exact incdec_finds parsed stored.1
  | acc a r indirect =>
      obtain ⟨f, parsed, rfl⟩ := moving_emitted (.inr ⟨a, rfl⟩) accepted
      exact acc_finds parsed stored.1
  | offset size zero r indirect =>
      have emitted := offset_emitted accepted exact (by
        rintro rfl
        exact small zero r indirect rfl)
      have found := emitted.finds stored
      rw [reach_start here] at found
      exact found
  | address size =>
      obtain ⟨n, found, rfl⟩ := address_emitted accepted
      exact found ▸ address_finds stored

/-- LEAX [$1080,PCR] at $1000. -/
def sampleLine : Line := { LADDR := 0x1000, LPCX := false, oplen := 1, IDXELEN := 0 }

def sampleCpu : Cpu Ram where
  r := { pc := 0x1001 }
  bus := fun a => if a = 0x1001 then 0x9C else if a = 0x1002 then 0x7D else 0x12

theorem indexed_operands_sample :
    Finds sampleCpu true (0x1080, { pc := 0x1003 }) :=
  @indexed_operands sampleCpu [0x9C, 0x7D] sampleLine { known := true, inexact := false, EVAL := 0x1080 }
    (some 0x1080) (.offset .auto false .PCR true) rfl (fun _ _ => rfl)
    (by rintro _ _ _ ⟨⟩) ⟨rfl, rfl, trivial⟩ rfl

end Pugputer.Operand
