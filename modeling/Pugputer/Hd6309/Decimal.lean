import Pugputer.Hd6309.MultiPrecision

namespace Pugputer.Hd6309

/-! Decimal numbers of any length, two digits to the byte. -/

variable {σ : Type}

/-- An addition to A that DAA comes after. -/
def adjusted (op : AluOp) (a b : Byte) : Exec σ Byte := do
  let r ← applyAlu8 op a b
  modifyRegs fun regs => { regs with a := r }
  doDaa
  return (← regs).a

/-- From the lowest byte up: ADDA and DAA, then ADCA and DAA. -/
def addDecimals (as bs : List Byte) : Exec σ (List Byte) :=
  upward (fun (a, b) => adjusted .add a b) (fun (a, b) => adjusted .adc a b) (as.zip bs)

/-- Both of a byte's digits are decimal ones. -/
def Packed (v : Byte) : Prop := v.toNat / 16 < 10 ∧ v.toNat % 16 < 10

def digits (v : Byte) : Nat := v.toNat / 16 * 10 + v.toNat % 16

/-- The highest byte comes first. -/
def decimalOf : List Byte → Nat
  | [] => 0
  | v :: vs => digits v * 100 ^ vs.length + decimalOf vs

/-- A byte of a decimal sum. -/
structure DecimalStep (a b : Byte) (carryIn : Bool) (out : Byte × Cpu σ) : Prop where
  packed : Packed out.1
  sum : digits out.1 + 100 * (out.2.r.getFlag ccC).toNat = digits a + digits b + carryIn.toNat

/-- What DAA makes of a binary sum, from its value and the two carries. -/
def daa (a : Byte) (carryIn half : Bool) : Byte × Bool :=
  let lo := (a &&& 0x0F#8).toNat
  let hi := (a >>> 4).toNat
  let low := if half || lo > 9 then 0x06#8 else 0#8
  let carryOut := carryIn || hi > 9 || (hi ≥ 9 && lo > 9)
  (a + (if carryOut then low ||| 0x60#8 else low), carryOut)

theorem doDaa_eq (c : Cpu σ) :
    (doDaa c).2.r.a = (daa c.r.a (c.r.getFlag ccC) (c.r.getFlag ccH)).1 ∧
      (doDaa c).2.r.getFlag ccC = (daa c.r.a (c.r.getFlag ccC) (c.r.getFlag ccH)).2 := by
  generalize result : daa c.r.a (c.r.getFlag ccC) (c.r.getFlag ccH) = out
  have flags : (doDaa c).2.r = ((({ c.r with a := out.1 }).setFlag ccC out.2).setFlag ccN
      out.1.msb).setFlag ccZ (out.1 = 0) := by
    rw [← result]
    rfl
  rw [flags]
  refine ⟨rfl, ?_⟩
  rw [Regs.getFlag_setFlag_ne _ _ (by decide), Regs.getFlag_setFlag_ne _ _ (by decide),
    Regs.getFlag_setFlag _ _ (by decide)]

/-- The correction is 6 for each digit that is past 9. -/
theorem daa_sum {a b : Byte} (packedA : Packed a) (packedB : Packed b) (carryIn : Bool) :
    let sum := a.toNat + b.toNat + carryIn.toNat
    let out := daa (BitVec.ofNat 8 sum) (sum > 0xFF)
      ((a &&& 0xF#8).toNat + (b &&& 0xF#8).toNat + carryIn.toNat > 0xF)
    Packed out.1 ∧ digits out.1 + 100 * out.2.toNat = digits a + digits b + carryIn.toNat := by
  have low (v : Byte) : (v &&& 0xF#8).toNat = v.toNat % 16 := by
    rw [BitVec.toNat_and]
    exact Nat.and_two_pow_sub_one_eq_mod _ 4
  have high (v : Byte) : (v >>> 4).toNat = v.toNat / 16 := by
    rw [BitVec.toNat_ushiftRight, Nat.shiftRight_eq_div_pow]
  have carries := Bool.toNat_lt carryIn
  obtain ⟨highA, lowA⟩ := packedA
  obtain ⟨highB, lowB⟩ := packedB
  dsimp only
  rw [daa]
  dsimp only
  rw [low, low, low, high, BitVec.toNat_ofNat]
  generalize carryIn.toNat = c at carries ⊢
  generalize sumIs : a.toNat + b.toNat + c = sum
  have lows : (decide (a.toNat % 16 + b.toNat % 16 + c > 0xF) || decide (sum % 2 ^ 8 % 16 > 9)) =
      decide (a.toNat % 16 + b.toNat % 16 + c > 9) := by
    rw [Bool.eq_iff_iff, Bool.or_eq_true, decide_eq_true_eq, decide_eq_true_eq, decide_eq_true_eq]
    omega
  have highs : (decide (sum > 0xFF) || decide (sum % 2 ^ 8 / 16 > 9) ||
      (decide (sum % 2 ^ 8 / 16 ≥ 9) && decide (sum % 2 ^ 8 % 16 > 9))) =
      decide (digits a + digits b + c > 99) := by
    rw [Bool.eq_iff_iff, Bool.or_eq_true, Bool.or_eq_true, Bool.and_eq_true, decide_eq_true_eq,
      decide_eq_true_eq, decide_eq_true_eq, decide_eq_true_eq, decide_eq_true_eq, digits, digits]
    omega
  rw [lows, highs]
  generalize more : decide (a.toNat % 16 + b.toNat % 16 + c > 9) = m
  generalize past : decide (digits a + digits b + c > 99) = p
  have ones : m = true ↔ a.toNat % 16 + b.toNat % 16 + c > 9 := by rw [← more, decide_eq_true_eq]
  have tens : p = true ↔ digits a + digits b + c > 99 := by rw [← past, decide_eq_true_eq]
  rw [digits, digits] at tens
  have value (v : BitVec 8) : (BitVec.ofNat 8 sum + v).toNat = (sum + v.toNat) % 256 := by
    rw [BitVec.toNat_add, BitVec.toNat_ofNat]
    omega
  have corrected : (BitVec.ofNat 8 sum + if p then (if m then 0x06#8 else 0#8) ||| 0x60#8
      else if m then 0x06#8 else 0#8).toNat = (sum + 6 * m.toNat + 96 * p.toNat) % 256 := by
    rw [value]
    cases m <;> cases p <;> rfl
  -- the digits of the sum, with what is carried taken from each and put to the next
  have split : ∃ H L, H < 10 ∧ L < 10 ∧ (sum + 6 * m.toNat + 96 * p.toNat) % 256 = 16 * H + L ∧
      H + 10 * p.toNat = a.toNat / 16 + b.toNat / 16 + m.toNat ∧
      L + 10 * m.toNat = a.toNat % 16 + b.toNat % 16 + c := by
    refine ⟨a.toNat / 16 + b.toNat / 16 + m.toNat - 10 * p.toNat,
      a.toNat % 16 + b.toNat % 16 + c - 10 * m.toNat, ?_⟩
    cases m <;> cases p <;> simp only [Bool.toNat_true, Bool.toNat_false, true_iff, false_iff,
      Bool.false_eq_true] at ones tens ⊢ <;> omega
  obtain ⟨H, L, smallH, smallL, whole, highs', lows'⟩ := split
  have upper : (16 * H + L) / 16 = H := by omega
  have lower : (16 * H + L) % 16 = L := by omega
  rw [Packed, digits, corrected, digits, digits, whole, upper, lower]
  exact ⟨⟨smallH, smallL⟩, by omega⟩

/-- The addition's result is in A. -/
def intoA (out : Byte × Cpu σ) : Cpu σ := { out.2 with r := { out.2.r with a := out.1 } }

theorem adjusted_eq (op : AluOp) (a b : Byte) (c : Cpu σ) :
    adjusted op a b c = ((doDaa (intoA (applyAlu8 op a b c))).2.r.a,
      (doDaa (intoA (applyAlu8 op a b c))).2) := by
  generalize added : applyAlu8 op a b c = out
  rw [adjusted, exec_bind, added, exec_bind, modifyRegs_exec, exec_bind, exec_bind, regs_exec]
  rfl

theorem add8_sets (a b : Byte) (carryIn : Bool) (c : Cpu σ) :
    (intoA (add8 a b carryIn true c)).r.a = BitVec.ofNat 8 (a.toNat + b.toNat + carryIn.toNat) ∧
      (intoA (add8 a b carryIn true c)).r.getFlag ccC =
        decide (a.toNat + b.toNat + carryIn.toNat > 0xFF) ∧
      (intoA (add8 a b carryIn true c)).r.getFlag ccH =
        decide ((a &&& 0xF#8).toNat + (b &&& 0xF#8).toNat + carryIn.toNat > 0xF) := by
  generalize carry : decide (a.toNat + b.toNat + carryIn.toNat > 0xFF) = past
  generalize half : decide ((a &&& 0xF#8).toNat + (b &&& 0xF#8).toNat + carryIn.toNat > 0xF) = pastLow
  generalize sum : BitVec.ofNat 8 (a.toNat + b.toNat + carryIn.toNat) = r8
  have sets : (add8 a b carryIn true c).2.r = ((((c.r.setFlag ccH pastLow).setFlag ccC past).setFlag
      ccV (~~~(a ^^^ b) &&& (a ^^^ r8)).msb).setFlag ccN r8.msb).setFlag ccZ (r8 = 0) := by
    rw [← carry, ← half, ← sum]
    rfl
  have value : (add8 a b carryIn true c).1 = r8 := sum
  have kept (bit : Byte) : (intoA (add8 a b carryIn true c)).r.getFlag bit =
      (add8 a b carryIn true c).2.r.getFlag bit := rfl
  refine ⟨value, ?_, ?_⟩
  · rw [kept, sets]
    exact (arith_flags (c.r.setFlag ccH pastLow) past _ _ _).1
  · rw [kept, sets, Regs.getFlag_setFlag_ne _ _ (by decide), Regs.getFlag_setFlag_ne _ _ (by decide),
      Regs.getFlag_setFlag_ne _ _ (by decide), Regs.getFlag_setFlag_ne _ _ (by decide),
      Regs.getFlag_setFlag _ _ (by decide)]

theorem adjusted_step {op : AluOp} {carryIn : Bool} {a b : Byte} {c : Cpu σ}
    (adds : applyAlu8 op a b c = add8 a b carryIn true c) (packedA : Packed a) (packedB : Packed b) :
    DecimalStep a b carryIn (adjusted op a b c) := by
  have sum := daa_sum packedA packedB carryIn
  obtain ⟨value, carry, half⟩ := add8_sets a b carryIn c
  obtain ⟨result, carryOut⟩ := doDaa_eq (intoA (add8 a b carryIn true c))
  rw [value, carry, half] at result carryOut
  rw [adjusted_eq, adds]
  generalize doDaa (intoA (add8 a b carryIn true c)) = out at result carryOut ⊢
  dsimp only at sum
  rw [← result, ← carryOut] at sum
  exact ⟨sum.1, sum.2⟩

/-- What a decimal addition leaves. -/
structure DecimalSum (as bs rs : List Byte) (r : Regs) : Prop where
  length : rs.length = as.length
  packed : ∀ v ∈ rs, Packed v
  sum : decimalOf rs + 100 ^ as.length * (r.getFlag ccC).toNat = decimalOf as + decimalOf bs

/-- Digits that take what is carried from below, and those below. -/
theorem carried_digits {high low highA lowA highB lowB carryIn carryOut p : ℕ}
    (upper : high + 100 * carryOut = highA + highB + carryIn)
    (lower : low + p * carryIn = lowA + lowB) :
    high * p + low + p * 100 * carryOut = highA * p + lowA + (highB * p + lowB) :=
  calc high * p + low + p * 100 * carryOut
      = (high + 100 * carryOut) * p + low := by ring
    _ = (highA + highB + carryIn) * p + low := by rw [upper]
    _ = highA * p + highB * p + (low + p * carryIn) := by ring
    _ = highA * p + lowA + (highB * p + lowB) := by
        rw [lower]
        ring

/-- By induction from the lowest byte, whose addition takes no carry. -/
theorem decimal_chain {first next : Byte × Byte → Exec σ Byte}
    (firsts : ∀ a b c, Packed a → Packed b → DecimalStep a b false (first (a, b) c))
    (nexts : ∀ a b c, Packed a → Packed b → DecimalStep a b (c.r.getFlag ccC) (next (a, b) c))
    {as bs : List Byte} (some : as ≠ []) (lengths : as.length = bs.length)
    (packedA : ∀ v ∈ as, Packed v) (packedB : ∀ v ∈ bs, Packed v) (c : Cpu σ) :
    DecimalSum as bs (upward first next (as.zip bs) c).1 (upward first next (as.zip bs) c).2.r := by
  induction as generalizing bs with
  | nil => exact absurd rfl some
  | cons a as ih =>
      cases bs with
      | nil => cases lengths
      | cons b bs =>
          have rest : as.length = bs.length := Nat.succ.inj lengths
          have firstA := packedA a List.mem_cons_self
          have firstB := packedB b List.mem_cons_self
          cases as with
          | nil =>
              obtain rfl : bs = [] := List.length_eq_zero_iff.mp rest.symm
              have step := firsts a b c firstA firstB
              refine ⟨rfl, fun v inside => ?_, ?_⟩
              · rw [List.mem_singleton.mp inside]
                exact step.packed
              · have sum := step.sum
                rw [Bool.toNat_false] at sum
                show digits (first (a, b) c).1 * 100 ^ 0 + 0 +
                    100 ^ 1 * ((first (a, b) c).2.r.getFlag ccC).toNat =
                  digits a * 100 ^ 0 + 0 + (digits b * 100 ^ 0 + 0)
                omega
          | cons a' as =>
              cases bs with
              | nil => cases rest
              | cons b' bs =>
                  have low := ih (List.cons_ne_nil _ _) rest
                    (fun v inside => packedA v (List.mem_cons_of_mem a inside))
                    (fun v inside => packedB v (List.mem_cons_of_mem b inside))
                  have step := nexts a b (upward first next ((a' :: as).zip (b' :: bs)) c).2
                    firstA firstB
                  refine ⟨congrArg (· + 1) low.length, fun v inside => ?_, ?_⟩
                  · rcases List.mem_cons.mp inside with rfl | inside
                    · exact step.packed
                    · exact low.packed v inside
                  · have sum := step.sum
                    have lower := low.sum
                    have long := low.length
                    show decimalOf ((next (a, b) (upward first next ((a' :: as).zip (b' :: bs)) c).2).1 ::
                        (upward first next ((a' :: as).zip (b' :: bs)) c).1) +
                      100 ^ (a' :: as).length.succ * ((next (a, b) (upward first next
                        ((a' :: as).zip (b' :: bs)) c).2).2.r.getFlag ccC).toNat = _
                    generalize upward first next ((a' :: as).zip (b' :: bs)) c = out at *
                    rw [decimalOf, decimalOf.eq_def (a :: a' :: as), decimalOf.eq_def (b :: b' :: bs)]
                    dsimp only
                    rw [long, ← rest, Nat.pow_succ]
                    exact carried_digits sum lower

/-- ADDA, then ADCA, with a DAA after each, add decimal numbers of any length: the digits are those
of the sum, and the carry is what is past them. -/
theorem decimal_addition {as bs : List Byte} (some : as ≠ []) (lengths : as.length = bs.length)
    (packedA : ∀ v ∈ as, Packed v) (packedB : ∀ v ∈ bs, Packed v) (c : Cpu σ) :
    DecimalSum as bs (addDecimals as bs c).1 (addDecimals as bs c).2.r :=
  decimal_chain (fun _ _ _ packedA packedB => adjusted_step rfl packedA packedB)
    (fun _ _ _ packedA packedB => adjusted_step rfl packedA packedB) some lengths packedA packedB c

/-- 1995 + 8007. -/
theorem decimal_addition_sample :
    DecimalSum [0x19, 0x95] [0x80, 0x07] (addDecimals [0x19, 0x95] [0x80, 0x07] blank).1
      (addDecimals [0x19, 0x95] [0x80, 0x07] blank).2.r := by
  have packed (v w : Byte) (first : Packed v) (second : Packed w) : ∀ u ∈ [v, w], Packed u := by
    intro u inside
    rcases List.mem_cons.mp inside with rfl | inside
    · exact first
    · exact List.mem_singleton.mp inside ▸ second
  exact @decimal_addition Unit [0x19, 0x95] [0x80, 0x07] (List.cons_ne_nil 0x19 [0x95]) rfl
    (packed 0x19 0x95 ⟨by decide, by decide⟩ ⟨by decide, by decide⟩)
    (packed 0x80 0x07 ⟨by decide, by decide⟩ ⟨by decide, by decide⟩) blank

end Pugputer.Hd6309
