import Pugputer.Hd6309.Ram
import Pugputer.Lib.HostInt

namespace Pugputer.Hd6309

open HostInt (Within divMod divMod_eq_some tdiv_within tmod_natAbs_lt tmod_sign)

/-! DIVD and DIVQ, and the host's arithmetic under them. -/

/-- `int` and `int32_t` of the host. -/
def int32Half : Int := 2147483648

/-- `dividend / div` and `dividend % div` as `do_divd` computes them. -/
def divdHost (d : Word) (divisor : Byte) : Option (Int × Int) :=
  divMod int32Half d.toInt divisor.toInt

/-- `sdividend / div` and `sdividend % div` as `do_divq` computes them. -/
def divqHost (q : BitVec 32) (divisor : Word) : Option (Int × Int) :=
  divMod int32Half q.toInt divisor.toInt

/-! What a division leaves. -/

/-- Without V, a quotient and a remainder are those of the dividend; V says that the true quotient
does not fit. -/
structure Divided (half dividend divisor quotient remainder : Int) (v : Bool) : Prop where
  exact : v = false → quotient * divisor + remainder = dividend ∧
    remainder.natAbs < divisor.natAbs ∧ (remainder = 0 ∨ remainder.sign = dividend.sign)
  overflow : v = true ↔ ¬Within half (dividend.tdiv divisor)

theorem divided {half dividend divisor quotient remainder : Int} {v : Bool}
    (nonzero : divisor ≠ 0) (flag : v = true ↔ ¬Within half (dividend.tdiv divisor))
    (quotientIs : Within half (dividend.tdiv divisor) → quotient = dividend.tdiv divisor)
    (remainderIs : remainder = dividend.tmod divisor) :
    Divided half dividend divisor quotient remainder v where
  exact clear := by
    have fits : Within half (dividend.tdiv divisor) :=
      Decidable.byContradiction fun past => Bool.noConfusion (clear.symm.trans (flag.mpr past))
    rw [quotientIs fits, remainderIs]
    exact ⟨Int.tdiv_mul_add_tmod _ _, tmod_natAbs_lt _ nonzero, tmod_sign _ _⟩
  overflow := flag

theorem toInt_ne_zero {n : Nat} {v : BitVec n} (nonzero : v ≠ 0) : v.toInt ≠ 0 := by
  intro zero
  exact nonzero (BitVec.eq_of_toInt_eq (zero.trans BitVec.toInt_zero.symm))

theorem toInt8 {v : Int} (fits : Within 128 v) : (BitVec.ofInt 8 v).toInt = v :=
  BitVec.toInt_ofInt_eq_self (by decide) fits.1 fits.2

theorem toInt16 {v : Int} (fits : Within 32768 v) : (BitVec.ofInt 16 v).toInt = v :=
  BitVec.toInt_ofInt_eq_self (by decide) fits.1 fits.2

theorem within8 (v : Byte) : Within 128 v.toInt := ⟨BitVec.le_toInt v, BitVec.toInt_lt⟩

theorem within16 (v : Word) : Within 32768 v.toInt := ⟨BitVec.le_toInt v, BitVec.toInt_lt⟩

theorem within32 (v : BitVec 32) : Within int32Half v.toInt := ⟨BitVec.le_toInt v, BitVec.toInt_lt⟩

/-- A remainder fits where its divisor does. -/
theorem tmod_within {half divisor : Int} (dividend : Int) (nonzero : divisor ≠ 0)
    (fits : Within half divisor) : Within half (dividend.tmod divisor) := by
  have less := tmod_natAbs_lt dividend nonzero
  obtain ⟨low, high⟩ := fits
  exact ⟨by omega, by omega⟩

/-! The registers left alone. -/

variable {σ : Type}

/-- All but what a trap entry changes. -/
def Regs.entered (r : Regs) : Regs := { r with pc := 0, s := 0, cc := 0 }

/-- An action that changes no register but PC, S and CC. -/
def Enters (act : Exec σ α) : Prop := ∀ c, (act c).2.r.entered = c.r.entered

namespace Enters

variable {first : Exec σ α} {next : α → Exec σ β}

theorem bind (before : Enters first) (after : ∀ a, Enters (next a)) : Enters (first >>= next) :=
  fun c => (after _ _).trans (before c)

theorem ite {condition : Prop} [Decidable condition] {yes no : Exec σ α} (whenYes : Enters yes)
    (whenNo : Enters no) : Enters (if condition then yes else no) := by
  split
  · exact whenYes
  · exact whenNo

theorem regs : Enters (σ := σ) regs := fun _ => rfl

theorem native : Enters (σ := σ) native := fun _ => rfl

theorem get : Enters (σ := σ) get := fun _ => rfl

theorem pure (a : α) : Enters (σ := σ) (pure a) := fun _ => rfl

theorem setFlag (bit : Byte) (value : Bool) : Enters (σ := σ) (setFlag bit value) := fun _ => rfl

theorem modifyRegs {change : Regs → Regs} (same : ∀ r, (change r).entered = r.entered) :
    Enters (σ := σ) (modifyRegs change) := fun c => same c.r

theorem modify {change : Cpu σ → Cpu σ} (same : ∀ c, (change c).r = c.r) :
    Enters (modify change : Exec σ Unit) := fun c => congrArg Regs.entered (same c)

end Enters

/-! The registers after one. -/

variable [Bus σ]

/-- The flags a division sets besides V. -/
theorem getFlag_divided (r : Regs) (v c n z : Bool) :
    ((((r.setFlag ccV v).setFlag ccC c).setFlag ccN n).setFlag ccZ z).getFlag ccV = v := by
  rw [Regs.getFlag_setFlag_ne _ _ (by decide), Regs.getFlag_setFlag_ne _ _ (by decide),
    Regs.getFlag_setFlag_ne _ _ (by decide), Regs.getFlag_setFlag _ _ (by decide)]

theorem doDivd_ok (c : Cpu σ) {divisor : Byte} (nonzero : divisor ≠ 0) :
    ∃ n z, (doDivd divisor c).2 = { c with
      r := (((({ c.r with
        b := BitVec.ofInt 8 (c.r.d.toInt.tdiv divisor.toInt)
        a := BitVec.ofInt 8 (c.r.d.toInt.tmod divisor.toInt) } : Regs).setFlag ccV
          (c.r.d.toInt.tdiv divisor.toInt < -128 || c.r.d.toInt.tdiv divisor.toInt > 127)).setFlag
          ccC false).setFlag ccN n).setFlag ccZ z } := by
  rw [doDivd, if_neg nonzero]
  exact ⟨_, _, rfl⟩

theorem doDivq_ok (c : Cpu σ) {divisor : Word} (nonzero : divisor ≠ 0) :
    ∃ n z, (doDivq divisor c).2 = { c with
      r := (((((c.r.setD (BitVec.ofInt 16 (c.r.q.toInt.tdiv divisor.toInt))).setW
        (BitVec.ofInt 16 (c.r.q.toInt.tmod divisor.toInt))).setFlag ccV
          (c.r.q.toInt.tdiv divisor.toInt < -32768 ||
            c.r.q.toInt.tdiv divisor.toInt > 32767)).setFlag
          ccC false).setFlag ccN n).setFlag ccZ z } := by
  rw [doDivq, if_neg nonzero]
  exact ⟨_, _, rfl⟩

theorem outside_iff {half low high v : Int} (lowIs : low = -half) (highIs : high + 1 = half) :
    (v < low || v > high) = true ↔ ¬Within half v := by
  rw [Bool.or_eq_true, decide_eq_true_iff, decide_eq_true_iff, Within]
  omega

theorem doDivd_divided (c : Cpu σ) {divisor : Byte} (nonzero : divisor ≠ 0) :
    Divided 128 c.r.d.toInt divisor.toInt (doDivd divisor c).2.r.b.toInt
      (doDivd divisor c).2.r.a.toInt ((doDivd divisor c).2.r.getFlag ccV) := by
  obtain ⟨n, z, after⟩ := doDivd_ok c nonzero
  have divides := toInt_ne_zero nonzero
  rw [after]
  refine divided divides ?_ toInt8 ?_
  · rw [getFlag_divided]
    exact outside_iff rfl rfl
  · exact toInt8 (tmod_within _ divides (within8 divisor))

theorem doDivq_divided (c : Cpu σ) {divisor : Word} (nonzero : divisor ≠ 0) :
    Divided 32768 c.r.q.toInt divisor.toInt (doDivq divisor c).2.r.d.toInt
      (doDivq divisor c).2.r.w.toInt ((doDivq divisor c).2.r.getFlag ccV) := by
  obtain ⟨n, z, after⟩ := doDivq_ok c nonzero
  have divides := toInt_ne_zero nonzero
  have quotient : (doDivq divisor c).2.r.d =
      BitVec.ofInt 16 (c.r.q.toInt.tdiv divisor.toInt) := by
    rw [after]
    exact Regs.d_setD c.r _
  have remainder : (doDivq divisor c).2.r.w =
      BitVec.ofInt 16 (c.r.q.toInt.tmod divisor.toInt) := by
    rw [after]
    exact Regs.w_setW (c.r.setD (BitVec.ofInt 16 (c.r.q.toInt.tdiv divisor.toInt))) _
  rw [quotient, remainder]
  refine divided divides ?_ toInt16 ?_
  · rw [after, getFlag_divided]
    exact outside_iff rfl rfl
  · exact toInt16 (tmod_within _ divides (within16 divisor))

/-! A zero divisor. -/

namespace Enters

theorem push8 (value : Byte) : Enters (σ := σ) (push8 .system value) := fun _ => rfl

theorem push16 (value : Word) : Enters (σ := σ) (push16 .system value) := fun _ => rfl

theorem read16 (addr : Word) : Enters (σ := σ) (read16 addr) := fun _ => rfl

theorem pushFullSet : Enters (σ := σ) pushFullSet := by
  refine (setFlag _ _).bind fun _ => ?_
  refine regs.bind fun _ => (push16 _).bind fun _ => ?_
  refine regs.bind fun _ => (push16 _).bind fun _ => ?_
  refine regs.bind fun _ => (push16 _).bind fun _ => ?_
  refine regs.bind fun _ => (push16 _).bind fun _ => ?_
  refine regs.bind fun _ => (push8 _).bind fun _ => ?_
  refine native.bind fun _ => ?_
  have rest : Enters (σ := σ) (do
      Hd6309.push8 .system (← Hd6309.regs).b
      Hd6309.push8 .system (← Hd6309.regs).a
      Hd6309.push8 .system (← Hd6309.regs).cc) := by
    refine regs.bind fun _ => (push8 _).bind fun _ => ?_
    refine regs.bind fun _ => (push8 _).bind fun _ => ?_
    exact regs.bind fun _ => push8 _
  dsimp only
  refine ite ?_ ?_
  · refine regs.bind fun _ => (push8 _).bind fun _ => ?_
    exact regs.bind fun _ => (push8 _).bind fun _ => rest
  · exact rest

theorem pushPartialSet : Enters (σ := σ) pushPartialSet := by
  refine (setFlag _ _).bind fun _ => ?_
  refine regs.bind fun _ => (push16 _).bind fun _ => ?_
  exact regs.bind fun _ => push8 _

theorem enterInterrupt (vector : Word) (mask : Byte) (fullStack : Bool) :
    Enters (σ := σ) (enterInterrupt vector mask fullStack) := by
  refine get.bind fun _ => ?_
  dsimp only
  refine (modify ?_).bind fun _ => ?_
  · exact fun _ => rfl
  have rest : Enters (σ := σ) (do
      Hd6309.modifyRegs fun r => { r with cc := r.cc ||| mask }
      let target ← Hd6309.read16 vector
      Hd6309.modifyRegs fun r => { r with pc := target }) := by
    refine (modifyRegs ?_).bind fun _ => (read16 _).bind fun _ => modifyRegs ?_
    · exact fun _ => rfl
    · exact fun _ => rfl
  refine ite ?_ rest
  exact ite (pushFullSet.bind fun _ => rest) (pushPartialSet.bind fun _ => rest)

end Enters

theorem divisionByZeroTrap_entered (c : Cpu σ) :
    (divisionByZeroTrap c).2.r.entered =
      ({ c.r with md := c.r.md ||| mdDivzero } : Regs).entered :=
  Enters.enterInterrupt vecTrap (ccI ||| ccF) true _

/-! The law. -/

/-- What is claimed of DIVQ by a word and DIVD by a byte. -/
structure DivisionLaw (c : Cpu σ) (wide : Word) (narrow : Byte) : Prop where
  divqDefined : wide ≠ 0 → divqHost c.r.q wide ≠ none
  divq : wide ≠ 0 → Divided 32768 c.r.q.toInt wide.toInt (doDivq wide c).2.r.d.toInt
    (doDivq wide c).2.r.w.toInt ((doDivq wide c).2.r.getFlag ccV)
  divdDefined : narrow ≠ 0 → divdHost c.r.d narrow ≠ none
  divd : narrow ≠ 0 → Divided 128 c.r.d.toInt narrow.toInt (doDivd narrow c).2.r.b.toInt
    (doDivd narrow c).2.r.a.toInt ((doDivd narrow c).2.r.getFlag ccV)
  zeroWide : wide = 0 → (doDivq wide c).2.r.entered =
    ({ c.r with md := c.r.md ||| mdDivzero } : Regs).entered
  zeroNarrow : narrow = 0 → (doDivd narrow c).2.r.entered =
    ({ c.r with md := c.r.md ||| mdDivzero } : Regs).entered

theorem divqHost_defined (q : BitVec 32) {divisor : Word} (nonzero : divisor ≠ 0) :
    divqHost q divisor ≠ none ↔ ¬(q = 0x80000000#32 ∧ divisor = 0xFFFF#16) := by
  have divides := toInt_ne_zero nonzero
  have least : q.toInt = -int32Half ↔ q = 0x80000000#32 :=
    ⟨fun same => BitVec.eq_of_toInt_eq same, fun same => congrArg BitVec.toInt same⟩
  have minusOne : divisor.toInt = -1 ↔ divisor = 0xFFFF#16 :=
    ⟨fun same => BitVec.eq_of_toInt_eq same, fun same => congrArg BitVec.toInt same⟩
  rw [← least, ← minusOne, ← tdiv_within (within32 q) divides, divqHost, divMod]
  split
  · next fits => exact iff_of_true (Option.some_ne_none _) fits.2
  · next past => exact iff_of_false (fun some => some rfl) fun fits => past ⟨divides, fits⟩

theorem divdHost_defined (d : Word) {divisor : Byte} (nonzero : divisor ≠ 0) :
    divdHost d divisor ≠ none := by
  have divides := toInt_ne_zero nonzero
  obtain ⟨low, high⟩ := within16 d
  have fits : Within int32Half d.toInt := ⟨Int.le_trans (by decide) low, Int.lt_trans high (by decide)⟩
  have quotient : Within int32Half (d.toInt.tdiv divisor.toInt) := by
    refine (tdiv_within fits divides).mpr fun least => ?_
    rw [least.1] at low
    exact absurd low (by decide)
  rw [divdHost, divMod, if_pos ⟨divides, quotient⟩]
  exact Option.some_ne_none _

/-- Division is as it should be except where the least dividend is divided by -1. -/
theorem division_law_iff (c : Cpu σ) (wide : Word) (narrow : Byte) :
    DivisionLaw c wide narrow ↔ ¬(c.r.q = 0x80000000#32 ∧ wide = 0xFFFF#16) := by
  constructor
  · rintro law ⟨least, rfl⟩
    exact (divqHost_defined c.r.q (by decide)).mp (law.divqDefined (by decide)) ⟨least, rfl⟩
  · intro other
    refine ⟨fun nonzero => (divqHost_defined _ nonzero).mpr other, doDivq_divided c,
      divdHost_defined _, doDivd_divided c, ?_, ?_⟩
    · rintro rfl
      exact divisionByZeroTrap_entered c
    · rintro rfl
      exact divisionByZeroTrap_entered c

/-- The least dividend, by -1. -/
def leastDividend : Cpu Ram := { r := Regs.setQ {} 0x80000000#32, bus := fun _ => 0 }

theorem least_overflows : ¬DivisionLaw leastDividend 0xFFFF#16 1#8 := by
  intro law
  have undefined : divqHost leastDividend.r.q 0xFFFF#16 = none := by decide
  exact law.divqDefined (by decide) undefined

end Pugputer.Hd6309
