import Pugputer.Hd6309.Core
import Pugputer.Lib.Limbs

namespace Pugputer.Hd6309

open HostInt (Within)
open Limbs

/-! Arithmetic on numbers of any length, a byte or a word at a time, the carry in CC. -/

variable {σ : Type}

/-- One operation on the lowest limb and another on each higher one. -/
def upward (first next : α → Exec σ β) : List α → Exec σ (List β)
  | [] => return []
  | limb :: higher => do
      let low ← upward first next higher
      let result ← if higher.isEmpty then first limb else next limb
      return result :: low

/-- One operation on the top limb and another on each lower one. -/
def downward (first next : α → Exec σ β) : List α → Exec σ (List β)
  | [] => return []
  | limb :: lower => do
      let result ← first limb
      let low ← downward next next lower
      return result :: low

def addBytes (as bs : List Byte) : Exec σ (List Byte) :=
  upward (fun (a, b) => applyAlu8 .add a b) (fun (a, b) => applyAlu8 .adc a b) (as.zip bs)

def subBytes (as bs : List Byte) : Exec σ (List Byte) :=
  upward (fun (a, b) => applyAlu8 .sub a b) (fun (a, b) => applyAlu8 .sbc a b) (as.zip bs)

def addWords (as bs : List Word) : Exec σ (List Word) :=
  upward (fun (a, b) => applyAlu16 .add a b) (fun (a, b) => applyAlu16 .adc a b) (as.zip bs)

def subWords (as bs : List Word) : Exec σ (List Word) :=
  upward (fun (a, b) => applyAlu16 .sub a b) (fun (a, b) => applyAlu16 .sbc a b) (as.zip bs)

def doubleBytes (as : List Byte) : Exec σ (List Byte) := upward (rmw8 .asl) (rmw8 .rol) as

def halveBytes (as : List Byte) : Exec σ (List Byte) := downward (rmw8 .lsr) (rmw8 .ror) as

/-! One limb. -/

theorem arith_flags (r : Regs) (c v n z : Bool) :
    ((((r.setFlag ccC c).setFlag ccV v).setFlag ccN n).setFlag ccZ z).getFlag ccC = c ∧
      ((((r.setFlag ccC c).setFlag ccV v).setFlag ccN n).setFlag ccZ z).getFlag ccV = v ∧
      ((((r.setFlag ccC c).setFlag ccV v).setFlag ccN n).setFlag ccZ z).getFlag ccN = n := by
  refine ⟨?_, ?_, ?_⟩
  · rw [Regs.getFlag_setFlag_ne _ _ (by decide), Regs.getFlag_setFlag_ne _ _ (by decide),
      Regs.getFlag_setFlag_ne _ _ (by decide), Regs.getFlag_setFlag _ _ (by decide)]
  · rw [Regs.getFlag_setFlag_ne _ _ (by decide), Regs.getFlag_setFlag_ne _ _ (by decide),
      Regs.getFlag_setFlag _ _ (by decide)]
  · rw [Regs.getFlag_setFlag_ne _ _ (by decide), Regs.getFlag_setFlag _ _ (by decide)]

/-- What an operation on a pair of limbs leaves: a sum or difference, and its flags. -/
structure SumStep (sign : Int) (a b : BitVec w) (carryIn : Bool) (out : BitVec w × Cpu σ) :
    Prop where
  sum : LimbSum sign a b out.1 carryIn (out.2.r.getFlag ccC) (out.2.r.getFlag ccV)
  negative : out.2.r.getFlag ccN = out.1.msb

theorem limb_add (wide : 0 < w) {a b r : BitVec w} {carryIn : Bool}
    (sum : r.toNat = (a.toNat + b.toNat + carryIn.toNat) % 2 ^ w) :
    LimbSum 1 a b r carryIn (decide (2 ^ w ≤ a.toNat + b.toNat + carryIn.toNat))
      (~~~(a ^^^ b) &&& (a ^^^ r)).msb := by
  have carries := Bool.toNat_lt carryIn
  have firstLess := a.isLt
  have secondLess := b.isLt
  have value : r.toNat + 2 ^ w * (decide (2 ^ w ≤ a.toNat + b.toNat + carryIn.toNat)).toNat =
      a.toNat + b.toNat + carryIn.toNat := by
    rw [sum]
    by_cases past : 2 ^ w ≤ a.toNat + b.toNat + carryIn.toNat
    · rw [decide_eq_true past, Bool.toNat_true, Nat.mod_eq_sub_mod past,
        Nat.mod_eq_of_lt (by omega)]
      omega
    · rw [decide_eq_false past, Bool.toNat_false, Nat.mod_eq_of_lt (by omega)]
      omega
  refine ⟨?_, ?_⟩
  · rw [Int.one_mul, Int.one_mul]
    omega
  · rw [Int.one_mul]
    exact overflow_add wide value

theorem limb_sub (wide : 0 < w) {a b r : BitVec w} {borrowIn : Bool}
    (difference : (r.toNat : Int) = ((a.toNat : Int) - b.toNat - borrowIn.toNat) % (2 ^ w : Nat)) :
    LimbSum (-1) a b r borrowIn (decide ((a.toNat : Int) - b.toNat - borrowIn.toNat < 0))
      ((a ^^^ b) &&& (a ^^^ r)).msb := by
  have borrows := Bool.toNat_lt borrowIn
  have firstLess := a.isLt
  have secondLess := b.isLt
  have value : r.toNat + b.toNat + borrowIn.toNat = a.toNat +
      2 ^ w * (decide ((a.toNat : Int) - b.toNat - borrowIn.toNat < 0)).toNat := by
    by_cases under : (a.toNat : Int) - b.toNat - borrowIn.toNat < 0
    · rw [← Int.add_emod_right, Int.emod_eq_of_lt (by omega) (by omega)] at difference
      rw [decide_eq_true under, Bool.toNat_true]
      omega
    · rw [Int.emod_eq_of_lt (by omega) (by omega)] at difference
      rw [decide_eq_false under, Bool.toNat_false]
      omega
  refine ⟨?_, ?_⟩
  · rw [Int.neg_mul, Int.neg_mul, Int.one_mul, Int.one_mul]
    omega
  · rw [Int.neg_mul, Int.one_mul, ← Int.sub_eq_add_neg]
    exact overflow_sub wide value

theorem SumStep.of_flags {sign : Int} {a b result : BitVec w} {carryIn carry overflow z : Bool}
    {r : Regs} {after : Cpu σ} (sum : LimbSum sign a b result carryIn carry overflow)
    (flags : after.r = (((r.setFlag ccC carry).setFlag ccV overflow).setFlag ccN
      result.msb).setFlag ccZ z) : SumStep sign a b carryIn (result, after) := by
  obtain ⟨carryIs, overflowIs, signIs⟩ := arith_flags r carry overflow result.msb z
  rw [← flags] at carryIs overflowIs signIs
  exact ⟨by rw [carryIs, overflowIs]; exact sum, signIs⟩

theorem add8_step (a b : Byte) (carryIn affectH : Bool) (c : Cpu σ) :
    SumStep 1 a b carryIn (add8 a b carryIn affectH c) := by
  have sum := limb_add (by decide) (BitVec.toNat_ofNat (a.toNat + b.toNat + carryIn.toNat) 8)
  cases affectH with
  | true => exact .of_flags sum rfl
  | false => exact .of_flags sum rfl

theorem add16_step (a b : Word) (carryIn : Bool) (c : Cpu σ) :
    SumStep 1 a b carryIn (add16 a b carryIn c) :=
  .of_flags (limb_add (by decide) (BitVec.toNat_ofNat (a.toNat + b.toNat + carryIn.toNat) 16)) rfl

theorem toNat_ofInt_emod (w : Nat) (v : Int) :
    ((BitVec.ofInt w v).toNat : Int) = v % (2 ^ w : Nat) := by
  rw [BitVec.toNat_ofInt, Int.toNat_of_nonneg]
  exact Int.emod_nonneg _ (Int.natCast_ne_zero.mpr (Nat.two_pow_pos w).ne')

theorem sub8_step (a b : Byte) (borrowIn : Bool) (c : Cpu σ) :
    SumStep (-1) a b borrowIn (sub8 a b borrowIn c) :=
  .of_flags (limb_sub (by decide) (toNat_ofInt_emod 8 _)) rfl

theorem sub16_step (a b : Word) (borrowIn : Bool) (c : Cpu σ) :
    SumStep (-1) a b borrowIn (sub16 a b borrowIn c) :=
  .of_flags (limb_sub (by decide) (toNat_ofInt_emod 16 _)) rfl

/-! A chain. -/

/-- Operations that add, or subtract, without and with the carry in CC. -/
structure Sums (sign : Int) (first next : BitVec w × BitVec w → Exec σ (BitVec w)) : Prop where
  first : ∀ a b c, SumStep sign a b false (first (a, b) c)
  next : ∀ a b c, SumStep sign a b (c.r.getFlag ccC) (next (a, b) c)

theorem adds_bytes : Sums (σ := σ) 1 (fun (a, b) => applyAlu8 .add a b)
    (fun (a, b) => applyAlu8 .adc a b) :=
  ⟨fun a b c => add8_step a b false true c, fun a b c => add8_step a b _ true c⟩

theorem subtracts_bytes : Sums (σ := σ) (-1) (fun (a, b) => applyAlu8 .sub a b)
    (fun (a, b) => applyAlu8 .sbc a b) :=
  ⟨fun a b c => sub8_step a b false c, fun a b c => sub8_step a b _ c⟩

theorem adds_words : Sums (σ := σ) 1 (fun (a, b) => applyAlu16 .add a b)
    (fun (a, b) => applyAlu16 .adc a b) :=
  ⟨fun a b c => add16_step a b false c, fun a b c => add16_step a b _ c⟩

theorem subtracts_words : Sums (σ := σ) (-1) (fun (a, b) => applyAlu16 .sub a b)
    (fun (a, b) => applyAlu16 .sbc a b) :=
  ⟨fun a b c => sub16_step a b false c, fun a b c => sub16_step a b _ c⟩

/-- What a chain leaves. -/
structure Summed (sign : Int) (as bs rs : List (BitVec w)) (r : Regs) : Prop where
  sum : Sum sign as bs rs (r.getFlag ccC) (r.getFlag ccV)
  negative : r.getFlag ccN = true ↔ signed rs < 0

/-- By induction from the lowest limb, whose operation takes no carry. -/
theorem Sums.chain {sign : Int} {first next : BitVec w × BitVec w → Exec σ (BitVec w)}
    (wide : 0 < w) (sums : Sums sign first next) {as bs : List (BitVec w)} (some : as ≠ [])
    (lengths : as.length = bs.length) (c : Cpu σ) :
    Summed sign as bs (upward first next (as.zip bs) c).1
      (upward first next (as.zip bs) c).2.r := by
  induction as generalizing bs with
  | nil => exact absurd rfl some
  | cons a as ih =>
      cases bs with
      | nil => cases lengths
      | cons b bs =>
          have rest : as.length = bs.length := Nat.succ.inj lengths
          cases as with
          | nil =>
              obtain rfl : bs = [] := List.length_eq_zero_iff.mp rest.symm
              have step := sums.first a b c
              refine ⟨Sum.cons wide rest (Sum.nil sign) step.sum, ?_⟩
              exact (Bool.coe_iff_coe.mpr step.negative).trans (signed_neg wide _ []).symm
          | cons a' as =>
              cases bs with
              | nil => cases rest
              | cons b' bs =>
                  have low := ih (List.cons_ne_nil _ _) rest
                  have step := sums.next a b (upward first next ((a' :: as).zip (b' :: bs)) c).2
                  refine ⟨Sum.cons wide rest low.sum step.sum, ?_⟩
                  exact (Bool.coe_iff_coe.mpr step.negative).trans (signed_neg wide _ _).symm

/-! Words and their bytes. -/

def bytesOf : List Word → List Byte
  | [] => []
  | v :: vs => hiByte v :: loByte v :: bytesOf vs

theorem limit_bytes (n : Nat) : limit 8 (2 * n) = limit 16 n := by
  rw [limit, limit, ← Nat.mul_assoc]

theorem half_bytes (n : Nat) : half 8 (2 * n) = half 16 n := by
  rw [half, half, ← Nat.mul_assoc]

theorem length_bytesOf (vs : List Word) : (bytesOf vs).length = 2 * vs.length := by
  induction vs with
  | nil => rfl
  | cons v vs ih =>
      rw [bytesOf, List.length_cons, List.length_cons, List.length_cons, ih]
      omega

theorem toNat_bytes (v : Word) : v.toNat = (hiByte v).toNat * 256 + (loByte v).toNat := by
  have less := v.isLt
  rw [hiByte, loByte, BitVec.extractLsb'_toNat, BitVec.extractLsb'_toNat, Nat.shiftRight_zero,
    Nat.shiftRight_eq_div_pow]
  omega

theorem number_bytesOf (vs : List Word) : number (bytesOf vs) = number vs := by
  induction vs with
  | nil => rfl
  | cons v vs ih =>
      rw [bytesOf, number, number, number, List.length_cons, ih, limit_succ, length_bytesOf,
        limit_bytes, toNat_bytes]
      ring

theorem signed_bytesOf (vs : List Word) : signed (bytesOf vs) = signed vs := by
  rw [signed, signed, number_bytesOf, length_bytesOf, limit_bytes]

/-- A sum of words is the sum of their bytes. -/
theorem Summed.bytesOf {sign : Int} {as bs rs : List Word} {r : Regs}
    (summed : Summed sign as bs rs r) :
    Summed sign (bytesOf as) (Hd6309.bytesOf bs) (Hd6309.bytesOf rs) r where
  sum := {
    length := by
      rw [length_bytesOf, length_bytesOf, summed.sum.length]
    value := by
      rw [number_bytesOf, number_bytesOf, number_bytesOf, length_bytesOf, limit_bytes]
      exact summed.sum.value
    range := by
      rw [signed_bytesOf, signed_bytesOf, length_bytesOf, half_bytes]
      exact summed.sum.range }
  negative := by
    rw [signed_bytesOf]
    exact summed.negative

/-- The limbs and the flags of a sum are determined. -/
theorem Summed.unique {sign : Int} (unit : sign = 1 ∨ sign = -1) {as bs rs rs' : List (BitVec w)}
    {r r' : Regs} (first : Summed sign as bs rs r) (second : Summed sign as bs rs' r') :
    rs = rs' ∧ r.getFlag ccC = r'.getFlag ccC ∧ r.getFlag ccV = r'.getFlag ccV ∧
      r.getFlag ccN = r'.getFlag ccN := by
  obtain ⟨same, carries⟩ : number rs = number rs' ∧ r.getFlag ccC = r'.getFlag ccC := by
    have value := first.sum.value.trans second.sum.value.symm
    have less : number rs < limit w as.length := first.sum.length ▸ number_lt rs
    have less' : number rs' < limit w as.length := second.sum.length ▸ number_lt rs'
    generalize r.getFlag ccC = carry at value ⊢
    generalize r'.getFlag ccC = carry' at value ⊢
    rcases unit with rfl | rfl <;> cases carry <;> cases carry' <;>
      simp only [Bool.toNat_true, Bool.toNat_false] at value <;>
      exact ⟨by omega, by first | rfl | omega⟩
  obtain rfl : rs = rs' := number_inj (first.sum.length.trans second.sum.length.symm) same
  exact ⟨rfl, carries, Bool.coe_iff_coe.mp (first.sum.range.trans second.sum.range.symm),
    Bool.coe_iff_coe.mp (first.negative.trans second.negative.symm)⟩

/-! Shifts. -/

theorem shl_limb (v : Byte) (carryIn : Bool) :
    ((v <<< 1) ||| (if carryIn then 1 else 0)).toNat + 2 ^ 8 * (v.getLsbD 7).toNat =
      2 * v.toNat + carryIn.toNat := by
  revert v carryIn
  decide

theorem shr_limb (v : Byte) (carryIn : Bool) :
    2 * ((v >>> 1) ||| (if carryIn then 0x80 else 0)).toNat + (v.getLsbD 0).toNat =
      v.toNat + 2 ^ 8 * carryIn.toNat := by
  revert v carryIn
  decide

/-- N and Z leave C alone. -/
theorem getFlag_nz (r : Regs) (n z : Bool) :
    ((r.setFlag ccN n).setFlag ccZ z).getFlag ccC = r.getFlag ccC := by
  rw [Regs.getFlag_setFlag_ne _ _ (by decide), Regs.getFlag_setFlag_ne _ _ (by decide)]

theorem getFlag_vnz (r : Regs) (c v n z : Bool) :
    ((((r.setFlag ccC c).setFlag ccV v).setFlag ccN n).setFlag ccZ z).getFlag ccC = c :=
  (arith_flags r c v n z).1

theorem getFlag_cnz (r : Regs) (c n z : Bool) :
    (((r.setFlag ccC c).setFlag ccN n).setFlag ccZ z).getFlag ccC = c := by
  rw [getFlag_nz, Regs.getFlag_setFlag _ _ (by decide)]

theorem or_zero8 (v : Byte) : v ||| 0 = v := BitVec.or_zero

theorem asl_step (v : Byte) (c : Cpu σ) :
    (rmw8 .asl v c).1.toNat + 2 ^ 8 * ((rmw8 .asl v c).2.r.getFlag ccC).toNat =
      2 * v.toNat + false.toNat := by
  have carry : (rmw8 .asl v c).2.r.getFlag ccC = v.getLsbD 7 := getFlag_vnz _ _ _ _ _
  have limb := shl_limb v false
  rw [if_neg Bool.false_ne_true, or_zero8] at limb
  rw [carry]
  exact limb

theorem rol_step (v : Byte) (c : Cpu σ) :
    (rmw8 .rol v c).1.toNat + 2 ^ 8 * ((rmw8 .rol v c).2.r.getFlag ccC).toNat =
      2 * v.toNat + (c.r.getFlag ccC).toNat := by
  have carry : (rmw8 .rol v c).2.r.getFlag ccC = v.getLsbD 7 := getFlag_vnz _ _ _ _ _
  rw [carry]
  exact shl_limb v (c.r.getFlag ccC)

theorem lsr_step (v : Byte) (c : Cpu σ) :
    2 * (rmw8 .lsr v c).1.toNat + ((rmw8 .lsr v c).2.r.getFlag ccC).toNat =
      v.toNat + 2 ^ 8 * false.toNat := by
  have carry : (rmw8 .lsr v c).2.r.getFlag ccC = v.getLsbD 0 := getFlag_cnz _ _ _ _
  have limb := shr_limb v false
  rw [if_neg Bool.false_ne_true, or_zero8] at limb
  rw [carry]
  exact limb

theorem ror_step (v : Byte) (c : Cpu σ) :
    2 * (rmw8 .ror v c).1.toNat + ((rmw8 .ror v c).2.r.getFlag ccC).toNat =
      v.toNat + 2 ^ 8 * (c.r.getFlag ccC).toNat := by
  have carry : (rmw8 .ror v c).2.r.getFlag ccC = v.getLsbD 0 := getFlag_cnz _ _ _ _
  rw [carry]
  exact shr_limb v (c.r.getFlag ccC)

theorem length_upward (first next : α → Exec σ β) (limbs : List α) (c : Cpu σ) :
    (upward first next limbs c).1.length = limbs.length := by
  induction limbs with
  | nil => rfl
  | cons limb higher ih =>
      cases higher with
      | nil => rfl
      | cons next' higher => exact congrArg (· + 1) ih

theorem length_downward (first next : α → Exec σ β) (limbs : List α) (c : Cpu σ) :
    (downward first next limbs c).1.length = limbs.length := by
  induction limbs generalizing first c with
  | nil => rfl
  | cons limb lower ih => exact congrArg (· + 1) (ih next _)

theorem doubleBytes_doubles {as : List Byte} (some : as ≠ []) (c : Cpu σ) :
    number (doubleBytes as c).1 +
        limit 8 as.length * ((doubleBytes as c).2.r.getFlag ccC).toNat = 2 * number as := by
  induction as with
  | nil => exact absurd rfl some
  | cons a as ih =>
      cases as with
      | nil => exact double_cons rfl rfl (asl_step a c)
      | cons a' as =>
          have low := ih (List.cons_ne_nil _ _)
          exact double_cons (length_upward _ _ (a' :: as) c) low (rol_step a _)

/-- From any limb down, with what the limb above shifted out. -/
theorem rors_halve (as : List Byte) (c : Cpu σ) :
    2 * number (downward (rmw8 .ror) (rmw8 .ror) as c).1 +
        ((downward (rmw8 .ror) (rmw8 .ror) as c).2.r.getFlag ccC).toNat =
      number as + limit 8 as.length * (c.r.getFlag ccC).toNat := by
  induction as generalizing c with
  | nil =>
      rw [List.length_nil, limit_zero, Nat.one_mul]
      rfl
  | cons a as ih =>
      exact halve_cons (length_downward _ _ _ _) (ror_step a c) (ih _)

theorem halveBytes_halves {as : List Byte} (some : as ≠ []) (c : Cpu σ) :
    2 * number (halveBytes as c).1 + ((halveBytes as c).2.r.getFlag ccC).toNat = number as := by
  cases as with
  | nil => exact absurd rfl some
  | cons a as =>
      have whole : _ = number (a :: as) + limit 8 (a :: as).length * false.toNat :=
        halve_cons (length_downward _ _ _ _) (lsr_step a c) (rors_halve as _)
      exact whole

/-! The laws. -/

structure AddLaw (as bs : List Byte) (out : List Byte × Cpu σ) : Prop where
  length : out.1.length = as.length
  result : number out.1 = (number as + number bs) % 256 ^ as.length
  carry : out.2.r.getFlag ccC = true ↔ 256 ^ as.length ≤ number as + number bs
  overflow : out.2.r.getFlag ccV = true ↔ ¬Within (half 8 as.length) (signed as + signed bs)
  sign : out.2.r.getFlag ccN = true ↔ signed out.1 < 0

structure SubLaw (as bs : List Byte) (out : List Byte × Cpu σ) : Prop where
  length : out.1.length = as.length
  result : (number out.1 : Int) = ((number as : Int) - number bs) % (256 ^ as.length : Nat)
  borrow : out.2.r.getFlag ccC = true ↔ number as < number bs
  overflow : out.2.r.getFlag ccV = true ↔ ¬Within (half 8 as.length) (signed as - signed bs)
  sign : out.2.r.getFlag ccN = true ↔ signed out.1 < 0
  bhs : testCondition out.2.r 0x4 = true ↔ number bs ≤ number as
  blo : testCondition out.2.r 0x5 = true ↔ number as < number bs
  bge : testCondition out.2.r 0xC = true ↔ signed bs ≤ signed as
  blt : testCondition out.2.r 0xD = true ↔ signed as < signed bs

/-- A chain over words leaves what one over bytes does. -/
structure WordLaw (words : List Word × Cpu σ) (bytes : List Byte × Cpu σ) : Prop where
  result : bytesOf words.1 = bytes.1
  carry : words.2.r.getFlag ccC = bytes.2.r.getFlag ccC
  overflow : words.2.r.getFlag ccV = bytes.2.r.getFlag ccV
  sign : words.2.r.getFlag ccN = bytes.2.r.getFlag ccN

/-- The number doubled, and the top bit; the number halved, and the lowest bit. -/
structure ShiftLaw (as : List Byte) (doubled halved : List Byte × Cpu σ) : Prop where
  lengthDoubled : doubled.1.length = as.length
  double : number doubled.1 = 2 * number as % 256 ^ as.length
  topOut : doubled.2.r.getFlag ccC = true ↔ 256 ^ as.length ≤ 2 * number as
  lengthHalved : halved.1.length = as.length
  half : number halved.1 = number as / 2
  lowestOut : halved.2.r.getFlag ccC = true ↔ number as % 2 = 1

theorem limit_256 (n : Nat) : limit 8 n = 256 ^ n := limit_eq n

theorem Summed.add {as bs rs : List Byte} {after : Cpu σ} (summed : Summed 1 as bs rs after.r) :
    AddLaw as bs (rs, after) := by
  obtain ⟨result, carry⟩ := summed.sum.add
  have overflow := summed.sum.range
  rw [limit_256] at result carry
  rw [Int.one_mul] at overflow
  exact ⟨summed.sum.length, result, carry, overflow, summed.negative⟩

theorem Summed.sub {as bs rs : List Byte} {after : Cpu σ} (summed : Summed (-1) as bs rs after.r)
    (some : as ≠ []) (lengths : as.length = bs.length) : SubLaw as bs (rs, after) := by
  obtain ⟨result, borrow⟩ := summed.sum.sub
  have overflow := summed.sum.range
  have less := summed.sum.less (by decide) lengths some
  have negative : after.r.getFlag ccN = decide (signed rs < 0) :=
    Bool.coe_iff_coe.mp (summed.negative.trans decide_eq_true_iff.symm)
  rw [limit_256] at result
  rw [Int.neg_mul, Int.one_mul, ← Int.sub_eq_add_neg] at overflow
  rw [← negative] at less
  refine ⟨summed.sum.length, result, borrow, overflow, summed.negative, ?_, borrow, ?_, less⟩
  · rw [← Nat.not_lt, ← borrow, Bool.not_eq_true, ← Bool.not_eq_true']
    exact Iff.rfl
  · rw [← Int.not_lt, ← less, bne, Bool.not_eq_true, Bool.not_eq_false']
    exact Iff.rfl

theorem shiftLaw {as : List Byte} (some : as ≠ []) (c : Cpu σ) :
    ShiftLaw as (doubleBytes as c) (halveBytes as c) := by
  have doubled := doubleBytes_doubles some c
  have halved := halveBytes_halves some c
  have length := length_upward (rmw8 .asl) (rmw8 .rol) as c
  have less : number (doubleBytes as c).1 < 256 ^ as.length := by
    rw [← limit_256, ← length]
    exact number_lt _
  rw [limit_256] at doubled
  refine ⟨length, ?_, ?_, length_downward _ _ _ _, ?_, ?_⟩
  · rw [← doubled, Nat.add_mul_mod_self_left, Nat.mod_eq_of_lt less]
  · rw [← doubled]
    cases (doubleBytes as c).2.r.getFlag ccC with
    | false => exact iff_of_false Bool.false_ne_true (by rw [Bool.toNat_false]; omega)
    | true => exact iff_of_true rfl (by rw [Bool.toNat_true]; omega)
  · have bit := Bool.toNat_lt ((halveBytes as c).2.r.getFlag ccC)
    omega
  · rw [← halved]
    cases (halveBytes as c).2.r.getFlag ccC with
    | false => exact iff_of_false Bool.false_ne_true (by rw [Bool.toNat_false]; omega)
    | true => exact iff_of_true rfl (by rw [Bool.toNat_true]; omega)

theorem bytesOf_ne_nil {vs : List Word} (some : bytesOf vs ≠ []) : vs ≠ [] := by
  rintro rfl
  exact some rfl

theorem bytesOf_lengths {vs ws : List Word} (lengths : (bytesOf vs).length = (bytesOf ws).length) :
    vs.length = ws.length := by
  rw [length_bytesOf, length_bytesOf] at lengths
  omega

/-- Words and bytes make the same sum. -/
theorem Summed.words {sign : Int} (unit : sign = 1 ∨ sign = -1) {vs ws : List Word}
    {words : List Word × Cpu σ} {bytes : List Byte × Cpu σ}
    (wide : Summed sign vs ws words.1 words.2.r)
    (narrow : Summed sign (Hd6309.bytesOf vs) (Hd6309.bytesOf ws) bytes.1 bytes.2.r) :
    WordLaw words bytes := by
  obtain ⟨result, carry, overflow, negative⟩ := wide.bytesOf.unique unit narrow
  exact ⟨result, carry, overflow, negative⟩

theorem multi_precision (c : Cpu σ) {as bs : List Byte} (some : as ≠ [])
    (lengths : as.length = bs.length) :
    AddLaw as bs (addBytes as bs c) ∧ SubLaw as bs (subBytes as bs c) ∧
      (∀ vs ws, bytesOf vs = as → bytesOf ws = bs →
        WordLaw (addWords vs ws c) (addBytes as bs c) ∧
          WordLaw (subWords vs ws c) (subBytes as bs c)) ∧
      ShiftLaw as (doubleBytes as c) (halveBytes as c) := by
  have sum := adds_bytes.chain (by decide) some lengths c
  have difference := subtracts_bytes.chain (by decide) some lengths c
  refine ⟨sum.add, difference.sub some lengths, ?_, shiftLaw some c⟩
  rintro vs ws rfl rfl
  have someWords := bytesOf_ne_nil some
  have wordLengths := bytesOf_lengths lengths
  exact ⟨(adds_words.chain (by decide) someWords wordLengths c).words (.inl rfl) sum,
    (subtracts_words.chain (by decide) someWords wordLengths c).words (.inr rfl) difference⟩

def blank : Cpu Unit := { r := {}, bus := () }

theorem multi_precision_two :
    AddLaw [0x7F, 0xFF] [0x00, 0x01] (addBytes [0x7F, 0xFF] [0x00, 0x01] blank) ∧
      WordLaw (addWords [0x7FFF] [0x0001] blank)
        (addBytes [0x7F, 0xFF] [0x00, 0x01] blank) := by
  obtain ⟨sum, -, words, -⟩ := multi_precision blank
    (List.cons_ne_nil 0x7F [0xFF]) (show _ = [0x00, 0x01].length from rfl)
  exact ⟨sum, (words [0x7FFF] [0x0001] (by decide) (by decide)).1⟩

end Pugputer.Hd6309
