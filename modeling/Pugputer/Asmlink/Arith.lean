import Mathlib.Data.BitVec
import Mathlib.Tactic.Ring

namespace Pugputer.Asmlink

/-! MUL32 and DIV32. -/

/-- The product is doubled, and MB added for a bit of the multiplier, from its top down. -/
def mulLoop (MB : BitVec 32) : Nat → (MA MQ : BitVec 32) → BitVec 32
  | 0, MA, _ => MA
  | n + 1, MA, MQ => mulLoop MB n (if MQ.msb then MA <<< 1 + MB else MA <<< 1) (MQ <<< 1)

def MUL32 (MA MB : BitVec 32) : BitVec 32 := mulLoop MB 32 0#32 MA

/-- The dividend's top bit goes into the remainder, and a bit of the quotient in behind it. -/
def divLoop (MB : BitVec 32) : Nat → (MA MQ : BitVec 32) → BitVec 32 × BitVec 32
  | 0, MA, MQ => (MA, MQ)
  | n + 1, MA, MQ =>
      let rest := MQ <<< 1 + if MA.msb then 1#32 else 0#32
      if rest < MB then divLoop MB n (MA <<< 1) rest
      else divLoop MB n (MA <<< 1 + 1#32) (rest - MB)

def NEG32 (x : BitVec 32) : BitVec 32 := 0#32 - x

/-- The quotient and the remainder, from those of the magnitudes. -/
def DIV32 (MA MB : BitVec 32) : BitVec 32 × BitVec 32 :=
  let (quotient, rest) := divLoop (if MB.msb then NEG32 MB else MB) 32
    (if MA.msb then NEG32 MA else MA) 0#32
  (if MA.msb ^^ MB.msb then NEG32 quotient else quotient, if MA.msb then NEG32 rest else rest)

/-- A shift takes the top bit off. -/
theorem top_bit (x : BitVec 32) : x.toNat = (if x.msb then 2 ^ 31 else 0) + (x <<< 1).toNat / 2 ∧
    (x <<< 1).toNat % 2 = 0 := by
  have value : (x <<< 1).toNat = 2 * x.toNat % 2 ^ 32 := by
    rw [BitVec.toNat_shiftLeft, Nat.shiftLeft_eq, Nat.mul_comm]
  have bit : x.msb = decide (2 ^ 31 ≤ x.toNat) := BitVec.msb_eq_decide x
  have small := x.isLt
  rw [value, bit]
  by_cases high : 2 ^ 31 ≤ x.toNat
  · rw [if_pos (decide_eq_true high)]
    omega
  · rw [if_neg (by rwa [decide_eq_true_eq])]
    omega

theorem double (x : BitVec 32) : x <<< 1 = 2 * x := by
  apply BitVec.eq_of_toNat_eq
  rw [BitVec.toNat_shiftLeft, Nat.shiftLeft_eq, BitVec.toNat_mul, Nat.mul_comm]
  rfl

/-- The top bits of a number, without its very first. -/
theorem top_bits {x y p n : Nat} {bit : Bool} (split : x = (if bit then p * 2 ^ n else 0) + y / 2)
    (positive : 0 < p) : x / p = (if bit then 2 ^ n else 0) + y / (2 * p) := by
  rw [split, ← Nat.div_div_eq_div_mul]
  cases bit with
  | true =>
      rw [if_pos rfl, if_pos rfl]
      exact Nat.mul_add_div positive _ _
  | false =>
      rw [if_neg Bool.false_ne_true, if_neg Bool.false_ne_true, Nat.zero_add, Nat.zero_add]

theorem mulLoop_eq (MB : BitVec 32) {n : Nat} (few : n ≤ 32) (MA MQ : BitVec 32) :
    mulLoop MB n MA MQ = MA * 2 ^ n + (MQ.toNat / 2 ^ (32 - n) : Nat) * MB := by
  induction n generalizing MA MQ with
  | zero =>
      rw [mulLoop, Nat.div_eq_of_lt MQ.isLt]
      ring
  | succ n ih =>
      obtain ⟨split, -⟩ := top_bit MQ
      have all : 2 ^ 31 = 2 ^ (32 - (n + 1)) * 2 ^ n := by
        rw [← Nat.pow_add]
        congr 1
        omega
      have more : 2 ^ (32 - n) = 2 * 2 ^ (32 - (n + 1)) := by
        rw [← Nat.pow_succ']
        congr 1
        omega
      rw [all] at split
      rw [mulLoop, ih (Nat.le_of_succ_le few), more, top_bits split (Nat.two_pow_pos _), double]
      cases MQ.msb with
      | true =>
          rw [if_pos rfl, if_pos rfl]
          push_cast
          ring
      | false =>
          rw [if_neg Bool.false_ne_true, if_neg Bool.false_ne_true, Nat.zero_add]
          ring

theorem MUL32_eq (MA MB : BitVec 32) : MUL32 MA MB = MA * MB := by
  have same : ((MA.toNat : Nat) : BitVec 32) = MA := by
    rw [BitVec.natCast_eq_ofNat, BitVec.ofNat_toNat, BitVec.setWidth_eq]
  rw [MUL32, mulLoop_eq MB (Nat.le_refl 32), Nat.sub_self, Nat.pow_zero, Nat.div_one, same,
    BitVec.zero_mul, BitVec.zero_add]

/-- A bit more of the dividend. -/
theorem next_digit {e m b : Nat} (positive : 0 < m) (bit : b ≤ 1) :
    if 2 * (e % m) + b < m then (2 * e + b) / m = 2 * (e / m) ∧ (2 * e + b) % m = 2 * (e % m) + b
    else (2 * e + b) / m = 2 * (e / m) + 1 ∧ (2 * e + b) % m = 2 * (e % m) + b - m := by
  have whole : m * (e / m) + e % m = e := Nat.div_add_mod e m
  have small : e % m < m := Nat.mod_lt e positive
  split
  · next goes =>
      rw [Nat.div_mod_unique positive]
      refine ⟨?_, goes⟩
      calc 2 * (e % m) + b + m * (2 * (e / m)) = 2 * (m * (e / m) + e % m) + b := by ring
        _ = 2 * e + b := by rw [whole]
  · next stays =>
      rw [Nat.div_mod_unique positive]
      refine ⟨?_, by omega⟩
      have taken : 2 * (e % m) + b - m + m = 2 * (e % m) + b := by omega
      calc 2 * (e % m) + b - m + m * (2 * (e / m) + 1) =
            (2 * (e % m) + b - m + m) + m * (2 * (e / m)) := by ring
        _ = 2 * (m * (e / m) + e % m) + b := by rw [taken]; ring
        _ = 2 * e + b := by rw [whole]

/-- The dividend `d` has `n` bits that are still to come. -/
structure Divides (d m n : Nat) (MA MQ : BitVec 32) : Prop where
  shifted : MA.toNat = d % 2 ^ n * 2 ^ (32 - n) + d / 2 ^ n / m
  rest : MQ.toNat = d / 2 ^ n % m

/-- The dividend's next bit is the top one. -/
theorem Divides.bit {d m n : Nat} {MA MQ : BitVec 32} (divides : Divides d m (n + 1) MA MQ)
    (few : n + 1 ≤ 32) (fits : d < 2 ^ 32) :
    (if MA.msb then 1 else 0) = d / 2 ^ n % 2 ∧
      (MA <<< 1).toNat = d % 2 ^ n * 2 ^ (32 - n) + 2 * (d / 2 ^ n / 2 / m) := by
  obtain ⟨split, even⟩ := top_bit MA
  have shifted := divides.shifted
  have all : 2 ^ n * 2 ^ (32 - (n + 1)) = 2 ^ 31 := by
    rw [← Nat.pow_add]
    congr 1
    omega
  have more : 2 ^ (32 - n) = 2 * 2 ^ (32 - (n + 1)) := by
    rw [← Nat.pow_succ']
    congr 1
    omega
  have low : d % 2 ^ (n + 1) = 2 ^ n * (d / 2 ^ n % 2) + d % 2 ^ n := by
    rw [Nat.pow_succ, Nat.mod_mul]
    exact Nat.add_comm _ _
  have high : d / 2 ^ (n + 1) = d / 2 ^ n / 2 := by
    rw [Nat.pow_succ, Nat.div_div_eq_div_mul]
  have below : d % 2 ^ n < 2 ^ n := Nat.mod_lt _ (Nat.two_pow_pos n)
  have quotient : d / 2 ^ n / 2 / m < 2 ^ (32 - (n + 1)) := by
    refine Nat.lt_of_le_of_lt (Nat.div_le_self _ _) ?_
    rw [Nat.div_div_eq_div_mul, ← Nat.pow_succ]
    refine Nat.div_lt_of_lt_mul ?_
    rw [← Nat.pow_add]
    exact Nat.lt_of_lt_of_eq fits (congrArg _ (by omega))
  rw [low, high, Nat.add_mul, Nat.mul_right_comm, all] at shifted
  rw [more]
  generalize 2 ^ (32 - (n + 1)) = k at *
  have room : d % 2 ^ n * k + k ≤ 2 ^ 31 := by
    rw [← all, ← Nat.succ_mul]
    exact Nat.mul_le_mul_right k below
  have twice : d % 2 ^ n * (2 * k) = 2 * (d % 2 ^ n * k) := by ring
  rw [twice]
  generalize d % 2 ^ n * k = low at *
  generalize d / 2 ^ n / 2 / m = q at *
  have bits : d / 2 ^ n % 2 < 2 := Nat.mod_lt _ (by decide)
  have tail : (MA <<< 1).toNat < 2 ^ 32 := (MA <<< 1).isLt
  cases top : MA.msb with
  | true =>
      rw [top, if_pos rfl] at split
      rw [if_pos rfl]
      omega
  | false =>
      rw [top, if_neg Bool.false_ne_true] at split
      rw [if_neg Bool.false_ne_true]
      omega

theorem Divides.step {d n : Nat} {MB MA MQ : BitVec 32} (divides : Divides d MB.toNat (n + 1) MA MQ)
    (few : n + 1 ≤ 32) (fits : d < 2 ^ 32) (positive : 0 < MB.toNat) (half : MB.toNat ≤ 2 ^ 31) :
    let rest := MQ <<< 1 + if MA.msb then 1#32 else 0#32
    if rest < MB then Divides d MB.toNat n (MA <<< 1) rest
    else Divides d MB.toNat n (MA <<< 1 + 1#32) (rest - MB) := by
  obtain ⟨bit, shifted⟩ := divides.bit few fits
  have bits : d / 2 ^ n % 2 ≤ 1 := Nat.le_of_lt_succ (Nat.mod_lt _ (by decide))
  have whole : 2 * (d / 2 ^ n / 2) + d / 2 ^ n % 2 = d / 2 ^ n := Nat.div_add_mod _ 2
  have digit := next_digit (e := d / 2 ^ n / 2) positive bits
  have before := divides.rest
  rw [Nat.pow_succ, ← Nat.div_div_eq_div_mul] at before
  have small : d / 2 ^ n / 2 % MB.toNat < MB.toNat := Nat.mod_lt _ positive
  rw [whole] at digit
  intro rest
  have value : rest.toNat = 2 * (d / 2 ^ n / 2 % MB.toNat) + d / 2 ^ n % 2 := by
    have carry : (if MA.msb then 1#32 else 0#32).toNat = d / 2 ^ n % 2 := by
      rw [← bit]
      split <;> rfl
    have doubled : (MQ <<< 1).toNat = 2 * MQ.toNat % 2 ^ 32 := by
      rw [BitVec.toNat_shiftLeft, Nat.shiftLeft_eq, Nat.mul_comm]
    rw [BitVec.toNat_add, carry, doubled, before]
    omega
  have small' : rest < MB ↔ 2 * (d / 2 ^ n / 2 % MB.toNat) + d / 2 ^ n % 2 < MB.toNat := by
    rw [BitVec.lt_def, value]
  by_cases goes : rest < MB
  · rw [if_pos goes]
    rw [if_pos (small'.mp goes)] at digit
    refine ⟨?_, value.trans digit.2.symm⟩
    rw [shifted, digit.1]
  · rw [if_neg goes]
    rw [if_neg fun less => goes (small'.mpr less)] at digit
    refine ⟨?_, ?_⟩
    · have even := (top_bit MA).2
      have room := (MA <<< 1).isLt
      rw [BitVec.toNat_add, digit.1, ← Nat.add_assoc, ← shifted]
      exact Nat.mod_eq_of_lt (by
        have one : (1#32).toNat = 1 := rfl
        omega)
    · rw [BitVec.toNat_sub_of_le (BitVec.not_lt.mp goes), value, digit.2]

theorem divLoop_eq {d n : Nat} {MB MA MQ : BitVec 32} (divides : Divides d MB.toNat n MA MQ)
    (few : n ≤ 32) (fits : d < 2 ^ 32) (positive : 0 < MB.toNat) (half : MB.toNat ≤ 2 ^ 31) :
    (divLoop MB n MA MQ).1.toNat = d / MB.toNat ∧ (divLoop MB n MA MQ).2.toNat = d % MB.toNat := by
  induction n generalizing MA MQ with
  | zero =>
      have shifted := divides.shifted
      have rest := divides.rest
      rw [Nat.pow_zero, Nat.mod_one, Nat.zero_mul, Nat.zero_add, Nat.div_one] at shifted
      rw [Nat.pow_zero, Nat.div_one] at rest
      exact ⟨shifted, rest⟩
  | succ n ih =>
      have step := divides.step few fits positive half
      rw [divLoop]
      dsimp only at step ⊢
      generalize (MQ <<< 1 + if MA.msb then 1#32 else 0#32) = rest at step ⊢
      split
      · next goes =>
          rw [if_pos goes] at step
          exact ih step (Nat.le_of_succ_le few)
      · next stays =>
          rw [if_neg stays] at step
          exact ih step (Nat.le_of_succ_le few)

/-- On magnitudes. -/
theorem divLoop_unsigned (MA MB : BitVec 32) (some : MB ≠ 0#32) (half : MB.toNat ≤ 2 ^ 31) :
    divLoop MB 32 MA 0#32 = (MA / MB, MA % MB) := by
  have positive : 0 < MB.toNat :=
    Nat.pos_of_ne_zero fun zero => some (BitVec.eq_of_toNat_eq zero)
  have start : Divides MA.toNat MB.toNat 32 MA 0#32 := by
    refine ⟨?_, ?_⟩
    · rw [Nat.mod_eq_of_lt MA.isLt, Nat.div_eq_of_lt MA.isLt, Nat.zero_div, Nat.sub_self,
        Nat.pow_zero, Nat.mul_one]
      rfl
    · rw [Nat.div_eq_of_lt MA.isLt, Nat.zero_mod]
      rfl
  obtain ⟨quotient, rest⟩ := divLoop_eq start (Nat.le_refl 32) MA.isLt positive half
  exact Prod.ext (BitVec.eq_of_toNat_eq (quotient.trans BitVec.toNat_udiv.symm))
    (BitVec.eq_of_toNat_eq (rest.trans BitVec.toNat_umod.symm))

theorem NEG32_eq (x : BitVec 32) : NEG32 x = -x := BitVec.zero_sub x

/-- A magnitude. -/
theorem magnitude (x : BitVec 32) : (if x.msb then NEG32 x else x).toNat ≤ 2 ^ 31 := by
  have bit : x.msb = decide (2 ^ 31 ≤ x.toNat) := BitVec.msb_eq_decide x
  have small := x.isLt
  rw [bit]
  by_cases high : 2 ^ 31 ≤ x.toNat
  · rw [if_pos (decide_eq_true high), NEG32_eq, BitVec.toNat_neg]
    omega
  · rw [if_neg (by rwa [decide_eq_true_eq])]
    omega

/-- C's division: the quotient is truncated, and the remainder has the dividend's sign. -/
theorem DIV32_eq (MA MB : BitVec 32) (some : MB ≠ 0#32) :
    DIV32 MA MB = (MA.sdiv MB, MA.srem MB) := by
  have nonzero : (if MB.msb then NEG32 MB else MB) ≠ 0#32 := by
    split
    · rw [NEG32_eq]
      exact fun zero => some (BitVec.neg_eq_zero_iff.mp zero)
    · exact some
  rw [DIV32, divLoop_unsigned _ _ nonzero (magnitude MB), BitVec.sdiv_eq, BitVec.srem_eq]
  cases MA.msb <;> cases MB.msb <;> simp only [NEG32_eq] <;> rfl

end Pugputer.Asmlink
