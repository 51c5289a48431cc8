import Mathlib.Tactic.Ring
import Pugputer.Lib.HostInt

namespace Pugputer.Limbs

open HostInt (Within)

/-! Numbers written in limbs of `w` bits, the most significant first. -/

variable {w : Nat}

/-- The first number that `n` limbs do not hold. -/
def limit (w n : Nat) : Nat := 2 ^ (w * n)

def number : List (BitVec w) → Nat
  | [] => 0
  | a :: as => a.toNat * limit w as.length + number as

/-- The number in two's complement. -/
def signed (as : List (BitVec w)) : Int := (number as : Int).bmod (limit w as.length)

theorem limit_zero : limit w 0 = 1 := by
  rw [limit, Nat.mul_zero, Nat.pow_zero]

theorem limit_succ (n : Nat) : limit w (n + 1) = 2 ^ w * limit w n := by
  rw [limit, limit, Nat.mul_succ, Nat.pow_add, Nat.mul_comm]

theorem limit_eq (n : Nat) : limit w n = (2 ^ w) ^ n := Nat.pow_mul _ _ _

theorem limit_pos (n : Nat) : 0 < limit w n := Nat.two_pow_pos _

theorem number_lt (as : List (BitVec w)) : number as < limit w as.length := by
  induction as with
  | nil => exact limit_pos 0
  | cons a as ih =>
      rw [number, List.length_cons, limit_succ]
      calc a.toNat * limit w as.length + number as
          < a.toNat * limit w as.length + limit w as.length := Nat.add_lt_add_left ih _
        _ = (a.toNat + 1) * limit w as.length := (Nat.succ_mul _ _).symm
        _ ≤ 2 ^ w * limit w as.length := Nat.mul_le_mul_right _ a.isLt

/-- Equal numbers of as many limbs are the same limbs. -/
theorem number_inj {as bs : List (BitVec w)} (length : as.length = bs.length)
    (same : number as = number bs) : as = bs := by
  induction as generalizing bs with
  | nil => exact (List.length_eq_zero_iff.mp length.symm).symm
  | cons a as ih =>
      cases bs with
      | nil => cases length
      | cons b bs =>
          have lengths : as.length = bs.length := Nat.succ.inj length
          have low := number_lt as
          have low' := number_lt bs
          rw [number, number, ← lengths] at same
          rw [← lengths] at low'
          have rest : number as = number bs := by
            have mods := congrArg (· % limit w as.length) same
            rwa [Nat.mul_add_mod_self_right, Nat.mul_add_mod_self_right, Nat.mod_eq_of_lt low,
              Nat.mod_eq_of_lt low'] at mods
          have top : a.toNat = b.toNat := by
            rw [rest] at same
            exact Nat.eq_of_mul_eq_mul_right (limit_pos _) (Nat.add_right_cancel same)
          rw [BitVec.eq_of_toNat_eq top, ih lengths rest]

/-- Half the limit, where two's complement turns negative. -/
def half (w n : Nat) : Nat := 2 ^ (w * n - 1)

theorem half_succ (wide : 0 < w) (n : Nat) : half w (n + 1) = 2 ^ (w - 1) * limit w n := by
  have split : w * (n + 1) - 1 = w - 1 + w * n := by
    rw [Nat.mul_succ]
    omega
  rw [half, limit, split, Nat.pow_add]

theorem two_halves (wide : 0 < w) : 2 * 2 ^ (w - 1) = 2 ^ w := by
  rw [← Nat.pow_succ', Nat.succ_eq_add_one, Nat.sub_add_cancel wide]

theorem limit_half (wide : 0 < w) (n : Nat) : limit w (n + 1) = 2 * half w (n + 1) := by
  rw [half_succ wide, limit_succ, ← Nat.mul_assoc, two_halves wide]

/-- Whole limbs with a rest are in range where the limbs are. -/
theorem within_scaled (bound : Nat) {low : Nat} {top : Int} {scale : Nat} (less : low < scale) :
    Within ((bound * scale : Nat) : Int) (top * scale + low) ↔ Within bound top := by
  have positive : (0 : Int) < scale := by omega
  have below : (low : Int) < scale := by omega
  constructor
  · rintro ⟨lower, upper⟩
    push_cast at lower upper
    constructor
    · by_contra outside
      have next : top + 1 ≤ -bound := by omega
      have scaled := Int.mul_le_mul_of_nonneg_right next (Int.le_of_lt positive)
      rw [Int.add_mul, Int.one_mul, Int.neg_mul] at scaled
      omega
    · by_contra outside
      have next : (bound : Int) ≤ top := by omega
      have scaled := Int.mul_le_mul_of_nonneg_right next (Int.le_of_lt positive)
      omega
  · rintro ⟨lower, upper⟩
    have lowScaled := Int.mul_le_mul_of_nonneg_right lower (Int.le_of_lt positive)
    have next : top + 1 ≤ bound := by omega
    have highScaled := Int.mul_le_mul_of_nonneg_right next (Int.le_of_lt positive)
    rw [Int.neg_mul] at lowScaled
    rw [Int.add_mul, Int.one_mul] at highScaled
    constructor
    · push_cast
      omega
    · push_cast
      omega

theorem toInt_within (a : BitVec w) : Within ((2 ^ (w - 1) : Nat) : Int) a.toInt := by
  have low := BitVec.le_toInt a
  have high := BitVec.toInt_lt (x := a)
  constructor
  · push_cast
    exact low
  · push_cast
    exact high

/-- The top limb has the sign. -/
theorem signed_cons (wide : 0 < w) (a : BitVec w) (as : List (BitVec w)) :
    signed (a :: as) = a.toInt * limit w as.length + number as := by
  have low := number_lt as
  have inside := (within_scaled (2 ^ (w - 1)) low).mpr (toInt_within a)
  have halves := limit_half wide as.length
  rw [← half_succ wide] at inside
  rw [signed, Int.bmod_eq_iff (limit_pos _), List.length_cons]
  refine ⟨?_, ?_, ?_⟩
  · rw [halves]
    have lower := inside.1
    omega
  · rw [halves]
    have upper := inside.2
    omega
  · rw [number, limit_succ]
    have whole := BitVec.toInt_eq_toNat_cond a
    split at whole
    · rw [whole]
      push_cast
      refine ⟨0, ?_⟩
      ring
    · rw [whole]
      push_cast
      refine ⟨-1, ?_⟩
      ring

theorem half_zero : half w 0 = 1 := by
  rw [half, Nat.mul_zero, Nat.zero_sub, Nat.pow_zero]

theorem signed_nil : signed ([] : List (BitVec w)) = 0 := by
  rw [signed, number]
  exact Int.zero_bmod

theorem signed_within (wide : 0 < w) (as : List (BitVec w)) :
    Within (half w as.length) (signed as) := by
  cases as with
  | nil =>
      rw [signed_nil, List.length_nil, half_zero]
      decide
  | cons a as =>
      rw [signed_cons wide, List.length_cons, half_succ wide]
      exact (within_scaled _ (number_lt as)).mpr (toInt_within a)

/-- The number is its signed value but for a multiple of the limit. -/
theorem signed_congr (as : List (BitVec w)) :
    ∃ k : Int, (number as : Int) = signed as + limit w as.length * k :=
  ⟨_, (Int.bmod_add_bdiv _ _).symm⟩

theorem signed_neg (wide : 0 < w) (a : BitVec w) (as : List (BitVec w)) :
    signed (a :: as) < 0 ↔ a.msb = true := by
  have low := number_lt as
  have positive : (0 : Int) < limit w as.length := by omega
  rw [signed_cons wide, BitVec.msb_eq_toInt, decide_eq_true_iff]
  constructor
  · intro negative
    by_contra top
    have scaled := Int.mul_nonneg (Int.not_lt.mp top) (Int.le_of_lt positive)
    omega
  · intro top
    have next : a.toInt + 1 ≤ 0 := top
    have scaled := Int.mul_le_mul_of_nonneg_right next (Int.le_of_lt positive)
    rw [Int.add_mul, Int.one_mul, Int.zero_mul] at scaled
    omega

/-! Sums (`sign` 1) and differences (-1), limb by limb. -/

/-- One limb, with a carry in and a carry out. -/
structure LimbSum (sign : Int) (a b r : BitVec w) (carryIn carryOut overflow : Bool) : Prop where
  value : (r.toNat : Int) + sign * ((2 ^ w : Nat) * carryOut.toNat) =
    a.toNat + sign * (b.toNat + carryIn.toNat)
  range : overflow = true ↔
    ¬Within ((2 ^ (w - 1) : Nat) : Int) (a.toInt + sign * (b.toInt + carryIn.toNat))

/-- All limbs; the overflow is that of the top limb. -/
structure Sum (sign : Int) (as bs rs : List (BitVec w)) (carry overflow : Bool) : Prop where
  length : rs.length = as.length
  value : (number rs : Int) + sign * (limit w as.length * carry.toNat) =
    number as + sign * number bs
  range : overflow = true ↔ ¬Within (half w as.length) (signed as + sign * signed bs)

theorem Sum.nil (sign : Int) : Sum sign ([] : List (BitVec w)) [] [] false false where
  length := rfl
  value := by
    rw [number, Bool.toNat_false]
    omega
  range := by
    rw [signed_nil, Int.mul_zero, List.length_nil, half_zero]
    decide

theorem Sum.cons (wide : 0 < w) {sign : Int} {as bs rs : List (BitVec w)} {a b r : BitVec w}
    {carryIn carryOut lower overflow : Bool} (lengths : as.length = bs.length)
    (low : Sum sign as bs rs carryIn lower) (top : LimbSum sign a b r carryIn carryOut overflow) :
    Sum sign (a :: as) (b :: bs) (r :: rs) carryOut overflow where
  length := congrArg (· + 1) low.length
  value := by
    have scaled := congrArg (· * (limit w as.length : Int)) top.value
    have lower := low.value
    rw [number, number, number, List.length_cons, limit_succ, low.length, ← lengths]
    push_cast at scaled lower ⊢
    calc _ = (r.toNat + sign * (2 ^ w * carryOut.toNat)) * limit w as.length + number rs := by ring
      _ = (a.toNat + sign * (b.toNat + carryIn.toNat)) * limit w as.length + number rs := by
          rw [scaled]
      _ = (a.toNat + sign * b.toNat) * limit w as.length +
            (number rs + sign * (limit w as.length * carryIn.toNat)) := by ring
      _ = _ := by
          rw [lower]
          ring
  range := by
    have rest : number rs < limit w as.length := low.length ▸ number_lt rs
    have whole : signed (a :: as) + sign * signed (b :: bs) =
        (a.toInt + sign * (b.toInt + carryIn.toNat)) * limit w as.length + number rs := by
      rw [signed_cons wide, signed_cons wide, ← lengths]
      calc _ = (a.toInt + sign * b.toInt) * limit w as.length +
            (number as + sign * number bs) := by ring
        _ = _ := by
            rw [← low.value]
            ring
    rw [whole, List.length_cons, half_succ wide, within_scaled _ rest]
    exact top.range

section Result

variable {sign : Int} {as bs rs : List (BitVec w)} {carry overflow : Bool}

/-- A sum is taken modulo the limit, and what is carried is what does not fit. -/
theorem Sum.add (sum : Sum 1 as bs rs carry overflow) :
    number rs = (number as + number bs) % limit w as.length ∧
      (carry = true ↔ limit w as.length ≤ number as + number bs) := by
  have less : number rs < limit w as.length := sum.length ▸ number_lt rs
  have value := sum.value
  cases carry with
  | false =>
      rw [Bool.toNat_false] at value
      have same : number as + number bs = number rs := by omega
      rw [same, Nat.mod_eq_of_lt less]
      exact ⟨rfl, iff_of_false Bool.false_ne_true (by omega)⟩
  | true =>
      rw [Bool.toNat_true] at value
      have same : number as + number bs = number rs + limit w as.length := by omega
      rw [same, Nat.add_mod_right, Nat.mod_eq_of_lt less]
      exact ⟨rfl, iff_of_true rfl (Nat.le_add_left _ _)⟩

/-- A difference likewise, with the borrow. -/
theorem Sum.sub (sum : Sum (-1) as bs rs carry overflow) :
    (number rs : Int) = ((number as : Int) - number bs) % limit w as.length ∧
      (carry = true ↔ number as < number bs) := by
  have less : number rs < limit w as.length := sum.length ▸ number_lt rs
  have value := sum.value
  cases carry with
  | false =>
      rw [Bool.toNat_false] at value
      have same : (number as : Int) - number bs = number rs := by omega
      rw [same, Int.emod_eq_of_lt (by omega) (by omega)]
      exact ⟨rfl, iff_of_false Bool.false_ne_true (by omega)⟩
  | true =>
      rw [Bool.toNat_true] at value
      have same : (number as : Int) - number bs = number rs - limit w as.length := by omega
      rw [same, Int.sub_emod_right, Int.emod_eq_of_lt (by omega) (by omega)]
      exact ⟨rfl, iff_of_true rfl (by omega)⟩

/-- Numbers of one range differ by less than two of it, so that a difference wraps at most once. -/
theorem wraps_once {range first second result : Int} {wraps : Int} (firstIn : Within range first)
    (secondIn : Within range second) (resultIn : Within range result)
    (value : first - second = result + 2 * range * wraps) :
    wraps = 0 ∨ wraps = 1 ∨ wraps = -1 := by
  obtain ⟨firstLow, firstHigh⟩ := firstIn
  obtain ⟨secondLow, secondHigh⟩ := secondIn
  obtain ⟨resultLow, resultHigh⟩ := resultIn
  have positive : 0 ≤ 2 * range := by omega
  have above : wraps ≤ 1 := by
    by_contra more
    have scaled := Int.mul_le_mul_of_nonneg_left (show 2 ≤ wraps by omega) positive
    omega
  have below : -1 ≤ wraps := by
    by_contra less
    have scaled := Int.mul_le_mul_of_nonneg_left (show wraps ≤ -2 by omega) positive
    omega
  omega

/-- The sign of a difference, corrected by the overflow, compares. -/
theorem Sum.less (wide : 0 < w) (sum : Sum (-1) as bs rs carry overflow)
    (lengths : as.length = bs.length) (some : as ≠ []) :
    (decide (signed rs < 0) != overflow) = true ↔ signed as < signed bs := by
  obtain ⟨n, size⟩ : ∃ n, as.length = n + 1 :=
    Nat.exists_eq_succ_of_ne_zero (mt List.length_eq_zero_iff.mp some)
  have first := signed_within wide as
  have second := signed_within wide bs
  have result := signed_within wide rs
  have range := sum.range
  obtain ⟨i, firstIs⟩ := signed_congr as
  obtain ⟨j, secondIs⟩ := signed_congr bs
  obtain ⟨k, resultIs⟩ := signed_congr rs
  have value := sum.value
  rw [firstIs, secondIs, resultIs, sum.length, ← lengths, size, limit_half wide] at value
  rw [sum.length, size] at result
  rw [← lengths, size] at second
  rw [size] at first range
  push_cast at value
  have difference : signed as - signed bs =
      signed rs + 2 * half w (n + 1) * (k - carry.toNat - i + j) := by
    calc _ = (signed as + 2 * half w (n + 1) * i + -1 * (signed bs + 2 * half w (n + 1) * j)) -
          2 * half w (n + 1) * i + 2 * half w (n + 1) * j := by ring
      _ = _ := by
          rw [← value]
          ring
  have wraps := wraps_once first second result difference
  obtain ⟨resultLow, resultHigh⟩ := result
  obtain ⟨firstLow, firstHigh⟩ := first
  obtain ⟨secondLow, secondHigh⟩ := second
  rw [Within] at range
  rw [bne_iff_ne]
  rcases wraps with none | up | down
  · rw [none] at difference
    have inside : overflow = false := Bool.eq_false_iff.mpr fun past => range.mp past (by omega)
    rw [inside, Bool.ne_false_iff, decide_eq_true_iff]
    omega
  · rw [up] at difference
    have outside : overflow = true := range.mpr (by omega)
    rw [outside, Ne, Bool.not_eq_true, decide_eq_false_iff_not]
    omega
  · rw [down] at difference
    have outside : overflow = true := range.mpr (by omega)
    rw [outside, Ne, Bool.not_eq_true, decide_eq_false_iff_not]
    omega

end Result

/-! The overflow tests, from the signs of a limb's operands and result. -/

section Tests

variable {a b r : BitVec w} {carryIn carryOut : Bool}

theorem msb_cases (wide : 0 < w) (a : BitVec w) :
    a.msb = true ∧ 2 ^ (w - 1) ≤ a.toNat ∧ a.toNat < 2 * 2 ^ (w - 1) ∧
        a.toInt = a.toNat - 2 * (2 ^ (w - 1) : Nat) ∨
      a.msb = false ∧ a.toNat < 2 ^ (w - 1) ∧ a.toInt = a.toNat := by
  have halves := two_halves wide
  have less := a.isLt
  have whole := BitVec.toInt_eq_msb_cond a
  cases sign : a.msb with
  | true =>
      rw [sign, if_pos rfl] at whole
      rw [BitVec.msb_eq_decide, decide_eq_true_iff] at sign
      exact .inl ⟨rfl, sign, by omega, by rw [whole, ← halves]; push_cast; rfl⟩
  | false =>
      rw [sign, if_neg Bool.false_ne_true] at whole
      rw [BitVec.msb_eq_decide, decide_eq_false_iff_not] at sign
      exact .inr ⟨rfl, by omega, whole⟩

theorem overflow_add (wide : 0 < w)
    (value : r.toNat + 2 ^ w * carryOut.toNat = a.toNat + b.toNat + carryIn.toNat) :
    (~~~(a ^^^ b) &&& (a ^^^ r)).msb = true ↔
      ¬Within ((2 ^ (w - 1) : Nat) : Int) (a.toInt + (b.toInt + carryIn.toNat)) := by
  have carries := Bool.toNat_lt carryIn
  have first := msb_cases wide a
  have second := msb_cases wide b
  have result := msb_cases wide r
  rw [← two_halves wide] at value
  rw [BitVec.msb_and, BitVec.msb_not, BitVec.msb_xor, BitVec.msb_xor, decide_eq_true wide, Within]
  generalize 2 ^ (w - 1) = range at *
  rcases first with ⟨signA, lowA, highA, valueA⟩ | ⟨signA, lowA, valueA⟩ <;>
    rcases second with ⟨signB, lowB, highB, valueB⟩ | ⟨signB, lowB, valueB⟩ <;>
    rcases result with ⟨signR, lowR, highR, valueR⟩ | ⟨signR, lowR, valueR⟩ <;>
    rw [signA, signB, signR, valueA, valueB] <;>
    cases carryOut <;>
    simp only [Bool.toNat_true, Bool.toNat_false, Nat.mul_zero, Nat.mul_one] at value <;>
    simp <;>
    omega

theorem overflow_sub (wide : 0 < w)
    (value : r.toNat + b.toNat + carryIn.toNat = a.toNat + 2 ^ w * carryOut.toNat) :
    ((a ^^^ b) &&& (a ^^^ r)).msb = true ↔
      ¬Within ((2 ^ (w - 1) : Nat) : Int) (a.toInt - (b.toInt + carryIn.toNat)) := by
  have carries := Bool.toNat_lt carryIn
  have first := msb_cases wide a
  have second := msb_cases wide b
  have result := msb_cases wide r
  rw [← two_halves wide] at value
  rw [BitVec.msb_and, BitVec.msb_xor, BitVec.msb_xor, Within]
  generalize 2 ^ (w - 1) = range at *
  rcases first with ⟨signA, lowA, highA, valueA⟩ | ⟨signA, lowA, valueA⟩ <;>
    rcases second with ⟨signB, lowB, highB, valueB⟩ | ⟨signB, lowB, valueB⟩ <;>
    rcases result with ⟨signR, lowR, highR, valueR⟩ | ⟨signR, lowR, valueR⟩ <;>
    rw [signA, signB, signR, valueA, valueB] <;>
    cases carryOut <;>
    simp only [Bool.toNat_true, Bool.toNat_false, Nat.mul_zero, Nat.mul_one] at value <;>
    simp <;>
    omega

end Tests

/-! Shifts by one bit, from the lowest limb up and from the top limb down. -/

theorem double_cons {a r : BitVec w} {as rs : List (BitVec w)} {carryIn carryOut : Bool}
    (lengths : rs.length = as.length)
    (low : number rs + limit w as.length * carryIn.toNat = 2 * number as)
    (top : r.toNat + 2 ^ w * carryOut.toNat = 2 * a.toNat + carryIn.toNat) :
    number (r :: rs) + limit w (a :: as).length * carryOut.toNat = 2 * number (a :: as) := by
  rw [number, number, List.length_cons, limit_succ, lengths]
  calc _ = (r.toNat + 2 ^ w * carryOut.toNat) * limit w as.length + number rs := by ring
    _ = 2 * a.toNat * limit w as.length + (number rs + limit w as.length * carryIn.toNat) := by
        rw [top]
        ring
    _ = _ := by
        rw [low]
        ring

theorem halve_cons {a r : BitVec w} {as rs : List (BitVec w)} {carryIn carry carryOut : Bool}
    (lengths : rs.length = as.length)
    (top : 2 * r.toNat + carry.toNat = a.toNat + 2 ^ w * carryIn.toNat)
    (low : 2 * number rs + carryOut.toNat = number as + limit w as.length * carry.toNat) :
    2 * number (r :: rs) + carryOut.toNat =
      number (a :: as) + limit w (a :: as).length * carryIn.toNat := by
  rw [number, number, List.length_cons, limit_succ, lengths]
  calc _ = 2 * r.toNat * limit w as.length + (2 * number rs + carryOut.toNat) := by ring
    _ = (2 * r.toNat + carry.toNat) * limit w as.length + number as := by
        rw [low]
        ring
    _ = _ := by
        rw [top]
        ring

end Pugputer.Limbs
