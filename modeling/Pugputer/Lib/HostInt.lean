import Mathlib.Data.Nat.Notation

namespace Pugputer.HostInt

/-! Signed host arithmetic of a fixed width, which is undefined where it overflows. -/

/-- The integers from -`half` up to, but not including, `half`. -/
def Within (half v : Int) : Prop := -half ≤ v ∧ v < half

instance (half v : Int) : Decidable (Within half v) := inferInstanceAs (Decidable (_ ∧ _))

/-- `a / b` and `a % b`: undefined if `b` is zero or the quotient does not fit. -/
def divMod (half a b : Int) : Option (Int × Int) :=
  if b ≠ 0 ∧ Within half (a.tdiv b) then some (a.tdiv b, a.tmod b) else none

theorem divMod_eq_some {half a b : Int} {result : Int × Int}
    (defined : divMod half a b = some result) : result = (a.tdiv b, a.tmod b) := by
  rw [divMod] at defined
  split at defined
  · exact (Option.some.inj defined).symm
  · cases defined

/-- The remainder is smaller than the divisor. -/
theorem tmod_natAbs_lt (a : Int) {b : Int} (nonzero : b ≠ 0) : (a.tmod b).natAbs < b.natAbs := by
  rw [Int.natAbs_tmod]
  exact Nat.mod_lt _ (Int.natAbs_pos.mpr nonzero)

/-- The remainder is zero or has the dividend's sign. -/
theorem tmod_sign (a b : Int) : a.tmod b = 0 ∨ (a.tmod b).sign = a.sign := by
  rw [Int.sign_tmod]
  split
  · next divides => exact .inl (Int.dvd_iff_tmod_eq_zero.mp divides)
  · exact .inr rfl

/-- A quotient overflows only where the least integer is divided by -1. -/
theorem tdiv_within {half a b : Int} (fits : Within half a) (nonzero : b ≠ 0) :
    Within half (a.tdiv b) ↔ ¬(a = -half ∧ b = -1) := by
  obtain ⟨low, high⟩ := fits
  have size : (a.tdiv b).natAbs = a.natAbs / b.natAbs := Int.natAbs_tdiv a b
  constructor
  · rintro ⟨-, below⟩ ⟨rfl, rfl⟩
    rw [Int.tdiv_neg, Int.neg_tdiv, Int.tdiv_one] at below
    omega
  · intro other
    by_cases unit : b.natAbs = 1
    · have units : b = 1 ∨ b = -1 := by omega
      rcases units with rfl | rfl
      · rw [Int.tdiv_one]
        exact ⟨low, high⟩
      · have least : a ≠ -half := fun least => other ⟨least, rfl⟩
        rw [Int.tdiv_neg, Int.tdiv_one]
        exact ⟨by omega, by omega⟩
    · have halved : a.natAbs / b.natAbs ≤ a.natAbs / 2 := Nat.div_le_div_left (by omega) (by decide)
      exact ⟨by omega, by omega⟩

end Pugputer.HostInt
