import Mathlib.Data.Nat.Notation

namespace Pugputer

/-! The first number of a range that has a property. -/

variable {P : Nat → Prop}

/-- From `lo` up to but not including `hi`. -/
def FirstIn (P : Nat → Prop) (lo hi : Nat) : Option Nat → Prop
  | some p => lo ≤ p ∧ p < hi ∧ P p ∧ ∀ q, lo ≤ q → q < p → ¬P q
  | none => ∀ q, lo ≤ q → q < hi → ¬P q

namespace FirstIn

theorem empty {lo hi : Nat} (le : hi ≤ lo) : FirstIn P lo hi none :=
  fun _ above below => absurd below (Nat.not_lt.mpr (Nat.le_trans le above))

theorem here {lo hi : Nat} (room : lo < hi) (holds : P lo) : FirstIn P lo hi (some lo) :=
  ⟨Nat.le_refl lo, room, holds, fun _ above below => absurd below (Nat.not_lt.mpr above)⟩

/-- Not in the first part of the range: the search goes on in the rest. -/
theorem append {lo mid hi : Nat} {found : Option Nat} (le : lo ≤ mid)
    (absent : FirstIn P lo mid none) (rest : FirstIn P mid hi found) : FirstIn P lo hi found := by
  cases found with
  | none =>
      intro q above below
      by_cases early : q < mid
      · exact absent q above early
      · exact rest q (Nat.not_lt.mp early) below
  | some p =>
      obtain ⟨past, inside, holds, before⟩ := rest
      refine ⟨Nat.le_trans le past, inside, holds, fun q above below => ?_⟩
      by_cases early : q < mid
      · exact absent q above early
      · exact before q (Nat.not_lt.mp early) below

theorem widen {lo mid hi p : Nat} (le : mid ≤ hi) (first : FirstIn P lo mid (some p)) :
    FirstIn P lo hi (some p) :=
  ⟨first.1, Nat.lt_of_lt_of_le first.2.1 le, first.2.2⟩

/-- A search of another stretch of numbers as long. -/
theorem shift {lo lo' n : Nat} {found : Option Nat}
    (first : FirstIn (fun q => P (lo + (q - lo'))) lo' (lo' + n) found) :
    FirstIn P lo (lo + n) (found.map fun q => lo + (q - lo')) := by
  have back (q : Nat) (above : lo ≤ q) : lo + (lo' + (q - lo) - lo') = q := by omega
  cases found with
  | none =>
      intro q above below
      have absent := first (lo' + (q - lo)) (Nat.le_add_right _ _) (by omega)
      dsimp only at absent
      rwa [back q above] at absent
  | some p =>
      obtain ⟨past, inside, holds, before⟩ := first
      refine ⟨Nat.le_add_right _ _, ?_, holds, fun q above below => ?_⟩
      · dsimp only
        omega
      · have absent := before (lo' + (q - lo)) (Nat.le_add_right _ _) (by dsimp only at below; omega)
        dsimp only at absent
        rwa [back q above] at absent

end FirstIn

end Pugputer
