import Mathlib.Algebra.Order.Round
import Mathlib.Analysis.Real.Sqrt
import Mathlib.Data.Int.LeastGreatest
import Mathlib.Data.Nat.Sqrt
import Mathlib.Tactic.Linarith
import Pugputer.Vidcard.Marks

namespace Pugputer.Vidcard

/-! The integer nearest to a square root. -/

/-- `x` is nearest to the square root of `n`, of zero if `n` is negative. -/
def NearestRoot (n x : Int) : Prop := n ≤ x * x + x ∧ (x = 0 ∨ x * x - x < n)

theorem nearestRoot_iff {n x : Int} (natural : 0 ≤ x) :
    NearestRoot n x ↔ round √(n : ℝ) = x := by
  have below : √(n : ℝ) < x + 1 / 2 ↔ n ≤ x * x + x := by
    rw [Real.sqrt_lt' (by positivity)]
    have square : ((x : ℝ) + 1 / 2) ^ 2 = ((x * x + x : Int) : ℝ) + 1 / 4 := by
      push_cast
      ring
    rw [square]
    constructor
    · intro close
      by_contra far
      have : ((x * x + x + 1 : Int) : ℝ) ≤ n := by exact_mod_cast (by omega)
      push_cast at this close
      linarith
    · intro close
      have : (n : ℝ) ≤ ((x * x + x : Int) : ℝ) := by exact_mod_cast close
      linarith
  have above : (x : ℝ) - 1 / 2 ≤ √(n : ℝ) ↔ x = 0 ∨ x * x - x < n := by
    rcases Int.lt_or_eq_of_le natural with positive | zero
    · have atLeastOne : (1 : ℝ) ≤ x := by exact_mod_cast positive
      rw [Real.le_sqrt' (by linarith)]
      have square : ((x : ℝ) - 1 / 2) ^ 2 = ((x * x - x : Int) : ℝ) + 1 / 4 := by
        push_cast
        ring
      rw [square]
      constructor
      · intro close
        refine .inr ?_
        by_contra far
        have : (n : ℝ) ≤ ((x * x - x : Int) : ℝ) := by exact_mod_cast (by omega)
        linarith
      · rintro (zero | close)
        · omega
        · have : ((x * x - x + 1 : Int) : ℝ) ≤ n := by exact_mod_cast close
          push_cast at this ⊢
          linarith
    · rw [← zero]
      have root := Real.sqrt_nonneg (n : ℝ)
      constructor
      · intro _
        exact .inl rfl
      · intro _
        push_cast
        linarith
  rw [NearestRoot, round_eq_iff, Set.mem_Ico, above, below, and_comm]

theorem NearestRoot.unique {n x x' : Int} (natural : 0 ≤ x) (natural' : 0 ≤ x')
    (nearest : NearestRoot n x) (nearest' : NearestRoot n x') : x = x' := by
  rw [nearestRoot_iff natural] at nearest
  rw [nearestRoot_iff natural'] at nearest'
  exact nearest.symm.trans nearest'

theorem NearestRoot.exists {n : Int} (natural : 0 ≤ n) : ∃ x, 0 ≤ x ∧ NearestRoot n x := by
  obtain ⟨m, rfl⟩ := Int.eq_ofNat_of_zero_le natural
  have low : (m.sqrt * m.sqrt : Int) ≤ m := by exact_mod_cast Nat.sqrt_le m
  have high : (m : Int) < (m.sqrt + 1) * (m.sqrt + 1) := by exact_mod_cast Nat.lt_succ_sqrt m
  by_cases near : (m : Int) ≤ m.sqrt * m.sqrt + m.sqrt
  · refine ⟨m.sqrt, by omega, near, ?_⟩
    rcases Nat.eq_zero_or_pos m.sqrt with zero | positive
    · exact .inl (by omega)
    · exact .inr (by omega)
  · refine ⟨m.sqrt + 1, by omega, by linarith, .inr ?_⟩
    have same : ((m.sqrt : Int) + 1) * (m.sqrt + 1) - (m.sqrt + 1) = m.sqrt * m.sqrt + m.sqrt := by
      ring
    omega

/-! The points the loop of `circle` goes through. -/

/-- A point of the circle's first eighth: `x` is nearest to the circle on row `y`. -/
structure Octant (r x y : Int) : Prop where
  natural : 0 ≤ y
  below : y ≤ x
  nearest : NearestRoot (r * r - y * y) x

/-- The points from (x, y) on. -/
def octantFrom (x y err : Int) : List (Int × Int) :=
  if y ≤ x then
    (x, y) ::
      if err < 0 then octantFrom x (y + 1) (err + 2 * y + 3)
      else octantFrom (x - 1) (y + 1) (err + 2 * (y - x) + 5)
  else []
termination_by (x - y + 1).toNat

theorem circlePlotsFrom_octant (cx cy : Int) (fill : Bool) (col : Byte) (x y err : Int) :
    circlePlotsFrom cx cy fill col x y err =
      (octantFrom x y err).flatMap fun p => circleStepPlots cx cy p.1 p.2 fill col := by
  fun_induction octantFrom x y err with
  | case1 x y err going inward outward =>
      rw [circlePlotsFrom, if_pos going, List.flatMap_cons]
      split
      · rw [inward]
      · rw [outward]
  | case2 x y err done => rw [circlePlotsFrom, if_neg done, List.flatMap_nil]

/-- The decision variable and its point: nearest to the circle while the loop goes on, never
too far in. -/
structure Deciding (r x y err : Int) : Prop where
  natural : 0 ≤ y
  positive : 0 ≤ x + y
  error : err = (y + 1) * (y + 1) + x * x - x - r * r
  outer : r * r - y * y ≤ x * x + x
  inner : y ≤ x → x = 0 ∨ x * x - x < r * r - y * y

theorem Deciding.stay {r x y err : Int} (deciding : Deciding r x y err) (inside : err < 0) :
    Deciding r x (y + 1) (err + 2 * y + 3) where
  natural := by
    have := deciding.natural
    omega
  positive := by
    have := deciding.positive
    omega
  error := by
    rw [deciding.error]
    ring
  outer := by
    have natural := deciding.natural
    have outer := deciding.outer
    linarith
  inner := by
    intro _
    have error := deciding.error
    exact .inr (by linarith)

/-- One decrement of `x` is enough, as the slope is at most one. -/
theorem Deciding.shrink {r x y err : Int} (deciding : Deciding r x y err) (going : y ≤ x)
    (outside : ¬err < 0) : Deciding r (x - 1) (y + 1) (err + 2 * (y - x) + 5) where
  natural := by
    have := deciding.natural
    omega
  positive := by
    have := deciding.positive
    omega
  error := by
    rw [deciding.error]
    ring
  outer := by
    have error := deciding.error
    linarith
  inner := by
    intro more
    have natural := deciding.natural
    rcases deciding.inner going with zero | inner
    · omega
    · exact .inr (by linarith)

theorem mem_octantFrom {r x y err : Int} (deciding : Deciding r x y err) (a b : Int) :
    (a, b) ∈ octantFrom x y err ↔ y ≤ b ∧ Octant r a b := by
  fun_induction octantFrom x y err with
  | case1 x y err going inward outward =>
      have natural := deciding.natural
      have here : Octant r x y := ⟨natural, going, deciding.outer, deciding.inner going⟩
      have rest : (a, b) ∈ (if err < 0 then octantFrom x (y + 1) (err + 2 * y + 3)
          else octantFrom (x - 1) (y + 1) (err + 2 * (y - x) + 5)) ↔ y + 1 ≤ b ∧ Octant r a b := by
        split
        · rename_i inside
          exact inward (deciding.stay inside)
        · rename_i outside
          exact outward (deciding.shrink going outside)
      rw [List.mem_cons, rest, Prod.mk.injEq]
      constructor
      · rintro (⟨rfl, rfl⟩ | ⟨later, octant⟩)
        · exact ⟨Int.le_refl _, here⟩
        · exact ⟨by omega, octant⟩
      · rintro ⟨later, octant⟩
        by_cases first : b = y
        · refine .inl ⟨?_, first⟩
          have nearest := octant.nearest
          have below := octant.below
          rw [first] at nearest
          exact nearest.unique (by omega) (by omega) here.nearest
        · exact .inr ⟨by omega, octant⟩
  | case2 x y err done =>
      -- no row further down has its nearest point in this eighth
      have positive := deciding.positive
      have outer := deciding.outer
      have natural := deciding.natural
      simp only [List.not_mem_nil, false_iff]
      rintro ⟨later, octant⟩
      have below := octant.below
      have rows : y * y ≤ b * b := Int.mul_le_mul later later natural octant.natural
      rcases octant.nearest.2 with zero | inner
      · omega
      · have product : 0 ≤ (a - x - 1) * (a + x) :=
          Int.mul_nonneg (by omega) (by omega)
        linarith

/-! The outline, by its rows. -/

/-- Rows `j` above and below the middle have points `a` to the left and to the right of it. -/
def HalfWidth (r j a : Int) : Prop := Octant r a j ∨ Octant r j a

theorem HalfWidth.bounds {r j a : Int} (radius : 0 ≤ r) (half : HalfWidth r j a) :
    0 ≤ j ∧ j ≤ r ∧ 0 ≤ a ∧ a ≤ r := by
  have bounds {x y : Int} (octant : Octant r x y) : 0 ≤ y ∧ y ≤ x ∧ x ≤ r := by
    refine ⟨octant.natural, octant.below, ?_⟩
    have natural := octant.natural
    have below := octant.below
    rcases octant.nearest.2 with zero | inner
    · omega
    · by_contra far
      have : (r + 1) * r ≤ x * (x - 1) :=
        Int.mul_le_mul (by omega) (by omega) radius (by omega)
      have : 0 ≤ y * y := Int.mul_nonneg natural natural
      linarith
  rcases half with octant | octant
  · have := bounds octant
    omega
  · have := bounds octant
    omega

/-- The rows reached through y and through x leave no gap. -/
theorem HalfWidth.exists {r j : Int} (natural : 0 ≤ j) (inside : j ≤ r) :
    ∃ a, HalfWidth r j a := by
  have square : j * j ≤ r * r := Int.mul_le_mul inside inside natural (by omega)
  obtain ⟨x, positive, nearest⟩ := NearestRoot.exists (n := r * r - j * j) (by omega)
  by_cases below : j ≤ x
  · exact ⟨x, .inl ⟨natural, below, nearest⟩⟩
  · -- row `j` is past the eighth: it is some point's x
    have atLeastOne : 0 < j := by omega
    have near : r * r - j * j ≤ j * j - j := by
      have outer := nearest.1
      have : x * (x + 1) ≤ (j - 1) * j := Int.mul_le_mul (by omega) (by omega) (by omega) (by omega)
      linarith
    obtain ⟨m, counted⟩ := Int.eq_ofNat_of_zero_le
      (show 0 ≤ r * r - j * j + j - 1 by omega)
    have low : (m.sqrt * m.sqrt : Int) ≤ m := by exact_mod_cast Nat.sqrt_le m
    have high : (m : Int) < (m.sqrt + 1) * (m.sqrt + 1) := by exact_mod_cast Nat.lt_succ_sqrt m
    have left : (m.sqrt : Int) < j := by
      by_contra far
      have : j * j ≤ m.sqrt * m.sqrt := Int.mul_le_mul (by omega) (by omega) (by omega) (by omega)
      omega
    refine ⟨m.sqrt, .inr ⟨by omega, by omega, ?_, .inr (by omega)⟩⟩
    linarith

theorem marks_circle {cx cy r : Int} {fill : Bool} {col : Byte} (radius : 0 ≤ r) (u v : Int) :
    Marks (circlePlots cx cy r fill col) u v ↔
      ∃ x y, Octant r x y ∧ Marks (circleStepPlots cx cy x y fill col) u v := by
  have start : Deciding r r 0 (1 - r) := by
    refine ⟨Int.le_refl 0, by omega, by ring, by omega, fun _ => ?_⟩
    rcases Int.lt_or_eq_of_le radius with positive | zero
    · exact .inr (by omega)
    · exact .inl zero.symm
  rw [circlePlots, if_neg (by omega), circlePlotsFrom_octant, marks_flatMap]
  constructor
  · rintro ⟨⟨x, y⟩, member, marked⟩
    exact ⟨x, y, ((mem_octantFrom start x y).mp member).2, marked⟩
  · rintro ⟨x, y, octant, marked⟩
    exact ⟨(x, y), (mem_octantFrom start x y).mpr ⟨octant.natural, octant⟩, marked⟩

theorem marks_outline {cx cy r : Int} {col : Byte} (radius : 0 ≤ r) (u v : Int) :
    Marks (circlePlots cx cy r false col) u v ↔ HalfWidth r |v - cy| |u - cx| := by
  rw [marks_circle radius]
  simp only [circleStepPlots, Bool.false_eq_true, if_false, marks_cons, marks_nil, or_false,
    HalfWidth, Int.abs_eq_natAbs]
  constructor
  · rintro ⟨x, y, octant, marked⟩
    have natural := octant.natural
    have below := octant.below
    have sides : ((u - cx).natAbs = x ∧ (v - cy).natAbs = y) ∨
        ((u - cx).natAbs = y ∧ (v - cy).natAbs = x) := by omega
    rcases sides with ⟨rfl, rfl⟩ | ⟨rfl, rfl⟩
    · exact .inl octant
    · exact .inr octant
  · rintro (octant | octant)
    · exact ⟨_, _, octant, by omega⟩
    · exact ⟨_, _, octant, by omega⟩

theorem marks_disc {cx cy r : Int} {col : Byte} (radius : 0 ≤ r) (u v : Int) :
    Marks (circlePlots cx cy r true col) u v ↔ ∃ a, HalfWidth r |v - cy| a ∧ |u - cx| ≤ a := by
  rw [marks_circle radius]
  simp only [circleStepPlots, if_true, marks_append, marks_span, HalfWidth, Int.abs_eq_natAbs]
  constructor
  · rintro ⟨x, y, octant, marked⟩
    have natural := octant.natural
    have below := octant.below
    have sides : ((u - cx).natAbs ≤ x ∧ (v - cy).natAbs = y) ∨
        ((u - cx).natAbs ≤ y ∧ (v - cy).natAbs = x) := by omega
    rcases sides with ⟨inside, rfl⟩ | ⟨inside, rfl⟩
    · exact ⟨x, .inl octant, inside⟩
    · exact ⟨y, .inr octant, inside⟩
  · rintro ⟨a, octant | octant, inside⟩
    · exact ⟨_, _, octant, by omega⟩
    · exact ⟨_, _, octant, by omega⟩

/-- CIRCLE is the midpoint circle, without a gap, and DISC is all that lies between its sides. -/
theorem circle_midpoint (c : Card) (cx cy : Int) (r : Nat) :
    c.circle cx cy r false = c.drawAll (circlePlots cx cy r false c.color) ∧
      c.circle cx cy r true = c.drawAll (circlePlots cx cy r true c.color) ∧
      (∀ u v, Marks (circlePlots cx cy r false c.color) u v ↔
        ∃ x y : Int, 0 ≤ y ∧ y ≤ x ∧ x = round √((r : ℝ) ^ 2 - (y : ℝ) ^ 2) ∧
          (|u - cx| = x ∧ |v - cy| = y ∨ |u - cx| = y ∧ |v - cy| = x)) ∧
      (∀ v, cy - r ≤ v → v ≤ cy + r → ∃ left right,
        IsLeast {u | Marks (circlePlots cx cy r false c.color) u v} left ∧
        IsGreatest {u | Marks (circlePlots cx cy r false c.color) u v} right ∧
        ∀ u, Marks (circlePlots cx cy r true c.color) u v ↔ left ≤ u ∧ u ≤ right) ∧
      ∀ u v, Marks (circlePlots cx cy r true c.color) u v → cy - r ≤ v ∧ v ≤ cy + r := by
  have radius : 0 ≤ (r : Int) := Int.natCast_nonneg r
  refine ⟨c.circle_drawAll cx cy r false, c.circle_drawAll cx cy r true, ?_, ?_, ?_⟩
  · intro u v
    have nearest {x y : Int} (natural : 0 ≤ x) : NearestRoot (r * r - y * y) x ↔
        x = round √((r : ℝ) ^ 2 - (y : ℝ) ^ 2) := by
      rw [nearestRoot_iff natural, eq_comm]
      push_cast
      rw [pow_two, pow_two]
    rw [marks_outline radius]
    constructor
    · rintro (⟨natural, below, near⟩ | ⟨natural, below, near⟩)
      · exact ⟨_, _, natural, below, (nearest (by omega)).mp near, .inl ⟨rfl, rfl⟩⟩
      · exact ⟨_, _, natural, below, (nearest (by omega)).mp near, .inr ⟨rfl, rfl⟩⟩
    · rintro ⟨x, y, natural, below, near, ⟨rfl, rfl⟩ | ⟨rfl, rfl⟩⟩
      · exact .inl ⟨natural, below, (nearest (by omega)).mpr near⟩
      · exact .inr ⟨natural, below, (nearest (by omega)).mpr near⟩
  · intro v above below
    -- the widest the outline is on this row
    obtain ⟨a, half, widest⟩ := Int.exists_greatest_of_bdd
      (P := HalfWidth r |v - cy|) ⟨r, fun a half => (half.bounds radius).2.2.2⟩
      (HalfWidth.exists (abs_nonneg _) (abs_le.mpr ⟨by omega, by omega⟩))
    have natural := (half.bounds radius).2.2.1
    refine ⟨cx - a, cx + a, ⟨?_, ?_⟩, ⟨?_, ?_⟩, ?_⟩
    · refine (marks_outline radius _ _).mpr ?_
      rwa [show |cx - a - cx| = a by rw [Int.abs_eq_natAbs]; omega]
    · intro u marked
      have := (abs_le.mp (widest _ ((marks_outline radius _ _).mp marked))).1
      omega
    · refine (marks_outline radius _ _).mpr ?_
      rwa [show |cx + a - cx| = a by rw [Int.abs_eq_natAbs]; omega]
    · intro u marked
      have := (abs_le.mp (widest _ ((marks_outline radius _ _).mp marked))).2
      omega
    · intro u
      rw [marks_disc radius]
      constructor
      · rintro ⟨b, half, inside⟩
        have := abs_le.mp (inside.trans (widest b half))
        omega
      · rintro ⟨low, high⟩
        exact ⟨a, half, abs_le.mpr ⟨by omega, by omega⟩⟩
  · intro u v marked
    obtain ⟨a, half, -⟩ := (marks_disc radius u v).mp marked
    have := abs_le.mp (half.bounds radius).2.1
    omega

end Pugputer.Vidcard
