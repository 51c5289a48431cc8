import Mathlib.Data.List.Range
import Mathlib.Data.Rat.Floor
import Mathlib.Algebra.Order.Round
import Pugputer.Vidcard.Shapes

namespace Pugputer.Vidcard

/-! The points of a line, each from its number alone. -/

/-- How far along an axis of length `d` the `k`th of `n` steps is, to the nearest. -/
def along (d n k : Nat) : Nat := (2 * k * d + n) / (2 * n)

variable {d n k : Nat}

theorem along_zero (d n : Nat) : along d n 0 = 0 := by
  rw [along, Nat.mul_zero, Nat.zero_mul, Nat.zero_add]
  rcases Nat.eq_zero_or_pos n with rfl | positive
  · rfl
  · exact Nat.div_eq_of_lt (by omega)

theorem along_end (short : d ≤ n) : along d n n = d := by
  rcases Nat.eq_zero_or_pos n with rfl | positive
  · obtain rfl := Nat.le_zero.mp short
    rfl
  · rw [along, Nat.add_comm, Nat.add_mul_div_left _ _ (by omega), Nat.div_eq_of_lt (by omega),
      Nat.zero_add]

theorem along_self (positive : 0 < n) : along n n k = k := by
  have product : 2 * k * n = 2 * n * k := by ring
  rw [along, product, Nat.add_comm, Nat.add_mul_div_left _ _ (by omega),
    Nat.div_eq_of_lt (by omega), Nat.zero_add]

theorem le_along_iff (positive : 0 < n) {j : Nat} :
    j ≤ along d n k ↔ 2 * n * j ≤ 2 * k * d + n := by
  rw [along, Nat.le_div_iff_mul_le (by omega), Nat.mul_comm]

theorem along_succ (short : d ≤ n) (positive : 0 < n) :
    along d n (k + 1) =
      if 2 * n * (along d n k + 1) ≤ 2 * (k + 1) * d + n then along d n k + 1
      else along d n k := by
  have here : 2 * n * along d n k ≤ 2 * k * d + n := (le_along_iff positive).mp (Nat.le_refl _)
  have next : ¬2 * n * (along d n k + 1) ≤ 2 * k * d + n :=
    fun more => absurd ((le_along_iff positive).mpr more) (by omega)
  generalize along d n k = j at here next ⊢
  have grown : 2 * (k + 1) * d = 2 * k * d + 2 * d := by ring
  have step : 2 * n * (j + 1) = 2 * n * j + 2 * n := by ring
  have two : 2 * n * (j + 2) = 2 * n * j + 4 * n := by ring
  have below : j ≤ along d n (k + 1) := (le_along_iff positive).mpr (by omega)
  have above : ¬j + 2 ≤ along d n (k + 1) :=
    fun more => absurd ((le_along_iff positive).mp more) (by omega)
  split
  · rename_i reached
    have := (le_along_iff (j := j + 1) positive).mpr reached
    omega
  · rename_i short
    have : ¬j + 1 ≤ along d n (k + 1) := fun more => short ((le_along_iff positive).mp more)
    omega

/-- The nearest in Mathlib's sense, a half rounded up. -/
theorem along_eq_round (d n k : Nat) : (along d n k : Int) = round ((k * d : Rat) / n) := by
  rcases Nat.eq_zero_or_pos n with rfl | positive
  · rw [along, Nat.cast_zero, div_zero, round_zero, Nat.mul_zero, Nat.div_zero, Nat.cast_zero]
  · have half : (k * d : Rat) / n + 1 / 2 = ((2 * k * d + n : Nat) : Int) / ((2 * n : Nat) : Rat) := by
      push_cast
      field_simp
    rw [round_eq, half, Rat.floor_intCast_div_natCast]
    rfl

theorem not_le_along (positive : 0 < n) : 2 * k * d + n < 2 * n * (along d n k + 1) :=
  Nat.lt_of_not_le fun more => absurd ((le_along_iff positive).mpr more) (by omega)

section

variable {dx dy : Nat}

/-- The error term at the `k`th point. -/
def errorAt (dx dy n k : Nat) : Int := (along dy n k + 1) * dx - (along dx n k + 1) * dy

theorem errorAt_x (positive : 0 < n) (height : dy ≤ n) (longer : n = dx ∨ n = dy) :
    -(dy : Int) ≤ 2 * errorAt dx dy n k ↔
      2 * n * (along dx n k + 1) ≤ 2 * (k + 1) * dx + n := by
  rw [errorAt]
  zify
  rcases longer with rfl | rfl
  · -- the longer way: there is always a step
    have beyond := not_le_along (d := dy) (k := k) positive
    rw [along_self positive]
    zify at beyond height
    constructor
    · intro _
      linarith
    · intro _
      linarith
  · rw [along_self positive]
    constructor
    · intro step
      linarith
    · intro step
      linarith

theorem errorAt_y (positive : 0 < n) (width : dx ≤ n) (longer : n = dx ∨ n = dy) :
    2 * errorAt dx dy n k ≤ dx ↔ 2 * n * (along dy n k + 1) ≤ 2 * (k + 1) * dy + n := by
  rw [errorAt]
  zify
  rcases longer with rfl | rfl
  · rw [along_self positive]
    constructor
    · intro step
      linarith
    · intro step
      linarith
  · have beyond := not_le_along (d := dx) (k := k) positive
    rw [along_self positive]
    zify at beyond width
    constructor
    · intro _
      linarith
    · intro _
      linarith

/-- The loop from the `k`th point on: it goes through the rest of them and stops at the end. -/
theorem linePlotsFrom_along (x0 y0 x1 y1 sx sy : Int) (col : Byte)
    (width : dx ≤ n) (height : dy ≤ n) (longer : n = dx ∨ n = dy) (sxSign : sx ≠ 0)
    (sySign : sy ≠ 0) (xEnd : x1 = x0 + sx * dx) (yEnd : y1 = y0 + sy * dy) (count : Nat)
    (inside : k ≤ n) (enough : n - k < count) :
    linePlotsFrom x1 y1 dx (-(dy : Int)) sx sy col count (x0 + sx * along dx n k)
        (y0 + sy * along dy n k) (errorAt dx dy n k) =
      (List.range' k (n - k + 1)).map fun k =>
        ⟨x0 + sx * along dx n k, y0 + sy * along dy n k, col⟩ := by
  induction count generalizing k with
  | zero => omega
  | succ count ih =>
      rw [linePlotsFrom, List.range'_succ, List.map_cons]
      congr 1
      by_cases last : k = n
      · rw [last, along_end width, along_end height, if_pos ⟨xEnd.symm, yEnd.symm⟩, Nat.sub_self]
        rfl
      · have positive : 0 < n := by omega
        have going : ¬(x0 + sx * along dx n k = x1 ∧ y0 + sy * along dy n k = y1) := by
          rintro ⟨atX, atY⟩
          rw [xEnd] at atX
          rw [yEnd] at atY
          have sameX := Int.eq_of_mul_eq_mul_left sxSign (Int.add_left_cancel atX)
          have sameY := Int.eq_of_mul_eq_mul_left sySign (Int.add_left_cancel atY)
          rcases longer with rfl | rfl
          · rw [along_self positive] at sameX
            omega
          · rw [along_self positive] at sameY
            omega
        have rest : n - k = n - (k + 1) + 1 := by omega
        have nextX : (if -(dy : Int) ≤ 2 * errorAt dx dy n k then x0 + sx * along dx n k + sx
            else x0 + sx * along dx n k) = x0 + sx * along dx n (k + 1) := by
          rw [along_succ width positive, if_congr (errorAt_x positive height longer) rfl rfl]
          split
          · push_cast
            ring
          · rfl
        have nextY : (if 2 * errorAt dx dy n k ≤ dx then y0 + sy * along dy n k + sy
            else y0 + sy * along dy n k) = y0 + sy * along dy n (k + 1) := by
          rw [along_succ height positive, if_congr (errorAt_y positive width longer) rfl rfl]
          split
          · push_cast
            ring
          · rfl
        have nextError : errorAt dx dy n k + (if -(dy : Int) ≤ 2 * errorAt dx dy n k then -(dy : Int)
            else 0) + (if 2 * errorAt dx dy n k ≤ dx then (dx : Int) else 0) =
            errorAt dx dy n (k + 1) := by
          rw [if_congr (errorAt_x positive height longer) rfl rfl,
            if_congr (errorAt_y positive width longer) rfl rfl, errorAt, errorAt,
            along_succ width positive, along_succ height positive]
          split <;> split <;> push_cast <;> ring
        rw [if_neg going, nextX, nextY, nextError, rest]
        exact ih (by omega) (by omega)

end

/-- The `k`th point of a line. -/
def linePoint (x0 y0 x1 y1 : Int) (col : Byte) (k : Nat) : Plot :=
  let dx := (x1 - x0).natAbs
  let dy := (y1 - y0).natAbs
  ⟨x0 + (x1 - x0).sign * along dx (max dx dy) k, y0 + (y1 - y0).sign * along dy (max dx dy) k, col⟩

theorem along_nothing (n k : Nat) : along 0 n k = 0 := by
  rw [along, Nat.mul_zero, Nat.zero_add]
  rcases Nat.eq_zero_or_pos n with rfl | positive
  · rfl
  · exact Nat.div_eq_of_lt (by omega)

/-- The loop's direction is the sign, except where there is no way to go. -/
theorem direction_along (a b : Int) (n k : Nat) :
    (if a < b then 1 else -1) * (along (b - a).natAbs n k : Int) =
      (b - a).sign * along (b - a).natAbs n k := by
  rcases Int.lt_trichotomy a b with up | rfl | down
  · rw [if_pos up, Int.sign_eq_one_of_pos (by omega)]
  · rw [Int.sub_self, Int.natAbs_zero, along_nothing, Nat.cast_zero, Int.mul_zero, Int.mul_zero]
  · rw [if_neg (by omega), Int.sign_eq_neg_one_of_neg (by omega)]

theorem linePlots_eq (x0 y0 x1 y1 : Int) (col : Byte) :
    linePlots x0 y0 x1 y1 col =
      (List.range (max (x1 - x0).natAbs (y1 - y0).natAbs + 1)).map
        (linePoint x0 y0 x1 y1 col) := by
  have points := linePlotsFrom_along x0 y0 x1 y1 (if x0 < x1 then 1 else -1)
    (if y0 < y1 then 1 else -1) col (k := 0)
    (Nat.le_max_left (x1 - x0).natAbs (y1 - y0).natAbs) (Nat.le_max_right _ _) (by omega)
    (by split <;> omega) (by split <;> omega) (by split <;> omega) (by split <;> omega)
    ((x1 - x0).natAbs + (y1 - y0).natAbs + 1) (by omega) (by omega)
  rw [linePlots]
  refine Eq.trans ?_ (points.trans ?_)
  · simp only [errorAt, along_zero, Nat.cast_zero, Int.mul_zero, Int.add_zero, Int.zero_add,
      Int.one_mul]
  · rw [List.range_eq_range', Nat.sub_zero]
    apply List.map_congr_left
    intro k _
    rw [direction_along, direction_along]
    rfl

/-- A step of a line: one along its longer axis, none or one along the other, towards the end. -/
structure LineStep (x0 y0 x1 y1 : Int) (p q : Plot) : Prop where
  x : q.x = p.x ∨ q.x = p.x + (x1 - x0).sign
  y : q.y = p.y ∨ q.y = p.y + (y1 - y0).sign
  across : (y1 - y0).natAbs ≤ (x1 - x0).natAbs → (q.x - p.x).natAbs = 1
  down : (x1 - x0).natAbs ≤ (y1 - y0).natAbs → (q.y - p.y).natAbs = 1

/-- Within half a pixel of the ideal line, along the shorter axis. -/
structure NearLine (x0 y0 x1 y1 : Int) (p : Plot) : Prop where
  across : (y1 - y0).natAbs ≤ (x1 - x0).natAbs →
    |(p.y : Rat) - (y0 + (p.x - x0) * ((y1 - y0) / (x1 - x0)))| ≤ 1 / 2
  down : (x1 - x0).natAbs ≤ (y1 - y0).natAbs →
    |(p.x : Rat) - (x0 + (p.y - y0) * ((x1 - x0) / (y1 - y0)))| ≤ 1 / 2

theorem along_step (short : d ≤ n) (inside : k < n) :
    along d n (k + 1) = along d n k ∨ along d n (k + 1) = along d n k + 1 := by
  rw [along_succ short (by omega)]
  split
  · exact .inr rfl
  · exact .inl rfl

theorem linePoint_step (x0 y0 x1 y1 : Int) (col : Byte) {k : Nat}
    (inside : k < max (x1 - x0).natAbs (y1 - y0).natAbs) :
    LineStep x0 y0 x1 y1 (linePoint x0 y0 x1 y1 col k) (linePoint x0 y0 x1 y1 col (k + 1)) where
  x := by
    simp only [linePoint]
    rcases along_step (d := (x1 - x0).natAbs) (by omega) inside with same | more
    · exact .inl (by rw [same])
    · refine .inr ?_
      rw [more]
      push_cast
      ring
  y := by
    simp only [linePoint]
    rcases along_step (d := (y1 - y0).natAbs) (by omega) inside with same | more
    · exact .inl (by rw [same])
    · refine .inr ?_
      rw [more]
      push_cast
      ring
  across := by
    intro longer
    have positive : 0 < (x1 - x0).natAbs := by omega
    simp only [linePoint, Nat.max_eq_left longer, along_self positive]
    have one : x0 + (x1 - x0).sign * ((k + 1 : Nat) : Int) - (x0 + (x1 - x0).sign * k) =
        (x1 - x0).sign := by
      push_cast
      ring
    rw [one, Int.natAbs_sign, if_neg (by omega)]
  down := by
    intro longer
    have positive : 0 < (y1 - y0).natAbs := by omega
    simp only [linePoint, Nat.max_eq_right longer, along_self positive]
    have one : y0 + (y1 - y0).sign * ((k + 1 : Nat) : Int) - (y0 + (y1 - y0).sign * k) =
        (y1 - y0).sign := by
      push_cast
      ring
    rw [one, Int.natAbs_sign, if_neg (by omega)]

/-- The shorter coordinate at the `k`th step along the longer one. -/
theorem along_near (a b : Int) {k : Nat} (longer : b.natAbs ≤ a.natAbs) :
    |((b.sign * along b.natAbs a.natAbs k : Int) : Rat) -
      (a.sign * along a.natAbs a.natAbs k : Int) * (b / a)| ≤ 1 / 2 := by
  rcases eq_or_ne a 0 with rfl | nonzero
  · obtain rfl := Int.natAbs_eq_zero.mp (Nat.le_zero.mp longer)
    norm_num
  · have positive : 0 < a.natAbs := Int.natAbs_pos.mpr nonzero
    have aEq : (a : Rat) = a.sign * a.natAbs := by
      rw [← Int.cast_natCast, ← Int.cast_mul, Int.sign_mul_natAbs]
    have bEq : (b : Rat) = b.sign * b.natAbs := by
      rw [← Int.cast_natCast, ← Int.cast_mul, Int.sign_mul_natAbs]
    have signA : (a.sign : Rat) ≠ 0 := by
      exact_mod_cast mt Int.sign_eq_zero_iff_zero.mp nonzero
    have lengthA : (a.natAbs : Rat) ≠ 0 := by
      exact_mod_cast positive.ne'
    have ideal : (a.sign * k : Rat) * (b / a) = b.sign * (k * b.natAbs / a.natAbs) := by
      rw [aEq, bEq]
      field_simp
    have signB : |(b.sign : Rat)| ≤ 1 := by
      rcases Int.lt_trichotomy b 0 with below | rfl | above
      · rw [Int.sign_eq_neg_one_of_neg below]
        norm_num
      · norm_num
      · rw [Int.sign_eq_one_of_pos above]
        norm_num
    have nearest := abs_sub_round ((k * b.natAbs : Rat) / a.natAbs)
    rw [← along_eq_round, Int.cast_natCast, abs_sub_comm] at nearest
    rw [along_self positive]
    push_cast
    rw [ideal, ← mul_sub, abs_mul]
    calc
      |(b.sign : Rat)| * |(along b.natAbs a.natAbs k : Rat) - k * b.natAbs / a.natAbs|
        ≤ 1 * |(along b.natAbs a.natAbs k : Rat) - k * b.natAbs / a.natAbs| :=
          mul_le_mul_of_nonneg_right signB (abs_nonneg _)
      _ ≤ 1 / 2 := by rwa [one_mul]

theorem linePoint_near (x0 y0 x1 y1 : Int) (col : Byte) (k : Nat) :
    NearLine x0 y0 x1 y1 (linePoint x0 y0 x1 y1 col k) where
  across := by
    intro longer
    have near := along_near (k := k) (x1 - x0) (y1 - y0) longer
    simp only [linePoint, Nat.max_eq_left longer]
    push_cast at near ⊢
    rwa [add_sub_cancel_left, ← sub_sub, add_sub_cancel_left]
  down := by
    intro longer
    have near := along_near (k := k) (y1 - y0) (x1 - x0) longer
    simp only [linePoint, Nat.max_eq_right longer]
    push_cast at near ⊢
    rwa [add_sub_cancel_left, ← sub_sub, add_sub_cancel_left]

/-- LINE comes to its end, by way of one point for each step along the longer axis and the
one it starts from. -/
theorem line_proper (c : Card) (x0 y0 x1 y1 : Int) :
    c.line x0 y0 x1 y1 = some (c.drawAll (linePlots x0 y0 x1 y1 c.color)) ∧
      (linePlots x0 y0 x1 y1 c.color).length = max (x1 - x0).natAbs (y1 - y0).natAbs + 1 ∧
      (linePlots x0 y0 x1 y1 c.color).head? = some ⟨x0, y0, c.color⟩ ∧
      (linePlots x0 y0 x1 y1 c.color).getLast? = some ⟨x1, y1, c.color⟩ ∧
      (linePlots x0 y0 x1 y1 c.color).IsChain (LineStep x0 y0 x1 y1) ∧
      ∀ p ∈ linePlots x0 y0 x1 y1 c.color, NearLine x0 y0 x1 y1 p := by
  have first : linePoint x0 y0 x1 y1 c.color 0 = ⟨x0, y0, c.color⟩ := by
    simp only [linePoint, along_zero, Nat.cast_zero, Int.mul_zero, Int.add_zero]
  have last : linePoint x0 y0 x1 y1 c.color (max (x1 - x0).natAbs (y1 - y0).natAbs) =
      ⟨x1, y1, c.color⟩ := by
    rw [linePoint]
    rw [along_end (Nat.le_max_left ..), along_end (Nat.le_max_right ..), Int.sign_mul_natAbs,
      Int.sign_mul_natAbs, add_sub_cancel, add_sub_cancel]
  refine ⟨c.line_drawAll x0 y0 x1 y1, ?_⟩
  rw [linePlots_eq]
  refine ⟨?_, ?_, ?_, ?_, ?_⟩
  · rw [List.length_map, List.length_range]
  · rw [List.range_succ_eq_map, List.map_cons, List.head?_cons, first]
  · rw [List.range_succ, List.map_append, List.map_singleton, List.getLast?_concat, last]
  · rw [List.isChain_map, List.isChain_range_succ]
    exact fun k inside => linePoint_step x0 y0 x1 y1 c.color inside
  · intro p member
    obtain ⟨k, -, rfl⟩ := List.mem_map.mp member
    exact linePoint_near x0 y0 x1 y1 c.color k

end Pugputer.Vidcard
