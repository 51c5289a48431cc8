import Mathlib.Tactic.Linarith
import Pugputer.Vidcard.Draw

namespace Pugputer.Vidcard

/-- A triangle's rows, from the highest corner to the lowest. -/
def trianglePlots (x0 y0 x1 y1 x2 y2 : Int) (col : Byte) : List Plot :=
  let corners := sortCorners x0 y0 x1 y1 x2 y2
  sweep (fun y => span (triangleEnds corners y).1 (triangleEnds corners y).2 y col) corners.1.2
    (corners.2.2.2 - corners.1.2 + 1).toNat

namespace Card

variable {c : Card}

@[simp] theorem drawAll_color (c : Card) (plots : List Plot) :
    (c.drawAll plots).color = c.color := (drawAll_redraws c plots).color

@[simp] theorem pset_color (c : Card) (x y : Int) (col : Byte) :
    (c.pset x y col).color = c.color := (pset_redraws c x y col).color

theorem triangle_drawAll (c : Card) (x0 y0 x1 y1 x2 y2 : Int) :
    c.triangle x0 y0 x1 y1 x2 y2 = c.drawAll (trianglePlots x0 y0 x1 y1 x2 y2 c.color) := by
  rw [triangle, trianglePlots]
  generalize sortCorners x0 y0 x1 y1 x2 y2 = corners
  have first : (if corners.1.2 < 0 then 0 else corners.1.2) = max corners.1.2 0 := by
    split <;> omega
  have last : (if corners.2.2.2 < (c.tH.toNat : Int) then corners.2.2.2
      else (c.tH.toNat : Int) - 1) = min corners.2.2.2 ((c.tH.toNat : Int) - 1) := by
    split <;> omega
  rw [first, last]
  exact rows_trim (triangleEnds corners) corners.1.2 corners.2.2.2

theorem circleStep_drawAll (c : Card) (cx cy x y : Int) (fill : Bool) :
    c.circleStep cx cy x y fill = c.drawAll (circleStepPlots cx cy x y fill c.color) := by
  cases fill with
  | true =>
      simp only [circleStep, circleStepPlots, if_true, hline_drawAll, drawAll_color,
        drawAll_append]
  | false =>
      simp only [circleStep, circleStepPlots, Bool.false_eq_true, if_false, pset_color,
        drawAll_cons, drawAll_nil]

theorem circleStep_color (c : Card) (cx cy x y : Int) (fill : Bool) :
    (c.circleStep cx cy x y fill).color = c.color := by
  rw [circleStep_drawAll, drawAll_color]

theorem circleLoop_drawAll (c : Card) (cx cy : Int) (fill : Bool) (x y err : Int) :
    c.circleLoop cx cy fill x y err =
      c.drawAll (circlePlotsFrom cx cy fill c.color x y err) := by
  fun_induction circleLoop c cx cy fill x y err with
  | case1 c x y err going next inside ih =>
      have color : next.color = c.color := circleStep_color c cx cy x y fill
      have error : err + (2 * (y + 1) + 1) = err + 2 * y + 3 := by ring
      rw [circlePlotsFrom, if_pos going, if_pos inside, drawAll_append, ← circleStep_drawAll, ih,
        error, color]
  | case2 c x y err going next outside ih =>
      have color : next.color = c.color := circleStep_color c cx cy x y fill
      have error : err + (2 * (y + 1 - (x - 1)) + 1) = err + 2 * (y - x) + 5 := by ring
      rw [circlePlotsFrom, if_pos going, if_neg outside, drawAll_append, ← circleStep_drawAll, ih,
        error, color]
  | case3 c x y err done => rw [circlePlotsFrom, if_neg done, drawAll_nil]

theorem circle_drawAll (c : Card) (cx cy r : Int) (fill : Bool) :
    c.circle cx cy r fill = c.drawAll (circlePlots cx cy r fill c.color) := by
  rw [circle, circlePlots]
  split
  · rfl
  · exact circleLoop_drawAll c cx cy fill r 0 (1 - r)

/-- The line's loop with `a` steps to go along x and `b` along y; the error says how far the
points drawn are from the line, and no step is made beyond either end. -/
theorem lineLoop_drawAll {x1 y1 sx sy : Int} {dx dy : Nat} (fuel : Nat) (c : Card) (a b : Nat)
    (x0 y0 err : Int) (xEnd : x1 = x0 + sx * a) (yEnd : y1 = y0 + sy * b) (xLength : a ≤ dx) (yLength : b ≤ dy)
    (error : err = dx - dy + a * dy - b * dx) (enough : a + b < fuel) :
    c.lineLoop x1 y1 dx (-(dy : Int)) sx sy fuel x0 y0 err =
      some (c.drawAll (linePlotsFrom x1 y1 dx (-(dy : Int)) sx sy c.color fuel x0 y0 err)) := by
  induction fuel generalizing c a b x0 y0 err with
  | zero => omega
  | succ fuel ih =>
      rw [lineLoop, linePlotsFrom]
      dsimp only
      by_cases done : x0 = x1 ∧ y0 = y1
      · rw [if_pos done, if_pos done]
        rfl
      have going : ¬(a = 0 ∧ b = 0) := by
        rintro ⟨rfl, rfl⟩
        exact done ⟨by rw [xEnd]; ring, by rw [yEnd]; ring⟩
      -- a step along x has one to go, and so has one along y
      have stepX : -(dy : Int) ≤ 2 * err → a ≠ 0 := by
        rintro enoughError rfl
        have some : (1 : Int) * dx ≤ b * dx := Int.mul_le_mul_of_nonneg_right (by omega) (by omega)
        have none : ((0 : Nat) : Int) * dy = 0 := Int.zero_mul _
        omega
      have stepY : 2 * err ≤ dx → b ≠ 0 := by
        rintro smallError rfl
        have some : (1 : Int) * dy ≤ a * dy := Int.mul_le_mul_of_nonneg_right (by omega) (by omega)
        have none : ((0 : Nat) : Int) * dx = 0 := Int.zero_mul _
        omega
      rw [if_neg done, if_neg done, drawAll_cons]
      have color := pset_color c x0 y0 c.color
      by_cases alongX : -(dy : Int) ≤ 2 * err
      · obtain ⟨a, rfl⟩ := Nat.exists_eq_succ_of_ne_zero (stepX alongX)
        have xRest : x1 = x0 + sx + sx * a := by
          rw [xEnd]
          push_cast
          ring
        by_cases alongY : 2 * err ≤ dx
        · obtain ⟨b, rfl⟩ := Nat.exists_eq_succ_of_ne_zero (stepY alongY)
          have yRest : y1 = y0 + sy + sy * b := by
            rw [yEnd]
            push_cast
            ring
          have errorRest : err + -(dy : Int) + dx = dx - dy + a * dy - b * dx := by
            rw [error]
            push_cast
            ring
          simp only [if_pos alongX, if_pos alongY]
          rw [ih (c.pset x0 y0 c.color) a b (x0 + sx) (y0 + sy) _ xRest yRest (by omega) (by omega)
            errorRest (by omega), color]
        · have errorRest : err + -(dy : Int) = dx - dy + a * dy - b * dx := by
            rw [error]
            push_cast
            ring
          simp only [if_pos alongX, if_neg alongY, Int.add_zero]
          rw [ih (c.pset x0 y0 c.color) a b (x0 + sx) y0 _ xRest yEnd (by omega) yLength errorRest
            (by omega), color]
      · have alongY : 2 * err ≤ dx := by omega
        obtain ⟨b, rfl⟩ := Nat.exists_eq_succ_of_ne_zero (stepY alongY)
        have yRest : y1 = y0 + sy + sy * b := by
          rw [yEnd]
          push_cast
          ring
        have errorRest : err + (dx : Int) = dx - dy + a * dy - b * dx := by
          rw [error]
          push_cast
          ring
        simp only [if_neg alongX, if_pos alongY, Int.add_zero]
        rw [ih (c.pset x0 y0 c.color) a b x0 (y0 + sy) _ xEnd yRest xLength (by omega) errorRest
          (by omega), color]

theorem line_drawAll (c : Card) (x0 y0 x1 y1 : Int) :
    c.line x0 y0 x1 y1 = some (c.drawAll (linePlots x0 y0 x1 y1 c.color)) := by
  have dx : (if x0 < x1 then x1 - x0 else x0 - x1) = ((x1 - x0).natAbs : Int) := by
    split <;> omega
  have dy : (if y0 < y1 then y0 - y1 else y1 - y0) = -((y1 - y0).natAbs : Int) := by
    split <;> omega
  have fuel : (((x1 - x0).natAbs : Int) - -((y1 - y0).natAbs : Int)).toNat + 1 =
      (x1 - x0).natAbs + (y1 - y0).natAbs + 1 := by
    omega
  have error : ((x1 - x0).natAbs : Int) + -((y1 - y0).natAbs : Int) =
      (x1 - x0).natAbs - (y1 - y0).natAbs := by
    omega
  rw [line, linePlots, dx, dy, fuel, error]
  refine lineLoop_drawAll _ c (x1 - x0).natAbs (y1 - y0).natAbs x0 y0 _ ?_ ?_ (Nat.le_refl _)
    (Nat.le_refl _) ?_ (Nat.lt_succ_self _)
  · split <;> omega
  · split <;> omega
  · ring

end Card

end Pugputer.Vidcard
