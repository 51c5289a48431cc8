import Mathlib.Data.Int.ConditionallyCompleteOrder
import Mathlib.Data.List.Permutation
import Mathlib.Order.Interval.Set.OrdConnected
import Pugputer.Vidcard.Marks

namespace Pugputer.Vidcard

/-! The edges of a triangle. -/

/-- A division that truncates, made to round down. -/
theorem tdiv_floor {num d : Int} (positive : 0 < d) :
    (if 0 ≤ num then num else num - d + 1).tdiv d = num / d := by
  split
  · rename_i natural
    exact Int.tdiv_eq_ediv_of_nonneg natural
  · rename_i negative
    have whole := Int.mul_ediv_add_emod num d
    have low := Int.emod_nonneg num positive.ne'
    have high := Int.emod_lt_of_pos num positive
    have shifted : num - d + 1 = -((d - 1 - num % d) + d * -(num / d)) := by
      rw [Int.mul_neg]
      omega
    rw [shifted, Int.neg_tdiv, Int.tdiv_eq_ediv_of_nonneg (by rw [Int.mul_neg]; omega),
      Int.add_mul_ediv_left _ _ positive.ne', Int.ediv_eq_zero_of_lt (by omega) (by omega),
      Int.zero_add, Int.neg_neg]

/-- An edge's column on a row is its nearest to the ideal one, a half rounded up. -/
theorem edgeX_eq {xa ya xb yb : Int} (down : ya < yb) (y : Int) :
    edgeX xa ya xb yb y = xa + ((yb - ya) + 2 * ((y - ya) * (xb - xa))) / (2 * (yb - ya)) := by
  have num : (y - ya) * (xb - xa) * 2 + (yb - ya) = (yb - ya) + 2 * ((y - ya) * (xb - xa)) := by
    ring
  rw [edgeX, if_neg (by omega), num]
  dsimp only
  rw [tdiv_floor (by omega)]

theorem edgeX_top {xa ya xb yb : Int} (down : ya ≤ yb) : edgeX xa ya xb yb ya = xa := by
  rcases Int.lt_or_eq_of_le down with below | level
  · rw [edgeX_eq below, Int.sub_self, Int.zero_mul, Int.mul_zero, Int.add_zero,
      Int.ediv_eq_zero_of_lt (by omega) (by omega), Int.add_zero]
  · rw [edgeX, if_pos level.symm]

theorem edgeX_bottom {xa ya xb yb : Int} (down : ya < yb) : edgeX xa ya xb yb yb = xb := by
  have product : 2 * ((yb - ya) * (xb - xa)) = 2 * (yb - ya) * (xb - xa) := by ring
  rw [edgeX_eq down, product, Int.add_mul_ediv_left _ _ (by omega),
    Int.ediv_eq_zero_of_lt (by omega) (by omega)]
  omega

/-! The corners in order. -/

abbrev Point := Int × Int

abbrev Corners := Point × Point × Point

def orders (a b c : Point) : List Corners :=
  [(a, b, c), (b, a, c), (b, c, a), (a, c, b), (c, a, b), (c, b, a)]

theorem perm_three {a b c p q r : Point} :
    [p, q, r].Perm [a, b, c] ↔ (p, q, r) ∈ orders a b c := by
  rw [← List.mem_permutations']
  simp [List.permutations', orders]

theorem sweep_congr {f g : Int → List Plot} {i : Int} {n : Nat}
    (same : ∀ j, i ≤ j → j < i + n → f j = g j) : sweep f i n = sweep g i n := by
  induction n generalizing i with
  | zero => rfl
  | succ n ih =>
      rw [sweep, sweep, same i (Int.le_refl i) (by omega),
        ih fun j low high => same j (by omega) (by omega)]

theorem span_comm (x0 x1 y : Int) (col : Byte) : span x0 x1 y col = span x1 x0 y col := by
  rw [span, span, min_comm, max_comm]

structure Sorted (s : Corners) : Prop where
  upper : s.1.2 ≤ s.2.1.2
  lower : s.2.1.2 ≤ s.2.2.2

theorem sortCorners_orders (x0 y0 x1 y1 x2 y2 : Int) :
    sortCorners x0 y0 x1 y1 x2 y2 ∈ orders (x0, y0) (x1, y1) (x2, y2) ∧
      Sorted (sortCorners x0 y0 x1 y1 x2 y2) := by
  by_cases first : y1 < y0 <;> by_cases second : y2 < y1 <;> by_cases third : y2 < y0 <;>
    by_cases fourth : y0 < y1 <;>
    simp only [sortCorners, first, second, third, fourth, if_true, if_false] <;>
    refine ⟨by simp [orders], ?_, ?_⟩ <;> dsimp only <;> omega

/-! The rows of a triangle whose corners are in order. -/

def rowSpan (s : Corners) (col : Byte) (y : Int) : List Plot :=
  span (triangleEnds s y).1 (triangleEnds s y).2 y col

def sortedPlots (s : Corners) (col : Byte) : List Plot :=
  sweep (rowSpan s col) s.1.2 (s.2.2.2 - s.1.2 + 1).toNat

theorem trianglePlots_sorted (x0 y0 x1 y1 x2 y2 : Int) (col : Byte) :
    trianglePlots x0 y0 x1 y1 x2 y2 col = sortedPlots (sortCorners x0 y0 x1 y1 x2 y2) col := rfl

/-- Two upper corners on one row can change places. -/
theorem sortedPlots_swap_upper {a b c : Point} (level : a.2 = b.2) (col : Byte) :
    sortedPlots (a, b, c) col = sortedPlots (b, a, c) col := by
  unfold sortedPlots
  dsimp only
  rw [level]
  apply sweep_congr
  intro y low _
  simp only [rowSpan, triangleEnds]
  rw [if_neg (by omega), if_neg (by omega), span_comm]

/-- So can the two lower ones, of a triangle that is not all on one row. -/
theorem sortedPlots_swap_lower {a b c : Point} (sorted : a.2 < b.2) (level : b.2 = c.2)
    (col : Byte) : sortedPlots (a, b, c) col = sortedPlots (a, c, b) col := by
  unfold sortedPlots
  dsimp only
  rw [level]
  apply sweep_congr
  intro y low high
  simp only [rowSpan, triangleEnds]
  rcases Int.lt_or_eq_of_le (show y ≤ c.2 by omega) with above | rfl
  · rw [if_pos (by omega), if_pos (by omega), span_comm]
  · rw [if_neg (by omega), if_neg (by omega), level, edgeX_bottom (by omega), edgeX_top (by omega),
      ← level, edgeX_bottom sorted, edgeX_top (by omega), span_comm]

theorem sortedPlots_order {s t : Corners} (reordered : t ∈ orders s.1 s.2.1 s.2.2)
    (sortedS : Sorted s) (sortedT : Sorted t) (tall : s.1.2 < s.2.2.2) (col : Byte) :
    sortedPlots t col = sortedPlots s col := by
  obtain ⟨a, b, c⟩ := s
  obtain ⟨upper, lower⟩ := sortedS
  obtain ⟨upperT, lowerT⟩ := sortedT
  simp only [orders, List.mem_cons, List.not_mem_nil, or_false] at reordered
  dsimp only at upper lower tall
  rcases reordered with rfl | rfl | rfl | rfl | rfl | rfl <;> dsimp only at upperT lowerT
  · rfl
  · exact sortedPlots_swap_upper (by omega) col
  · omega
  · exact sortedPlots_swap_lower (by omega) (by omega) col
  · omega
  · omega

/-! Triangles from their corners in any order. -/

def trianglePoints (p q r : Point) (col : Byte) : List Plot :=
  trianglePlots p.1 p.2 q.1 q.2 r.1 r.2 col

/-- Not all on one row. -/
def Tall (p q r : Point) : Prop := ¬(p.2 = q.2 ∧ q.2 = r.2)

variable {p q r : Point} {col : Byte}

theorem trianglePoints_eq {t : Corners} (tall : Tall p q r) (reordered : t ∈ orders p q r)
    (sorted : Sorted t) : trianglePoints p q r col = sortedPlots t col := by
  obtain ⟨inOrder, sortedS⟩ := sortCorners_orders p.1 p.2 q.1 q.2 r.1 r.2
  rw [trianglePoints, trianglePlots_sorted]
  generalize sortCorners p.1 p.2 q.1 q.2 r.1 r.2 = s at inOrder sortedS
  have ends : s.1.2 < s.2.2.2 := by
    obtain ⟨upper, lower⟩ := sortedS
    unfold Tall at tall
    simp only [orders, List.mem_cons, List.not_mem_nil, or_false] at inOrder
    rcases inOrder with rfl | rfl | rfl | rfl | rfl | rfl <;> dsimp only at upper lower ⊢ <;> omega
  refine (sortedPlots_order ?_ sortedS sorted ends col).symm
  have first : [t.1, t.2.1, t.2.2].Perm [p, q, r] := perm_three.mpr reordered
  have second : [s.1, s.2.1, s.2.2].Perm [p, q, r] := perm_three.mpr inOrder
  exact perm_three.mp (first.trans second.symm)

theorem trianglePoints_perm {p' q' r' : Point} (tall : Tall p q r)
    (reordered : [p', q', r'].Perm [p, q, r]) :
    trianglePoints p' q' r' col = trianglePoints p q r col := by
  obtain ⟨inOrder, sorted⟩ := sortCorners_orders p'.1 p'.2 q'.1 q'.2 r'.1 r'.2
  have same : sortCorners p'.1 p'.2 q'.1 q'.2 r'.1 r'.2 ∈ orders p q r :=
    perm_three.mp ((perm_three.mpr inOrder).trans reordered)
  exact (trianglePoints_eq tall same sorted).symm

theorem marks_sortedPlots {s : Corners} (u v : Int) :
    Marks (sortedPlots s col) u v ↔ s.1.2 ≤ v ∧ v ≤ s.2.2.2 ∧
      min (triangleEnds s v).1 (triangleEnds s v).2 ≤ u ∧
      u ≤ max (triangleEnds s v).1 (triangleEnds s v).2 := by
  simp only [sortedPlots, rowSpan, marks_sweep, marks_span]
  constructor
  · rintro ⟨j, low, high, rfl, left, right⟩
    exact ⟨low, by omega, left, right⟩
  · rintro ⟨low, high, left, right⟩
    exact ⟨v, low, by omega, rfl, left, right⟩

/-- Each row of a triangle is one run. -/
theorem row_connected (p q r : Point) (v : Int) :
    {u | Marks (trianglePoints p q r col) u v}.OrdConnected := by
  constructor
  intro a inA b inB u between
  have inA := (marks_sortedPlots a v).mp inA
  have inB := (marks_sortedPlots b v).mp inB
  obtain ⟨above, below⟩ := Set.mem_Icc.mp between
  exact (marks_sortedPlots u v).mpr (by omega)

/-- Every edge is part of its triangle, whichever corner is the third. -/
theorem marks_edge (tall : Tall p q r) (down : p.2 ≤ q.2) {v : Int} (low : p.2 ≤ v)
    (high : v ≤ q.2) : Marks (trianglePoints p q r col) (edgeX p.1 p.2 q.1 q.2 v) v := by
  rcases Int.lt_or_le r.2 p.2 with above | notAbove
  · rw [trianglePoints_eq tall (t := (r, p, q)) (by simp [orders]) ⟨by dsimp only; omega, down⟩,
      marks_sortedPlots]
    simp only [triangleEnds, if_neg (show ¬v < p.2 by omega)]
    omega
  · rcases Int.lt_or_le q.2 r.2 with below | notBelow
    · rw [trianglePoints_eq tall (t := (p, q, r)) (by simp [orders]) ⟨down, by dsimp only; omega⟩,
        marks_sortedPlots]
      rcases Int.lt_or_eq_of_le high with inside | rfl
      · simp only [triangleEnds, if_pos inside]
        omega
      · simp only [triangleEnds, Int.lt_irrefl, if_false, edgeX_top below.le]
        rcases Int.lt_or_eq_of_le down with slanted | level
        · rw [edgeX_bottom slanted]
          omega
        · have atP : edgeX p.1 p.2 q.1 q.2 q.2 = p.1 := by
            rw [← level]
            exact edgeX_top (Int.le_refl _)
          have alongR : edgeX p.1 p.2 r.1 r.2 q.2 = p.1 := by
            rw [← level]
            exact edgeX_top (by omega)
          rw [atP, alongR]
          omega
    · rw [trianglePoints_eq tall (t := (p, r, q)) (by simp [orders])
        ⟨by dsimp only; omega, by dsimp only; omega⟩, marks_sortedPlots]
      simp only [triangleEnds]
      omega

theorem marks_corner (tall : Tall p q r) : Marks (trianglePoints p q r col) p.1 p.2 := by
  have swapped : trianglePoints q p r col = trianglePoints p q r col :=
    trianglePoints_perm tall (.swap p q [r])
  rcases Int.lt_or_le q.2 p.2 with up | down
  · have marked : Marks (trianglePoints q p r col) (edgeX q.1 q.2 p.1 p.2 p.2) p.2 :=
      marks_edge (fun level => tall (by omega)) up.le up.le (Int.le_refl _)
    rwa [edgeX_bottom up, swapped] at marked
  · have marked : Marks (trianglePoints p q r col) (edgeX p.1 p.2 q.1 q.2 p.2) p.2 :=
      marks_edge tall down (Int.le_refl _) down
    rwa [edgeX_top down] at marked

/-- Which side of the line from p to q a point is on, by its sign. -/
def side (p q r : Point) : Int := (q.1 - p.1) * (r.2 - p.2) - (q.2 - p.2) * (r.1 - p.1)

theorem Tall.of_side (apart : side p q r ≠ 0) : Tall p q r := by
  rintro ⟨level, level'⟩
  apply apart
  rw [side, ← level', ← level]
  ring

/-- Two triangles with a common edge paint one run on every row it crosses. -/
theorem shared_edge {r' : Point} (tall : Tall p q r) (tall' : Tall p q r') {v : Int}
    (crossed : min p.2 q.2 ≤ v ∧ v ≤ max p.2 q.2) :
    {u | Marks (trianglePoints p q r col) u v ∨ Marks (trianglePoints p q r' col) u v}.OrdConnected := by
  -- a point of the edge that both have
  obtain ⟨e, inFirst, inSecond⟩ : ∃ e, Marks (trianglePoints p q r col) e v ∧
      Marks (trianglePoints p q r' col) e v := by
    rcases Int.le_total p.2 q.2 with down | up
    · exact ⟨_, marks_edge tall down (by omega) (by omega),
        marks_edge tall' down (by omega) (by omega)⟩
    · have swapped {r : Point} (tall : Tall p q r) :
          Marks (trianglePoints p q r col) (edgeX q.1 q.2 p.1 p.2 v) v := by
        have tall' : Tall q p r := fun level => tall (by omega)
        rw [← trianglePoints_perm tall (.swap p q [r])]
        exact marks_edge tall' up (by omega) (by omega)
      exact ⟨_, swapped tall, swapped tall'⟩
  have connected (r : Point) : {u | Marks (trianglePoints p q r col) u v}.OrdConnected :=
    row_connected p q r v
  have first := (connected r).out
  have second := (connected r').out
  constructor
  rintro a (inA | inA) b (inB | inB) u between
  · exact .inl (first inA inB between)
  · rcases Int.le_total u e with left | right
    · exact .inl (first inA inFirst ⟨between.1, left⟩)
    · exact .inr (second inSecond inB ⟨right, between.2⟩)
  · rcases Int.le_total u e with left | right
    · exact .inr (second inA inSecond ⟨between.1, left⟩)
    · exact .inl (first inFirst inB ⟨right, between.2⟩)
  · exact .inr (second inA inB between)

/-- TRIANGLE is the same for every order of corners that are not all on one row, has them in
it, and joins the next triangle without a seam wherever the edge between them goes. -/
theorem triangle_seamless (c : Card) :
    (∀ x0 y0 x1 y1 x2 y2, c.triangle x0 y0 x1 y1 x2 y2 =
      c.drawAll (trianglePlots x0 y0 x1 y1 x2 y2 c.color)) ∧
    (∀ p q r : Point, Tall p q r →
      (∀ p' q' r' : Point, [p', q', r'].Perm [p, q, r] →
        c.triangle p'.1 p'.2 q'.1 q'.2 r'.1 r'.2 = c.triangle p.1 p.2 q.1 q.2 r.1 r.2) ∧
      ∀ corner ∈ [p, q, r], Marks (trianglePoints p q r c.color) corner.1 corner.2) ∧
    ∀ p q r r' : Point, side p q r * side p q r' < 0 → ∀ v,
      (min p.2 q.2 ≤ v ∧ v ≤ max p.2 q.2 ∨ ¬((∃ u, Marks (trianglePoints p q r c.color) u v) ∧
        ∃ u, Marks (trianglePoints p q r' c.color) u v)) →
      {u | Marks (trianglePoints p q r c.color) u v ∨
        Marks (trianglePoints p q r' c.color) u v}.OrdConnected := by
  refine ⟨c.triangle_drawAll, ?_, ?_⟩
  · intro p q r tall
    refine ⟨?_, ?_⟩
    · intro p' q' r' reordered
      rw [c.triangle_drawAll, c.triangle_drawAll]
      exact congrArg c.drawAll (trianglePoints_perm tall reordered)
    · intro corner member
      have second : Marks (trianglePoints p q r c.color) q.1 q.2 := by
        rw [← trianglePoints_perm tall (.swap p q [r])]
        exact marks_corner fun level => tall (by omega)
      have third : Marks (trianglePoints p q r c.color) r.1 r.2 := by
        have turned : trianglePoints r p q c.color = trianglePoints p q r c.color :=
          trianglePoints_perm tall (perm_three.mpr (by simp [orders]))
        rw [← turned]
        exact marks_corner fun level => tall (by omega)
      simp only [List.mem_cons, List.not_mem_nil, or_false] at member
      rcases member with rfl | rfl | rfl
      · exact marks_corner tall
      · exact second
      · exact third
  · intro p q r r' opposite v row
    have apart : side p q r ≠ 0 ∧ side p q r' ≠ 0 := by
      constructor
      · intro zero
        rw [zero, Int.zero_mul] at opposite
        exact absurd opposite (by decide)
      · intro zero
        rw [zero, Int.mul_zero] at opposite
        exact absurd opposite (by decide)
    rcases row with crossed | alone
    · exact shared_edge (.of_side apart.1) (.of_side apart.2) crossed
    · by_cases reached : ∃ u, Marks (trianglePoints p q r c.color) u v
      · have other : ∀ u, ¬Marks (trianglePoints p q r' c.color) u v :=
          fun u marked => alone ⟨reached, u, marked⟩
        simp only [other, or_false]
        exact row_connected p q r v
      · have other : ∀ u, ¬Marks (trianglePoints p q r c.color) u v :=
          fun u marked => reached ⟨u, marked⟩
        simp only [other, false_or]
        exact row_connected p q r' v

/-- A target of 16 by 16 pixels, a byte each, at the start of video memory. -/
def squareCard : Card :=
  { vram := fun _ => 0, cfg := fun _ => 0, tStride := 16#16, tW := 16#16, tH := 16#16 }

/-- Corners all on one row: the last of them is left out. Third corners both below the common
edge: the notch between them is not painted. -/
theorem triangle_flat_and_notched :
    ((squareCard.triangle 0 0 1 0 5 0).peek 5 = 0 ∧
      (squareCard.triangle 0 0 5 0 1 0).peek 5 = 15) ∧
    side (4, 0) (4, 1) (0, 5) * side (4, 0) (4, 1) (8, 5) < 0 ∧
    ((squareCard.triangle 4 0 4 1 0 5).triangle 4 0 4 1 8 5).peek (5 * 16) = 15 ∧
    ((squareCard.triangle 4 0 4 1 0 5).triangle 4 0 4 1 8 5).peek (5 * 16 + 4) = 0 ∧
    ((squareCard.triangle 4 0 4 1 0 5).triangle 4 0 4 1 8 5).peek (5 * 16 + 8) = 15 := by
  decide

end Pugputer.Vidcard
