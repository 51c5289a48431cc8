import Pugputer.Vidcard.Shapes

namespace Pugputer.Vidcard

/-! Where the points of a shape are, in whatever order they are drawn. -/

def Marks (plots : List Plot) (x y : Int) : Prop := ∃ p ∈ plots, p.x = x ∧ p.y = y

@[simp] theorem marks_nil (x y : Int) : ¬Marks [] x y := by
  rintro ⟨p, member, -⟩
  cases member

@[simp] theorem marks_cons (p : Plot) (plots : List Plot) (x y : Int) :
    Marks (p :: plots) x y ↔ (p.x = x ∧ p.y = y) ∨ Marks plots x y := by
  simp [Marks]

@[simp] theorem marks_append (first second : List Plot) (x y : Int) :
    Marks (first ++ second) x y ↔ Marks first x y ∨ Marks second x y := by
  simp [Marks, or_and_right, exists_or]

theorem marks_flatMap {α : Type*} {l : List α} {f : α → List Plot} {x y : Int} :
    Marks (l.flatMap f) x y ↔ ∃ a ∈ l, Marks (f a) x y := by
  constructor
  · rintro ⟨p, member, at_point⟩
    obtain ⟨a, inList, found⟩ := List.mem_flatMap.mp member
    exact ⟨a, inList, p, found, at_point⟩
  · rintro ⟨a, inList, p, found, at_point⟩
    exact ⟨p, List.mem_flatMap.mpr ⟨a, inList, found⟩, at_point⟩

theorem marks_sweep {f : Int → List Plot} {i x y : Int} {n : Nat} :
    Marks (sweep f i n) x y ↔ ∃ j, i ≤ j ∧ j < i + n ∧ Marks (f j) x y := by
  induction n generalizing i with
  | zero =>
      rw [sweep]
      constructor
      · intro marked
        exact absurd marked (marks_nil x y)
      · rintro ⟨j, low, high, -⟩
        omega
  | succ n ih =>
      rw [sweep, marks_append, ih]
      constructor
      · rintro (here | ⟨j, low, high, later⟩)
        · exact ⟨i, Int.le_refl i, by omega, here⟩
        · exact ⟨j, by omega, by omega, later⟩
      · rintro ⟨j, low, high, marked⟩
        by_cases first : j = i
        · exact .inl (first ▸ marked)
        · exact .inr ⟨j, by omega, by omega, marked⟩

@[simp] theorem marks_span {x0 x1 row x y : Int} {col : Byte} :
    Marks (span x0 x1 row col) x y ↔ y = row ∧ min x0 x1 ≤ x ∧ x ≤ max x0 x1 := by
  rw [span, marks_sweep]
  simp only [marks_cons, marks_nil, or_false]
  constructor
  · rintro ⟨j, low, high, rfl, rfl⟩
    omega
  · rintro ⟨rfl, low, high⟩
    exact ⟨x, by omega, by omega, rfl, rfl⟩

instance (plots : List Plot) (x y : Int) : Decidable (Marks plots x y) :=
  inferInstanceAs (Decidable (∃ p ∈ plots, p.x = x ∧ p.y = y))

/-- A shape of one color, in whatever order it is drawn, is where its points are. -/
theorem Raster.draw_pixel (r : Raster) {plots : List Plot} {col : Byte}
    (single : ∀ p ∈ plots, p.color = col) (i j : Nat) :
    (r.draw plots).pixel i j =
      if Marks plots i j ∧ i < r.width ∧ j < r.height then col else r.pixel i j := by
  induction plots generalizing r with
  | nil => rw [if_neg fun marked => marks_nil _ _ marked.1, draw, List.foldl_nil]
  | cons p plots ih =>
      have drawn := ih (r.plot p) fun q member => single q (List.mem_cons_of_mem p member)
      have color := single p List.mem_cons_self
      change ((r.plot p).draw plots).pixel i j = _
      rw [drawn, plot_pixel, color]
      have sides : (r.plot p).width = r.width ∧ (r.plot p).height = r.height := ⟨rfl, rfl⟩
      rw [sides.1, sides.2]
      by_cases inside : i < r.width ∧ j < r.height
      · by_cases later : Marks plots i j
        · rw [if_pos ⟨later, inside⟩, if_pos ⟨(marks_cons ..).mpr (.inr later), inside⟩]
        · rw [if_neg fun marked => later marked.1]
          refine if_congr ?_ rfl rfl
          rw [marks_cons]
          constructor
          · rintro ⟨atX, atY, -⟩
            exact ⟨.inl ⟨atX.symm, atY.symm⟩, inside⟩
          · rintro ⟨⟨atX, atY⟩ | marked, -⟩
            · exact ⟨atX.symm, atY.symm, inside⟩
            · exact absurd marked later
      · rw [if_neg fun marked => inside marked.2, if_neg fun marked => inside marked.2.2,
          if_neg fun marked => inside marked.2]

/-- What a shape of one color leaves on a target. -/
theorem Card.Target.drawAll_pixel {c : Card} (target : c.Target) {plots : List Plot} {col : Byte}
    (single : ∀ p ∈ plots, p.color = col) (i j : Nat) :
    (c.drawAll plots).raster.pixel i j =
      if Marks plots i j ∧ i < c.tW.toNat ∧ j < c.tH.toNat then c.reduce col
      else c.raster.pixel i j := by
  have shaded : ∀ p ∈ plots.map c.shade, p.color = c.reduce col := by
    intro p member
    obtain ⟨q, found, rfl⟩ := List.mem_map.mp member
    exact congrArg c.reduce (single q found)
  have same : Marks (plots.map c.shade) i j ↔ Marks plots i j := by
    simp [Marks, Card.shade]
  rw [target.drawAll_raster, Raster.draw_pixel _ shaded]
  exact if_congr (and_congr_left fun _ => same) rfl rfl

end Pugputer.Vidcard
