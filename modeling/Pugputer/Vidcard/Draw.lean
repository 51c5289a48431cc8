import Mathlib.Tactic.Ring
import Pugputer.Vidcard.Pixel

namespace Pugputer.Vidcard

theorem sweep_add (f : Int → List Plot) (i : Int) (m n : Nat) :
    sweep f i (m + n) = sweep f i m ++ sweep f (i + m) n := by
  induction m generalizing i with
  | zero => simp [sweep]
  | succ m ih =>
      rw [Nat.succ_add, sweep, sweep, ih, List.append_assoc]
      congr 3
      push_cast
      ring

theorem mem_sweep {f : Int → List Plot} {p : Plot} {i : Int} {n : Nat} (member : p ∈ sweep f i n) :
    ∃ j, i ≤ j ∧ j < i + n ∧ p ∈ f j := by
  induction n generalizing i with
  | zero => cases member
  | succ n ih =>
      rw [sweep, List.mem_append] at member
      rcases member with here | later
      · exact ⟨i, Int.le_refl i, by omega, here⟩
      · obtain ⟨j, low, high, found⟩ := ih later
        exact ⟨j, by omega, by omega, found⟩

namespace Card

variable {c : Card}

/-- Points set one after the other. -/
def drawAll (c : Card) (plots : List Plot) : Card :=
  plots.foldl (fun c p => c.pset p.x p.y p.color) c

@[simp] theorem drawAll_nil (c : Card) : c.drawAll [] = c := rfl

@[simp] theorem drawAll_cons (c : Card) (p : Plot) (plots : List Plot) :
    c.drawAll (p :: plots) = (c.pset p.x p.y p.color).drawAll plots := rfl

theorem drawAll_append (c : Card) (first second : List Plot) :
    c.drawAll (first ++ second) = (c.drawAll first).drawAll second := List.foldl_append

theorem drawAll_redraws (c : Card) (plots : List Plot) : c.Redraws (c.drawAll plots) := by
  induction plots generalizing c with
  | nil => exact .refl c
  | cons p plots ih => exact (pset_redraws c p.x p.y p.color).trans (ih _)

/-- A color reduced to the depth of the target. -/
def shade (c : Card) (p : Plot) : Plot := { p with color := c.reduce p.color }

theorem Redraws.shade {d : Card} (redraws : c.Redraws d) : d.shade = c.shade := by
  obtain ⟨_, _, _, -, rfl⟩ := redraws
  rfl

theorem Redraws.covers {d : Card} (redraws : c.Redraws d) : d.Covers = c.Covers := by
  obtain ⟨_, _, _, -, rfl⟩ := redraws
  rfl

/-- Points set on the card are points plotted on the array. -/
theorem Target.drawAll_raster (target : c.Target) (plots : List Plot) :
    (c.drawAll plots).raster = c.raster.draw (plots.map c.shade) := by
  induction plots generalizing c with
  | nil => rfl
  | cons p plots ih =>
      have redraws := pset_redraws c p.x p.y p.color
      rw [drawAll_cons, ih (redraws.target target), target.pset_raster, redraws.shade]
      rfl

theorem Target.drawAll_elsewhere (target : c.Target) (plots : List Plot) {g : Nat}
    (bound : g < 0x8000000) (elsewhere : ∀ p ∈ plots, ¬c.Covers p g) :
    (c.drawAll plots).bitAt g = c.bitAt g := by
  induction plots generalizing c with
  | nil => rfl
  | cons p plots ih =>
      have redraws := pset_redraws c p.x p.y p.color
      rw [drawAll_cons, ih (redraws.target target) (by
        rw [redraws.covers]
        exact fun q member => elsewhere q (List.mem_cons_of_mem p member))]
      exact target.pset_elsewhere p bound (elsewhere p List.mem_cons_self)

/-! Clipping: a shape cut off at the edges of the target draws what the whole shape does. -/

def Outside (c : Card) (p : Plot) : Prop :=
  p.x < 0 ∨ p.y < 0 ∨ (c.tW.toNat : Int) ≤ p.x ∨ (c.tH.toNat : Int) ≤ p.y

theorem drawAll_outside (plots : List Plot) (outside : ∀ p ∈ plots, c.Outside p) :
    c.drawAll plots = c := by
  induction plots with
  | nil => rfl
  | cons p plots ih =>
      rw [drawAll_cons, pset_outside p.x p.y p.color (outside p List.mem_cons_self)]
      exact ih fun q member => outside q (List.mem_cons_of_mem p member)

theorem Redraws.outside {d : Card} (redraws : c.Redraws d) : d.Outside = c.Outside := by
  obtain ⟨_, _, _, -, rfl⟩ := redraws
  rfl

/-- Rows or columns before the first or after the last may be left out. -/
theorem drawAll_trim (f : Int → List Plot) {first last low high : Int}
    (outside : ∀ i, i < low ∨ high < i → ∀ p ∈ f i, c.Outside p) :
    c.drawAll (sweep f (max first low) (min last high - max first low + 1).toNat) =
      c.drawAll (sweep f first (last - first + 1).toNat) := by
  by_cases some : max first low ≤ min last high
  · have before : (first + ((max first low - first).toNat : Nat) : Int) = max first low := by omega
    have after : (max first low + ((min last high - max first low + 1).toNat : Nat) : Int) =
        min last high + 1 := by omega
    have split : (last - first + 1).toNat = (max first low - first).toNat +
        ((min last high - max first low + 1).toNat + (last - min last high).toNat) := by omega
    rw [split, sweep_add, before, sweep_add, after, drawAll_append, drawAll_append]
    rw [drawAll_outside (sweep f first _)]
    · rw [drawAll_outside (sweep f (min last high + 1) _)]
      rw [(drawAll_redraws c _).outside]
      intro p member
      obtain ⟨j, above, below, found⟩ := mem_sweep member
      exact outside j (by omega) p found
    · intro p member
      obtain ⟨j, above, below, found⟩ := mem_sweep member
      exact outside j (by omega) p found
  · have none : (min last high - max first low + 1).toNat = 0 := by omega
    rw [none]
    refine (drawAll_outside _ ?_).symm
    intro p member
    obtain ⟨j, above, below, found⟩ := mem_sweep member
    exact outside j (by omega) p found

/-! Each shape is its points. -/

theorem psetRun_drawAll (c : Card) (x y : Int) (col : Byte) (n : Nat) :
    c.psetRun x y col n = c.drawAll (sweep (fun x => [⟨x, y, col⟩]) x n) := by
  induction n generalizing c x with
  | zero => rfl
  | succ n ih =>
      rw [psetRun, sweep, ih]
      rfl

theorem hline_drawAll (c : Card) (x0 x1 y : Int) (col : Byte) :
    c.hline x0 x1 y col = c.drawAll (span x0 x1 y col) := by
  have ends : (if x1 < x0 then (x1, x0) else (x0, x1)) = (min x0 x1, max x0 x1) := by
    split
    · rw [Int.min_eq_right (by omega), Int.max_eq_left (by omega)]
    · rw [Int.min_eq_left (by omega), Int.max_eq_right (by omega)]
  rw [hline, ends, span]
  dsimp only
  split
  · refine (drawAll_outside _ ?_).symm
    intro p member
    obtain ⟨x, -, -, found⟩ := mem_sweep member
    obtain rfl := List.mem_singleton.mp found
    unfold Outside
    dsimp only
    omega
  · have low : (if min x0 x1 < 0 then 0 else min x0 x1) = max (min x0 x1) 0 := by
      split <;> omega
    have high : (if (c.tW.toNat : Int) ≤ max x0 x1 then (c.tW.toNat : Int) - 1 else max x0 x1) =
        min (max x0 x1) ((c.tW.toNat : Int) - 1) := by
      split <;> omega
    rw [low, high, psetRun_drawAll]
    apply drawAll_trim
    intro x beyond p found
    obtain rfl := List.mem_singleton.mp found
    unfold Outside
    dsimp only
    omega

theorem rows_drawAll {row : Card → Int → Card} {f : Int → List Plot}
    (same : ∀ d, c.Redraws d → ∀ y, row d y = d.drawAll (f y)) (y : Int) (n : Nat) :
    c.rows row y n = c.drawAll (sweep f y n) := by
  induction n generalizing c y with
  | zero => rfl
  | succ n ih =>
      have redraws := drawAll_redraws c (f y)
      rw [rows, sweep, same c (.refl c), drawAll_append]
      exact ih (fun d later => same d (redraws.trans later)) (y + 1)

theorem Redraws.color {d : Card} (redraws : c.Redraws d) : d.color = c.color := by
  obtain ⟨_, _, _, -, rfl⟩ := redraws
  rfl

theorem Redraws.width {d : Card} (redraws : c.Redraws d) : d.tW = c.tW := by
  obtain ⟨_, _, _, -, rfl⟩ := redraws
  rfl

theorem rect_drawAll (c : Card) (x y w h : Int) :
    c.rect x y w h = c.drawAll (rectPlots x y w h c.color) := by
  rw [rect, rectPlots]
  split
  · rfl
  · dsimp only
    rw [hline_drawAll, hline_drawAll, (drawAll_redraws c _).color, ← drawAll_append]
    rw [rows_drawAll (f := fun j => [⟨x, j, c.color⟩, ⟨x + w - 1, j, c.color⟩])]
    · rw [← drawAll_append]
    · intro d later j
      rw [((drawAll_redraws c _).trans later).color]
      rfl

/-- A row off the top or the bottom has no point in the target. -/
theorem span_outside {x0 x1 y : Int} {col : Byte} (beyond : y < 0 ∨ (c.tH.toNat : Int) - 1 < y)
    (p : Plot) (member : p ∈ span x0 x1 y col) : c.Outside p := by
  obtain ⟨x, -, -, found⟩ := mem_sweep member
  obtain rfl := List.mem_singleton.mp found
  unfold Outside
  dsimp only
  omega

/-- Rows drawn from the top edge to the bottom edge are all the rows. -/
theorem rows_trim (ends : Int → Int × Int) (first last : Int) :
    c.rows (fun d y => d.hline (ends y).1 (ends y).2 y d.color) (max first 0)
        (min last ((c.tH.toNat : Int) - 1) - max first 0 + 1).toNat =
      c.drawAll (sweep (fun y => span (ends y).1 (ends y).2 y c.color) first
        (last - first + 1).toNat) := by
  rw [rows_drawAll (f := fun y => span (ends y).1 (ends y).2 y c.color)]
  · exact drawAll_trim _ fun y beyond => span_outside beyond
  · intro d later y
    rw [hline_drawAll, later.color]

theorem fillRect_drawAll (c : Card) (x y w h : Int) :
    c.fillRect x y w h = c.drawAll (fillRectPlots x y w h c.color) := by
  rw [fillRect, fillRectPlots]
  split
  · rfl
  · have first : (if y < 0 then 0 else y) = max y 0 := by
      split <;> omega
    have last : (if y + h < (c.tH.toNat : Int) then y + h - 1 else (c.tH.toNat : Int) - 1) =
        min (y + h - 1) ((c.tH.toNat : Int) - 1) := by
      split <;> omega
    have height : h.toNat = (y + h - 1 - y + 1).toNat := by omega
    dsimp only
    rw [first, last, height]
    exact rows_trim (fun _ => (x, x + w - 1)) y (y + h - 1)

theorem clear_drawAll (c : Card) :
    c.clear = c.drawAll (clearPlots c.tW.toNat c.tH.toNat c.color) := by
  rw [clear, clearPlots]
  apply rows_drawAll
  intro d later y
  rw [hline_drawAll, later.color, later.width, span]
  by_cases empty : c.tW.toNat = 0
  · rw [empty, drawAll_outside _, sweep, drawAll_nil]
    rw [later.outside]
    intro p member
    obtain ⟨x, -, -, found⟩ := mem_sweep member
    obtain rfl := List.mem_singleton.mp found
    unfold Outside
    dsimp only
    omega
  · have low : min 0 ((c.tW.toNat : Int) - 1) = 0 := by omega
    have count : (max 0 ((c.tW.toNat : Int) - 1) - 0 + 1).toNat = c.tW.toNat := by omega
    rw [low, count]

end Card

end Pugputer.Vidcard
