import Mathlib.Data.Int.Notation
import Pugputer.Basic

namespace Pugputer.Vidcard

/-! A plain array of pixels, and drawing on it: every shape is the list of its points in
the order they are drawn, wherever they lie. -/

structure Plot where
  x : Int
  y : Int
  color : Byte
  deriving DecidableEq, Repr

@[ext]
structure Raster where
  width : Nat
  height : Nat
  pixel : Nat → Nat → Byte

namespace Raster

/-- A point outside the array is clipped. -/
def plot (r : Raster) (p : Plot) : Raster :=
  { r with pixel := fun i j =>
      if (i : Int) = p.x ∧ (j : Int) = p.y ∧ i < r.width ∧ j < r.height then p.color
      else r.pixel i j }

theorem plot_pixel (r : Raster) (p : Plot) (i j : Nat) :
    (r.plot p).pixel i j =
      if (i : Int) = p.x ∧ (j : Int) = p.y ∧ i < r.width ∧ j < r.height then p.color
      else r.pixel i j := rfl

def draw (r : Raster) (plots : List Plot) : Raster := plots.foldl plot r

end Raster

/-! Shapes. -/

/-- The points of `f i`, `f (i + 1)`, …, `count` of them. -/
def sweep (f : Int → List Plot) (i : Int) : Nat → List Plot
  | 0 => []
  | count + 1 => f i ++ sweep f (i + 1) count

/-- The points from one end of a row to the other. -/
def span (x0 x1 y : Int) (col : Byte) : List Plot :=
  sweep (fun x => [⟨x, y, col⟩]) (min x0 x1) (max x0 x1 - min x0 x1 + 1).toNat

def rectPlots (x y w h : Int) (col : Byte) : List Plot :=
  if w ≤ 0 ∨ h ≤ 0 then []
  else
    span x (x + w - 1) y col ++ span x (x + w - 1) (y + h - 1) col ++
      sweep (fun j => [⟨x, j, col⟩, ⟨x + w - 1, j, col⟩]) (y + 1) (h - 2).toNat

def fillRectPlots (x y w h : Int) (col : Byte) : List Plot :=
  if w ≤ 0 ∨ h ≤ 0 then [] else sweep (fun j => span x (x + w - 1) j col) y h.toNat

def clearPlots (width height : Nat) (col : Byte) : List Plot :=
  sweep (fun j => sweep (fun x => [⟨x, j, col⟩]) 0 width) 0 height

/-- Bresenham's line, up to `count` points. -/
def linePlotsFrom (x1 y1 dx dy sx sy : Int) (col : Byte) : Nat → Int → Int → Int → List Plot
  | 0, _, _, _ => []
  | count + 1, x0, y0, err =>
      ⟨x0, y0, col⟩ ::
        if x0 = x1 ∧ y0 = y1 then []
        else
          linePlotsFrom x1 y1 dx dy sx sy col count
            (if dy ≤ 2 * err then x0 + sx else x0) (if 2 * err ≤ dx then y0 + sy else y0)
            (err + (if dy ≤ 2 * err then dy else 0) + (if 2 * err ≤ dx then dx else 0))

def linePlots (x0 y0 x1 y1 : Int) (col : Byte) : List Plot :=
  let dx := (x1 - x0).natAbs
  let dy := (y1 - y0).natAbs
  linePlotsFrom x1 y1 dx (-(dy : Int)) (if x0 < x1 then 1 else -1) (if y0 < y1 then 1 else -1)
    col (dx + dy + 1) x0 y0 (dx - dy)

/-- A point of the circle's first eighth and its mirror images, or the rows between them. -/
def circleStepPlots (cx cy x y : Int) (fill : Bool) (col : Byte) : List Plot :=
  if fill then
    span (cx - x) (cx + x) (cy + y) col ++ span (cx - x) (cx + x) (cy - y) col ++
      span (cx - y) (cx + y) (cy + x) col ++ span (cx - y) (cx + y) (cy - x) col
  else
    [⟨cx + x, cy + y, col⟩, ⟨cx - x, cy + y, col⟩, ⟨cx + x, cy - y, col⟩, ⟨cx - x, cy - y, col⟩,
      ⟨cx + y, cy + x, col⟩, ⟨cx - y, cy + x, col⟩, ⟨cx + y, cy - x, col⟩,
      ⟨cx - y, cy - x, col⟩]

/-- The midpoint circle's first eighth, from (x, y) on. -/
def circlePlotsFrom (cx cy : Int) (fill : Bool) (col : Byte) (x y err : Int) : List Plot :=
  if y ≤ x then
    circleStepPlots cx cy x y fill col ++
      if err < 0 then circlePlotsFrom cx cy fill col x (y + 1) (err + 2 * y + 3)
      else circlePlotsFrom cx cy fill col (x - 1) (y + 1) (err + 2 * (y - x) + 5)
  else []
termination_by (x - y + 1).toNat

def circlePlots (cx cy r : Int) (fill : Bool) (col : Byte) : List Plot :=
  if r < 0 then [] else circlePlotsFrom cx cy fill col r 0 (1 - r)

/-- The pixels of a picture, row by row, those of color 0 left out if it is transparent. -/
def blitPlots (source : Nat → Nat → Byte) (w h : Nat) (transparent : Bool) (x y : Int) :
    List Plot :=
  (List.range h).flatMap fun j => (List.range w).flatMap fun i =>
    if transparent && source i j == 0 then [] else [⟨x + i, y + j, source i j⟩]

/-- The set bits of a character's rows, the leftmost in bit 7. -/
def charPlots (glyph : Nat → Byte) (height : Nat) (x y : Int) (col : Byte) : List Plot :=
  (List.range height).flatMap fun j => (List.range 8).flatMap fun i =>
    if (glyph j).getLsbD (7 - i) then [⟨x + i, y + j, col⟩] else []

end Pugputer.Vidcard
