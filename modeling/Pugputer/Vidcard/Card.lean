import Mathlib.Logic.Function.Basic
import Pugputer.Basic

namespace Pugputer.Vidcard

/-! The video card: its address space, and the commands that draw. -/

def vcVramSize : Nat := 0x40000
def vcCfgBase : Nat := 0x40000
def vcCfgSize : Nat := 0x400
def vcPsramBase : Nat := 0x800000

abbrev Bytes := Nat → Byte

structure Card where
  vram : Bytes
  cfg : Bytes
  psram : Option Bytes := none
  tAddr : BitVec 24 := 0
  tStride : Word := 0
  tW : Word := 0
  tH : Word := 0
  tBpp : Byte := 8#8
  color : Byte := 15#8
  font : BitVec 24 := 0x3F000#24
  fontH : Byte := 16#8

def be16 (p : Bytes) (i : Nat) : Word := word (p i) (p (i + 1))

def be24 (p : Bytes) (i : Nat) : BitVec 24 := p i ++ p (i + 1) ++ p (i + 2)

def s16 (p : Bytes) (i : Nat) : Int := (be16 p i).toInt

namespace Card

def peek (c : Card) (a : Nat) : Byte :=
  let a := a % 0x1000000
  if a < vcVramSize then c.vram a
  else if vcCfgBase ≤ a ∧ a < vcCfgBase + vcCfgSize then c.cfg (a - vcCfgBase)
  else
    match c.psram with
    | some psram => if vcPsramBase ≤ a then psram (a - vcPsramBase) else 0
    | none => 0

def poke (c : Card) (a : Nat) (v : Byte) : Card :=
  let a := a % 0x1000000
  if a < vcVramSize then { c with vram := Function.update c.vram a v }
  else if vcCfgBase ≤ a ∧ a < vcCfgBase + vcCfgSize then
    { c with cfg := Function.update c.cfg (a - vcCfgBase) v }
  else
    match c.psram with
    | some psram =>
        if vcPsramBase ≤ a then
          { c with psram := some (Function.update psram (a - vcPsramBase) v) }
        else c
    | none => c

/-- The lowest `bits` bits set. -/
def ones (bits : Nat) : Byte := BitVec.ofNat 8 (1 <<< bits - 1)

def pset (c : Card) (x y : Int) (col : Byte) : Card :=
  if x < 0 ∨ y < 0 ∨ (c.tW.toNat : Int) ≤ x ∨ (c.tH.toNat : Int) ≤ y then c
  else
    let bpp := c.tBpp.toNat
    let bit := x.toNat * bpp
    let a := c.tAddr.toNat + y.toNat * c.tStride.toNat + bit / 8
    if bpp = 8 then c.poke a col
    else
      let shift := 8 - bpp - bit % 8
      let mask := ones bpp <<< shift
      c.poke a (c.peek a &&& ~~~mask ||| (col <<< shift &&& mask))

def pget (c : Card) (base stride x y bpp : Nat) : Byte :=
  let bit := x * bpp
  let b := c.peek (base + y * stride + bit / 8)
  if bpp = 8 then b else b >>> (8 - bpp - bit % 8) &&& ones bpp

/-- `for (x = x0; …; ++x) pset(c, x, y, col)`, `count` times. -/
def psetRun (c : Card) (x y : Int) (col : Byte) : Nat → Card
  | 0 => c
  | count + 1 => (c.pset x y col).psetRun (x + 1) y col count

def hline (c : Card) (x0 x1 y : Int) (col : Byte) : Card :=
  let (x0, x1) := if x1 < x0 then (x1, x0) else (x0, x1)
  if y < 0 ∨ (c.tH.toNat : Int) ≤ y then c
  else
    let x0 := if x0 < 0 then 0 else x0
    let x1 := if (c.tW.toNat : Int) ≤ x1 then (c.tW.toNat : Int) - 1 else x1
    c.psetRun x0 y col (x1 - x0 + 1).toNat

/-- The loop of `line`, `none` if it is still going after `fuel` turns. -/
def lineLoop (c : Card) (x1 y1 dx dy sx sy : Int) : Nat → Int → Int → Int → Option Card
  | 0, _, _, _ => none
  | fuel + 1, x0, y0, err =>
      let e2 := 2 * err
      let c := c.pset x0 y0 c.color
      if x0 = x1 ∧ y0 = y1 then some c
      else
        let (err', x0') := if dy ≤ e2 then (err + dy, x0 + sx) else (err, x0)
        let (err', y0') := if e2 ≤ dx then (err' + dx, y0 + sy) else (err', y0)
        c.lineLoop x1 y1 dx dy sx sy fuel x0' y0' err'

def line (c : Card) (x0 y0 x1 y1 : Int) : Option Card :=
  let dx := if x0 < x1 then x1 - x0 else x0 - x1
  let sx := if x0 < x1 then 1 else -1
  let dy := if y0 < y1 then y0 - y1 else y1 - y0
  let sy := if y0 < y1 then 1 else -1
  c.lineLoop x1 y1 dx dy sx sy ((dx - dy).toNat + 1) x0 y0 (dx + dy)

/-- One turn of the circle's loop: the points at (x, y) and its mirror images. -/
def circleStep (c : Card) (cx cy x y : Int) (fill : Bool) : Card :=
  if fill then
    let c := c.hline (cx - x) (cx + x) (cy + y) c.color
    let c := c.hline (cx - x) (cx + x) (cy - y) c.color
    let c := c.hline (cx - y) (cx + y) (cy + x) c.color
    c.hline (cx - y) (cx + y) (cy - x) c.color
  else
    let c := (c.pset (cx + x) (cy + y) c.color).pset (cx - x) (cy + y) c.color
    let c := (c.pset (cx + x) (cy - y) c.color).pset (cx - x) (cy - y) c.color
    let c := (c.pset (cx + y) (cy + x) c.color).pset (cx - y) (cy + x) c.color
    (c.pset (cx + y) (cy - x) c.color).pset (cx - y) (cy - x) c.color

def circleLoop (c : Card) (cx cy : Int) (fill : Bool) (x y err : Int) : Card :=
  if y ≤ x then
    let c := c.circleStep cx cy x y fill
    if err < 0 then c.circleLoop cx cy fill x (y + 1) (err + (2 * (y + 1) + 1))
    else c.circleLoop cx cy fill (x - 1) (y + 1) (err + (2 * (y + 1 - (x - 1)) + 1))
  else c
termination_by (x - y + 1).toNat

def circle (c : Card) (cx cy r : Int) (fill : Bool) : Card :=
  if r < 0 then c else c.circleLoop cx cy fill r 0 (1 - r)

end Card

/-- x on the edge (xa,ya)-(xb,yb) at row y, rounded to nearest; C division truncates. -/
def edgeX (xa ya xb yb y : Int) : Int :=
  if yb = ya then xa
  else
    let num := (y - ya) * (xb - xa) * 2 + (yb - ya)
    xa + (if 0 ≤ num then num else num - 2 * (yb - ya) + 1).tdiv (2 * (yb - ya))

/-- The corners sorted by y, as `triangle` swaps them. -/
def sortCorners (x0 y0 x1 y1 x2 y2 : Int) : (Int × Int) × (Int × Int) × (Int × Int) :=
  let (x0, y0, x1, y1) := if y1 < y0 then (x1, y1, x0, y0) else (x0, y0, x1, y1)
  let (x0, y0, x2, y2) := if y2 < y0 then (x2, y2, x0, y0) else (x0, y0, x2, y2)
  let (x1, y1, x2, y2) := if y2 < y1 then (x2, y2, x1, y1) else (x1, y1, x2, y2)
  ((x0, y0), (x1, y1), (x2, y2))

/-- The two ends of a triangle's row. -/
def triangleEnds (corners : (Int × Int) × (Int × Int) × (Int × Int)) (y : Int) : Int × Int :=
  let ((x0, y0), (x1, y1), (x2, y2)) := corners
  (edgeX x0 y0 x2 y2 y, if y < y1 then edgeX x0 y0 x1 y1 y else edgeX x1 y1 x2 y2 y)

namespace Card

/-- Rows `y`, `y + 1`, … of something, `count` of them. -/
def rows (c : Card) (row : Card → Int → Card) (y : Int) : Nat → Card
  | 0 => c
  | count + 1 => (row c y).rows row (y + 1) count

def triangle (c : Card) (x0 y0 x1 y1 x2 y2 : Int) : Card :=
  let corners := sortCorners x0 y0 x1 y1 x2 y2
  let y0 := corners.1.2
  let y2 := corners.2.2.2
  let first := if y0 < 0 then 0 else y0
  let last := if y2 < (c.tH.toNat : Int) then y2 else (c.tH.toNat : Int) - 1
  c.rows (fun c y => c.hline (triangleEnds corners y).1 (triangleEnds corners y).2 y c.color)
    first (last - first + 1).toNat

def rect (c : Card) (x y w h : Int) : Card :=
  if w ≤ 0 ∨ h ≤ 0 then c
  else
    let c := c.hline x (x + w - 1) y c.color
    let c := c.hline x (x + w - 1) (y + h - 1) c.color
    c.rows (fun c j => (c.pset x j c.color).pset (x + w - 1) j c.color) (y + 1) (h - 2).toNat

def fillRect (c : Card) (x y w h : Int) : Card :=
  if w ≤ 0 ∨ h ≤ 0 then c
  else
    let first := if y < 0 then 0 else y
    let last := if y + h < (c.tH.toNat : Int) then y + h - 1 else (c.tH.toNat : Int) - 1
    c.rows (fun c j => c.hline x (x + w - 1) j c.color) first (last - first + 1).toNat

def clear (c : Card) : Card :=
  c.rows (fun c j => c.hline 0 ((c.tW.toNat : Int) - 1) j c.color) 0 c.tH.toNat

/-- One row of a BLIT, from column `i` on. -/
def blitRow (c : Card) (src stride : Nat) (transparent : Bool) (x y : Int) (j i : Nat) :
    Nat → Card
  | 0 => c
  | count + 1 =>
      let v := c.pget src stride i j c.tBpp.toNat
      let c := if transparent && v == 0 then c else c.pset (x + i) (y + j) v
      c.blitRow src stride transparent x y j (i + 1) count

def blitRows (c : Card) (src stride w : Nat) (transparent : Bool) (x y : Int) (j : Nat) :
    Nat → Card
  | 0 => c
  | count + 1 =>
      (c.blitRow src stride transparent x y j 0 w).blitRows src stride w transparent x y (j + 1)
        count

/-- The bits of a character's row, from the left. -/
def charRow (c : Card) (bits : Byte) (x y : Int) (i : Nat) : Nat → Card
  | 0 => c
  | count + 1 =>
      let c := if bits &&& 0x80#8 >>> i ≠ 0 then c.pset (x + i) y c.color else c
      c.charRow bits x y (i + 1) count

def charRows (c : Card) (ch : Byte) (x y : Int) (j : Nat) : Nat → Card
  | 0 => c
  | count + 1 =>
      let bits := c.peek (c.font.toNat + ch.toNat * c.fontH.toNat + j)
      (c.charRow bits x (y + j) 0 8).charRows ch x y (j + 1) count

def copyUp (c : Card) (src dst k : Nat) : Nat → Card
  | 0 => c
  | count + 1 => (c.poke (dst + k) (c.peek (src + k))).copyUp src dst (k + 1) count

def copyDown (c : Card) (src dst : Nat) : Nat → Card
  | 0 => c
  | k + 1 => (c.poke (dst + k) (c.peek (src + k))).copyDown src dst k

def fill (c : Card) (dst k : Nat) (value : Byte) : Nat → Card
  | 0 => c
  | count + 1 => (c.poke (dst + k) value).fill dst (k + 1) value count

def setTarget (c : Card) (p : Bytes) : Card :=
  let c := { c with
    tAddr := be24 p 0
    tStride := be16 p 3
    tW := be16 p 5
    tH := be16 p 7
    tBpp := p 9 }
  if c.tBpp ≠ 1 ∧ c.tBpp ≠ 2 ∧ c.tBpp ≠ 4 ∧ c.tBpp ≠ 8 then
    { c with tW := 0, tH := 0, tBpp := 8 }
  else c

/-- A command on its parameters, the bytes after its opcode. -/
def runCommand (c : Card) (opcode : Byte) (p : Bytes) : Option Card :=
  match opcode.toNat with
  | 0x01 => some (c.setTarget p)
  | 0x02 => some { c with color := p 0 }
  | 0x03 => some (c.pset (s16 p 0) (s16 p 2) c.color)
  | 0x04 => c.line (s16 p 0) (s16 p 2) (s16 p 4) (s16 p 6)
  | 0x05 => some (c.rect (s16 p 0) (s16 p 2) (s16 p 4) (s16 p 6))
  | 0x06 => some (c.fillRect (s16 p 0) (s16 p 2) (s16 p 4) (s16 p 6))
  | 0x07 => some (c.circle (s16 p 0) (s16 p 2) (s16 p 4) false)
  | 0x08 => some (c.circle (s16 p 0) (s16 p 2) (s16 p 4) true)
  | 0x09 => some c.clear
  | 0x0A =>
      let src := (be24 p 0).toNat
      let dst := (be24 p 3).toNat
      let len := (be24 p 6).toNat
      some (if src < dst ∧ dst < src + len then c.copyDown src dst len
        else c.copyUp src dst 0 len)
  | 0x0B => some (c.fill (be24 p 0).toNat 0 (p 6) (be24 p 3).toNat)
  | 0x0C =>
      some (c.blitRows (be24 p 0).toNat (be16 p 3).toNat (s16 p 5).toNat ((p 13).getLsbD 0)
        (s16 p 9) (s16 p 11) 0 (s16 p 7).toNat)
  | 0x0D =>
      some (c.triangle (s16 p 0) (s16 p 2) (s16 p 4) (s16 p 6) (s16 p 8) (s16 p 10))
  | 0x0E => some { c with font := be24 p 0, fontH := if p 3 = 0 then 16 else p 3 }
  | 0x0F => some (c.charRows (p 4) (s16 p 0) (s16 p 2) 0 c.fontH.toNat)
  | _ => some c

end Card

end Pugputer.Vidcard
