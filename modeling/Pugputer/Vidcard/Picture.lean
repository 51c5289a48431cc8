import Pugputer.Vidcard.Render

namespace Pugputer.Vidcard

/-! The picture as what is in front at each of its pixels. -/

/-- A color, unless it is 0, which is transparent. -/
def shown (v : Byte) : Option Byte := if v = 0 then none else some v

/-- A pixel's value in the palette, `offset` colors up in sixteens unless it has 8 bits. -/
def colored (bpp offset : Nat) (v : Byte) : Byte :=
  if bpp = 8 ∨ v = 0 then v else BitVec.ofNat 8 (16 * offset + v.toNat)

namespace Card

/-- Video memory; only the low 18 bits of an address count. -/
def video (c : Card) (a : Nat) : Byte := c.vram (a % 0x40000)

/-- Pixel `i` of those packed from `base` on, each byte from the high bits down: what is left of
its byte without the bits before it and those after it. -/
def packed (c : Card) (base bpp i : Nat) : Byte :=
  c.video (base + i * bpp / 8) <<< (i * bpp % 8) >>> (8 - bpp)

/-! A layer's pixels, by its mode; maps wrap around, bitmaps do not. -/

def textPixel (c : Card) (l : Bytes) (x y : Nat) : Byte :=
  let height := if lBig l then 16 else 8
  let mx := ((x + lHScroll l) % (lMapW l * 8 : Nat)).toNat
  let my := ((y + lVScroll l) % (lMapH l * height : Nat)).toNat
  let cell := lMapBase l + 4 * (my / height * lMapW l + mx / 8)
  let glyphRow := c.video (lTileBase l + (c.video cell).toNat * height + my % height)
  if glyphRow.getLsbD (7 - mx % 8) then c.video (cell + 1) else c.video (cell + 2)

/-- Where the map entry of a tile layer's pixel is. -/
def tileEntry (l : Bytes) (x y : Nat) : Nat :=
  let size := if lBig l then 16 else 8
  let mx := ((x + lHScroll l) % (lMapW l * size : Nat)).toNat
  let my := ((y + lVScroll l) % (lMapH l * size : Nat)).toNat
  lMapBase l + 2 * (my / size * lMapW l + mx / size)

def tilePixel (c : Card) (l : Bytes) (x y : Nat) : Byte :=
  let size := if lBig l then 16 else 8
  let entry := word (c.video (tileEntry l x y)) (c.video (tileEntry l x y + 1))
  let mx := ((x + lHScroll l) % (lMapW l * size : Nat)).toNat
  let my := ((y + lVScroll l) % (lMapH l * size : Nat)).toNat
  let col := if entry.getLsbD 10 then size - 1 - mx % size else mx % size
  let row := if entry.getLsbD 11 then size - 1 - my % size else my % size
  let tile := lTileBase l + entry.toNat % 1024 * (size * size * lBpp l / 8)
  colored (lBpp l) (entry.toNat / 4096) (c.packed tile (lBpp l) (row * size + col))

def bitmapPixel (c : Card) (l : Bytes) (x y : Nat) : Byte :=
  let bx := x + lHScroll l
  let byy := y + lVScroll l
  if bx < 0 ∨ byy < 0 ∨ (lStride l * 8 / lBpp l : Nat) ≤ bx then 0
  else
    colored (lBpp l) (lPalOfs l).toNat
      (c.packed (lMapBase l + byy.toNat * lStride l) (lBpp l) bx.toNat)

/-- A layer's pixel at (x, y) of the screen. -/
def layerPixel (c : Card) (l : Bytes) (x y : Nat) : Byte :=
  let scale := scaleOf (lHires l)
  match lType l with
  | 0 => c.textPixel l (x / scale) (y / scale)
  | 1 => c.tilePixel l (x / scale) (y / scale)
  | 2 => c.bitmapPixel l (x / scale) (y / scale)
  | _ => 0

/-! Sprites. -/

/-- A table entry's bytes. -/
def spriteAt (c : Card) (attr : Nat) : Bytes := fun i => c.video (attr + i)

/-- The sprite shows some row on the line `y` of its coordinates. -/
def onLine (a : Bytes) (y : Nat) : Bool :=
  sprPrio a ≠ 0 && sprY a ≤ y && decide ((y : Int) < sprY a + sprH a)

/-- A sprite's pixel at (x, y) of its coordinates. -/
def spriteValue (c : Card) (a : Bytes) (x y : Nat) : Byte :=
  let dx := x - sprX a
  let dy := y - sprY a
  if 0 ≤ dx ∧ dx < sprW a then
    let col := if (a 6).getLsbD 4 then sprW a - 1 - dx.toNat else dx.toNat
    let row := if (a 6).getLsbD 5 then sprH a - 1 - dy.toNat else dy.toNat
    colored (sprBpp a) ((a 7).toNat % 16) (c.packed (sprImage a) (sprBpp a) (row * sprW a + col))
  else 0

/-- Where the entries of the sprite table in use are. -/
def spriteTable (c : Card) : List Nat :=
  (List.range c.sprCount).map fun i => ((be24 c.cfg 0x04).toNat + 8 * i) % 0x40000

/-- The entries before the first that does not end in video memory. -/
def wholeEntries (c : Card) : List Nat :=
  c.spriteTable.takeWhile (· ≤ 0x40000 - 8)

/-- Of the entries given, the first 32 that cross the line. -/
def spritesAcross (c : Card) (entries : List Nat) (y : Nat) : List Nat :=
  if (c.cfg 0x00).getLsbD 3 then
    (entries.filter fun attr => onLine (c.spriteAt attr) (y / scaleOf c.sprHires)).take 32
  else []

/-- The sprites of a priority at a pixel, the lowest-numbered first. -/
def spritesInFront (c : Card) (entries : List Nat) (prio y x : Nat) : List Byte :=
  ((c.spritesAcross entries y).filter fun attr => sprPrio (c.spriteAt attr) = prio).map
    fun attr => c.spriteValue (c.spriteAt attr) (x / scaleOf c.sprHires)
      (y / scaleOf c.sprHires)

/-- A layer at a pixel; one switched off has none. -/
def layerInFront (c : Card) (layer y x : Nat) : List Byte :=
  if (c.cfg 0x00).getLsbD layer then [c.layerPixel (c.layerCfg layer) x y] else []

/-- The picture: the color of the first value that is not 0, from the front. -/
def pictureOf (c : Card) (entries : List Nat) (y x : Nat) : Word :=
  c.palette (((c.spritesInFront entries 3 y x ++ c.layerInFront 2 y x ++
    c.spritesInFront entries 2 y x ++ c.layerInFront 1 y x ++
    c.spritesInFront entries 1 y x ++ c.layerInFront 0 y x).findSome? shown).getD (c.cfg 0x01))

/-- No map entry of a tile layer that is on straddles the end of video memory. -/
def MapsWhole (c : Card) : Prop :=
  ∀ layer < 3, (c.cfg 0x00).getLsbD layer → lType (c.layerCfg layer) = 1 →
    ∀ x y, tileEntry (c.layerCfg layer) x y % 0x40000 ≠ 0x3FFFF

end Card

end Pugputer.Vidcard
