import Pugputer.Vidcard.Card

namespace Pugputer.Vidcard

/-! The picture, a line at a time, as the card draws it: from the back to the front. -/

def vcWidth : Nat := 640
def vramMask : Nat := vcVramSize - 1
def vcMaxLineSprites : Nat := 32

/-- A line's palette indexes, 0 where nothing is drawn yet. -/
abbrev Line := Nat → Byte

/-- `i & (size - 1)` of C's signed integers. -/
def andBelow (i : Int) (size : Nat) : Nat :=
  (BitVec.ofInt 32 i &&& BitVec.ofNat 32 (size - 1)).toNat

/-! A layer's settings, sixteen bytes. -/

def lType (l : Bytes) : Nat := (l 0x0 &&& 3#8).toNat
def lHires (l : Bytes) : Bool := (l 0x0).getLsbD 2
def lBpp (l : Bytes) : Nat := 1 <<< (l 0x0 >>> 3 &&& 3#8).toNat
def lBig (l : Bytes) : Bool := (l 0x0).getLsbD 5
def lMapW (l : Bytes) : Nat := 32 <<< (l 0x1 &&& 3#8).toNat
def lMapH (l : Bytes) : Nat := 32 <<< (l 0x1 >>> 2 &&& 3#8).toNat
def lMapBase (l : Bytes) : Nat := (be24 l 0x2).toNat
def lTileBase (l : Bytes) : Nat := (be24 l 0x5).toNat
def lHScroll (l : Bytes) : Int := s16 l 0x8
def lVScroll (l : Bytes) : Int := s16 l 0xA
def lStride (l : Bytes) : Nat := (be16 l 0xC).toNat
def lPalOfs (l : Bytes) : Byte := l 0xE

/-- How many of the screen's pixels one of the layer's covers each way. -/
def scaleOf (hires : Bool) : Nat := if hires then 1 else 2

namespace Card

/-- What C reads at `vram + i`: the settings follow video memory. -/
def vramAt (c : Card) (i : Nat) : Byte :=
  if i < vcVramSize then c.vram i else c.cfg (i - vcVramSize)

def textValue (c : Card) (l : Bytes) (lx ly : Nat) : Byte :=
  let fh := if lBig l then 16 else 8
  let px := andBelow (lx + lHScroll l) (lMapW l * 8)
  let py := andBelow (ly + lVScroll l) (lMapH l * fh)
  let cell := lMapBase l + 4 * (py / fh * lMapW l + px / 8)
  let ch := c.vram (cell &&& vramMask)
  let glyph := c.vram ((lTileBase l + ch.toNat * fh + py % fh) &&& vramMask)
  c.vram ((cell + if glyph >>> (7 - (px &&& 7)) &&& 1#8 ≠ 0 then 1 else 2) &&& vramMask)

def tileValue (c : Card) (l : Bytes) (lx ly : Nat) : Byte :=
  let ts := if lBig l then 16 else 8
  let bpp := lBpp l
  let px := andBelow (lx + lHScroll l) (lMapW l * ts)
  let py := andBelow (ly + lVScroll l) (lMapH l * ts)
  let e := be16 c.vramAt ((lMapBase l + 2 * (py / ts * lMapW l + px / ts)) &&& vramMask)
  let tx := px % ts
  let ty := py % ts
  let pal := e >>> 12
  let tx := if e &&& 0x400#16 ≠ 0 then ts - 1 - tx else tx
  let ty := if e &&& 0x800#16 ≠ 0 then ts - 1 - ty else ty
  let bit := (ty * ts + tx) * bpp
  let b := c.vram ((lTileBase l + (e &&& 0x3FF#16).toNat * (ts * ts * bpp / 8) + bit / 8) &&&
    vramMask)
  if bpp = 8 then b
  else
    let v := b >>> (8 - bpp - (bit &&& 7)) &&& ones bpp
    if v ≠ 0 then BitVec.ofNat 8 (pal.toNat * 16 + v.toNat) else v

def bitmapValue (c : Card) (l : Bytes) (lx ly : Nat) : Byte :=
  let bpp := lBpp l
  let stride := lStride l
  let px := lx + lHScroll l
  let py := ly + lVScroll l
  if 0 ≤ px ∧ 0 ≤ py ∧ px < (stride * 8 / bpp : Nat) then
    let bit := px.toNat * bpp
    let b := c.vram ((lMapBase l + py.toNat * stride + bit / 8) &&& vramMask)
    if bpp = 8 then b
    else
      let v := b >>> (8 - bpp - (bit &&& 7)) &&& ones bpp
      if v ≠ 0 then BitVec.ofNat 8 ((lPalOfs l).toNat * 16 + v.toNat) else v
  else 0

def layerValue (c : Card) (l : Bytes) (lx ly : Nat) : Byte :=
  match lType l with
  | 0 => c.textValue l lx ly
  | 1 => c.tileValue l lx ly
  | 2 => c.bitmapValue l lx ly
  | _ => 0

end Card

/-- One of a layer's or a sprite's pixels put on the line; 0 is transparent. -/
def putPixel (scale p : Nat) (v : Byte) (idx : Line) : Line :=
  if v ≠ 0 then
    if scale = 1 then Function.update idx p v
    else Function.update (Function.update idx (2 * p) v) (2 * p + 1) v
  else idx

namespace Card

def layerLoop (c : Card) (l : Bytes) (scale ly lx : Nat) : Nat → Line → Line
  | 0, idx => idx
  | count + 1, idx =>
      c.layerLoop l scale ly (lx + 1) count (putPixel scale lx (c.layerValue l lx ly) idx)

def renderLayer (c : Card) (l : Bytes) (y : Nat) (idx : Line) : Line :=
  let scale := scaleOf (lHires l)
  c.layerLoop l scale (y / scale) 0 (vcWidth / scale) idx

end Card

/-- A sprite on the line: where its table entry is, and which of its rows the line shows. -/
structure LineSprite where
  attr : Nat
  row : Nat

namespace Card

def attrByte (c : Card) (attr i : Nat) : Byte := c.vram (attr + i)

def sprPrio (a : Bytes) : Nat := (a 6 >>> 6).toNat
def sprW (a : Bytes) : Nat := 8 <<< (a 6 &&& 3#8).toNat
def sprH (a : Bytes) : Nat := 8 <<< (a 6 >>> 2 &&& 3#8).toNat
def sprX (a : Bytes) : Int := s16 a 2
def sprY (a : Bytes) : Int := s16 a 4
def sprBpp (a : Bytes) : Nat := if (a 7).getLsbD 7 then 8 else 4
def sprImage (a : Bytes) : Nat := (be16 a 0).toNat * 32

def sprHires (c : Card) : Bool := (c.cfg 0x02).getLsbD 0

def spritePixel (c : Card) (a : Bytes) (row i : Nat) : Byte :=
  let w := sprW a
  let bpp := sprBpp a
  let col := if (a 6).getLsbD 4 then w - 1 - i else i
  let bit := (row * w + col) * bpp
  let b := c.vram ((sprImage a + bit / 8) &&& vramMask)
  if bpp = 8 then b
  else
    let v := b >>> (4 - (bit &&& 7)) &&& 15#8
    if v ≠ 0 then BitVec.ofNat 8 ((a 7 &&& 15#8).toNat * 16 + v.toNat) else v

/-- A sprite's row, from its column `i` on. -/
def spriteLoop (c : Card) (a : Bytes) (scale row i : Nat) : Nat → Line → Line
  | 0, idx => idx
  | count + 1, idx =>
      let sx := sprX a + i
      c.spriteLoop a scale row (i + 1) count
        (if sx < 0 ∨ (vcWidth / scale : Nat) ≤ sx then idx
        else putPixel scale sx.toNat (c.spritePixel a row i) idx)

/-- The sprites of a priority, the last first. -/
def renderSprites (c : Card) (list : List LineSprite) (prio : Nat) (idx : Line) : Line :=
  list.foldr
    (fun s idx =>
      let a := c.attrByte s.attr
      if sprPrio a ≠ prio then idx
      else c.spriteLoop a (scaleOf c.sprHires) s.row 0 (sprW a) idx)
    idx

/-- The table's sprites on a line, from entry `i` with `n` found already. -/
def lineSpritesFrom (c : Card) (sy base i n : Nat) : Nat → List LineSprite
  | 0 => []
  | left + 1 =>
      if n < vcMaxLineSprites then
        let attr := (base + 8 * i) &&& vramMask
        if vcVramSize - 8 < attr then []
        else
          let a := c.attrByte attr
          if sprPrio a = 0 then c.lineSpritesFrom sy base (i + 1) n left
          else
            let top := sprY a
            let h := sprH a
            if (sy : Int) < top ∨ top + h ≤ sy then c.lineSpritesFrom sy base (i + 1) n left
            else
              let row := ((sy : Int) - top).toNat
              ⟨attr, if (a 6).getLsbD 5 then h - 1 - row else row⟩ ::
                c.lineSpritesFrom sy base (i + 1) (n + 1) left
      else []

def sprCount (c : Card) : Nat :=
  if 128 < (c.cfg 0x03).toNat then 128 else (c.cfg 0x03).toNat

def lineSprites (c : Card) (y : Nat) : List LineSprite :=
  if (c.cfg 0x00).getLsbD 3 then
    c.lineSpritesFrom (if c.sprHires then y else y / 2) (be24 c.cfg 0x04).toNat 0 0 c.sprCount
  else []

def layerCfg (c : Card) (layer i : Nat) : Byte := c.cfg (0x10 + 0x10 * layer + i)

def renderLayers (c : Card) (y : Nat) : Line :=
  (List.range 3).foldl
    (fun idx layer =>
      let idx := if (c.cfg 0x00).getLsbD layer then c.renderLayer (c.layerCfg layer) y idx else idx
      if (c.lineSprites y).length ≠ 0 then c.renderSprites (c.lineSprites y) (layer + 1) idx
      else idx)
    fun _ => 0

/-- A color of the palette. -/
def palette (c : Card) (v : Byte) : Word := be16 c.cfg (0x200 + 2 * v.toNat)

/-- One line of the picture. -/
def renderLine (c : Card) (y x : Nat) : Word :=
  let idx := c.renderLayers y
  c.palette (if idx x ≠ 0 then idx x else c.cfg 0x01)

end Card

end Pugputer.Vidcard
