import Pugputer.Vidcard.Card

namespace Pugputer.Vidcard

/-! The card as the CPU and its USB port see it: registers, the command being received, the
mouse and the key queue. -/

def vcHeight : Nat := 480
def vcResetTextMap : Nat := 0x038000
def vcResetFont : Nat := 0x03F000
def vcKeyQueue : Nat := 32

def vcIrqVsync : Byte := 0x01
def vcIrqLine : Byte := 0x02
def vcIrqCmdDone : Byte := 0x04
def vcIrqInput : Byte := 0x08

/-- Parameter bytes each command takes (after its opcode). -/
def kParams : List Nat := [0, 10, 1, 4, 8, 8, 8, 6, 6, 0, 9, 7, 14, 12, 4, 5]

structure VcCard where
  card : Card
  addr : Fin 2 → BitVec 24 := fun _ => 0
  inc : Fin 2 → Word := fun _ => 0
  ien : Byte := 0
  isr : Byte := 0
  frame : Byte := 0
  line : Word := 0
  irqLine : Word := 0
  cmd : Bytes := fun _ => 0
  cmdLen : Nat := 0
  inCtrl : Byte := 0
  mouseX : Word := 0
  mouseY : Word := 0
  snapX : Word := 0
  snapY : Word := 0
  buttons : Byte := 0
  wheel : Byte := 0
  mods : Byte := 0
  capsLock : Bool := false
  keyChar : Byte := 0
  keyq : Nat → Byte × Byte := fun _ => (0, 0)
  keyqHead : Nat := 0
  keyqLen : Nat := 0

/-! Reset. -/

def rgb565 (r g b : Nat) : Word := BitVec.ofNat 16 (r / 8 * 2048 + g / 4 * 32 + b / 8)

def base16 : List (Nat × Nat × Nat) :=
  [(0, 0, 0), (128, 0, 0), (0, 128, 0), (128, 128, 0), (0, 0, 128), (128, 0, 128), (0, 128, 128),
    (192, 192, 192), (128, 128, 128), (255, 0, 0), (0, 255, 0), (255, 255, 0), (0, 0, 255),
    (255, 0, 255), (0, 255, 255), (255, 255, 255)]

def cube : List Nat := [0, 95, 135, 175, 215, 255]

/-- The palette: xterm's 256 colors, so text colors are the ones ANSI terminals use. -/
def resetColor (i : Nat) : Word :=
  if i < 16 then
    let (r, g, b) := base16.getD i (0, 0, 0)
    rgb565 r g b
  else if i < 232 then
    rgb565 (cube.getD ((i - 16) / 36) 0) (cube.getD ((i - 16) / 6 % 6) 0) (cube.getD ((i - 16) % 6) 0)
  else rgb565 (8 + 10 * (i - 232)) (8 + 10 * (i - 232)) (8 + 10 * (i - 232))

def resetCfg : Bytes := fun a =>
  if 0x200 ≤ a then
    let color := resetColor ((a - 0x200) / 2)
    if a % 2 = 0 then hiByte color else loByte color
  else
    match a with
    | 0x00 => 0x01
    | 0x03 => 128
    | 0x04 => 0x03
    | 0x05 => 0x7C
    | 0x10 => 0x24 -- hires, 8x16 font
    | 0x11 => 0x02 -- 128 x 32
    | 0x12 => 0x03
    | 0x13 => 0x80
    | 0x15 => 0x03
    | 0x16 => 0xF0
    | _ => 0

/-- The font, and an empty 80x30 text screen (a 128x32 map) on layer 0. -/
def resetVram (font8x16 : Bytes) : Bytes := fun a =>
  if vcResetTextMap ≤ a ∧ a < vcResetTextMap + 4 * (128 * 32) then
    match (a - vcResetTextMap) % 4 with
    | 0 => 0x20
    | 1 => 7
    | _ => 0
  else if vcResetFont ≤ a ∧ a < vcResetFont + 256 * 16 then font8x16 (a - vcResetFont)
  else 0

namespace VcCard

def reset (font8x16 : Bytes) (c : VcCard) : VcCard :=
  { c with
    card :=
      { c.card with
        vram := resetVram font8x16
        cfg := resetCfg
        tAddr := 0
        tStride := 0
        tW := 0
        tH := 0
        tBpp := 8
        color := 15
        font := BitVec.ofNat 24 vcResetFont
        fontH := 16 }
    addr := fun _ => 0
    inc := fun _ => 1
    ien := 0
    isr := 0
    irqLine := 0
    cmdLen := 0
    inCtrl := 0
    wheel := 0
    keyChar := 0
    keyqHead := 0
    keyqLen := 0 }

/-! Registers. -/

def runCommand (c : VcCard) : Option VcCard :=
  (c.card.runCommand (c.cmd 0) fun i => c.cmd (i + 1)).map fun card => { c with card }

def commandByte (c : VcCard) (v : Byte) : Option VcCard :=
  let c := { c with cmd := Function.update c.cmd c.cmdLen v, cmdLen := c.cmdLen + 1 }
  let need := kParams.getD (c.cmd 0).toNat 0 -- an unknown opcode is one byte
  if need < c.cmdLen then
    c.runCommand.map fun c => { c with cmdLen := 0, isr := c.isr ||| vcIrqCmdDone }
  else some c

def setAddr (c : VcCard) (p : Fin 2) (a : BitVec 24) : VcCard :=
  { c with addr := Function.update c.addr p a }

def stepPort (c : VcCard) (p : Fin 2) : VcCard :=
  c.setAddr p (c.addr p + (c.inc p).signExtend 24)

/-- A register's value, and what reading it does. -/
def read (c : VcCard) (reg : Byte) : Byte × VcCard :=
  let p : Fin 2 := if 0x06 ≤ (reg &&& 0x1F#8).toNat then 1 else 0
  match (reg &&& 0x1F#8).toNat with
  | 0x00 | 0x06 => ((c.addr p).extractLsb' 16 8, c)
  | 0x01 | 0x07 => ((c.addr p).extractLsb' 8 8, c)
  | 0x02 | 0x08 => ((c.addr p).extractLsb' 0 8, c)
  | 0x03 | 0x09 => (hiByte (c.inc p), c)
  | 0x04 | 0x0A => (loByte (c.inc p), c)
  | 0x05 | 0x0B => (c.card.peek (c.addr p).toNat, c.stepPort p)
  | 0x0D =>
      ((if vcHeight ≤ c.line.toNat then 0x80#8 else 0) ||| (if c.cmdLen ≠ 0 then 0x40#8 else 0) |||
        (if c.keyqLen ≠ 0 then 0x10#8 else 0), c)
  | 0x0E => (c.ien, c)
  | 0x0F => (c.isr, c)
  | 0x10 => (hiByte c.line, c)
  | 0x11 => (loByte c.line, c)
  | 0x13 => (c.frame, c)
  | 0x14 => (c.inCtrl, c)
  | 0x15 => (hiByte c.mouseX, { c with snapX := c.mouseX, snapY := c.mouseY })
  | 0x16 => (loByte c.snapX, c)
  | 0x17 => (hiByte c.snapY, c)
  | 0x18 => (loByte c.snapY, c)
  | 0x19 => (c.buttons, c)
  | 0x1A => (c.wheel, { c with wheel := 0 })
  | 0x1B =>
      if c.keyqLen = 0 then (0, { c with keyChar := 0 })
      else
        ((c.keyq c.keyqHead).1,
          { c with
            keyChar := (c.keyq c.keyqHead).2
            keyqHead := (c.keyqHead + 1) % vcKeyQueue
            keyqLen := c.keyqLen - 1 })
  | 0x1C => (c.keyChar, c)
  | 0x1D => (c.mods, c)
  | 0x1E => (0x56, c)
  | 0x1F => (0x11, c)
  | _ => (0, c)

def write (font8x16 : Bytes) (c : VcCard) (reg v : Byte) : Option VcCard :=
  let p : Fin 2 := if 0x06 ≤ (reg &&& 0x1F#8).toNat then 1 else 0
  match (reg &&& 0x1F#8).toNat with
  | 0x00 | 0x06 => some (c.setAddr p (v ++ (c.addr p).extractLsb' 0 16))
  | 0x01 | 0x07 =>
      some (c.setAddr p ((c.addr p).extractLsb' 16 8 ++ v ++ (c.addr p).extractLsb' 0 8))
  | 0x02 | 0x08 => some (c.setAddr p ((c.addr p).extractLsb' 8 16 ++ v))
  | 0x03 | 0x09 => some { c with inc := Function.update c.inc p (word v (loByte (c.inc p))) }
  | 0x04 | 0x0A => some { c with inc := Function.update c.inc p (word (hiByte (c.inc p)) v) }
  | 0x05 | 0x0B => some (stepPort { c with card := c.card.poke (c.addr p).toNat v } p)
  | 0x0C => some (if v.getLsbD 7 then c.reset font8x16 else c)
  | 0x0E => some { c with ien := v &&& 0x0F#8 }
  | 0x0F => some { c with isr := c.isr &&& ~~~v }
  | 0x10 => some { c with irqLine := word (v &&& 0x03#8) (loByte c.irqLine) }
  | 0x11 => some { c with irqLine := word (hiByte c.irqLine) v }
  | 0x12 => c.commandByte v
  | 0x14 =>
      let c := { c with inCtrl := v &&& 0x03#8 }
      some (if v.getLsbD 7 then { c with keyqHead := 0, keyqLen := 0 } else c)
  | _ => some c

/-! Input. -/

def mouseTo (c : VcCard) (x y : Int) (buttons : Byte) : VcCard :=
  let b := 0x80#8 ||| buttons &&& 0x07#8
  let x := BitVec.ofInt 16 (max 0 (min x 639))
  let y := BitVec.ofInt 16 (max 0 (min y 479))
  let isr := if x ≠ c.mouseX ∨ y ≠ c.mouseY ∨ b ≠ c.buttons then c.isr ||| vcIrqInput else c.isr
  { c with isr, mouseX := x, mouseY := y, buttons := b }

def mouseBy (c : VcCard) (dx dy : Int) (buttons : Byte) : VcCard :=
  c.mouseTo (c.mouseX.toNat + dx) (c.mouseY.toNat + dy) buttons

def mouseWheel (c : VcCard) (clicks : Int) : VcCard :=
  if clicks = 0 then c
  else
    { c with
      wheel := BitVec.ofInt 8 (max (-128) (min (c.wheel.toInt + clicks) 127))
      buttons := c.buttons ||| 0x80#8
      isr := c.isr ||| vcIrqInput }

end VcCard

/-- The characters keys type on a US keyboard, by usage code from $04 (A) to $38 (/):
unshifted, then shifted. -/
def kKeys : List Byte :=
  [0x61, 0x62, 0x63, 0x64, 0x65, 0x66, 0x67, 0x68, 0x69, 0x6A, 0x6B, 0x6C, 0x6D, 0x6E, 0x6F, 0x70,
    0x71, 0x72, 0x73, 0x74, 0x75, 0x76, 0x77, 0x78, 0x79, 0x7A, 0x31, 0x32, 0x33, 0x34, 0x35, 0x36,
    0x37, 0x38, 0x39, 0x30, 0x0D, 0x1B, 0x08, 0x09, 0x20, 0x2D, 0x3D, 0x5B, 0x5D, 0x5C, 0x23, 0x3B,
    0x27, 0x60, 0x2C, 0x2E, 0x2F]

def kShifted : List Byte :=
  [0x41, 0x42, 0x43, 0x44, 0x45, 0x46, 0x47, 0x48, 0x49, 0x4A, 0x4B, 0x4C, 0x4D, 0x4E, 0x4F, 0x50,
    0x51, 0x52, 0x53, 0x54, 0x55, 0x56, 0x57, 0x58, 0x59, 0x5A, 0x21, 0x40, 0x23, 0x24, 0x25, 0x5E,
    0x26, 0x2A, 0x28, 0x29, 0x0D, 0x1B, 0x08, 0x09, 0x20, 0x5F, 0x2B, 0x7B, 0x7D, 0x7C, 0x7E, 0x3A,
    0x22, 0x7E, 0x3C, 0x3E, 0x3F]

/-- And the keypad's, $54 (/) to $63 (.). -/
def kKeypad : List Byte :=
  [0x2F, 0x2A, 0x2D, 0x2B, 0x0D, 0x31, 0x32, 0x33, 0x34, 0x35, 0x36, 0x37, 0x38, 0x39, 0x30, 0x2E]

/-- The character of a key, with the modifiers held and Caps Lock as given. -/
def keyChar (mods : Byte) (capsLock : Bool) (usage : Byte) : Byte :=
  let shift : Bool := mods &&& 0x22#8 ≠ 0
  let u := usage.toNat
  let ch :=
    if 0x04 ≤ u ∧ u ≤ 0x38 then
      let shift := if u ≤ 0x1D ∧ capsLock then !shift else shift -- letters only
      (if shift then kShifted else kKeys).getD (u - 0x04) 0
    else if 0x54 ≤ u ∧ u ≤ 0x63 then kKeypad.getD (u - 0x54) 0
    else if u = 0x4C then 0x7F#8
    else 0
  if 0x40 ≤ ch.toNat ∧ ch.toNat < 0x7F ∧ mods &&& 0x11#8 ≠ 0 then ch &&& 0x1F#8 else ch

namespace VcCard

def modifier (c : VcCard) (usage : Byte) (down : Bool) : VcCard :=
  if 0xE0 ≤ usage.toNat ∧ usage.toNat ≤ 0xE7 then
    let bit := 1#8 <<< (usage.toNat - 0xE0)
    { c with mods := if down then c.mods ||| bit else c.mods &&& ~~~bit }
  else if usage = 0x39#8 ∧ down then { c with capsLock := !c.capsLock }
  else c

def key (c : VcCard) (usage : Byte) (down : Bool) : VcCard :=
  let c := c.modifier usage down
  if usage = 0 ∨ c.keyqLen = vcKeyQueue then c -- full: the event is lost
  else
    let char := Vidcard.keyChar c.mods c.capsLock usage ||| if down then 0 else 0x80#8
    { c with
      keyq := Function.update c.keyq ((c.keyqHead + c.keyqLen) % vcKeyQueue) (usage, char)
      keyqLen := c.keyqLen + 1
      isr := c.isr ||| vcIrqInput }

def irq (c : VcCard) : Bool := c.ien &&& c.isr ≠ 0

/-- Sprite 0 to the mouse, in the sprites' pixels. -/
def pointer (c : VcCard) : VcCard :=
  let hires := (c.card.cfg 0x02).getLsbD 0
  let a := (be24 c.card.cfg 0x04).toNat
  let x := if hires then c.mouseX else c.mouseX / 2
  let y := if hires then c.mouseY else c.mouseY / 2
  let vram := Function.update c.card.vram ((a + 2) % vcVramSize) (hiByte x)
  let vram := Function.update vram ((a + 3) % vcVramSize) (loByte x)
  let vram := Function.update vram ((a + 4) % vcVramSize) (hiByte y)
  let vram := Function.update vram ((a + 5) % vcVramSize) (loByte y)
  { c with card := { c.card with vram } }

def startVblank (c : VcCard) : VcCard :=
  let c := { c with isr := c.isr ||| vcIrqVsync, frame := c.frame + 1 }
  if c.inCtrl.getLsbD 0 then c.pointer else c

def reachLine (c : VcCard) : VcCard :=
  if c.line = c.irqLine then { c with isr := c.isr ||| vcIrqLine } else c

def beginLine (c : VcCard) (line : Word) : VcCard :=
  let c := { c with line }
  (if line.toNat = vcHeight then c.startVblank else c).reachLine

end VcCard

/-! Everything that happens to the card. -/

inductive Event where
  | read (reg : Byte)
  | write (reg v : Byte)
  | mouseTo (x y : Int) (buttons : Byte)
  | mouseBy (dx dy : Int) (buttons : Byte)
  | mouseWheel (clicks : Int)
  | key (usage : Byte) (down : Bool)
  | beginLine (line : Word)

namespace VcCard

def next (font8x16 : Bytes) (c : VcCard) : Event → Option VcCard
  | .read reg => some (c.read reg).2
  | .write reg v => c.write font8x16 reg v
  | .mouseTo x y buttons => some (c.mouseTo x y buttons)
  | .mouseBy dx dy buttons => some (c.mouseBy dx dy buttons)
  | .mouseWheel clicks => some (c.mouseWheel clicks)
  | .key usage down => some (c.key usage down)
  | .beginLine line => some (c.beginLine line)

end VcCard

end Pugputer.Vidcard
