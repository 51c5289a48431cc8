import Mathlib.Logic.Function.Basic
import Pugputer.Basic

namespace Pugputer.Sd

/-! The simulator's SD card: a disk image file behind four registers. -/

abbrev Block := Fin 512 → Byte

structure Image where
  size : Nat
  byte : Nat → Byte

namespace Image

/-- The 512 bytes from `pos` on. -/
def block (image : Image) (pos : Nat) : Block := fun i => image.byte (pos + i)

/-- A write past the end leaves a gap of zeros. -/
def write (image : Image) (pos : Nat) (data : Block) : Image where
  size := max image.size (pos + 512)
  byte i :=
    if inside : pos ≤ i ∧ i < pos + 512 then data ⟨i - pos, by omega⟩
    else if i < image.size then image.byte i
    else 0

end Image

structure SdCard where
  file : Option Image := none
  lba : Word := 0
  lbaHi : Word := 0
  buffer : Block := fun _ => 0
  cursor : Fin 512 := 0
  lastError : Bool := false
  cardPresent : Bool := true
  stuckBusy : Bool := false
  failReads : Int := 0
  failWrites : Int := 0
  failReadsAfter : Int := -1
  commands : Nat := 0

/-- A slot without an image. -/
def SdCard.absent : SdCard := {}

def staBusy : Byte := 0x01#8
def staCard : Byte := 0x02#8
def staError : Byte := 0x04#8
def cmdRead : Byte := 1#8
def cmdWrite : Byte := 2#8
def cmdSethi : Byte := 3#8

namespace SdCard

/-- The cursor stops at the last byte of the buffer. -/
def advance (d : SdCard) : SdCard :=
  if next : d.cursor.val + 1 < 512 then { d with cursor := ⟨d.cursor.val + 1, next⟩ } else d

def status (d : SdCard) : Byte :=
  (if d.stuckBusy then staBusy else 0#8) |||
    (if d.file.isSome && d.cardPresent then staCard else 0#8) |||
    (if d.lastError then staError else 0#8)

def read (d : SdCard) (offset : Word) : Byte × SdCard :=
  match offset.toNat with
  | 0 => (hiByte d.lba, d)
  | 1 => (loByte d.lba, d)
  | 2 => (d.buffer d.cursor, d.advance)
  | 3 => (d.status, d)
  | _ => (0xFF#8, d)

/-- A command that ends in the ERROR bit. -/
def failed (d : SdCard) : SdCard := { d with lastError := true, cursor := 0 }

/-- Where the addressed block starts in the image. -/
def pos (d : SdCard) : Nat := (d.lbaHi ++ d.lba).toNat * 512

def transfer (d : SdCard) (image : Image) (cmd : Byte) : SdCard :=
  if cmd = cmdRead then
    if d.pos + 512 ≤ image.size then { d with buffer := image.block d.pos, cursor := 0 }
    else { d with lastError := true, buffer := fun _ => 0, cursor := 0 }
  else if cmd = cmdWrite then
    { d with file := some (image.write d.pos d.buffer), cursor := 0 }
  else { d with cursor := 0 }

def doCommand (d : SdCard) (cmd : Byte) : SdCard :=
  let d := { d with lastError := false }
  if cmd = cmdSethi then { d with lbaHi := d.lba, cursor := 0 }
  else
    match d.file, d.cardPresent with
    | some image, true =>
        let d :=
          if cmd = cmdRead ∨ cmd = cmdWrite then { d with commands := d.commands + 1 } else d
        if cmd = cmdRead ∧ 0 ≤ d.failReadsAfter ∧ d.failReadsAfter < d.commands then d.failed
        else if cmd = cmdRead ∧ 0 < d.failReads then
          { d with failReads := d.failReads - 1 }.failed
        else if cmd = cmdWrite ∧ 0 < d.failWrites then
          { d with failWrites := d.failWrites - 1 }.failed
        else d.transfer image cmd
    | _, _ => d.failed

def write (d : SdCard) (offset : Word) (value : Byte) : SdCard :=
  match offset.toNat with
  | 0 => { d with lba := word value (loByte d.lba), cursor := 0 }
  | 1 => { d with lba := word (hiByte d.lba) value, cursor := 0 }
  | 2 => { d with buffer := Function.update d.buffer d.cursor value }.advance
  | 3 => d.doCommand value
  | _ => d

def reset (d : SdCard) : SdCard :=
  { d with lba := 0, lbaHi := 0, cursor := 0, buffer := fun _ => 0 }

end SdCard

end Pugputer.Sd
