import Pugputer.Hd6309.Ram
import Pugputer.Sd.Card

namespace Pugputer.Sd

open Hd6309 (Ram)

/-! The block driver of the BIOS. -/

def sdTries : Nat := 3
def sdTimeout : Nat := 0xFFFF
def exeMaxtop : Word := 0xF000#16

def errIoerr : Byte := 0x04#8
def errBadparam : Byte := 0x11#8
def errNocard : Byte := 0x13#8
def errTimeout : Byte := 0x14#8

/-- What the driver works on: the card and the caller's memory. -/
structure Sys where
  sd : SdCard
  ram : Ram

namespace Sys

def store (s : Sys) (offset : Word) (value : Byte) : Sys :=
  { s with sd := s.sd.write offset value }

/-- A word stored to SD_LBA. -/
def storeLba (s : Sys) (value : Word) : Sys :=
  (s.store 0 (hiByte value)).store 1 (loByte value)

/-- The high word, latched by SETHI, then the low word. -/
def address (s : Sys) (hi lo : Word) : Sys :=
  ((s.storeLba hi).store 3 cmdSethi).storeLba lo

/-- Polls of SD_CMDSTA until BUSY is clear; the status last read, if it is. -/
def wait : Nat → Sys → Option Byte × Sys
  | 0, s => (none, s)
  | polls + 1, s =>
      let (sta, sd) := s.sd.read 3
      let s := { s with sd }
      if sta &&& staBusy = 0 then (some sta, s) else wait polls s

/-- SDRD_LOOP: `count` bytes from SD_DATA to memory. -/
def receive : Nat → Word → Sys → Sys
  | 0, _, s => s
  | count + 1, y, s =>
      let (value, sd) := s.sd.read 2
      receive count (y + 1) { sd, ram := s.ram.set y value }

/-- SDWR_LOOP: `count` bytes from memory to SD_DATA. -/
def send : Nat → Word → Sys → Sys
  | 0, _, s => s
  | count + 1, y, s => send count (y + 1) (s.store 2 (s.ram y))

/-- SDRD_TRY, with B tries left. -/
def readTries (y : Word) : Nat → Sys → Except Byte Unit × Sys
  | 0, s => (.error errIoerr, s)
  | tries + 1, s =>
      match wait sdTimeout (s.store 3 cmdRead) with
      | (none, s) => (.error errTimeout, s)
      | (some sta, s) =>
          if sta &&& staCard = 0 then (.error errNocard, s)
          else if sta &&& staError = 0 then (.ok (), receive 512 y s)
          else readTries y tries s

def sdReadBlock32 (hi lo y : Word) (s : Sys) : Except Byte Unit × Sys :=
  readTries y sdTries (s.address hi lo)

def sdReadBlock (lo y : Word) (s : Sys) : Except Byte Unit × Sys :=
  sdReadBlock32 0 lo y s

/-- SDWR_TRY: every try streams the data in again. -/
def writeTries (y : Word) : Nat → Sys → Except Byte Unit × Sys
  | 0, s => (.error errIoerr, s)
  | tries + 1, s =>
      match wait sdTimeout ((send 512 y s).store 3 cmdWrite) with
      | (none, s) => (.error errTimeout, s)
      | (some sta, s) =>
          if sta &&& staError = 0 then (.ok (), s) else writeTries y tries s

def sdWriteBlock32 (hi lo y : Word) (s : Sys) : Except Byte Unit × Sys :=
  let (sta, sd) := s.sd.read 3
  let s := { s with sd }
  if sta &&& staCard = 0 then (.error errNocard, s)
  else writeTries y sdTries (s.address hi lo)

def sdWriteBlock (lo y : Word) (s : Sys) : Except Byte Unit × Sys :=
  sdWriteBlock32 0 lo y s

end Sys

/-- Whether BLK_CHKBUF leaves carry clear: no carry out of Y + 511, and the sum
below the ROM. -/
def blkChkbuf (y : Word) : Bool :=
  decide (y.toNat + 511 < 65536) && decide ((y + 511).toNat < exeMaxtop.toNat)

/-! The SWI2 handlers, on the caller's X, Y and W. -/

def blk (transfer : Sys → Except Byte Unit × Sys) (y : Word) (s : Sys) :
    Except Byte Unit × Sys :=
  if blkChkbuf y then transfer s else (.error errBadparam, s)

def biosBlkRead (x y : Word) : Sys → Except Byte Unit × Sys := blk (Sys.sdReadBlock x y) y

def biosBlkWrite (x y : Word) : Sys → Except Byte Unit × Sys := blk (Sys.sdWriteBlock x y) y

def biosBlkRead32 (w x y : Word) : Sys → Except Byte Unit × Sys :=
  blk (Sys.sdReadBlock32 w x y) y

def biosBlkWrite32 (w x y : Word) : Sys → Except Byte Unit × Sys :=
  blk (Sys.sdWriteBlock32 w x y) y

/-- The four block calls of the BIOS. -/
inductive Call
  | blkRead (x y : Word)
  | blkWrite (x y : Word)
  | blkRead32 (w x y : Word)
  | blkWrite32 (w x y : Word)
  deriving DecidableEq, Repr

def Call.perform : Call → Sys → Except Byte Unit × Sys
  | .blkRead x y => biosBlkRead x y
  | .blkWrite x y => biosBlkWrite x y
  | .blkRead32 w x y => biosBlkRead32 w x y
  | .blkWrite32 w x y => biosBlkWrite32 w x y

end Pugputer.Sd
