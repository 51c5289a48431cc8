import Mathlib.Logic.Function.Basic
import Pugputer.Lib.Logged
import Pugputer.Srec.Record

namespace Pugputer.Srec

/-! The loader in the BIOS: `LOADER_START`, a received character at a time. -/

def escape : Byte := 27#8
def exeMaxtop : Nat := 0xF000

def msgPrompt : String := "Send S-Record now. '.' to run, ESC to cancel.\n\r"
def msgBadrec : String := " <- bad rec\n\r"
def msgCancel : String := "cancelled.\n\r"
def msgComplete : String := "transfer complete.\n\r"
def msgRun : String := "running...\n\r"

structure Loader where
  linbuf : Nat → Byte
  srecbuf : Nat → Byte
  srecchk : Byte
  srecbc : Byte
  hextmp : Byte
  sreclen : Nat
  userRam : Word
  ram : Nat → Byte
  /-- X less LINBUF, between two characters. -/
  x : Nat

/-- A store into memory, and what is sent to the UART. -/
inductive Effect where
  | linbuf (i : Nat)
  | srecbuf (i : Nat)
  /-- with the value USER_RAM has -/
  | ram (userRam : Word) (a : Nat) (v : Byte)
  | puts (text : List Byte)

abbrev Acting := Logged Effect

def utPuts (text : List Byte) (s : Loader) : Acting Loader := Logged.note (.puts text) s

def say (text : String) (s : Loader) : Acting Loader := utPuts (text.toList.map chr) s

namespace Loader

def storeLin (i : Nat) (v : Byte) (s : Loader) : Acting Loader :=
  Logged.note (.linbuf i) { s with linbuf := Function.update s.linbuf i v }

def storeRec (i : Nat) (v : Byte) (s : Loader) : Acting Loader :=
  Logged.note (.srecbuf i) { s with srecbuf := Function.update s.srecbuf i v }

def storeRam (a : Nat) (v : Byte) (s : Loader) : Acting Loader :=
  Logged.note (.ram s.userRam a v) { s with ram := Function.update s.ram a v }

/-- READHEXDIGIT at X, of the character there: the digit ORed into A, or A as it was. -/
def readhexdigit (c a : Byte) : Byte :=
  let d := c - chr '0'
  if d.msb then a
  else if d.sle 9 then a ||| d
  else
    let d := d - 7
    if d < 10 then a else if d.sle 0xF then a ||| d else a

/-- What HEXTMP holds after READHEXDIGIT. -/
def hextmpAfter (c hextmp : Byte) : Byte :=
  let d := c - chr '0'
  if d.msb then hextmp
  else if d.sle 9 then d
  else
    let d := d - 7
    if d < 10 then hextmp else if d.sle 0xF then d else hextmp

/-- SRECREAD at `x`: A, with the checksum run on. -/
def srecread (s : Loader) (x : Nat) : Byte × Loader :=
  let a := readhexdigit (s.linbuf x) 0
  let a := readhexdigit (s.linbuf (x + 1)) (a <<< 4)
  (a, { s with
    srecchk := a + s.srecchk
    hextmp := hextmpAfter (s.linbuf (x + 1)) (hextmpAfter (s.linbuf x) s.hextmp) })

/-- S_LEN, `none` if there is no end in sight. -/
def sLen (buf : Nat → Byte) (x : Nat) : Nat → Option Nat
  | 0 => none
  | fuel + 1 => if buf x = 0 then some x else sLen buf (x + 1) fuel

def octloop (x y : Nat) : Nat → Loader → Acting Loader
  | 0, s => pure s
  | b + 1, s => do
      let (a, s) := s.srecread x
      let s ← s.storeRec y a
      octloop (x + 2) (y + 1) b s

def xwrloop (x y : Nat) : Nat → Loader → Acting Loader
  | 0, s => pure s
  | b + 1, s => do
      let s ← s.storeRam y (s.srecbuf x)
      xwrloop (x + 1) (y + 1) b s

def endparse (s : Loader) : Acting Loader := pure { s with x := 0 }

def reject (s : Loader) : Acting Loader := do
  let s ← say msgBadrec s
  s.endparse

/-- S_HEXA's two characters. -/
def hexDigit (d : Byte) : Byte := if d ≤ 9 then d + chr '0' else d + 7 + chr '0'

def sHexa (x : Nat) (a : Byte) (s : Loader) : Acting Loader := do
  let s ← s.storeLin x (hexDigit (a >>> 4))
  s.storeLin (x + 1) (hexDigit (a &&& 0xF))

def badline (s : Loader) : Acting Loader := do
  let s ← s.sHexa 0 (s.srecbuf 0)
  let s ← s.sHexa 2 (s.srecbuf 1)
  let s ← s.storeLin 4 0
  let s ← utPuts ((List.range 4).map s.linbuf) s
  let s ← say msgBadrec s
  s.endparse

def goodline (s : Loader) : Acting Loader :=
  let y := word (s.srecbuf 0) (s.srecbuf 1)
  if y < s.userRam then s.reject
  else if exeMaxtop ≤ y.toNat then s.reject
  else
    let b := s.srecbc - 3
    if exeMaxtop < (y + b.signExtend 16).toNat then s.reject
    else do
      let s ← s.xwrloop 2 y.toNat b.toNat
      s.endparse

/-- From the count on. -/
def octets (s : Loader) : Acting Loader :=
  let (a, s) := { s with srecchk := 0 }.srecread 2
  let s := { s with srecbc := a }
  if a < 4 then s.reject
  else if 40 < a then s.reject
  else if s.sreclen < 2 * a.toNat + 4 then s.reject
  else do
    let s ← s.octloop 4 0 a.toNat
    if s.srecchk = 0xFF then s.goodline else s.badline

def gotSeof (s : Loader) : Acting Loader := do
  let s ← say msgComplete s
  s.endparse

def gotcr (s : Loader) : Acting Loader := do
  let s ← s.storeLin s.x 0
  match sLen s.linbuf 0 96 with
  | none => pure s
  | some len =>
      let s := { s with sreclen := len }
      if s.sreclen < 4 then s.endparse
      else if s.linbuf 0 ≠ chr 'S' then s.endparse
      else if s.linbuf 1 = chr '9' then s.gotSeof
      else if s.linbuf 1 ≠ chr '1' then s.endparse
      else s.octets

/-- A received character. What `JSR RUN_ADRS` runs is not the BIOS's: it may leave anything. -/
def key (program : Loader → Loader) (s : Loader) (c : Byte) : Acting Loader :=
  if c = escape then do
    let s ← say msgCancel s
    s.endparse
  else if c = chr '\r' then s.gotcr
  else if c = chr '.' then do
    let s ← say msgRun s
    (program s).endparse
  else if 95 ≤ s.x then pure s
  else do
    let s ← s.storeLin s.x c
    pure { s with x := s.x + 1 }

def keys (program : Loader → Loader) (stream : List Byte) (s : Loader) : Acting Loader :=
  stream.foldlM (key program) s

/-- LOADER_START: the prompt, then whatever is received. -/
def loaderStart (program : Loader → Loader) (stream : List Byte) (s : Loader) :
    Acting Loader := do
  let s ← say msgPrompt s
  let s ← s.endparse
  s.keys program stream

end Loader

end Pugputer.Srec
