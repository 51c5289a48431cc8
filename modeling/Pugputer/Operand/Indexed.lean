import Pugputer.Basic

namespace Pugputer.Operand

/-! Indexed operands, from where their characters have been read to their bytes. -/

/-- REGS_IDX. -/
inductive Reg
  | X | Y | U | S | W | PCR | PC
  deriving DecidableEq, Repr

def Reg.rn : Reg → Byte
  | .X => 0
  | .Y => 1
  | .U => 2
  | .S => 3
  | .W => 4
  | .PCR => 5
  | .PC => 6

def Reg.idxreg4 : Reg → Bool
  | .PCR | .PC => false
  | _ => true

inductive Acc
  | A | B | D | E | F | W
  deriving DecidableEq, Repr

/-- ACCPB. -/
def Acc.pb : Acc → Byte
  | .A => 0x86
  | .B => 0x85
  | .D => 0x8B
  | .E => 0x87
  | .F => 0x8A
  | .W => 0x8E

/-- By how much a register moves: --R, -R, R, R+, R++. -/
inductive Step
  | minus2 | minus1 | zero | plus1 | plus2
  deriving DecidableEq, Repr

/-- INCDECPB. -/
def Step.pb : Step → Byte
  | .minus2 => 0x83
  | .minus1 => 0x82
  | .zero => 0x84
  | .plus1 => 0x80
  | .plus2 => 0x81

def Step.single (step : Step) : Bool := step = .plus1 || step = .minus1

/-- The size of an offset that is asked for: none, < (8 bits), > (16) or << (5). -/
inductive Size
  | auto | eight | sixteen | five
  deriving DecidableEq, Repr

inductive Indexed
  /-- ,R and its like. -/
  | incdec (r : Reg) (step : Step) (indirect : Bool)
  /-- A,R and its like. -/
  | acc (a : Acc) (r : Reg) (indirect : Bool)
  /-- n,R, where `zero` tells a 0 that stays an offset. -/
  | offset (size : Size) (zero : Bool) (r : Reg) (indirect : Bool)
  /-- [n]. -/
  | address (size : Size)
  deriving DecidableEq, Repr

inductive Err
  | BADOPND | ILL5 | NW8 | BYTEOVF | UNRESOLVED
  deriving DecidableEq, Repr

/-- An operand parsed: the post byte, and the size of its offset: −1 to be decided, 3 for 5 bits. -/
structure Form where
  IDXPB : Byte
  IDXLINT : Int
  IDXPCR : Bool
  deriving DecidableEq, Repr

def ind10 (indirect : Bool) (pb : Byte) : Byte := if indirect then pb ||| 0x10 else pb

def wpb (step : Step) (indirect : Bool) : Byte :=
  let A : Byte := if indirect then 0x90 else 0x8F
  match step with
  | .zero => A
  | .minus2 => A + 0x60
  | _ => A + 0x60 - 0x20

/-- The post byte of n,W with 16 bits. -/
def w16 (indirect : Bool) : Byte := if indirect then 0xB0 else 0xAF

def idxparse : Indexed → Except Err Form
  | .incdec r step indirect =>
      if !r.idxreg4 then .error .BADOPND
      else if (indirect || r = .W) && step.single then .error .BADOPND
      else
        .ok
          { IDXPB := if r = .W then wpb step indirect else ind10 indirect (step.pb ||| r.rn <<< 5)
            IDXLINT := 0
            IDXPCR := false }
  | .acc a r indirect =>
      if !r.idxreg4 || r = .W then .error .BADOPND
      else .ok { IDXPB := ind10 indirect (r.rn <<< 5) ||| a.pb, IDXLINT := 0, IDXPCR := false }
  | .offset size zero r indirect =>
      if size = .five && indirect then .error .ILL5
      else
        let decide : Form :=
          { IDXPB := (if indirect then 0x80 else 0) ||| r.rn ||| (if zero then 0x40 else 0)
            IDXLINT := -1
            IDXPCR := r = .PCR }
        match r, size with
        | .W, .eight => .error .NW8
        | .W, .five => .error .ILL5
        | .W, .sixteen => .ok { IDXPB := w16 indirect, IDXLINT := 2, IDXPCR := false }
        | .W, .auto => .ok { decide with IDXPB := (if indirect then 0x80 else 0) ||| 4 }
        | .PCR, .five | .PC, .five => .error .ILL5
        | .PCR, .eight | .PC, .eight => .ok { decide with IDXPB := ind10 indirect 0x8C, IDXLINT := 1 }
        | .PCR, .sixteen | .PC, .sixteen =>
            .ok { decide with IDXPB := ind10 indirect 0x8D, IDXLINT := 2 }
        | r, .eight => .ok { decide with IDXPB := ind10 indirect (0x88 ||| r.rn <<< 5), IDXLINT := 1 }
        | r, .sixteen => .ok { decide with IDXPB := ind10 indirect (0x89 ||| r.rn <<< 5), IDXLINT := 2 }
        | r, .five => .ok { decide with IDXPB := r.rn <<< 5, IDXLINT := 3 }
        | _, .auto => .ok decide
  | .address .eight => .error .BADOPND
  | .address .five => .error .ILL5
  | .address _ => .ok { IDXPB := 0x9F, IDXLINT := 2, IDXPCR := false }

/-- INRANGE: X + EVAL is 0..Y. -/
def inrange (X Y : ℕ) (EVAL : BitVec 32) : Bool := (EVAL + BitVec.ofNat 32 X).toNat ≤ Y

/-- The line that the operand is in, and the length of what comes before the post byte. -/
structure Line where
  LADDR : Word
  LPCX : Bool
  oplen : ℕ
  IDXELEN : ℕ

/-- An expression's value in the SIZE mode. -/
structure Sized where
  known : Bool
  inexact : Bool
  EVAL : BitVec 32

/-- A value less the address of the end of the line, `n` bytes after the opcode and what follows it. -/
def Line.relative (l : Line) (n : ℕ) (EVAL : BitVec 32) : BitVec 32 :=
  EVAL - (BitVec.ofNat 16 (l.oplen + l.IDXELEN + n) + l.LADDR).setWidth 32

def ir16 (f : Form) : Form :=
  let TMPB := f.IDXPB &&& 7
  let indirect := f.IDXPB.msb
  let A : Byte :=
    if TMPB ≤ 3 then ind10 indirect (0x89 ||| (f.IDXPB &&& 3) <<< 5)
    else if TMPB = 4 then w16 indirect
    else ind10 indirect 0x8D
  { f with IDXPB := A, IDXLINT := 2 }

def ir8 (f : Form) : Form :=
  let TMPB := f.IDXPB &&& 7
  let indirect := f.IDXPB.msb
  if TMPB ≤ 3 then { f with IDXPB := ind10 indirect (0x88 ||| (f.IDXPB &&& 3) <<< 5), IDXLINT := 1 }
  else if TMPB = 4 then { f with IDXPB := w16 indirect, IDXLINT := 2 } -- no 8 bits with W
  else { f with IDXPB := ind10 indirect 0x8C, IDXLINT := 1 }

/-- The offset's size, where none is asked for. -/
def idxresolve (l : Line) (s : Sized) (f : Form) : Form :=
  if !s.known || s.inexact then ir16 f
  else if f.IDXPCR && l.LPCX then ir16 f
  else
    let EVAL := if f.IDXPCR then l.relative 2 s.EVAL else s.EVAL
    let TMPB := f.IDXPB &&& 7
    let indirect := f.IDXPB.msb
    if EVAL = 0 ∧ TMPB ≤ 4 ∧ f.IDXPB &&& 0x40#8 = 0 then
      if TMPB = 4 then { f with IDXPB := if indirect then 0x90 else 0x8F, IDXLINT := 0 }
      else { f with IDXPB := ind10 indirect (0x84 ||| (f.IDXPB &&& 3) <<< 5), IDXLINT := 0 }
    else if !inrange 128 255 EVAL then ir16 f
    else if indirect || 3 < TMPB || !inrange 16 31 EVAL then ir8 f
    else
      { f with
        IDXPB := (f.IDXPB &&& 3) <<< 5 ||| (EVAL.setWidth 8 &&& 0x1F)
        IDXLINT := 0 }

def idxvalue (l : Line) (f : Form) (EVAL : BitVec 32) : BitVec 32 :=
  if f.IDXPCR then l.relative (1 + f.IDXLINT.toNat) EVAL else EVAL

/-- A 5-bit offset, as ID_FIVE has it: −16 to 15, or from $FFF0 up. -/
def fits5 (EVAL : BitVec 32) : Bool :=
  inrange 16 31 EVAL || (!EVAL.msb && 0xFFF0 ≤ EVAL.toNat)

/-- The post byte and the offset; the value is none where it is not known in the end. -/
def idEmit (l : Line) (value : Option (BitVec 32)) (f : Form) : Except Err (List Byte) :=
  if f.IDXLINT = 0 then .ok [f.IDXPB]
  else
    match value with
    | none => .error .UNRESOLVED
    | some value =>
        let EVAL := idxvalue l f value
        let low := EVAL.setWidth 8
        if f.IDXLINT = 3 then
          if fits5 EVAL then .ok [low &&& 0x1F ||| f.IDXPB] else .error .BYTEOVF
        else if f.IDXLINT = 1 then
          if inrange 128 255 EVAL then .ok [f.IDXPB, low] else .error .BYTEOVF
        else .ok [f.IDXPB, EVAL.extractLsb' 8 8, low]

def idBody (l : Line) (s : Sized) (value : Option (BitVec 32)) (f : Form) : Except Err (List Byte) :=
  idEmit l value (if f.IDXLINT < 0 then idxresolve l s f else f)

def assemble (l : Line) (s : Sized) (value : Option (BitVec 32)) (op : Indexed) :
    Except Err (List Byte) :=
  (idxparse op).bind (idBody l s value)

end Pugputer.Operand
