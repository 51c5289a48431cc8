import Pugputer.Basic
import Pugputer.Asmlink.Arith

namespace Pugputer.Asmlink

/-! EXPR: a precedence climber that keeps left operands on the stack. -/

def EF_KNOWN : Byte := 0x01#8
def EF_INEXACT : Byte := 0x02#8
def EF_NORANGE : Byte := 0x04#8
def EF_UNDEF : Byte := 0x08#8
def EF_COMPLEX : Byte := 0x10#8

def MAXTERMS : Nat := 4
def TSZ : Nat := 6
def NAMEMAX : Nat := 63

def EPOPER : Nat := 8 + MAXTERMS * TSZ

def OP_PLUS : Byte := 1#8
def OP_MINUS : Byte := 2#8
def OP_TIMES : Byte := 3#8
def OP_DIV : Byte := 4#8
def OP_MOD : Byte := 5#8
def OP_IDIV : Byte := 6#8
def OP_LAND : Byte := 7#8
def OP_LOR : Byte := 8#8
def OP_BAND : Byte := 9#8
def OP_BOR : Byte := 10#8
def OP_BXOR : Byte := 11#8

def ch (c : Char) : Byte := BitVec.ofNat 8 c.toNat

/-- Two characters (second 0 = none), the precedence, the code. -/
def OPTABLE : List (Byte × Byte × Byte × Byte) :=
  [(ch '+', 0#8, 100#8, OP_PLUS),
    (ch '-', 0#8, 100#8, OP_MINUS),
    (ch '*', 0#8, 150#8, OP_TIMES),
    (ch '/', 0#8, 150#8, OP_DIV),
    (ch '%', 0#8, 150#8, OP_MOD),
    (0x5C#8, 0#8, 150#8, OP_IDIV),
    (ch '&', ch '&', 25#8, OP_LAND),
    (ch '|', ch '|', 25#8, OP_LOR),
    (ch '&', 0#8, 50#8, OP_BAND),
    (ch '|', 0#8, 50#8, OP_BOR),
    (ch '!', 0#8, 50#8, OP_BOR),
    (ch '^', 0#8, 50#8, OP_BXOR)]

def issp (A : Byte) : Bool := A = ch ' ' || A = 9#8 || (10 ≤ A.toNat && A.toNat < 14)

def isdigit (A : Byte) : Bool := 0x30 ≤ A.toNat && A.toNat ≤ 0x39

def isalpha (A : Byte) : Bool :=
  (0x41 ≤ A.toNat && A.toNat ≤ 0x5A) || (0x61 ≤ A.toNat && A.toNat ≤ 0x7A)

def issym (A : Byte) : Bool :=
  isalpha A || isdigit A || A = ch '_' || A = ch '@' || A = ch '$' || A = ch '.' || A = ch '?'

def upcase (A : Byte) : Byte := if 0x61 ≤ A.toNat ∧ A.toNat ≤ 0x7A then A - 0x20#8 else A

/-- 99 for what is no digit. -/
def digitval (A : Byte) : Nat :=
  let A := (upcase A).toNat
  if 0x30 ≤ A ∧ A ≤ 0x39 then A - 0x30
  else if 0x41 ≤ A ∧ A ≤ 0x5A then A - (0x41 - 10)
  else 99

def isexpend (A : Byte) : Bool :=
  A = 0#8 || A = ch ')' || A = ch ',' || A = ch ']' || A = ch ';' || issp A

/-- The rest of a line, without the NUL at its end. -/
abbrev Chars := List Byte

/-- A character; `none` past the NUL. -/
def peek (X : Chars) (i : Nat) : Option Byte := (X ++ [0#8])[i]?

def leax (X : Chars) (i : Nat) : Option Chars := if i ≤ X.length then some (X.drop i) else none

/-- FINDOP: the precedence, the operator, and what is past it. -/
def findop : List (Byte × Byte × Byte × Byte) → Chars → Option (Option (Byte × Byte × Chars))
  | [], _ => some none
  | (c, d, A, B) :: rest, X =>
      (peek X 0).bind fun x =>
        if x ≠ c then findop rest X
        else if d = 0#8 then (leax X 1).map fun Y => some (A, B, Y)
        else
          (peek X 1).bind fun y =>
            if y ≠ d then findop rest X else (leax X 2).map fun Y => some (A, B, Y)

structure Value where
  EVAL : BitVec 32
  EVFLAGS : Byte
  EVADJ : BitVec 16
  EVNT : Vector Byte (1 + MAXTERMS * TSZ)

structure Parser extends Value where
  EXP : Chars
  S : List Byte
  DIV0 : Nat

/-- The value and KNOWN are as they were. -/
def Value.Same (v v' : Value) : Prop :=
  v'.EVAL = v.EVAL ∧ v'.EVFLAGS &&& EF_KNOWN = v.EVFLAGS &&& EF_KNOWN

/-- Where an expression stands.  Terms, which relocatable values have, leave the values alone. -/
structure Place where
  STARPC : BitVec 16
  PCX : Bool
  PCADJ : BitVec 16
  EXPW8 : Bool
  symvalue : Chars → Value
  tsect1 : Value → Value
  tscale : BitVec 16 → Value → Value
  aoterms : (op : Byte) → (left : List Byte) → Value → Value
  tsect1_same : ∀ v : Value, v.Same (tsect1 v)
  tscale_same : ∀ d (v : Value), v.Same (tscale d v)
  aoterms_same : ∀ op left (v : Value), v.Same (aoterms op left v)

/-! Numbers on the stack. -/

def quad (X : List Byte) : BitVec 32 :=
  BitVec.ofNat 32 ((X.getD 0 0#8).toNat * 2 ^ 24 + (X.getD 1 0#8).toNat * 2 ^ 16 +
    (X.getD 2 0#8).toNat * 2 ^ 8 + (X.getD 3 0#8).toNat)

def quadBytes (v : BitVec 32) : List Byte :=
  [BitVec.ofNat 8 (v.toNat / 2 ^ 24), BitVec.ofNat 8 (v.toNat / 2 ^ 16),
    BitVec.ofNat 8 (v.toNat / 2 ^ 8), BitVec.ofNat 8 v.toNat]

def wordBytes (v : BitVec 16) : List Byte :=
  [BitVec.ofNat 8 (v.toNat / 2 ^ 8), BitVec.ofNat 8 v.toNat]

/-- The operator A, B, then the left operand. -/
def Parser.pushOperand (p : Parser) (A B : Byte) : Parser :=
  { p with
    S := quadBytes p.EVAL ++ p.EVFLAGS :: (wordBytes p.EVADJ ++ (p.EVNT.toList ++ A :: B :: p.S)) }

/-- APPLYOP's flags and range, for the left operand at X. -/
def aoFlags (op : Byte) (X : List Byte) (v : Value) : Value :=
  let left := X.getD 4 0#8
  let adj := BitVec.ofNat 16 ((X.getD 5 0#8).toNat * 2 ^ 8 + (X.getD 6 0#8).toNat)
  let flags := left &&& v.EVFLAGS &&& EF_KNOWN |||
    (left ||| v.EVFLAGS) &&& (EF_UNDEF ||| EF_COMPLEX)
  let none := { v with EVFLAGS := flags ||| (EF_INEXACT ||| EF_NORANGE) }
  if (left ||| v.EVFLAGS) &&& EF_INEXACT = 0#8 then { v with EVFLAGS := flags }
  else if op = OP_PLUS then
    { v with
      EVFLAGS := flags ||| (left ||| v.EVFLAGS) &&& (EF_INEXACT ||| EF_NORANGE)
      EVADJ := adj + v.EVADJ }
  else if op = OP_MINUS then
    if v.EVFLAGS &&& EF_INEXACT = 0#8 then
      { v with EVFLAGS := flags ||| left &&& (EF_INEXACT ||| EF_NORANGE), EVADJ := adj }
    else if left &&& EF_INEXACT = 0#8 then none
    else if (left ||| v.EVFLAGS) &&& EF_NORANGE ≠ 0#8 then none
    else if adj ≠ v.EVADJ then none
    -- both, by the same amount: it cancels
    else { v with EVFLAGS := flags, EVADJ := 0#16 }
  else none

def truth (b : Bool) : BitVec 32 := if b then 1#32 else 0#32

/-- AO_VALUE. -/
def aoValue (op : Byte) (l r : BitVec 32) : BitVec 32 :=
  if op = OP_PLUS then l + r
  else if op = OP_MINUS then l - r
  else if op = OP_TIMES then MUL32 l r
  else if op = OP_DIV ∨ op = OP_IDIV then if r = 0#32 then 0#32 else (DIV32 l r).1
  else if op = OP_MOD then if r = 0#32 then 0#32 else (DIV32 l r).2
  else if op = OP_LAND then truth (l ≠ 0#32 && r ≠ 0#32)
  else if op = OP_LOR then truth (l ≠ 0#32 || r ≠ 0#32)
  else if op = OP_BAND then l &&& r
  else if op = OP_BOR then l ||| r
  else l ^^^ r

def isdiv (op : Byte) : Bool := op = OP_DIV || op = OP_IDIV || op = OP_MOD

def applyop (place : Place) (X : List Byte) (op : Byte) (p : Parser) : Parser :=
  let v := aoFlags op X p.toValue
  let v := if X.getD 7 0#8 ||| v.EVNT.toList.getD 0 0#8 = 0#8 then v else place.aoterms op X v
  { p with
    toValue := { v with EVAL := aoValue op (quad X) v.EVAL }
    DIV0 := if isdiv op && v.EVAL = 0#32 && v.EVFLAGS &&& EF_KNOWN ≠ 0#8 then p.DIV0 + 1
      else p.DIV0 }

/-! Terms.  A pair's first part is the carry. -/

def Parser.fail (p : Parser) : Option (Bool × Parser) := some (true, p)

def Parser.done (p : Parser) (X : Chars) : Option (Bool × Parser) := some (false, { p with EXP := X })

/-- PT_ADDR: the line's address. -/
def ptAddr (place : Place) (X : Chars) (p : Parser) : Option (Bool × Parser) :=
  (leax X 1).bind fun X =>
    let v := place.tsect1 { p.toValue with EVAL := place.STARPC.setWidth 32 }
    let v := if place.PCX then { v with EVADJ := place.PCADJ, EVFLAGS := EF_KNOWN ||| EF_INEXACT }
      else v
    { p with toValue := v }.done X

/-- A closing quote may follow. -/
def ptQuote (q : Byte) (X : Chars) (p : Parser) : Option (Bool × Parser) :=
  (peek X 0).bind fun A => if A = q then (leax X 1).bind p.done else p.done X

/-- "cc: two characters. -/
def ptDq (X : Chars) (p : Parser) : Option (Bool × Parser) :=
  (peek X 1).bind fun A =>
    if A = 0#8 then p.fail
    else
      (peek X 2).bind fun B =>
        if B = 0#8 then p.fail
        else
          (leax X 3).bind fun X =>
            ptQuote (ch '"') X { p with EVAL := BitVec.ofNat 32 (A.toNat * 2 ^ 8 + B.toNat) }

/-- 'c: a character. -/
def ptSq (X : Chars) (p : Parser) : Option (Bool × Parser) :=
  (peek X 1).bind fun B =>
    if B = 0#8 then p.fail
    else (leax X 2).bind fun X => ptQuote 0x27#8 X { p with EVAL := B.setWidth 32 }

def numacc (Y : BitVec 32) (B digit : Nat) : BitVec 32 :=
  MUL32 Y (BitVec.ofNat 32 B) + BitVec.ofNat 32 digit

/-- RADIXNUM. -/
def radixnum (B : Nat) : Chars → BitVec 32 → BitVec 32 × Chars
  | [], v => (v, [])
  | A :: X, v => if B ≤ digitval A then (v, A :: X) else radixnum B X (numacc v B (digitval A))

/-- PT_RADIX: X is at the prefix. -/
def ptRadix (B : Nat) (X : Chars) (p : Parser) : Option (Bool × Parser) :=
  (leax X 1).bind fun X =>
    (peek X 0).bind fun A =>
      let negative : Bool := A = ch '-'
      (if negative then leax X 1 else some X).bind fun X =>
        (peek X 0).bind fun A =>
          if B ≤ digitval A then p.fail
          else
            let (v, X) := radixnum B X 0#32
            { p with EVAL := if negative then NEG32 v else v }.done X

/-- NUMTYPE's bits, whether a B was just met, and the number in each base. -/
structure Number where
  isbin : Bool := true
  isoct : Bool := true
  isdec : Bool := true
  ishex : Bool := true
  NUMBIN : Bool := false
  bin : BitVec 32 := 0#32
  oct : BitVec 32 := 0#32
  dec : BitVec 32 := 0#32
  hex : BitVec 32 := 0#32

def isnumch (A : Byte) : Bool :=
  isdigit A || (0x41 ≤ A.toNat && A.toNat ≤ 0x46) || A = ch 'H' || A = ch 'O' || A = ch 'Q'

/-- PN_DIGIT: a digit is put into every base that has it; the others are out. -/
def pnDigit (d : Nat) (n : Number) : Number :=
  let n := if n.ishex then { n with hex := numacc n.hex 16 d } else n
  let n := if !n.isdec then n else if 9 < d then { n with isdec := false }
    else { n with dec := numacc n.dec 10 d }
  let n := if !n.isoct then n else if 7 < d then { n with isoct := false }
    else { n with oct := numacc n.oct 8 d }
  if !n.isbin then n else if 1 < d then { n with isbin := false }
  else { n with bin := numacc n.bin 2 d }

/-- PN_LOOP; `none` for TM_FAIL. -/
def pnLoop : Chars → Number → Option (BitVec 32 × Chars)
  | [], n => if n.NUMBIN then some (n.bin, []) else if n.isdec then some (n.dec, []) else none
  | c :: X, n =>
      let A := upcase c
      if !isnumch A then
        if n.NUMBIN then some (n.bin, c :: X) else if n.isdec then some (n.dec, c :: X) else none
      else
        -- anything after a B: it wasn't binary
        let n := if n.NUMBIN then { n with NUMBIN := false, isbin := false } else n
        if A = ch 'Q' ∨ A = ch 'O' then if n.isoct then some (n.oct, X) else none
        else if A = ch 'H' then if n.ishex then some (n.hex, X) else none
        else
          let n := if A = ch 'B' && n.isbin then
            { n with NUMBIN := true, isbin := true, isoct := false, isdec := false, ishex := true }
            else n
          let n := pnDigit (digitval A) n
          if !(n.isbin || n.isoct || n.isdec || n.ishex) then none else pnLoop X n

/-- PS_BRACE: how long a part in braces is, from past the brace. -/
def psBrace : Chars → Nat
  | [] => 1
  | c :: X => if c = ch '}' then 2 else 1 + psBrace X

/-- A {...} part belongs to the name. -/
def bracePart : Chars → Nat
  | c :: X => if c = ch '{' then psBrace X else 0
  | [] => 0

/-- PT_SYMNUM: a symbol, or a number without a prefix. -/
def ptSymnum (place : Place) (X : Chars) (p : Parser) : Option (Bool × Parser) :=
  let word := X.takeWhile issym
  let B := (word.length + bracePart (X.drop word.length)) % 256
  if B = 0 then p.fail
  else
    (peek X 0).bind fun A =>
      if !(word.contains (ch '$')) && isdigit A then
        match pnLoop X {} with
        | some (v, X) => { p with EVAL := v }.done X
        | none => p.fail
      else
        let B := min B NAMEMAX
        (leax X B).bind fun rest =>
          { p with toValue := place.symvalue (X.take B) }.done (rest.dropWhile issym)

/-- PTERM starts with a known 0. -/
def Parser.fresh (p : Parser) : Parser :=
  { p with EVAL := 0#32, EVFLAGS := EF_KNOWN, EVADJ := 0#16, EVNT := p.EVNT.set 0 0#8 }

/-- PTERM: lwasm's terms. -/
def pterm (place : Place) (X : Chars) (p : Parser) : Option (Bool × Parser) :=
  let p := p.fresh
  (peek X 0).bind fun A =>
    if A = ch '.' then
      (peek X 1).bind fun A => if isalpha A || isdigit A then ptSymnum place X p else ptAddr place X p
    else if A = ch '*' then ptAddr place X p
    else if A = ch '<' ∨ A = ch '>' then p.fail
    else if A = ch '"' then ptDq X p
    else if A = 0x27#8 then ptSq X p
    else if A = ch '&' then ptRadix 10 X p
    else if A = ch '%' then ptRadix 2 X p
    else if A = ch '$' then ptRadix 16 X p
    else if A = ch '0' then
      (peek X 1).bind fun A =>
        if A = ch 'x' ∨ A = ch 'X' then
          (peek X 2).bind fun A =>
            if 16 ≤ digitval A then ptSymnum place X p
            else
              (leax X 2).bind fun X =>
                let (v, X) := radixnum 16 X 0#32
                { p with EVAL := v }.done X
        else ptSymnum place X p
    else if A = ch '@' then
      (peek X 1).bind fun A =>
        if 0x30 ≤ A.toNat ∧ A.toNat ≤ 0x37 then ptRadix 8 X p else ptSymnum place X p
    else ptSymnum place X p

/-- TM_NEG's and TM_COM's ends. -/
def tmUnx (v : Value) : Value :=
  if v.EVFLAGS &&& EF_INEXACT = 0#8 then v else { v with EVFLAGS := v.EVFLAGS ||| EF_NORANGE }

def tmNeg (place : Place) (v : Value) : Value :=
  tmUnx (place.tscale 0xFFFF#16 { v with EVAL := NEG32 v.EVAL })

def tmCom (place : Place) (v : Value) : Value :=
  let v := { v with EVAL := ~~~v.EVAL }
  let v := if v.EVNT.toList.getD 0 0#8 = 0#8 then v
    else { v with EVFLAGS := v.EVFLAGS ||| EF_COMPLEX, EVNT := v.EVNT.set 0 0#8 }
  -- an 8-bit immediate: 8 bits wide
  tmUnx (if place.EXPW8 then { v with EVAL := v.EVAL &&& 0xFF#32 } else v)

mutual

/-- A is the lowest precedence to take; `none` without fuel, or past the line's NUL. -/
def exprp (place : Place) : (fuel : Nat) → (A : Byte) → Parser → Option (Bool × Parser)
  | 0, _, _ => none
  | fuel + 1, A, p =>
      (term place fuel p.EXP { p with S := A :: p.S }).bind fun (carry, p) =>
        if carry then { p with S := p.S.drop 1 }.fail else eploop place fuel p

def eploop (place : Place) : (fuel : Nat) → Parser → Option (Bool × Parser)
  | 0, _ => none
  | fuel + 1, p =>
      (peek p.EXP 0).bind fun A =>
        if isexpend A then some (false, { p with S := p.S.drop 1 })
        else
          (findop OPTABLE p.EXP).bind fun
            | none => { p with S := p.S.drop 1 }.fail
            | some (A, B, Y) =>
                -- not above the level we were called for
                if A.toNat ≤ (p.S.getD 0 0#8).toNat then some (false, { p with S := p.S.drop 1 })
                else
                  let p := { p with EXP := Y }.pushOperand A B
                  (exprp place fuel (p.S.getD EPOPER 0#8) p).bind fun (carry, p) =>
                    if carry then { p with S := (p.S.drop (EPOPER + 2)).drop 1 }.fail
                    else
                      let p := applyop place p.S (p.S.getD (EPOPER + 1) 0#8) p
                      eploop place fuel { p with S := p.S.drop (EPOPER + 2) }

/-- TERM, with the term at X. -/
def term (place : Place) : (fuel : Nat) → (X : Chars) → Parser → Option (Bool × Parser)
  | 0, _, _ => none
  | fuel + 1, X, p =>
      (peek X 0).bind fun A =>
        if A = 0#8 ∨ issp A ∨ A = ch ')' ∨ A = ch ']' then p.fail
        else if A = ch '(' then
          (leax X 1).bind fun X =>
            (exprp place fuel 0#8 { p with EXP := X }).bind fun (carry, p) =>
              if carry then p.fail
              else
                (peek p.EXP 0).bind fun A =>
                  if A ≠ ch ')' then p.fail else (leax p.EXP 1).bind p.done
        else if A = ch '+' then (leax X 1).bind fun X => term place fuel X p
        else if A = ch '-' then
          (leax X 1).bind fun X =>
            (exprp place fuel 200#8 { p with EXP := X }).bind fun (carry, p) =>
              if carry then p.fail else some (false, { p with toValue := tmNeg place p.toValue })
        else if A = ch '^' ∨ A = ch '~' then
          (leax X 1).bind fun X =>
            (exprp place fuel 200#8 { p with EXP := X }).bind fun (carry, p) =>
              if carry then p.fail else some (false, { p with toValue := tmCom place p.toValue })
        else pterm place X p

end

/-- EXPR. -/
def expr (place : Place) (fuel : Nat) (p : Parser) : Option (Bool × Parser) :=
  exprp place fuel 0#8 p

end Pugputer.Asmlink
