import Pugputer.Asmlink.Expr

namespace Pugputer.Asmlink

/-! The expressions that EXPR takes, what they are written as, and their values. -/

inductive BinOp
  | plus | minus | times | div | mod | idiv | land | lor | band | bor | bang | bxor
  deriving DecidableEq

namespace BinOp

def text : BinOp → Chars
  | plus => [ch '+']
  | minus => [ch '-']
  | times => [ch '*']
  | div => [ch '/']
  | mod => [ch '%']
  | idiv => [0x5C#8]
  | land => [ch '&', ch '&']
  | lor => [ch '|', ch '|']
  | band => [ch '&']
  | bor => [ch '|']
  | bang => [ch '!']
  | bxor => [ch '^']

def prec : BinOp → Nat
  | times | div | mod | idiv => 150
  | plus | minus => 100
  | band | bor | bang | bxor => 50
  | land | lor => 25

def divides : BinOp → Bool
  | div | mod | idiv => true
  | _ => false

/-- In two's complement; a quotient is truncated. -/
def apply (l r : BitVec 32) : BinOp → BitVec 32
  | plus => l + r
  | minus => l - r
  | times => l * r
  | div | idiv => if r = 0#32 then 0#32 else l.sdiv r
  | mod => if r = 0#32 then 0#32 else l.srem r
  | land => truth (l ≠ 0#32 && r ≠ 0#32)
  | lor => truth (l ≠ 0#32 || r ≠ 0#32)
  | band => l &&& r
  | bor | bang => l ||| r
  | bxor => l ^^^ r

/-- Its code in OPTABLE. -/
def code : BinOp → Byte
  | plus => OP_PLUS
  | minus => OP_MINUS
  | times => OP_TIMES
  | div => OP_DIV
  | mod => OP_MOD
  | idiv => OP_IDIV
  | land => OP_LAND
  | lor => OP_LOR
  | band => OP_BAND
  | bor | bang => OP_BOR
  | bxor => OP_BXOR

end BinOp

inductive UnOp
  | minus | tilde | caret | plus
  deriving DecidableEq

def UnOp.text : UnOp → Byte
  | minus => ch '-'
  | tilde => ch '~'
  | caret => ch '^'
  | plus => ch '+'

/-- A complement is 8 bits wide in an 8-bit immediate. -/
def UnOp.apply (w8 : Bool) (v : BitVec 32) : UnOp → BitVec 32
  | minus => -v
  | plus => v
  | tilde | caret => if w8 then ~~~v &&& 0xFF#32 else ~~~v

/-- At least one, and all of the radix. -/
def Digits (radix : Nat) := { ds : Chars // ds ≠ [] ∧ ∀ d ∈ ds, digitval d < radix }

def Digits.value {radix : Nat} (ds : Digits radix) : Nat :=
  ds.1.foldl (fun v d => v * radix + digitval d) 0

inductive Literal
  | dec (ds : Digits 10)
  | dollar (ds : Digits 16)
  | zerox (upper : Bool) (ds : Digits 16)
  | percent (ds : Digits 2)
  | octal (ds : Digits 8)
  | ampersand (ds : Digits 10)
  | suffixH (ds : Digits 16) (first : isdigit (ds.1.headD 0#8)) (upper : Bool)
  | suffixB (ds : Digits 2) (upper : Bool)
  | suffixO (ds : Digits 8) (upper : Bool)
  | suffixQ (ds : Digits 8) (upper : Bool)

namespace Literal

def text : Literal → Chars
  | dec ds => ds.1
  | dollar ds => ch '$' :: ds.1
  | zerox upper ds => ch '0' :: (if upper then ch 'X' else ch 'x') :: ds.1
  | percent ds => ch '%' :: ds.1
  | octal ds => ch '@' :: ds.1
  | ampersand ds => ch '&' :: ds.1
  | suffixH ds _ upper => ds.1 ++ [if upper then ch 'H' else ch 'h']
  | suffixB ds upper => ds.1 ++ [if upper then ch 'B' else ch 'b']
  | suffixO ds upper => ds.1 ++ [if upper then ch 'O' else ch 'o']
  | suffixQ ds upper => ds.1 ++ [if upper then ch 'Q' else ch 'q']

def value : Literal → Nat
  | dec ds | dollar ds | zerox _ ds | percent ds | octal ds | ampersand ds | suffixH ds _ _
  | suffixB ds _ | suffixO ds _ | suffixQ ds _ => ds.value

end Literal

/-- A symbol: symbol characters, and maybe a part in braces; not what is read as a number or
as an address. -/
structure IsName (word brace : Chars) : Prop where
  some : word ≠ []
  sym : ∀ c ∈ word, issym c
  braces : brace = [] ∨ ∃ inner, brace = ch '{' :: (inner ++ [ch '}']) ∧
    ∀ c ∈ inner, c ≠ ch '}' ∧ c ≠ 0#8
  short : (word ++ brace).length ≤ NAMEMAX
  dollar : word.headD 0#8 ≠ ch '$'
  point : word.headD 0#8 = ch '.' →
    isalpha ((word ++ brace).getD 1 0#8) ∨ isdigit ((word ++ brace).getD 1 0#8)
  octal : word.headD 0#8 = ch '@' →
    ¬(0x30 ≤ ((word ++ brace).getD 1 0#8).toNat ∧ ((word ++ brace).getD 1 0#8).toNat ≤ 0x37)
  digit : isdigit (word.headD 0#8) → ch '$' ∈ word
  hex : word.headD 0#8 = ch '0' → (word ++ brace).getD 1 0#8 ≠ ch 'x' ∧
    (word ++ brace).getD 1 0#8 ≠ ch 'X'

def Name := { n : Chars × Chars // IsName n.1 n.2 }

def Name.text (n : Name) : Chars := n.1.1 ++ n.1.2

inductive Expr
  | num (l : Literal)
  | char (c : { c : Byte // c ≠ 0#8 }) (closed : Bool)
  | chars (c d : { c : Byte // c ≠ 0#8 }) (closed : Bool)
  | star
  | sym (n : Name)
  | paren (e : Expr)
  | un (op : UnOp) (e : Expr)
  | bin (op : BinOp) (l r : Expr)

namespace Expr

def text : Expr → Chars
  | num l => l.text
  | char c closed => 0x27#8 :: c.1 :: if closed then [0x27#8] else []
  | chars c d closed => ch '"' :: c.1 :: d.1 :: if closed then [ch '"'] else []
  | star => [ch '*']
  | sym n => n.text
  | paren e => ch '(' :: (e.text ++ [ch ')'])
  | un op e => op.text :: e.text
  | bin op l r => l.text ++ (op.text ++ r.text)

variable (place : Place)

def value : Expr → BitVec 32
  | num l => BitVec.ofNat 32 l.value
  | char c _ => c.1.setWidth 32
  | chars c d _ => BitVec.ofNat 32 (c.1.toNat * 2 ^ 8 + d.1.toNat)
  | star => place.STARPC.setWidth 32
  | sym n => (place.symvalue n.text).EVAL
  | paren e => e.value
  | un op e => op.apply place.EXPW8 e.value
  | bin op l r => op.apply l.value r.value

/-- How often it divides by zero. -/
def zeros : Expr → Nat
  | num _ | char _ _ | chars _ _ _ | star | sym _ => 0
  | paren e | un _ e => e.zeros
  | bin op l r => l.zeros + r.zeros + if op.divides && r.value place = 0#32 then 1 else 0

def Known : Expr → Prop
  | sym n => (place.symvalue n.text).EVFLAGS.getLsbD 0 = true
  | num _ | char _ _ | chars _ _ _ | star => True
  | paren e | un _ e => e.Known
  | bin _ l r => l.Known ∧ r.Known

/-- Every operator outside of parentheses is of precedence `q` at least, and what is left of an
operator binds as much, what is right of it more. -/
def Fits : Nat → Expr → Prop
  | _, num _ | _, char _ _ | _, chars _ _ _ | _, star | _, sym _ => True
  | _, paren e => e.Fits 1
  | _, un _ e => e.Fits 201
  | q, bin op l r => q ≤ op.prec ∧ l.Fits op.prec ∧ r.Fits (op.prec + 1)

/-- No & just before another one, of a decimal number: that is &&. -/
def Clear : Expr → Prop
  | num _ | char _ _ | chars _ _ _ | star | sym _ => True
  | paren e | un _ e => e.Clear
  | bin op l r => l.Clear ∧ r.Clear ∧ (op = .band → r.text.head? ≠ some (ch '&'))

instance Known.decide : (e : Expr) → Decidable (e.Known place)
  | num _ | char _ _ | chars _ _ _ | star => .isTrue trivial
  | sym n => inferInstanceAs (Decidable ((place.symvalue n.text).EVFLAGS.getLsbD 0 = true))
  | paren e | un _ e => Known.decide e
  | bin _ l r => @instDecidableAnd _ _ (Known.decide l) (Known.decide r)

instance Fits.decide : (q : Nat) → (e : Expr) → Decidable (e.Fits q)
  | _, num _ | _, char _ _ | _, chars _ _ _ | _, star | _, sym _ => .isTrue trivial
  | _, paren e => Fits.decide 1 e
  | _, un _ e => Fits.decide 201 e
  | _, bin op l r =>
      @instDecidableAnd _ _ _ (@instDecidableAnd _ _ (Fits.decide op.prec l)
        (Fits.decide (op.prec + 1) r))

instance Clear.decide : (e : Expr) → Decidable e.Clear
  | num _ | char _ _ | chars _ _ _ | star | sym _ => .isTrue trivial
  | paren e | un _ e => Clear.decide e
  | bin _ l r =>
      @instDecidableAnd _ _ (Clear.decide l) (@instDecidableAnd _ _ (Clear.decide r) inferInstance)

end Expr

end Pugputer.Asmlink
