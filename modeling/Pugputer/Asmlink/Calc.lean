import Pugputer.Asmlink.Arith
import Pugputer.Hd6309.MultiPrecision

namespace Pugputer.Asmlink

/-! MUL32 and DIV32 as they are written, an instruction after another. -/

/-- The two numbers that NEG32 is pointed to. -/
inductive Cell where
  | MA
  | MB

/-- The registers, the direct page's numbers, and the stack from the caller's return address on. -/
structure Calc where
  D : Word
  W : Word
  X : Word
  C : Bool
  MA : BitVec 32
  MB : BitVec 32
  MQ : BitVec 32
  MSIGN : Byte
  S : List Word

namespace Calc

/-! The instructions. -/

/-- A sum and its carry. -/
def sum (a b : Word) (carryIn : Bool) : Word × Bool :=
  (BitVec.ofNat 16 (a.toNat + b.toNat + carryIn.toNat), a.toNat + b.toNat + carryIn.toNat > 0xFFFF)

/-- A difference and its borrow. -/
def difference (a b : Word) (borrowIn : Bool) : Word × Bool :=
  let diff : Int := (a.toNat : Int) - b.toNat - borrowIn.toNat
  (BitVec.ofInt 16 diff, diff < 0)

/-- A rotation to the left, through the carry. -/
def rol (v : Word) (carryIn : Bool) : Word × Bool :=
  (v <<< 1 ||| (if carryIn then 1 else 0), v.getLsbD 15)

variable (s : Calc)

def Q : BitVec 32 := s.D ++ s.W

def LDQ (v : BitVec 32) : Calc := { s with D := v.extractLsb' 16 16, W := v.extractLsb' 0 16 }

def CLRD : Calc := { s with D := 0, C := false }

def CLRW : Calc := { s with W := 0, C := false }

/-- ADDR W,W -/
def ADDR : Calc := { s with W := (sum s.W s.W false).1, C := (sum s.W s.W false).2 }

def ROLW : Calc := { s with W := (rol s.W s.C).1, C := (rol s.W s.C).2 }

def ROLD : Calc := { s with D := (rol s.D s.C).1, C := (rol s.D s.C).2 }

def ADDW (v : Word) : Calc := { s with W := (sum s.W v false).1, C := (sum s.W v false).2 }

def ADCD (v : Word) : Calc := { s with D := (sum s.D v s.C).1, C := (sum s.D v s.C).2 }

def SUBW (v : Word) : Calc :=
  { s with W := (difference s.W v false).1, C := (difference s.W v false).2 }

def SBCD (v : Word) : Calc :=
  { s with D := (difference s.D v s.C).1, C := (difference s.D v s.C).2 }

def A : Byte := hiByte s.D

def LDA (v : Byte) : Calc := { s with D := word v (loByte s.D) }

/-- PSHS D,X -/
def PSHS : Calc := { s with S := s.D :: s.X :: s.S }

/-- PULS D,X -/
def PULS : Calc :=
  match s.S with
  | D :: X :: S => { s with D, X, S }
  | _ => s

def PSHSW : Calc := { s with S := s.W :: s.S }

def PULSW : Calc :=
  match s.S with
  | W :: S => { s with W, S }
  | [] => s

/-- PSHS D -/
def pshsD : Calc := { s with S := s.D :: s.S }

/-- PULS D -/
def pulsD : Calc :=
  match s.S with
  | D :: S => { s with D, S }
  | [] => s

def get : Cell → BitVec 32
  | .MA => s.MA
  | .MB => s.MB

def set (v : BitVec 32) : Cell → Calc
  | .MA => { s with MA := v }
  | .MB => { s with MB := v }

/-! The routines. -/

def NEG32 (x : Cell) : Calc :=
  let s := s.pshsD.PSHSW.CLRD.CLRW
  let s := s.SUBW ((s.get x).extractLsb' 0 16)
  let s := s.SBCD ((s.get x).extractLsb' 16 16)
  (s.set s.Q x).PULSW.pulsD

/-- LDQ MA, ADDR W,W, ROLD, STQ MA -/
def doubleMA : Calc :=
  let s := (s.LDQ s.MA).ADDR.ROLD
  { s with MA := s.Q }

/-- LDQ MQ, ADDR W,W, ROLD, STQ MQ -/
def doubleMQ : Calc :=
  let s := (s.LDQ s.MQ).ADDR.ROLD
  { s with MQ := s.Q }

/-- LDQ MQ, ROLW, ROLD, STQ MQ -/
def rotateMQ : Calc :=
  let s := (s.LDQ s.MQ).ROLW.ROLD
  { s with MQ := s.Q }

/-- LDQ MA, ADDW MB+2, ADCD MB, STQ MA -/
def addMB : Calc :=
  let s := ((s.LDQ s.MA).ADDW (s.MB.extractLsb' 0 16)).ADCD (s.MB.extractLsb' 16 16)
  { s with MA := s.Q }

/-- LDQ MQ, SUBW MB+2, SBCD MB -/
def compareMB : Calc :=
  ((s.LDQ s.MQ).SUBW (s.MB.extractLsb' 0 16)).SBCD (s.MB.extractLsb' 16 16)

/-- STQ MQ, INC MA+3 -/
def takeMB : Calc :=
  { s with MQ := s.Q, MA := s.MA.extractLsb' 8 24 ++ (s.MA.extractLsb' 0 8 + 1#8) }

/-- A turn of ML_LOOP. -/
def mlTurn : Calc :=
  let s := s.doubleMA.doubleMQ
  let s := if s.C then s.addMB else s
  { s with X := s.X - 1 }

/-- A turn of DV_LOOP. -/
def dvTurn : Calc :=
  let s := s.doubleMA.rotateMQ.compareMB
  let s := if s.C then s else s.takeMB
  { s with X := s.X - 1 }

/-- Turns until X is 0, `none` if it is not after `fuel` of them. -/
def loop (turn : Calc → Calc) : (fuel : Nat) → Calc → Option Calc
  | 0, _ => none
  | fuel + 1, s => if (turn s).X = 0 then some (turn s) else loop turn fuel (turn s)

/-- Up to ML_LOOP. -/
def mlStart : Calc :=
  let s := s.PSHS.PSHSW
  let s := s.LDQ s.MA
  let s := { s with MQ := s.Q }
  let s := s.CLRD.CLRW
  { s with MA := s.Q, X := 32 }

def MUL32 (fuel : Nat) : Option Calc :=
  (loop mlTurn fuel s.mlStart).map fun s => s.PULSW.PULS

variable (address : Cell → Word)

/-- LDX #MA or #MB, JSR NEG32 -/
def negate (x : Cell) : Calc := NEG32 { s with X := address x } x

/-- LDA MSIGN, ORA or EORA, STA MSIGN -/
def signs (operation : Byte → Byte) : Calc :=
  let s := s.LDA s.MSIGN
  let s := s.LDA (operation s.A)
  { s with MSIGN := s.A }

/-- Up to DV_APOS. -/
def dvDividend : Calc :=
  let s := { s with MSIGN := 0 }
  if s.MA.msb then
    let s := s.negate address .MA
    -- COM MSIGN
    let s := { s with MSIGN := ~~~s.MSIGN, C := true }
    s.signs (· ||| 2#8)
  else s

/-- Up to DV_BPOS. -/
def dvDivisor : Calc :=
  if s.MB.msb then (s.negate address .MB).signs (· ^^^ 1#8) else s

/-- LDQ MQ, STQ MB -/
def storeRemainder : Calc :=
  let s := s.LDQ s.MQ
  { s with MB := s.Q }

/-- LDA MSIGN, BITA, and NEG32 where the bit is set. -/
def sign (bit : Byte) (x : Cell) : Calc :=
  let s := s.LDA s.MSIGN
  if s.A &&& bit = 0 then s else s.negate address x

/-- Up to DV_LOOP. -/
def dvStart : Calc :=
  let s := (s.PSHS.PSHSW.dvDividend address).dvDivisor address
  let s := s.CLRD.CLRW
  { s with MQ := s.Q, X := 32 }

def DIV32 (fuel : Nat) : Option Calc :=
  (loop dvTurn fuel (s.dvStart address)).map fun s =>
    ((s.storeRemainder.sign address 1#8 .MA).sign address 2#8 .MB).PULSW.PULS

/-! A word and its carry, as in the CPU. -/

theorem add16_sum {σ : Type} (a b : Word) (carryIn : Bool) (c : Hd6309.Cpu σ) :
    (Hd6309.add16 a b carryIn c).1 = (sum a b carryIn).1 ∧
      (Hd6309.add16 a b carryIn c).2.r.getFlag Hd6309.ccC = (sum a b carryIn).2 :=
  ⟨rfl, (Hd6309.arith_flags _ _ _ _ _).1⟩

theorem sub16_difference {σ : Type} (a b : Word) (borrowIn : Bool) (c : Hd6309.Cpu σ) :
    (Hd6309.sub16 a b borrowIn c).1 = (difference a b borrowIn).1 ∧
      (Hd6309.sub16 a b borrowIn c).2.r.getFlag Hd6309.ccC = (difference a b borrowIn).2 :=
  ⟨rfl, (Hd6309.arith_flags _ _ _ _ _).1⟩

theorem rmw16_rol {σ : Type} (v : Word) (c : Hd6309.Cpu σ) :
    (Hd6309.rmw16 .rol v c).1 = (rol v (c.r.getFlag Hd6309.ccC)).1 ∧
      (Hd6309.rmw16 .rol v c).2.r.getFlag Hd6309.ccC =
        (rol v (c.r.getFlag Hd6309.ccC)).2 :=
  ⟨rfl, (Hd6309.arith_flags _ _ _ _ _).1⟩

theorem sum_limb (a b : Word) (carryIn : Bool) :
    (sum a b carryIn).1.toNat + 65536 * (sum a b carryIn).2.toNat =
      a.toNat + b.toNat + carryIn.toNat := by
  have value := (Hd6309.add16_step a b carryIn Hd6309.blank).sum.value
  obtain ⟨result, carry⟩ := add16_sum a b carryIn Hd6309.blank
  rw [result, carry, Int.one_mul, Int.one_mul] at value
  change ((sum a b carryIn).1.toNat : Int) + (65536 * (sum a b carryIn).2.toNat : Nat) = _ at value
  omega

theorem difference_limb (a b : Word) (borrowIn : Bool) :
    (difference a b borrowIn).1.toNat + b.toNat + borrowIn.toNat =
      a.toNat + 65536 * (difference a b borrowIn).2.toNat := by
  have value := (Hd6309.sub16_step a b borrowIn Hd6309.blank).sum.value
  obtain ⟨result, borrow⟩ := sub16_difference a b borrowIn Hd6309.blank
  rw [result, borrow, Int.neg_mul, Int.neg_mul, Int.one_mul, Int.one_mul] at value
  change ((difference a b borrowIn).1.toNat : Int) +
    -((65536 * (difference a b borrowIn).2.toNat : Nat) : Int) = _ at value
  omega

/-- A rotation adds a number to itself. -/
theorem rol_eq_sum (v : Word) (carryIn : Bool) : rol v carryIn = sum v v carryIn := by
  have even : (v <<< 1) &&& 1#16 = 0#16 := by
    rw [BitVec.and_one_eq_setWidth_ofBool_getLsbD, BitVec.getLsbD_shiftLeft]
    rfl
  have doubled : (v <<< 1).toNat = 2 * v.toNat % 65536 := by
    rw [BitVec.toNat_shiftLeft, Nat.shiftLeft_eq, Nat.mul_comm]
  have top : v.getLsbD 15 = decide (32768 ≤ v.toNat) := BitVec.msb_eq_decide v
  refine Prod.ext (BitVec.eq_of_toNat_eq ?_) ?_
  · rw [sum, BitVec.toNat_ofNat]
    cases carryIn with
    | false =>
        change (v <<< 1 ||| 0#16).toNat = _
        rw [BitVec.or_zero, doubled, Bool.toNat_false]
        omega
    | true =>
        change (v <<< 1 ||| 1#16).toNat = _
        rw [← BitVec.add_eq_or_of_and_eq_zero _ _ even, BitVec.toNat_add, doubled, Bool.toNat_true]
        change (_ + 1) % 65536 = _
        omega
  · have bit := Bool.toNat_lt carryIn
    rw [rol, sum, top, decide_eq_decide]
    omega

theorem append_toNat (high low : Word) : (high ++ low).toNat = high.toNat * 65536 + low.toNat := by
  rw [BitVec.toNat_append, ← Nat.shiftLeft_add_eq_or_of_lt low.isLt, Nat.shiftLeft_eq]

theorem wide_sum (D W high low : Word) (carryIn : Bool) :
    ((sum D high (sum W low carryIn).2).1 ++ (sum W low carryIn).1).toNat +
        4294967296 * (sum D high (sum W low carryIn).2).2.toNat =
      (D ++ W).toNat + (high ++ low).toNat + carryIn.toNat := by
  have first := sum_limb W low carryIn
  have second := sum_limb D high (sum W low carryIn).2
  rw [append_toNat, append_toNat, append_toNat]
  omega

theorem wide_difference (D W high low : Word) :
    ((difference D high (difference W low false).2).1 ++ (difference W low false).1).toNat +
        (high ++ low).toNat =
      (D ++ W).toNat + 4294967296 * (difference D high (difference W low false).2).2.toNat := by
  have first := difference_limb W low false
  have second := difference_limb D high (difference W low false).2
  rw [Bool.toNat_false] at first
  rw [append_toNat, append_toNat, append_toNat]
  omega

theorem halves (v : BitVec 32) : v.extractLsb' 16 16 ++ v.extractLsb' 0 16 = v := by
  have small := v.isLt
  apply BitVec.eq_of_toNat_eq
  rw [append_toNat, BitVec.extractLsb'_toNat, BitVec.extractLsb'_toNat, Nat.shiftRight_zero,
    Nat.shiftRight_eq_div_pow]
  omega

/-! Q. -/

theorem Q_LDQ (v : BitVec 32) : (s.LDQ v).Q = v := halves v

/-- ADDW and ADCD. -/
theorem Q_add (v : BitVec 32) :
    ((s.ADDW (v.extractLsb' 0 16)).ADCD (v.extractLsb' 16 16)).Q = s.Q + v := by
  have value := wide_sum s.D s.W (v.extractLsb' 16 16) (v.extractLsb' 0 16) false
  have small := ((s.ADDW (v.extractLsb' 0 16)).ADCD (v.extractLsb' 16 16)).Q.isLt
  rw [halves, Bool.toNat_false] at value
  change ((s.ADDW (v.extractLsb' 0 16)).ADCD (v.extractLsb' 16 16)).Q.toNat + _ =
    s.Q.toNat + v.toNat at value
  apply BitVec.eq_of_toNat_eq
  rw [BitVec.toNat_add, ← value, Nat.add_mul_mod_self_left]
  exact (Nat.mod_eq_of_lt small).symm

/-- SUBW and SBCD. -/
theorem Q_subtract (v : BitVec 32) :
    ((s.SUBW (v.extractLsb' 0 16)).SBCD (v.extractLsb' 16 16)).Q = s.Q - v ∧
      ((s.SUBW (v.extractLsb' 0 16)).SBCD (v.extractLsb' 16 16)).C = decide (s.Q < v) := by
  have value := wide_difference s.D s.W (v.extractLsb' 16 16) (v.extractLsb' 0 16)
  have small := ((s.SUBW (v.extractLsb' 0 16)).SBCD (v.extractLsb' 16 16)).Q.isLt
  have less := v.isLt
  rw [halves] at value
  change ((s.SUBW (v.extractLsb' 0 16)).SBCD (v.extractLsb' 16 16)).Q.toNat + v.toNat =
    s.Q.toNat +
      4294967296 * ((s.SUBW (v.extractLsb' 0 16)).SBCD (v.extractLsb' 16 16)).C.toNat at value
  generalize (s.SUBW (v.extractLsb' 0 16)).SBCD (v.extractLsb' 16 16) = t at value small ⊢
  have whole := s.Q.isLt
  cases borrow : t.C with
  | false =>
      rw [borrow, Bool.toNat_false] at value
      refine ⟨?_, (decide_eq_false (BitVec.not_lt.mpr (BitVec.le_def.mpr (by omega)))).symm⟩
      apply BitVec.eq_of_toNat_eq
      rw [BitVec.toNat_sub]
      omega
  | true =>
      rw [borrow, Bool.toNat_true] at value
      refine ⟨?_, (decide_eq_true (BitVec.lt_def.mpr (by omega))).symm⟩
      apply BitVec.eq_of_toNat_eq
      rw [BitVec.toNat_sub]
      omega

/-- A number added to itself, and a bit that comes in. -/
theorem twice {v r : BitVec 32} {carryIn carry : Bool}
    (value : r.toNat + 4294967296 * carry.toNat = v.toNat + v.toNat + carryIn.toNat) :
    r = v <<< 1 + (if carryIn then 1#32 else 0#32) ∧ carry = v.msb := by
  have doubled : (v <<< 1).toNat = 2 * v.toNat % 2 ^ 32 := by
    rw [BitVec.toNat_shiftLeft, Nat.shiftLeft_eq, Nat.mul_comm]
  have bit : (if carryIn then 1#32 else 0#32).toNat = carryIn.toNat := by
    cases carryIn <;> rfl
  have comes := Bool.toNat_lt carryIn
  have small := r.isLt
  have less := v.isLt
  constructor
  · apply BitVec.eq_of_toNat_eq
    rw [BitVec.toNat_add, doubled, bit]
    omega
  · rw [BitVec.msb_eq_decide]
    cases carry with
    | false =>
        rw [Bool.toNat_false] at value
        exact (decide_eq_false (by omega)).symm
    | true =>
        rw [Bool.toNat_true] at value
        exact (decide_eq_true (by omega)).symm

/-- ADDR W,W and ROLD. -/
theorem Q_double : s.ADDR.ROLD.Q = s.Q <<< 1 ∧ s.ADDR.ROLD.C = s.Q.msb := by
  have value := wide_sum s.D s.W s.D s.W false
  rw [← rol_eq_sum s.D] at value
  obtain ⟨number, carry⟩ := twice value
  rw [if_neg Bool.false_ne_true, BitVec.add_zero] at number
  exact ⟨number, carry⟩

/-- ROLW and ROLD. -/
theorem Q_rotate : s.ROLW.ROLD.Q = s.Q <<< 1 + (if s.C then 1#32 else 0#32) := by
  have value := wide_sum s.D s.W s.D s.W s.C
  rw [← rol_eq_sum s.D, ← rol_eq_sum s.W] at value
  exact (twice value).1

/-! The loops. -/

/-- What a turn of either loop leaves alone. -/
structure Turned (s t : Calc) : Prop where
  X : t.X = s.X - 1
  MB : t.MB = s.MB
  MSIGN : t.MSIGN = s.MSIGN
  S : t.S = s.S

section Turns

variable {s} {turn : Calc → Calc} (turns : ∀ s, Turned s (turn s))

include turns

theorem turns_keep (n : Nat) :
    (turn^[n] s).MB = s.MB ∧ (turn^[n] s).MSIGN = s.MSIGN ∧ (turn^[n] s).S = s.S := by
  induction n generalizing s with
  | zero => exact ⟨rfl, rfl, rfl⟩
  | succ n ih =>
      obtain ⟨MB, MSIGN, S⟩ := ih (s := turn s)
      exact ⟨MB.trans (turns s).MB, MSIGN.trans (turns s).MSIGN, S.trans (turns s).S⟩

/-- X counts the turns. -/
theorem loop_turns {n fuel : Nat} (left : s.X.toNat = n + 1) (enough : n < fuel) :
    loop turn fuel s = some (turn^[n + 1] s) := by
  induction n generalizing s fuel with
  | zero =>
      obtain ⟨fuel, rfl⟩ := Nat.exists_eq_succ_of_ne_zero (Nat.ne_of_gt enough)
      have last : (turn s).X = 0 := by
        rw [(turns s).X, show s.X = 1#16 from BitVec.eq_of_toNat_eq left]
        rfl
      rw [loop, if_pos last]
      rfl
  | succ n ih =>
      obtain ⟨fuel, rfl⟩ := Nat.exists_eq_succ_of_ne_zero (Nat.ne_of_gt (Nat.zero_lt_of_lt enough))
      have next : (turn s).X.toNat = n + 1 := by
        have small := s.X.isLt
        rw [(turns s).X, BitVec.toNat_sub]
        change (65536 - 1 + _) % 65536 = _
        omega
      have more : ¬(turn s).X = 0 := by
        intro zero
        rw [zero] at next
        exact absurd next.symm (Nat.succ_ne_zero n)
      rw [loop, if_neg more]
      exact ih next (Nat.lt_of_succ_lt_succ enough)

end Turns

/-! A turn. -/

theorem doubleMA_double (s : Calc) :
    s.doubleMA.MA = s.MA <<< 1 ∧ s.doubleMA.C = s.MA.msb := by
  have doubled := (s.LDQ s.MA).Q_double
  rwa [Q_LDQ] at doubled

theorem doubleMQ_double (s : Calc) :
    s.doubleMQ.MQ = s.MQ <<< 1 ∧ s.doubleMQ.C = s.MQ.msb := by
  have doubled := (s.LDQ s.MQ).Q_double
  rwa [Q_LDQ] at doubled

theorem rotateMQ_rotate (s : Calc) :
    s.rotateMQ.MQ = s.MQ <<< 1 + (if s.C then 1#32 else 0#32) := by
  have rotated := (s.LDQ s.MQ).Q_rotate
  rwa [Q_LDQ] at rotated

theorem addMB_add (s : Calc) : s.addMB.MA = s.MA + s.MB := by
  have added := (s.LDQ s.MA).Q_add s.MB
  rwa [Q_LDQ] at added

theorem compareMB_compare (s : Calc) :
    s.compareMB.Q = s.MQ - s.MB ∧ s.compareMB.C = decide (s.MQ < s.MB) := by
  have compared := (s.LDQ s.MQ).Q_subtract s.MB
  rwa [Q_LDQ] at compared

/-- INC has no carry out of the byte of an even number. -/
theorem INC_even {v : BitVec 32} (even : v.toNat % 2 = 0) :
    v.extractLsb' 8 24 ++ (v.extractLsb' 0 8 + 1#8) = v + 1#32 := by
  have small := v.isLt
  have one : (1#8).toNat = 1 := rfl
  apply BitVec.eq_of_toNat_eq
  rw [BitVec.toNat_append, ← Nat.shiftLeft_add_eq_or_of_lt (BitVec.isLt _), Nat.shiftLeft_eq,
    BitVec.toNat_add, BitVec.toNat_add, BitVec.extractLsb'_toNat, BitVec.extractLsb'_toNat,
    Nat.shiftRight_zero, Nat.shiftRight_eq_div_pow, one]
  change _ = (_ + 1) % _
  omega

theorem mlTurn_turned (s : Calc) : Turned s s.mlTurn := by
  rw [mlTurn]
  split <;> exact ⟨rfl, rfl, rfl, rfl⟩

theorem dvTurn_turned (s : Calc) : Turned s s.dvTurn := by
  rw [dvTurn]
  split <;> exact ⟨rfl, rfl, rfl, rfl⟩

theorem mlTurn_numbers (s : Calc) :
    s.mlTurn.MA = (if s.MQ.msb then s.MA <<< 1 + s.MB else s.MA <<< 1) ∧
      s.mlTurn.MQ = s.MQ <<< 1 := by
  have product : s.doubleMA.doubleMQ.MA = s.MA <<< 1 := s.doubleMA_double.1
  obtain ⟨multiplier, top⟩ : s.doubleMA.doubleMQ.MQ = s.MQ <<< 1 ∧
    s.doubleMA.doubleMQ.C = s.MQ.msb := s.doubleMA.doubleMQ_double
  have sum : s.doubleMA.doubleMQ.addMB.MA = s.MA <<< 1 + s.MB := by
    rw [addMB_add, product]
    rfl
  rw [mlTurn, top]
  cases s.MQ.msb with
  | true => exact ⟨sum, multiplier⟩
  | false => exact ⟨product, multiplier⟩

theorem dvTurn_numbers (s : Calc) :
    let rest := s.MQ <<< 1 + if s.MA.msb then 1#32 else 0#32
    (s.dvTurn.MA, s.dvTurn.MQ) =
      if rest < s.MB then (s.MA <<< 1, rest) else (s.MA <<< 1 + 1#32, rest - s.MB) := by
  intro rest
  obtain ⟨dividend, top⟩ := s.doubleMA_double
  have rotated : s.doubleMA.rotateMQ.MQ = rest := by
    rw [rotateMQ_rotate, top]
    rfl
  obtain ⟨less, borrow⟩ := s.doubleMA.rotateMQ.compareMB_compare
  rw [rotated, show s.doubleMA.rotateMQ.MB = s.MB from rfl] at less borrow
  rw [dvTurn, borrow]
  by_cases goes : rest < s.MB
  · rw [if_pos goes, decide_eq_true goes, if_pos rfl]
    exact Prod.ext dividend rotated
  · rw [if_neg goes, decide_eq_false goes, if_neg Bool.false_ne_true]
    refine Prod.ext ?_ less
    change s.doubleMA.MA.extractLsb' 8 24 ++ (s.doubleMA.MA.extractLsb' 0 8 + 1#8) = _
    rw [dividend]
    exact INC_even (top_bit s.MA).2

theorem mlTurns (n : Nat) (s : Calc) : (mlTurn^[n] s).MA = mulLoop s.MB n s.MA s.MQ := by
  induction n generalizing s with
  | zero => rfl
  | succ n ih =>
      obtain ⟨MA, MQ⟩ := s.mlTurn_numbers
      rw [Function.iterate_succ_apply, ih, (mlTurn_turned s).MB, MA, MQ, mulLoop]

theorem dvTurns (n : Nat) (s : Calc) :
    ((dvTurn^[n] s).MA, (dvTurn^[n] s).MQ) = divLoop s.MB n s.MA s.MQ := by
  induction n generalizing s with
  | zero => rfl
  | succ n ih =>
      have numbers := s.dvTurn_numbers
      rw [Function.iterate_succ_apply, ih, (dvTurn_turned s).MB, divLoop]
      dsimp only at numbers ⊢
      generalize (s.MQ <<< 1 + if s.MA.msb then 1#32 else 0#32) = rest at numbers ⊢
      split at numbers
      · next goes =>
          rw [if_pos goes, (Prod.mk.inj numbers).1, (Prod.mk.inj numbers).2]
      · next stays =>
          rw [if_neg stays, (Prod.mk.inj numbers).1, (Prod.mk.inj numbers).2]

/-! Signs. -/

theorem Q_clear (s : Calc) : s.CLRD.CLRW.Q = 0#32 := by
  change 0#16 ++ 0#16 = 0#32
  decide

/-- The number at X alone changes, and C. -/
theorem NEG32_spec (s : Calc) (x : Cell) :
    s.NEG32 x = { s.set (Asmlink.NEG32 (s.get x)) x with C := (s.NEG32 x).C } := by
  obtain ⟨negative, -⟩ := s.pshsD.PSHSW.CLRD.CLRW.Q_subtract (s.get x)
  rw [Q_clear] at negative
  cases x with
  | MA =>
      rw [Asmlink.NEG32, ← negative]
      rfl
  | MB =>
      rw [Asmlink.NEG32, ← negative]
      rfl

theorem A_LDA (s : Calc) (v : Byte) : (s.LDA v).A = v := hiByte_word v _

theorem signs_spec (s : Calc) (operation : Byte → Byte) :
    (s.signs operation).MSIGN = operation s.MSIGN := by
  rw [signs]
  dsimp only
  rw [A_LDA, A_LDA]

theorem negate_get (s : Calc) (x : Cell) :
    (s.negate address x).get x = Asmlink.NEG32 (s.get x) := by
  rw [negate, NEG32_spec]
  cases x <;> rfl

theorem negate_MA (s : Calc) : (s.negate address .MB).MA = s.MA := by
  rw [negate, NEG32_spec]
  rfl

theorem negate_MB (s : Calc) : (s.negate address .MA).MB = s.MB := by
  rw [negate, NEG32_spec]
  rfl

theorem negate_kept (s : Calc) (x : Cell) :
    (s.negate address x).MSIGN = s.MSIGN ∧ (s.negate address x).S = s.S := by
  rw [negate, NEG32_spec]
  cases x <;> exact ⟨rfl, rfl⟩

theorem dvDividend_spec (s : Calc) :
    (s.dvDividend address).MA = (if s.MA.msb then Asmlink.NEG32 s.MA else s.MA) ∧
      (s.dvDividend address).MSIGN = (if s.MA.msb then 0xFF#8 else 0#8) ∧
      (s.dvDividend address).MB = s.MB ∧ (s.dvDividend address).S = s.S := by
  rw [dvDividend]
  dsimp only
  cases s.MA.msb with
  | true =>
      rw [if_pos rfl, if_pos rfl, if_pos rfl, signs_spec, (negate_kept _ _ _).1]
      refine ⟨negate_get address _ .MA, ?_, negate_MB address _, (negate_kept address _ _).2⟩
      change ~~~0#8 ||| 2#8 = 255#8
      decide
  | false => exact ⟨rfl, rfl, rfl, rfl⟩

theorem dvDivisor_spec (s : Calc) :
    (s.dvDivisor address).MB = (if s.MB.msb then Asmlink.NEG32 s.MB else s.MB) ∧
      (s.dvDivisor address).MSIGN = (if s.MB.msb then s.MSIGN ^^^ 1#8 else s.MSIGN) ∧
      (s.dvDivisor address).MA = s.MA ∧ (s.dvDivisor address).S = s.S := by
  rw [dvDivisor]
  cases s.MB.msb with
  | true =>
      rw [if_pos rfl, if_pos rfl, if_pos rfl, signs_spec, (negate_kept _ _ _).1]
      exact ⟨negate_get address s .MB, rfl, negate_MA address s, (negate_kept address s _).2⟩
  | false => exact ⟨rfl, rfl, rfl, rfl⟩

theorem sign_get (s : Calc) (bit : Byte) (x : Cell) :
    (s.sign address bit x).get x =
      if s.MSIGN &&& bit = 0 then s.get x else Asmlink.NEG32 (s.get x) := by
  have same : (s.LDA s.MSIGN).get x = s.get x := by
    cases x <;> rfl
  rw [sign]
  rw [A_LDA]
  split
  · exact same
  · rw [negate_get, same]

theorem sign_kept (s : Calc) (bit : Byte) (x : Cell) :
    (s.sign address bit x).MSIGN = s.MSIGN ∧ (s.sign address bit x).S = s.S := by
  rw [sign]
  split
  · exact ⟨rfl, rfl⟩
  · exact negate_kept _ _ x

theorem sign_MB (s : Calc) (bit : Byte) : (s.sign address bit .MA).MB = s.MB := by
  rw [sign]
  split
  · rfl
  · exact negate_MB _ _

theorem sign_MA (s : Calc) (bit : Byte) : (s.sign address bit .MB).MA = s.MA := by
  rw [sign]
  split
  · rfl
  · exact negate_MA _ _

/-! The whole. -/

structure Restored (s t : Calc) : Prop where
  D : t.D = s.D
  W : t.W = s.W
  X : t.X = s.X
  S : t.S = s.S

theorem restores {s t : Calc} (saved : t.S = s.W :: s.D :: s.X :: s.S) :
    t.PULSW.PULS.MA = t.MA ∧ t.PULSW.PULS.MB = t.MB ∧ Restored s t.PULSW.PULS := by
  have first : t.PULSW = { t with W := s.W, S := s.D :: s.X :: s.S } := by
    rw [PULSW, saved]
  rw [first]
  exact ⟨rfl, rfl, rfl, rfl, rfl, rfl⟩

theorem MUL32_spec (s : Calc) {fuel : Nat} (enough : 32 ≤ fuel) :
    ∃ t, s.MUL32 fuel = some t ∧ t.MA = Asmlink.MUL32 s.MA s.MB ∧ Restored s t := by
  have run := loop_turns mlTurn_turned (s := s.mlStart) (n := 31) rfl enough
  obtain ⟨-, -, S⟩ := turns_keep mlTurn_turned (s := s.mlStart) 32
  have product := mlTurns 32 s.mlStart
  rw [show s.mlStart.MA = 0#32 from Q_clear _,
    show s.mlStart.MQ = s.MA from Q_LDQ s.PSHS.PSHSW s.MA] at product
  obtain ⟨MA, -, restored⟩ := restores (s := s) S
  refine ⟨(mlTurn^[32] s.mlStart).PULSW.PULS, ?_, MA.trans product, restored⟩
  rw [MUL32, run, Option.map_some]

theorem dvStart_spec (s : Calc) :
    (s.dvStart address).MA = (if s.MA.msb then Asmlink.NEG32 s.MA else s.MA) ∧
      (s.dvStart address).MB = (if s.MB.msb then Asmlink.NEG32 s.MB else s.MB) ∧
      (s.dvStart address).MQ = 0#32 ∧
      (s.dvStart address).MSIGN =
        (if s.MB.msb then (if s.MA.msb then 0xFF#8 else 0#8) ^^^ 1#8
        else if s.MA.msb then 0xFF#8 else 0#8) ∧
      (s.dvStart address).S = s.W :: s.D :: s.X :: s.S := by
  obtain ⟨dividend, sign, MB, S⟩ := dvDividend_spec address s.PSHS.PSHSW
  obtain ⟨divisor, both, MA, S'⟩ := dvDivisor_spec address (s.PSHS.PSHSW.dvDividend address)
  rw [MB] at divisor both
  rw [sign] at both
  exact ⟨MA.trans dividend, divisor, Q_clear _, both, S'.trans S⟩

/-- The two bits of MSIGN. -/
theorem sign_bits (first second : Bool) :
    ((if second then (if first then 0xFF#8 else 0#8) ^^^ 1#8
      else if first then 0xFF#8 else 0#8) &&& 1#8 = 0 ↔ (first ^^ second) = false) ∧
    ((if second then (if first then 0xFF#8 else 0#8) ^^^ 1#8
      else if first then 0xFF#8 else 0#8) &&& 2#8 = 0 ↔ first = false) := by
  revert first second
  decide

/-- After the loop. -/
theorem results_spec (s : Calc) :
    ((s.storeRemainder.sign address 1#8 .MA).sign address 2#8 .MB).MA =
        (if s.MSIGN &&& 1#8 = 0 then s.MA else Asmlink.NEG32 s.MA) ∧
      ((s.storeRemainder.sign address 1#8 .MA).sign address 2#8 .MB).MB =
        (if s.MSIGN &&& 2#8 = 0 then s.MQ else Asmlink.NEG32 s.MQ) ∧
      ((s.storeRemainder.sign address 1#8 .MA).sign address 2#8 .MB).S = s.S := by
  have quotient := sign_get address s.storeRemainder 1#8 .MA
  obtain ⟨MSIGN, S⟩ := sign_kept address s.storeRemainder 1#8 .MA
  have rest : (s.storeRemainder.sign address 1#8 .MA).MB = s.MQ :=
    (sign_MB address s.storeRemainder 1#8).trans (Q_LDQ s s.MQ)
  generalize s.storeRemainder.sign address 1#8 .MA = t at quotient MSIGN S rest ⊢
  have remainder := sign_get address t 2#8 .MB
  refine ⟨(sign_MA address t 2#8).trans quotient, ?_, (sign_kept address t 2#8 .MB).2.trans S⟩
  change _ = if t.MSIGN &&& 2#8 = 0 then t.MB else Asmlink.NEG32 t.MB at remainder
  rw [MSIGN, rest] at remainder
  exact remainder

theorem DIV32_spec (s : Calc) {fuel : Nat} (enough : 32 ≤ fuel) :
    ∃ t, s.DIV32 address fuel = some t ∧ (t.MA, t.MB) = Asmlink.DIV32 s.MA s.MB ∧
      Restored s t := by
  obtain ⟨MA, MB, MQ, MSIGN, S⟩ := dvStart_spec address s
  have run := loop_turns dvTurn_turned (s := s.dvStart address) (n := 31)
    rfl enough
  obtain ⟨-, signs, S'⟩ := turns_keep dvTurn_turned (s := s.dvStart address) 32
  have numbers := dvTurns 32 (s.dvStart address)
  rw [MA, MB, MQ] at numbers
  rw [MSIGN] at signs
  rw [S] at S'
  obtain ⟨quotientSign, restSign⟩ := sign_bits s.MA.msb s.MB.msb
  rw [← signs] at quotientSign restSign
  rw [DIV32, run, Option.map_some]
  change ∃ t, some (((dvTurn^[32] _).storeRemainder.sign address 1#8 .MA).sign address 2#8
    .MB).PULSW.PULS = some t ∧ _
  generalize dvTurn^[32] (s.dvStart address) = last at *
  obtain ⟨quotient, rest, S''⟩ := results_spec address last
  obtain ⟨MA', MB', restored⟩ := restores (s := s) (S''.trans S')
  refine ⟨_, rfl, ?_, restored⟩
  rw [MA', MB', quotient, rest, Asmlink.DIV32, ← numbers, if_congr quotientSign rfl rfl,
    if_congr restSign rfl rfl]
  dsimp only
  cases s.MA.msb ^^ s.MB.msb <;> cases s.MA.msb <;> rfl

end Calc

/-- Of signed numbers, the quotient truncated. -/
theorem arithmetic_32 (address : Cell → Word) (s : Calc) {fuel : Nat} (enough : 32 ≤ fuel) :
    (∃ t, s.MUL32 fuel = some t ∧ t.MA.toNat = s.MA.toNat * s.MB.toNat % 2 ^ 32 ∧
      s.Restored t) ∧
    (s.MB ≠ 0#32 → ∃ t, s.DIV32 address fuel = some t ∧
      t.MA = BitVec.ofInt 32 (s.MA.toInt.tdiv s.MB.toInt) ∧
      t.MB = BitVec.ofInt 32 (s.MA.toInt.tmod s.MB.toInt) ∧ s.Restored t) := by
  constructor
  · obtain ⟨t, run, product, restored⟩ := s.MUL32_spec enough
    refine ⟨t, run, ?_, restored⟩
    rw [product, MUL32_eq, BitVec.toNat_mul]
  · intro some_
    obtain ⟨t, run, results, restored⟩ := s.DIV32_spec address enough
    rw [DIV32_eq s.MA s.MB some_] at results
    refine ⟨t, run, ?_, ?_, restored⟩
    · rw [(Prod.mk.inj results).1]
      apply BitVec.eq_of_toInt_eq
      rw [BitVec.toInt_sdiv, BitVec.toInt_ofInt]
    · rw [(Prod.mk.inj results).2, ← BitVec.toInt_srem, BitVec.ofInt_toInt]

def operands (MA MB : BitVec 32) : Calc :=
  { D := 0x1234, W := 0x5678, X := 0x9ABC, C := true, MA, MB, MQ := 0, MSIGN := 0x55, S := [] }

/-- The lowest number by -1, and -7 by 2. -/
theorem arithmetic_32_lowest :
    (∃ t, (operands 0x80000000#32 0xFFFFFFFF#32).DIV32 (fun _ => 0) 32 = some t ∧
      t.MA = 0x80000000#32 ∧ t.MB = 0#32) ∧
    (∃ t, (operands 0xFFFFFFF9#32 2#32).DIV32 (fun _ => 0) 32 = some t ∧
      t.MA = 0xFFFFFFFD#32 ∧ t.MB = 0xFFFFFFFF#32 ∧ t.D = 0x1234 ∧ t.W = 0x5678 ∧
      t.X = 0x9ABC) := by
  obtain ⟨-, lowest⟩ := arithmetic_32 (fun _ => 0) (operands 0x80000000#32 0xFFFFFFFF#32)
    (Nat.le_refl 32)
  obtain ⟨-, seven⟩ := arithmetic_32 (fun _ => 0) (operands 0xFFFFFFF9#32 2#32) (Nat.le_refl 32)
  obtain ⟨t, run, quotient, rest, -⟩ := lowest (by decide)
  obtain ⟨t', run', quotient', rest', restored⟩ := seven (by decide)
  exact ⟨⟨t, run, quotient.trans (by decide), rest.trans (by decide)⟩,
    t', run', quotient'.trans (by decide), rest'.trans (by decide), restored.D, restored.W,
    restored.X⟩

end Pugputer.Asmlink
