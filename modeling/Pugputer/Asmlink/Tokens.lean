import Mathlib.Data.List.GetD
import Pugputer.Asmlink.Grammar

namespace Pugputer.Asmlink

/-! Characters, operators, and operands on the stack. -/

/-- The characters that can come after a term. -/
def follows (c : Byte) : Bool :=
  isexpend c || c = ch '+' || c = ch '-' || c = ch '*' || c = ch '/' || c = ch '%' || c = 0x5C#8 ||
    c = ch '&' || c = ch '|' || c = ch '!' || c = ch '^'

/-- The characters that numbers, characters, addresses and symbols begin with. -/
def begins (c : Byte) : Bool :=
  issym c || c = ch '%' || c = ch '&' || c = 0x27#8 || c = ch '"' || c = ch '*'

theorem characters : ∀ c : Byte,
    (follows c = true → issym c = false ∧ c ≠ ch '{' ∧ c ≠ 0x27#8 ∧ c ≠ ch '"' ∧ digitval c = 99 ∧
      isnumch (upcase c) = false ∧ c ≠ ch 'x' ∧ c ≠ ch 'X' ∧ ¬(0x30 ≤ c.toNat ∧ c.toNat ≤ 0x37)) ∧
    (begins c = true → ¬(c = 0#8 ∨ issp c = true ∨ c = ch ')' ∨ c = ch ']') ∧ c ≠ ch '(' ∧
      c ≠ ch '+' ∧ c ≠ ch '-' ∧ ¬(c = ch '^' ∨ c = ch '~') ∧ c ≠ ch '|') := by
  decide

theorem follows_plain (c : Byte) (after : follows c = true) :
    issym c = false ∧ c ≠ ch '{' ∧ c ≠ 0x27#8 ∧ c ≠ ch '"' ∧ digitval c = 99 ∧
      isnumch (upcase c) = false := by
  obtain ⟨sym, brace, single, double, digit, num, -⟩ := (characters c).1 after
  exact ⟨sym, brace, single, double, digit, num⟩

theorem follows_more (c : Byte) (after : follows c = true) :
    c ≠ ch 'x' ∧ c ≠ ch 'X' ∧ ¬(0x30 ≤ c.toNat ∧ c.toNat ≤ 0x37) := by
  obtain ⟨-, -, -, -, -, -, more⟩ := (characters c).1 after
  exact more

theorem begins_plain (c : Byte) (start : begins c = true) :
    ¬(c = 0#8 ∨ issp c = true ∨ c = ch ')' ∨ c = ch ']') ∧ c ≠ ch '(' ∧ c ≠ ch '+' ∧ c ≠ ch '-' ∧
      ¬(c = ch '^' ∨ c = ch '~') ∧ c ≠ ch '|' :=
  (characters c).2 start

theorem digits : ∀ c : Byte,
    (digitval c < 16 → isnumch (upcase c) = true ∧ upcase c ≠ ch 'Q' ∧ upcase c ≠ ch 'O' ∧
      upcase c ≠ ch 'H' ∧ digitval (upcase c) = digitval c ∧ (upcase c = ch 'B' ↔ digitval c = 11) ∧
      issym c = true ∧ c ≠ ch '$' ∧ c ≠ ch 'x' ∧ c ≠ ch 'X' ∧ (digitval c < 10 → isdigit c = true) ∧
      (digitval c < 8 → 0x30 ≤ c.toNat ∧ c.toNat ≤ 0x37)) ∧
    (upcase c = ch 'B' → digitval c = 11) := by
  decide

theorem hex_digit (c : Byte) (digit : digitval c < 16) : isnumch (upcase c) = true ∧
    upcase c ≠ ch 'Q' ∧ upcase c ≠ ch 'O' ∧ upcase c ≠ ch 'H' ∧ digitval (upcase c) = digitval c ∧
    (upcase c = ch 'B' ↔ digitval c = 11) := by
  obtain ⟨num, notQ, notO, notH, same, isB, -⟩ := (digits c).1 digit
  exact ⟨num, notQ, notO, notH, same, isB⟩

theorem digit_char (c : Byte) (digit : digitval c < 16) : issym c = true ∧ c ≠ ch '$' ∧ c ≠ ch 'x' ∧
    c ≠ ch 'X' ∧ (digitval c < 10 → isdigit c = true) ∧
    (digitval c < 8 → 0x30 ≤ c.toNat ∧ c.toNat ≤ 0x37) := by
  obtain ⟨-, -, -, -, -, -, chars⟩ := (digits c).1 digit
  exact chars

theorem letter_B (c : Byte) (isB : upcase c = ch 'B') : digitval c = 11 :=
  (digits c).2 isB

theorem symbols : ∀ c : Byte,
    (issym c = true → c ≠ ch '$' → c ∉ [ch '*', ch '<', ch '>', ch '"', 0x27#8, ch '&', ch '%',
      ch '$']) ∧
    (isdigit c = true → digitval c < 16 ∧ c ≠ ch '.' ∧ c ≠ ch '@') := by
  decide

theorem sym_plain (c : Byte) (sym : issym c = true) (dollar : c ≠ ch '$') :
    c ∉ [ch '*', ch '<', ch '>', ch '"', 0x27#8, ch '&', ch '%', ch '$'] :=
  (symbols c).1 sym dollar

theorem digit_plain (c : Byte) (digit : isdigit c = true) :
    digitval c < 16 ∧ c ≠ ch '.' ∧ c ≠ ch '@' :=
  (symbols c).2 digit

/-- What comes after a term: nothing, an end, or an operator of precedence `q` at most. -/
inductive After (q : Nat) : Chars → Prop
  | nil : After q []
  | ends {c rest} (ends : isexpend c) : After q (c :: rest)
  | op {op : BinOp} {rest} (low : op.prec ≤ q)
      (band : op = .band → rest.head? ≠ some (ch '&'))
      (bor : op = .bor → rest.head? ≠ some (ch '|')) : After q (op.text ++ rest)

theorem After.mono {q q' : Nat} {rest : Chars} (after : After q rest) (le : q ≤ q') :
    After q' rest := by
  cases after with
  | nil => exact .nil
  | ends ends => exact .ends ends
  | op low band bor => exact .op (Nat.le_trans low le) band bor

theorem After.head {q : Nat} {rest : Chars} (after : After q rest) :
    rest = [] ∨ ∃ c tail, rest = c :: tail ∧ follows c = true := by
  cases after with
  | nil => exact .inl rfl
  | @ends c tail ends => exact .inr ⟨c, tail, rfl, by rw [follows, ends]; rfl⟩
  | @op op tail low band bor =>
      refine .inr ?_
      cases op <;> exact ⟨_, _, rfl, rfl⟩

theorem peek_zero (c : Byte) (X : Chars) : peek (c :: X) 0 = some c := rfl

theorem leax_one (c : Byte) (X : Chars) : leax (c :: X) 1 = some X :=
  if_pos (Nat.succ_le_succ (Nat.zero_le X.length))

theorem leax_length (X Y : Chars) : leax (X ++ Y) X.length = some Y := by
  rw [leax, if_pos (by rw [List.length_append]; exact Nat.le_add_right _ _), List.drop_left]

theorem peek_length (X Y : Chars) (i : Nat) : peek (X ++ Y) (X.length + i) = peek Y i := by
  rw [peek, List.append_assoc, List.getElem?_append_right (Nat.le_add_right _ _),
    Nat.add_sub_cancel_left]
  rfl

section

variable {c d A B x : Byte} {table : List (Byte × Byte × Byte × Byte)} {X : Chars}

theorem findop_skip (other : x ≠ c) :
    findop ((c, d, A, B) :: table) (x :: X) = findop table (x :: X) := by
  rw [findop, peek_zero, Option.bind_some, if_pos other]

theorem findop_one : findop ((c, 0#8, A, B) :: table) (c :: X) = some (some (A, B, X)) := by
  rw [findop, peek_zero, Option.bind_some, if_neg (not_not_intro rfl), if_pos rfl, leax_one]
  rfl

theorem findop_two (nonzero : d ≠ 0#8) :
    findop ((c, d, A, B) :: table) (c :: d :: X) = some (some (A, B, X)) := by
  have second : peek (c :: d :: X) 1 = some d := rfl
  have past : leax (c :: d :: X) 2 = some X := leax_length [c, d] X
  rw [findop, peek_zero, Option.bind_some, if_neg (not_not_intro rfl), if_neg nonzero, second,
    Option.bind_some, if_neg (not_not_intro rfl), past]
  rfl

theorem findop_not_two (nonzero : d ≠ 0#8) (other : X.head? ≠ some d) :
    findop ((c, d, A, B) :: table) (c :: X) = findop table (c :: X) := by
  have second : ∃ y, peek (c :: X) 1 = some y ∧ y ≠ d := by
    cases X with
    | nil => exact ⟨0#8, rfl, fun same => nonzero same.symm⟩
    | cons y X => exact ⟨y, rfl, fun same => other (congrArg some same)⟩
  obtain ⟨y, found, differs⟩ := second
  rw [findop, peek_zero, Option.bind_some, if_neg (not_not_intro rfl), if_neg nonzero, found,
    Option.bind_some, if_pos differs]

end

theorem findop_op (op : BinOp) (rest : Chars) (band : op = .band → rest.head? ≠ some (ch '&'))
    (bor : op = .bor → rest.head? ≠ some (ch '|')) :
    findop OPTABLE (op.text ++ rest) =
      some (some (BitVec.ofNat 8 op.prec, op.code, rest)) := by
  have amp : ch '&' ≠ 0#8 := by decide
  have bar : ch '|' ≠ 0#8 := by decide
  cases op with
  | plus => exact findop_one
  | band =>
      rw [BinOp.text, List.singleton_append, OPTABLE]
      simp (disch := decide) only [findop_skip]
      rw [findop_not_two amp (band rfl)]
      simp (disch := decide) only [findop_skip]
      exact findop_one
  | bor =>
      rw [BinOp.text, List.singleton_append, OPTABLE]
      simp (disch := decide) only [findop_skip]
      rw [findop_not_two bar (bor rfl)]
      simp (disch := decide) only [findop_skip]
      exact findop_one
  | land =>
      rw [BinOp.text, List.cons_append, List.singleton_append, OPTABLE]
      simp (disch := decide) only [findop_skip]
      exact findop_two amp
  | lor =>
      rw [BinOp.text, List.cons_append, List.singleton_append, OPTABLE]
      simp (disch := decide) only [findop_skip]
      exact findop_two bar
  | _ =>
      rw [BinOp.text, List.singleton_append, OPTABLE]
      simp (disch := decide) only [findop_skip]
      exact findop_one

/-! The stack frame. -/

theorem quad_quadBytes (v : BitVec 32) (X : List Byte) : quad (quadBytes v ++ X) = v := by
  have small := v.isLt
  apply BitVec.eq_of_toNat_eq
  rw [quad, quadBytes]
  simp only [List.cons_append, List.getD_cons_zero, List.getD_cons_succ, BitVec.toNat_ofNat]
  omega

section

variable (p : Parser) (A B : Byte)

theorem frame_length : (quadBytes p.EVAL ++ p.EVFLAGS :: (wordBytes p.EVADJ ++ p.EVNT.toList)).length =
    EPOPER := by
  rw [List.length_append, List.length_cons, List.length_append, Vector.length_toList]
  rfl

theorem pushOperand_eq : (p.pushOperand A B).S =
    (quadBytes p.EVAL ++ p.EVFLAGS :: (wordBytes p.EVADJ ++ p.EVNT.toList)) ++ A :: B :: p.S := by
  simp only [Parser.pushOperand, List.append_assoc, List.cons_append]

theorem pushOperand_oper : (p.pushOperand A B).S.getD EPOPER 0#8 = A ∧
    (p.pushOperand A B).S.getD (EPOPER + 1) 0#8 = B ∧
    (p.pushOperand A B).S.drop (EPOPER + 2) = p.S := by
  rw [pushOperand_eq]
  have length := frame_length p
  generalize quadBytes p.EVAL ++ p.EVFLAGS :: (wordBytes p.EVADJ ++ p.EVNT.toList) = frame at length
  rw [← length]
  refine ⟨?_, ?_, ?_⟩
  · rw [List.getD_append_right _ _ _ _ (Nat.le_refl _), Nat.sub_self]
    rfl
  · rw [List.getD_append_right _ _ _ _ (Nat.le_add_right _ 1), Nat.add_sub_cancel_left]
    rfl
  · rw [List.drop_length_add_append]
    rfl

theorem pushOperand_left : quad (p.pushOperand A B).S = p.EVAL ∧
    (p.pushOperand A B).S.getD 4 0#8 = p.EVFLAGS := by
  rw [pushOperand_eq, List.append_assoc]
  exact ⟨quad_quadBytes _ _, rfl⟩

end

/-! KNOWN is bit 0 of the flags. -/

theorem known_iff (b : Byte) : b &&& EF_KNOWN = 0#8 ↔ b.getLsbD 0 = false := by
  have one : b &&& EF_KNOWN = BitVec.setWidth 8 (BitVec.ofBool (b.getLsbD 0)) :=
    BitVec.and_one_eq_setWidth_ofBool_getLsbD
  rw [one]
  cases b.getLsbD 0 <;> decide

/-- Another flag. -/
theorem flag_known {f : Byte} (b : Byte) (other : f &&& EF_KNOWN = 0#8) :
    (b ||| f) &&& EF_KNOWN = b &&& EF_KNOWN := by
  rw [BitVec.and_or_distrib_right, other, BitVec.or_zero]

theorem Value.Same.known {v v' : Value} (same : v.Same v') :
    v'.EVFLAGS.getLsbD 0 = v.EVFLAGS.getLsbD 0 := by
  have bit := congrArg (fun b => BitVec.getLsbD b 0) same.2
  rw [BitVec.getLsbD_and, BitVec.getLsbD_and] at bit
  have one : EF_KNOWN.getLsbD 0 = true := rfl
  rwa [one, Bool.and_true, Bool.and_true] at bit

theorem aoFlags_eval (op : Byte) (X : List Byte) (v : Value) : (aoFlags op X v).EVAL = v.EVAL := by
  rw [aoFlags]
  repeat' split
  all_goals rfl

theorem aoFlags_known {op : Byte} {X : List Byte} {v : Value}
    (left : (X.getD 4 0#8).getLsbD 0 = true) (right : v.EVFLAGS.getLsbD 0 = true) :
    (aoFlags op X v).EVFLAGS.getLsbD 0 = true := by
  have both (x : Byte) : ((X.getD 4 0#8 &&& v.EVFLAGS &&& EF_KNOWN ||| x).getLsbD 0) = true := by
    rw [BitVec.getLsbD_or, BitVec.getLsbD_and, BitVec.getLsbD_and, left, right]
    rfl
  have more (x y : Byte) : ((X.getD 4 0#8 &&& v.EVFLAGS &&& EF_KNOWN ||| x ||| y).getLsbD 0) = true := by
    rw [BitVec.getLsbD_or, both]
    rfl
  rw [aoFlags]
  repeat' split
  all_goals first | exact both _ | exact more _ _

theorem aoValue_code (op : BinOp) (l r : BitVec 32) : aoValue op.code l r = op.apply l r := by
  have division (f : BitVec 32 × BitVec 32 → BitVec 32) :
      (if r = 0#32 then 0#32 else f (DIV32 l r)) =
        if r = 0#32 then 0#32 else f (l.sdiv r, l.srem r) := by
    split
    · rfl
    · next nonzero => rw [DIV32_eq l r nonzero]
  cases op with
  | times => exact MUL32_eq l r
  | div => exact division Prod.fst
  | idiv => exact division Prod.fst
  | mod => exact division Prod.snd
  | _ => rfl

theorem isdiv_code (op : BinOp) : isdiv op.code = op.divides := by
  cases op <;> rfl

/-- What applying an operator leaves. -/
theorem applyop_spec {place : Place} {op : BinOp} {p p₁ : Parser}
    (left : p.EVFLAGS.getLsbD 0 = true) (right : p₁.EVFLAGS.getLsbD 0 = true) (A : Byte) :
    let q := applyop place (p.pushOperand A op.code).S op.code p₁
    q.EVAL = op.apply p.EVAL p₁.EVAL ∧ q.EVFLAGS.getLsbD 0 = true ∧ q.EXP = p₁.EXP ∧ q.S = p₁.S ∧
      q.DIV0 = p₁.DIV0 + if op.divides && p₁.EVAL = 0#32 then 1 else 0 := by
  obtain ⟨value, flags⟩ := pushOperand_left p A op.code
  generalize (p.pushOperand A op.code).S = X at value flags ⊢
  have bit : (X.getD 4 0#8).getLsbD 0 = true := by rw [flags, left]
  have combined : ∃ v : Value, v.EVAL = p₁.EVAL ∧ v.EVFLAGS.getLsbD 0 = true ∧
      applyop place X op.code p₁ =
        { p₁ with
          toValue := { v with EVAL := aoValue op.code (quad X) v.EVAL }
          DIV0 := if isdiv op.code && v.EVAL = 0#32 && v.EVFLAGS &&& EF_KNOWN ≠ 0#8 then p₁.DIV0 + 1
            else p₁.DIV0 } := by
    have eval := aoFlags_eval op.code X p₁.toValue
    have known : (aoFlags op.code X p₁.toValue).EVFLAGS.getLsbD 0 = true := aoFlags_known bit right
    by_cases plain : X.getD 7 0#8 ||| (aoFlags op.code X p₁.toValue).EVNT.toList.getD 0 0#8 = 0#8
    · refine ⟨aoFlags op.code X p₁.toValue, eval, known, ?_⟩
      rw [applyop, if_pos plain]
    · have same := place.aoterms_same op.code X (aoFlags op.code X p₁.toValue)
      refine ⟨place.aoterms op.code X (aoFlags op.code X p₁.toValue), same.1.trans eval,
        same.known.trans known, ?_⟩
      rw [applyop, if_neg plain]
  obtain ⟨v, eval, known, applied⟩ := combined
  have counted : (v.EVFLAGS &&& EF_KNOWN ≠ 0#8) = True :=
    eq_true fun zero => by
      rw [known_iff, known] at zero
      cases zero
  rw [applied, eval, value, aoValue_code, isdiv_code]
  refine ⟨rfl, known, rfl, rfl, ?_⟩
  simp only [counted, decide_true, Bool.and_true]
  split <;> rfl

end Pugputer.Asmlink
