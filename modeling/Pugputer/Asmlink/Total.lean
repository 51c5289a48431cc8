import Pugputer.Asmlink.Taken

namespace Pugputer.Asmlink

/-! EXPR on any text: it comes to an end, and the NUL is the last character it looks at. -/

variable {place : Place}

/-- It comes out; the stack is `S`, and without carry what is left is an end of `X`. -/
def Fine (X : Chars) (S : List Byte) (r : Option (Bool × Parser)) : Prop :=
  ∃ carry p, r = some (carry, p) ∧ p.S = S ∧ (carry = false → p.EXP <:+ X)

theorem Fine.fail (X : Chars) (p : Parser) : Fine X p.S p.fail :=
  ⟨true, p, rfl, rfl, by rintro ⟨⟩⟩

theorem Fine.done {X Y : Chars} (p : Parser) (suffix : Y <:+ X) : Fine X p.S (p.done Y) :=
  ⟨false, _, rfl, rfl, fun _ => suffix⟩

theorem Fine.mono {X Y : Chars} {S : List Byte} {r : Option (Bool × Parser)} (fine : Fine Y S r)
    (suffix : Y <:+ X) : Fine X S r := by
  obtain ⟨carry, p, same, stack, left⟩ := fine
  exact ⟨carry, p, same, stack, fun clear => (left clear).trans suffix⟩

theorem peek_cases (X : Chars) : X = [] ∧ peek X 0 = some 0#8 ∨
    ∃ c tail, X = c :: tail ∧ peek X 0 = some c := by
  cases X with
  | nil => exact .inl ⟨rfl, rfl⟩
  | cons c tail => exact .inr ⟨c, tail, rfl, rfl⟩

theorem radixnum_suffix (B : Nat) (X : Chars) (v : BitVec 32) : (radixnum B X v).2 <:+ X := by
  induction X generalizing v with
  | nil => exact List.suffix_refl []
  | cons c X ih =>
      rw [radixnum]
      split
      · exact List.suffix_refl _
      · exact (ih _).trans (List.suffix_cons c X)

theorem ptRadix_fine (B : Nat) (small : B ≤ 16) (c : Byte) (X : Chars) (p : Parser) :
    Fine X p.S (ptRadix B (c :: X) p) := by
  have numbers (Y : Chars) (sign : BitVec 32 → BitVec 32) (suffix : Y <:+ X) : Fine X p.S
      ((peek Y 0).bind fun A =>
        if B ≤ digitval A then p.fail
        else { p with EVAL := sign (radixnum B Y 0#32).1 }.done (radixnum B Y 0#32).2) := by
    obtain ⟨rfl, here⟩ | ⟨c, tail, rfl, here⟩ := peek_cases Y
    · have nul : digitval 0#8 = 99 := by decide
      rw [here, Option.bind_some, nul, if_pos (by omega)]
      exact .fail X p
    · rw [here, Option.bind_some]
      split
      · exact .fail X p
      · exact .done _ ((radixnum_suffix B (c :: tail) 0#32).trans suffix)
  rw [ptRadix, leax_one, Option.bind_some]
  obtain ⟨rfl, here⟩ | ⟨c, tail, rfl, here⟩ := peek_cases X
  · rw [here, Option.bind_some]
    exact numbers [] id (List.suffix_refl _)
  · rw [here, Option.bind_some]
    dsimp only
    split
    · rw [leax_one, Option.bind_some]
      exact numbers tail NEG32 (List.suffix_cons c tail)
    · rw [Option.bind_some]
      exact numbers (c :: tail) id (List.suffix_refl _)

theorem ptQuote_fine {quote : Byte} (nonzero : quote ≠ 0#8) (X : Chars) (p : Parser) :
    Fine X p.S (ptQuote quote X p) := by
  rw [ptQuote]
  obtain ⟨rfl, here⟩ | ⟨c, tail, rfl, here⟩ := peek_cases X
  · rw [here, Option.bind_some, if_neg fun same => nonzero same.symm]
    exact .done p (List.suffix_refl _)
  · rw [here, Option.bind_some]
    split
    · rw [leax_one]
      exact .done p (List.suffix_cons c tail)
    · exact .done p (List.suffix_refl _)

theorem ptSq_fine (c : Byte) (X : Chars) (p : Parser) : Fine X p.S (ptSq (c :: X) p) := by
  rw [ptSq, peek_second, Option.bind_some]
  split
  · exact .fail X p
  · cases X with
    | nil => next nonzero => exact absurd rfl nonzero
    | cons d X =>
        have past : leax (c :: d :: X) 2 = some X := leax_length [c, d] X
        rw [past, Option.bind_some]
        exact (ptQuote_fine (by decide) X _).mono (List.suffix_cons d X)

theorem ptDq_fine (c : Byte) (X : Chars) (p : Parser) : Fine X p.S (ptDq (c :: X) p) := by
  rw [ptDq, peek_second, Option.bind_some]
  split
  · exact .fail X p
  · cases X with
    | nil => next nonzero => exact absurd rfl nonzero
    | cons d X =>
        have third : peek (c :: d :: X) 2 = peek X 0 := peek_length [c, d] X 0
        rw [third]
        obtain ⟨rfl, here⟩ | ⟨e, tail, rfl, here⟩ := peek_cases X
        · rw [here, Option.bind_some, if_pos rfl]
          exact .fail _ p
        · rw [here, Option.bind_some]
          have past : leax (c :: d :: e :: tail) 3 = some tail := leax_length [c, d, e] tail
          split
          · exact .fail _ p
          · rw [past, Option.bind_some]
            exact (ptQuote_fine (by decide) tail _).mono
              ((List.suffix_cons e tail).trans (List.suffix_cons d _))

theorem ptAddr_fine (c : Byte) (X : Chars) (p : Parser) : Fine X p.S (ptAddr place (c :: X) p) := by
  rw [ptAddr, leax_one, Option.bind_some]
  exact .done _ (List.suffix_refl X)

/-- Where a number ends, there is a value or none. -/
theorem number_suffix {b d : Bool} {v w u : BitVec 32} {X Y Z : Chars} (suffix : X <:+ Z)
    (found : (if b then some (v, X) else if d then some (w, X) else none) = some (u, Y)) :
    Y <:+ Z := by
  split at found
  · cases found
    exact suffix
  · split at found
    · cases found
      exact suffix
    · cases found

theorem pnLoop_suffix {X Y : Chars} {n : Number} {v : BitVec 32}
    (found : pnLoop X n = some (v, Y)) : Y <:+ X := by
  induction X generalizing n with
  | nil =>
      rw [pnLoop] at found
      exact number_suffix (List.suffix_refl _) found
  | cons c X ih =>
      have one {b : Bool} {w : BitVec 32} (found : (if b then some (w, X) else none) = some (v, Y)) :
          Y <:+ c :: X := by
        split at found
        · rw [← (Prod.mk.inj (Option.some.inj found)).2]
          exact List.suffix_cons c X
        · cases found
      rw [pnLoop] at found
      dsimp only at found
      generalize (if n.NUMBIN then { n with NUMBIN := false, isbin := false } else n) = m at found
      split at found
      · exact number_suffix (List.suffix_refl _) found
      split at found
      · exact one found
      split at found
      · exact one found
      generalize pnDigit (digitval (upcase c)) _ = k at found
      split at found
      · cases found
      · exact (ih found).trans (List.suffix_cons c X)

/-- A number that begins with a digit takes it. -/
theorem pnLoop_digit_suffix {c : Byte} {X Y : Chars} {v : BitVec 32} (digit : isdigit c = true)
    (found : pnLoop (c :: X) {} = some (v, Y)) : Y <:+ X := by
  rw [pnLoop_digit (digit_plain c digit).1 rfl] at found
  exact pnLoop_suffix found

theorem psBrace_le (X : Chars) : psBrace X ≤ X.length + 1 := by
  induction X with
  | nil => exact Nat.le_refl 1
  | cons c X ih =>
      rw [psBrace, List.length_cons]
      split <;> omega

theorem bracePart_le (X : Chars) : bracePart X ≤ X.length := by
  cases X with
  | nil => exact Nat.le_refl 0
  | cons c X =>
      have le := psBrace_le X
      rw [bracePart, List.length_cons]
      split <;> omega

theorem ptSymnum_fine (X : Chars) (p : Parser) : Fine X.tail p.S (ptSymnum place X p) := by
  rw [ptSymnum]
  dsimp only
  have inside : (X.takeWhile issym).length + bracePart (X.drop (X.takeWhile issym).length) ≤
      X.length := by
    have le := bracePart_le (X.drop (X.takeWhile issym).length)
    have part := (List.takeWhile_prefix issym (l := X)).length_le
    rw [List.length_drop] at le
    omega
  generalize (X.takeWhile issym).length + bracePart (X.drop (X.takeWhile issym).length) = B at inside
  split
  · exact .fail _ p
  next some =>
  obtain ⟨rfl, here⟩ | ⟨c, tail, rfl, here⟩ := peek_cases X
  · rw [List.length_nil, Nat.le_zero] at inside
    rw [inside] at some
    exact absurd rfl some
  rw [here, Option.bind_some, List.tail_cons]
  split
  · next number =>
      rw [Bool.and_eq_true] at number
      split
      · next v Y found => exact .done _ (pnLoop_digit_suffix number.2 found)
      · exact .fail _ p
  · rw [leax, if_pos, Option.bind_some]
    · have positive : ∃ k, min (B % 256) NAMEMAX = k + 1 :=
        Nat.exists_eq_succ_of_ne_zero (by have max : NAMEMAX = 63 := rfl; omega)
      obtain ⟨k, size⟩ := positive
      rw [size, List.drop_succ_cons]
      exact .done _ ((List.dropWhile_suffix _).trans (List.drop_suffix _ _))
    · have less := Nat.mod_le B 256
      omega

theorem pterm_fine (X : Chars) (p : Parser) : Fine X.tail p.S (pterm place X p) := by
  have symnum : Fine X.tail p.fresh.S (ptSymnum place X p.fresh) := ptSymnum_fine X p.fresh
  rw [pterm]
  dsimp only
  obtain ⟨rfl, here⟩ | ⟨c, tail, rfl, here⟩ := peek_cases X
  · exact symnum
  rw [here, peek_second]
  simp only [Option.bind_some]
  have symnum : Fine tail p.S (ptSymnum place (c :: tail) p.fresh) := symnum
  by_cases point : c = ch '.'
  · rw [if_pos point]
    split
    · exact symnum
    · exact ptAddr_fine c tail p.fresh
  rw [if_neg point]
  by_cases star : c = ch '*'
  · rw [if_pos star]
    exact ptAddr_fine c tail p.fresh
  rw [if_neg star]
  by_cases forced : c = ch '<' ∨ c = ch '>'
  · rw [if_pos forced]
    exact .fail tail p.fresh
  rw [if_neg forced]
  by_cases double : c = ch '"'
  · rw [if_pos double]
    exact ptDq_fine c tail p.fresh
  rw [if_neg double]
  by_cases single : c = 0x27#8
  · rw [if_pos single]
    exact ptSq_fine c tail p.fresh
  rw [if_neg single]
  by_cases amp : c = ch '&'
  · rw [if_pos amp]
    exact ptRadix_fine 10 (by decide) c tail p.fresh
  rw [if_neg amp]
  by_cases percent : c = ch '%'
  · rw [if_pos percent]
    exact ptRadix_fine 2 (by decide) c tail p.fresh
  rw [if_neg percent]
  by_cases dollar : c = ch '$'
  · rw [if_pos dollar]
    exact ptRadix_fine 16 (by decide) c tail p.fresh
  rw [if_neg dollar]
  by_cases zero : c = ch '0'
  · rw [if_pos zero]
    split
    · next isX =>
        cases tail with
        | nil => exact absurd isX (by decide)
        | cons x tail =>
            have third : peek (c :: x :: tail) 2 = peek tail 0 := peek_length [c, x] tail 0
            have past : leax (c :: x :: tail) 2 = some tail := leax_length [c, x] tail
            obtain ⟨d, found⟩ : ∃ d, peek tail 0 = some d := by
              cases tail <;> exact ⟨_, rfl⟩
            rw [third, found, Option.bind_some]
            split
            · exact symnum
            · rw [past, Option.bind_some]
              exact .done { p.fresh with EVAL := (radixnum 16 tail 0#32).1 }
                ((radixnum_suffix 16 tail 0#32).trans (List.suffix_cons x tail))
    · exact symnum
  rw [if_neg zero]
  by_cases octal : c = ch '@'
  · rw [if_pos octal]
    split
    · exact ptRadix_fine 8 (by decide) c tail p.fresh
    · exact symnum
  · rw [if_neg octal]
    exact symnum

/-- An operator that is found is of some precedence, and at the start of the text. -/
theorem findop_fine {table : List (Byte × Byte × Byte × Byte)}
    (entries : ∀ e ∈ table, e.1 ≠ 0#8 ∧ 0 < e.2.2.1.toNat) (X : Chars) :
    ∃ r, findop table X = some r ∧ ∀ A B Y, r = some (A, B, Y) → 0 < A.toNat ∧ Y <:+ X.tail := by
  induction table with
  | nil => exact ⟨none, rfl, by rintro A B Y ⟨⟩⟩
  | cons e table ih =>
      obtain ⟨first, prec⟩ := entries e List.mem_cons_self
      obtain ⟨c, d, A, B⟩ := e
      have onward := ih fun e member => entries e (List.mem_cons_of_mem _ member)
      obtain ⟨rfl, here⟩ | ⟨x, tail, rfl, here⟩ := peek_cases X
      · rw [findop, here, Option.bind_some, if_pos fun same => first same.symm]
        exact onward
      rw [findop, here, Option.bind_some]
      split
      · exact onward
      split
      · rw [leax_one]
        refine ⟨_, rfl, ?_⟩
        rintro _ _ _ ⟨⟩
        exact ⟨prec, List.suffix_refl _⟩
      next nonzero =>
      rw [peek_second, Option.bind_some]
      split
      · exact onward
      next second =>
      cases tail with
      | nil => exact absurd (not_not.mp second).symm nonzero
      | cons y tail =>
          have past : leax (x :: y :: tail) 2 = some tail := leax_length [x, y] tail
          rw [past]
          refine ⟨_, rfl, ?_⟩
          rintro _ _ _ ⟨⟩
          exact ⟨prec, List.suffix_cons y tail⟩

theorem optable_entries : ∀ e ∈ OPTABLE, e.1 ≠ 0#8 ∧ 0 < e.2.2.1.toNat := by
  have all : OPTABLE.all (fun e => e.1 ≠ 0#8 && 0 < e.2.2.1.toNat) = true := rfl
  intro e member
  have entry := List.all_eq_true.mp all e member
  rw [Bool.and_eq_true] at entry
  exact ⟨of_decide_eq_true entry.1, of_decide_eq_true entry.2⟩

/-- The end of an expression: the NUL, or a character that no operator begins with. -/
def Stops (X : Chars) : Prop := ∀ c, X.head? = some c → isexpend c = true

def Ended (r : Option (Bool × Parser)) : Prop := ∀ p, r = some (false, p) → Stops p.EXP

theorem Ended.carry (p : Parser) : Ended p.fail := by
  rintro _ ⟨⟩

/-- EXPRP, given TERM and EPLOOP with less fuel. -/
theorem exprp_fine {fuel : Nat} {A : Byte} {p : Parser}
    (terms : ∀ p' : Parser, Fine p.EXP.tail p'.S (term place fuel p.EXP p'))
    (loops : ∀ p' : Parser, p'.S = A :: p.S → p'.EXP <:+ p.EXP.tail →
      Fine p'.EXP p.S (eploop place fuel p') ∧ (A = 0#8 → Ended (eploop place fuel p'))) :
    Fine p.EXP.tail p.S (exprp place (fuel + 1) A p) ∧
      (A = 0#8 → Ended (exprp place (fuel + 1) A p)) := by
  obtain ⟨carry, p₁, found, stack, left⟩ := terms { p with S := A :: p.S }
  rw [exprp, found, Option.bind_some]
  dsimp only
  cases carry with
  | true =>
      have dropped : p₁.S.drop 1 = p.S := by rw [stack]; rfl
      rw [if_pos rfl, dropped]
      exact ⟨Fine.fail _ { p₁ with S := p.S }, fun _ => Ended.carry _⟩
  | false =>
      rw [if_neg Bool.false_ne_true]
      obtain ⟨fine, ended⟩ := loops p₁ stack (left rfl)
      exact ⟨fine.mono (left rfl), ended⟩

theorem eploop_fine {fuel : Nat} {A : Byte} {S : List Byte} {p : Parser} (stack : p.S = A :: S)
    (exprs : ∀ (B : Byte) (p' : Parser), p'.EXP.length < p.EXP.length →
      Fine p'.EXP.tail p'.S (exprp place fuel B p'))
    (loops : ∀ p' : Parser, p'.S = A :: S → p'.EXP.length < p.EXP.length →
      Fine p'.EXP S (eploop place fuel p') ∧ (A = 0#8 → Ended (eploop place fuel p'))) :
    Fine p.EXP S (eploop place (fuel + 1) p) ∧ (A = 0#8 → Ended (eploop place (fuel + 1) p)) := by
  have dropped : p.S.drop 1 = S := by rw [stack]; rfl
  have low : p.S.getD 0 0#8 = A := by rw [stack]; rfl
  obtain ⟨c, here, head, some⟩ : ∃ c, peek p.EXP 0 = some c ∧
      (∀ x, p.EXP.head? = some x → c = x) ∧ (isexpend c = true ∨ 0 < p.EXP.length) := by
    obtain ⟨none, here⟩ | ⟨c, tail, text, here⟩ := peek_cases p.EXP
    · exact ⟨_, here, by rw [none]; rintro _ ⟨⟩, .inl (by decide)⟩
    · exact ⟨_, here, by rw [text]; rintro _ ⟨⟩; rfl, .inr (by rw [text]; exact Nat.succ_pos _)⟩
  rw [eploop, here, Option.bind_some, dropped, low]
  split
  · next ends =>
      refine ⟨⟨false, _, rfl, rfl, fun _ => List.suffix_refl _⟩, fun _ => ?_⟩
      rintro _ ⟨⟩ x first
      rw [← head x first]
      exact ends
  next goesOn =>
  have some : 0 < p.EXP.length := some.resolve_left goesOn
  have less {Y : Chars} (suffix : Y <:+ p.EXP.tail) : Y.length < p.EXP.length := by
    have le := suffix.length_le
    rw [List.length_tail] at le
    omega
  obtain ⟨r, found, entry⟩ := findop_fine optable_entries p.EXP
  rw [found, Option.bind_some]
  cases r with
  | none => exact ⟨Fine.fail _ { p with S := S }, fun _ => Ended.carry _⟩
  | some r =>
      obtain ⟨B, C, Y⟩ := r
      obtain ⟨positive, suffix⟩ := entry B C Y rfl
      dsimp only
      split
      · next stops =>
          refine ⟨⟨false, _, rfl, rfl, fun _ => List.suffix_refl _⟩, ?_⟩
          rintro rfl
          exact absurd stops (Nat.not_le.mpr positive)
      obtain ⟨operA, operB, rest⟩ := pushOperand_oper { p with EXP := Y } B C
      obtain ⟨carry, p₁, operand, same, left⟩ :=
        exprs B ({ p with EXP := Y }.pushOperand B C) (less suffix)
      rw [← same] at operB rest
      rw [operA, operand, Option.bind_some]
      dsimp only
      cases carry with
      | true =>
          rw [if_pos rfl, rest]
          dsimp only
          rw [dropped]
          exact ⟨Fine.fail _ { p₁ with S := S }, fun _ => Ended.carry _⟩
      | false =>
          have shorter : p₁.EXP <:+ p.EXP.tail :=
            ((left rfl).trans (List.tail_suffix _)).trans suffix
          have kept : (applyop place p₁.S C p₁).S = p₁.S := rfl
          rw [if_neg Bool.false_ne_true, operB, kept, rest]
          obtain ⟨fine, ended⟩ := loops { applyop place p₁.S C p₁ with S := p.S } stack (less shorter)
          exact ⟨fine.mono (shorter.trans (List.tail_suffix _)), ended⟩

theorem term_fine {fuel : Nat} {X : Chars} {p : Parser}
    (terms : ∀ Y : Chars, Y.length < X.length → Fine Y.tail p.S (term place fuel Y p))
    (exprs : ∀ (B : Byte) (p' : Parser), p'.EXP.length < X.length → p'.S = p.S →
      Fine p'.EXP.tail p'.S (exprp place fuel B p')) :
    Fine X.tail p.S (term place (fuel + 1) X p) := by
  have atom : Fine X.tail p.S (pterm place X p) := pterm_fine X p
  rw [term]
  obtain ⟨rfl, here⟩ | ⟨c, tail, rfl, here⟩ := peek_cases X
  · rw [here, Option.bind_some, if_pos (.inl rfl)]
    exact .fail [] p
  have less : tail.length < (c :: tail).length := Nat.lt_succ_self _
  -- an operand of a minus or a complement
  have changed (B : Byte) (change : Value → Value) : Fine tail p.S
      ((exprp place fuel B { p with EXP := tail }).bind fun q =>
        if q.1 then q.2.fail else some (false, { q.2 with toValue := change q.2.toValue })) := by
    obtain ⟨carry, p₁, found, stack, left⟩ := exprs B { p with EXP := tail } less rfl
    rw [found, Option.bind_some]
    cases carry with
    | true => exact ⟨true, p₁, rfl, stack, by rintro ⟨⟩⟩
    | false => exact ⟨false, _, rfl, stack, fun _ => (left rfl).trans (List.tail_suffix _)⟩
  rw [here, Option.bind_some, leax_one]
  split
  · exact .fail tail p
  split
  · rw [Option.bind_some]
    obtain ⟨carry, p₁, found, stack, left⟩ := exprs 0#8 { p with EXP := tail } less rfl
    rw [found, Option.bind_some]
    dsimp only
    cases carry with
    | true => exact ⟨true, p₁, rfl, stack, by rintro ⟨⟩⟩
    | false =>
        have inside := (left rfl).trans (List.tail_suffix tail)
        rw [if_neg Bool.false_ne_true]
        obtain ⟨none, here⟩ | ⟨d, more, text, here⟩ := peek_cases p₁.EXP
        · rw [here, Option.bind_some, if_pos (by decide)]
          exact ⟨true, p₁, rfl, stack, by rintro ⟨⟩⟩
        · rw [here, Option.bind_some]
          split
          · exact ⟨true, p₁, rfl, stack, by rintro ⟨⟩⟩
          · rw [text] at inside ⊢
            rw [leax_one]
            exact ⟨false, _, rfl, stack, fun _ => (List.suffix_cons d more).trans inside⟩
  split
  · exact (terms tail less).mono (List.tail_suffix tail)
  split
  · exact changed 200#8 (tmNeg place)
  split
  · exact changed 200#8 (tmCom place)
  · exact atom

/-- By induction on the fuel, of which every character takes two at most. -/
theorem fuel_fine (fuel : Nat) :
    (∀ (A : Byte) (p : Parser), 2 * p.EXP.length + 2 ≤ fuel →
      Fine p.EXP.tail p.S (exprp place fuel A p) ∧ (A = 0#8 → Ended (exprp place fuel A p))) ∧
    (∀ (A : Byte) (S : List Byte) (p : Parser), p.S = A :: S → 2 * p.EXP.length + 1 ≤ fuel →
      Fine p.EXP S (eploop place fuel p) ∧ (A = 0#8 → Ended (eploop place fuel p))) ∧
    ∀ (X : Chars) (p : Parser), 2 * X.length + 1 ≤ fuel →
      Fine X.tail p.S (term place fuel X p) := by
  induction fuel with
  | zero =>
      refine ⟨fun A p enough => ?_, fun A S p stack enough => ?_, fun X p enough => ?_⟩ <;> omega
  | succ fuel ih =>
      obtain ⟨exprs, loops, terms⟩ := ih
      refine ⟨fun A p enough => ?_, fun A S p stack enough => ?_, fun X p enough => ?_⟩
      · refine exprp_fine (fun p' => terms p.EXP p' (by omega)) fun p' stack suffix => ?_
        have le := suffix.length_le
        rw [List.length_tail] at le
        exact loops A p.S p' stack (by omega)
      · refine eploop_fine stack (fun B p' less => ?_) fun p' stack less => ?_
        · exact (exprs B p' (by omega)).1
        · exact loops A S p' stack (by omega)
      · refine term_fine (fun Y less => terms Y p (by omega)) fun B p' less stack => ?_
        exact (exprs B p' (by omega)).1

end Pugputer.Asmlink
