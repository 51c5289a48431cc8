import Pugputer.Asmlink.Climb
import Pugputer.Asmlink.Terms

namespace Pugputer.Asmlink

/-! PTERM on a number, a character, an address or a symbol. -/

variable {place : Place} {q : Nat} {rest : Chars} {p : Parser}

/-- A character of a number without a prefix. -/
def bareChar (c : Byte) : Bool := issym c && c ≠ ch '$' && c ≠ ch 'x' && c ≠ ch 'X'

theorem Literal.bare_chars {l : Literal} (bare : l.bare = true) : ∀ c ∈ l.text, bareChar c = true := by
  have digit {B : Nat} (small : B ≤ 16) (ds : Digits B) : ∀ c ∈ ds.1, bareChar c = true := by
    intro c member
    obtain ⟨sym, dollar, x, upperX, -⟩ :=
      digit_char c (Nat.lt_of_lt_of_le (ds.2.2 c member) small)
    rw [bareChar, sym, decide_eq_true dollar, decide_eq_true x, decide_eq_true upperX]
    rfl
  have suffixed {B : Nat} (small : B ≤ 16) (ds : Digits B) {a : Byte} (last : bareChar a = true) :
      ∀ c ∈ ds.1 ++ [a], bareChar c = true := by
    intro c member
    rcases List.mem_append.mp member with inside | same
    · exact digit small ds c inside
    · rw [List.mem_singleton.mp same]
      exact last
  cases l with
  | dec ds => exact digit (by decide) ds
  | suffixH ds first upper => exact suffixed (by decide) ds (by cases upper <;> decide)
  | suffixB ds upper => exact suffixed (by decide) ds (by cases upper <;> decide)
  | suffixO ds upper => exact suffixed (by decide) ds (by cases upper <;> decide)
  | suffixQ ds upper => exact suffixed (by decide) ds (by cases upper <;> decide)
  | _ => cases bare

/-- It begins with a digit. -/
theorem Literal.bare_first {l : Literal} (bare : l.bare = true) :
    ∃ c tail, l.text = c :: tail ∧ isdigit c = true := by
  have digit {B : Nat} (small : B ≤ 10) (ds : Digits B) :
      ∃ c tail, ds.1 = c :: tail ∧ isdigit c = true := by
    obtain ⟨ds, some, digits⟩ := ds
    cases ds with
    | nil => exact absurd rfl some
    | cons c tail =>
        have value := digits c List.mem_cons_self
        exact ⟨c, tail, rfl, (digit_char c (by omega)).2.2.2.2.1 (by omega)⟩
  have suffixed {B : Nat} (small : B ≤ 10) (ds : Digits B) (a : Byte) :
      ∃ c tail, ds.1 ++ [a] = c :: tail ∧ isdigit c = true := by
    obtain ⟨c, tail, same, first⟩ := digit small ds
    exact ⟨c, tail ++ [a], by rw [same, List.cons_append], first⟩
  cases l with
  | dec ds => exact digit (by decide) ds
  | suffixH ds first upper =>
      obtain ⟨ds, some, digits⟩ := ds
      cases ds with
      | nil => exact absurd rfl some
      | cons c tail => exact ⟨c, _, rfl, first⟩
  | suffixB ds upper => exact suffixed (by decide) ds _
  | suffixO ds upper => exact suffixed (by decide) ds _
  | suffixQ ds upper => exact suffixed (by decide) ds _
  | _ => cases bare

theorem After.no_brace (after : After q rest) : bracePart rest = 0 := by
  rcases after.head with rfl | ⟨c, tail, rfl, follows⟩
  · rfl
  · exact if_neg (follows_plain c follows).2.1

theorem ptSymnum_number (after : After q rest) {l : Literal} (bare : l.bare = true)
    (short : l.text.length ≤ 255) :
    ptSymnum place (l.text ++ rest) p = { p with EVAL := BitVec.ofNat 32 l.value }.done rest := by
  have chars := l.bare_chars bare
  obtain ⟨c, tail, head, first⟩ := l.bare_first bare
  have word : (l.text ++ rest).takeWhile issym = l.text := by
    rw [List.takeWhile_append_of_pos, after.sym.1, List.append_nil]
    intro c member
    have sym := chars c member
    rw [bareChar, Bool.and_assoc, Bool.and_assoc, Bool.and_eq_true] at sym
    exact sym.1
  have dollar : l.text.contains (ch '$') = false := by
    rw [Bool.eq_false_iff, ne_eq, List.contains_iff_mem]
    intro member
    have none := chars _ member
    rw [bareChar] at none
    cases none
  have number := pnLoop_literal after bare
  have size : l.text.length % 256 = l.text.length := Nat.mod_eq_of_lt (by omega)
  have some : l.text.length ≠ 0 := by
    rw [head]
    exact Nat.succ_ne_zero _
  rw [ptSymnum, word, List.drop_left]
  dsimp only
  rw [after.no_brace, Nat.add_zero, size, if_neg some, dollar, number]
  have here : peek (l.text ++ rest) 0 = .some c := by rw [head]; rfl
  rw [here, Option.bind_some, first]
  rfl

theorem psBrace_inner {inner : Chars} (none : ∀ c ∈ inner, c ≠ ch '}' ∧ c ≠ 0#8) :
    psBrace (inner ++ ch '}' :: rest) = inner.length + 2 := by
  induction inner with
  | nil => exact if_pos rfl
  | cons c inner ih =>
      rw [List.cons_append, psBrace, if_neg (none c List.mem_cons_self).1,
        ih fun c member => none c (List.mem_cons_of_mem _ member), List.length_cons]
      omega

theorem ptSymnum_name (after : After q rest) (n : Name) :
    ptSymnum place (n.text ++ rest) p =
      { p with toValue := place.symvalue n.text }.done rest := by
  obtain ⟨⟨word, brace⟩, name⟩ := n
  have short := name.short
  have limit : NAMEMAX = 63 := rfl
  dsimp only at name short
  have found : (word ++ (brace ++ rest)).takeWhile issym = word := by
    rw [List.takeWhile_append_of_pos name.sym]
    rcases name.braces with rfl | ⟨inner, rfl, -⟩
    · rw [List.nil_append, after.sym.1, List.append_nil]
    · rw [List.cons_append, List.takeWhile_cons_of_neg (by decide), List.append_nil]
  have more : bracePart (brace ++ rest) = brace.length := by
    rcases name.braces with rfl | ⟨inner, rfl, none⟩
    · exact after.no_brace
    · rw [List.cons_append, List.append_assoc, List.singleton_append, bracePart, if_pos rfl,
        psBrace_inner none, List.length_cons, List.length_append]
      rfl
  have text : Name.text ⟨(word, brace), name⟩ = word ++ brace := rfl
  have total : word.length + brace.length = (word ++ brace).length := List.length_append.symm
  have positive : (word ++ brace).length ≠ 0 := by
    rw [← total]
    have some := List.length_pos_of_ne_nil name.some
    omega
  have least : min (word ++ brace).length NAMEMAX = (word ++ brace).length :=
    Nat.min_eq_left short
  have symbol : ∃ c, peek (word ++ (brace ++ rest)) 0 = some c ∧
      (!word.contains (ch '$') && isdigit c) = false := by
    have digit := name.digit
    have some := name.some
    cases word with
    | nil => exact absurd rfl some
    | cons c tail =>
        refine ⟨c, rfl, ?_⟩
        cases first : isdigit c with
        | false => exact Bool.and_false _
        | true =>
            rw [List.contains_iff_mem.mpr (digit first)]
            rfl
  obtain ⟨c, here, notNumber⟩ := symbol
  rw [text, List.append_assoc, ptSymnum, found, List.drop_left]
  dsimp only
  rw [more, total, Nat.mod_eq_of_lt (by omega), if_neg positive, here, Option.bind_some, notNumber,
    if_neg Bool.false_ne_true, least, ← List.append_assoc, leax_length, Option.bind_some,
    List.take_left, after.sym.2]

theorem peek_second (c : Byte) (X : Chars) : peek (c :: X) 1 = some (X.headD 0#8) := by
  cases X <;> rfl

/-- What is looked at as a number without a prefix, or a symbol. -/
theorem pterm_symnum {c : Byte} {X : Chars} (plain : c ∉ [ch '*', ch '<', ch '>', ch '"', 0x27#8,
      ch '&', ch '%', ch '$'])
    (point : c = ch '.' → isalpha (X.headD 0#8) = true ∨ isdigit (X.headD 0#8) = true)
    (zero : c = ch '0' → X.headD 0#8 ≠ ch 'x' ∧ X.headD 0#8 ≠ ch 'X')
    (octal : c = ch '@' → ¬(0x30 ≤ (X.headD 0#8).toNat ∧ (X.headD 0#8).toNat ≤ 0x37)) :
    pterm place (c :: X) p = ptSymnum place (c :: X) p.fresh := by
  simp only [List.mem_cons, List.not_mem_nil, or_false, not_or] at plain
  obtain ⟨star, less, more, quotes, quote, amp, percent, dollar⟩ := plain
  rw [pterm, peek_zero]
  dsimp only
  rw [Option.bind_some, peek_second, Option.bind_some]
  by_cases isPoint : c = ch '.'
  · rw [if_pos isPoint]
    rw [if_pos]
    rcases point isPoint with alpha | digit
    · rw [alpha]
      rfl
    · rw [digit, Bool.or_true]
  rw [if_neg isPoint, if_neg star, if_neg (not_or.mpr ⟨less, more⟩), if_neg quotes, if_neg quote,
    if_neg amp, if_neg percent, if_neg dollar]
  by_cases isZero : c = ch '0'
  · obtain ⟨x, upperX⟩ := zero isZero
    rw [if_pos isZero, Option.bind_some, if_neg (not_or.mpr ⟨x, upperX⟩)]
  rw [if_neg isZero]
  by_cases isAt : c = ch '@'
  · rw [if_pos isAt, Option.bind_some, if_neg (octal isAt)]
  · rw [if_neg isAt]

theorem Took.fresh {e : Expr} (rest : Chars) (none : e.zeros place = 0) :
    Took place e p { p.fresh with EVAL := e.value place, EXP := rest } rest :=
  ⟨rfl, rfl, rfl, (by decide : EF_KNOWN.getLsbD 0 = true), by rw [none]; rfl⟩

/-- A term is at the start, and it is the atom `e`. -/
def Pterms (place : Place) (e : Expr) (p : Parser) (rest : Chars) : Prop :=
  ∃ p₁, Took place e p p₁ rest ∧ pterm place (e.text ++ rest) p = some (false, p₁)

theorem pterm_bare (after : After q rest) {l : Literal} (bare : l.bare = true)
    (short : l.text.length ≤ 255) : Pterms place (.num l) p rest := by
  have number : ptSymnum place (l.text ++ rest) p.fresh = _ := ptSymnum_number after bare short
  have chars := l.bare_chars bare
  obtain ⟨c, tail, text, digit⟩ := l.bare_first bare
  have notX : (tail ++ rest).headD 0#8 ≠ ch 'x' ∧ (tail ++ rest).headD 0#8 ≠ ch 'X' := by
    cases tail with
    | nil =>
        rcases after.head with rfl | ⟨d, more, rfl, follows⟩
        · decide
        · exact ⟨(follows_more d follows).1, (follows_more d follows).2.1⟩
    | cons d more =>
        have other := chars d (by rw [text]; exact List.mem_cons_of_mem _ List.mem_cons_self)
        rw [bareChar, Bool.and_eq_true, Bool.and_eq_true, Bool.and_eq_true] at other
        exact ⟨of_decide_eq_true other.1.2, of_decide_eq_true other.2⟩
  obtain ⟨small, notPoint, notAt⟩ := digit_plain c digit
  obtain ⟨sym, dollar, -⟩ := digit_char c small
  have notSpecial := sym_plain c sym dollar
  refine ⟨_, Took.fresh rest rfl, ?_⟩
  rw [text, List.cons_append] at number
  rw [Expr.text, text, List.cons_append, pterm_symnum notSpecial (fun same => absurd same notPoint)
    (fun _ => notX) (fun same => absurd same notAt)]
  exact number

/-- The character after the first one of a term `c :: Y`. -/
theorem After.second (after : After q rest) (Y : Chars) :
    (Y ++ rest).headD 0#8 = Y.headD 0#8 ∨ Y = [] ∧ (rest.headD 0#8 ≠ ch 'x' ∧
      rest.headD 0#8 ≠ ch 'X' ∧ ¬(0x30 ≤ (rest.headD 0#8).toNat ∧ (rest.headD 0#8).toNat ≤ 0x37)) := by
  cases Y with
  | cons c Y => exact .inl rfl
  | nil =>
      rcases after.head with rfl | ⟨d, more, rfl, follows⟩
      · exact .inl rfl
      · exact .inr ⟨rfl, follows_more d follows⟩

theorem pterm_sym (after : After q rest) (n : Name)
    (known : (place.symvalue n.text).EVFLAGS.getLsbD 0 = true) :
    Pterms place (.sym n) p rest := by
  have symbol : ptSymnum place (n.text ++ rest) p.fresh = _ := ptSymnum_name after n
  refine ⟨{ p.fresh with toValue := place.symvalue n.text, EXP := rest },
    ⟨rfl, rfl, rfl, known, rfl⟩, ?_⟩
  obtain ⟨⟨word, brace⟩, name⟩ := n
  have some := name.some
  have point := name.point
  have octal := name.octal
  have hex := name.hex
  have dollar := name.dollar
  have sym := name.sym
  cases word with
  | nil => exact absurd rfl some
  | cons c tail =>
      have text : Name.text ⟨(c :: tail, brace), name⟩ = c :: (tail ++ brace) := rfl
      have next : (c :: tail ++ brace).getD 1 0#8 = (tail ++ brace).headD 0#8 := by
        rw [List.cons_append, List.getD_cons_succ]
        cases tail ++ brace <;> rfl
      dsimp only at point octal hex dollar sym
      rw [next] at point octal hex
      have whole : (Expr.sym ⟨(c :: tail, brace), name⟩).text = c :: (tail ++ brace) := rfl
      rw [whole, List.cons_append, pterm_symnum (sym_plain c (sym c List.mem_cons_self) dollar)]
      · rw [text, List.cons_append] at symbol
        exact symbol
      · intro first
        rcases after.second (tail ++ brace) with same | ⟨nothing, -⟩
        · rw [same]
          exact point first
        · have none := point first
          rw [nothing] at none
          exact absurd none (by decide)
      · intro first
        rcases after.second (tail ++ brace) with same | ⟨nothing, x, upperX, -⟩
        · rw [same]
          exact hex first
        · rw [nothing]
          exact ⟨x, upperX⟩
      · intro first
        rcases after.second (tail ++ brace) with same | ⟨nothing, -, -, other⟩
        · rw [same]
          exact octal first
        · rw [nothing]
          exact other

theorem pterm_star : Pterms place .star p rest := by
  have addr : pterm place (ch '*' :: rest) p = ptAddr place (ch '*' :: rest) p.fresh := rfl
  have same := place.tsect1_same { p.fresh.toValue with EVAL := place.STARPC.setWidth 32 }
  have known := same.known
  rw [Pterms, Expr.text, List.singleton_append, addr, ptAddr, leax_one, Option.bind_some]
  dsimp only
  split
  · refine ⟨_, ?_, rfl⟩
    exact ⟨rfl, rfl, same.1, (by decide : (EF_KNOWN ||| EF_INEXACT).getLsbD 0 = true), rfl⟩
  · refine ⟨_, ?_, rfl⟩
    exact ⟨rfl, rfl, same.1, known.trans (by decide : EF_KNOWN.getLsbD 0 = true), rfl⟩

theorem ptQuote_taken (after : After q rest) {quote : Byte} (isQuote : quote = 0x27#8 ∨ quote = ch '"')
    (closed : Bool) : ptQuote quote ((if closed then [quote] else []) ++ rest) p = p.done rest := by
  cases closed with
  | true =>
      rw [if_pos rfl, List.singleton_append, ptQuote, peek_zero, Option.bind_some, if_pos rfl,
        leax_one]
      rfl
  | false =>
      have open_ : ∃ c, peek rest 0 = some c ∧ c ≠ quote := by
        rcases after.head with rfl | ⟨c, more, rfl, follows⟩
        · refine ⟨0#8, rfl, ?_⟩
          rcases isQuote with rfl | rfl <;> decide
        · refine ⟨c, rfl, ?_⟩
          obtain ⟨-, -, single, double, -⟩ := follows_plain c follows
          rcases isQuote with rfl | rfl
          · exact single
          · exact double
      obtain ⟨c, here, other⟩ := open_
      rw [if_neg Bool.false_ne_true, List.nil_append, ptQuote, here, Option.bind_some, if_neg other]

theorem pterm_char (after : After q rest) (c : { c : Byte // c ≠ 0#8 }) (closed : Bool) :
    Pterms place (.char c closed) p rest := by
  refine ⟨_, Took.fresh rest rfl, ?_⟩
  have start (X : Chars) : pterm place (0x27#8 :: X) p = ptSq (0x27#8 :: X) p.fresh := rfl
  have second (X : Chars) : peek (0x27#8 :: c.1 :: X) 1 = some c.1 := rfl
  have past (X : Chars) : leax (0x27#8 :: c.1 :: X) 2 = some X := leax_length [0x27#8, c.1] X
  rw [Expr.text, List.cons_append, List.cons_append, start, ptSq, second, Option.bind_some,
    if_neg c.2, past, Option.bind_some, ptQuote_taken after (.inl rfl)]
  rfl

theorem pterm_chars (after : After q rest) (c d : { c : Byte // c ≠ 0#8 }) (closed : Bool) :
    Pterms place (.chars c d closed) p rest := by
  refine ⟨_, Took.fresh rest rfl, ?_⟩
  have start (X : Chars) : pterm place (ch '"' :: X) p = ptDq (ch '"' :: X) p.fresh := rfl
  have second (X : Chars) : peek (ch '"' :: c.1 :: d.1 :: X) 1 = some c.1 := rfl
  have third (X : Chars) : peek (ch '"' :: c.1 :: d.1 :: X) 2 = some d.1 := rfl
  have past (X : Chars) : leax (ch '"' :: c.1 :: d.1 :: X) 3 = some X :=
    leax_length [ch '"', c.1, d.1] X
  rw [Expr.text, List.cons_append, List.cons_append, List.cons_append, start, ptDq, second,
    Option.bind_some, if_neg c.2, third, Option.bind_some, if_neg d.2, past, Option.bind_some,
    ptQuote_taken after (.inr rfl)]
  rfl

theorem pterm_prefix (after : After q rest) {l : Literal} (prefixed : l.bare = false) :
    Pterms place (.num l) p rest := by
  refine ⟨_, Took.fresh rest rfl, ?_⟩
  rw [Expr.text]
  cases l with
  | dollar ds => exact ptRadix_digits (by decide) ds.2.1 ds.2.2 after (ch '$') p.fresh
  | percent ds => exact ptRadix_digits (by decide) ds.2.1 ds.2.2 after (ch '%') p.fresh
  | ampersand ds => exact ptRadix_digits (by decide) ds.2.1 ds.2.2 after (ch '&') p.fresh
  | octal ds =>
      have number := ptRadix_digits (by decide) ds.2.1 ds.2.2 after (ch '@') p.fresh
      rw [Literal.text]
      obtain ⟨ds, nonempty, digits⟩ := ds
      cases ds with
      | nil => exact absurd rfl nonempty
      | cons d ds =>
          have digit := digits d List.mem_cons_self
          have char := (digit_char d (by omega)).2.2.2.2.2 digit
          have start (X : Chars) : pterm place (ch '@' :: d :: X) p =
              if 0x30 ≤ d.toNat ∧ d.toNat ≤ 0x37 then ptRadix 8 (ch '@' :: d :: X) p.fresh
              else ptSymnum place (ch '@' :: d :: X) p.fresh := rfl
          dsimp only
          rw [List.cons_append, List.cons_append, start,
            if_pos char]
          exact number
  | zerox upper ds =>
      have number := radixnum_digits (by decide) ds.2.2 after 0
      rw [Literal.text]
      obtain ⟨ds, nonempty, digits⟩ := ds
      cases ds with
      | nil => exact absurd rfl nonempty
      | cons d ds =>
          have digit := digits d List.mem_cons_self
          have start (x : Byte) (isX : x = ch 'x' ∨ x = ch 'X') (X : Chars) :
              pterm place (ch '0' :: x :: d :: X) p =
                if 16 ≤ digitval d then ptSymnum place (ch '0' :: x :: d :: X) p.fresh
                else
                  (leax (ch '0' :: x :: d :: X) 2).bind fun X =>
                    { p.fresh with EVAL := (radixnum 16 X 0#32).1 }.done (radixnum 16 X 0#32).2 := by
            rcases isX with rfl | rfl <;> rfl
          have past (x : Byte) (X : Chars) : leax (ch '0' :: x :: X) 2 = some X :=
            leax_length [ch '0', x] X
          dsimp only
          rw [List.cons_append, List.cons_append, List.cons_append, start _ (by cases upper <;> decide), if_neg (Nat.not_le.mpr digit),
            past, Option.bind_some]
          dsimp only
          rw [← List.cons_append, number]
          rfl
  | _ => cases prefixed

end Pugputer.Asmlink
