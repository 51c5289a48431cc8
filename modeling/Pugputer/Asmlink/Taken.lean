import Pugputer.Asmlink.Atoms

namespace Pugputer.Asmlink

/-! By induction on the expression: TERM takes a unit, EXPRP what binds strongly enough. -/

variable {place : Place}

namespace Expr

def atom : Expr → Bool
  | num _ | char _ _ | chars _ _ _ | star | sym _ => true
  | _ => false

theorem atom_begins {e : Expr} (atom : e.atom = true) :
    ∃ c tail, e.text = c :: tail ∧ begins c = true := by
  cases e with
  | num l =>
      cases bare : l.bare with
      | true =>
          obtain ⟨c, tail, text, digit⟩ := l.bare_first bare
          refine ⟨c, tail, text, ?_⟩
          rw [begins, issym, digit, Bool.or_true]
          rfl
      | false =>
          cases l with
          | dollar ds => exact ⟨_, _, rfl, by decide⟩
          | zerox upper ds => exact ⟨_, _, rfl, by decide⟩
          | percent ds => exact ⟨_, _, rfl, by decide⟩
          | octal ds => exact ⟨_, _, rfl, by decide⟩
          | ampersand ds => exact ⟨_, _, rfl, by decide⟩
          | _ => cases bare
  | char c closed => exact ⟨_, _, rfl, by decide⟩
  | chars c d closed => exact ⟨_, _, rfl, by decide⟩
  | star => exact ⟨_, _, rfl, by decide⟩
  | sym n =>
      obtain ⟨⟨word, brace⟩, name⟩ := n
      have some := name.some
      have sym := name.sym
      cases word with
      | nil => exact absurd rfl some
      | cons c tail =>
          refine ⟨c, tail ++ brace, rfl, ?_⟩
          rw [begins, sym c List.mem_cons_self]
          rfl
  | _ => cases atom

/-- An expression is not empty, and begins with no bar. -/
theorem text_begins (e : Expr) : ∃ c tail, e.text = c :: tail ∧ c ≠ ch '|' := by
  have first {e : Expr} (atom : e.atom = true) : ∃ c tail, e.text = c :: tail ∧ c ≠ ch '|' := by
    obtain ⟨c, tail, text, starts⟩ := atom_begins atom
    exact ⟨c, tail, text, (begins_plain c starts).2.2.2.2.2⟩
  induction e with
  | paren e ih => exact ⟨_, _, rfl, by decide⟩
  | un op e ih => exact ⟨_, _, rfl, by cases op <;> decide⟩
  | bin op l r left right =>
      obtain ⟨c, tail, same, other⟩ := left
      exact ⟨c, tail ++ (op.text ++ r.text), by rw [text, same, List.cons_append], other⟩
  | _ => exact first rfl

theorem text_head (e : Expr) (rest : Chars) : (e.text ++ rest).head? = e.text.head? ∧
    e.text.head? ≠ some (ch '|') := by
  obtain ⟨c, tail, same, other⟩ := e.text_begins
  rw [same, List.cons_append]
  exact ⟨rfl, fun bar => other (Option.some.inj bar)⟩

end Expr

/-- TERM takes `e`. -/
def Reads (place : Place) (e : Expr) : Prop :=
  ∀ ⦃p : Parser⦄ ⦃rest : Chars⦄, After 200 rest → ∃ p₁, Took place e p p₁ rest ∧
    Ends (fun fuel => term place fuel (e.text ++ rest) p) (false, p₁)

/-- EXPRP is in its loop once it has taken `e`. -/
def Climbs (place : Place) (q : Nat) (e : Expr) : Prop :=
  ∀ ⦃A : Byte⦄ ⦃p : Parser⦄ ⦃rest : Chars⦄, p.EXP = e.text ++ rest → A.toNat < q → After q rest →
    ∃ p₁, Took place e { p with S := A :: p.S } p₁ rest ∧
      ∀ r, Ends (fun fuel => eploop place fuel p₁) r → Ends (fun fuel => exprp place fuel A p) r

theorem Reads.climbs {e : Expr} (reads : Reads place e) {q : Nat} (le : q ≤ 200) :
    Climbs place q e := by
  intro A p rest text _ after
  obtain ⟨p₁, took, ends⟩ := reads (p := { p with S := A :: p.S }) (after.mono le)
  rw [← text] at ends
  exact ⟨p₁, took, fun r onward => exprp_term ends onward⟩

/-- What is left after `e` ends the loop. -/
theorem Climbs.ends {q : Nat} {e : Expr} (climbs : Climbs place q e) {A : Byte} {p : Parser}
    {rest : Chars} (text : p.EXP = e.text ++ rest) (below : A.toNat < q)
    (after : After A.toNat rest) : ∃ p₁, Took place e p p₁ rest ∧
      Ends (fun fuel => exprp place fuel A p) (false, p₁) := by
  obtain ⟨p₁, took, onward⟩ := climbs text below (after.mono (Nat.le_of_lt below))
  refine ⟨{ p₁ with S := p.S }, ⟨took.EXP, rfl, took.EVAL, took.known, took.DIV0⟩, ?_⟩
  have stop : After A.toNat p₁.EXP := by
    rw [took.EXP]
    exact after
  exact onward _ (eploop_stops took.S stop)

/-! Units. -/

theorem reads_atom {e : Expr} (atom : e.atom = true)
    (taken : ∀ ⦃p : Parser⦄ ⦃rest : Chars⦄, After 200 rest → Pterms place e p rest) :
    Reads place e := by
  intro p rest after
  obtain ⟨p₁, took, found⟩ := taken (p := p) after
  obtain ⟨c, tail, text, starts⟩ := e.atom_begins atom
  obtain ⟨ends, left, plus, minus, com, -⟩ := begins_plain c starts
  refine ⟨p₁, took, (Ends.now _).next fun fuel => ?_⟩
  rw [← found, text, List.cons_append, term, peek_zero, Option.bind_some, if_neg ends, if_neg left,
    if_neg plus, if_neg minus, if_neg com]

theorem reads_paren {e : Expr} (inner : Climbs place 1 e) : Reads place (.paren e) := by
  intro p rest after
  obtain ⟨p₁, took, ends⟩ := inner.ends (A := 0#8) (p := { p with EXP := e.text ++ ch ')' :: rest })
    rfl (by decide) (.ends (by decide))
  refine ⟨{ p₁ with EXP := rest }, ⟨rfl, took.S, took.EVAL, took.known, took.DIV0⟩, ?_⟩
  have whole := ends.bind (g := fun _ (q : Bool × Parser) =>
    if q.1 then q.2.fail
    else (peek q.2.EXP 0).bind fun A =>
      if A ≠ ch ')' then q.2.fail else (leax q.2.EXP 1).bind q.2.done)
    (b := (false, { p₁ with EXP := rest })) (by
      dsimp only
      rw [if_neg Bool.false_ne_true, took.EXP, peek_zero, Option.bind_some,
        if_neg (not_not_intro rfl), leax_one, Option.bind_some]
      exact Ends.now _)
  refine whole.next fun fuel => ?_
  have text : (Expr.paren e).text ++ rest = ch '(' :: (e.text ++ ch ')' :: rest) := by
    rw [Expr.text, List.cons_append, List.append_assoc, List.singleton_append]
  rw [text, term, peek_zero, Option.bind_some, if_neg (by decide), if_pos rfl, leax_one,
    Option.bind_some]

/-- TERM's operand of precedence 200. -/
theorem Reads.operand {e : Expr} (reads : Reads place e) (p : Parser) {rest : Chars}
    (after : After 200 rest) : ∃ p₁, Took place e p p₁ rest ∧
      Ends (fun fuel => exprp place fuel 200#8 { p with EXP := e.text ++ rest }) (false, p₁) := by
  obtain ⟨p₁, took, ends⟩ := reads (p := { p with EXP := e.text ++ rest, S := 200#8 :: p.S }) after
  refine ⟨{ p₁ with S := p.S }, ⟨took.EXP, rfl, took.EVAL, took.known, took.DIV0⟩, ?_⟩
  have stop : After (200#8).toNat p₁.EXP := by
    rw [took.EXP]
    exact after
  exact exprp_term ends (eploop_stops took.S stop)

theorem tmUnx_same (v : Value) : v.Same (tmUnx v) := by
  rw [tmUnx]
  split
  · exact ⟨rfl, rfl⟩
  · exact ⟨rfl, flag_known _ (by decide)⟩

theorem tmNeg_spec (v : Value) : (tmNeg place v).EVAL = -v.EVAL ∧
    (tmNeg place v).EVFLAGS.getLsbD 0 = v.EVFLAGS.getLsbD 0 := by
  have scaled := place.tscale_same 0xFFFF#16 { v with EVAL := NEG32 v.EVAL }
  have ended := tmUnx_same (place.tscale 0xFFFF#16 { v with EVAL := NEG32 v.EVAL })
  exact ⟨(ended.1.trans scaled.1).trans (NEG32_eq v.EVAL), ended.known.trans scaled.known⟩

theorem tmCom_spec (v : Value) :
    (tmCom place v).EVAL = (if place.EXPW8 then ~~~v.EVAL &&& 0xFF#32 else ~~~v.EVAL) ∧
    (tmCom place v).EVFLAGS.getLsbD 0 = v.EVFLAGS.getLsbD 0 := by
  have wide (v w : Value) (same : v.Same w) :
      (tmUnx (if place.EXPW8 then { w with EVAL := w.EVAL &&& 0xFF#32 } else w)).EVAL =
          (if place.EXPW8 then v.EVAL &&& 0xFF#32 else v.EVAL) ∧
        (tmUnx (if place.EXPW8 then { w with EVAL := w.EVAL &&& 0xFF#32 } else w)).EVFLAGS.getLsbD 0 =
          v.EVFLAGS.getLsbD 0 := by
    have ended := tmUnx_same (if place.EXPW8 then { w with EVAL := w.EVAL &&& 0xFF#32 } else w)
    rw [ended.1, ended.known]
    split
    · exact ⟨by rw [same.1], same.known⟩
    · exact ⟨same.1, same.known⟩
  rw [tmCom]
  refine wide { v with EVAL := ~~~v.EVAL } _ ?_
  dsimp only
  split
  · exact ⟨rfl, rfl⟩
  · exact ⟨rfl, flag_known _ (by decide)⟩

/-- A minus or a complement, which change the value but nothing else. -/
theorem reads_changed {e e' : Expr} {c : Byte} (change : Value → Value) (reads : Reads place e)
    (text : e'.text = c :: e.text) (zeros : e'.zeros place = e.zeros place)
    (value : ∀ v : Value, v.EVAL = e.value place → (change v).EVAL = e'.value place)
    (known : ∀ v : Value, (change v).EVFLAGS.getLsbD 0 = v.EVFLAGS.getLsbD 0)
    (step : ∀ fuel X p, term place (fuel + 1) (c :: X) p =
      (exprp place fuel 200#8 { p with EXP := X }).bind fun q =>
        if q.1 then q.2.fail else some (false, { q.2 with toValue := change q.2.toValue })) :
    Reads place e' := by
  intro p rest after
  obtain ⟨p₁, took, ends⟩ := reads.operand p after
  refine ⟨{ p₁ with toValue := change p₁.toValue }, ⟨took.EXP, took.S, value _ took.EVAL,
    (known _).trans took.known, by rw [zeros]; exact took.DIV0⟩, ?_⟩
  have whole := ends.bind (g := fun _ (q : Bool × Parser) =>
    if q.1 then q.2.fail else some (false, { q.2 with toValue := change q.2.toValue })) (Ends.now _)
  refine whole.next fun fuel => ?_
  rw [text, List.cons_append, step]

theorem reads_un {e : Expr} (reads : Reads place e) (op : UnOp) : Reads place (.un op e) := by
  cases op with
  | minus =>
      refine reads_changed (tmNeg place) reads rfl rfl ?_ (fun v => (tmNeg_spec v).2) ?_
      · intro v eval
        rw [(tmNeg_spec v).1, eval]
        rfl
      · intro fuel X p
        rw [term, peek_zero, Option.bind_some, leax_one]
        rfl
  | tilde =>
      refine reads_changed (tmCom place) reads rfl rfl ?_ (fun v => (tmCom_spec v).2) ?_
      · intro v eval
        rw [(tmCom_spec v).1, eval]
        rfl
      · intro fuel X p
        rw [term, peek_zero, Option.bind_some, leax_one]
        rfl
  | caret =>
      refine reads_changed (tmCom place) reads rfl rfl ?_ (fun v => (tmCom_spec v).2) ?_
      · intro v eval
        rw [(tmCom_spec v).1, eval]
        rfl
      · intro fuel X p
        rw [term, peek_zero, Option.bind_some, leax_one]
        rfl
  | plus =>
      intro p rest after
      obtain ⟨p₁, took, ends⟩ := reads (p := p) after
      refine ⟨p₁, ⟨took.EXP, took.S, took.EVAL, took.known, took.DIV0⟩, ?_⟩
      refine ends.next fun fuel => ?_
      have text : (Expr.un .plus e).text ++ rest = ch '+' :: (e.text ++ rest) := rfl
      rw [text, term, peek_zero, Option.bind_some, leax_one]
      rfl

/-! Binary operators. -/

theorem climbs_bin {op : BinOp} {l r : Expr} (left : Climbs place op.prec l)
    (right : Climbs place (op.prec + 1) r) (clear : op = .band → r.text.head? ≠ some (ch '&'))
    {q : Nat} (le : q ≤ op.prec) : Climbs place q (.bin op l r) := by
  intro A p rest text below after
  have band (is : op = .band) : (r.text ++ rest).head? ≠ some (ch '&') := by
    rw [(r.text_head rest).1]
    exact clear is
  have bor (_ : op = .bor) : (r.text ++ rest).head? ≠ some (ch '|') := by
    obtain ⟨same, other⟩ := r.text_head rest
    rw [same]
    exact other
  have above : A.toNat < op.prec := Nat.lt_of_lt_of_le below le
  rw [Expr.text, List.append_assoc, List.append_assoc] at text
  obtain ⟨p₁, took, onward⟩ := left text above (.op (Nat.le_refl _) band bor)
  have low := prec_byte op
  obtain ⟨p₂, took₂, ends⟩ :=
    right.ends (A := BitVec.ofNat 8 op.prec)
      (p := { p₁ with EXP := r.text ++ rest }.pushOperand (BitVec.ofNat 8 op.prec) op.code)
      rfl (by rw [low]; exact Nat.lt_succ_self _) (by rw [low]; exact after.mono le)
  obtain ⟨value, known, EXP, -, DIV0⟩ :=
    @applyop_spec place op { p₁ with EXP := r.text ++ rest } p₂ took.known took₂.known
      (BitVec.ofNat 8 op.prec)
  rw [← took₂.S] at value known EXP DIV0
  refine ⟨{ applyop place p₂.S op.code p₂ with S := p₁.S }, ⟨EXP.trans took₂.EXP, took.S, ?_, known, ?_⟩, ?_⟩
  · refine value.trans ?_
    rw [took₂.EVAL]
    exact congrArg (fun v => op.apply v _) took.EVAL
  · refine DIV0.trans ?_
    have counted : p₂.DIV0 = p₁.DIV0 + r.zeros place := took₂.DIV0
    have before : p₁.DIV0 = p.DIV0 + l.zeros place := took.DIV0
    rw [took₂.EVAL, counted, before, Expr.zeros]
    simp only [Nat.add_assoc]
  · intro result loop
    exact onward result (eploop_op took.S took.EXP band bor above ends took₂.S loop)

/-- Every expression is taken at its level. -/
theorem taken (e : Expr) (clear : e.Clear) (known : e.Known place) (short : e.text.length ≤ 255) :
    (e.Fits 201 → Reads place e) ∧ ∀ q ≤ 200, e.Fits q → Climbs place q e := by
  have unit {e : Expr} (reads : e.Fits 201 → Reads place e) (fits : ∀ q, e.Fits q → e.Fits 201) :
      (e.Fits 201 → Reads place e) ∧ ∀ q ≤ 200, e.Fits q → Climbs place q e :=
    ⟨reads, fun q le fit => (reads (fits q fit)).climbs le⟩
  induction e with
  | num l =>
      refine unit (fun _ => reads_atom rfl fun p rest after => ?_) (fun _ _ => trivial)
      cases bare : l.bare with
      | true => exact pterm_bare after bare short
      | false => exact pterm_prefix after bare
  | char c closed =>
      exact unit (fun _ => reads_atom rfl fun p rest after => pterm_char after c closed)
        (fun _ _ => trivial)
  | chars c d closed =>
      exact unit (fun _ => reads_atom rfl fun p rest after => pterm_chars after c d closed)
        (fun _ _ => trivial)
  | star => exact unit (fun _ => reads_atom rfl fun p rest _ => pterm_star) (fun _ _ => trivial)
  | sym n =>
      exact unit (fun _ => reads_atom rfl fun p rest after => pterm_sym after n known)
        (fun _ _ => trivial)
  | paren e ih =>
      have inside : e.text.length ≤ 255 := by
        rw [Expr.text, List.length_cons, List.length_append] at short
        omega
      exact unit (fun fits => reads_paren ((ih clear known inside).2 1 (by decide) fits))
        (fun _ fits => fits)
  | un op e ih =>
      have inside : e.text.length ≤ 255 := by
        rw [Expr.text, List.length_cons] at short
        omega
      exact unit (fun fits => reads_un ((ih clear known inside).1 fits) op) (fun _ fits => fits)
  | bin op l r left right =>
      rw [Expr.text, List.length_append, List.length_append] at short
      have high : op.prec ≤ 150 := by cases op <;> decide
      refine ⟨fun fits => ?_, fun q le fits => ?_⟩
      · have impossible : 201 ≤ op.prec := fits.1
        omega
      · exact climbs_bin ((left clear.1 known.1 (by omega)).2 op.prec (by omega) fits.2.1)
          ((right clear.2.1 known.2 (by omega)).2 (op.prec + 1) (by omega) fits.2.2)
          clear.2.2 fits.1

end Pugputer.Asmlink
