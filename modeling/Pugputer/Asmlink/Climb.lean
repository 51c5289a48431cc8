import Pugputer.Asmlink.Tokens

namespace Pugputer.Asmlink

/-! EXPR on an expression. -/

variable {place : Place}

/-- With enough fuel, this comes out. -/
def Ends {α : Type} (f : Nat → Option α) (r : α) : Prop := ∃ N, ∀ fuel ≥ N, f fuel = some r

theorem Ends.next {α : Type} {f g : Nat → Option α} {r : α} (ends : Ends g r)
    (step : ∀ fuel, f (fuel + 1) = g fuel) : Ends f r := by
  obtain ⟨N, all⟩ := ends
  refine ⟨N + 1, fun fuel enough => ?_⟩
  obtain ⟨k, rfl⟩ := Nat.exists_eq_add_of_le enough
  rw [Nat.add_right_comm, step]
  exact all _ (Nat.le_add_right N k)

/-- One computation after another. -/
theorem Ends.bind {α β : Type} {f : Nat → Option α} {g : Nat → α → Option β} {r : α} {b : β}
    (first : Ends f r) (second : Ends (fun fuel => g fuel r) b) :
    Ends (fun fuel => (f fuel).bind (g fuel)) b := by
  obtain ⟨M, before⟩ := first
  obtain ⟨N, after⟩ := second
  refine ⟨max M N, fun fuel enough => ?_⟩
  dsimp only
  rw [before fuel (Nat.le_trans (Nat.le_max_left M N) enough), Option.bind_some]
  exact after fuel (Nat.le_trans (Nat.le_max_right M N) enough)

theorem Ends.now {α : Type} (r : α) : Ends (fun _ => some r) r := ⟨0, fun _ _ => rfl⟩

/-- What is there when `e` has been taken, and `rest` is left. -/
structure Took (place : Place) (e : Expr) (p p₁ : Parser) (rest : Chars) : Prop where
  EXP : p₁.EXP = rest
  S : p₁.S = p.S
  EVAL : p₁.EVAL = e.value place
  known : p₁.EVFLAGS.getLsbD 0 = true
  DIV0 : p₁.DIV0 = p.DIV0 + e.zeros place

/-- EXPRP goes on with the loop when a term is there. -/
theorem exprp_term {A : Byte} {p p₁ : Parser} {r : Bool × Parser}
    (first : Ends (fun fuel => term place fuel p.EXP { p with S := A :: p.S }) (false, p₁))
    (rest : Ends (fun fuel => eploop place fuel p₁) r) :
    Ends (fun fuel => exprp place fuel A p) r := by
  have both := first.bind (g := fun fuel (q : Bool × Parser) =>
    if q.1 then { q.2 with S := q.2.S.drop 1 }.fail else eploop place fuel q.2) rest
  exact both.next fun fuel => rfl

theorem op_not_end (op : BinOp) (rest : Chars) :
    ∃ c, peek (op.text ++ rest) 0 = some c ∧ isexpend c = false := by
  cases op <;> exact ⟨_, rfl, rfl⟩

theorem prec_byte (op : BinOp) : (BitVec.ofNat 8 op.prec).toNat = op.prec := by
  cases op <;> rfl

/-- The loop ends where an expression does, or an operator that binds too weakly comes. -/
theorem eploop_stops {A : Byte} {S : List Byte} {p : Parser} (stack : p.S = A :: S)
    (after : After A.toNat p.EXP) :
    Ends (fun fuel => eploop place fuel p) (false, { p with S := S }) := by
  refine (Ends.now _).next fun fuel => ?_
  rw [eploop]
  have dropped : p.S.drop 1 = S := by rw [stack]; rfl
  have low : p.S.getD 0 0#8 = A := by rw [stack]; rfl
  generalize p.EXP = X at after
  cases after with
  | nil =>
      rw [dropped]
      rfl
  | ends ends => rw [peek_zero, Option.bind_some, if_pos ends, dropped]
  | @op op rest le band bor =>
      obtain ⟨c, here, notEnd⟩ := op_not_end op rest
      rw [here, Option.bind_some, if_neg (by rw [notEnd]; exact Bool.false_ne_true),
        findop_op op rest band bor, Option.bind_some]
      dsimp only
      rw [low, prec_byte, if_pos le, dropped]

/-- An operator that binds strongly enough, and the expression to its right. -/
theorem eploop_op {A : Byte} {S : List Byte} {p p₁ : Parser} {op : BinOp} {rest : Chars}
    {r : Bool × Parser} (stack : p.S = A :: S) (text : p.EXP = op.text ++ rest)
    (band : op = .band → rest.head? ≠ some (ch '&'))
    (bor : op = .bor → rest.head? ≠ some (ch '|')) (above : A.toNat < op.prec)
    (right : Ends (fun fuel => exprp place fuel (BitVec.ofNat 8 op.prec)
      ({ p with EXP := rest }.pushOperand (BitVec.ofNat 8 op.prec) op.code)) (false, p₁))
    (same : p₁.S = ({ p with EXP := rest }.pushOperand (BitVec.ofNat 8 op.prec) op.code).S)
    (onward : Ends (fun fuel => eploop place fuel
      { applyop place p₁.S op.code p₁ with S := p.S }) r) :
    Ends (fun fuel => eploop place fuel p) r := by
  obtain ⟨operA, operB, dropped⟩ :=
    pushOperand_oper { p with EXP := rest } (BitVec.ofNat 8 op.prec) op.code
  have whole := right.bind (g := fun fuel (q : Bool × Parser) =>
    if q.1 then { q.2 with S := (q.2.S.drop (EPOPER + 2)).drop 1 }.fail
    else eploop place fuel { applyop place q.2.S (q.2.S.getD (EPOPER + 1) 0#8) q.2 with
      S := (applyop place q.2.S (q.2.S.getD (EPOPER + 1) 0#8) q.2).S.drop (EPOPER + 2) }) (b := r)
    (by
      rw [← same] at operB dropped
      have kept : (applyop place p₁.S op.code p₁).S = p₁.S := rfl
      dsimp only
      rw [operB, kept, dropped]
      exact onward)
  refine whole.next fun fuel => ?_
  have low : p.S.getD 0 0#8 = A := by rw [stack]; rfl
  obtain ⟨c, here, notEnd⟩ := op_not_end op rest
  rw [eploop, text, here, Option.bind_some, if_neg (by rw [notEnd]; exact Bool.false_ne_true),
    findop_op op rest band bor, Option.bind_some]
  dsimp only
  rw [low, prec_byte, if_neg (Nat.not_le.mpr above), operA]

end Pugputer.Asmlink
