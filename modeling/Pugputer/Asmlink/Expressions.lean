import Pugputer.Asmlink.Total

namespace Pugputer.Asmlink

/-! EXPR follows the grammar. -/

/-- The longest source line kept. -/
def LINEMAX : Nat := 255

theorem Stops.after {rest : Chars} (stops : Stops rest) : After 0 rest := by
  cases rest with
  | nil => exact .nil
  | cons c rest => exact .ends (stops c rfl)

/-- EXPR takes an expression that an end comes after. -/
theorem expr_takes {place : Place} {p : Parser} {e : Expr} {rest : Chars} (fits : e.Fits 1)
    (clear : e.Clear) (known : e.Known place) (short : e.text.length ≤ LINEMAX)
    (stops : Stops rest) (text : p.EXP = e.text ++ rest) :
    ∃ p', Took place e p p' rest ∧ Ends (fun fuel => expr place fuel p) (false, p') := by
  have climbs := (taken e clear known short).2 1 (by decide) fits
  exact climbs.ends text (by decide) stops.after

/-- EXPR takes exactly an expression, and gives its value; of any other text it takes what there is
before an end of an expression, or fails.  It never looks past the NUL, and leaves the stack as it
was. -/
theorem expressions (place : Place) (p : Parser) :
    (∀ (e : Expr) (rest : Chars), e.Fits 1 → e.Clear → e.Known place → e.text.length ≤ LINEMAX →
      Stops rest → p.EXP = e.text ++ rest →
        ∃ p', Took place e p p' rest ∧ Ends (fun fuel => expr place fuel p) (false, p')) ∧
    ∀ fuel ≥ 2 * p.EXP.length + 2, ∃ carry p', expr place fuel p = some (carry, p') ∧ p'.S = p.S ∧
      (carry = false → p'.EXP <:+ p.EXP.tail ∧ Stops p'.EXP) := by
  constructor
  · intro e rest fits clear known short stops text
    exact expr_takes fits clear known short stops text
  · intro fuel enough
    obtain ⟨⟨carry, p', found, stack, left⟩, ended⟩ := (@fuel_fine place fuel).1 0#8 p enough
    refine ⟨carry, p', found, stack, ?_⟩
    rintro rfl
    exact ⟨left rfl, ended rfl p' found⟩

/-- Values without terms. -/
def plainValue (v : BitVec 32) : Value :=
  { EVAL := v, EVFLAGS := EF_KNOWN, EVADJ := 0#16, EVNT := Vector.replicate _ 0#8 }

def plainPlace : Place where
  STARPC := 0x200#16
  PCX := false
  PCADJ := 0#16
  EXPW8 := false
  symvalue := fun name => plainValue (BitVec.ofNat 32 name.length)
  tsect1 := id
  tscale := fun _ => id
  aoterms := fun _ _ => id
  tsect1_same := fun _ => ⟨rfl, rfl⟩
  tscale_same := fun _ _ => ⟨rfl, rfl⟩
  aoterms_same := fun _ _ _ => ⟨rfl, rfl⟩

def plainParser (X : Chars) : Parser :=
  { plainValue 0#32 with EXP := X, S := [], DIV0 := 0 }

def decimal (d : Fin 10) : Expr :=
  .num (.dec ⟨[BitVec.ofNat 8 (0x30 + d)], List.cons_ne_nil _ _, by revert d; decide⟩)

/-- 7-(8-5)*2,X is 1. -/
theorem expressions_sample :
    ∃ p', p'.EXP = [ch ',', ch 'X'] ∧ p'.EVAL = 1#32 ∧
      ∃ N, ∀ fuel ≥ N, expr plainPlace fuel (plainParser ([ch '7', ch '-', ch '(', ch '8', ch '-',
        ch '5', ch ')', ch '*', ch '2'] ++ [ch ',', ch 'X'])) = some (false, p') := by
  obtain ⟨p', took, ends⟩ := (expressions plainPlace (plainParser _)).1
    (.bin .minus (decimal 7) (.bin .times (.paren (.bin .minus (decimal 8) (decimal 5))) (decimal 2)))
    [ch ',', ch 'X'] (by decide) (by decide) (by decide) (by decide) (by rintro _ ⟨⟩; decide) rfl
  exact ⟨p', took.EXP, took.EVAL, ends⟩

/-- 5 & &10, and 5 && 10: both are written 5&&10. -/
def andTen : Expr :=
  .bin .band (decimal 5) (.num (.ampersand ⟨[ch '1', ch '0'], by decide, by decide⟩))

def landTen : Expr :=
  .bin .land (decimal 5) (.num (.dec ⟨[ch '1', ch '0'], by decide, by decide⟩))

/-- The & of a number after another & is taken for half of an &&. -/
theorem ampersand_misread : ¬∀ e : Expr, e.Fits 1 → e.Known plainPlace → e.text.length ≤ LINEMAX →
    ∃ p', Took plainPlace e (plainParser e.text) p' [] ∧
      Ends (fun fuel => expr plainPlace fuel (plainParser e.text)) (false, p') := by
  intro all
  obtain ⟨p', took, N, ends⟩ := all andTen (by decide) (by decide) (by decide)
  obtain ⟨p₂, took₂, M, ends₂⟩ := @expr_takes plainPlace (plainParser andTen.text) landTen []
    (by decide) (by decide) (by decide) (by decide) (by rintro _ ⟨⟩) rfl
  have one := (ends _ (Nat.le_max_left N M)).symm.trans (ends₂ _ (Nat.le_max_right N M))
  have same : p'.EVAL = p₂.EVAL := congrArg (fun r => r.2.EVAL) (Option.some.inj one)
  rw [took.EVAL, took₂.EVAL] at same
  exact absurd same (by decide)

end Pugputer.Asmlink
