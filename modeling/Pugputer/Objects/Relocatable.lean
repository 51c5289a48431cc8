import Mathlib.Algebra.BigOperators.Group.List.Basic
import Mathlib.Data.BitVec
import Mathlib.Tactic.Ring
import Pugputer.Asmlink.Expr
import Pugputer.Linker.Records

namespace Pugputer.Objects

/-! Values that the linker has to complete: a constant and terms. -/

open Linker (Chars)
open Asmlink (MAXTERMS OP_PLUS OP_MINUS OP_TIMES OP_BAND OP_BOR OP_BXOR MUL32 MUL32_eq NEG32
  aoValue)

/-- What a term is a multiple of, T_KIND and T_ID; an import is told by its name. -/
inductive Base
  | sect (B : Byte)
  | imp (name : Chars)
  deriving DecidableEq

structure Term where
  id : Base
  coef : Word

/-- EVNT and EVTERMS. -/
structure Terms where
  list : List Term
  few : list.length ≤ MAXTERMS
  left : ∀ t ∈ list, t.coef ≠ 0#16
  apart : (list.map Term.id).Nodup

def Terms.none : Terms where
  list := []
  few := Nat.zero_le _
  left := by rintro t ⟨⟩
  apart := List.nodup_nil

structure Relocatable where
  EVAL : BitVec 32
  COMPLEX : Bool
  EVNT : Terms

/-- TA_FIND: like terms are merged, and nothing is left of them if they come to 0. -/
def taFind (TNEW : Term) : List Term → Option (List Term)
  | [] => .none
  | t :: ts =>
      if t.id = TNEW.id then
        some (if t.coef + TNEW.coef = 0#16 then ts else { t with coef := t.coef + TNEW.coef } :: ts)
      else (taFind TNEW ts).map (t :: ·)

/-- The list has some of the terms of `ts`, all but one as they were. -/
structure Merged (ts L : List Term) : Prop where
  ids : (L.map Term.id).Sublist (ts.map Term.id)
  left : (∀ t ∈ ts, t.coef ≠ 0#16) → ∀ t ∈ L, t.coef ≠ 0#16

theorem taFind_merged {TNEW : Term} {ts L : List Term} (found : taFind TNEW ts = some L) :
    Merged ts L := by
  induction ts generalizing L with
  | nil => cases found
  | cons t ts ih =>
      rw [taFind] at found
      split at found
      · split at found
        · cases found
          exact ⟨List.sublist_cons_self _ _, fun left u inside => left u (List.mem_cons_of_mem t inside)⟩
        · next more =>
            cases found
            refine ⟨.refl _, fun left u inside => ?_⟩
            rcases List.mem_cons.mp inside with rfl | inside
            · exact more
            · exact left u (List.mem_cons_of_mem t inside)
      · obtain ⟨L, later, rfl⟩ := Option.map_eq_some_iff.mp found
        have merged := ih later
        refine ⟨merged.ids.cons_cons t.id, fun left u inside => ?_⟩
        rcases List.mem_cons.mp inside with rfl | inside
        · exact left u List.mem_cons_self
        · exact merged.left (fun w among => left w (List.mem_cons_of_mem t among)) u inside

theorem taFind_none {TNEW : Term} {ts : List Term} (lacks : taFind TNEW ts = .none) :
    TNEW.id ∉ ts.map Term.id := by
  induction ts with
  | nil => exact List.not_mem_nil
  | cons t ts ih =>
      rw [taFind] at lacks
      split at lacks
      · cases lacks
      · next other =>
          rw [List.map_cons, List.mem_cons, not_or]
          exact ⟨fun same => other same.symm, ih (Option.map_eq_none_iff.mp lacks)⟩

def Terms.merge (T : Terms) {TNEW : Term} {L : List Term} (found : taFind TNEW T.list = some L) :
    Terms where
  list := L
  few := by
    have shorter := (taFind_merged found).ids.length_le
    rw [List.length_map, List.length_map] at shorter
    exact Nat.le_trans shorter T.few
  left := (taFind_merged found).left T.left
  apart := T.apart.sublist (taFind_merged found).ids

/-- TA_COPY. -/
def Terms.push (T : Terms) (TNEW : Term) (lacks : taFind TNEW T.list = .none)
    (some : TNEW.coef ≠ 0#16) (room : T.list.length < MAXTERMS) : Terms where
  list := T.list ++ [TNEW]
  few := by
    rw [List.length_append]
    exact room
  left := by
    intro t inside
    rcases List.mem_append.mp inside with before | last
    · exact T.left t before
    · rw [List.mem_singleton.mp last]
      exact some
  apart := by
    rw [List.map_append, List.nodup_append]
    refine ⟨T.apart, List.nodup_singleton _, ?_⟩
    rintro a before b last rfl
    rw [List.map_singleton, List.mem_singleton] at last
    exact taFind_none lacks (last ▸ before)

/-- TADD. -/
def tadd (TNEW : Term) (v : Relocatable) : Relocatable :=
  match found : taFind TNEW v.EVNT.list with
  | some _ => { v with EVNT := v.EVNT.merge found }
  | .none =>
      if zero : TNEW.coef = 0#16 then v
      else if room : v.EVNT.list.length < MAXTERMS then
        { v with EVNT := v.EVNT.push TNEW found zero room }
      else { v with COMPLEX := true }

/-- TSCALE. -/
def Terms.scale (D : Word) (T : Terms) : Terms where
  list := (T.list.map fun t => { t with coef := t.coef * D }).filter fun t => t.coef ≠ 0#16
  few := by
    refine Nat.le_trans (List.length_filter_le _ _) ?_
    rw [List.length_map]
    exact T.few
  left := fun t inside => of_decide_eq_true (List.mem_filter.mp inside).2
  apart := by
    refine List.Nodup.sublist (List.filter_sublist.map _) ?_
    rw [List.map_map]
    exact T.apart

def tscale (D : Word) (v : Relocatable) : Relocatable := { v with EVNT := v.EVNT.scale D }

def toocomplex (v : Relocatable) : Relocatable := { v with COMPLEX := true, EVNT := .none }

def low (v : BitVec 32) : Word := v.setWidth 16

/-- AOTERMS, where there are terms. -/
def aoterms (op : Byte) (l r : Relocatable) : Relocatable :=
  let v := { r with COMPLEX := l.COMPLEX || r.COMPLEX }
  if l.EVNT.list = [] ∧ r.EVNT.list = [] then v
  else if op = OP_PLUS then
    r.EVNT.list.foldl (fun v t => tadd t v) { v with EVNT := l.EVNT }
  else if op = OP_MINUS then
    r.EVNT.list.foldl (fun v t => tadd { t with coef := -t.coef } v) { v with EVNT := l.EVNT }
  else if op = OP_TIMES then
    if l.EVNT.list = [] then tscale (low l.EVAL) v
    else if r.EVNT.list ≠ [] then toocomplex v
    else tscale (low r.EVAL) { v with EVNT := l.EVNT }
  else toocomplex v

def applyop (op : Byte) (l r : Relocatable) : Relocatable :=
  { aoterms op l r with EVAL := aoValue op l.EVAL r.EVAL }

/-- TM_NEG. -/
def tmNeg (v : Relocatable) : Relocatable := tscale (-1) { v with EVAL := NEG32 v.EVAL }

/-- TM_COM, but for an 8-bit immediate. -/
def tmCom (v : Relocatable) : Relocatable :=
  let v := { v with EVAL := ~~~v.EVAL }
  if v.EVNT.list = [] then v else toocomplex v

/-- An expression.  An address is its offset, 0 for an import, from a base. -/
inductive Expr
  | num (v : BitVec 32)
  | addr (offset : BitVec 32) (id : Base)
  | neg (e : Expr)
  | com (e : Expr)
  | bin (op : Byte) (l r : Expr)

def Expr.value : Expr → Relocatable
  | .num v => { EVAL := v, COMPLEX := false, EVNT := .none }
  | .addr offset id => tadd ⟨id, 1#16⟩ { EVAL := offset, COMPLEX := false, EVNT := .none }
  | .neg e => tmNeg e.value
  | .com e => tmCom e.value
  | .bin op l r => applyop op l.value r.value

/-! What it means, once the linker has put the bases somewhere. -/

section Meaning

variable (place : Base → Word)

def Term.at (t : Term) : Word := t.coef * place t.id

def total (ts : List Term) : Word := (ts.map (Term.at place)).sum

def Relocatable.at (v : Relocatable) : Word := low v.EVAL + total place v.EVNT.list

/-- Dividing and the logic of true and false are for constants, which are as ASM has them. -/
def Expr.at : Expr → Word
  | .num v => low v
  | .addr offset id => low offset + place id
  | .neg e => -e.at
  | .com e => ~~~e.at
  | .bin op l r =>
      if op = OP_PLUS then l.at + r.at
      else if op = OP_MINUS then l.at - r.at
      else if op = OP_TIMES then l.at * r.at
      else if op = OP_BAND then l.at &&& r.at
      else if op = OP_BOR then l.at ||| r.at
      else if op = OP_BXOR then l.at ^^^ r.at
      else low (aoValue op l.value.EVAL r.value.EVAL)

theorem total_cons (t : Term) (ts : List Term) :
    total place (t :: ts) = t.at place + total place ts := by
  rw [total, List.map_cons, List.sum_cons, total]

theorem taFind_total {TNEW : Term} {ts L : List Term} (found : taFind TNEW ts = some L) :
    total place L = total place ts + TNEW.at place := by
  induction ts generalizing L with
  | nil => cases found
  | cons t ts ih =>
      rw [taFind] at found
      split at found
      · next same =>
          have like : t.at place + TNEW.at place = (t.coef + TNEW.coef) * place t.id := by
            rw [Term.at, Term.at, same]
            ring
          have sum : total place (t :: ts) + TNEW.at place =
              (t.coef + TNEW.coef) * place t.id + total place ts := by
            rw [← like, total_cons]
            ring
          rw [sum]
          split at found
          · next zero =>
              cases found
              rw [zero, BitVec.zero_mul, BitVec.zero_add]
          · cases found
            exact total_cons place _ _
      · obtain ⟨L, later, rfl⟩ := Option.map_eq_some_iff.mp found
        rw [total_cons, ih later, total_cons]
        ring

theorem tadd_total {TNEW : Term} {v : Relocatable} (plain : (tadd TNEW v).COMPLEX = false) :
    total place (tadd TNEW v).EVNT.list = total place v.EVNT.list + TNEW.at place := by
  rw [tadd] at plain ⊢
  split
  · next found => exact taFind_total place found
  · next lacks =>
      split
      · next zero => rw [Term.at, zero, BitVec.zero_mul, BitVec.add_zero]
      · next some =>
          split
          · show total place (v.EVNT.list ++ [TNEW]) = _
            rw [total, List.map_append, List.sum_append, List.map_singleton, List.sum_singleton, total]
          · next full =>
              split at plain
              · next _ found =>
                  rw [lacks] at found
                  cases found
              · rw [dif_neg some, dif_neg full] at plain
                cases plain

theorem tadd_eval (TNEW : Term) (v : Relocatable) : (tadd TNEW v).EVAL = v.EVAL := by
  rw [tadd]
  repeat' split
  all_goals rfl

theorem tadd_complex {TNEW : Term} {v : Relocatable} (plain : (tadd TNEW v).COMPLEX = false) :
    v.COMPLEX = false := by
  rw [tadd] at plain
  split at plain
  · exact plain
  · split at plain
    · exact plain
    · split at plain
      · exact plain
      · cases plain

/-- Terms are added one by one, each as `f` has it. -/
theorem tadds_total (f : Term → Term) {ts : List Term} {v : Relocatable}
    (plain : (ts.foldl (fun v t => tadd (f t) v) v).COMPLEX = false) :
    v.COMPLEX = false ∧ total place (ts.foldl (fun v t => tadd (f t) v) v).EVNT.list =
      total place v.EVNT.list + total place (ts.map f) := by
  induction ts generalizing v with
  | nil => exact ⟨plain, (add_zero _).symm⟩
  | cons t ts ih =>
      obtain ⟨first, rest⟩ := @ih (tadd (f t) v) plain
      refine ⟨tadd_complex first, ?_⟩
      rw [List.foldl_cons, rest, tadd_total place first, List.map_cons, total_cons]
      ring

theorem total_neg (ts : List Term) :
    total place (ts.map fun t => { t with coef := -t.coef }) = -total place ts := by
  induction ts with
  | nil => exact neg_zero.symm
  | cons t ts ih =>
      rw [List.map_cons, total_cons, ih, total_cons, Term.at, Term.at]
      ring

theorem scale_total (D : Word) (T : Terms) :
    total place (T.scale D).list = D * total place T.list := by
  show total place ((T.list.map _).filter _) = _
  induction T.list with
  | nil => exact (mul_zero D).symm
  | cons t ts ih =>
      rw [List.map_cons, total_cons]
      by_cases zero : t.coef * D = 0#16
      · have dropped : D * t.at place = 0 := by
          calc D * t.at place = (t.coef * D) * place t.id := by rw [Term.at]; ring
            _ = 0 := by rw [zero, BitVec.zero_mul]; rfl
        rw [List.filter_cons_of_neg (by simpa using zero), ih, mul_add, dropped, zero_add]
      · rw [List.filter_cons_of_pos (by simpa using zero), total_cons, ih, Term.at, Term.at]
        ring

theorem total_none {T : Terms} (none : T.list = []) : total place T.list = 0 := by
  rw [none]
  rfl

@[simp] theorem low_add (l r : BitVec 32) : low (l + r) = low l + low r :=
  BitVec.setWidth_add l r (by omega)

@[simp] theorem low_neg (v : BitVec 32) : low (-v) = -low v := BitVec.setWidth_neg_of_le (by omega)

@[simp] theorem low_mul (l r : BitVec 32) : low (l * r) = low l * low r :=
  BitVec.setWidth_mul l r (by omega)

@[simp] theorem low_sub (l r : BitVec 32) : low (l - r) = low l - low r := by
  rw [BitVec.sub_eq_add_neg, low_add, low_neg, ← BitVec.sub_eq_add_neg]

@[simp] theorem low_not (v : BitVec 32) : low (~~~v) = ~~~low v := BitVec.setWidth_not (by omega)

@[simp] theorem low_and (l r : BitVec 32) : low (l &&& r) = low l &&& low r := BitVec.setWidth_and

@[simp] theorem low_or (l r : BitVec 32) : low (l ||| r) = low l ||| low r := BitVec.setWidth_or

@[simp] theorem low_xor (l r : BitVec 32) : low (l ^^^ r) = low l ^^^ low r := BitVec.setWidth_xor

theorem at_constant {v : Relocatable} (none : v.EVNT.list = []) : v.at place = low v.EVAL := by
  rw [Relocatable.at, none]
  exact add_zero _

theorem aoterms_complex {op : Byte} {l r : Relocatable} (plain : (aoterms op l r).COMPLEX = false) :
    l.COMPLEX = false ∧ r.COMPLEX = false := by
  rw [← Bool.or_eq_false_iff]
  rw [aoterms] at plain
  split at plain
  · exact plain
  · split at plain
    · exact (tadds_total (fun _ => 0#16) id plain).1
    · split at plain
      · exact (tadds_total (fun _ => 0#16) (fun t => { t with coef := -t.coef }) plain).1
      · split at plain
        · split at plain
          · exact plain
          · split at plain
            · cases plain
            · exact plain
        · cases plain

/-- An operator's terms: there are none, or it is +, − or a product with a constant. -/
theorem aoterms_total {op : Byte} {l r : Relocatable} (plain : (aoterms op l r).COMPLEX = false) :
    let L := total place l.EVNT.list
    let R := total place r.EVNT.list
    let T := total place (aoterms op l r).EVNT.list
    (l.EVNT.list = [] ∧ r.EVNT.list = [] ∧ T = 0) ∨ (op = OP_PLUS ∧ T = L + R) ∨
      (op = OP_MINUS ∧ T = L - R) ∨
      (op = OP_TIMES ∧ L * R = 0 ∧ T = low l.EVAL * R + low r.EVAL * L) := by
  dsimp only
  rw [aoterms] at plain ⊢
  dsimp only at plain ⊢
  split
  · next none => exact .inl ⟨none.1, none.2, total_none place none.2⟩
  · next terms =>
      rw [if_neg terms] at plain
      refine .inr ?_
      split
      · next plus =>
          rw [if_pos plus] at plain
          have sum := (tadds_total place id plain).2
          rw [List.map_id] at sum
          exact .inl ⟨plus, sum⟩
      · next notPlus =>
          rw [if_neg notPlus] at plain
          refine .inr ?_
          split
          · next minus =>
              rw [if_pos minus] at plain
              have sum := (tadds_total place (fun t => { t with coef := -t.coef }) plain).2
              rw [total_neg, ← sub_eq_add_neg] at sum
              exact .inl ⟨minus, sum⟩
          · next notMinus =>
              rw [if_neg notMinus] at plain
              split
              · next times =>
                  rw [if_pos times] at plain
                  refine .inr ⟨times, ?_⟩
                  split
                  · next none =>
                      rw [total_none place none, zero_mul, mul_zero, add_zero]
                      exact ⟨rfl, scale_total place _ _⟩
                  · next some =>
                      rw [if_neg some] at plain
                      split
                      · next both =>
                          rw [if_pos both] at plain
                          cases plain
                      · next none =>
                          rw [not_not] at none
                          rw [total_none place none, mul_zero, mul_zero, zero_add]
                          exact ⟨rfl, scale_total place _ _⟩
              · next other =>
                  rw [if_neg other] at plain
                  cases plain

theorem applyop_at {op : Byte} {l r : Relocatable} (plain : (applyop op l r).COMPLEX = false) :
    (applyop op l r).at place =
      if op = OP_PLUS then l.at place + r.at place
      else if op = OP_MINUS then l.at place - r.at place
      else if op = OP_TIMES then l.at place * r.at place
      else if op = OP_BAND then l.at place &&& r.at place
      else if op = OP_BOR then l.at place ||| r.at place
      else if op = OP_BXOR then l.at place ^^^ r.at place
      else low (aoValue op l.EVAL r.EVAL) := by
  have value : (applyop op l r).at place =
      low (aoValue op l.EVAL r.EVAL) + total place (aoterms op l r).EVNT.list := rfl
  rcases aoterms_total place plain with ⟨noL, noR, none⟩ | ⟨rfl, sum⟩ | ⟨rfl, sum⟩ | ⟨rfl, zero, sum⟩
  · rw [value, none, add_zero, at_constant place noL, at_constant place noR]
    by_cases plus : op = OP_PLUS
    · rw [if_pos plus, plus, ← low_add]
      rfl
    rw [if_neg plus]
    by_cases minus : op = OP_MINUS
    · rw [if_pos minus, minus, ← low_sub]
      rfl
    rw [if_neg minus]
    by_cases times : op = OP_TIMES
    · rw [if_pos times, times, ← low_mul, ← MUL32_eq]
      rfl
    rw [if_neg times]
    by_cases band : op = OP_BAND
    · rw [if_pos band, band, ← low_and]
      rfl
    rw [if_neg band]
    by_cases bor : op = OP_BOR
    · rw [if_pos bor, bor, ← low_or]
      rfl
    rw [if_neg bor]
    by_cases bxor : op = OP_BXOR
    · rw [if_pos bxor, bxor, ← low_xor]
      rfl
    · rw [if_neg bxor]
  · rw [value, if_pos rfl, sum, show aoValue OP_PLUS l.EVAL r.EVAL = l.EVAL + r.EVAL from rfl, low_add,
      Relocatable.at, Relocatable.at]
    ring
  · rw [value, if_neg (by decide), if_pos rfl, sum,
      show aoValue OP_MINUS l.EVAL r.EVAL = l.EVAL - r.EVAL from rfl, low_sub, Relocatable.at,
      Relocatable.at]
    ring
  · rw [value, if_neg (by decide), if_neg (by decide), if_pos rfl, sum,
      show aoValue OP_TIMES l.EVAL r.EVAL = MUL32 l.EVAL r.EVAL from rfl, MUL32_eq, low_mul,
      Relocatable.at, Relocatable.at]
    calc low l.EVAL * low r.EVAL +
          (low l.EVAL * total place r.EVNT.list + low r.EVAL * total place l.EVNT.list)
        = low l.EVAL * low r.EVAL +
          (low l.EVAL * total place r.EVNT.list + low r.EVAL * total place l.EVNT.list) +
          total place l.EVNT.list * total place r.EVNT.list := by rw [zero, add_zero]
      _ = (low l.EVAL + total place l.EVNT.list) * (low r.EVAL + total place r.EVNT.list) := by ring

theorem tmNeg_at (v : Relocatable) : (tmNeg v).at place = -v.at place := by
  show low (0#32 - v.EVAL) + total place (v.EVNT.scale (-1)).list = _
  rw [scale_total, BitVec.zero_sub, low_neg, Relocatable.at]
  ring

theorem tmCom_at {v : Relocatable} (plain : (tmCom v).COMPLEX = false) :
    v.COMPLEX = false ∧ (tmCom v).at place = ~~~v.at place := by
  rw [tmCom] at plain ⊢
  dsimp only at plain ⊢
  split
  · next none =>
      rw [if_pos none] at plain
      refine ⟨plain, ?_⟩
      rw [at_constant place none, ← low_not]
      exact at_constant place none
  · next some =>
      rw [if_neg some] at plain
      cases plain

/-- What ASM makes of an expression, a constant and terms, is what it means. -/
theorem Expr.value_at {e : Expr} (plain : e.value.COMPLEX = false) : e.value.at place = e.at place := by
  induction e with
  | num v => exact at_constant place rfl
  | addr offset id =>
      have sum := tadd_total place plain
      show low (tadd ⟨id, 1#16⟩ _).EVAL + _ = low offset + place id
      rw [tadd_eval]
      refine congrArg (low offset + ·) (sum.trans ?_)
      rw [total_none place rfl, zero_add, Term.at, BitVec.one_mul]
  | neg e ih => exact (tmNeg_at place e.value).trans (congrArg (- ·) (ih plain))
  | com e ih =>
      obtain ⟨inner, complement⟩ := tmCom_at place plain
      exact complement.trans (congrArg (~~~ ·) (ih inner))
  | bin op l r ihL ihR =>
      obtain ⟨left, right⟩ := aoterms_complex plain
      rw [Expr.value, applyop_at place plain, ihL left, ihR right, Expr.at]

end Meaning

end Pugputer.Objects
