import Mathlib.Data.List.Count
import Mathlib.Data.List.Induction

namespace Pugputer.Lib.LineEnds

/-! Text whose lines end in one terminator, in another or in both, and the same with one only. -/

variable {α : Type*} [DecidableEq α] (cr lf : α)

/-- Every CR LF, lone CR and lone LF is one LF. -/
def unify : List α → List α
  | [] => []
  | [a] => [if a = cr then lf else a]
  | a :: b :: rest =>
      if a = cr ∧ b = lf then lf :: unify rest
      else (if a = cr then lf else a) :: unify (b :: rest)

/-- There is an LF, and what comes just before it is so. -/
def LfAfter (P : Option α → Prop) (content : List α) : Prop :=
  ∃ before after, content = before ++ lf :: after ∧ P before.getLast?

def HasCrlf (content : List α) : Prop := LfAfter lf (· = some cr) content

def HasBareLf (content : List α) : Prop := LfAfter lf (· ≠ some cr) content

/-- Empty, or its last line has an end. -/
def Ended (text : List α) : Prop := text.getLast?.getD lf = lf

instance (text : List α) : Decidable (Ended lf text) :=
  inferInstanceAs (Decidable (text.getLast?.getD lf = lf))

/-- Every LF as this line end. -/
def written (eol text : List α) : List α := text.flatMap fun a => if a = lf then eol else [a]

/-- The same, and the last line ended too. -/
def saved (eol text : List α) : List α := written lf eol text ++ if Ended lf text then [] else eol

def lineCount (text : List α) : Nat := text.count lf + if Ended lf text then 0 else 1

variable {cr lf} {content text l : List α} {a : α}

theorem unify_snoc (two : cr ≠ lf) (l : List α) (a : α) :
    unify cr lf (l ++ [a]) = if a = lf ∧ l.getLast? = some cr then unify cr lf l
      else unify cr lf l ++ [if a = cr then lf else a] := by
  induction l using unify.induct cr lf with
  | case1 => simp [unify]
  | case2 b =>
      by_cases isLf : a = lf <;> by_cases isCr : b = cr <;> simp [unify, isLf, isCr]
  | case3 b c rest pair ih =>
      obtain ⟨rfl, rfl⟩ := pair
      have last : (b :: c :: rest).getLast? = some b ↔ rest.getLast? = some b := by
        cases rest with
        | nil => exact iff_of_false (fun same => two (Option.some.inj same).symm) (by rintro ⟨⟩)
        | cons d rest => rw [List.getLast?_cons_cons, List.getLast?_cons_cons]
      have step (rest : List α) : unify b c (b :: c :: rest) = c :: unify b c rest :=
        if_pos ⟨rfl, rfl⟩
      rw [List.cons_append, List.cons_append, step, step, ih, apply_ite (c :: ·)]
      exact if_congr (and_congr_right' last.symm) rfl rfl
  | case4 b c rest other ih =>
      have step (rest : List α) : unify cr lf (b :: c :: rest) =
          (if b = cr then lf else b) :: unify cr lf (c :: rest) := if_neg other
      rw [List.cons_append, List.cons_append, step, step, ← List.cons_append, ih,
        List.getLast?_cons_cons, apply_ite ((if b = cr then lf else b) :: ·)]
      rfl

omit [DecidableEq α] in
theorem lfAfter_snoc {P : Option α → Prop} :
    LfAfter lf P (l ++ [a]) ↔ LfAfter lf P l ∨ (a = lf ∧ P l.getLast?) := by
  constructor
  · rintro ⟨before, after, same, holds⟩
    rcases List.eq_nil_or_concat after with rfl | ⟨rest, last, rfl⟩
    · obtain ⟨rfl, one⟩ := List.append_inj' same rfl
      exact .inr ⟨List.head_eq_of_cons_eq one, holds⟩
    · have regrouped : l ++ [a] = (before ++ lf :: rest) ++ [last] := by
        rw [same, List.append_assoc, List.cons_append, List.concat_eq_append]
      obtain ⟨rfl, -⟩ := List.append_inj' regrouped rfl
      exact .inl ⟨before, rest, rfl, holds⟩
  · rintro (⟨before, after, rfl, holds⟩ | ⟨rfl, holds⟩)
    · exact ⟨before, after ++ [a], by rw [List.append_assoc, List.cons_append], holds⟩
    · exact ⟨l, [], rfl, holds⟩

omit [DecidableEq α] in
theorem not_lfAfter_nil {P : Option α → Prop} : ¬LfAfter lf P ([] : List α) := by
  rintro ⟨before, after, same, -⟩
  exact absurd same.symm (List.append_ne_nil_of_right_ne_nil before (List.cons_ne_nil _ _))

omit [DecidableEq α] in
theorem ended_snoc : Ended lf (l ++ [a]) ↔ a = lf := by
  rw [Ended, List.getLast?_concat]
  exact Iff.rfl

theorem written_snoc {eol : List α} : written lf eol (l ++ [a]) =
    written lf eol l ++ if a = lf then eol else [a] := by
  rw [written, List.flatMap_append, List.flatMap_singleton]
  rfl

theorem written_take_le {eol : List α} (text : List α) (n : Nat) :
    (written lf eol (text.take n)).length ≤ (saved lf eol text).length := by
  have parts : written lf eol text = written lf eol (text.take n) ++ written lf eol (text.drop n) := by
    rw [written, written, written, ← List.flatMap_append, List.take_append_drop]
  rw [saved, parts, List.length_append, List.length_append]
  omega

/-! A text of plain lines, all ended alike. -/

/-- No CR and no LF. -/
def Plain (cr lf : α) (line : List α) : Prop := ∀ b ∈ line, b ≠ cr ∧ b ≠ lf

theorem unify_plain {line rest : List α} (plain : Plain cr lf line) :
    unify cr lf (line ++ rest) = line ++ unify cr lf rest := by
  induction line with
  | nil => rfl
  | cons b line ih =>
      have notCr := (plain b List.mem_cons_self).1
      have rest_ := ih fun c member => plain c (List.mem_cons_of_mem b member)
      rw [List.cons_append, List.cons_append]
      cases more : line ++ rest with
      | nil =>
          rw [more] at rest_
          rw [unify, if_neg notCr, ← rest_]
          rfl
      | cons c more' => rw [unify, if_neg fun both => notCr both.1, if_neg notCr, ← more, rest_]

theorem unify_crlf {lines : List (List α)} (plain : ∀ line ∈ lines, Plain cr lf line) :
    unify cr lf (lines.flatMap (· ++ [cr, lf])) = lines.flatMap (· ++ [lf]) := by
  induction lines with
  | nil => rfl
  | cons line rest ih =>
      have step (text : List α) : unify cr lf (cr :: lf :: text) = lf :: unify cr lf text :=
        if_pos ⟨rfl, rfl⟩
      rw [List.flatMap_cons, List.flatMap_cons, List.append_assoc, List.append_assoc,
        unify_plain (plain line List.mem_cons_self), List.cons_append, List.singleton_append, step,
        ih fun l member => plain l (List.mem_cons_of_mem _ member)]
      rfl

theorem unify_lf (two : cr ≠ lf) {lines : List (List α)}
    (plain : ∀ line ∈ lines, Plain cr lf line) :
    unify cr lf (lines.flatMap (· ++ [lf])) = lines.flatMap (· ++ [lf]) := by
  induction lines with
  | nil => rfl
  | cons line rest ih =>
      have step (text : List α) : unify cr lf (lf :: text) = lf :: unify cr lf text := by
        cases text with
        | nil => exact congrArg (fun a => [a]) (ite_self lf)
        | cons b text => rw [unify, if_neg fun both => two both.1.symm, if_neg two.symm]
      rw [List.flatMap_cons, List.append_assoc, unify_plain (plain line List.mem_cons_self),
        List.singleton_append, step, ih fun l member => plain l (List.mem_cons_of_mem _ member)]

theorem written_lines {eol : List α} {lines : List (List α)}
    (plain : ∀ line ∈ lines, Plain cr lf line) :
    written lf eol (lines.flatMap (· ++ [lf])) = lines.flatMap (· ++ eol) := by
  have same (line : List α) (plainLine : Plain cr lf line) :
      line.flatMap (fun a => if a = lf then eol else [a]) = line := by
    induction line with
    | nil => rfl
    | cons b line ih =>
        rw [List.flatMap_cons, if_neg (plainLine b List.mem_cons_self).2,
          ih fun c member => plainLine c (List.mem_cons_of_mem b member)]
        rfl
  induction lines with
  | nil => rfl
  | cons line rest ih =>
      have others := ih fun l member => plain l (List.mem_cons_of_mem _ member)
      rw [written] at others ⊢
      rw [List.flatMap_cons, List.flatMap_append, others, List.flatMap_append,
        same line (plain line List.mem_cons_self), List.flatMap_singleton, if_pos rfl,
        List.flatMap_cons]

omit [DecidableEq α] in
theorem ended_lines (lines : List (List α)) : Ended lf (lines.flatMap (· ++ [lf])) := by
  rcases List.eq_nil_or_concat lines with rfl | ⟨rest, last, rfl⟩
  · rfl
  · rw [List.concat_eq_append, List.flatMap_append, List.flatMap_singleton, ← List.append_assoc]
    exact ended_snoc.mpr rfl

theorem saved_lines {eol : List α} {lines : List (List α)}
    (plain : ∀ line ∈ lines, Plain cr lf line) :
    saved lf eol (lines.flatMap (· ++ [lf])) = lines.flatMap (· ++ eol) := by
  rw [saved, written_lines plain, if_pos (ended_lines lines), List.append_nil]

omit [DecidableEq α] in
theorem lfAfter_plain {P : Option α → Prop} {line : List α} (plain : Plain cr lf line) :
    LfAfter lf P (l ++ line) ↔ LfAfter lf P l := by
  induction line using List.reverseRecOn with
  | nil => rw [List.append_nil]
  | append_singleton line b ih =>
      have notLf := (plain b (List.mem_append_right _ List.mem_cons_self)).2
      rw [← List.append_assoc, lfAfter_snoc, ih fun c member => plain c (List.mem_append_left _ member)]
      exact or_iff_left fun both => notLf both.1

omit [DecidableEq α] in
theorem crlf_not_bare {lines : List (List α)} (two : cr ≠ lf)
    (plain : ∀ line ∈ lines, Plain cr lf line) :
    ¬HasBareLf cr lf (lines.flatMap (· ++ [cr, lf])) := by
  induction lines using List.reverseRecOn with
  | nil => exact not_lfAfter_nil
  | append_singleton rest line ih =>
      have ends : [cr, lf] = [cr] ++ [lf] := rfl
      rw [List.flatMap_append, List.flatMap_singleton, ends, ← List.append_assoc,
        ← List.append_assoc, HasBareLf, lfAfter_snoc, lfAfter_snoc, List.getLast?_concat,
        lfAfter_plain (plain line (List.mem_append_right _ List.mem_cons_self))]
      rintro ((earlier | ⟨same, -⟩) | ⟨-, other⟩)
      · exact ih (fun l member => plain l (List.mem_append_left _ member)) earlier
      · exact two same
      · exact other rfl

omit [DecidableEq α] in
theorem lf_not_crlf {lines : List (List α)} (two : cr ≠ lf)
    (plain : ∀ line ∈ lines, Plain cr lf line) :
    ¬HasCrlf cr lf (lines.flatMap (· ++ [lf])) := by
  induction lines using List.reverseRecOn with
  | nil => exact not_lfAfter_nil
  | append_singleton rest line ih =>
      have plainLine := plain line (List.mem_append_right _ List.mem_cons_self)
      rw [List.flatMap_append, List.flatMap_singleton, ← List.append_assoc, HasCrlf, lfAfter_snoc,
        lfAfter_plain plainLine]
      rintro (earlier | ⟨-, last⟩)
      · exact ih (fun l member => plain l (List.mem_append_left _ member)) earlier
      · have member := List.mem_of_getLast? last
        rcases List.mem_append.mp member with before | within
        · obtain ⟨l, lMember, inside⟩ := List.mem_flatMap.mp before
          rcases List.mem_append.mp inside with within | isLf
          · exact (plain l (List.mem_append_left _ lMember) cr within).1 rfl
          · exact two (List.mem_singleton.mp isLf)
        · exact (plainLine cr within).1 rfl

omit [DecidableEq α] in
theorem lf_bare {lines : List (List α)} (some : lines ≠ [])
    (plain : ∀ line ∈ lines, Plain cr lf line) :
    HasBareLf cr lf (lines.flatMap (· ++ [lf])) := by
  cases lines with
  | nil => exact absurd rfl some
  | cons line rest =>
      refine ⟨line, rest.flatMap (· ++ [lf]), ?_, fun last => ?_⟩
      · rw [List.flatMap_cons, List.append_assoc, List.singleton_append]
      · exact (plain line List.mem_cons_self cr (List.mem_of_getLast? last)).1 rfl

end Pugputer.Lib.LineEnds
