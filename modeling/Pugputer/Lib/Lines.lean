import Mathlib.Data.Nat.Notation

namespace Pugputer.Lib.Lines

/-! Text in lines, each ended by one terminator, by another, or by both one after the other. -/

variable {α : Type*} [DecidableEq α]

/-- The first line, and what comes after its CR LF, CR or LF. -/
def first (cr lf : α) : List α → List α × List α
  | [] => ([], [])
  | b :: rest =>
      if b = cr then ([], if rest.head? = some lf then rest.tail else rest)
      else if b = lf then ([], rest)
      else (b :: (first cr lf rest).1, (first cr lf rest).2)

/-- A CR before an LF ends no line: the LF does. -/
def split (cr lf : α) : List α → List (List α)
  | [] => []
  | b :: rest =>
      if b = cr then
        if rest.head? = some lf then split cr lf rest else [] :: split cr lf rest
      else if b = lf then [] :: split cr lf rest
      else
        match split cr lf rest with
        | [] => [[b]]
        | line :: more => (b :: line) :: more

/-- What comes after so many lines. -/
def after (cr lf : α) : (n : Nat) → List α → List α
  | 0, content => content
  | n + 1, content => after cr lf n (first cr lf content).2

/-- No CR and no LF. -/
def Plain (cr lf : α) (line : List α) : Prop := ∀ b ∈ line, b ≠ cr ∧ b ≠ lf

variable {cr lf : α} {content line rest : List α}

theorem split_first (two : cr ≠ lf) (some : content ≠ []) :
    split cr lf content = (first cr lf content).1 :: split cr lf (first cr lf content).2 := by
  induction content with
  | nil => exact absurd rfl some
  | cons b rest ih =>
      rw [split, first]
      split
      · split
        · next follows =>
            obtain ⟨more, rfl⟩ := List.head?_eq_some_iff.mp follows
            rw [split, if_neg two.symm, if_pos rfl, List.tail_cons]
        · rfl
      · split
        · rfl
        · dsimp only
          cases rest with
          | nil => rfl
          | cons c more => rw [ih (List.cons_ne_nil c more)]

/-- There is nothing after the last line. -/
theorem after_length (two : cr ≠ lf) {n : Nat} (all : (split cr lf content).length = n) :
    after cr lf n content = [] := by
  induction n generalizing content with
  | zero =>
      cases content with
      | nil => rfl
      | cons b rest =>
          rw [split_first two (List.cons_ne_nil b rest)] at all
          cases all
  | succ n ih =>
      have some : content ≠ [] := by
        rintro rfl
        cases all
      rw [split_first two some] at all
      exact ih (Nat.succ.inj all)

/-- A line that is written splits off. -/
theorem split_append (plain : Plain cr lf line) (other : rest.head? ≠ some lf) :
    split cr lf (line ++ cr :: rest) = line :: split cr lf rest := by
  induction line with
  | nil => rw [List.nil_append, split, if_pos rfl, if_neg other]
  | cons b line ih =>
      obtain ⟨notCr, notLf⟩ := plain b List.mem_cons_self
      rw [List.cons_append, split, if_neg notCr, if_neg notLf,
        ih fun c member => plain c (List.mem_cons_of_mem b member)]

/-- Plain lines come back from where a CR ends each. -/
theorem split_written (two : cr ≠ lf) {lines : List (List α)}
    (plain : ∀ line ∈ lines, Plain cr lf line) : split cr lf (lines.flatMap (· ++ [cr])) = lines := by
  induction lines with
  | nil => rfl
  | cons line rest ih =>
      have others := fun line member => plain line (List.mem_cons_of_mem _ member)
      rw [List.flatMap_cons, List.append_assoc, List.singleton_append,
        split_append (plain line List.mem_cons_self), ih others]
      cases rest with
      | nil => exact fun same => by cases same
      | cons next more =>
          rw [List.flatMap_cons]
          cases next with
          | nil => exact fun same => two (Option.some.inj same)
          | cons b next =>
              intro same
              exact (others (b :: next) List.mem_cons_self b List.mem_cons_self).2
                (Option.some.inj same)

end Pugputer.Lib.Lines
