import Mathlib.Logic.Relation
import Mathlib.Tactic.ByContra

namespace Pugputer

/-! What is joined to a place by steps that stay inside. -/

section Joined

variable {α : Type*} {next : α → α → Prop} {inside F : α → Prop} {a b c : α}

def Joined (next : α → α → Prop) (inside : α → Prop) : α → α → Prop :=
  Relation.ReflTransGen fun a b => next a b ∧ inside b

namespace Joined

theorem start : Joined next inside a a := Relation.ReflTransGen.refl

theorem step (joined : Joined next inside a b) (beside : next b c) (within : inside c) :
    Joined next inside a c :=
  Relation.ReflTransGen.tail joined ⟨beside, within⟩

theorem trans (joined : Joined next inside a b) (joined' : Joined next inside b c) :
    Joined next inside a c :=
  Relation.ReflTransGen.trans joined joined'

theorem within (start : inside a) (joined : Joined next inside a b) : inside b := by
  cases joined with
  | refl => exact start
  | tail _ last => exact last.2

/-- What no step leads out of has all that is joined to any of it. -/
theorem closed (joined : Joined next inside a b) (start : F a)
    (steps : ∀ b c, F b → next b c → inside c → F c) : F b := by
  induction joined with
  | refl => exact start
  | tail _ last ih => exact steps _ _ ih last.1 last.2

/-- A map between places that keeps steps keeps what is joined. -/
theorem map {β : Type*} {next' : β → β → Prop} {inside' : β → Prop} (f : α → β)
    (joined : Joined next inside a b) (start : inside a)
    (steps : ∀ b c, inside b → next b c → inside c → next' (f b) (f c) ∧ inside' (f c)) :
    Joined next' inside' (f a) (f b) := by
  induction joined with
  | refl => exact .start
  | @tail b c joined last ih =>
      obtain ⟨beside, within⟩ := steps b c (Joined.within start joined) last.1 last.2
      exact ih.step beside within

end Joined

end Joined

/-! A grid, with steps across and down. -/

section Grid

def Beside (p q : Nat × Nat) : Prop :=
  p.2 = q.2 ∧ (p.1 + 1 = q.1 ∨ q.1 + 1 = p.1) ∨ p.1 = q.1 ∧ (p.2 + 1 = q.2 ∨ q.2 + 1 = p.2)

theorem Beside.symm {p q : Nat × Nat} (beside : Beside p q) : Beside q p := by
  rcases beside with ⟨same, step⟩ | ⟨same, step⟩
  · exact .inl ⟨same.symm, step.symm⟩
  · exact .inr ⟨same.symm, step.symm⟩

/-- Along a row. -/
theorem Joined.row {inside : Nat × Nat → Prop} {x y : Nat} (d : Nat)
    (all : ∀ i, x ≤ i → i ≤ x + d → inside (i, y)) :
    Joined Beside inside (x, y) (x + d, y) ∧ Joined Beside inside (x + d, y) (x, y) := by
  induction d with
  | zero => exact ⟨.start, .start⟩
  | succ d ih =>
      obtain ⟨onward, back⟩ := ih fun i low high => all i low (Nat.le_succ_of_le high)
      have here := all (x + d) (Nat.le_add_right x d) (Nat.le_succ _)
      have there := all (x + (d + 1)) (Nat.le_add_right x _) (Nat.le_refl _)
      refine ⟨onward.step (.inl ⟨rfl, .inl rfl⟩) there, Joined.trans ?_ back⟩
      exact Joined.start.step (.inl ⟨rfl, .inr rfl⟩) here

/-- Every column from one to the other, whichever is further left. -/
def Between (a b : Nat) (P : Nat → Prop) : Prop := ∀ i, min a b ≤ i → i ≤ max a b → P i

theorem Joined.between {inside : Nat × Nat → Prop} {a b y : Nat}
    (all : Between a b fun i => inside (i, y)) : Joined Beside inside (a, y) (b, y) := by
  rcases Nat.le_total a b with le | le
  · obtain ⟨d, rfl⟩ := Nat.exists_eq_add_of_le le
    exact (Joined.row d fun i low high => all i (by omega) (by omega)).1
  · obtain ⟨d, rfl⟩ := Nat.exists_eq_add_of_le le
    exact (Joined.row d fun i low high => all i (by omega) (by omega)).2

/-! Filling a region a row's stretch at a time, with a stack of places to go on from.  A is what
is to be filled, F what has been. -/

variable {A F U U' : Nat × Nat → Prop} {X p q : Nat × Nat} {L L' : List (Nat × Nat)} {x y : Nat}

/-- A place of the stack leads to this one along its row. -/
def Covered (U : Nat × Nat → Prop) (L : List (Nat × Nat)) (q : Nat × Nat) : Prop :=
  ∃ a, (a, q.2) ∈ L ∧ Between a q.1 fun i => U (i, q.2)

theorem Between.last {P : Nat → Prop} {a b : Nat} (between : Between a b P) : P b :=
  between b (Nat.min_le_right a b) (Nat.le_max_right a b)

theorem Covered.inside (covered : Covered U L q) : U q := by
  obtain ⟨a, -, between⟩ := covered
  exact between.last

theorem Covered.self (inside : U q) (member : q ∈ L) : Covered U L q := by
  refine ⟨q.1, member, fun i low high => ?_⟩
  rw [Nat.min_self] at low
  rw [Nat.max_self] at high
  rw [Nat.le_antisymm high low]
  exact inside

theorem Covered.mono (covered : Covered U L q) (sub : L ⊆ L') : Covered U L' q := by
  obtain ⟨a, member, between⟩ := covered
  exact ⟨a, sub member, between⟩

theorem Covered.next (covered : Covered U L (x, y)) (inside : U (x + 1, y)) :
    Covered U L (x + 1, y) := by
  obtain ⟨a, member, between⟩ := covered
  refine ⟨a, member, fun i low high => ?_⟩
  dsimp only at between low high ⊢
  by_cases last : i = x + 1
  · rw [last]
    exact inside
  · exact between i (by omega) (by omega)

/-- What happens in another row changes nothing. -/
theorem Covered.row (covered : Covered U L q) (same : ∀ i, U (i, q.2) → U' (i, q.2)) :
    Covered U' L q := by
  obtain ⟨a, member, between⟩ := covered
  exact ⟨a, member, fun i low high => same i (between i low high)⟩

def Unfilled (A F : Nat × Nat → Prop) (q : Nat × Nat) : Prop := A q ∧ ¬F q

def filling (F : Nat × Nat → Prop) (p q : Nat × Nat) : Prop := F q ∨ q = p

theorem Unfilled.apart (unfilled : Unfilled A F q) (other : q ≠ p) : Unfilled A (filling F p) q :=
  ⟨unfilled.1, fun filled => filled.elim unfilled.2 other⟩

theorem Unfilled.before (unfilled : Unfilled A (filling F p) q) : Unfilled A F q ∧ q ≠ p :=
  ⟨⟨unfilled.1, fun filled => unfilled.2 (.inl filled)⟩, fun same => unfilled.2 (.inr same)⟩

/-- Only what is joined to the start is filled, and the stack leads to all that is next to it. -/
structure Fills (A : Nat × Nat → Prop) (X : Nat × Nat) (F : Nat × Nat → Prop)
    (L : List (Nat × Nat)) : Prop where
  within : ∀ p, F p → Joined Beside A X p
  stacked : ∀ p ∈ L, A p → Joined Beside A X p
  closed : ∀ p q, F p → Beside p q → Unfilled A F q → Covered (Unfilled A F) L q
  first : F X ∨ Covered (Unfilled A F) L X

namespace Fills

theorem done (fills : Fills A X F []) (joined : Joined Beside A X q) : F q := by
  refine joined.closed (fills.first.resolve_right ?_) fun b c filled beside inside => ?_
  · rintro ⟨a, member, -⟩
    exact absurd member List.not_mem_nil
  · by_contra unfilled
    obtain ⟨a, member, -⟩ := fills.closed b c filled beside ⟨inside, unfilled⟩
    exact absurd member List.not_mem_nil

/-- A stack that leads to as much. -/
theorem stack (fills : Fills A X F L) (stacked : ∀ p ∈ L', A p → Joined Beside A X p)
    (covers : ∀ q, Covered (Unfilled A F) L q → Covered (Unfilled A F) L' q) : Fills A X F L' where
  within := fills.within
  stacked := stacked
  closed p q filled beside unfilled := covers q (fills.closed p q filled beside unfilled)
  first := fills.first.imp_right (covers X)

/-- A place filled already leads to nothing. -/
theorem drop (fills : Fills A X F (p :: L)) (filled : ¬Unfilled A F p) : Fills A X F L := by
  refine fills.stack (fun q member => fills.stacked q (List.mem_cons_of_mem p member)) ?_
  rintro q ⟨a, member, between⟩
  refine ⟨a, (List.mem_cons.mp member).resolve_left fun same => filled ?_, between⟩
  rw [← same]
  exact between a (Nat.min_le_left a q.1) (Nat.le_max_left a q.1)

/-- The stretch of a place from its start on. -/
theorem along {a b : Nat} (fills : Fills A X F ((a, y) :: L))
    (between : Between a b fun i => Unfilled A F (i, y)) : Fills A X F ((b, y) :: L) := by
  refine fills.stack (fun q member => ?_) ?_
  · rcases List.mem_cons.mp member with rfl | member
    · intro inside
      have first : Unfilled A F (a, y) := between a (Nat.min_le_left a b) (Nat.le_max_left a b)
      exact (fills.stacked (a, y) List.mem_cons_self first.1).trans
        (Joined.between fun i low high => (between i low high).1)
    · exact fills.stacked q (List.mem_cons_of_mem _ member)
  · rintro ⟨x', y'⟩ ⟨a', member, between'⟩
    dsimp only at member between'
    rcases List.mem_cons.mp member with same | member
    · obtain ⟨rfl, rfl⟩ := Prod.mk.inj same
      refine ⟨b, List.mem_cons_self, fun i low high => ?_⟩
      dsimp only at low high
      by_cases inside : min a' x' ≤ i ∧ i ≤ max a' x'
      · exact between' i inside.1 inside.2
      · exact between i (by omega) (by omega)
    · exact ⟨a', List.mem_cons_of_mem _ member, between'⟩

/-- Filling the first place of a stretch leads no less, from the next one on. -/
theorem covered_fill (leftmost : ∀ x', x = x' + 1 → ¬U (x', y)) (sub : L ⊆ L')
    (kept : ∀ q, U q → q ≠ (x, y) → U' q) (covered : Covered U ((x, y) :: L) q) (other : q ≠ (x, y)) :
    Covered U' ((x + 1, y) :: L') q := by
  obtain ⟨x', y'⟩ := q
  obtain ⟨a, member, between⟩ := covered
  dsimp only at member between
  by_cases passes : y' = y ∧ min a x' ≤ x ∧ x ≤ max a x'
  · obtain ⟨rfl, low, high⟩ := passes
    have least : x ≤ min a x' := by
      by_contra less
      obtain ⟨d, rfl⟩ : ∃ d, x = d + 1 := ⟨x - 1, by omega⟩
      exact leftmost d rfl (between d (by omega) (by omega))
    have right : x < x' := by
      have apart : x' ≠ x := fun same => other (by rw [same])
      omega
    refine ⟨x + 1, List.mem_cons_self, fun i low' high' => ?_⟩
    dsimp only at low' high'
    refine kept _ (between i (by omega) (by omega)) fun same => ?_
    have := (Prod.mk.inj same).1
    omega
  · refine ⟨a, List.mem_cons_of_mem _ (sub ((List.mem_cons.mp member).resolve_left fun same => ?_)),
      fun i low high => kept _ (between i low high) fun same => ?_⟩
    · obtain ⟨rfl, rfl⟩ := Prod.mk.inj same
      exact passes ⟨rfl, Nat.min_le_left a x', Nat.le_max_left a x'⟩
    · obtain ⟨rfl, rfl⟩ := Prod.mk.inj same
      exact passes ⟨rfl, low, high⟩

/-- The first place of a stretch filled, and what is above and below it stacked. -/
theorem fill (fills : Fills A X F ((x, y) :: L)) (unfilled : Unfilled A F (x, y))
    (leftmost : ∀ x', x = x' + 1 → ¬Unfilled A F (x', y)) (sub : L ⊆ L')
    (stacked : ∀ p ∈ L', A p → Joined Beside A X p)
    (covers : ∀ y', y' + 1 = y ∨ y + 1 = y' → Unfilled A (filling F (x, y)) (x, y') →
      Covered (Unfilled A (filling F (x, y))) L' (x, y')) :
    Fills A X (filling F (x, y)) ((x + 1, y) :: L') := by
  have here := fills.stacked (x, y) List.mem_cons_self unfilled.1
  refine ⟨?_, ?_, ?_, ?_⟩
  · rintro p (filled | rfl)
    · exact fills.within p filled
    · exact here
  · intro p member inside
    rcases List.mem_cons.mp member with rfl | member
    · exact here.step (.inl ⟨rfl, .inl rfl⟩) inside
    · exact stacked p member inside
  · intro p q filled beside new
    obtain ⟨old, other⟩ := new.before
    rcases filled with filled | rfl
    · exact covered_fill leftmost sub (fun q unfilled other => unfilled.apart other)
        (fills.closed p q filled beside old) other
    · obtain ⟨x', y'⟩ := q
      rcases beside with ⟨same, step | step⟩ | ⟨same, step⟩
      · dsimp only at same step
        subst same step
        exact Covered.self new List.mem_cons_self
      · dsimp only at same step
        subst same
        exact absurd old (leftmost x' step.symm)
      · dsimp only at same step
        subst same
        exact (covers y' (step.symm.imp_right id) new).mono (List.subset_cons_self _ _)
  · by_cases same : X = (x, y)
    · exact .inl (.inr same)
    · rcases fills.first with filled | covered
      · exact .inl (.inl filled)
      · exact .inr (covered_fill leftmost sub (fun q unfilled other => unfilled.apart other) covered same)

end Fills

end Grid

end Pugputer
