import Mathlib.Logic.Function.Basic
import Pugputer.Basic

namespace Pugputer.Asmlink.Symtab

/-! ASM's symbol table: a definition makes a record in pass 1, and pass 2 only checks. -/

abbrev Name := List Byte

/-- HASHNAME: rotate left and add. -/
def hashname (name : Name) : Byte := name.foldl (fun B A => B.rotateLeft 1 + A) 0#8

/-- ISLOCAL: it has @, ? or $. -/
def islocal (name : Name) : Bool := name.any fun A => A = 0x40#8 || A = 0x3F#8 || A = 0x24#8

def sfctx (name : Name) (CONTEXT : Word) : Word := if islocal name then CONTEXT else 0xFFFF#16

/-- A symbol's record; `value` is SR_VAL, SR_ADJ and SR_SECT, with the flags but for SF_SET. -/
structure Sym (α : Type) where
  NAME : Name
  CTX : Word
  SET : Bool
  SEQ : ℕ
  value : α

variable {α : Type}

/-- The records of each bucket, newest first. -/
abbrev Table (α : Type) := Byte → List (Sym α)

/-- SF3_NEXT; `SYMP` is the newest SET version so far, of those from later lines. -/
def sf3 (name : Name) (SFCTX : Word) (LSEQ : ℕ) :
    (SYMP : Option (Sym α)) → List (Sym α) → Option (Sym α)
  | SYMP, [] => SYMP
  | SYMP, r :: rs =>
      if r.NAME = name ∧ r.CTX = SFCTX then
        if !r.SET || r.SEQ < LSEQ then some r else sf3 name SFCTX LSEQ (SYMP.or (some r)) rs
      else sf3 name SFCTX LSEQ SYMP rs

def symfind (T : Table α) (name : Name) (CONTEXT : Word) (LSEQ : ℕ) : Option (Sym α) :=
  sf3 name (sfctx name CONTEXT) LSEQ none (T (hashname name))

/-- A definition as SYMDEF is given it. -/
structure Def (α : Type) where
  name : Name
  CONTEXT : Word
  SET : Bool
  LSEQ : ℕ
  value : α

def Def.record (d : Def α) : Sym α where
  NAME := d.name
  CTX := sfctx d.name d.CONTEXT
  SET := d.SET
  SEQ := d.LSEQ
  value := d.value

def symnew (T : Table α) (d : Def α) : Table α :=
  Function.update T (hashname d.name) (d.record :: T (hashname d.name))

/-- ER_DUPSYM and ER_PHASE. -/
inductive Err
  | dupsym
  | phase

/-- From SD_NEW on. -/
def sdNew (PASS : ℕ) (T : Table α) (d : Def α) : Except Err (Table α) :=
  if PASS = 2 then if d.SET then .ok T else .error .phase
  else .ok (symnew T d)

def symdef (PASS : ℕ) (T : Table α) (d : Def α) : Except Err (Table α) :=
  match symfind T d.name d.CONTEXT d.LSEQ with
  | none => sdNew PASS T d
  | some r =>
      if r.SET then if d.SET then sdNew PASS T d else .error .dupsym
      else if r.SEQ = d.LSEQ then .ok T
      else .error .dupsym

/-- The definitions of a pass without errors. -/
def pass (PASS : ℕ) (ds : List (Def α)) (T : Table α) : Except Err (Table α) :=
  ds.foldlM (symdef PASS) T

def Sym.Of (name : Name) (CTX : Word) (r : Sym α) : Bool := r.NAME = name ∧ r.CTX = CTX

/-- The records of a name in a context, newest first. -/
def versions (T : Table α) (name : Name) (CTX : Word) : List (Sym α) :=
  (T (hashname name)).filter (Sym.Of name CTX)

def hits (LSEQ : ℕ) (r : Sym α) : Bool := !r.SET || r.SEQ < LSEQ

variable {T T' : Table α} {name : Name} {CONTEXT CTX : Word} {LSEQ n : ℕ} {d : Def α} {r : Sym α}

theorem sf3_eq (SYMP : Option (Sym α)) (rs : List (Sym α)) :
    sf3 name CTX LSEQ SYMP rs = ((rs.filter (Sym.Of name CTX)).find? (hits LSEQ)).or
      (SYMP.or (rs.filter (Sym.Of name CTX)).head?) := by
  induction rs generalizing SYMP with
  | nil => rw [sf3, List.filter_nil, List.find?_nil, List.head?_nil, Option.or_none, Option.none_or]
  | cons r rs ih =>
      rw [sf3]
      by_cases same : r.NAME = name ∧ r.CTX = CTX
      · have of_ : Sym.Of name CTX r = true := decide_eq_true same
        rw [if_pos same, List.filter_cons_of_pos of_, List.find?_cons, List.head?_cons]
        cases hit : hits LSEQ r with
        | true =>
            rw [hits] at hit
            rw [if_pos hit]
            rfl
        | false =>
            rw [hits] at hit
            rw [hit, if_neg Bool.false_ne_true, ih, Option.or_assoc, Option.some_or]
      · have other : ¬Sym.Of name CTX r = true := mt of_decide_eq_true same
        rw [if_neg same, ih, List.filter_cons_of_neg other]

/-- The newest version that was set before the line, or that is not a SET symbol's; else the
newest. -/
theorem symfind_eq : symfind T name CONTEXT LSEQ =
    ((versions T name (sfctx name CONTEXT)).find? (hits LSEQ)).or
      (versions T name (sfctx name CONTEXT)).head? := by
  rw [symfind, sf3_eq, Option.none_or, versions]

theorem versions_symnew (T : Table α) (d : Def α) (name : Name) (CTX : Word) :
    versions (symnew T d) name CTX =
      if d.name = name ∧ sfctx d.name d.CONTEXT = CTX then d.record :: versions T name CTX
      else versions T name CTX := by
  rw [versions, symnew, versions]
  by_cases bucket : hashname name = hashname d.name
  · rw [bucket, Function.update_self]
    split
    · next same =>
        have of_ : Sym.Of name CTX d.record = true := decide_eq_true same
        rw [List.filter_cons_of_pos of_]
    · next other =>
        have other : ¬Sym.Of name CTX d.record = true := mt of_decide_eq_true other
        rw [List.filter_cons_of_neg other]
  · rw [Function.update_of_ne bucket, if_neg]
    rintro ⟨rfl, -⟩
    exact bucket rfl

theorem symfind_mem (found : symfind T name CONTEXT LSEQ = some r) :
    r ∈ versions T name (sfctx name CONTEXT) := by
  rw [symfind_eq, Option.or_eq_some_iff] at found
  rcases found with hit | ⟨-, first⟩
  · exact List.mem_of_find?_eq_some hit
  · exact List.mem_of_head? first

theorem symfind_none (none : symfind T name CONTEXT LSEQ = none) :
    versions T name (sfctx name CONTEXT) = [] := by
  rw [symfind_eq, Option.or_eq_none_iff] at none
  exact List.head?_eq_none_iff.mp none.2

/-- What a definition does to the table, in pass 1. -/
theorem symdef_cases (defined : symdef 1 T d = .ok T') :
    (versions T d.name (sfctx d.name d.CONTEXT) = [] ∧ T' = symnew T d) ∨
    (∃ r ∈ versions T d.name (sfctx d.name d.CONTEXT),
      r.SET = true ∧ d.SET = true ∧ T' = symnew T d) ∨
    ∃ r ∈ versions T d.name (sfctx d.name d.CONTEXT), r.SET = false ∧ r.SEQ = d.LSEQ ∧ T' = T := by
  rw [symdef] at defined
  split at defined
  · next none =>
      cases defined
      exact .inl ⟨symfind_none none, rfl⟩
  · next r found =>
      have there := symfind_mem found
      split at defined
      · next set =>
          split at defined
          · next again =>
              cases defined
              exact .inr (.inl ⟨r, there, set, again, rfl⟩)
          · cases defined
      · next constant =>
          split at defined
          · next ours =>
              cases defined
              exact .inr (.inr ⟨r, there, Bool.not_eq_true _ ▸ constant, ours, rfl⟩)
          · cases defined

/-- A constant's one record, or records that are all SET ones. -/
def Clean (vs : List (Sym α)) : Prop :=
  (∃ r, vs = [r] ∧ r.SET = false) ∨ ∀ r ∈ vs, r.SET = true

/-- The definition has been made: its own record if it is a constant's. -/
def Settled (vs : List (Sym α)) (d : Def α) : Prop :=
  (∃ r, vs = [r] ∧ r.SET = false ∧ r.SEQ = d.LSEQ) ∨
    d.SET = true ∧ vs ≠ [] ∧ ∀ r ∈ vs, r.SET = true

def Table.Clean (T : Table α) : Prop := ∀ name CTX, Symtab.Clean (versions T name CTX)

theorem clean_set {vs : List (Sym α)} (clean : Clean vs) (there : r ∈ vs) (set : r.SET = true) :
    ∀ s ∈ vs, s.SET = true := by
  rcases clean with ⟨c, rfl, constant⟩ | all
  · rw [List.mem_singleton.mp there, constant] at set
    cases set
  · exact all

theorem clean_constant {vs : List (Sym α)} (clean : Clean vs) (there : r ∈ vs)
    (constant : r.SET = false) : vs = [r] := by
  rcases clean with ⟨c, rfl, -⟩ | all
  · rw [List.mem_singleton.mp there]
  · rw [all r there] at constant
    cases constant

/-- What there is of a name in a context after a definition of it. -/
theorem symdef_same (clean : T.Clean) (defined : symdef 1 T d = .ok T') :
    Clean (versions T' d.name (sfctx d.name d.CONTEXT)) ∧
      Settled (versions T' d.name (sfctx d.name d.CONTEXT)) d := by
  have before := clean d.name (sfctx d.name d.CONTEXT)
  have new : versions (symnew T d) d.name (sfctx d.name d.CONTEXT) =
      d.record :: versions T d.name (sfctx d.name d.CONTEXT) := by
    rw [versions_symnew, if_pos ⟨rfl, rfl⟩]
  rcases symdef_cases defined with ⟨none, rfl⟩ | ⟨r, there, set, again, rfl⟩ |
    ⟨r, there, constant, ours, rfl⟩
  · rw [new, none]
    cases set : d.SET with
    | false => exact ⟨.inl ⟨_, rfl, set⟩, .inl ⟨_, rfl, set, rfl⟩⟩
    | true =>
        have all : ∀ r ∈ [d.record], r.SET = true := fun r inside =>
          List.mem_singleton.mp inside ▸ set
        exact ⟨.inr all, .inr ⟨set, List.cons_ne_nil _ _, all⟩⟩
  · rw [new]
    have all : ∀ s ∈ d.record :: versions T d.name (sfctx d.name d.CONTEXT), s.SET = true := by
      intro s inside
      rcases List.mem_cons.mp inside with rfl | older
      · exact again
      · exact clean_set before there set s older
    exact ⟨.inr all, .inr ⟨again, List.cons_ne_nil _ _, all⟩⟩
  · exact ⟨before, .inl ⟨r, clean_constant before there constant, constant, ours⟩⟩

/-- Other names are left alone. -/
theorem symdef_other (defined : symdef 1 T d = .ok T')
    (other : ¬(d.name = name ∧ sfctx d.name d.CONTEXT = CTX)) :
    versions T' name CTX = versions T name CTX := by
  rcases symdef_cases defined with ⟨-, rfl⟩ | ⟨-, -, -, -, rfl⟩ | ⟨-, -, -, -, rfl⟩
  · rw [versions_symnew, if_neg other]
  · rw [versions_symnew, if_neg other]
  · rfl

theorem symdef_clean (clean : T.Clean) (defined : symdef 1 T d = .ok T') : T'.Clean := by
  intro name CTX
  by_cases same : d.name = name ∧ sfctx d.name d.CONTEXT = CTX
  · obtain ⟨rfl, rfl⟩ := same
    exact (symdef_same clean defined).1
  · rw [symdef_other defined same]
    exact clean name CTX

/-- A definition that has been made stays so. -/
theorem symdef_settled {e : Def α} (clean : T.Clean) (defined : symdef 1 T d = .ok T')
    (settled : Settled (versions T e.name (sfctx e.name e.CONTEXT)) e) :
    Settled (versions T' e.name (sfctx e.name e.CONTEXT)) e := by
  by_cases same : d.name = e.name ∧ sfctx d.name d.CONTEXT = sfctx e.name e.CONTEXT
  · obtain ⟨name, CTX⟩ := same
    have cases_ := symdef_cases defined
    rw [CTX, name] at cases_
    rcases cases_ with ⟨none, rfl⟩ | ⟨r, there, set, again, rfl⟩ | ⟨r, there, constant, ours, rfl⟩
    · rw [none] at settled
      rcases settled with ⟨r, empty, -⟩ | ⟨-, some, -⟩
      · cases empty
      · exact absurd rfl some
    · have all := clean_set (clean e.name (sfctx e.name e.CONTEXT)) there set
      rcases settled with ⟨c, only, constant, -⟩ | ⟨setE, -, -⟩
      · rw [only] at all
        rw [all c (List.mem_singleton_self c)] at constant
        cases constant
      · refine .inr ⟨setE, ?_⟩
        rw [versions_symnew, if_pos ⟨name, CTX⟩]
        refine ⟨List.cons_ne_nil _ _, fun s inside => ?_⟩
        rcases List.mem_cons.mp inside with rfl | older
        · exact again
        · exact all s older
    · exact settled
  · rw [symdef_other defined same]
    exact settled

/-- Pass 2 finds the definition, and does nothing. -/
theorem symdef_again (settled : Settled (versions T d.name (sfctx d.name d.CONTEXT)) d) :
    symdef 2 T d = .ok T := by
  rw [symdef]
  split
  · next none =>
      rw [symfind_none none] at settled
      rcases settled with ⟨r, empty, -⟩ | ⟨-, some, -⟩
      · cases empty
      · exact absurd rfl some
  · next r found =>
      have there := symfind_mem found
      rcases settled with ⟨c, only, constant, ours⟩ | ⟨set, -, all⟩
      · rw [only, List.mem_singleton] at there
        rw [there, if_neg (by rw [constant]; exact Bool.false_ne_true), if_pos ours]
      · rw [if_pos (all r there), if_pos set, sdNew, if_pos rfl, if_pos set]

/-- A record that a line finds for what is defined before it is found whatever is defined from it
on. -/
theorem symdef_hit (late : n ≤ d.LSEQ) (defined : symdef 1 T d = .ok T')
    (hit : (versions T name CTX).find? (hits n) = some r) :
    (versions T' name CTX).find? (hits n) = some r := by
  by_cases same : d.name = name ∧ sfctx d.name d.CONTEXT = CTX
  · obtain ⟨rfl, rfl⟩ := same
    rcases symdef_cases defined with ⟨none, -⟩ | ⟨-, -, -, again, rfl⟩ | ⟨-, -, -, -, rfl⟩
    · rw [none] at hit
      cases hit
    · have misses : hits n d.record = false := by
        have later : ¬d.LSEQ < n := Nat.not_lt.mpr late
        rw [hits, Def.record]
        dsimp only
        rw [again, decide_eq_false later]
        rfl
      rw [versions_symnew, if_pos ⟨rfl, rfl⟩, List.find?_cons, misses]
      exact hit
    · exact hit
  · rwa [symdef_other defined same]

/-! Passes. -/

theorem pass_cons {PASS : ℕ} {ds : List (Def α)} (passed : pass PASS (d :: ds) T = .ok T') :
    ∃ T₁, symdef PASS T d = .ok T₁ ∧ pass PASS ds T₁ = .ok T' := by
  rw [pass, List.foldlM_cons] at passed
  cases first : symdef PASS T d with
  | error e =>
      rw [first] at passed
      cases passed
  | ok T₁ =>
      rw [first] at passed
      exact ⟨T₁, rfl, passed⟩

theorem pass_append {PASS : ℕ} {ds ds' : List (Def α)} (passed : pass PASS (ds ++ ds') T = .ok T') :
    ∃ T₁, pass PASS ds T = .ok T₁ ∧ pass PASS ds' T₁ = .ok T' := by
  induction ds generalizing T with
  | nil => exact ⟨T, rfl, passed⟩
  | cons d ds ih =>
      obtain ⟨T₁, one, rest⟩ := pass_cons passed
      obtain ⟨T₂, some, later⟩ := ih rest
      refine ⟨T₂, ?_, later⟩
      rw [pass, List.foldlM_cons, one]
      exact some

theorem pass_settled {ds : List (Def α)} (clean : T.Clean) (passed : pass 1 ds T = .ok T') :
    (∀ d ∈ ds, Settled (versions T' d.name (sfctx d.name d.CONTEXT)) d) ∧
      ∀ e, Settled (versions T e.name (sfctx e.name e.CONTEXT)) e →
        Settled (versions T' e.name (sfctx e.name e.CONTEXT)) e := by
  induction ds generalizing T with
  | nil =>
      cases passed
      exact ⟨by rintro d ⟨⟩, fun e settled => settled⟩
  | cons d ds ih =>
      obtain ⟨T₁, one, rest⟩ := pass_cons passed
      obtain ⟨settled, kept⟩ := ih (symdef_clean clean one) rest
      refine ⟨fun e inside => ?_, fun e before => kept e (symdef_settled clean one before)⟩
      rcases List.mem_cons.mp inside with rfl | inside
      · exact kept e (symdef_same clean one).2
      · exact settled e inside

theorem pass_again {ds : List (Def α)}
    (settled : ∀ d ∈ ds, Settled (versions T d.name (sfctx d.name d.CONTEXT)) d) :
    pass 2 ds T = .ok T := by
  induction ds with
  | nil => rfl
  | cons d ds ih =>
      rw [pass, List.foldlM_cons, symdef_again (settled d List.mem_cons_self)]
      exact ih fun e inside => settled e (List.mem_cons_of_mem d inside)

theorem pass_hit {ds : List (Def α)} (late : ∀ d ∈ ds, n ≤ d.LSEQ) (passed : pass 1 ds T = .ok T')
    (hit : (versions T name CTX).find? (hits n) = some r) :
    (versions T' name CTX).find? (hits n) = some r := by
  induction ds generalizing T with
  | nil =>
      cases passed
      exact hit
  | cons d ds ih =>
      obtain ⟨T₁, one, rest⟩ := pass_cons passed
      exact ih (fun e inside => late e (List.mem_cons_of_mem d inside)) rest
        (symdef_hit (late d List.mem_cons_self) one hit)

/-- Every record is from a line before. -/
def Table.Before (T : Table α) (n : ℕ) : Prop := ∀ name CTX, ∀ r ∈ versions T name CTX, r.SEQ < n

theorem pass_before {ds : List (Def α)} (before : T.Before n) (early : ∀ d ∈ ds, d.LSEQ < n)
    (passed : pass 1 ds T = .ok T') : T'.Before n := by
  induction ds generalizing T with
  | nil =>
      cases passed
      exact before
  | cons d ds ih =>
      obtain ⟨T₁, one, rest⟩ := pass_cons passed
      refine ih (fun name CTX r inside => ?_) (fun e inside => early e (List.mem_cons_of_mem d inside)) rest
      have new (inside : r ∈ versions (symnew T d) name CTX) : r.SEQ < n := by
        rw [versions_symnew] at inside
        split at inside
        · rcases List.mem_cons.mp inside with rfl | older
          · exact early d List.mem_cons_self
          · exact before name CTX r older
        · exact before name CTX r inside
      rcases symdef_cases one with ⟨-, rfl⟩ | ⟨-, -, -, -, rfl⟩ | ⟨-, -, -, -, rfl⟩
      · exact new inside
      · exact new inside
      · exact before name CTX r inside

/-- Of records from lines before, the newest is found. -/
theorem Table.Before.find (before : T.Before n) :
    (versions T name CTX).find? (hits n) = (versions T name CTX).head? := by
  have older := before name CTX
  cases vs : versions T name CTX with
  | nil => rfl
  | cons r rs =>
      have less : r.SEQ < n := older r (vs ▸ List.mem_cons_self)
      have hit : hits n r = true := by rw [hits, decide_eq_true less, Bool.or_true]
      rw [List.find?_cons, hit, List.head?_cons]

/-- x set to 5 on line 1 and to 6 on line 3; on line 2 it is 5. -/
def sampleDefs (SET : Bool) (LSEQ value : ℕ) : Def ℕ :=
  { name := [0x78#8], CONTEXT := 0, SET, LSEQ, value }

end Pugputer.Asmlink.Symtab
