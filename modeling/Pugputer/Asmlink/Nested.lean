import Pugputer.Asmlink.Conditional

namespace Pugputer.Asmlink

variable {Text Name Args : Type} [DecidableEq Name] {dialect : Dialect Text Name Args}

namespace Asm

/-- The state between two lines. -/
def here (w : World Text Name) (SKIPCOND SKIPMACRO INMACRO : Bool) (SKIPCOUNT : BitVec 8)
    (lines : List Text) (IR_SAVECTX : Option Nat) (levels : List (Level Text)) : Asm Text Name :=
  { toWorld := w, SKIPCOND, SKIPCOUNT, SKIPMACRO, INMACRO, levels := ⟨lines, IR_SAVECTX⟩ :: levels }

variable (dialect) in
/-- Some steps lead from one state to another. -/
def Goes (s s' : Asm Text Name) : Prop := ∃ n, dopass dialect n s = some s'

theorem Goes.refl (s : Asm Text Name) : Goes dialect s s := ⟨0, rfl⟩

theorem Goes.head {s s₁ s' : Asm Text Name} (first : s.step dialect = some s₁)
    (rest : Goes dialect s₁ s') : Goes dialect s s' := by
  obtain ⟨n, ran⟩ := rest
  refine ⟨n + 1, ?_⟩
  rw [dopass, first]
  exact ran

theorem dopass_add (m n : Nat) (s : Asm Text Name) :
    dopass dialect (m + n) s = (dopass dialect m s).bind (dopass dialect n) := by
  induction m generalizing s with
  | zero =>
      rw [Nat.zero_add]
      rfl
  | succ m ih =>
      rw [Nat.succ_add, dopass, dopass, Option.bind_assoc]
      exact congrArg _ (funext ih)

theorem Goes.trans {s s₁ s' : Asm Text Name} (first : Goes dialect s s₁)
    (rest : Goes dialect s₁ s') : Goes dialect s s' := by
  obtain ⟨m, ran⟩ := first
  obtain ⟨n, more⟩ := rest
  exact ⟨m + n, by rw [dopass_add, ran]; exact more⟩

variable {w : World Text Name} {SKIPMACRO : Bool} {c : BitVec 8} {t : Text} {ts : List Text}
  {ctx : Option Nat} {ls : List (Level Text)}

theorem Goes.line {SKIPCOND INMACRO : Bool} {s₁ s' : Asm Text Name}
    (first : doline dialect (here w SKIPCOND SKIPMACRO INMACRO c ts ctx ls) t = some s₁)
    (rest : Goes dialect s₁ s') :
    Goes dialect (here w SKIPCOND SKIPMACRO INMACRO c (t :: ts) ctx ls) s' :=
  .head first rest

theorem skip_line (plain : ∀ op, dialect.op t = some op → op.cond = false) :
    doline dialect (here w true SKIPMACRO false c ts ctx ls) t =
      some (here (w.pass dialect t) true SKIPMACRO false c ts ctx ls) := by
  rw [doline, World.pass]
  cases found : dialect.scan t with
  | blank => rfl
  | comment => rfl
  | line LABEL op =>
      cases op with
      | none => rfl
      | some op =>
          have none := plain op (by rw [Dialect.op, found]; rfl)
          dsimp only
          rw [operation, if_neg (by rintro ⟨⟩), if_pos (by rw [none]; rfl)]
          rfl

/-- A directive that is looked at while skipping. -/
theorem skip_directive {op : Operation Name Args} (found : dialect.op t = some op)
    (cond : op.cond = true) (outside : w.INSTRUCT = false) {c' : BitVec 8} {SKIPMACRO' : Bool}
    (does : dispatch (here w.next true SKIPMACRO false c ts ctx ls) (dialect.scan t).label t op =
      here w.next true SKIPMACRO' false c' ts ctx ls) :
    doline dialect (here w true SKIPMACRO false c ts ctx ls) t =
      some (here w.next true SKIPMACRO' false c' ts ctx ls) := by
  obtain ⟨L, scan⟩ : ∃ LABEL, dialect.scan t = .line LABEL (some op) := by
    rw [Dialect.op] at found
    cases line : dialect.scan t with
    | blank => rw [line] at found; cases found
    | comment => rw [line] at found; cases found
    | line L op' =>
        rw [line] at found
        exact ⟨L, congrArg _ found⟩
  rw [scan] at does
  have none : w.next.INSTRUCT = false := outside
  rw [doline, scan]
  dsimp only
  have ran : operation dialect (here w.next true SKIPMACRO false c ts ctx ls) L t op =
      some (here w.next true SKIPMACRO' false c' ts ctx ls) := by
    rw [operation, if_neg (by rintro ⟨⟩), if_neg (by rw [cond]; rintro ⟨⟩), ← does]
    cases op with
    | incl name => cases cond
    | known OF_STRUCT => cases cond
    | other NOMACRO name args => cases cond
    | _ => exact if_neg (by rw [here, none]; exact Bool.false_ne_true)
  exact congrArg (Option.map _) ran

omit [DecidableEq Name] in
theorem pass_directive {op : Operation Name Args} (found : dialect.op t = some op) :
    w.pass dialect t = w.next := by
  rw [World.pass]
  rw [Dialect.op] at found
  cases scan : dialect.scan t with
  | blank =>
      rw [scan] at found
      cases found
  | comment => rfl
  | line LABEL op => rfl

omit [DecidableEq Name] in
theorem pass_instruct : (w.pass dialect t).INSTRUCT = w.INSTRUCT := by
  rw [World.pass]
  split <;> rfl

omit [DecidableEq Name] in
theorem holds_op {b : Bool} (condition : dialect.holds? t = some b) :
    ∃ op, dialect.op t = some op ∧ op.holds? = some b := Option.bind_eq_some_iff.mp condition

/-- An IF is carried out by dIf alone. -/
theorem dispatch_if {op : Operation Name Args} {b : Bool} (condition : op.holds? = some b)
    (s : Asm Text Name) (LABEL : Option Name) :
    s.dispatch LABEL t op = s.dIf b ∧ op.cond = true ∧ op.endm? = false := by
  cases op with
  | ifcond TMPB EVAL =>
      obtain rfl := Option.some.inj condition
      exact ⟨rfl, rfl, rfl⟩
  | ifdef DEFINED =>
      obtain rfl := Option.some.inj condition
      exact ⟨rfl, rfl, rfl⟩
  | ifndef DEFINED =>
      obtain rfl := Option.some.inj condition
      exact ⟨rfl, rfl, rfl⟩
  | _ => cases condition

/-- A line of a skipped macro definition. -/
theorem skip_body (inside : dialect.op t ≠ some .endm) (outside : w.INSTRUCT = false)
    (harmless : dialect.holds? t = some false → c = 1#8) :
    doline dialect (here w true true false c ts ctx ls) t =
      some (here (w.pass dialect t) true true false c ts ctx ls) := by
  by_cases plain : ∀ op, dialect.op t = some op → op.cond = false
  · exact skip_line plain
  rw [not_forall] at plain
  obtain ⟨op, directive⟩ := plain
  rw [Classical.not_imp, Bool.not_eq_false] at directive
  obtain ⟨found, cond⟩ := directive
  rw [pass_directive found]
  refine skip_directive found cond outside ?_
  cases values : op.holds? with
  | some b =>
      rw [(dispatch_if values _ _).1]
      cases b with
      | true => rfl
      | false =>
          have one : c = 1#8 := harmless (by rw [Dialect.holds?, found]; exact values)
          rw [one]
          rfl
  | none =>
      cases op with
      | els => rfl
      | endc => rfl
      | macr => rfl
      | endm => exact absurd found inside
      | ifcond TMPB EVAL => cases values
      | ifdef DEFINED => cases values
      | ifndef DEFINED => cases values
      | incl name => cases cond
      | known OF_STRUCT => cases cond
      | other NOMACRO name args => cases cond

theorem skip_bodies {body : List Text} (inside : ∀ t ∈ body, dialect.op t ≠ some .endm)
    (outside : w.INSTRUCT = false)
    (harmless : ∀ t ∈ body, dialect.holds? t = some false → c = 1#8) :
    Goes dialect (here w true true false c (body ++ ts) ctx ls)
      (here (w.passes dialect body) true true false c ts ctx ls) := by
  induction body generalizing w with
  | nil => exact .refl _
  | cons t body ih =>
      refine .line (skip_body (inside t List.mem_cons_self) outside
        (harmless t List.mem_cons_self)) ?_
      exact ih (fun t member => inside t (List.mem_cons_of_mem _ member))
        (pass_instruct.trans outside) fun t member => harmless t (List.mem_cons_of_mem _ member)

omit [DecidableEq Name] in
theorem passes_instruct {lines : List Text} :
    (w.passes dialect lines).INSTRUCT = w.INSTRUCT := by
  induction lines generalizing w with
  | nil => rfl
  | cons t lines ih => exact ih.trans pass_instruct

/-! The counter, a byte, is tested as a signed one. -/

theorem count_up (n : Nat) : BitVec.ofNat 8 n + 1#8 = BitVec.ofNat 8 (n + 1) :=
  (BitVec.ofNat_add n 1).symm

theorem count_down (n : Nat) : BitVec.ofNat 8 (n + 1) - 1#8 = BitVec.ofNat 8 n := by
  rw [← count_up, BitVec.add_sub_cancel]

theorem count_signed {n : Nat} (small : n ≤ 127) : (BitVec.ofNat 8 n).toInt = n := by
  have value : (BitVec.ofNat 8 n).toNat = n := by
    rw [BitVec.toNat_ofNat]
    exact Nat.mod_eq_of_lt (by omega)
  rw [BitVec.toInt_eq_toNat_of_lt (by omega), value]

theorem skip_if {n : Nat} {i : dialect.If} (outside : w.INSTRUCT = false) :
    doline dialect (here w true false false (BitVec.ofNat 8 n) ts ctx ls) i.1 =
      some (here w.next true false false (BitVec.ofNat 8 (n + 1)) ts ctx ls) := by
  obtain ⟨b, condition⟩ := Option.isSome_iff_exists.mp i.2
  obtain ⟨op, found, values⟩ := holds_op condition
  have does := dispatch_if (t := i.1) values (here w.next true false false (BitVec.ofNat 8 n) ts ctx ls)
    (dialect.scan i.1).label
  refine skip_directive found does.2.1 outside ?_
  rw [does.1, ← count_up]
  rfl

theorem skip_endc {n : Nat} {e : dialect.Only .endc} (outside : w.INSTRUCT = false)
    (some : 1 ≤ n) (few : n < 127) :
    doline dialect (here w true false false (BitVec.ofNat 8 (n + 1)) ts ctx ls) e.1 =
      .some (here w.next true false false (BitVec.ofNat 8 n) ts ctx ls) := by
  refine skip_directive e.2 rfl outside ?_
  have more : 1 < (BitVec.ofNat 8 (n + 1)).toInt := by
    rw [count_signed few]
    omega
  rw [← count_down n]
  exact if_pos more

theorem skip_source {n : Nat} {src : Source dialect} (skippable : Skippable n src) (some : 1 ≤ n)
    (outside : w.INSTRUCT = false) :
    Goes dialect (here w true false false (BitVec.ofNat 8 n) (src.lines ++ ts) ctx ls)
      (here (w.passes dialect src.lines) true false false (BitVec.ofNat 8 n) ts ctx ls) := by
  have next (w : World Text Name) (outside : w.INSTRUCT = false) : w.next.INSTRUCT = false := outside
  induction src generalizing w n ts with
  | nil => exact .refl _
  | line t rest ih =>
      refine .line (skip_line t.2) ?_
      exact ih skippable some (pass_instruct.trans outside)
  | cond i yes e rest ihYes ihRest =>
      obtain ⟨few, skipYes, skipRest⟩ := skippable
      obtain ⟨b, condition⟩ := Option.isSome_iff_exists.mp i.2
      obtain ⟨op, found, -⟩ := holds_op condition
      have inYes : (w.next.passes dialect yes.lines).INSTRUCT = false :=
        passes_instruct.trans outside
      have all : w.passes dialect (Source.cond i yes e rest).lines =
          (w.next.passes dialect yes.lines).next.passes dialect rest.lines := by
        rw [Source.lines, World.passes, List.foldl_cons, List.foldl_append, List.foldl_cons,
          pass_directive found, pass_directive e.2]
        rfl
      rw [all, Source.lines, List.cons_append, List.append_assoc, List.cons_append]
      refine .line (skip_if outside) ((ihYes skipYes (Nat.le_succ_of_le some) (next w outside)).trans ?_)
      exact .line (skip_endc inYes some few) (ihRest skipRest some (next _ inYes))
  | condElse i yes l no e rest ihYes ihNo ihRest =>
      obtain ⟨few, skipYes, skipNo, skipRest⟩ := skippable
      obtain ⟨b, condition⟩ := Option.isSome_iff_exists.mp i.2
      obtain ⟨op, found, -⟩ := holds_op condition
      have inYes : (w.next.passes dialect yes.lines).INSTRUCT = false :=
        passes_instruct.trans outside
      have inNo : ((w.next.passes dialect yes.lines).next.passes dialect no.lines).INSTRUCT =
          false := passes_instruct.trans inYes
      have all : w.passes dialect (Source.condElse i yes l no e rest).lines =
          (((w.next.passes dialect yes.lines).next.passes dialect no.lines).next).passes dialect
            rest.lines := by
        rw [Source.lines, World.passes, List.foldl_cons, List.foldl_append, List.foldl_cons,
          List.foldl_append, List.foldl_cons, pass_directive found, pass_directive l.2,
          pass_directive e.2]
        rfl
      have onward (w : World Text Name) (outside : w.INSTRUCT = false) (ts : List Text) :
          doline dialect (here w true false false (BitVec.ofNat 8 (n + 1)) ts ctx ls) l.1 =
            .some (here w.next true false false (BitVec.ofNat 8 (n + 1)) ts ctx ls) := by
        refine skip_directive l.2 rfl outside ?_
        have other : BitVec.ofNat 8 (n + 1) ≠ 1#8 := by
          intro same
          have value := congrArg BitVec.toInt same
          rw [count_signed few] at value
          have one : (1#8).toInt = 1 := rfl
          omega
        exact if_neg other
      rw [all, Source.lines, List.cons_append, List.append_assoc, List.cons_append,
        List.append_assoc, List.cons_append]
      refine .line (skip_if outside) ((ihYes skipYes (Nat.le_succ_of_le some) (next w outside)).trans ?_)
      refine .line (onward _ inYes _) ((ihNo skipNo (Nat.le_succ_of_le some) (next _ inYes)).trans ?_)
      exact .line (skip_endc inNo some few) (ihRest skipRest some (next _ inNo))
  | define m body e rest ih =>
      obtain ⟨harmless, skipRest⟩ := skippable
      have inBody : (w.next.passes dialect body.1).INSTRUCT = false :=
        passes_instruct.trans outside
      have all : w.passes dialect (Source.define m body e rest).lines =
          (w.next.passes dialect body.1).next.passes dialect rest.lines := by
        rw [Source.lines, World.passes, List.foldl_cons, List.foldl_append, List.foldl_cons,
          pass_directive m.2, pass_directive e.2]
        rfl
      rw [all, Source.lines, List.cons_append, List.append_assoc, List.cons_append]
      have opens (ts : List Text) :
          doline dialect (here w true false false (BitVec.ofNat 8 n) ts ctx ls) m.1 =
            .some (here w.next true true false (BitVec.ofNat 8 n) ts ctx ls) :=
        skip_directive m.2 rfl outside rfl
      have closes (w : World Text Name) (outside : w.INSTRUCT = false) (ts : List Text) :
          doline dialect (here w true true false (BitVec.ofNat 8 n) ts ctx ls) e.1 =
            .some (here w.next true false false (BitVec.ofNat 8 n) ts ctx ls) :=
        skip_directive e.2 rfl outside rfl
      refine .line (opens _) ?_
      refine (skip_bodies body.2 (next w outside) fun t member false_ => ?_).trans ?_
      · rw [harmless t member false_]
      · exact .line (closes _ inBody _) (ih skipRest some (next _ inBody))

end Asm

end Pugputer.Asmlink
