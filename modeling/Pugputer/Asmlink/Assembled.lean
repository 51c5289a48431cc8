import Pugputer.Asmlink.Nested

namespace Pugputer.Asmlink

/-! ASM assembles what a source means. -/

variable {Text Name Args : Type} [DecidableEq Name] {dialect : Dialect Text Name Args}

namespace Asm

variable {w : World Text Name} {c : BitVec 8} {t : Text} {ts : List Text} {ctx : Option Nat}
  {ls : List (Level Text)}

omit [DecidableEq Name] in
theorem op_line {op : Operation Name Args} (found : dialect.op t = some op) :
    dialect.scan t = .line (dialect.scan t).label (some op) := by
  rw [Dialect.op] at found
  cases line : dialect.scan t with
  | blank =>
      rw [line] at found
      cases found
  | comment =>
      rw [line] at found
      cases found
  | line LABEL op' =>
      rw [line] at found
      exact congrArg _ found

/-- A line that is assembled, from what its operation does. -/
theorem operation_line {op : Operation Name Args} {s : Asm Text Name} {INMACRO : Bool}
    (found : dialect.op t = some op)
    (does : (here w.next false false INMACRO c ts ctx ls).operation dialect
      (dialect.scan t).label t op = some s) :
    doline dialect (here w false false INMACRO c ts ctx ls) t =
      some (s.linedone INMACRO (dialect.scan t).label t) := by
  rw [doline, op_line found]
  exact congrArg (Option.map _) does

theorem notskip_line {op : Operation Name Args} {s : Asm Text Name}
    (found : dialect.op t = some op)
    (does : (here w.next false false false c ts ctx ls).notskip dialect
      (dialect.scan t).label t op = some s) :
    doline dialect (here w false false false c ts ctx ls) t =
      some (s.linedone false (dialect.scan t).label t) :=
  operation_line found does

theorem alone_line {t : dialect.Plain} (alone : w.Alone dialect t.1) :
    doline dialect (here w false false false c ts ctx ls) t.1 =
      some (here (w.alone dialect t.1) false false false c ts ctx ls) := by
  obtain ⟨t, plain⟩ := t
  rw [World.Alone] at alone
  cases found : dialect.op t with
  | none =>
      rw [doline, World.alone]
      rw [Dialect.op] at found
      cases line : dialect.scan t with
      | blank => rfl
      | comment => rfl
      | line LABEL op =>
          rw [line] at found
          cases found
          rfl
  | some op =>
      have none := plain op found
      dsimp only at alone
      rw [found] at alone
      rw [World.alone, op_line found]
      cases op with
      | known OF_STRUCT => exact notskip_line found rfl
      | incl name =>
          have inside : (here w.next false false false c ts ctx ls).INSTRUCT = true := alone
          exact notskip_line found (if_pos inside)
      | other NOMACRO name args =>
          refine notskip_line (s := here (w.next.put (.op t)) false false false c ts ctx ls) found ?_
          cases NOMACRO with
          | true => rfl
          | false =>
              have nothing : (here w.next false false false c ts ctx ls).macfind name = .none := alone
              rw [notskip, if_neg Bool.false_ne_true, nothing]
              rfl
      | _ => cases none

theorem directive_line {op : Operation Name Args} {s : Asm Text Name}
    (found : dialect.op t = some op) (cond : op.cond = true) (outside : w.INSTRUCT = false)
    (does : (here w.next false false false c ts ctx ls).dispatch (dialect.scan t).label t op = s) :
    doline dialect (here w false false false c ts ctx ls) t =
      some (s.linedone false (dialect.scan t).label t) := by
  refine notskip_line found ?_
  have none : w.next.INSTRUCT = false := outside
  rw [← does]
  cases op with
  | incl name => cases cond
  | known OF_STRUCT => cases cond
  | other NOMACRO name args => cases cond
  | _ => exact if_neg (by rw [here, none]; exact Bool.false_ne_true)

theorem if_true {i : dialect.If} (condition : dialect.holds? i.1 = some true)
    (outside : w.INSTRUCT = false) :
    doline dialect (here w false false false c ts ctx ls) i.1 =
      some (here (w.mark dialect i.1) false false false c ts ctx ls) := by
  obtain ⟨op, found, values⟩ := holds_op condition
  have does := dispatch_if (t := i.1) values (here w.next false false false c ts ctx ls)
    (dialect.scan i.1).label
  exact directive_line found does.2.1 outside does.1

theorem if_false {i : dialect.If} (condition : dialect.holds? i.1 = some false)
    (outside : w.INSTRUCT = false) :
    doline dialect (here w false false false c ts ctx ls) i.1 =
      some (here w.next true false false 1#8 ts ctx ls) := by
  obtain ⟨op, found, values⟩ := holds_op condition
  have does := dispatch_if (t := i.1) values (here w.next false false false c ts ctx ls)
    (dialect.scan i.1).label
  exact directive_line found does.2.1 outside does.1

theorem else_skips {l : dialect.Only .els} (outside : w.INSTRUCT = false) :
    doline dialect (here w false false false c ts ctx ls) l.1 =
      some (here w.next true false false 1#8 ts ctx ls) :=
  directive_line l.2 rfl outside rfl

theorem endc_line {e : dialect.Only .endc} (outside : w.INSTRUCT = false) :
    doline dialect (here w false false false c ts ctx ls) e.1 =
      some (here (w.mark dialect e.1) false false false c ts ctx ls) :=
  directive_line e.2 rfl outside rfl

/-- ELSE and ENDC of the conditional that the skipping began with. -/
theorem skip_over {op : Operation Name Args} {o : dialect.Only op} (outside : w.INSTRUCT = false)
    (which : op = .els ∨ op = .endc) :
    doline dialect (here w true false false 1#8 ts ctx ls) o.1 =
      some (here (w.mark dialect o.1) false false false 0#8 ts ctx ls) := by
  have free : ¬(here w.next true false false 1#8 ts ctx ls).INSTRUCT = true := by
    have none : (here w.next true false false 1#8 ts ctx ls).INSTRUCT = false := outside
    rw [none]
    exact Bool.false_ne_true
  rw [doline, op_line o.2]
  dsimp only
  have ran : operation dialect (here w.next true false false 1#8 ts ctx ls)
      (dialect.scan o.1).label o.1 op = some (here w.next false false false 0#8 ts ctx ls) := by
    rcases which with rfl | rfl
    · rw [operation, if_neg (by rintro ⟨⟩), if_neg (by rintro ⟨⟩)]
      exact if_neg free
    · have ends : (here w.next true false false 1#8 ts ctx ls).dEndc =
          here w.next false false false 0#8 ts ctx ls := by
        have last : ¬1 < (here w.next true false false 1#8 ts ctx ls).SKIPCOUNT.toInt :=
          (by decide : ¬1 < (1#8).toInt)
        rw [dEndc, if_neg (by rintro ⟨⟩), if_neg (by rintro ⟨⟩), if_neg last]
        have zero : 1#8 - 1#8 = 0#8 := by decide
        exact congrArg (fun c => here w.next false false false c ts ctx ls) zero
      rw [operation, if_neg (by rintro ⟨⟩), if_neg (by rintro ⟨⟩), ← ends]
      exact if_neg free
  exact congrArg (Option.map _) ran

/-- A line of a macro definition. -/
theorem store_line (inside : dialect.op t ≠ some .endm) :
    doline dialect (here w false false true c ts ctx ls) t =
      some (here (w.store dialect t) false false true c ts ctx ls) := by
  rw [doline, World.store]
  cases found : dialect.scan t with
  | blank => rfl
  | comment => rfl
  | line LABEL op =>
      cases op with
      | none => rfl
      | some op =>
          have other : op.endm? = false := by
            cases op with
            | endm => exact absurd (by rw [Dialect.op, found]; rfl) inside
            | _ => rfl
          dsimp only
          rw [operation, if_pos (by rw [other]; rfl)]
          rfl

omit [DecidableEq Name] in
theorem store_instruct : (w.store dialect t).INSTRUCT = w.INSTRUCT := by
  rw [World.store]
  split
  · rfl
  · rfl
  · rw [World.macaddline]
    split
    · split <;> rfl
    · rfl

omit [DecidableEq Name] in
theorem stores_instruct {body : List Text} :
    (body.foldl (World.store dialect) w).INSTRUCT = w.INSTRUCT := by
  induction body generalizing w with
  | nil => rfl
  | cons t body ih => exact ih.trans store_instruct

theorem store_lines {body : List Text} (inside : ∀ t ∈ body, dialect.op t ≠ some .endm) :
    Goes dialect (here w false false true c (body ++ ts) ctx ls)
      (here (body.foldl (World.store dialect) w) false false true c ts ctx ls) := by
  induction body generalizing w with
  | nil => exact .refl _
  | cons t body ih =>
      refine .line (store_line (inside t List.mem_cons_self)) ?_
      exact ih fun t member => inside t (List.mem_cons_of_mem _ member)

theorem endm_line {e : dialect.Only .endm} (outside : w.INSTRUCT = false) :
    doline dialect (here w false false true c ts ctx ls) e.1 =
      some (here (w.next.newcontext.labelled (dialect.scan e.1).label e.1)
        false false false c ts ctx ls) := by
  have none : w.next.INSTRUCT = false := outside
  refine operation_line (s := here w.next.newcontext false false false c ts ctx ls) e.2 ?_
  rw [operation, if_neg (by rintro ⟨⟩), if_neg (by rintro ⟨⟩)]
  exact if_neg (by rw [here, none]; exact Bool.false_ne_true)

theorem macr_line {m : dialect.Only .macr} {name : Name} {w₁ : World Text Name}
    (label : (dialect.scan m.1).label = some name) (outside : w.INSTRUCT = false)
    (begins : w.Defines name w₁) :
    doline dialect (here w false false false c ts ctx ls) m.1 =
      some (here w₁ false false true c ts ctx ls) := by
  have does : (here w.next false false false c ts ctx ls).dispatch (dialect.scan m.1).label m.1
      (.macr : Operation Name Args) = here w₁ false false true c ts ctx ls := by
    rw [label]
    rcases begins with ⟨pass, fresh, rfl⟩ | ⟨pass, rfl, found, known, same⟩
    · have none : (here w.next false false false c ts ctx ls).macfind name = none := fresh
      rw [dispatch, dMacro, if_neg (by rintro ⟨⟩), if_neg (by rintro ⟨⟩)]
      dsimp only
      rw [none]
      exact if_pos pass
    · have some : (here w.next false false false c ts ctx ls).macfind name = some found := known
      rw [dispatch, dMacro, if_neg (by rintro ⟨⟩), if_neg (by rintro ⟨⟩)]
      dsimp only
      rw [some]
      exact if_pos same
  exact directive_line m.2 rfl outside does

/-- The expansion of a macro. -/
theorem call_line {name : Name} {args : Args} {m : Macro Text Name}
    (op : dialect.op t = some (.other false name args)) (found : w.macfind name = some m)
    (room : ls.length + 1 < MAXDEPTH) :
    doline dialect (here w false false false c ts ctx ls) t = some (here
      ((w.next.newcontext.put (.expand t)).labelled (dialect.scan t).label t) false false false c
      (m.MR_LINES.map (dialect.macline m.MR_NAME args)) (some w.CONTEXT) (⟨ts, ctx⟩ :: ls)) := by
  refine notskip_line (s := here (w.next.newcontext.put (.expand t)) false false false c
    (m.MR_LINES.map (dialect.macline m.MR_NAME args)) (some w.CONTEXT) (⟨ts, ctx⟩ :: ls)) op ?_
  have known : (here w.next false false false c ts ctx ls).macfind name = some m := found
  rw [notskip, if_neg Bool.false_ne_true, known]
  exact if_neg (Nat.not_le.mpr room)

theorem incl_line {name : Args} {lines : List Text} (op : dialect.op t = some (.incl name))
    (outside : w.INSTRUCT = false) (found : dialect.findfile name = some lines)
    (room : ls.length + 1 < MAXDEPTH) :
    doline dialect (here w false false false c ts ctx ls) t = some (here
      ((w.next.put (.op t)).labelled (dialect.scan t).label t) false false false c lines none
      (⟨ts, ctx⟩ :: ls)) := by
  refine notskip_line (s := here (w.next.put (.op t)) false false false c lines none
    (⟨ts, ctx⟩ :: ls)) op ?_
  have free : ¬(here w.next false false false c ts ctx ls).INSTRUCT = true := by
    have none : (here w.next false false false c ts ctx ls).INSTRUCT = false := outside
    rw [none]
    exact Bool.false_ne_true
  rw [notskip, if_neg free, dInclude, found]
  exact if_neg (Nat.not_le.mpr room)

/-- A level ends. -/
theorem pop (w : World Text Name) (c : BitVec 8) (ctx back : Option Nat) (ts : List Text)
    (ls : List (Level Text)) :
    step dialect (here w false false false c [] back (⟨ts, ctx⟩ :: ls)) =
      some (here { w with CONTEXT := back.getD w.CONTEXT } false false false c ts ctx ls) := rfl

end Asm

open Asm in
/-- A source that nests is assembled line by line as it should be. -/
theorem Assembles.goes {d : Nat} {w w' : World Text Name} {src : Source dialect}
    (assembles : Assembles (Skippable 1) d w src w') (c : BitVec 8) (ts : List Text)
    (ctx : Option Nat) (ls : List (Level Text)) (room : ls.length + 1 + d ≤ MAXDEPTH) :
    ∃ c', Goes dialect (here w false false false c (src.lines ++ ts) ctx ls)
      (here w' false false false c' ts ctx ls) := by
  induction assembles generalizing c ts ctx ls with
  | nil => exact ⟨c, .refl _⟩
  | line alone _ ih =>
      obtain ⟨c', goes⟩ := ih c ts ctx ls room
      exact ⟨c', .line (alone_line alone) goes⟩
  | @call d w t rest w₁ w' name args m body op found lines _ _ ihBody ihRest =>
      obtain ⟨c₁, within⟩ := ihBody c [] (some w.CONTEXT) (⟨rest.lines ++ ts, ctx⟩ :: ls)
        (by rw [List.length_cons]; omega)
      obtain ⟨c', goes⟩ := ihRest c₁ ts ctx ls room
      rw [List.append_nil, lines] at within
      exact ⟨c', .line (call_line op found (by omega)) (within.trans (.head (pop _ _ _ _ _ _) goes))⟩
  | @incl d w t rest w₁ w' name body op outside found _ _ ihBody ihRest =>
      obtain ⟨c₁, within⟩ := ihBody c [] none (⟨rest.lines ++ ts, ctx⟩ :: ls)
        (by rw [List.length_cons]; omega)
      obtain ⟨c', goes⟩ := ihRest c₁ ts ctx ls room
      rw [List.append_nil] at within
      exact ⟨c', .line (incl_line op outside found (by omega))
        (within.trans (.head (pop _ _ _ _ _ _) goes))⟩
  | @holds d w i yes e rest w₁ w' condition outside _ still _ ihYes ihRest =>
      obtain ⟨c₁, within⟩ := ihYes c (e.1 :: (rest.lines ++ ts)) ctx ls room
      obtain ⟨c', goes⟩ := ihRest c₁ ts ctx ls room
      rw [Source.lines, List.cons_append, List.append_assoc, List.cons_append]
      exact ⟨c', .line (if_true condition outside) (within.trans (.line (endc_line still) goes))⟩
  | @fails d w i yes e rest w' condition outside left _ ihRest =>
      obtain ⟨c', goes⟩ := ihRest 0#8 ts ctx ls room
      have next : w.next.INSTRUCT = false := outside
      rw [Source.lines, List.cons_append, List.append_assoc, List.cons_append]
      refine ⟨c', .line (if_false condition outside) ((skip_source left (Nat.le_refl 1) next).trans ?_)⟩
      exact .line (skip_over (passes_instruct.trans next) (.inr rfl)) goes
  | @holdsElse d w i yes l no e rest w₁ w' condition outside _ still left _ ihYes ihRest =>
      obtain ⟨c₁, within⟩ := ihYes c (l.1 :: (no.lines ++ e.1 :: (rest.lines ++ ts))) ctx ls room
      obtain ⟨c', goes⟩ := ihRest 0#8 ts ctx ls room
      have next : w₁.next.INSTRUCT = false := still
      rw [Source.lines, List.cons_append, List.append_assoc, List.cons_append, List.append_assoc,
        List.cons_append]
      refine ⟨c', .line (if_true condition outside) (within.trans (.line (else_skips still) ?_))⟩
      refine (skip_source left (Nat.le_refl 1) next).trans ?_
      exact .line (skip_over (passes_instruct.trans next) (.inr rfl)) goes
  | @failsElse d w i yes l no e rest w₁ w' condition outside left _ still _ ihNo ihRest =>
      obtain ⟨c₁, within⟩ := ihNo 0#8 (e.1 :: (rest.lines ++ ts)) ctx ls room
      obtain ⟨c', goes⟩ := ihRest c₁ ts ctx ls room
      have next : w.next.INSTRUCT = false := outside
      rw [Source.lines, List.cons_append, List.append_assoc, List.cons_append, List.append_assoc,
        List.cons_append]
      refine ⟨c', .line (if_false condition outside) ((skip_source left (Nat.le_refl 1) next).trans ?_)⟩
      refine .line (skip_over (passes_instruct.trans next) (.inl rfl)) (within.trans ?_)
      exact .line (endc_line still) goes
  | @define d w m body e rest w₁ w' name label outside begins _ ih =>
      obtain ⟨c', goes⟩ := ih c ts ctx ls room
      have inside : w₁.INSTRUCT = false := by
        rcases begins with ⟨-, -, rfl⟩ | ⟨-, rfl, -⟩
        · exact outside
        · exact outside
      rw [Source.lines, List.cons_append, List.append_assoc, List.cons_append]
      refine ⟨c', .line (macr_line label outside begins) ((store_lines body.2).trans ?_)⟩
      exact .line (endm_line (stores_instruct.trans inside)) goes

theorem dopass_done {s : Asm Text Name} (done : s.levels = []) (n : Nat) :
    Asm.dopass dialect n s = some s := by
  induction n with
  | zero => rfl
  | succ n ih =>
      rw [Asm.dopass, Asm.step, done]
      exact ih

/-- Either pass assembles exactly the lines whose conditions hold, and then it is assembling
again. -/
theorem conditional_assembly {PASS : Nat} {MACROS : List (Macro Text Name)} {src : Source dialect}
    {w : World Text Name}
    (assembles : Assembles (Skippable 1) (MAXDEPTH - 1) { PASS, MACROS } src w) :
    ∃ N, ∀ n ≥ N, ∃ s, Asm.dopass dialect n (Asm.start PASS MACROS src.lines) = some s ∧
      s.toWorld = w ∧ s.SKIPCOND = false ∧ s.levels = [] := by
  obtain ⟨c, N, ran⟩ := assembles.goes 0#8 [] none [] (Nat.le_refl MAXDEPTH)
  have ends : Asm.step dialect (Asm.here w false false false c [] none []) =
      some { toWorld := w, SKIPCOUNT := c, levels := [] } := rfl
  refine ⟨N + 1, fun n enough => ⟨{ toWorld := w, SKIPCOUNT := c, levels := [] }, ?_, rfl, rfl, rfl⟩⟩
  obtain ⟨more, rfl⟩ := Nat.exists_eq_add_of_le enough
  rw [List.append_nil] at ran
  rw [Asm.dopass_add, Asm.dopass_add]
  have first : Asm.dopass dialect N (Asm.start PASS MACROS src.lines) = _ := ran
  rw [first, Option.bind_some, Asm.dopass, ends]
  exact dopass_done rfl more

/-! A dialect whose lines are taken apart already; the operation with label 9 is STRUCT. -/

def sampleDialect : Dialect (Line Nat Nat) Nat Nat where
  scan := id
  macline := fun _ _ t => t
  findfile := fun _ => none
  instruct := fun _ t => t.label = some 9

def sampleIf (b : Bool) : sampleDialect.If := ⟨.line none (some (.ifdef b)), rfl⟩
def sampleElse : sampleDialect.Only .els := ⟨.line none (some .els), rfl⟩
def sampleEndc : sampleDialect.Only .endc := ⟨.line none (some .endc), rfl⟩
def sampleEndm : sampleDialect.Only .endm := ⟨.line none (some .endm), rfl⟩
def sampleMacr : sampleDialect.Only .macr := ⟨.line (some 0) (some .macr), rfl⟩

def samplePlain (n : Nat) : sampleDialect.Plain :=
  ⟨.line (some n) (some (.known true)), by
    intro op same
    obtain rfl := Option.some.inj same
    rfl⟩

theorem conditional_assembly_sample : ∃ N, ∀ n ≥ N, ∃ s,
    Asm.dopass sampleDialect n (Asm.start 1 []
      (Source.condElse (sampleIf false) (.line (samplePlain 1) .nil) sampleElse
        (.line (samplePlain 2) .nil) sampleEndc .nil : Source sampleDialect).lines) = some s ∧
      s.toWorld = { PASS := 1, LSEQ := 5, log := [.op (samplePlain 2).1, .label (samplePlain 2).1] } ∧
      s.SKIPCOND = false ∧ s.levels = [] :=
  conditional_assembly (.failsElse rfl rfl ⟨⟩ (.line trivial .nil) rfl .nil)

/-- An IF in a macro definition, in the second of two conditionals that are skipped. -/
def sampleInner : Source sampleDialect :=
  .cond (sampleIf false)
    (.cond (sampleIf false)
      (.define sampleMacr ⟨[(sampleIf false).1, sampleEndc.1], by decide⟩ sampleEndm .nil)
      sampleEndc (.line (samplePlain 1) .nil))
    sampleEndc .nil

/-- With it, the lines after the inner ENDC are assembled; a blank line in a skipped macro
definition starts a new context; and in a struct an IF is an error. -/
theorem conditional_misses :
    (¬∀ (src : Source sampleDialect) w, Assembles (fun _ => True) (MAXDEPTH - 1) { PASS := 1 } src w →
      ∃ N, ∀ n ≥ N, ∃ s, Asm.dopass sampleDialect n (Asm.start 1 [] src.lines) = some s ∧
        s.toWorld = w) ∧
    (Asm.dopass sampleDialect 6 (Asm.start 1 [] [(sampleIf false).1, sampleMacr.1, .blank,
      sampleEndm.1, sampleEndc.1])).map (·.CONTEXT) = some 1 ∧
    (Asm.dopass sampleDialect 4 (Asm.start 1 [] [.line (some 9) (some (.known false)),
      (sampleIf false).1, sampleEndc.1])).map (·.log) =
        some [.op (.line (some 9) (some (.known false))),
          .label (.line (some 9) (some (.known false))), .error (sampleIf false).1,
          .error sampleEndc.1] := by
  refine ⟨fun claim => ?_, rfl, rfl⟩
  obtain ⟨N, all⟩ := claim sampleInner _ (.fails rfl rfl trivial .nil)
  obtain ⟨s, ran, same⟩ := all (10 + N) (Nat.le_add_left N 10)
  have halts : (Asm.dopass sampleDialect 10 (Asm.start 1 [] sampleInner.lines)).map
      (fun s => (s.levels, s.log)) =
      some ([], [.op (samplePlain 1).1, .label (samplePlain 1).1]) := rfl
  obtain ⟨s', first, ends⟩ := Option.map_eq_some_iff.mp halts
  rw [Prod.mk.injEq] at ends
  rw [Asm.dopass_add, first, Option.bind_some, dopass_done ends.1] at ran
  obtain rfl := Option.some.inj ran
  have log := ends.2
  rw [same] at log
  exact absurd log (by decide)

end Pugputer.Asmlink
