import Pugputer.Asmlink.Line

namespace Pugputer.Asmlink

/-! What a properly nested source means, and that ASM's flags and counter follow it. -/

variable {Text Name Args : Type} [DecidableEq Name] (dialect : Dialect Text Name Args)

namespace Dialect

/-- The operation on a line, if there is one. -/
def op (t : Text) : Option (Operation Name Args) := (dialect.scan t).op

def holds? (t : Text) : Option Bool := (dialect.op t).bind Operation.holds?

abbrev Plain := { t : Text // ∀ op, dialect.op t = some op → op.cond = false }

abbrev If := { t : Text // (dialect.holds? t).isSome }

abbrev Only (op : Operation Name Args) := { t : Text // dialect.op t = some op }

/-- The lines between a MACRO and its ENDM. -/
abbrev Body := { lines : List Text // ∀ t ∈ lines, dialect.op t ≠ some .endm }

end Dialect

/-- A source in which conditionals and macro definitions nest. -/
inductive Source (dialect : Dialect Text Name Args)
  | nil
  | line (t : dialect.Plain) (rest : Source dialect)
  | cond (i : dialect.If) (yes : Source dialect) (e : dialect.Only .endc) (rest : Source dialect)
  | condElse (i : dialect.If) (yes : Source dialect) (l : dialect.Only .els) (no : Source dialect)
      (e : dialect.Only .endc) (rest : Source dialect)
  | define (m : dialect.Only .macr) (body : dialect.Body) (e : dialect.Only .endm)
      (rest : Source dialect)

variable {dialect}

def Source.lines : Source dialect → List Text
  | .nil => []
  | .line t rest => t :: rest.lines
  | .cond i yes e rest => i :: (yes.lines ++ e.1 :: rest.lines)
  | .condElse i yes l no e rest => i :: (yes.lines ++ l.1 :: (no.lines ++ e.1 :: rest.lines))
  | .define m body e rest => m :: (body.1 ++ e.1 :: rest.lines)

namespace World

variable (dialect) (w : World Text Name)

/-- A line without an effect, but a blank one starts a new local-symbol context all the same. -/
def pass (t : Text) : World Text Name :=
  match dialect.scan t with
  | .blank => w.next.newcontext
  | _ => w.next

def passes (lines : List Text) : World Text Name := lines.foldl (pass dialect) w

/-- A line of a macro that is being defined; blank lines and comments are left out. -/
def store (t : Text) : World Text Name :=
  match dialect.scan t with
  | .blank => w.next.newcontext
  | .comment => w.next
  | .line _ _ => w.next.macaddline t

/-- A directive that has no effect of its own, with conditions as they are after it. -/
def mark (t : Text) : World Text Name := w.next.labelled (dialect.scan t).label t

/-- A line that opens no input level. -/
def alone (t : Text) : World Text Name :=
  match dialect.scan t with
  | .blank => w.next.newcontext
  | .comment => w.next
  | .line LABEL none => w.next.labelled LABEL t
  | .line LABEL (some (.known OF_STRUCT)) => (w.next.perform dialect OF_STRUCT t).labelled LABEL t
  | .line LABEL (some (.incl _)) => (w.next.put (.error t)).labelled LABEL t
  | .line LABEL (some _) => (w.next.put (.op t)).labelled LABEL t

/-- Whether it is one. -/
def Alone (t : Text) : Prop :=
  match dialect.op t with
  | some (.other false name _) => w.macfind name = none
  | some (.incl _) => w.INSTRUCT = true
  | _ => True

/-- A macro definition begins: a new name in pass 1, the same macro in pass 2. -/
def Defines (name : Name) (w₁ : World Text Name) : Prop :=
  (w.PASS = 1 ∧ w.next.macfind name = none ∧ w₁ = w.next.mcNew name) ∨
  (w.PASS ≠ 1 ∧ w₁ = w.next ∧ ∃ m, w.next.macfind name = some m ∧ m.MR_SEQ = w.next.LSEQ)

end World

/-- What assembling a source does, when `levels` more input levels are free: each line is
assembled if all of the conditions around it hold.  `skips` is what may stand in the parts that
are left out. -/
inductive Assembles (skips : Source dialect → Prop) :
    (levels : Nat) → World Text Name → Source dialect → World Text Name → Prop
  | nil {d w} : Assembles skips d w .nil w
  | line {d w t rest w'} (alone : w.Alone dialect t.1)
      (after : Assembles skips d (w.alone dialect t.1) rest w') :
      Assembles skips d w (.line t rest) w'
  | call {d w t rest w₁ w' name args m body}
      (op : dialect.op t.1 = some (.other false name args)) (found : w.macfind name = some m)
      (lines : Source.lines body = m.MR_LINES.map (dialect.macline m.MR_NAME args))
      (expansion : Assembles skips d
        ((w.next.newcontext.put (.expand t.1)).labelled (dialect.scan t.1).label t.1) body w₁)
      (after : Assembles skips (d + 1) { w₁ with CONTEXT := w.CONTEXT } rest w') :
      Assembles skips (d + 1) w (.line t rest) w'
  | incl {d w t rest w₁ w' name body} (op : dialect.op t.1 = some (.incl name))
      (outside : w.INSTRUCT = false) (found : dialect.findfile name = some (Source.lines body))
      (file : Assembles skips d
        ((w.next.put (.op t.1)).labelled (dialect.scan t.1).label t.1) body w₁)
      (after : Assembles skips (d + 1) w₁ rest w') :
      Assembles skips (d + 1) w (.line t rest) w'
  | holds {d w i yes e rest w₁ w'} (condition : dialect.holds? i.1 = some true)
      (outside : w.INSTRUCT = false) (part : Assembles skips d (w.mark dialect i.1) yes w₁)
      (still : w₁.INSTRUCT = false) (after : Assembles skips d (w₁.mark dialect e.1) rest w') :
      Assembles skips d w (.cond i yes e rest) w'
  | fails {d w i yes e rest w'} (condition : dialect.holds? i.1 = some false)
      (outside : w.INSTRUCT = false) (left : skips yes)
      (after : Assembles skips d
        (((w.next).passes dialect yes.lines).mark dialect e.1) rest w') :
      Assembles skips d w (.cond i yes e rest) w'
  | holdsElse {d w i yes l no e rest w₁ w'} (condition : dialect.holds? i.1 = some true)
      (outside : w.INSTRUCT = false) (part : Assembles skips d (w.mark dialect i.1) yes w₁)
      (still : w₁.INSTRUCT = false) (left : skips no)
      (after : Assembles skips d
        ((w₁.next.passes dialect no.lines).mark dialect e.1) rest w') :
      Assembles skips d w (.condElse i yes l no e rest) w'
  | failsElse {d w i yes l no e rest w₁ w'} (condition : dialect.holds? i.1 = some false)
      (outside : w.INSTRUCT = false) (left : skips yes)
      (part : Assembles skips d
        ((w.next.passes dialect yes.lines).mark dialect l.1) no w₁)
      (still : w₁.INSTRUCT = false) (after : Assembles skips d (w₁.mark dialect e.1) rest w') :
      Assembles skips d w (.condElse i yes l no e rest) w'
  | define {d w m body e rest w₁ w' name} (label : (dialect.scan m.1).label = some name)
      (outside : w.INSTRUCT = false) (begins : w.Defines name w₁)
      (after : Assembles skips d
        ((body.1.foldl (World.store dialect) w₁).next.newcontext.labelled
          (dialect.scan e.1).label e.1) rest w') :
      Assembles skips d w (.define m body e rest) w'

/-- Text that may be left out when `c` conditionals around it are being counted: at most 127 at
once, and no IF in a macro definition that is false there while there are two or more. -/
def Skippable : Nat → Source dialect → Prop
  | _, .nil => True
  | c, .line _ rest => Skippable c rest
  | c, .cond _ yes _ rest => c < 127 ∧ Skippable (c + 1) yes ∧ Skippable c rest
  | c, .condElse _ yes _ no _ rest =>
      c < 127 ∧ Skippable (c + 1) yes ∧ Skippable (c + 1) no ∧ Skippable c rest
  | c, .define _ body _ rest =>
      (∀ t ∈ body.1, dialect.holds? t = some false → c = 1) ∧ Skippable c rest

end Pugputer.Asmlink
