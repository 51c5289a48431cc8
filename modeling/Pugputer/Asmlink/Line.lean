import Mathlib.Data.List.Basic

namespace Pugputer.Asmlink

/-! ASM's lines: DOLINE, conditional assembly, and macros. -/

def MAXDEPTH : Nat := 8

/-- An operation, with its constant operand if it has one.  `other` is one that isn't in the
table, or is the other CPU's; NOMACRO for one with ?? before it.  (The source ends before END.) -/
inductive Operation (Name Args : Type)
  | ifcond (TMPB : Nat) (EVAL : Int)
  | ifdef (DEFINED : Bool)
  | ifndef (DEFINED : Bool)
  | els
  | endc
  | macr
  | endm
  | incl (name : Args)
  | known (OF_STRUCT : Bool)
  | other (NOMACRO : Bool) (name : Name) (args : Args)
  deriving DecidableEq

namespace Operation

variable {Name Args : Type}

/-- IFCOND: whether the condition is false.  TMPB is 1 to 6 for EQ, NE, GT, GE, LT and LE. -/
def ifcFalse (TMPB : Nat) (EVAL : Int) : Bool :=
  if EVAL = 0 then TMPB = 2 || TMPB = 3 || TMPB = 5
  else if EVAL < 0 then TMPB = 1 || TMPB = 3 || TMPB = 4
  else TMPB = 1 || TMPB = 5 || TMPB = 6

/-- OF_COND. -/
def cond : Operation Name Args → Bool
  | incl _ | known _ | other _ _ _ => false
  | _ => true

/-- OF_ENDM. -/
def endm? : Operation Name Args → Bool
  | endm => true
  | _ => false

/-- Whether an IF's condition holds. -/
def holds? : Operation Name Args → Option Bool
  | ifcond TMPB EVAL => some !(ifcFalse TMPB EVAL)
  | ifdef DEFINED => some DEFINED
  | ifndef DEFINED => some !DEFINED
  | _ => none

end Operation

/-- A line's label and operation.  A blank line has none, a comment neither. -/
inductive Line (Name Args : Type)
  | blank
  | comment
  | line (LABEL : Option Name) (op : Option (Operation Name Args))
  deriving DecidableEq

namespace Line

variable {Name Args : Type}

def label : Line Name Args → Option Name
  | line LABEL _ => LABEL
  | _ => none

def op : Line Name Args → Option (Operation Name Args)
  | line _ op => op
  | _ => none

end Line

/-- What assembling a line does, besides macros and local-symbol contexts. -/
inductive Effect (Text : Type)
  | op (line : Text)
  | expand (line : Text)
  | label (line : Text)
  | error (line : Text)
  deriving DecidableEq

structure Macro (Text Name : Type) where
  MR_NAME : Name
  MR_SEQ : Nat
  MR_LINES : List Text
  deriving DecidableEq

/-- How a line is taken apart, how MACLINE puts the arguments in, the files there are, and what
INSTRUCT is after an operation. -/
structure Dialect (Text Name Args : Type) where
  scan : Text → Line Name Args
  macline : Name → Args → Text → Text
  findfile : Args → Option (List Text)
  instruct : List (Effect Text) → Text → Bool

/-- What assembling builds up. -/
structure World (Text Name : Type) where
  PASS : Nat
  LSEQ : Nat := 0
  CONTEXT : Nat := 0
  NEXTCTX : Nat := 0
  INSTRUCT : Bool := false
  MACROS : List (Macro Text Name) := []
  log : List (Effect Text) := []
  deriving DecidableEq

namespace World

variable {Text Name : Type} (w : World Text Name)

def put (e : Effect Text) : World Text Name := { w with log := w.log ++ [e] }

def newcontext : World Text Name :=
  { w with NEXTCTX := (w.NEXTCTX + 1) % 65536, CONTEXT := (w.NEXTCTX + 1) % 65536 }

def next : World Text Name := { w with LSEQ := (w.LSEQ + 1) % 65536 }

def macfind [DecidableEq Name] (name : Name) : Option (Macro Text Name) :=
  w.MACROS.find? fun m => m.MR_NAME = name

/-- A new macro, with no lines yet. -/
def mcNew (name : Name) : World Text Name :=
  { w with MACROS := ⟨name, w.LSEQ, []⟩ :: w.MACROS }

def macaddline (t : Text) : World Text Name :=
  if w.PASS = 1 then
    match w.MACROS with
    | m :: rest => { w with MACROS := { m with MR_LINES := m.MR_LINES ++ [t] } :: rest }
    | [] => w
  else w

/-- An operation that has nothing to do with conditions or macros. -/
def perform {Args : Type} (dialect : Dialect Text Name Args) (OF_STRUCT : Bool) (t : Text) :
    World Text Name :=
  if w.INSTRUCT && !OF_STRUCT then w.put (.error t)
  else { w.put (.op t) with INSTRUCT := dialect.instruct w.log t }

/-- The label, here or by the operation itself. -/
def labelled (LABEL : Option Name) (t : Text) : World Text Name :=
  if LABEL.isSome then w.put (.label t) else w

end World

/-- An input level: what is left of a file, or of a macro's expansion (with the context to go
back to). -/
structure Level (Text : Type) where
  lines : List Text
  IR_SAVECTX : Option Nat := none
  deriving DecidableEq

structure Asm (Text Name : Type) extends World Text Name where
  SKIPCOND : Bool := false
  SKIPCOUNT : BitVec 8 := 0
  SKIPMACRO : Bool := false
  INMACRO : Bool := false
  levels : List (Level Text)
  deriving DecidableEq

namespace Asm

variable {Text Name Args : Type} [DecidableEq Name] (dialect : Dialect Text Name Args)
  (s : Asm Text Name)

def skipstart : Asm Text Name := { s with SKIPCOND := true, SKIPCOUNT := 1#8 }

/-- `none` if the IF isn't just counted. -/
def ifnested : Option (Asm Text Name) :=
  if s.SKIPCOND && !s.SKIPMACRO then some { s with SKIPCOUNT := s.SKIPCOUNT + 1#8 } else none

def dIf (holds : Bool) : Asm Text Name :=
  match s.ifnested with
  | some s => s
  | none => if holds then s else s.skipstart

def dElse : Asm Text Name :=
  if s.SKIPMACRO then s
  else if !s.SKIPCOND then s.skipstart
  else if s.SKIPCOUNT = 1#8 then { s with SKIPCOUNT := 0#8, SKIPCOND := false }
  else s

def dEndc : Asm Text Name :=
  if !s.SKIPCOND then s
  else if s.SKIPMACRO then s
  -- DEC, BGT: signed
  else if 1 < s.SKIPCOUNT.toInt then { s with SKIPCOUNT := s.SKIPCOUNT - 1#8 }
  else { s with SKIPCOUNT := s.SKIPCOUNT - 1#8, SKIPCOND := false }

def dMacro (LABEL : Option Name) (t : Text) : Asm Text Name :=
  if s.SKIPCOND then { s with SKIPMACRO := true }
  else if s.INMACRO then { s with toWorld := s.put (.error t) }
  else
    match LABEL with
    | none => { s with toWorld := s.put (.error t) }
    | some name =>
        match s.macfind name with
        | some m =>
            if m.MR_SEQ = s.LSEQ then { s with INMACRO := true }
            else { s with toWorld := s.put (.error t) }
        | none =>
            if s.PASS = 1 then { s with toWorld := s.mcNew name, INMACRO := true }
            else { s with INMACRO := true }

def dEndm (t : Text) : Asm Text Name :=
  if s.SKIPCOND then { s with SKIPMACRO := false }
  else if s.INMACRO then { s with toWorld := s.newcontext, INMACRO := false }
  else { s with toWorld := s.put (.error t) }

/-- A new input level; `none` if there are too many. -/
def pushin (level : Level Text) : Option (Asm Text Name) :=
  if MAXDEPTH ≤ s.levels.length then none else some { s with levels := level :: s.levels }

/-- A macro's lines become the input. -/
def macexpand (m : Macro Text Name) (args : Args) (t : Text) : Option (Asm Text Name) :=
  let level : Level Text := ⟨m.MR_LINES.map (dialect.macline m.MR_NAME args), some s.CONTEXT⟩
  pushin { s with toWorld := s.newcontext.put (.expand t) } level

/-- A file's lines do; `none` if it can't be found, too. -/
def dInclude (name : Args) (t : Text) : Option (Asm Text Name) :=
  (dialect.findfile name).bind fun lines =>
    pushin { s with toWorld := s.put (.op t) } ⟨lines, none⟩

/-- DL_CALL, for a conditional or macro directive. -/
def dispatch (LABEL : Option Name) (t : Text) : Operation Name Args → Asm Text Name
  | .els => s.dElse
  | .endc => s.dEndc
  | .macr => s.dMacro LABEL t
  | .endm => s.dEndm t
  | op => s.dIf (op.holds?.getD true)

/-- DL_NOTSKIP; `none` for a fatal error. -/
def notskip (LABEL : Option Name) (t : Text) : Operation Name Args → Option (Asm Text Name)
  | .other NOMACRO name args =>
      match if NOMACRO then none else s.macfind name with
      | some m => s.macexpand dialect m args t
      | none => some { s with toWorld := s.put (.op t) }
  | .incl name =>
      if s.INSTRUCT then some { s with toWorld := s.put (.error t) }
      else s.dInclude dialect name t
  | .known OF_STRUCT => some { s with toWorld := s.perform dialect OF_STRUCT t }
  | op =>
      if s.INSTRUCT then some { s with toWorld := s.put (.error t) }
      else some (s.dispatch LABEL t op)

/-- DL_KNOWN: in a macro definition only ENDM counts, and only conditionals in skipped lines. -/
def operation (LABEL : Option Name) (t : Text) (op : Operation Name Args) :
    Option (Asm Text Name) :=
  if s.INMACRO && !op.endm? then some s
  else if s.SKIPCOND && !op.cond then some s
  else s.notskip dialect LABEL t op

/-- DL_LINEDONE. -/
def linedone (WASMACRO : Bool) (LABEL : Option Name) (t : Text) : Asm Text Name :=
  let s := if WASMACRO && s.INMACRO then { s with toWorld := s.macaddline t } else s
  if s.SKIPCOND || s.INMACRO then s else { s with toWorld := s.labelled LABEL t }

def doline (t : Text) : Option (Asm Text Name) :=
  let s := { s with toWorld := s.next }
  match dialect.scan t with
  | .blank => some { s with toWorld := s.newcontext }
  | .comment => some s
  | .line LABEL none => some (s.linedone s.INMACRO LABEL t)
  | .line LABEL (some op) =>
      (s.operation dialect LABEL t op).map fun s' => s'.linedone s.INMACRO LABEL t

/-- The next line of the input, or the end of a level of it; nothing happens when all of it is
done. -/
def step : Option (Asm Text Name) :=
  match s.levels with
  | [] => some s
  | ⟨[], IR_SAVECTX⟩ :: levels =>
      some { s with CONTEXT := IR_SAVECTX.getD s.CONTEXT, levels }
  | ⟨t :: lines, IR_SAVECTX⟩ :: levels =>
      doline dialect { s with levels := ⟨lines, IR_SAVECTX⟩ :: levels } t

/-- So many steps of DOPASS; `none` for a fatal error. -/
def dopass : Nat → Asm Text Name → Option (Asm Text Name)
  | 0, s => some s
  | n + 1, s => (s.step dialect).bind (dopass n)

/-- What DOPASS starts with. -/
def start (PASS : Nat) (MACROS : List (Macro Text Name)) (lines : List Text) : Asm Text Name :=
  { PASS, MACROS, levels := [⟨lines, none⟩] }

end Asm

end Pugputer.Asmlink
