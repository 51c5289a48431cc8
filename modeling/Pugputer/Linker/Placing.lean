import Pugputer.Linker.Records

namespace Pugputer.Linker

/-! Placing the sections. -/

variable {n : Nat} (sect : Fin n → Sect)

def preTerm (x : Sect) (s : Links n) : Term → Links n
  | .ext name => (findext sect true x.file name s).2
  | _ => s

def preReloc (x : Sect) (s : Links n) (r : Reloc) : Links n := r.expr.foldl (preTerm sect x) s

def preSect (s : Links n) (i : Fin n) : Links n :=
  (sect i).relocs.foldl (preReloc sect (sect i)) s

/-- PRECONST: every external name of every relocation is looked up. -/
def preconst (s : Links n) : Links n := (List.finRange n).foldl (preSect sect) s

def placeone (s : Links n) (i : Fin n) : Links n :=
  let s := { s with proc := Function.update s.proc i true }
  if s.GROWDN then
    let LADDR := s.LADDR - (sect i).size
    Links.link i { s with LADDR, load := Function.update s.load i LADDR }
  else
    Links.link i
      { s with LADDR := s.LADDR + (sect i).size, load := Function.update s.load i s.LADDR }

/-- PLACENAME: every section of the name, not constant, not placed yet. -/
def placename (NAME2 : Chars) (s : Links n) : Links n :=
  (List.finRange n).foldl (fun s i =>
    if (sect i).const || s.proc i || (sect i).name ≠ NAME2 then s else placeone sect s i) s

/-- The flags asked for. -/
def SLine.wants (l : SLine) (x : Sect) : Bool :=
  !x.const && (l.no = 0#8 || l.no &&& x.flags = 0#8) && (l.yes = 0#8 || l.yes &&& x.flags ≠ 0#8)

def placeline (s : Links n) (l : SLine) : Links n :=
  let s := if l.hasload then { s with LADDR := l.load, GROWDN := l.down } else s
  if l.name ≠ [] then placename sect l.name s
  else
    (List.finRange n).foldl (fun s i =>
      if !l.wants (sect i) || s.proc i then s else placename sect (sect i).name s) s

def place (slines : List SLine) (s : Links n) : Links n :=
  slines.foldl (placeline sect) { s with LADDR := 0#16, GROWDN := false }

/-! Synthetic symbols. -/

/-- A pattern with the name for each %s. -/
def expand (LASTNAME : Chars) : (pat : Chars) → Chars
  | [] => []
  | 0x25#8 :: 0x73#8 :: pat => LASTNAME ++ expand LASTNAME pat
  | c :: pat => c :: expand LASTNAME pat

/-- Over LASTNAME, the name that is being copied would go. -/
def synsym (pat LASTNAME : Chars) (val : BitVec 16) (synth : List Sym) : Except Fault (List Sym) :=
  if (expand LASTNAME pat).length < NAMEROOM then
    .ok ({ name := expand LASTNAME pat, val } :: synth)
  else .error .stray

/-- GSPAIR: the length symbol, then the base symbol. -/
def gspair (BPAT LPAT LASTNAME : Chars) (GRPLEN GRPLOW : BitVec 16) (synth : List Sym) :
    Except Fault (List Sym) :=
  (if LPAT = [] then .ok synth else synsym LPAT LASTNAME GRPLEN synth).bind fun synth =>
    if BPAT = [] then .ok synth else synsym BPAT LASTNAME GRPLOW synth

/-- At a new name, or at the end. -/
def gsNew (BPAT LPAT LASTNAME : Chars) (GRPLEN GRPLOW : BitVec 16) (synth : List Sym) :
    Except Fault (List Sym) :=
  if LASTNAME = [] then .ok synth else gspair BPAT LPAT LASTNAME GRPLEN GRPLOW synth

/-- GS_LOOP, with the sections that are left; LASTNAME is empty at first. -/
def gsLoop (BPAT LPAT : Chars) (load : Fin n → BitVec 16) : List (Fin n) → (LASTNAME : Chars) →
    (GRPLEN GRPLOW : BitVec 16) → List Sym → Except Fault (List Sym)
  | [], LASTNAME, GRPLEN, GRPLOW, synth => gsNew BPAT LPAT LASTNAME GRPLEN GRPLOW synth
  | i :: rest, LASTNAME, GRPLEN, GRPLOW, synth =>
      if LASTNAME ≠ [] ∧ (sect i).name = LASTNAME then
        gsLoop BPAT LPAT load rest LASTNAME (GRPLEN + (sect i).size)
          (if load i < GRPLOW then load i else GRPLOW) synth
      else
        (gsNew BPAT LPAT LASTNAME GRPLEN GRPLOW synth).bind
          (gsLoop BPAT LPAT load rest (sect i).name (sect i).size (load i))

def gensyms (script : Script) (s : Links n) : Except Fault (Links n) :=
  if script.BPAT = [] ∧ script.LPAT = [] then .ok s
  else
    (gsLoop sect script.BPAT script.LPAT s.load s.placed [] 0#16 0#16 s.synth).map fun synth =>
      { s with synth }

def entry (script : Script) (s : Links n) : Links n :=
  match script.EXECSYM with
  | none => s
  | some name =>
      match findext sect false 0 name s with
      | (some EXECADDR, s) => { s with EXECADDR }
      | (none, s) => { s with SYMERR := true }

end Pugputer.Linker
