import Pugputer.Edit.Doccopy
import Pugputer.Lib.LineEnds

namespace Pugputer.Edit

/-! LOADFILE and SAVEFILE. -/

def CR : Byte := 0x0D#8

variable (setup : Setup)

namespace Editor

/-- A new, empty text (the cut buffer is kept). -/
def newbuf (s : Editor) : Editor :=
  { s with
    GAPS := setup.ARENA_LO
    GAPE := s.CUTLO
    CURLINE := 1
    MARKPOS := 0
    BLINES := 0
    ALINES := 0
    BLEN := 0
    ALEN := 0
    LFOVER := 0
    MARKON := false }

/-- The window is full: its text goes to the store; false for carry set. -/
def ldSpill (s : Editor) : Bool × Editor :=
  let WANT := min (s.GAPS - setup.ARENA_LO) (s.spillroom setup)
  if WANT = 0 then (false, s) else s.spillf setup WANT

def doclen (s : Editor) : Nat := s.BLEN + s.ALEN + s.textlen setup

end Editor

/-- LOADFILE's variables; `y` is where the next character goes. -/
structure Loading where
  s : Editor
  y : Nat
  LASTCR : Bool := false
  SAWLF : Bool := false
  SAWCRLF : Bool := false
  LASTLD : Byte := LF

namespace Loading

/-- `none`: the store is full. -/
def ldPut (l : Loading) (a : Byte) : Option Loading :=
  let store (s : Editor) (y : Nat) : Loading :=
    { l with s := { s with pages := setup.poke s.pages y a }, y := y + 1, LASTLD := a }
  if l.y < l.s.GAPE then some (store l.s l.y)
  else
    match Editor.ldSpill setup { l.s with GAPS := l.y } with
    | (false, _) => none
    | (true, s) => some (store s s.GAPS)

/-- CR LF, CR and LF all become LF. -/
def ldByte (l : Loading) (a : Byte) : Option Loading :=
  if a = CR then ldPut setup { l with LASTCR := true } LF
  else if a = LF then
    -- the LF of a CR LF is already there
    if l.LASTCR then some { l with LASTCR := false, SAWCRLF := true }
    else ldPut setup { l with SAWLF := true } LF
  else ldPut setup { l with LASTCR := false } a

/-- A block that was read. -/
def ldBlock (l : Loading) (block : List Byte) : Option Loading :=
  (block.foldlM (ldByte setup) { l with y := l.s.GAPS }).map fun l =>
    { l with s := { l.s with GAPS := l.y } }

/-- LD_READ: 512 bytes at a time.  The fuel is the file's length. -/
def ldRead : (fuel : Nat) → Loading → (file : List Byte) → Option Loading
  | 0, l, _ => some l
  | fuel + 1, l, file =>
      if file = [] then some l
      else (l.ldBlock setup (file.take 512)).bind fun l => ldRead fuel l (file.drop 512)

end Loading

/-- A text that was read, how its lines are written, how many it has and how many were read. -/
structure Loaded where
  s : Editor
  DOSFMT : Bool
  NLINES : Nat
  NLW : Nat

/-- LD_EOF; `none` for LD_TOOMANY, or if GOTOABS doesn't end. -/
def ldEof (l : Loading) : Option Loaded :=
  let lfs := setup.countlf l.s.pages setup.ARENA_LO (l.s.curpos setup) + l.s.BLINES
  if 65536 ≤ lfs ∨ 65536 ≤ lfs + 1 ∨ l.s.LFOVER ≠ 0 then none
  else
    let s := { l.s with CURLINE := lfs + 1 }
    (s.gotoabs setup 0 (s.BLEN + 1)).map fun s =>
      { s
        DOSFMT := !(l.SAWLF && !l.SAWCRLF)
        NLINES := lfs + 1
        NLW := if l.LASTLD = LF then lfs else lfs + 1 }

/-- LOADFILE of a file with this content; `none` where an error is reported. -/
def loadfile (s : Editor) (file : List Byte) : Option Loaded :=
  let s := s.newbuf setup
  (Loading.ldRead setup file.length { s, y := s.GAPS } file).bind (ldEof setup)

variable (layout : Layout)

/-- RDSTART's and RDBYTE's variables. -/
structure Reader where
  s : Editor
  RDPOS : Nat := 0
  RDI : Nat := 0
  RDN : Nat := 0

/-- The whole text a character at a time; `none` at the end. -/
def rdbyte (r : Reader) : Option (Byte × Reader) :=
  if r.RDI < r.RDN then
    some (layout.view r.s.pages (layout.RDBUF + r.RDI), { r with RDI := r.RDI + 1 })
  else
    let n := min (min (r.s.doclen layout.toSetup - r.RDPOS) 0xFFFF) RDMAX
    if n = 0 then none
    else
      let s := r.s.doccopy layout.toSetup n r.RDPOS n layout.RDBUF
      some (layout.view s.pages layout.RDBUF, { s, RDPOS := r.RDPOS + n, RDI := 1, RDN := n })

/-- B_FWRITE on a disk that has `room` for the file. -/
def fwrite (room : Nat) (file bytes : List Byte) : Option (List Byte) :=
  if file.length + bytes.length ≤ room then some (file ++ bytes) else none

/-- SAVEFILE's variables; `iobuf` is what is in IOBUF before Y. -/
structure Saving where
  r : Reader
  iobuf : List Byte := []
  file : List Byte := []
  NLW : Nat := 0
  LASTCH : Byte := LF

namespace Saving

def sfNl (DOSFMT : Bool) (f : Saving) : Saving :=
  { f with
    iobuf := f.iobuf ++ if DOSFMT then [CR, LF] else [LF]
    NLW := (f.NLW + 1) % 65536 }

def sfFlush (room : Nat) (f : Saving) : Option Saving :=
  if f.iobuf = [] then some f
  else (fwrite room f.file f.iobuf).map fun file => { f with file, iobuf := [] }

/-- SF_PUT or SF_NL, and SF_CHK. -/
def sfChar (room : Nat) (DOSFMT : Bool) (f : Saving) (a : Byte) : Option Saving :=
  let f := { f with LASTCH := a }
  let f := if a = LF then f.sfNl DOSFMT else { f with iobuf := f.iobuf ++ [a] }
  if f.iobuf.length < 510 then some f else f.sfFlush room

/-- SF_LOOP, and SF_END; `none` for SF_FAIL.  The fuel is the text's length and one. -/
def sfLoop (room : Nat) (DOSFMT : Bool) : (fuel : Nat) → Saving → Option Saving
  | 0, f => some f
  | fuel + 1, f =>
      match rdbyte layout f.r with
      | some (a, r) => (sfChar room DOSFMT { f with r } a).bind (sfLoop room DOSFMT fuel)
      | none => (if f.LASTCH = LF then f else f.sfNl DOSFMT).sfFlush room

end Saving

/-- SAVEFILE: the file, the lines written and the editor after it; `none` where an error is
reported. -/
def savefile (room : Nat) (DOSFMT : Bool) (s : Editor) : Option (List Byte × Nat × Editor) :=
  (Saving.sfLoop layout room DOSFMT (s.doclen layout.toSetup + 1) { r := { s } }).map fun f =>
    (f.file, f.NLW, f.r.s)

end Pugputer.Edit
