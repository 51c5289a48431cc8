import Pugputer.Lib.Reading
import Pugputer.Linker.Records

namespace Pugputer.Objects

/-! The object files that LINK reads. -/

open Lib
open Linker (Chars Chunked CHUNKSZ SYMMAX SEF_BSS SEF_CONST Sym Sect)

/-- What stops LINK, or running out of fuel. -/
inductive Fatal
  | NOFILE | NOTOBJ | BADOBJ | BADFLAG | BADREL | spent
  deriving DecidableEq

abbrev Rd := Reading Byte Fatal

def obyte : Rd Byte := Reading.next .BADOBJ

def oword : Rd Word := do
  let hi ← obyte
  let lo ← obyte
  pure (word hi lo)

/-- OS_LOOP from the second byte on: there is room for so many, and the rest of them is dropped. -/
def osLoop : List Byte → (room : Nat) → Except Fatal (Chars × List Byte)
  | [], _ => .error .BADOBJ
  | A :: rest, room =>
      if A = 0#8 then .ok ([], rest)
      else
        match osLoop rest (room - 1) with
        | .error e => .error e
        | .ok (name, rest) => .ok (if room = 0 then name else A :: name, rest)

def ostring (A : Byte) : Rd { name : Chars // name ≠ [] } := do
  let name ← fun X => osLoop X (SYMMAX - 1)
  pure ⟨A :: name, List.cons_ne_nil A name⟩

/-- RY_LOOP's turn: a symbol goes to the list's head. -/
def readsym (A : Byte) (ys : List Sym) : Rd (List Sym) := do
  let name ← ostring A
  let val ← oword
  pure ({ name := name.1, val } :: ys)

def readsyms (fuel : Nat) : Rd (List Sym) :=
  Reading.entries .BADOBJ .spent 0#8 (fun A _ ys => readsym A ys) fuel []

/-- An expression that is read: X goes on from EXPRBUF. -/
structure Reread where
  RFLAGS : Byte
  X : Nat
  expr : List Linker.Term

/-- RR_STR, up to the NUL. -/
def rrStr : List Byte → (X : Nat) → Except Fatal ((Chars × Nat) × List Byte)
  | [], _ => .error .BADOBJ
  | A :: rest, X =>
      if A = 0#8 then .ok (([], X + 1), rest)
      else if 250 ≤ X + 1 then .error .BADREL
      else
        match rrStr rest (X + 1) with
        | .error e => .error e
        | .ok ((name, X), rest) => .ok ((A :: name, X), rest)

/-- RR_TERM. -/
def rrTerm (A : Byte) (s : Reread) : Rd Reread :=
  if A = 0xFF#8 then do
    let RFLAGS ← obyte
    pure { s with RFLAGS }
  else if 250 ≤ s.X then throw .BADREL
  else if A = 1#8 then do
    let v ← oword
    pure { s with X := s.X + 3, expr := s.expr ++ [.int v] }
  else if A = 2#8 then do
    let name ← fun rest => rrStr rest (s.X + 1)
    pure { s with X := name.2, expr := s.expr ++ [.ext name.1] }
  else if A = 3#8 then do
    let name ← fun rest => rrStr rest (s.X + 1)
    pure { s with X := name.2, expr := s.expr ++ [.loc name.1] }
  else if A = 4#8 then do
    let B ← obyte
    pure { s with X := s.X + 2, expr := s.expr ++ [.op B] }
  else if A = 5#8 then pure { s with X := s.X + 1, expr := s.expr ++ [.base] }
  else throw .BADREL

def readreloc (fuel : Nat) (A : Byte) : Rd Linker.Reloc := do
  let s ← rrTerm A { RFLAGS := 0, X := 0, expr := [] }
  let s ← Reading.entries .BADOBJ .spent 0#8 (fun A _ s => rrTerm A s) fuel s
  let off ← oword
  pure { off, flags := s.RFLAGS, expr := s.expr }

/-- RS_RELOC's turn. -/
def rsReloc (fuel : Nat) (A : Byte) (rs : List Linker.Reloc) : Rd (List Linker.Reloc) := do
  let r ← readreloc fuel A
  pure (r :: rs)

def readcode (n : Nat) : Rd { code : List (List Byte) // Chunked n code } :=
  if none : n = 0 then pure ⟨[], none⟩
  else do
    let c ← Reading.take .BADOBJ (min n CHUNKSZ)
    let cs ← readcode (n - CHUNKSZ)
    pure ⟨c.1 :: cs.1, Nat.pos_of_ne_zero none, c.2, cs.2⟩
termination_by n
decreasing_by
  rw [CHUNKSZ]
  omega

/-- RS_FLAG. -/
def rsFlag (A TMPB : Byte) : Rd Byte :=
  if A = 1#8 then pure (SEF_BSS ||| TMPB)
  else if A = 2#8 then pure (SEF_CONST ||| TMPB)
  else throw .BADFLAG

/-- RS_CODE: there are bytes, unless the section is bss. -/
def rsCode (flags : Byte) (size : Word) :
    Rd { code : List (List Byte) //
      Chunked (if flags &&& SEF_BSS = 0#8 then size.toNat else 0) code } :=
  if bss : flags &&& SEF_BSS = 0#8 then do
    let code ← readcode size.toNat
    pure ⟨code.1, (if_pos bss).symm ▸ code.2⟩
  else pure ⟨[], if_neg bss⟩

def readsect (fuel file : Nat) (A : Byte) : Rd Sect := do
  let name ← ostring A
  let flags ← Reading.entries .BADOBJ .spent 0#8 (fun A _ TMPB => rsFlag A TMPB) fuel 0#8
  let locals ← readsyms fuel
  let exports ← readsyms fuel
  let relocs ← Reading.entries .BADOBJ .spent 0#8 (fun A _ rs => rsReloc fuel A rs) fuel []
  let size ← oword
  let code ← rsCode flags size
  pure { file, flags, size, locals, exports, relocs, code := code.1, name := name.1,
         named := name.2, whole := code.2 }

/-- RF_MAGIC. -/
def rfMagic : List Byte → Rd Unit
  | [] => pure ()
  | c :: M => do
      let A ← Reading.next .NOTOBJ
      if A ≠ c then throw .NOTOBJ else rfMagic M

/-- RF_SECT's turn: a section goes to the list's end. -/
def rfSect (fuel file : Nat) (A : Byte) (SECTS : List Sect) : Rd (List Sect) := do
  let x ← readsect fuel file A
  pure (SECTS ++ [x])

/-- READFILES' turn. -/
def readfile (M : List Byte) (fuel file : Nat) (SECTS : List Sect) : Rd (List Sect) := do
  rfMagic M
  Reading.entries .BADOBJ .spent 0#8 (fun A _ SECTS => rfSect fuel file A SECTS) fuel SECTS

/-- READFILES, from CURFILE on; a file that is not there has no bytes to read. -/
def readfiles (M : List Byte) (fuel : Nat) :
    (CURFILE : Nat) → (SECTS : List Sect) → List (Option (List Byte)) → Except Fatal (List Sect)
  | _, SECTS, [] => .ok SECTS
  | _, _, none :: _ => .error .NOFILE
  | CURFILE, SECTS, some text :: files =>
      match readfile M fuel CURFILE SECTS text with
      | .error e => .error e
      | .ok (SECTS, _) => readfiles M fuel (CURFILE + 1) SECTS files

end Pugputer.Objects
