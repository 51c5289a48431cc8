import Pugputer.Objects.Relocatable

namespace Pugputer.Objects

/-! The object file that ASM writes. -/

open Asmlink (NAMEMAX)
open Linker (Chars Chunked CHUNKSZ SEF_BSS SEF_CONST)

def SNAMEMAX : Nat := 31

/-- A text that its NUL ends. -/
structure Named (most : Nat) (name : Chars) : Prop where
  some : name ≠ []
  nonul : 0#8 ∉ name
  fits : name.length ≤ most

/-- A relocation record; a value without terms gets none. -/
structure Relocation where
  size : Byte
  off : Word
  const : Word
  terms : Terms
  some : terms.list ≠ []
  named : ∀ t ∈ terms.list, ∀ name, t.id = .imp name → Named NAMEMAX name

/-- A section's entry, after pass 2; its relocations are newest first. -/
structure Section where
  name : Chars
  flags : Byte
  len : Word
  code : List (List Byte)
  relocs : List Relocation
  named : Named SNAMEMAX name
  known : flags.toNat < 4
  whole : Chunked (if flags &&& (SEF_BSS ||| SEF_CONST) = 0#8 then len.toNat else 0) code

/-- A symbol; a local one has its context, and the value is there if it is known. -/
structure Symbol where
  name : Chars
  ctx : Option Word
  set : Bool
  sect : Byte
  value : Option Relocatable
  named : Named NAMEMAX name

structure Object where
  /-- From the one that is numbered 1 on. -/
  sects : List Section
  /-- As SORTSYMS has them. -/
  syms : List Symbol
  /-- Newest first. -/
  exports : List Chars
  /-- SYMFIND, for the newest version. -/
  symfind : Chars → Option Symbol
  named : ∀ name ∈ exports, Named NAMEMAX name

variable (o : Object)

def Object.sect? (B : Byte) : Option Section := o.sects[B.toNat - 1]?

/-- What SECTENTB finds for a section, its name. -/
def Object.sectname (B : Byte) : Chars := ((o.sect? B).map Section.name).getD []

def wordBytes (v : Word) : List Byte := [hiByte v, loByte v]

/-- A string and its NUL. -/
def sputs (name : Chars) : List Byte := name ++ [0#8]

/-- DECSTR. -/
def decstr (v : Word) : Chars := (Nat.toDigits 10 v.toNat).map Asmlink.ch

/-- TALLSECT: every term is the section's base. -/
def tallsect (B : Byte) (v : Relocatable) : Bool :=
  !v.COMPLEX && v.EVNT.list.all fun t => t.id = .sect B

/-- WOVALUE. -/
def wovalue (B : Byte) (y : Symbol) : Option Word :=
  (y.value.filter (tallsect B)).map fun v => low v.EVAL

/-- A symbol's name in the file: a local one has its context at the end. -/
def Symbol.shown (y : Symbol) : Chars :=
  y.name ++ (y.ctx.map fun ctx => 1#8 :: decstr ctx).getD []

def basename (name : Chars) : Chars := 2#8 :: name

/-- The symbols of a section, its base first. -/
def woSyms (B : Byte) (x : Section) : List (Chars × Word) :=
  (if x.flags &&& SEF_CONST = 0#8 then [(basename x.name, 0#16)] else []) ++
    o.syms.filterMap fun y =>
      if y.sect ≠ B || y.set then none else (wovalue B y).map fun v => (y.shown, v)

def woExports (B : Byte) : List (Chars × Word) :=
  o.exports.filterMap fun name =>
    (o.symfind name).bind fun y =>
      if y.sect ≠ B then none else (wovalue B y).map fun v => (name, v)

def woSym (y : Chars × Word) : List Byte := sputs y.1 ++ wordBytes y.2

/-- WR_TLOOP's turn. -/
def woTerm (t : Term) : List Byte :=
  (if t.coef = 1#16 then [] else 1#8 :: wordBytes t.coef) ++
    (match t.id with
      | .sect B => 3#8 :: sputs (basename (o.sectname B))
      | .imp name => 2#8 :: sputs name) ++
    (if t.coef = 1#16 then [] else [4#8, 3#8])

/-- WR_OPS: one less than WOCNT. -/
def woOps (WOCNT : Byte) : List Byte := (List.replicate (WOCNT - 1#8).toNat [4#8, 1#8]).flatten

def woExpr (r : Relocation) : List Byte :=
  let NT := BitVec.ofNat 8 r.terms.list.length
  (if r.const = 0#16 then [] else 1#8 :: wordBytes r.const) ++
    r.terms.list.flatMap (woTerm o) ++
    woOps (if r.const = 0#16 then NT else NT + 1#8)

def woreloc (r : Relocation) : List Byte :=
  (if r.size = 1#8 then [0xFF#8, 1#8] else []) ++ woExpr o r ++ [0#8] ++ wordBytes r.off

/-- WOBYTES, while there is a chunk. -/
def wobytes : (WOI : Nat) → List (List Byte) → List Byte
  | _, [] => []
  | WOI, c :: cs => if WOI = 0 then [] else c.take (min WOI CHUNKSZ) ++ wobytes (WOI - CHUNKSZ) cs

def woFlags (flags : Byte) : List Byte :=
  (if flags &&& SEF_BSS = 0#8 then [] else [1#8]) ++
    (if flags &&& SEF_CONST = 0#8 then [] else [2#8])

def Section.size (x : Section) : Word := if x.flags &&& SEF_CONST = 0#8 then x.len else 0#16

/-- WO_SECT's turn. -/
def wosect (B : Byte) (x : Section) : List Byte :=
  sputs x.name ++ (woFlags x.flags ++ [0#8]) ++
    ((woSyms o B x).flatMap woSym ++ [0#8]) ++
    ((woExports o B).flatMap woSym ++ [0#8]) ++
    (x.relocs.flatMap (woreloc o) ++ [0#8]) ++
    wordBytes x.size ++
    (if x.flags &&& (SEF_BSS ||| SEF_CONST) = 0#8 then wobytes x.len.toNat x.code else [])

/-- From NSECT down to 1. -/
def Object.numbered : List (Byte × Section) :=
  (o.sects.zipIdx.map fun x => (BitVec.ofNat 8 (x.2 + 1), x.1)).reverse

/-- "LWOBJ16" and a NUL. -/
def magic : List Byte := "LWOBJ16".toList.map Asmlink.ch ++ [0#8]

def writeobj : List Byte := magic ++ o.numbered.flatMap (fun x => wosect o x.1 x.2) ++ [0#8]

end Pugputer.Objects
