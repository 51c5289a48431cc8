import Mathlib.Data.List.FinRange
import Mathlib.Logic.Function.Basic
import Pugputer.Basic
import Pugputer.Asmlink.Arith

namespace Pugputer.Linker

/-! LINK's records. -/

def SYMMAX : Nat := 127
def CHUNKSZ : Nat := 1021
def ESTKMAX : Nat := 16

def SEF_BSS : Byte := 1#8
def SEF_CONST : Byte := 2#8

/-- From NAMEBUF up to LASTNAME; what is between them is not in use while sections are linked. -/
def NAMEROOM : Nat := 3 * (SYMMAX + 2)

abbrev Chars := List Byte

inductive Fault
  /-- A store outside of its buffer, or of its record. -/
  | stray
  /-- Out of fuel. -/
  | spent

structure Sym where
  name : Chars
  val : BitVec 16

/-- A term of a relocation's expression, which is in postfix. -/
inductive Term
  | int (v : BitVec 16)
  | ext (name : Chars)
  | loc (name : Chars)
  | op (B : Byte)
  | base

structure Reloc where
  off : BitVec 16
  flags : Byte
  expr : List Term

/-- `n` bytes in chunks that are full, but for the last one. -/
def Chunked : (n : Nat) → List (List Byte) → Prop
  | n, [] => n = 0
  | n, c :: cs => 0 < n ∧ c.length = min n CHUNKSZ ∧ Chunked (n - CHUNKSZ) cs

/-- A section, as it is read. -/
structure Sect where
  file : Nat
  flags : Byte
  size : BitVec 16
  locals : List Sym
  exports : List Sym
  relocs : List Reloc
  code : List (List Byte)
  name : Chars
  named : name ≠ []
  whole : Chunked (if flags &&& SEF_BSS = 0#8 then size.toNat else 0) code

def Sect.bss (x : Sect) : Bool := x.flags &&& SEF_BSS ≠ 0#8

def Sect.const (x : Sect) : Bool := x.flags &&& SEF_CONST ≠ 0#8

/-- A "section" line of the script; the name is empty for *. -/
structure SLine where
  name : Chars
  yes : Byte
  no : Byte
  load : BitVec 16
  hasload : Bool
  down : Bool

inductive Format
  | raw | srec | com

structure Script where
  slines : List SLine
  BPAT : Chars
  LPAT : Chars
  EXECSYM : Option Chars
  EXECADDR : BitVec 16
  FORMAT : Format

/-- What changes as `n` sections are linked. -/
structure Links (n : Nat) where
  proc : Fin n → Bool
  load : Fin n → BitVec 16
  code : Fin n → List (List Byte)
  /-- From OHEAD to OLAST. -/
  placed : List (Fin n)
  LADDR : BitVec 16
  GROWDN : Bool
  synth : List Sym
  SYMERR : Bool
  EXECADDR : BitVec 16

variable {n : Nat} (sect : Fin n → Sect)

def Links.start (EXECADDR : BitVec 16) : Links n where
  proc := fun _ => false
  load := fun _ => 0#16
  code := fun i => (sect i).code
  placed := []
  LADDR := 0#16
  GROWDN := false
  synth := []
  SYMERR := false
  EXECADDR := EXECADDR

/-! Symbols. -/

def Sect.export? (x : Sect) (name : Chars) : Option (BitVec 16) :=
  (x.exports.find? (·.name = name)).map (·.val)

/-- FINDEXPF's search: a section that has the export and is placed, or can come in. -/
def findexpf (RESONLY : Bool) (B : Nat) (name : Chars) (s : Links n) :
    List (Fin n) → Option (Fin n × BitVec 16)
  | [] => none
  | i :: rest =>
      if B ≠ 0 ∧ B ≠ (sect i).file then findexpf RESONLY B name s rest
      else
        match (sect i).export? name with
        | none => findexpf RESONLY B name s rest
        | some v =>
            if s.proc i || (sect i).const || RESONLY then some (i, v)
            else findexpf RESONLY B name s rest

/-- PO_LINK. -/
def Links.link (i : Fin n) (s : Links n) : Links n := { s with placed := s.placed ++ [i] }

/-- FX_CONSTIN: a constant section comes in, at 0. -/
def Links.constin (i : Fin n) (s : Links n) : Links n :=
  if s.proc i || !(sect i).const then s
  else
    Links.link i
      { s with proc := Function.update s.proc i true, load := Function.update s.load i 0#16 }

def symvalue (s : Links n) (i : Fin n) (v : BitVec 16) : BitVec 16 :=
  if (sect i).const then v else v + s.load i

/-- FINDEXT: synthetic symbols first, then that file's exports, then every file's in order. -/
def findext (RESONLY : Bool) (CURFILE : Nat) (name : Chars) (s : Links n) :
    Option (BitVec 16) × Links n :=
  match s.synth.find? (·.name = name) with
  | some y => (some y.val, s)
  | none =>
      let own := if CURFILE = 0 then none
        else findexpf sect RESONLY CURFILE name s (List.finRange n)
      match own.or (findexpf sect RESONLY 0 name s (List.finRange n)) with
      | none => (none, s)
      | some (i, v) =>
          let s := s.constin sect i
          (some (symvalue sect s i v), s)

def localIn (name : Chars) (s : Links n) (i : Fin n) : Option (BitVec 16) :=
  ((sect i).locals.find? (·.name = name)).map fun y => symvalue sect s i y.val

/-- FINDLOCAL: the section's symbols, then those of every section of its file. -/
def findlocal (i : Fin n) (name : Chars) (s : Links n) : Option (BitVec 16) :=
  (i :: (List.finRange n).filter fun j => (sect j).file = (sect i).file).findSome?
    (localIn sect name s)

end Pugputer.Linker
